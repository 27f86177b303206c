import ZtHttp.SimHttp.Replies

/-!
# What holds of every request

The reply to a client is the only one. It shows nothing of what the arrays held
before, but for the page of `bad_request`, and the character that is passed on
for a body that has not begun. Nothing that was sent is taken back and nothing is
read twice. The socket is closed once, by a request that returns, and by none that
names another method.
-/

namespace ZtHttp.SimHttp

open Imperative Imperative.InputStream
open Http (Delivers)
open Transition.Lts (play play_preserves)

variable {σ : Type} {env : Env σ} {request : Request} {client : Client}

/-! ### Memory that is not initialised -/

/-- What is sent of a file is given by what its reads give. -/
theorem copied_unique {resource : InputStream} {content content' copied copied' : List Byte}
    (hcontent : Delivers resource content) (hcopied : Copied content copied)
    (hcontent' : Delivers resource content') (hcopied' : Copied content' copied') :
    copied = copied' := by
  obtain ⟨spoil, rfl⟩ := hcontent
  obtain ⟨spoil', heq⟩ := hcontent'
  have hfuel : content.length < content.length + content'.length + 1 := by omega
  have hfuel' : content'.length < content.length + content'.length + 1 := by omega
  obtain ⟨next, last, hread, hloop⟩ :=
    @catLoop_copied spoil _ _ hcopied _ hfuel (.replicate 1024 0) ⟨[], [], 0⟩
  obtain ⟨next', last', hread', hloop'⟩ :=
    @catLoop_copied spoil' _ _ hcopied' _ hfuel' (.replicate 1024 0) ⟨[], [], 0⟩
  rw [heq, hread'] at hread
  cases hread
  rw [hloop'] at hloop
  simpa using hloop.symm

theorem Answered.unique {length : Int} {result result' : EStateM.Result Fault Client Ending}
    (hanswer : Answered env request length client result)
    (hanswer' : Answered env request length client result') : result = result' := by
  -- two different kinds of answer have conditions that exclude each other
  cases hanswer <;> cases hanswer' <;> simp_all [Request.runs]
  case file.file hcontent hcopied _ _ hcontent' hcopied' =>
    exact copied_unique hcontent hcopied hcontent' hcopied'

theorem Reply.unique {result result' : EStateM.Result Fault Client Ending}
    (hreply : Reply env client result) (hreply' : Reply env client result') :
    result = result' := by
  cases hreply with
  | unimplemented hline =>
      cases hreply' with
      | unimplemented => rfl
      | answered hline' => exact absurd (hline.symm.trans hline') nofun
  | answered hline hanswer =>
      cases hreply' with
      | unimplemented hline' => exact absurd (hline'.symm.trans hline) nofun
      | answered hline' hanswer' =>
          cases hline.symm.trans hline'
          exact hanswer.unique hanswer'

/-- The arrays that a reply may show are the same in both, as far as they are
shown. -/
def SameShown (locals locals' : Locals) : Prop :=
  locals.pageBuf.toList.drop 27 = locals'.pageBuf.toList.drop 27 ∧ locals.c = locals'.c

theorem SameShown.page {locals locals' : Locals} (hsame : SameShown locals locals') :
    wholePage badRequestTexts locals.pageBuf.toList =
      wholePage badRequestTexts locals'.pageBuf.toList := by
  have hpages := @wholePage_eq_iff (ascii "HTTP/1.0 400 BAD REQUEST\r\n") badRequestTexts.tail
    locals.pageBuf.toList locals'.pageBuf.toList (by simp)
  rw [show (ascii "HTTP/1.0 400 BAD REQUEST\r\n").length = 26 by decide] at hpages
  exact hpages.mpr hsame.1

theorem Answered.of_sameShown {locals : Locals} (hsame : SameShown locals env.locals) {length : Int}
    {result : EStateM.Result Fault Client Ending}
    (hanswer : Answered { env with locals } request length client result) :
    Answered env request length client result := by
  cases hanswer with
  | missing hstat => exact .missing hstat
  | unopened hstat hplain hopen => exact .unopened hstat hplain hopen
  | file hstat hplain hopen hcontent hcopied =>
      exact .file hstat hplain hopen hcontent hcopied
  | badRequest hstat hpost hlength =>
      dsimp only
      rw [hsame.page]
      exact .badRequest hstat hpost hlength
  | cannotExecute hstat hruns hlength hsystem => exact .cannotExecute hstat hruns hlength hsystem
  | program hstat hruns hlength hsystem hlast =>
      refine @Answered.program σ env _ _ _ _ hstat hruns hlength hsystem _ ?_
      rw [hlast, Env.exchanged, Env.exchanged, hsame.2]
      rfl

theorem Reply.of_sameShown {locals : Locals} (hsame : SameShown locals env.locals)
    {result : EStateM.Result Fault Client Ending}
    (hreply : Reply { env with locals } client result) : Reply env client result := by
  cases hreply with
  | unimplemented hline => exact .unimplemented hline
  | answered hline hanswer => exact .answered hline (hanswer.of_sameShown hsame)

/-- Two servers whose arrays held different things before give a client the same
reply, unless they differ in what `bad_request` shows or in the first `c`. -/
theorem acceptRequest_locals {locals : Locals} (hsame : SameShown locals env.locals)
    (hserved : Served env client) :
    acceptRequest { env with locals } client = acceptRequest env client := by
  have hother : Served { env with locals } client := ⟨hserved.fuel, hserved.files, hserved.reaches⟩
  exact ((reply_of_served hother).of_sameShown hsame).unique (reply_of_served hserved)

/-- A server whose arrays were not zeros. -/
theorem otherMemory_same :
    acceptRequest { Env.oneFile (ascii "hi\n") with
        locals := { Locals.blank with cgiBuf := .replicate 1024 65 } } fileClient =
      acceptRequest (.oneFile (ascii "hi\n")) fileClient :=
  acceptRequest_locals ⟨rfl, rfl⟩ fileClient_served

/-! ### Files -/

/-- A file is sent whole behind the headers if and only if it has no NUL, and its
last line without a line feed fills the array a whole number of times. -/
theorem file_sent_iff {mode : UInt32} {resource : InputStream} {content : List Byte}
    (hfuel : client.input.length + 1 < env.fuel) (hread : content.length < env.fuel)
    (hline : parseLine client.line = some request)
    (hstat : env.files.stat request.name = some mode) (hplain : request.runs mode = false)
    (hopen : env.files.fopen (Http.servedName request.name mode) = some resource)
    (hcontent : Delivers resource content) :
    acceptRequest env client = .ok .returned
        { input := client.body
          sent := client.sent ++ headersTexts.flatten ++ content
          closes := client.closes + 1 } ↔
      0 ∉ content ∧ 1023 ∣ (Http.lastLine content).length := by
  obtain ⟨copied, hcopied⟩ := copied_exists content
  obtain ⟨buf, path, method, url, query, -, hholds, hreply⟩ :=
    @acceptRequest_parsed σ env request client hline
  have hfile : ∀ found, env.files.fopen (Http.servedName request.name mode) = some found →
      ∃ content, Delivers found content ∧ content.length < env.fuel := by
    intro found hfound
    cases hopen.symm.trans hfound
    exact ⟨content, hcontent, hread⟩
  have hanswer := @answered_file σ env request path method url query client buf mode hfuel hfile
    hline hholds hstat hplain 0
  rw [hreply, hanswer.unique (.file hstat hplain hopen hcontent hcopied), ← hcopied.whole_iff]
  simp

/-- A file of one line with its line feed. -/
theorem fileClient_sent : acceptRequest (.oneFile (ascii "hi\n")) fileClient = .ok .returned
    { input := fileClient.body
      sent := fileClient.sent ++ headersTexts.flatten ++ ascii "hi\n"
      closes := fileClient.closes + 1 } :=
  (@file_sent_iff _ _ ⟨ascii "GET", ascii "/a", none⟩ _ 0o100644 _ _ (by decide) (by decide) rfl rfl
    rfl rfl ⟨_, rfl⟩).mpr (by decide)

/-! ### The socket -/

/-- What a request does to its socket up to `close`, wherever it is stopped. -/
structure Frame (before after : Client) : Prop where
  input : after.input <:+ before.input
  sent : before.sent <+: after.sent
  closes : after.closes = before.closes

theorem Frame.refl (client : Client) : Frame client client :=
  ⟨List.suffix_rfl, List.prefix_rfl, rfl⟩

theorem Frame.trans (first middle last : Client) (hleft : Frame first middle)
    (hright : Frame middle last) : Frame first last :=
  ⟨hright.input.trans hleft.input, hleft.sent.trans hright.sent,
    hright.closes.trans hleft.closes⟩

namespace Frame

variable {α β : Type}

theorem bind {method : Method Client α} {rest : α → Method Client β}
    (hmethod : Method.Respects Frame method) (hrest : ∀ value, Method.Respects Frame (rest value)) :
    Method.Respects Frame (method >>= rest) :=
  Method.Respects.bind Frame.trans hmethod hrest

theorem of_pure (value : α) : Method.Respects Frame (pure value : Method Client α) :=
  fun client => Frame.refl client

theorem of_ofExcept (result : Except Fault α) :
    Method.Respects Frame (Method.ofExcept result : Method Client α) := by
  intro client
  cases result <;> exact Frame.refl client

theorem of_send (bytes : List Byte) : Method.Respects Frame (send bytes) :=
  fun _ => ⟨List.suffix_rfl, List.prefix_append _ _, rfl⟩

theorem of_sendPage (part : CharArray 1024 → Except Fault (List Byte)) (texts : List (List Byte))
    (buf : CharArray 1024) : Method.Respects Frame (sendPage part texts buf) := by
  induction texts generalizing buf with
  | nil => exact of_pure ()
  | cons text texts ih =>
      exact bind (of_ofExcept _) fun next => bind (of_ofExcept _) fun bytes =>
        bind (of_send bytes) fun _ => ih next

theorem of_getClientLine (buf : CharArray 1024) :
    Method.Respects Frame (getClientLine buf) := by
  intro client
  obtain ⟨next, hread, -⟩ := getClientLine_eq buf client
  rw [Method.after_ok hread]
  exact ⟨nextLine_suffix _ _, List.prefix_rfl, rfl⟩

theorem of_discardHeaders (fuel : Nat) (buf : CharArray 1024) (numchars : Nat) :
    Method.Respects Frame (discardHeaders fuel buf numchars) := by
  induction fuel generalizing buf numchars with
  | zero => exact of_ofExcept _
  | succ fuel ih =>
      rw [discardHeaders]
      split
      · exact of_pure ()
      · refine bind (of_ofExcept _) fun blank => ?_
        cases blank with
        | true => exact of_pure ()
        | false => exact bind (of_getClientLine buf) fun line => ih line.1 line.2

theorem of_readLength (fuel : Nat) (buf : CharArray 1024) (numchars : Nat) (found : Int) :
    Method.Respects Frame (readLength fuel buf numchars found) := by
  induction fuel generalizing buf numchars found with
  | zero => exact of_ofExcept _
  | succ fuel ih =>
      rw [readLength]
      split
      · exact of_pure found
      · refine bind (of_ofExcept _) fun blank => ?_
        cases blank with
        | true => exact of_pure found
        | false =>
            refine bind (of_ofExcept _) fun name => bind (of_ofExcept _) fun same => ?_
            cases same with
            | true =>
                exact bind (bind (of_ofExcept _) fun _ => of_pure _) fun length =>
                  bind (of_getClientLine name) fun line => ih line.1 line.2 length
            | false =>
                exact bind (of_pure _) fun length =>
                  bind (of_getClientLine name) fun line => ih line.1 line.2 length

theorem of_catLoop (fuel : Nat) (buf : CharArray 1024) (resource : InputStream) :
    Method.Respects Frame (catLoop fuel buf resource) := by
  induction fuel generalizing buf resource with
  | zero => exact of_ofExcept _
  | succ fuel ih =>
      rw [catLoop]
      split
      · exact of_pure ()
      · exact bind (of_ofExcept _) fun bytes => bind (of_send bytes) fun _ =>
          bind (of_ofExcept _) fun next => ih next.1 next.2

theorem of_serveFile (env : Env σ) (filename : List Byte) :
    Method.Respects Frame (serveFile env filename) := by
  refine bind (of_ofExcept _) fun buf => bind (of_discardHeaders _ _ _) fun _ => ?_
  cases env.files.fopen filename with
  | none => exact bind (of_sendPage _ _ _) fun _ => of_ofExcept _
  | some resource =>
      exact bind (of_sendPage _ _ _) fun _ => bind (of_ofExcept _) fun next =>
        of_catLoop _ next.1 next.2

/-- The parent takes its characters off the socket in order. -/
theorem next_socket {program : Processes.Program Byte σ} {capacity : Nat}
    {exchange after : Exchange σ} {mover : Mover}
    (hnext : exchange.next program capacity mover = some after) :
    after.socket <:+ exchange.socket := by
  cases mover with
  | child =>
      simp only [Exchange.next] at hnext
      split at hnext
      · obtain ⟨piped, -, rfl⟩ := Option.map_eq_some_iff.mp hnext
        exact List.suffix_rfl
      · cases hnext
        exact List.suffix_rfl
  | parent =>
      simp only [Exchange.next, Exchange.advance] at hnext
      split at hnext
      · cases hnext
        exact List.suffix_rfl
      · cases hnext
        exact List.suffix_rfl
      · cases hnext
        exact List.tail_suffix _
      · split_ifs at hnext <;> cases hnext <;> exact List.suffix_rfl
      · split at hnext
        · cases hnext
          exact List.suffix_rfl
        · obtain ⟨-, heq⟩ := Option.ite_none_right_eq_some.mp hnext
          cases heq
          exact List.suffix_rfl
      · contradiction
      · contradiction

theorem play_socket (program : Processes.Program Byte σ) (capacity : Nat) (movers : List Mover)
    (exchange : Exchange σ) :
    (play (Exchange.next program capacity) movers exchange).socket <:+ exchange.socket := by
  refine play_preserves (fun after : Exchange σ => after.socket <:+ exchange.socket) ?_ movers
    List.suffix_rfl
  intro middle mover after hmiddle hnext
  exact (next_socket hnext).trans hmiddle

theorem of_exchange (env : Env σ) (isPost : Bool) (length : Int) (start : Forked σ) :
    Method.Respects Frame (exchange env isPost length start) :=
  fun _ => ⟨play_socket _ _ _ _, List.prefix_append _ _, rfl⟩

theorem of_executeCgi (env : Env σ) (path : CharArray 512) (method url : CharArray 255)
    (query : Nat) : Method.Respects Frame (executeCgi env path method url query) := by
  have hrun : ∀ isGet isPost length,
      Method.Respects Frame (runProgram env path method url query isGet isPost length) := by
    intro isGet isPost length
    rw [runProgram]
    split_ifs
    · exact bind (of_sendPage _ _ _) fun _ => of_pure _
    · exact bind (of_sendPage _ _ _) fun _ => of_pure _
    · exact of_exchange _ _ _ _
  refine bind (of_ofExcept _) fun buf => bind (of_ofExcept _) fun isGet =>
    bind (of_ofExcept _) fun isPost => ?_
  cases isGet with
  | true =>
      exact bind (of_discardHeaders _ _ _) fun _ => bind (of_pure _) fun length =>
        hrun true isPost length
  | false =>
      cases isPost with
      | true =>
          exact bind (of_getClientLine buf) fun line =>
            bind (of_readLength _ line.1 line.2 _) fun length => hrun false true length
      | false => exact bind (of_pure _) fun length => hrun false false length

theorem of_answer (env : Env σ) (request : Request) (buf : CharArray 1024) (numchars : Nat)
    (path : CharArray 512) (method url : CharArray 255) (query : Nat) :
    Method.Respects Frame (answer env request buf numchars path method url query) := by
  rw [answer]
  split
  · exact bind (of_discardHeaders _ _ _) fun _ => bind (of_sendPage _ _ _) fun _ => of_pure _
  · refine bind (of_ofExcept _) fun served => ?_
    split
    · exact of_executeCgi _ _ _ _ _
    · exact bind (of_ofExcept _) fun name => bind (of_serveFile env name) fun _ => of_pure _

end Frame

/-- `accept_request` has returned, for a method that is implemented. -/
def Returned (env : Env σ) (client : Client) : Prop :=
  Http.ImplementedMethod (lineMethod client.line) ∧
    ∃ after, acceptRequest env client = .ok .returned after

/-- Whatever the client sends, the files hold and the arrays held, a request takes
the front of its input off and sends behind what was sent. It closes the socket
once if it returns and its method is implemented, and otherwise never, also where
it is stopped. -/
theorem acceptRequest_frame (env : Env σ) (client : Client) : ∃ after closes,
    (acceptRequest env).after client = after ∧ after.input <:+ client.input ∧
      client.sent <+: after.sent ∧ after.closes = client.closes + closes ∧ closes ≤ 1 ∧
      (closes = 1 ↔ Returned env client) := by
  cases hline : parseLine client.line with
  | none =>
      obtain ⟨hget, hpost⟩ := parseLine_none hline
      refine ⟨_, 0, Method.after_ok (acceptRequest_unimplemented hline), nextLine_suffix _ _,
        List.prefix_append _ _, rfl, Nat.zero_le 1, iff_of_false Nat.zero_ne_one ?_⟩
      rintro ⟨hmethod | hmethod, -⟩
      · exact hget hmethod
      · exact hpost hmethod
  | some request =>
      obtain ⟨hmethod, himplemented⟩ := parseLine_method hline
      rw [hmethod] at himplemented
      obtain ⟨buf, path, method, url, query, -, -, hparsed⟩ :=
        @acceptRequest_parsed σ env request client hline
      have hframe := Frame.of_answer env request buf client.line.length path method url query
        { client with input := (nextLine 1023 client.input).2 }
      cases hanswer : answer env request buf client.line.length path method url query
        { client with input := (nextLine 1023 client.input).2 } with
      | error fault after =>
          rw [Method.after_error hanswer] at hframe
          have hresult := hparsed.trans (Method.bind_error hanswer)
          refine ⟨after, 0, Method.after_error hresult, hframe.input.trans (nextLine_suffix _ _),
            hframe.sent, hframe.closes, Nat.zero_le 1, iff_of_false Nat.zero_ne_one ?_⟩
          rintro ⟨-, last, hreturned⟩
          exact absurd (hresult.symm.trans hreturned) nofun
      | ok ending after =>
          rw [Method.after_ok hanswer] at hframe
          have hresult := hparsed.trans (bind_close hanswer)
          refine ⟨_, if ending = .returned then 1 else 0, Method.after_ok hresult,
            hframe.input.trans (nextLine_suffix _ _), hframe.sent,
            congrArg (· + _) hframe.closes, ?_, ?_⟩
          · split <;> decide
          · rw [Returned, hresult, and_iff_right himplemented]
            cases ending <;> simp

end ZtHttp.SimHttp
