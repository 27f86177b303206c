import ZtHttp.SimHttp.Requests

/-!
# A body through a program

A POST that announces the length of its body has the body passed to the program
of its resource, to the last character and no further. The client is sent two
status lines and what the program writes, and its socket is closed.
-/

namespace ZtHttp.SimHttp

open Imperative Processes Transition
open Transition.Lts (play Rounds Stuck)
open Http (nonspace SameMethod withIndex root servedName newline)

variable {σ : Type}

/-! ### The exchange -/

namespace Exchange

variable {program : Program Byte σ} {capacity : Nat} {start : σ} {output : List Byte}

/-- What the parent has still to take off the socket. -/
def left (exchange : Exchange σ) : Nat :=
  match exchange.parent with
  | .announcing left | .receiving left | .feeding left | .killed left => left
  | .relaying | .finished => 0

/-- The parent takes one character off the socket for each that it passes on. -/
theorem socket_step {socket : List Byte} {length : Nat} {exchange after : Exchange σ}
    {mover : Mover}
    (hsocket : exchange.left ≤ length ∧ exchange.socket = socket.drop (length - exchange.left))
    (hnext : exchange.next program capacity mover = some after) :
    after.left ≤ length ∧ after.socket = socket.drop (length - after.left) := by
  obtain ⟨parent, c, rest, sent, announced, piped⟩ := exchange
  cases mover with
  | child =>
      simp only [next] at hnext
      split at hnext
      · obtain ⟨piped', -, rfl⟩ := Option.map_eq_some_iff.mp hnext
        exact hsocket
      · cases hnext
        exact hsocket
  | parent =>
      cases parent with
      | announcing left =>
          cases hnext
          exact hsocket
      | receiving left =>
          cases left with
          | zero =>
              cases hnext
              exact hsocket
          | succ left =>
              cases hnext
              obtain ⟨hleft, hrest⟩ := hsocket
              simp only [Exchange.left] at hleft hrest ⊢
              refine ⟨Nat.le_of_succ_le hleft, ?_⟩
              rw [hrest, List.tail_drop]
              congr 1
              omega
      | feeding left =>
          simp only [next, advance] at hnext
          split_ifs at hnext <;> cases hnext <;> exact hsocket
      | relaying =>
          simp only [next, advance] at hnext
          split at hnext
          · cases hnext
            exact hsocket
          · obtain ⟨-, heq⟩ := Option.ite_none_right_eq_some.mp hnext
            cases heq
            exact hsocket
      | finished => contradiction
      | killed left => contradiction

/-- The steps that an exchange has at most. -/
theorem work_opened (length : Nat) (c : Byte) (socket : List Byte) (start : σ) :
    (opened length c socket start).work output = 3 * length + 2 * output.length + 5 := by
  simp only [work, opened, ParentPc.work, pending, statusLines, Piped.opened, length_passed,
    List.length_nil, Option.toList_some, List.length_singleton, List.append_nil, Bool.not_false,
    Bool.toNat_true, Bool.false_eq_true, if_false]
  omega

/-- Behind enough rounds the exchange is over, and the parent has taken the body
and no more. -/
theorem play_finished {length : Nat} {c : Byte} {socket : List Byte} (hcapacity : 0 < capacity)
    (hexits : Program.Exits program start (passed length socket c) output)
    (hfits : length ≤ capacity ∨ output.length ≤ capacity) {count : Nat} {schedule : List Mover}
    (hrounds : Rounds count schedule) (hcount : 3 * length + 2 * output.length + 5 ≤ count) :
    ∃ last, play (next program capacity) schedule (opened length c socket start) = last ∧
      last.parent = .finished ∧ last.sent = statusLine ++ statusLine ++ output ∧
      last.socket = socket.drop length := by
  have hopened := @keeps_opened σ program capacity start length c socket
  have hstuck := @Lts.stuck_of_rounds _ _ (next program capacity)
    (fun exchange => ∃ books, Keeps program capacity start (passed length socket c) exchange books)
    (work output) (fun _ _ _ hstate hnext => keeps_step hstate hnext)
    (fun _ _ _ ⟨_, hkeeps⟩ hnext => work_step hkeeps hexits hnext) _ _ hrounds
    (opened length c socket start) ⟨_, hopened⟩ (by rwa [work_opened])
  obtain ⟨books, hkeeps⟩ := @Lts.play_preserves _ _ (next program capacity)
    (fun exchange => ∃ books, Keeps program capacity start (passed length socket c) exchange books)
    (fun _ _ _ hstate hnext => keeps_step hstate hnext) schedule _ ⟨_, hopened⟩
  obtain ⟨hfinished, hsent⟩ := finished_of_stuck hcapacity hexits hfits hkeeps hstuck
  obtain ⟨-, hsocket⟩ := @Lts.play_preserves _ _ (next program capacity)
    (fun exchange =>
      exchange.left ≤ length ∧ exchange.socket = socket.drop (length - exchange.left))
    (fun _ _ _ hstate hnext => socket_step hstate hnext) schedule (opened length c socket start)
    ⟨Nat.le_refl length, by rw [left, opened, Nat.sub_self, List.drop_zero]⟩
  refine ⟨_, rfl, hfinished, hsent, ?_⟩
  rw [hsocket, left, hfinished, Nat.sub_zero]

/-- The child turns into the program. -/
theorem forked_runs {first last : σ} {input written : List Byte}
    (hruns : Program.Runs program first input written last) :
    Program.Runs (forked program) (.program first) input written (.program last) := by
  induction hruns with
  | nil => exact .nil _
  | read hcall _ ih => exact .read (by rw [forked, hcall]) ih
  | write hcall _ ih => exact .write (by rw [forked, hcall]) ih

theorem forked_exits {input : List Byte} (hexits : Program.Exits program start input output) :
    Program.Exits (forked program) (.program start) input output := by
  obtain ⟨last, hruns, hexit⟩ := hexits
  exact ⟨.program last, forked_runs hruns, by rw [forked, hexit]⟩

end Exchange

/-! ### The request -/

/-- A POST as a client writes it: the line, the lines of the header, which
announce the length of the body, and the body. -/
structure Post where
  method : List Byte
  token : List Byte
  behind : List Byte
  lines : List (List Byte)
  body : List Byte
  isPost : SameMethod method (ascii "POST")
  token_ne_nil : token ≠ []
  token_nonspace : ∀ char ∈ token, nonspace char = true ∧ char ≠ 0
  token_length : token.length ≤ 254
  behind_plain : Plain behind
  length : method.length + token.length + behind.length + 2 < 1023
  announces : Announces lines body.length

namespace Post

variable (post : Post)

def line : List Byte := post.method ++ 32 :: (post.token ++ 32 :: post.behind)

def chars : List Byte := post.line ++ crlf ++ (header post.lines ++ post.body)

def request : Request := ⟨post.method, post.token, none⟩

theorem method_nonspace : ∀ char ∈ post.method, nonspace char = true :=
  post.isPost.nonspace (by decide)

theorem method_length : post.method.length = 4 := post.isPost.length_eq

/-- The end of a line is white space. -/
theorem not_mem_of_nonspace {chars : List Byte} (hchars : ∀ char ∈ chars, nonspace char = true)
    {char : Byte} (hspace : isspace char = true) : char ∉ chars := by
  intro hmem
  have hother := hchars char hmem
  rw [nonspace, hspace] at hother
  contradiction

theorem line_plain : Plain post.line := by
  have htoken : ∀ char ∈ post.token, nonspace char = true := fun char hchar =>
    (post.token_nonspace char hchar).1
  have hparts : ∀ char : Byte, isspace char = true → char ≠ 32 → char ∉ post.behind →
      char ∉ post.line := by
    intro char hspace hblank hbehind
    refine List.not_mem_append (not_mem_of_nonspace post.method_nonspace hspace) ?_
    refine List.not_mem_cons_of_ne_of_not_mem hblank ?_
    refine List.not_mem_append (not_mem_of_nonspace htoken hspace) ?_
    exact List.not_mem_cons_of_ne_of_not_mem hblank hbehind
  exact ⟨hparts _ (by decide) (by decide) post.behind_plain.1,
    hparts _ (by decide) (by decide) post.behind_plain.2⟩

/-- The line is parsed into its method and its URL. -/
theorem parseLine_line : parseLine (post.line ++ [newline]) = some post.request := by
  have htoken : ∀ char ∈ post.token, nonspace char = true := fun char hchar =>
    (post.token_nonspace char hchar).1
  have hline : post.line ++ [newline] =
      post.method ++ 32 :: (post.token ++ 32 :: (post.behind ++ [newline])) := by
    simp only [line, List.append_assoc, List.cons_append]
  have hrun : (post.line ++ [newline]).takeWhile nonspace = post.method := by
    rw [hline, takeWhile_append_of_neg post.method_nonspace (by decide)]
  have hshort : post.method.take 254 = post.method :=
    List.take_of_length_le (by rw [post.method_length]; decide)
  have hmethod : lineMethod (post.line ++ [newline]) = post.method := by
    have hzero := SameMethod.zero_not_mem post.isPost (by decide)
    rw [lineMethod, hrun, hshort, takeWhile_ne_eq_self_iff.mpr hzero]
  have hurl : lineToken (post.line ++ [newline]) = post.token := by
    obtain ⟨first, rest, hcons⟩ := List.exists_cons_of_ne_nil post.token_ne_nil
    have hfirst : isspace first = false := by
      have hfirst := htoken first (by rw [hcons]; exact List.mem_cons_self)
      rwa [nonspace, Bool.not_eq_true'] at hfirst
    have hzero : 0 ∉ post.token := fun hmem => (post.token_nonspace 0 hmem).2 rfl
    have hskip : (32 :: (post.token ++ 32 :: (post.behind ++ [newline]))).dropWhile isspace =
        post.token ++ 32 :: (post.behind ++ [newline]) := by
      rw [List.dropWhile_cons_of_pos (by decide), hcons, List.cons_append,
        List.dropWhile_cons_of_neg (by simp [hfirst])]
    rw [lineToken, hrun, hshort, hline, List.drop_left, hskip,
      takeWhile_append_of_neg htoken (by decide), List.take_of_length_le post.token_length,
      takeWhile_ne_eq_self_iff.mpr hzero]
  have hget : ¬ SameMethod post.method (ascii "GET") := fun hget => by
    have hlength := hget.length_eq.symm.trans post.isPost.length_eq
    exact absurd hlength (by decide)
  rw [parseLine, hmethod, hurl, if_neg hget, if_pos post.isPost]
  rfl

/-- The line, the header and the body are told apart. -/
theorem client_eq (rest sent : List Byte) (closes : Nat) :
    Client.line ⟨post.chars ++ rest, sent, closes⟩ = post.line ++ [newline] ∧
      Client.header ⟨post.chars ++ rest, sent, closes⟩ = post.lines.map (· ++ [newline]) ∧
      Client.body ⟨post.chars ++ rest, sent, closes⟩ = post.body ++ rest := by
  have hlength : post.line.length < 1023 := by
    have hlength := post.length
    simp only [line, List.length_append, List.length_cons]
    omega
  have hinput : post.chars ++ rest =
      post.line ++ crlf ++ (header post.lines ++ (post.body ++ rest)) := by
    simp only [chars, List.append_assoc]
  have hread := nextLine_short post.line_plain hlength (header post.lines ++ (post.body ++ rest))
  have hheader := headerLines_header post.announces.written (post.body ++ rest)
  simp only [Client.line, Client.header, Client.body, hinput, hread, hheader, and_self]

end Post

/-- What the server finds for the request: a resource, pipes, and a program that
exits when it has read the body. -/
structure Finds (env : Env σ) (post : Post) (output : List Byte) : Prop where
  resource : ∃ mode start, env.files.stat (withIndex (root ++ post.token)) = some mode ∧
    env.cgi.execl (servedName (withIndex (root ++ post.token)) mode)
      [ascii "REQUEST_METHOD=" ++ post.method,
        ascii "CONTENT_LENGTH=" ++ formatInt post.body.length] = some start ∧
    Program.Exits env.cgi.program start post.body output
  system : (env.cgi.pipeOutput && env.cgi.pipeInput && env.cgi.fork) = true
  capacity : 0 < env.cgi.capacity
  fits : post.body.length ≤ env.cgi.capacity ∨ output.length ≤ env.cgi.capacity
  rounds : Rounds (3 * post.body.length + 2 * output.length + 5) env.cgi.schedule

/-- A server that runs the echo for every path. -/
def Env.echo : Env Exchange.Echo where
  locals := .blank
  files := ⟨fun _ => some 0o100755, fun _ => none⟩
  cgi := ⟨true, true, true, fun _ _ => some .asking, [], .exiting [], Exchange.echo, 1,
    (List.replicate 10 [.child, .parent]).flatten⟩
  fuel := 80

/-- A body of one character. -/
def echoPost : Post where
  method := ascii "post"
  token := ascii "/echo"
  behind := ascii "HTTP/1.0"
  lines := [ascii "Content-Length: 1"]
  body := [104]
  isPost := by decide
  token_ne_nil := by decide
  token_nonspace := by simp [ascii, nonspace, isspace]
  token_length := by decide
  behind_plain := by decide
  length := by decide
  announces :=
    { written := by decide
      range := by decide
      last := ⟨[], ascii "Content-Length:", 32, [], by decide, by decide, nofun⟩ }

theorem echoPost_finds : Finds .echo echoPost [104] where
  resource := ⟨_, .asking, rfl, rfl, Exchange.echo_exits 104⟩
  system := rfl
  capacity := by decide
  fits := .inl (by decide)
  rounds := Lts.rounds_replicate (by rintro (_ | _) <;> simp) 10

end ZtHttp.SimHttp
