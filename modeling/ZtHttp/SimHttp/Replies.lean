import ZtHttp.Http.Resource
import ZtHttp.SimHttp.ContentLength
import ZtHttp.SimHttp.Pages
import ZtHttp.SimHttp.RequestLine

/-!
# What a client is sent

`accept_request` takes the request line and the header off the socket, decides
by the line and by `stat`, and sends a page, a file or what a program writes.
The socket is closed behind every reply but the page for other methods. All of it
depends on the lines, the files and the system. What the arrays held before shows
in `bad_request` alone, and in a body that has not begun.
-/

namespace ZtHttp.SimHttp

open Imperative Imperative.InputStream
open Http (SameMethod servedName Delivers)
open Transition.Lts (play)

/-! ### Replies -/

def Request.isPost (request : Request) : Bool := decide (SameMethod request.method (ascii "POST"))

/-- Whether the resource is run as a program. -/
def Request.runs (request : Request) (mode : UInt32) : Bool :=
  request.isPost || request.query.isSome || Http.isExecutable mode

/-- What the program finds in its environment. -/
def Request.environment (request : Request) (length : Int) : List (List Byte) :=
  [ascii "REQUEST_METHOD=" ++ request.method,
    if request.isPost then ascii "CONTENT_LENGTH=" ++ formatInt length
    else ascii "QUERY_STRING=" ++ request.query.getD []]

namespace Client

variable (client : Client)

/-- The request line. -/
def line : List Byte := (nextLine 1023 client.input).1

/-- The lines behind it, up to the blank one. -/
def header : List (List Byte) := (headerLines (nextLine 1023 client.input).2).1

/-- What is behind the header. -/
def body : List Byte := (headerLines (nextLine 1023 client.input).2).2

/-- The `content_length` of a POST. -/
def bodyLength (request : Request) : Int :=
  if request.isPost then contentLength client.header (-1) else -1

end Client

variable {σ : Type}

/-- Where the exchange with a program stands when its processes have taken their
steps. -/
def Env.exchanged (env : Env σ) (length : Nat) (socket : List Byte) (start : Forked σ) :
    Exchange (Forked σ) :=
  play (Exchange.next (forked env.cgi.program) env.cgi.capacity) env.cgi.schedule
    (.opened length env.locals.c socket start)

/-- What the child becomes for a request: its array for the query of a GET has room
for 241 characters. -/
def Env.child (env : Env σ) (request : Request) (mode : UInt32) (length : Int) : Forked σ :=
  if request.isPost = false ∧ 241 < (request.query.getD []).length then env.cgi.overflown
  else env.cgi.execOrExit (servedName request.name mode) (request.environment length)

/-- What the client sees of a request that is served from `stat` on. -/
inductive Answered (env : Env σ) (request : Request) (length : Int) (client : Client) :
    EStateM.Result Fault Client Ending → Prop where
  /-- `stat` fails. -/
  | missing (hstat : env.files.stat request.name = none) :
      Answered env request length client (.ok .returned
        { client with sent := client.sent ++ notFoundTexts.flatten, closes := client.closes + 1 })
  /-- The file is not opened, and the null stream is closed. -/
  | unopened {mode : UInt32} (hstat : env.files.stat request.name = some mode)
      (hplain : request.runs mode = false)
      (hopen : env.files.fopen (servedName request.name mode) = none) :
      Answered env request length client (.error .nullPointer
        { client with sent := client.sent ++ notFoundTexts.flatten })
  /-- The file is sent, as far as `cat` copies it. -/
  | file {mode : UInt32} {resource : InputStream} {content copied : List Byte}
      (hstat : env.files.stat request.name = some mode) (hplain : request.runs mode = false)
      (hopen : env.files.fopen (servedName request.name mode) = some resource)
      (hcontent : Delivers resource content) (hcopied : Copied content copied) :
      Answered env request length client (.ok .returned
        { client with
          sent := client.sent ++ headersTexts.flatten ++ copied
          closes := client.closes + 1 })
  /-- A POST has no length. -/
  | badRequest {mode : UInt32} (hstat : env.files.stat request.name = some mode)
      (hpost : request.isPost = true) (hlength : length = -1) :
      Answered env request length client (.ok .returned
        { client with
          sent := client.sent ++ wholePage badRequestTexts env.locals.pageBuf.toList
          closes := client.closes + 1 })
  /-- A pipe or a process cannot be had. -/
  | cannotExecute {mode : UInt32} (hstat : env.files.stat request.name = some mode)
      (hruns : request.runs mode = true) (hlength : request.isPost = true → length ≠ -1)
      (hsystem : (env.cgi.pipeOutput && env.cgi.pipeInput && env.cgi.fork) = false) :
      Answered env request length client (.ok .returned
        { client with
          sent := client.sent ++ cannotExecuteTexts.flatten
          closes := client.closes + 1 })
  /-- The child has the rest of the connection, and the parent relays. -/
  | program {mode : UInt32} (hstat : env.files.stat request.name = some mode)
      (hruns : request.runs mode = true) (hlength : request.isPost = true → length ≠ -1)
      (hsystem : (env.cgi.pipeOutput && env.cgi.pipeInput && env.cgi.fork) = true)
      {last : Exchange (Forked σ)}
      (hlast : last = env.exchanged (if request.isPost then length.toNat else 0) client.input
        (env.child request mode length)) :
      Answered env request length client (.ok last.parent.ending
        { input := last.socket
          sent := client.sent ++ last.sent
          closes := client.closes + if last.parent.ending = .returned then 1 else 0 })

/-- What the client sees of a request. -/
inductive Reply (env : Env σ) (client : Client) : EStateM.Result Fault Client Ending → Prop where
  /-- The method is not implemented, and the socket stays open. -/
  | unimplemented (hline : parseLine client.line = none) :
      Reply env client (.ok .returned
        { client with
          input := (nextLine 1023 client.input).2
          sent := client.sent ++ unimplementedTexts.flatten })
  /-- The header is read, and the request is served. -/
  | answered {request : Request} {result : EStateM.Result Fault Client Ending}
      (hline : parseLine client.line = some request)
      (hanswer : Answered env request (client.bodyLength request)
        { client with input := client.body } result) :
      Reply env client result

/-- The loops have turns enough for the request and for the files, which can be
read to their end. The header does not stop behind the name of the length. -/
structure Served (env : Env σ) (client : Client) : Prop where
  fuel : client.input.length + 1 < env.fuel
  files : ∀ name resource, env.files.fopen name = some resource →
    ∃ content, Delivers resource content ∧ content.length < env.fuel
  reaches : Reaches client.header

/-! ### The environment of a program -/

theorem storeAll_error {n : Nat} (chars : List Byte) (index : Nat) (array : CharArray n)
    (hindex : index ≤ n) (hlong : n < index + chars.length) :
    array.storeAll chars index = .error .outOfBounds := by
  induction chars generalizing index array with
  | nil =>
      rw [List.length_nil] at hlong
      omega
  | cons char chars ih =>
      rw [List.length_cons] at hlong
      rw [CharArray.storeAll]
      by_cases hless : index < n
      · rw [CharArray.store_eq array char hless]
        exact ih (index + 1) _ hless (by omega)
      · rw [CharArray.store, dif_neg hless]
        rfl

theorem sprintfEnv_eq (array : CharArray 255) {text : List Byte} (hzero : 0 ∉ text)
    (hfits : text.length < 255) : sprintfEnv array text = .ok text := by
  obtain ⟨last, hstore, hstring⟩ := array.storeString_string hfits
  rw [takeWhile_ne_eq_self_iff.mpr hzero] at hstring
  rw [sprintfEnv, hstore]
  exact hstring

theorem sprintfEnv_long (array : CharArray 255) {text : List Byte} (hlong : 255 ≤ text.length) :
    sprintfEnv array text = .error .outOfBounds := by
  rw [sprintfEnv, CharArray.storeString, storeAll_error _ 0 array (Nat.zero_le _) (by
    rw [List.length_append, List.length_singleton]
    omega)]
  rfl

theorem atoi_range (string : List Byte) : -2 ^ 31 ≤ atoi string ∧ atoi string < 2 ^ 31 := by
  rw [atoi]
  exact ⟨Int.le_bmod (by decide), Int.bmod_lt (by decide)⟩

theorem contentLength_range (lines : List (List Byte)) {found : Int}
    (hfound : -2 ^ 31 ≤ found ∧ found < 2 ^ 31) :
    -2 ^ 31 ≤ contentLength lines found ∧ contentLength lines found < 2 ^ 31 := by
  rw [contentLength]
  induction lines generalizing found with
  | nil => exact hfound
  | cons line lines ih =>
      rw [List.foldl_cons]
      apply ih
      cases hline : lineLength line with
      | none => exact hfound
      | some length =>
          rw [lineLength, Option.ite_none_right_eq_some] at hline
          rw [Option.getD_some, ← Option.some.inj hline.2]
          exact atoi_range _

variable {env : Env σ} {request : Request} {line : List Byte}

theorem SameMethod.zero_not_mem {method literal : List Byte} (hsame : SameMethod method literal)
    (hliteral : 0 ∉ literal.map tolower) : 0 ∉ method := by
  intro hmem
  have hmap := List.mem_map_of_mem (f := tolower) hmem
  rw [hsame] at hmap
  exact hliteral hmap

/-- A method that is not GET is POST. -/
theorem isPost_of_parseLine (hrequest : parseLine line = some request) :
    decide (SameMethod request.method (ascii "GET")) = !request.isPost := by
  obtain ⟨-, hget | hpost⟩ := parseLine_method hrequest
  · have hother : ¬ SameMethod request.method (ascii "POST") := fun hpost => by
      have hlength := hget.length_eq.symm.trans hpost.length_eq
      exact absurd hlength (by decide)
    rw [Request.isPost, decide_eq_true hget, decide_eq_false hother]
    rfl
  · have hother : ¬ SameMethod request.method (ascii "GET") := fun hget => by
      have hlength := hget.length_eq.symm.trans hpost.length_eq
      exact absurd hlength (by decide)
    rw [Request.isPost, decide_eq_true hpost, decide_eq_false hother]
    rfl

theorem method_fits (hrequest : parseLine line = some request) :
    0 ∉ ascii "REQUEST_METHOD=" ++ request.method ∧
      (ascii "REQUEST_METHOD=" ++ request.method).length < 255 := by
  obtain ⟨-, hmethod⟩ := parseLine_method hrequest
  have hlength := hmethod.length
  constructor
  · refine List.not_mem_append (by decide) ?_
    rcases hmethod with hget | hpost
    · exact SameMethod.zero_not_mem hget (by decide)
    · exact SameMethod.zero_not_mem hpost (by decide)
  · rw [List.length_append, show (ascii "REQUEST_METHOD=").length = 15 by decide]
    omega

section

variable {locals : Locals} {method url : CharArray 255} {query : Nat}

/-- The environment of a POST. -/
theorem childEnv_post (hrequest : parseLine line = some request)
    (hmethod : method.string = .ok request.method) (hpost : request.isPost = true) {length : Int}
    (hlength : -2 ^ 31 ≤ length ∧ length < 2 ^ 31) :
    childEnv locals false method url query length = .ok (request.environment length) := by
  obtain ⟨hzero, hfits⟩ := method_fits hrequest
  have hnumber : 0 ∉ ascii "CONTENT_LENGTH=" ++ formatInt length :=
    List.not_mem_append (by decide) (zero_not_mem_formatInt length)
  have hshort : (ascii "CONTENT_LENGTH=" ++ formatInt length).length < 255 := by
    have hdigits := formatInt_length hlength.1 hlength.2
    rw [List.length_append, show (ascii "CONTENT_LENGTH=").length = 15 by decide]
    omega
  simp only [childEnv, hmethod, bind, Except.bind, sprintfEnv_eq locals.methEnv hzero hfits,
    sprintfEnv_eq locals.lengthEnv hnumber hshort, Request.environment, hpost, if_true]
  rfl

/-- The environment of a GET, if its query has room. -/
theorem childEnv_get (hrequest : parseLine line = some request)
    (hmethod : method.string = .ok request.method) (hget : request.isPost = false)
    (hquery : readString (url.toList.drop query) = .ok (request.query.getD [])) (length : Int) :
    childEnv locals true method url query length =
      if (request.query.getD []).length ≤ 241 then .ok (request.environment length)
      else .error .outOfBounds := by
  obtain ⟨hzero, hfits⟩ := method_fits hrequest
  have hname : (ascii "QUERY_STRING=").length = 13 := by decide
  have htext := (readString_eq_ok hquery).1
  simp only [childEnv, hmethod, bind, Except.bind, sprintfEnv_eq locals.methEnv hzero hfits,
    if_true, hquery, Request.environment, hget, Bool.false_eq_true, if_false]
  generalize request.query.getD [] = text at htext ⊢
  by_cases hshort : text.length ≤ 241
  · have hzero' : 0 ∉ ascii "QUERY_STRING=" ++ text := List.not_mem_append (by decide) htext
    rw [if_pos hshort, sprintfEnv_eq locals.queryEnv hzero' (by rw [List.length_append]; omega)]
    rfl
  · rw [if_neg hshort, sprintfEnv_long locals.queryEnv (by rw [List.length_append]; omega)]

end

/-- So the child of a request overflows or not. -/
theorem childStart_eq {path : CharArray 512} {method url : CharArray 255}
    {query : Nat} {mode : UInt32} {length : Int} (hrequest : parseLine line = some request)
    (hpath : path.string = .ok (servedName request.name mode))
    (hmethod : method.string = .ok request.method)
    (hquery : request.isPost = false →
      readString (url.toList.drop query) = .ok (request.query.getD []))
    (hlength : -2 ^ 31 ≤ length ∧ length < 2 ^ 31) :
    childStart env path (!request.isPost) method url query length =
      env.child request mode length := by
  rw [childStart, hpath, Env.child]
  cases hpost : request.isPost with
  | true =>
      rw [Bool.not_true, childEnv_post hrequest hmethod hpost hlength, if_neg (by simp)]
  | false =>
      rw [Bool.not_false, childEnv_get hrequest hmethod hpost (hquery hpost)]
      by_cases hfits : (request.query.getD []).length ≤ 241
      · rw [if_pos hfits, if_neg (by omega)]
      · rw [if_neg hfits, if_pos ⟨rfl, by omega⟩]

/-! ### Programs -/

/-- `execute_cgi` behind the header. -/
def runProgram (env : Env σ) (path : CharArray 512) (method url : CharArray 255) (query : Nat)
    (isGet isPost : Bool) (contentLength : Int) : Method Client Ending := do
  if !isGet && isPost && contentLength = -1 then
    badRequest env.locals
    return .returned
  else if !env.cgi.pipeOutput || !env.cgi.pipeInput || !env.cgi.fork then
    cannotExecute env.locals
    return .returned
  else
    exchange env isPost contentLength
      (childStart env path isGet method url query contentLength)

variable {path : CharArray 512} {method url : CharArray 255} {query : Nat} {client : Client}

/-- `execute_cgi` takes the header off, and for a POST its length. -/
theorem executeCgi_eq (hrequest : parseLine line = some request)
    (hmethod : method.string = .ok request.method) (hfuel : client.input.length + 1 < env.fuel)
    (hreach : Reaches (headerLines client.input).1) :
    executeCgi env path method url query client =
      runProgram env path method url query (!request.isPost) request.isPost
        (if request.isPost then contentLength (headerLines client.input).1 (-1) else -1)
        { client with input := (headerLines client.input).2 } := by
  obtain ⟨buf, hstart, hstring⟩ := startLine_eq env.locals.cgiBuf
  have hget : method.strcasecmpEq (ascii "GET") = .ok (!request.isPost) := by
    rw [CharArray.strcasecmpEq_eq hmethod (by decide), ← isPost_of_parseLine hrequest]
    rfl
  have hpost : method.strcasecmpEq (ascii "POST") = .ok request.isPost :=
    CharArray.strcasecmpEq_eq hmethod (by decide)
  rw [executeCgi, Method.bind_ok (Method.ofExcept_ok hstart _),
    Method.bind_ok (Method.ofExcept_ok hget _), Method.bind_ok (Method.ofExcept_ok hpost _)]
  cases request.isPost with
  | false =>
      have hdiscard := discardHeaders_letter hstring hfuel
      exact (Method.bind_ok hdiscard).trans rfl
  | true =>
      have hlength := readLength_eq buf client hreach (Nat.lt_of_succ_lt hfuel)
      obtain ⟨⟨next, numchars⟩, middle, hread, hloop⟩ := Method.bind_eq_ok hlength
      exact (Method.bind_ok hread).trans ((Method.bind_ok hloop).trans rfl)

/-! ### From `stat` on -/

/-- `serve_file` takes the header off. -/
theorem serveFile_eq (hfuel : client.input.length + 1 < env.fuel) (filename : List Byte) :
    serveFile env filename client = (do
      match env.files.fopen filename with
      | none =>
          notFound env.locals
          Method.ofExcept (.error .nullPointer)
      | some resource =>
          headers env.locals
          cat env resource : Method Client Unit)
        { client with input := (headerLines client.input).2 } := by
  obtain ⟨buf, hstart, hstring⟩ := startLine_eq env.locals.headerBuf
  rw [serveFile, Method.bind_ok (Method.ofExcept_ok hstart _)]
  exact (Method.bind_ok (discardHeaders_letter hstring hfuel)).trans rfl

/-- `accept_request` up to `close`, from `stat` on. -/
def answer (env : Env σ) (request : Request) (buf : CharArray 1024) (numchars : Nat)
    (path : CharArray 512) (method url : CharArray 255) (query : Nat) : Method Client Ending :=
  match env.files.stat request.name with
  | none => do
      discardHeaders env.fuel buf numchars
      notFound env.locals
      pure .returned
  | some mode => do
      let path ← Method.ofExcept (Http.servedPath path mode)
      if request.runs mode then executeCgi env path method url query
      else do
        serveFile env (← Method.ofExcept path.string)
        pure .returned

/-- The arrays of `accept_request` hold the request. -/
structure Holds (request : Request) (path : CharArray 512) (method url : CharArray 255)
    (query : Nat) : Prop where
  path : path.string = .ok request.name
  method : method.string = .ok request.method
  query : request.isPost = false → readString (url.toList.drop query) = .ok (request.query.getD [])

/-- The line is taken off the socket and parsed. -/
theorem acceptRequest_parsed (hrequest : parseLine client.line = some request) :
    ∃ buf path method url query, Received client.input buf ∧
      Holds request path method url query ∧
      acceptRequest env client = (do
        let ending ← answer env request buf client.line.length path method url query
        if ending = .returned then close
        return ending : Method Client Ending)
          { client with input := (nextLine 1023 client.input).2 } := by
  obtain ⟨buf, hread, hbuf⟩ := getClientLine_eq env.locals.buf client
  obtain ⟨rest, hmemory⟩ := hbuf.memory
  obtain ⟨method, j, hparse, hmethod, hparsed⟩ := parse_line env.locals.toStack hmemory
  obtain ⟨url, cut, query, hasQuery, path, hurl, hcut, hpath, hname, hflag, hquery⟩ :=
    hparsed request hrequest
  have hmethod' : method.string = .ok request.method := by
    rw [(parseLine_method hrequest).1]
    exact hmethod
  have hisGet := isPost_of_parseLine hrequest
  refine ⟨buf, path, method, cut, query, hbuf, ⟨hname, hmethod', fun hpost => hquery ?_⟩, ?_⟩
  · rw [hpost] at hisGet
    exact of_decide_eq_true hisGet
  have hget : method.strcasecmpEq (ascii "GET") = .ok (!request.isPost) := by
    rw [CharArray.strcasecmpEq_eq hmethod' (by decide), ← hisGet]
    rfl
  have hpost : method.strcasecmpEq (ascii "POST") = .ok request.isPost :=
    CharArray.strcasecmpEq_eq hmethod' (by decide)
  rw [hisGet] at hcut
  rw [acceptRequest, Method.bind_ok hread]
  dsimp only
  rw [Method.bind_ok (Method.ofExcept_ok hparse _)]
  dsimp only
  rw [Method.bind_ok (Method.ofExcept_ok hget _), Method.bind_ok (Method.ofExcept_ok hpost _),
    if_neg (by cases request.isPost <;> decide), Method.bind_ok (Method.ofExcept_ok hurl _),
    Method.bind_ok (Method.ofExcept_ok hcut _)]
  dsimp only
  rw [Method.bind_ok (Method.ofExcept_ok hpath _), Method.bind_ok (Method.ofExcept_ok hname _),
    hflag]
  rw [answer]
  cases env.files.stat request.name with
  | none =>
      simp only [bind_assoc]
      rfl
  | some mode =>
      simp only [bind_assoc, Http.servedPath, Request.runs]
      rcases Bool.eq_false_or_eq_true
        (request.isPost || request.query.isSome || Http.isExecutable mode) with hruns | hplain
      · simp only [hruns, Bool.not_true, Bool.false_eq_true, if_false, if_true]
      · simp only [hplain, Bool.not_false, Bool.false_eq_true, if_false, if_true, bind_assoc]

/-- The end of `accept_request` behind what has returned. -/
theorem bind_close {serving : Method Client Ending} {after : Client} {ending : Ending}
    (hserving : serving client = .ok ending after) :
    (do
      let ending ← serving
      if ending = .returned then close
      return ending : Method Client Ending) client = .ok ending
        { after with closes := after.closes + if ending = .returned then 1 else 0 } := by
  rw [Method.bind_ok hserving]
  cases ending <;> rfl

/-- A line with a request is not blank. -/
theorem line_ne_blank (hrequest : parseLine line = some request) :
    line ≠ [] ∧ line ≠ [Http.newline] := by
  have hnone : parseLine [] = none ∧ parseLine [Http.newline] = none := ⟨rfl, rfl⟩
  constructor
  · rintro rfl
    exact absurd (hnone.1.symm.trans hrequest) nofun
  · rintro rfl
    exact absurd (hnone.2.symm.trans hrequest) nofun

section

variable {buf : CharArray 1024} {mode : UInt32}

/-- There is no resource. -/
theorem answer_missing (hserved : Served env client)
    (hrequest : parseLine client.line = some request) (hbuf : Received client.input buf)
    (hstat : env.files.stat request.name = none) :
    answer env request buf client.line.length path method url query
        { client with input := (nextLine 1023 client.input).2 } =
      .ok .returned { client with
        input := client.body
        sent := client.sent ++ notFoundTexts.flatten } := by
  obtain ⟨hnil, hblank⟩ := line_ne_blank hrequest
  have hdiscard := discardHeaders_received hbuf (Nat.lt_of_succ_lt hserved.fuel) client.sent
    client.closes
  rw [headerLines_cons hnil hblank] at hdiscard
  simp only [answer, hstat]
  rw [Client.line, Method.bind_ok hdiscard, Method.bind_ok (notFound_eq _ _)]
  rfl

theorem behind_length (hfuel : client.input.length + 1 < env.fuel) :
    (nextLine 1023 client.input).2.length + 1 < env.fuel :=
  Nat.lt_of_le_of_lt (Nat.succ_le_succ (nextLine_suffix 1023 client.input).length_le) hfuel

/-- A plain file is opened or not. -/
theorem answered_file (hfuel : client.input.length + 1 < env.fuel)
    (hfile : ∀ resource, env.files.fopen (servedName request.name mode) = some resource →
      ∃ content, Delivers resource content ∧ content.length < env.fuel)
    (hrequest : parseLine client.line = some request)
    (hholds : Holds request path method url query)
    (hstat : env.files.stat request.name = some mode) (hplain : request.runs mode = false)
    (length : Int) :
    Answered env request length { client with input := client.body } ((do
      let ending ← answer env request buf client.line.length path method url query
      if ending = .returned then close
      return ending : Method Client Ending)
        { client with input := (nextLine 1023 client.input).2 }) := by
  obtain ⟨served, hpath, hname⟩ := Http.servedPath_spec hholds.path (name_length hrequest) mode
  rw [← servedName] at hname
  have hserve := @serveFile_eq _ env { client with input := (nextLine 1023 client.input).2 }
    (behind_length hfuel) (servedName request.name mode)
  have hanswer : answer env request buf client.line.length path method url query
      { client with input := (nextLine 1023 client.input).2 } = (do
        serveFile env (servedName request.name mode)
        pure .returned : Method Client Ending)
          { client with input := (nextLine 1023 client.input).2 } := by
    simp only [answer, hstat, hplain, Bool.false_eq_true, if_false]
    rw [Method.bind_ok (Method.ofExcept_ok hpath _), Method.bind_ok (Method.ofExcept_ok hname _)]
  cases hopen : env.files.fopen (servedName request.name mode) with
  | none =>
      simp only [hopen] at hserve
      rw [Method.bind_ok (notFound_eq _ _)] at hserve
      rw [Method.bind_error (hanswer.trans (Method.bind_error hserve))]
      exact .unopened hstat hplain hopen
  | some resource =>
      obtain ⟨content, ⟨spoil, rfl⟩, hread⟩ := hfile _ hopen
      obtain ⟨copied, hcopied⟩ := copied_exists content
      simp only [hopen] at hserve
      rw [Method.bind_ok (headers_eq _ _), cat_eq hcopied hread] at hserve
      rw [bind_close (hanswer.trans (Method.bind_ok hserve))]
      exact .file hstat hplain hopen ⟨spoil, rfl⟩ hcopied

/-- A program is run, or one of the pages is sent in its place. -/
theorem answered_program (hfuel : client.input.length + 1 < env.fuel)
    (hreach : Reaches client.header) (hrequest : parseLine client.line = some request)
    (hholds : Holds request path method url query)
    (hstat : env.files.stat request.name = some mode) (hruns : request.runs mode = true) :
    Answered env request (client.bodyLength request) { client with input := client.body } ((do
      let ending ← answer env request buf client.line.length path method url query
      if ending = .returned then close
      return ending : Method Client Ending)
        { client with input := (nextLine 1023 client.input).2 }) := by
  obtain ⟨served, hpath, hname⟩ := Http.servedPath_spec hholds.path (name_length hrequest) mode
  rw [← servedName] at hname
  have hanswer : answer env request buf client.line.length path method url query
      { client with input := (nextLine 1023 client.input).2 } =
        runProgram env served method url query (!request.isPost) request.isPost
          (client.bodyLength request) { client with input := client.body } := by
    simp only [answer, hstat, hruns, if_true]
    rw [Method.bind_ok (Method.ofExcept_ok hpath _)]
    exact @executeCgi_eq σ env request _ served method url query
      { client with input := (nextLine 1023 client.input).2 } hrequest hholds.method
      (behind_length hfuel) hreach
  have hrange : -2 ^ 31 ≤ client.bodyLength request ∧ client.bodyLength request < 2 ^ 31 := by
    rw [Client.bodyLength]
    split
    · exact contentLength_range client.header (by decide)
    · decide
  generalize client.bodyLength request = length at hanswer hrange ⊢
  rw [runProgram] at hanswer
  by_cases hbad : request.isPost = true ∧ length = -1
  · rw [if_pos (by simp [hbad]), Method.bind_ok (badRequest_eq _ _)] at hanswer
    rw [bind_close hanswer]
    exact .badRequest hstat hbad.1 hbad.2
  · rw [if_neg (by simpa using not_and.mp hbad)] at hanswer
    have hlength := not_and.mp hbad
    by_cases hsystem : (env.cgi.pipeOutput && env.cgi.pipeInput && env.cgi.fork) = true
    · rw [if_neg (by simpa [and_assoc] using hsystem),
        childStart_eq hrequest hname hholds.method hholds.query hrange] at hanswer
      rw [bind_close hanswer]
      exact .program hstat hruns hlength hsystem rfl
    · rw [if_pos (by simpa [← Bool.not_and] using hsystem),
        Method.bind_ok (cannotExecute_eq _ _)] at hanswer
      rw [bind_close hanswer]
      exact .cannotExecute hstat hruns hlength (Bool.not_eq_true _ ▸ hsystem)

end

/-- The page for other methods is all. -/
theorem acceptRequest_unimplemented (hline : parseLine client.line = none) :
    acceptRequest env client = .ok .returned { client with
      input := (nextLine 1023 client.input).2
      sent := client.sent ++ unimplementedTexts.flatten } := by
  obtain ⟨buf, hread, hbuf⟩ := getClientLine_eq env.locals.buf client
  obtain ⟨rest, hmemory⟩ := hbuf.memory
  obtain ⟨method, j, hparse, hmethod, -⟩ := parse_line env.locals.toStack hmemory
  obtain ⟨hother, hother'⟩ := parseLine_none hline
  have hget : method.strcasecmpEq (ascii "GET") = .ok false := by
    rw [CharArray.strcasecmpEq_eq hmethod (by decide)]
    exact congrArg Except.ok (decide_eq_false hother)
  have hpost : method.strcasecmpEq (ascii "POST") = .ok false := by
    rw [CharArray.strcasecmpEq_eq hmethod (by decide)]
    exact congrArg Except.ok (decide_eq_false hother')
  rw [acceptRequest, Method.bind_ok hread]
  dsimp only
  rw [Method.bind_ok (Method.ofExcept_ok hparse _)]
  dsimp only
  rw [Method.bind_ok (Method.ofExcept_ok hget _), Method.bind_ok (Method.ofExcept_ok hpost _),
    if_pos (by decide), Method.bind_ok (unimplemented_eq _ _)]
  rfl

theorem reply_of_served (hserved : Served env client) :
    Reply env client (acceptRequest env client) := by
  cases hline : parseLine client.line with
  | none =>
      rw [acceptRequest_unimplemented hline]
      exact .unimplemented hline
  | some request =>
      obtain ⟨buf, path, method, url, query, hbuf, hholds, hreply⟩ :=
        @acceptRequest_parsed σ env request client hline
      rw [hreply]
      refine .answered hline ?_
      cases hstat : env.files.stat request.name with
      | none =>
          rw [bind_close (answer_missing hserved hline hbuf hstat)]
          exact .missing hstat
      | some mode =>
          cases hruns : request.runs mode with
          | true => exact answered_program hserved.fuel hserved.reaches hline hholds hstat hruns
          | false =>
              exact answered_file hserved.fuel (hserved.files _) hline hholds hstat hruns _

/-- `accept_request` gives the client its reply, whatever it is sent. -/
theorem acceptRequest_replies (hserved : Served env client) :
    Reply env client (acceptRequest env client) :=
  reply_of_served hserved

/-! ### A server -/

/-- Arrays of zeros. -/
def Locals.blank : Locals where
  toStack := HttpEnv.blank.stack
  pageBuf := .replicate 1024 0
  cgiBuf := .replicate 1024 0
  c := 0
  methEnv := .replicate 255 0
  queryEnv := .replicate 255 0
  lengthEnv := .replicate 255 0

/-- A server whose only file has the content, and which has no programs. -/
def Env.oneFile (content : List Byte) : Env Unit where
  locals := .blank
  files := Http.oneFile content
  cgi := ⟨false, false, false, fun _ _ => none, [], .exiting [], fun _ => .exit, 1, []⟩
  fuel := 64

/-- A client that asks for a file. -/
def fileClient : Client := ⟨ascii "GET /a\r\n" ++ header [], [], 0⟩

theorem fileClient_header : fileClient.header = [] ∧ fileClient.body = [] := by
  have hrest : (nextLine 1023 fileClient.input).2 = header [] ++ [] := by decide
  have hheader : headerLines (header [] ++ []) = ([], []) :=
    headerLines_header (List.forall_mem_nil _) []
  rw [Client.header, Client.body, hrest, hheader]
  exact ⟨rfl, rfl⟩

theorem fileClient_served : Served (.oneFile (ascii "hi\n")) fileClient where
  fuel := by decide
  files := by
    rintro name resource ⟨⟩
    exact ⟨_, ⟨_, rfl⟩, by decide⟩
  reaches := by
    rw [fileClient_header.1]
    nofun

theorem fileClient_replied : Reply (.oneFile (ascii "hi\n")) fileClient
    (acceptRequest (.oneFile (ascii "hi\n")) fileClient) :=
  acceptRequest_replies fileClient_served

end ZtHttp.SimHttp
