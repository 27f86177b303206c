import ZtHttp.Http.File
import ZtHttp.Http.Headers
import ZtHttp.Http.Root

/-!
# Answering with a resource

`write` asks `stat` for the path of the request, and `serve_file` opens the file
that is found there, or the index file of a directory. A file that `stat` finds
and `fopen` does not is answered like one that does not exist, and then the
null stream is closed all the same.
-/

namespace ZtHttp.Http

open Imperative Imperative.InputStream

/-- `write` from `stat` on. -/
def respond (env : HttpEnv) (http : Http) (buf : CharArray 1024) (numchars : Nat)
    (path : CharArray 512) : Method IOBuffer Int := do
  match env.files.stat (← Method.ofExcept path.string) with
  | none =>
      Method.ofExcept (discardHeaders http env.fuel buf numchars)
      notFound
  | some mode =>
      let served ← Method.ofExcept (servedPath path mode)
      serveFile env http (← Method.ofExcept served.string)
  return 1

theorem write_eq_respond (env : HttpEnv) (http : Http) : write env http = (do
    let (buf, numchars) ← Method.ofExcept (getLine http env.stack.buf 1024)
    match ← Method.ofExcept (requestPath env.stack buf numchars) with
    | none =>
        unimplemented
        return -1
    | some path => respond env http buf numchars path) :=
  write_eq_requestPath env http

/-- The path that is opened for a path with the given mode. -/
def servedName (name : List Byte) (mode : UInt32) : List Byte :=
  if isDirectory mode then name ++ ascii "/index.html" else name

/-- The stream that is opened for a path, if there is one. -/
def openedFor (files : FileSystem) (name : List Byte) : Option InputStream :=
  match files.stat name with
  | none => none
  | some mode => files.fopen (servedName name mode)

/-- The stream is that of a file that can be read to its end. -/
def Delivers (resource : InputStream) (content : List Byte) : Prop :=
  ∃ spoil, resource = opened (ofList content) spoil

/-- What a request for the path is to be answered with: the page for missing
resources if no file is opened, and otherwise the headers and the file. -/
def IsAnswer (files : FileSystem) (name page : List Byte) : Prop :=
  match openedFor files name with
  | none => page = notFoundPage
  | some resource => ∃ content, Delivers resource content ∧ page = headerPage ++ content

/-- After enough turns of its loops `write` has returned from `stat` on, and has
appended the answer and nothing else. -/
def Answers (env : HttpEnv) (http : Http) (buf : CharArray 1024) (numchars : Nat)
    (buffer : IOBuffer) : Prop :=
  ∃ path name page, requestPath env.stack buf numchars = .ok (some path) ∧
    path.string = .ok name ∧ IsAnswer env.files name page ∧
    ∃ turns, ∀ fuel, turns ≤ fuel → ∃ last,
      respond { env with fuel } http buf numchars path buffer = .ok 1 last ∧
        last.content = buffer.content ++ page

/-! ### Pages -/

theorem notFoundPage_length : notFoundPage.length < 2 ^ 31 := by
  rw [notFoundPage, ascii, List.length_map, String.toList_append, String.toList_append,
    String.toList_append, List.length_append, List.length_append, List.length_append]
  simp only [String.reduceToList, List.length_cons, List.length_nil]
  decide

theorem headerPage_length : headerPage.length < 2 ^ 31 := by
  rw [headerPage, ascii, List.length_map]
  simp only [String.reduceToList, List.length_cons, List.length_nil]
  decide

theorem notFound_eq (buffer : IOBuffer) : notFound buffer = .ok () (buffer.push notFoundPage) :=
  appendPage_eq notFoundPage_length buffer

theorem headers_eq (buffer : IOBuffer) : headers buffer = .ok () (buffer.push headerPage) :=
  appendPage_eq headerPage_length buffer

/-! ### The parts -/

/-- `serve_file` up to `fopen`. -/
theorem serveFile_eq {env : HttpEnv} (hfuel : 2 ≤ env.fuel) (http : Http)
    (filename : List Byte) : serveFile env http filename = (do
      match env.files.fopen filename with
      | none =>
          notFound
          Method.ofExcept (.error .nullPointer)
      | some resource =>
          headers
          cat env resource) := by
  obtain ⟨first, buf, line, hfirst, hbuf, hline⟩ := store_letter env.stack.headerBuf
  funext buffer
  apply (Method.bind_ok (Method.ofExcept_ok hfirst _)).trans
  apply (Method.bind_ok (Method.ofExcept_ok hbuf _)).trans
  exact (Method.bind_ok (Method.ofExcept_ok (discardHeaders_eq http hfuel hline 1) _)).trans rfl

variable {env : HttpEnv} {buf : CharArray 1024} {line name : List Byte} {path : CharArray 512}

/-- `stat` fails: the page for missing resources is all. -/
theorem respond_missing (hfuel : 2 ≤ env.fuel) (http : Http) (hline : Holds buf line)
    (hpath : path.string = .ok name) (hstat : env.files.stat name = none) (numchars : Nat)
    (buffer : IOBuffer) :
    respond env http buf numchars path buffer = .ok 1 (buffer.push notFoundPage) := by
  have hdiscard := discardHeaders_eq http hfuel hline.string_eq numchars
  rw [respond, Method.bind_ok (Method.ofExcept_ok hpath _)]
  simp only [hstat]
  rw [Method.bind_ok (Method.ofExcept_ok hdiscard _), Method.bind_ok (notFound_eq buffer)]
  rfl

/-- `stat` succeeds: `serve_file` decides. -/
theorem respond_found (http : Http) (hpath : path.string = .ok name) (hlength : name.length ≤ 270)
    {mode : UInt32} (hstat : env.files.stat name = some mode) (numchars : Nat) :
    respond env http buf numchars path = (do
      serveFile env http (servedName name mode)
      return 1) := by
  obtain ⟨served, hserved, hfull⟩ := servedPath_spec hpath hlength mode
  funext buffer
  rw [respond, Method.bind_ok (Method.ofExcept_ok hpath _)]
  simp only [hstat]
  rw [Method.bind_ok (Method.ofExcept_ok hserved _), Method.bind_ok (Method.ofExcept_ok hfull _)]
  rfl

/-- A file that is not opened is answered, and then the null stream is closed. -/
theorem respond_unopened (hfuel : 2 ≤ env.fuel) (http : Http) (hpath : path.string = .ok name)
    (hlength : name.length ≤ 270) {mode : UInt32} (hstat : env.files.stat name = some mode)
    (hopen : env.files.fopen (servedName name mode) = none) (numchars : Nat)
    (buffer : IOBuffer) : respond env http buf numchars path buffer =
      .error .nullPointer (buffer.push notFoundPage) := by
  rw [respond_found http hpath hlength hstat, serveFile_eq hfuel, hopen]
  exact Method.bind_error (Method.bind_ok (notFound_eq buffer))

/-- A file that is opened is copied behind the headers. -/
theorem respond_opened (hfuel : 2 ≤ env.fuel) (http : Http) (hpath : path.string = .ok name)
    (hlength : name.length ≤ 270) {mode : UInt32} (hstat : env.files.stat name = some mode)
    {resource : InputStream} (hopen : env.files.fopen (servedName name mode) = some resource)
    (numchars : Nat) (buffer : IOBuffer) : respond env http buf numchars path buffer =
      (do
        cat env resource
        return 1 : Method IOBuffer Int) (buffer.push headerPage) := by
  rw [respond_found http hpath hlength hstat, serveFile_eq hfuel, hopen]
  simp only [bind_assoc]
  exact Method.bind_ok (headers_eq buffer)

/-! ### When it is an answer -/

/-- The path does not exist, or what is opened for it is a file that is copied
whole. -/
def MissingOrCopied (files : FileSystem) (name : List Byte) : Prop :=
  files.stat name = none ∨ ∃ resource content, openedFor files name = some resource ∧
    Delivers resource content ∧ CopiedWhole content

theorem missingOrCopied_of_answers (hline : Holds buf line)
    (hmethod : ImplementedMethod (line.takeWhile nonspace)) {http : Http} {buffer : IOBuffer}
    (hanswers : Answers env http buf line.length buffer) :
    MissingOrCopied env.files (withIndex (root ++ lineUrl line)) := by
  obtain ⟨path, hpath, hname⟩ := hline.requestPath_eq hmethod env.stack
  obtain ⟨path', name, page, hpath', hname', hanswer, turns, hturns⟩ := hanswers
  cases hpath.symm.trans hpath'
  cases hname.symm.trans hname'
  have hlength := lineUrl_path_length line
  cases hstat : env.files.stat (withIndex (root ++ lineUrl line)) with
  | none => exact .inl hstat
  | some mode =>
      have hserved : openedFor env.files (withIndex (root ++ lineUrl line)) =
          env.files.fopen (servedName (withIndex (root ++ lineUrl line)) mode) := by
        rw [openedFor, hstat]
      cases hopen : env.files.fopen (servedName (withIndex (root ++ lineUrl line)) mode) with
      | none =>
          obtain ⟨last, hrespond, -⟩ := hturns (turns + 2) (by omega)
          have hfault := @respond_unopened { env with fuel := turns + 2 } buf _ _
            (Nat.le_add_left 2 turns) http hname hlength mode hstat hopen line.length buffer
          rw [hrespond] at hfault
          contradiction
      | some resource =>
          rw [hopen] at hserved
          rw [IsAnswer, hserved] at hanswer
          obtain ⟨content, ⟨spoil, rfl⟩, rfl⟩ := hanswer
          refine .inr ⟨_, content, hserved, ⟨spoil, rfl⟩, ?_⟩
          have hcopies : Copies env content spoil (buffer.push headerPage) := by
            refine ⟨turns + 2, ?_⟩
            intro fuel hfuel
            obtain ⟨last, hrespond, hcontent⟩ := hturns fuel (by omega)
            rw [@respond_opened { env with fuel } buf _ _ (show 2 ≤ fuel by omega) http hname
              hlength mode hstat _ hopen] at hrespond
            obtain ⟨_, after, hcat, hreturn⟩ := Method.bind_eq_ok hrespond
            cases hreturn
            refine ⟨_, hcat, ?_⟩
            rw [hcontent, IOBuffer.content_push, List.append_assoc]
          exact copiedWhole_of_copies hcopies

/-- A request for GET or POST is answered if and only if `stat` fails, or the
file that is opened is copied whole. Where `stat` succeeds and `fopen` does not,
the null stream is closed. -/
theorem answers_iff (hline : Holds buf line)
    (hmethod : ImplementedMethod (line.takeWhile nonspace)) (env : HttpEnv) (http : Http)
    (buffer : IOBuffer) :
    Answers env http buf line.length buffer ↔
      MissingOrCopied env.files (withIndex (root ++ lineUrl line)) := by
  constructor
  · exact missingOrCopied_of_answers hline hmethod
  · intro hfiles
    obtain ⟨path, hpath, hname⟩ := hline.requestPath_eq hmethod env.stack
    have hlength := lineUrl_path_length line
    rcases hfiles with hstat | ⟨resource, content, hserved, ⟨spoil, rfl⟩, hwhole⟩
    · refine ⟨path, _, notFoundPage, hpath, hname, ?_, 2, ?_⟩
      · rw [IsAnswer, openedFor, hstat]
      · intro fuel hfuel
        exact ⟨_, @respond_missing { env with fuel } buf line _ path hfuel http hline hname hstat
          line.length buffer, IOBuffer.content_push buffer notFoundPage⟩
    · cases hstat : env.files.stat (withIndex (root ++ lineUrl line)) with
      | none =>
          rw [openedFor, hstat] at hserved
          contradiction
      | some mode =>
          refine ⟨path, _, headerPage ++ content, hpath, hname, ?_, content.length + 2, ?_⟩
          · rw [IsAnswer, hserved]
            exact ⟨content, ⟨spoil, rfl⟩, rfl⟩
          · intro fuel hfuel
            rw [openedFor, hstat] at hserved
            obtain ⟨last, copied, hcat, hcontent, hcopied⟩ :=
              @cat_ofList spoil { env with fuel } content (show content.length < fuel by omega)
                (buffer.push headerPage)
            refine ⟨last, ?_, ?_⟩
            · rw [@respond_opened { env with fuel } buf _ _ (show 2 ≤ fuel by omega) http hname
                hlength mode hstat _ hserved]
              exact Method.bind_ok hcat
            · rw [hcontent, hcopied.mpr hwhole, IOBuffer.content_push, List.append_assoc]

/-- A file system whose only file has the content. -/
def oneFile (content : List Byte) : FileSystem where
  stat _ := some 0o100644
  fopen _ := some (opened (ofList content) fun _ array => array)

/-- A file system whose files may be looked up and not opened. -/
def noAccess : FileSystem where
  stat _ := some 0o100600
  fopen _ := none

theorem oneFile_answered : Answers { HttpEnv.blank with files := oneFile (ascii "hi\n") } ⟨[]⟩
    (arrayOf plainLine (by decide)) plainLine.length .empty :=
  (answers_iff (holds_arrayOf _ (by decide)) (by decide) _ _ _).mpr
    (.inr ⟨_, ascii "hi\n", rfl, ⟨_, rfl⟩, by decide⟩)

/-- `GET / HTTP/1.0` is not answered if the index file may not be read. -/
theorem noAccess_unanswered : ¬ Answers { HttpEnv.blank with files := noAccess } ⟨[]⟩
    (arrayOf plainLine (by decide)) plainLine.length .empty := by
  intro hanswers
  rcases missingOrCopied_of_answers (holds_arrayOf _ (by decide)) (by decide) hanswers with
    hmissing | ⟨resource, content, hopened, -⟩
  · exact nomatch hmissing
  · exact nomatch hopened

end ZtHttp.Http
