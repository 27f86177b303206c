import ZtHttp.Http.Resource

/-!
# What the stack held before

No array of `write` is initialised. `get_line` leaves the first byte of `buf` as
it finds it if the line is empty, and yet no content of it is one of the methods,
so the response is the same. Behind `get_line` the arrays are read only where
they were written: what is answered depends on the line that `buf` holds, and on
no array, as long as the files can be read.
-/

namespace ZtHttp.Http

open Imperative Imperative.InputStream

/-- `write` behind `get_line`. -/
def answer (env : HttpEnv) (http : Http) (buf : CharArray 1024) (numchars : Nat) :
    Method IOBuffer Int := do
  match ← Method.ofExcept (requestPath env.stack buf numchars) with
  | none =>
      unimplemented
      return -1
  | some path => respond env http buf numchars path

theorem write_eq_answer (env : HttpEnv) (http : Http) : write env http = (do
    let (buf, numchars) ← Method.ofExcept (getLine http env.stack.buf 1024)
    answer env http buf numchars) :=
  write_eq_respond env http

/-- Whatever the arrays held, `write` appends the same bytes and returns the
same value. -/
theorem write_stack (env : HttpEnv) (stack : Stack) (http : Http) (buffer : IOBuffer) :
    write { env with stack } http buffer = write env http buffer := by
  rw [write_eq, write_eq]

/-! ### Copying a file -/

section

variable {spoil : (n : Nat) → CharArray n → CharArray n}

/-- What one line read into two arrays leaves: either both hold the same string
and the rest of the file is behind it, or both have met the end of the file. -/
def SameRead (spoil : (n : Nat) → CharArray n → CharArray n)
    (taken taken' : CharArray 1024 × InputStream) : Prop :=
  (∃ line rest, taken.1.string = .ok line ∧ taken'.1.string = .ok line ∧
    taken.2 = opened (ofList rest) spoil ∧ taken'.2 = opened (ofList rest) spoil) ∨
  (taken.2.eof = true ∧ taken'.2.eof = true)

/-- A line that is read whole fills an array from its beginning, whatever the
array held. -/
theorem fgets_sameRead (abuf abuf' : CharArray 1024) {size : Nat} (hsize : size ≤ 1024)
    (hpos : 0 < size) (content : List Byte) : ∃ taken taken',
      (opened (ofList content) spoil).fgets abuf size = .ok taken ∧
      (opened (ofList content) spoil).fgets abuf' size = .ok taken' ∧
      SameRead spoil taken taken' := by
  rcases exists_complete (size - 1) content with ⟨line, rest, rfl, hline⟩ | ⟨hfeed, hshort⟩
  · obtain ⟨next, hnext, hstring⟩ := fgets_complete abuf hsize hpos hline rest
    obtain ⟨next', hnext', hstring'⟩ := fgets_complete abuf' hsize hpos hline rest
    exact ⟨_, _, hnext, hnext', .inl ⟨_, rest, hstring, hstring', rfl, rfl⟩⟩
  · obtain ⟨next, last, hnext, hend⟩ := fgets_rest abuf hsize hfeed hshort
    obtain ⟨next', last', hnext', hend'⟩ := fgets_rest abuf' hsize hfeed hshort
    exact ⟨_, _, hnext, hnext', .inr ⟨hend, hend'⟩⟩

theorem catLoop_sameRead (fuel : Nat) {taken taken' : CharArray 1024 × InputStream}
    (hsame : SameRead spoil taken taken') (buffer : IOBuffer) :
    catLoop fuel taken.1 taken.2 buffer = catLoop fuel taken'.1 taken'.2 buffer := by
  induction fuel generalizing taken taken' buffer with
  | zero => rfl
  | succ fuel ih =>
      rcases hsame with ⟨line, rest, hline, hline', hrest, hrest'⟩ | ⟨hend, hend'⟩
      · obtain ⟨next, next', hnext, hnext', hread⟩ :=
          @fgets_sameRead spoil taken.1 taken'.1 8 (by decide) (by decide) rest
        rw [hrest, hrest', catLoop_turn fuel rfl hline hnext, catLoop_turn fuel rfl hline' hnext']
        exact ih hread _
      · rw [catLoop_eof fuel _ hend, catLoop_eof fuel _ hend']

/-- `cat` depends on what it reads, and not on what its array held. -/
theorem cat_stack (env : HttpEnv) (stack : Stack) (content : List Byte) (buffer : IOBuffer) :
    cat { env with stack } (opened (ofList content) spoil) buffer =
      cat env (opened (ofList content) spoil) buffer := by
  obtain ⟨first, first', hfirst, hfirst', hread⟩ := @fgets_sameRead spoil stack.fileBuf
    env.stack.fileBuf 1024 (Nat.le_refl 1024) (by decide) content
  rw [cat, cat, Method.bind_ok (Method.ofExcept_ok hfirst _),
    Method.bind_ok (Method.ofExcept_ok hfirst' _)]
  exact catLoop_sameRead env.fuel hread buffer

end

/-! ### Answering a line -/

/-- Every file that is opened can be read to its end. A read that fails may
leave of an array what it held. -/
def Readable (files : FileSystem) : Prop :=
  ∀ name resource, files.fopen name = some resource → ∃ content, Delivers resource content

variable {env : HttpEnv} {buf buf' : CharArray 1024} {line name : List Byte}
  {path path' : CharArray 512}

theorem respond_stack (hfuel : 2 ≤ env.fuel) (hreadable : Readable env.files) (http : Http)
    (hline : Holds buf line) (hline' : Holds buf' line) (hpath : path.string = .ok name)
    (hpath' : path'.string = .ok name) (hlength : name.length ≤ 270) (stack : Stack)
    (numchars : Nat) (buffer : IOBuffer) :
    respond { env with stack } http buf numchars path buffer =
      respond env http buf' numchars path' buffer := by
  cases hstat : env.files.stat name with
  | none =>
      rw [respond_missing hfuel http hline' hpath' hstat]
      exact @respond_missing { env with stack } _ _ _ _ hfuel http hline hpath hstat _ _
  | some mode =>
      cases hopen : env.files.fopen (servedName name mode) with
      | none =>
          rw [respond_unopened hfuel http hpath' hlength hstat hopen]
          exact @respond_unopened { env with stack } _ _ _ hfuel http hpath hlength _ hstat hopen
            _ _
      | some resource =>
          obtain ⟨content, spoil, rfl⟩ := hreadable _ _ hopen
          rw [respond_opened hfuel http hpath' hlength hstat hopen]
          have hcat : cat { env with stack } (opened (ofList content) spoil) =
              cat env (opened (ofList content) spoil) := funext (cat_stack env stack content)
          rw [@respond_opened { env with stack } _ _ _ hfuel http hpath hlength _ hstat _ hopen _ _,
            hcat]

/-- A method that is cut to the room of its array is implemented only if nothing
was cut off. -/
theorem implementedMethod_take {method : List Byte}
    (hmethod : ImplementedMethod (method.take 254)) : ImplementedMethod method := by
  have hlength := hmethod.length
  rw [List.length_take] at hlength
  rwa [List.take_of_length_le (by omega)] at hmethod

/-- The answer to a line depends on no array. -/
theorem answer_stack (hfuel : 2 ≤ env.fuel) (hreadable : Readable env.files) (http : Http)
    (hline : Holds buf line) (hline' : Holds buf' line) (stack : Stack) (buffer : IOBuffer) :
    answer { env with stack } http buf line.length buffer =
      answer env http buf' line.length buffer := by
  by_cases hmethod : ImplementedMethod ((line.takeWhile nonspace).take 254)
  · have hwhole := implementedMethod_take hmethod
    obtain ⟨path, hpath, hname⟩ := hline.requestPath_eq hwhole stack
    obtain ⟨path', hpath', hname'⟩ := hline'.requestPath_eq hwhole env.stack
    have hrespond := respond_stack hfuel hreadable http hline hline' hname hname'
      (lineUrl_path_length line) stack line.length buffer
    rw [answer, answer, Method.bind_ok (Method.ofExcept_ok hpath _),
      Method.bind_ok (Method.ofExcept_ok hpath' _)]
    exact hrespond
  · have hspec := requestPath_spec stack buf hline.length_le
    have hspec' := requestPath_spec env.stack buf' hline'.length_le
    rw [hline.methodText_eq, if_neg hmethod] at hspec
    rw [hline'.methodText_eq, if_neg hmethod] at hspec'
    rw [answer, answer, Method.bind_ok (Method.ofExcept_ok hspec _),
      Method.bind_ok (Method.ofExcept_ok hspec' _)]

end ZtHttp.Http
