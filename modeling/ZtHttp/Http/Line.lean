import ZtHttp.Http.Response

/-!
# Reading lines

`get_line` of simHttp takes the next line off a socket. `Http::get_line` has
its place, and reads `_in_buffer` without advancing its index or taking
anything off, so that the two agree only where there is nothing to read.
-/

namespace ZtHttp

open Imperative

def carriageReturn : Byte := 13

/-- `int get_line(..., char* buf, int size)` for one size: what it reads from,
the array it leaves and its result. -/
abbrev LineReader (σ : Type) (n : Nat) :=
  σ → CharArray n → Except Fault ((CharArray n × Nat) × σ)

/-- The results of successive calls with one array, and the strings that they
leave in it. -/
def linesRead {σ : Type} {n : Nat} (reader : LineReader σ n) :
    Nat → σ → CharArray n → Except Fault (List (Nat × List Byte))
  | 0, _, _ => .ok []
  | calls + 1, source, buf => do
      let ((buf, result), source) ← reader source buf
      let string ← buf.string
      return (result, string) :: (← linesRead reader calls source buf)

/-- `get_line` as a reader of `_in_buffer`, which it leaves as it is. -/
def Http.lineReader (n size : Nat) : LineReader Http n := fun http buf => do
  return (← Http.getLine http buf size, http)

namespace SimHttp

open Http (newline)

/-- `while ((i < size - 1) && (c != '\n'))`. The socket is what `recv` still
has to give, and its peer has sent no more. -/
def getLineLoop {n : Nat} (size : Nat) :
    List Byte → CharArray n → Nat → Byte → Except Fault ((CharArray n × Nat) × List Byte)
  | sock, buf, i, c =>
      if i < size - 1 && c != newline then
        match sock with
        | [] => .ok ((buf, i), [])
        | char :: rest =>
            if char = carriageReturn then
              match rest with
              | [] => do getLineLoop size [] (← buf.store i newline) (i + 1) newline
              | next :: behind =>
                  -- `MSG_PEEK` leaves the character, and a newline is then taken
                  if next = newline then do
                    getLineLoop size behind (← buf.store i next) (i + 1) next
                  else do
                    getLineLoop size (next :: behind) (← buf.store i newline) (i + 1) newline
            else do getLineLoop size rest (← buf.store i char) (i + 1) char
      else .ok ((buf, i), sock)

/-- `get_line(sock, buf, size)` -/
def getLine (n size : Nat) : LineReader (List Byte) n := fun sock buf => do
  let ((buf, i), sock) ← getLineLoop size sock buf 0 0
  return ((← buf.store i 0, i), sock)

/-! ### The contract -/

/-- The next line, cut behind `room` characters, and what follows it. CR, LF
and CRLF are read as one newline. -/
def nextLine : Nat → List Byte → List Byte × List Byte
  | 0, input => ([], input)
  | _ + 1, [] => ([], [])
  | room + 1, char :: rest =>
      if char = carriageReturn then
        ([newline], if rest.head? = some newline then rest.tail else rest)
      else if char = newline then ([newline], rest)
      else
        let (line, behind) := nextLine room rest
        (char :: line, behind)

theorem nextLine_length (room : Nat) (input : List Byte) :
    (nextLine room input).1.length ≤ room := by
  fun_induction nextLine room input with
  | case1 input => exact Nat.le_refl 0
  | case2 room => exact Nat.zero_le _
  | case3 room rest => exact Nat.succ_le_succ (Nat.zero_le room)
  | case4 room rest => exact Nat.succ_le_succ (Nat.zero_le room)
  | case5 room char rest _ _ line behind hline ih =>
      rw [hline] at ih
      exact Nat.succ_le_succ ih

/-- A line has a character if there is one to read. -/
theorem nextLine_nil {room : Nat} {input : List Byte} (hline : (nextLine (room + 1) input).1 = []) :
    input = [] := by
  cases input with
  | nil => rfl
  | cons char rest =>
      unfold nextLine at hline
      split_ifs at hline

theorem getLineLoop_newline {n : Nat} (size : Nat) (sock : List Byte) (buf : CharArray n)
    (i : Nat) :
    getLineLoop size sock buf i newline = .ok ((buf, i), sock) := by
  unfold getLineLoop
  rw [if_neg (by simp)]

/-- The turn that stores a newline is the last one. -/
theorem getLineLoop_last {n : Nat} (size : Nat) (sock : List Byte) (buf : CharArray n) (i : Nat) :
    (do getLineLoop size sock (← buf.store i newline) (i + 1) newline) =
      (buf.storeAll [newline] i).map fun last => ((last, i + 1), sock) := by
  rw [CharArray.storeAll]
  cases hstore : buf.store i newline with
  | error fault => rfl
  | ok last => exact getLineLoop_newline size sock last (i + 1)

/-- The loop writes the next line from `i` on. -/
theorem getLineLoop_eq {n size room i : Nat} (hroom : size - 1 - i = room) {c : Byte}
    (hc : c ≠ newline) (sock : List Byte) (buf : CharArray n) :
    getLineLoop size sock buf i c = (buf.storeAll (nextLine room sock).1 i).map fun last =>
      ((last, i + (nextLine room sock).1.length), (nextLine room sock).2) := by
  induction room generalizing i c sock buf with
  | zero =>
      unfold getLineLoop
      rw [if_neg (by simp; omega)]
      rfl
  | succ room ih =>
      have htest : (decide (i < size - 1) && c != newline) = true := by
        simp only [Bool.and_eq_true, decide_eq_true_eq, bne_iff_ne]
        exact ⟨by omega, hc⟩
      unfold getLineLoop
      rw [if_pos htest]
      cases sock with
      | nil => rfl
      | cons char rest =>
          dsimp only
          by_cases hreturn : char = carriageReturn
          · rw [if_pos hreturn]
            simp only [nextLine, if_pos hreturn]
            cases rest with
            | nil => exact getLineLoop_last size [] buf i
            | cons next behind =>
                dsimp only
                by_cases hnext : next = newline
                · subst hnext
                  simpa using getLineLoop_last size behind buf i
                · rw [if_neg hnext]
                  simpa [hnext] using getLineLoop_last size (next :: behind) buf i
          · rw [if_neg hreturn]
            by_cases hnewline : char = newline
            · subst hnewline
              simpa [nextLine, hreturn] using getLineLoop_last size rest buf i
            · simp only [nextLine, if_neg hreturn, if_neg hnewline, CharArray.storeAll]
              cases hstore : buf.store i char with
              | error fault => rfl
              | ok last =>
                  refine (ih (by omega) hnewline rest last).trans ?_
                  simp only [List.length_cons, Nat.add_assoc, Nat.add_comm 1]
                  rfl

/-- `get_line` writes the next line to the front of the array, with a
terminator behind it. -/
theorem getLine_eq (n : Nat) {size : Nat} (sock : List Byte) (buf : CharArray n) :
    getLine n size sock buf = (buf.storeString 0 (nextLine (size - 1) sock).1).map fun last =>
      ((last, (nextLine (size - 1) sock).1.length), (nextLine (size - 1) sock).2) := by
  rw [getLine, getLineLoop_eq (rfl : size - 1 - 0 = size - 1) (by decide),
    CharArray.storeString_eq_bind]
  simp only [Nat.zero_add]
  cases buf.storeAll (nextLine (size - 1) sock).1 0 with
  | error fault => rfl
  | ok last =>
      simp only [Except.map, bind, Except.bind]
      cases last.store (nextLine (size - 1) sock).1.length 0 <;> rfl

end SimHttp

/-! ### Successive calls -/

section Calls

variable {σ : Type} {n : Nat} {reader : LineReader σ n}

theorem linesRead_cons {source rest : σ} {buf last : CharArray n} {result calls : Nat}
    {string : List Byte} {lines : List (Nat × List Byte)}
    (hread : reader source buf = .ok ((last, result), rest)) (hstring : last.string = .ok string)
    (hlines : linesRead reader calls rest last = .ok lines) :
    linesRead reader (calls + 1) source buf = .ok ((result, string) :: lines) := by
  simp only [linesRead, hread, hstring, hlines, bind, Except.bind, pure, Except.pure]

/-- A reader that always returns and leaves a string. -/
def Returns (reader : LineReader σ n) : Prop :=
  ∀ source buf, ∃ last result rest string,
    reader source buf = .ok ((last, result), rest) ∧ last.string = .ok string

theorem linesRead_returns (hreader : Returns reader) (calls : Nat) (source : σ)
    (buf : CharArray n) : ∃ lines, linesRead reader calls source buf = .ok lines := by
  induction calls generalizing source buf with
  | zero => exact ⟨[], rfl⟩
  | succ calls ih =>
      obtain ⟨last, result, rest, string, hread, hstring⟩ := hreader source buf
      obtain ⟨lines, hlines⟩ := ih rest last
      exact ⟨(result, string) :: lines, linesRead_cons hread hstring hlines⟩

/-- Readers whose successive calls agree agree on the first. -/
theorem linesRead_head {τ : Type} {other : LineReader τ n} (hreader : Returns reader)
    (hother : Returns other) {source rest : σ} {source' rest' : τ} {buf last last' : CharArray n}
    {result result' calls : Nat} {string string' : List Byte}
    (hread : reader source buf = .ok ((last, result), rest)) (hstring : last.string = .ok string)
    (hread' : other source' buf = .ok ((last', result'), rest'))
    (hstring' : last'.string = .ok string')
    (hagree : linesRead reader (calls + 1) source buf = linesRead other (calls + 1) source' buf) :
    result = result' ∧ string = string' := by
  obtain ⟨lines, hlines⟩ := linesRead_returns hreader calls rest last
  obtain ⟨lines', hlines'⟩ := linesRead_returns hother calls rest' last'
  rw [linesRead_cons hread hstring hlines, linesRead_cons hread' hstring' hlines'] at hagree
  exact Prod.mk.inj (List.cons.inj (Except.ok.inj hagree)).1

/-- A reader that gives the same string again and again. -/
theorem linesRead_replicate {source : σ} {result : Nat} {string : List Byte}
    (hreader : ∀ buf, buf.string = .ok string → ∃ last,
      reader source buf = .ok ((last, result), source) ∧ last.string = .ok string)
    (calls : Nat) {buf : CharArray n} (hstring : buf.string = .ok string) :
    linesRead reader calls source buf = .ok (List.replicate calls (result, string)) := by
  induction calls generalizing buf with
  | zero => rfl
  | succ calls ih =>
      obtain ⟨last, hread, hlast⟩ := hreader buf hstring
      rw [List.replicate_succ]
      exact linesRead_cons hread hlast (ih hlast)

end Calls

section Readers

variable {n size : Nat}

/-- `get_line` of simHttp returns the length of the next line, and leaves the
line up to its first NUL. -/
theorem SimHttp.getLine_returns (hsize : 0 < size) (hfits : size ≤ n) (sock : List Byte)
    (buf : CharArray n) :
    ∃ last, getLine n size sock buf =
        .ok ((last, (nextLine (size - 1) sock).1.length), (nextLine (size - 1) sock).2) ∧
      last.string = .ok ((nextLine (size - 1) sock).1.takeWhile (· != 0)) := by
  have hlength := nextLine_length (size - 1) sock
  obtain ⟨last, hstore, hstring⟩ := buf.storeString_string
    (show (nextLine (size - 1) sock).1.length < n by omega)
  refine ⟨last, ?_, hstring⟩
  rw [getLine_eq, hstore]
  rfl

/-- `Http::get_line` returns 0 whatever there is to read. -/
theorem Http.lineReader_returns (hn : 1 < n) (http : Http) (buf : CharArray n) :
    ∃ last string, lineReader n size http buf = .ok ((last, 0), http) ∧
      last.string = .ok string := by
  obtain ⟨last, hline, hterminated⟩ := getLine_eq hn http buf size
  have hmem : 0 ∈ last.toList := by
    rw [← hterminated, Vector.mem_toList_iff]
    exact Vector.getElem_mem hn
  obtain ⟨string, hstring⟩ := readString_of_mem hmem
  refine ⟨last, string, ?_, hstring⟩
  rw [lineReader, hline]
  rfl

theorem SimHttp.returns (hsize : 0 < size) (hfits : size ≤ n) : Returns (getLine n size) := by
  intro sock buf
  obtain ⟨last, hread, hstring⟩ := getLine_returns hsize hfits sock buf
  exact ⟨last, _, _, _, hread, hstring⟩

theorem Http.returns (hn : 1 < n) : Returns (lineReader n size) := by
  intro http buf
  obtain ⟨last, string, hread, hstring⟩ := lineReader_returns hn http buf
  exact ⟨last, 0, http, string, hread, hstring⟩

/-- With nothing to read `Http::get_line` keeps the empty string, and no other. -/
theorem Http.lineReader_nil (hn : 1 < n) {http : Http} (hnil : http.inBuffer = [])
    (buf : CharArray n) :
    ∃ last, lineReader n size http buf = .ok ((last, 0), http) ∧
      (last.string = .ok [] ↔ buf.string = .ok []) := by
  refine ⟨buf.set 1 0, ?_, ?_⟩
  · simp only [lineReader, getLine, hnil, getLineLoop, bind, Except.bind, Nat.zero_add,
      CharArray.store_eq buf 0 hn]
    rfl
  · rw [CharArray.string_eq_nil_iff (by omega), CharArray.string_eq_nil_iff (by omega),
      Vector.getElem_set_ne _ _ (by decide)]

/-- With nothing to read `get_line` of simHttp leaves the empty string. -/
theorem SimHttp.getLine_nil (hsize : 0 < size) (hfits : size ≤ n) (buf : CharArray n) :
    ∃ last, getLine n size [] buf = .ok ((last, 0), []) ∧ last.string = .ok [] := by
  obtain ⟨last, hread, hstring⟩ := getLine_returns hsize hfits [] buf
  have hline : nextLine (size - 1) [] = ([], []) := by
    cases size - 1 <;> rfl
  rw [hline] at hread hstring
  exact ⟨last, hread, hstring⟩

/-- The readers agree exactly when no call is made, or there is nothing to read
and the array holds the empty string. -/
theorem linesRead_eq_iff (hsize : 2 ≤ size) (hfits : size ≤ n) (http : Http) (buf : CharArray n)
    (calls : Nat) :
    linesRead (Http.lineReader n size) calls http buf =
        linesRead (SimHttp.getLine n size) calls http.inBuffer buf ↔
      calls = 0 ∨ http.inBuffer = [] ∧ buf.string = .ok [] := by
  have hn : 1 < n := by omega
  have hpos : 0 < size := by omega
  constructor
  · intro hagree
    cases calls with
    | zero => exact .inl rfl
    | succ calls =>
        obtain ⟨last', hread', hstring'⟩ := SimHttp.getLine_returns hpos hfits http.inBuffer buf
        obtain ⟨first, string, hread, hstring⟩ :=
          @Http.lineReader_returns n size hn http buf
        obtain ⟨hcount, hsame⟩ := linesRead_head (Http.returns hn) (SimHttp.returns hpos hfits)
          hread hstring hread' hstring' hagree
        -- a line without characters was not there to read
        have hline := List.length_eq_zero_iff.mp hcount.symm
        rw [hline, List.takeWhile_nil] at hsame
        rw [show size - 1 = size - 2 + 1 by omega] at hline
        have hnil := SimHttp.nextLine_nil hline
        obtain ⟨last, hlast, hkept⟩ := @Http.lineReader_nil n size hn http hnil buf
        cases hread.symm.trans hlast
        rw [hsame] at hstring
        exact .inr ⟨hnil, hkept.mp hstring⟩
  · rintro (rfl | ⟨hnil, hstring⟩)
    · rfl
    · have hsim := linesRead_replicate (fun buf _ => SimHttp.getLine_nil hpos hfits buf)
        calls hstring
      rw [hnil, hsim]
      refine linesRead_replicate ?_ calls hstring
      intro buf hempty
      obtain ⟨last, hread, hkept⟩ := Http.lineReader_nil hn hnil buf
      exact ⟨last, hread, hkept.mpr hempty⟩

end Readers

/-- Without input both give the empty string. -/
theorem noInput_agrees : linesRead (Http.lineReader 2 2) 3 ⟨[]⟩ (.replicate 2 0) =
    linesRead (SimHttp.getLine 2 2) 3 [] (.replicate 2 0) :=
  (linesRead_eq_iff (by decide) (by decide) ⟨[]⟩ _ 3).mpr (.inr ⟨rfl, rfl⟩)

/-- Of a line `Http::get_line` leaves the last character, and returns that it
is empty. -/
theorem line_lost :
    linesRead (Http.lineReader 8 8) 1 ⟨ascii "GET\r\n"⟩ (.replicate 8 0) =
        .ok [(0, [carriageReturn])] ∧
      linesRead (SimHttp.getLine 8 8) 1 (ascii "GET\r\n") (.replicate 8 0) =
        .ok [(4, ascii "GET\n")] := by
  decide

end ZtHttp
