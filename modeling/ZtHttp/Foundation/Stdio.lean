import ZtHttp.Foundation.CString

/-!
# Reading lines off a stream

A stream is known by what the reads of its characters give, one after the
other, which may be any characters, ends of file and errors. `fgets` reads up
to the end of a line and sets the end-of-file indicator, which stays set.
-/

namespace Imperative

def lineFeed : UInt8 := 10

/-- What one read of a character gives. -/
inductive Getc where
  | char (value : UInt8)
  | eof
  | error

/-- A `FILE*` open for reading: what the next reads give, the end-of-file
indicator, and what a read that fails leaves in the array it was to fill. -/
structure InputStream where
  reads : Nat → Getc
  eof : Bool
  spoil : (n : Nat) → CharArray n → CharArray n

/-- How the reading of a line ends. -/
inductive LineEnd where
  | complete
  | eof
  | error
  deriving DecidableEq

namespace InputStream

/-- A stream as it is opened. -/
def opened (reads : Nat → Getc) (spoil : (n : Nat) → CharArray n → CharArray n) : InputStream :=
  ⟨reads, false, spoil⟩

/-- The stream behind one read. -/
def advance (stream : InputStream) : InputStream :=
  { stream with reads := fun index => stream.reads (index + 1) }

/-- Reads up to `count` characters, the last of which is the first line feed. -/
def readLine : Nat → InputStream → List UInt8 × LineEnd × InputStream
  | 0, stream => ([], .complete, stream)
  | count + 1, stream =>
      match stream.reads 0 with
      | .eof => ([], .eof, { stream.advance with eof := true })
      | .error => ([], .error, stream.advance)
      | .char char =>
          if char = lineFeed then ([char], .complete, stream.advance)
          else
            let (line, ended, last) := readLine count stream.advance
            (char :: line, ended, last)

/-- `fgets(array, size, stream)`, for a caller that does not look at its
result. -/
def fgets {n : Nat} (array : CharArray n) (size : Nat) (stream : InputStream) :
    Except Fault (CharArray n × InputStream) :=
  if stream.eof then .ok (array, stream)
  else
    match stream.readLine (size - 1) with
    | (_, .error, last) => .ok (stream.spoil n array, last)
    | ([], .eof, last) => .ok (array, last)
    | (line, _, last) => return (← array.storeString 0 line, last)

/-! ### Any stream -/

theorem readLine_length (count : Nat) (stream : InputStream) :
    (stream.readLine count).1.length ≤ count := by
  induction count generalizing stream with
  | zero => exact Nat.le_refl 0
  | succ count ih =>
      unfold readLine
      split
      · exact Nat.zero_le _
      · exact Nat.zero_le _
      · split
        · exact Nat.succ_le_succ (Nat.zero_le count)
        · exact Nat.succ_le_succ (ih stream.advance)

theorem readLine_spoil (count : Nat) (stream : InputStream) :
    (stream.readLine count).2.2.spoil = stream.spoil := by
  induction count generalizing stream with
  | zero => rfl
  | succ count ih =>
      unfold readLine
      split
      · rfl
      · rfl
      · split
        · rfl
        · exact ih stream.advance

/-- The indicator is set by a line that meets the end of the file, and by no
other. -/
theorem readLine_eof (count : Nat) (stream : InputStream) (hopen : stream.eof = false) :
    (stream.readLine count).2.2.eof = decide ((stream.readLine count).2.1 = .eof) := by
  induction count generalizing stream with
  | zero => exact hopen
  | succ count ih =>
      unfold readLine
      split
      · rfl
      · exact hopen
      · split
        · exact hopen
        · exact ih stream.advance hopen

/-- A line takes at least one read if it may have a character, so that it
meets the end of the file or comes closer to it. -/
theorem readLine_nears_eof (count : Nat) {index : Nat} {stream : InputStream}
    (hend : stream.reads index = .eof) : (stream.readLine count).2.1 = .eof ∨
      ∃ nearer, (stream.readLine count).2.2.reads nearer = .eof ∧ nearer + min count 1 ≤ index := by
  induction count generalizing index stream with
  | zero => exact .inr ⟨index, hend, Nat.le_refl index⟩
  | succ count ih =>
      cases index with
      | zero =>
          unfold readLine
          rw [hend]
          exact .inl rfl
      | succ index =>
          have hlater : stream.advance.reads index = .eof := hend
          unfold readLine
          split
          · exact .inl rfl
          · exact .inr ⟨index, hlater, by omega⟩
          · split
            · exact .inr ⟨index, hlater, by omega⟩
            · rcases ih hlater with hmet | ⟨nearer, hnearer, hless⟩
              · exact .inl hmet
              · exact .inr ⟨nearer, hnearer, by omega⟩

/-- A line of a stream without end. -/
theorem readLine_endless {stream : InputStream} (hendless : ∀ index, stream.reads index ≠ .eof)
    (count : Nat) : (stream.readLine count).2.1 ≠ .eof ∧
      ∀ index, (stream.readLine count).2.2.reads index ≠ .eof := by
  induction count generalizing stream with
  | zero => exact ⟨nofun, hendless⟩
  | succ count ih =>
      have hlater : ∀ index, stream.advance.reads index ≠ .eof := fun index => hendless (index + 1)
      unfold readLine
      split
      · next hfirst => exact absurd hfirst (hendless 0)
      · exact ⟨nofun, hlater⟩
      · split
        · exact ⟨nofun, hlater⟩
        · exact ih hlater

/-- `fgets` returns where the array has room for the size it is given. It
leaves a string there, unless a read failed or the file ended. -/
theorem fgets_returns {n size : Nat} (array : CharArray n) {stream : InputStream}
    (hopen : stream.eof = false) (hsize : size ≤ n) (hpos : 0 < size) :
    ∃ last, stream.fgets array size = .ok (last, (stream.readLine (size - 1)).2.2) ∧
      ((∃ string, last.string = .ok string) ∨ last = stream.spoil n array ∨
        (stream.readLine (size - 1)).2.1 = .eof) := by
  have hlength := readLine_length (size - 1) stream
  unfold fgets
  rw [if_neg (by simp [hopen])]
  rcases hline : stream.readLine (size - 1) with ⟨line, ended, after⟩
  rw [hline] at hlength
  dsimp only at hlength ⊢
  obtain ⟨stored, hstore, hstring⟩ :=
    array.storeString_string (show line.length < n by omega)
  cases ended with
  | error => exact ⟨_, rfl, .inr (.inl rfl)⟩
  | complete =>
      refine ⟨stored, ?_, .inl ⟨_, hstring⟩⟩
      cases line <;> simp [hstore, bind, Except.bind, pure, Except.pure]
  | eof =>
      cases line with
      | nil => exact ⟨array, rfl, .inr (.inr rfl)⟩
      | cons char line =>
          refine ⟨stored, ?_, .inl ⟨_, hstring⟩⟩
          simp [hstore, bind, Except.bind, pure, Except.pure]

/-- The end of the file is never met, and a read that fails leaves a string in
an array of `n` characters. -/
structure Endless (n : Nat) (stream : InputStream) : Prop where
  eof : stream.eof = false
  reads : ∀ index, stream.reads index ≠ .eof
  spoil : ∀ array, ∃ string, (stream.spoil n array).string = .ok string

/-- `fgets` leaves a string, and the stream behind it is without end as well. -/
theorem fgets_endless {n size : Nat} (array : CharArray n) {stream : InputStream}
    (hendless : Endless n stream) (hsize : size ≤ n) (hpos : 0 < size) :
    ∃ last after, stream.fgets array size = .ok (last, after) ∧
      (∃ string, last.string = .ok string) ∧ Endless n after := by
  obtain ⟨last, hfgets, hleft⟩ := fgets_returns array hendless.eof hsize hpos
  obtain ⟨hmore, hlater⟩ := readLine_endless hendless.reads (size - 1)
  refine ⟨last, _, hfgets, ?_, ?_, hlater, ?_⟩
  · rcases hleft with hstring | rfl | hmet
    · exact hstring
    · exact hendless.spoil array
    · exact absurd hmet hmore
  · rw [readLine_eof _ _ hendless.eof]
    exact decide_eq_false hmore
  · rw [readLine_spoil]
    exact hendless.spoil

/-! ### Files that can be read to their end -/

/-- The reads of a file with the given content. -/
def ofList (content : List UInt8) : Nat → Getc := fun index =>
  match content[index]? with
  | some char => .char char
  | none => .eof

/-- A line that `fgets` reads whole: it ends with its only line feed, or has as
many characters as there is room for. -/
def Complete (count : Nat) (line : List UInt8) : Prop :=
  (∃ body, line = body ++ [lineFeed] ∧ lineFeed ∉ body ∧ body.length < count) ∨
    (lineFeed ∉ line ∧ line.length = count)

theorem not_complete_nil (count : Nat) : ¬ Complete (count + 1) [] := by
  rintro (⟨body, heq, -⟩ | ⟨-, hlength⟩)
  · exact List.append_ne_nil_of_right_ne_nil body (List.cons_ne_nil _ _) heq.symm
  · contradiction

/-- The first character of a whole line is the line feed, or the rest is whole
with one character less. -/
theorem complete_cons {count : Nat} {char : UInt8} {line : List UInt8}
    (hline : Complete (count + 1) (char :: line)) :
    (char = lineFeed ∧ line = []) ∨ (char ≠ lineFeed ∧ Complete count line) := by
  rcases hline with ⟨body, heq, hbody, hlength⟩ | ⟨hbody, hlength⟩
  · cases body with
    | nil =>
        obtain ⟨rfl, rfl⟩ := List.cons.inj heq
        exact .inl ⟨rfl, rfl⟩
    | cons first body =>
        obtain ⟨rfl, rfl⟩ := List.cons.inj heq
        exact .inr ⟨(List.ne_of_not_mem_cons hbody).symm, .inl ⟨body, rfl,
          List.not_mem_of_not_mem_cons hbody, Nat.lt_of_succ_lt_succ hlength⟩⟩
  · exact .inr ⟨(List.ne_of_not_mem_cons hbody).symm, .inr ⟨List.not_mem_of_not_mem_cons hbody,
      Nat.succ.inj hlength⟩⟩

/-- Either a line can be read whole, or the file ends before. -/
theorem exists_complete (count : Nat) (content : List UInt8) :
    (∃ line rest, content = line ++ rest ∧ Complete count line) ∨
      (lineFeed ∉ content ∧ content.length < count) := by
  induction count generalizing content with
  | zero => exact .inl ⟨[], content, rfl, .inr ⟨List.not_mem_nil, rfl⟩⟩
  | succ count ih =>
      cases content with
      | nil => exact .inr ⟨List.not_mem_nil, Nat.succ_pos count⟩
      | cons char content =>
          by_cases hfeed : char = lineFeed
          · refine .inl ⟨[char], content, rfl, .inl ⟨[], ?_, List.not_mem_nil, Nat.succ_pos count⟩⟩
            rw [hfeed, List.nil_append]
          · have hne : lineFeed ≠ char := Ne.symm hfeed
            rcases ih content with ⟨line, rest, rfl, hline⟩ | ⟨hnone, hshort⟩
            · refine .inl ⟨char :: line, rest, rfl, ?_⟩
              rcases hline with ⟨body, rfl, hbody, hlength⟩ | ⟨hbody, hlength⟩
              · exact .inl ⟨char :: body, rfl, List.not_mem_cons_of_ne_of_not_mem hne hbody,
                  Nat.succ_lt_succ hlength⟩
              · exact .inr ⟨List.not_mem_cons_of_ne_of_not_mem hne hbody, congrArg (· + 1) hlength⟩
            · exact .inr ⟨List.not_mem_cons_of_ne_of_not_mem hne hnone, Nat.succ_lt_succ hshort⟩

variable {spoil : (n : Nat) → CharArray n → CharArray n}

theorem advance_ofList (char : UInt8) (content : List UInt8) :
    (opened (ofList (char :: content)) spoil).advance = opened (ofList content) spoil := rfl

/-- A whole line is read off the content. -/
theorem readLine_complete {count : Nat} {line : List UInt8} (hline : Complete count line)
    (rest : List UInt8) : (opened (ofList (line ++ rest)) spoil).readLine count =
      (line, .complete, opened (ofList rest) spoil) := by
  induction count generalizing line with
  | zero =>
      rcases hline with ⟨body, -, -, hlength⟩ | ⟨-, hlength⟩
      · exact absurd hlength (Nat.not_lt_zero _)
      · rw [List.length_eq_zero_iff.mp hlength]
        rfl
  | succ count ih =>
      cases line with
      | nil => exact absurd hline (not_complete_nil count)
      | cons char line =>
          have hfirst : (opened (ofList (char :: line ++ rest)) spoil).reads 0 = .char char := rfl
          unfold readLine
          rw [hfirst]
          dsimp only
          rcases complete_cons hline with ⟨hfeed, rfl⟩ | ⟨hne, htail⟩
          · rw [if_pos hfeed]
            rfl
          · rw [if_neg hne, List.cons_append, advance_ofList, ih htail]

/-- The rest of a file that does not end with a line feed. -/
theorem readLine_rest {count : Nat} {content : List UInt8} (hfeed : lineFeed ∉ content)
    (hshort : content.length < count) : ∃ last, (opened (ofList content) spoil).readLine count =
      (content, .eof, last) ∧ last.eof = true := by
  induction count generalizing content with
  | zero => exact absurd hshort (Nat.not_lt_zero _)
  | succ count ih =>
      cases content with
      | nil => exact ⟨_, rfl, rfl⟩
      | cons char content =>
          have hne : char ≠ lineFeed := (List.ne_of_not_mem_cons hfeed).symm
          have hfirst : (opened (ofList (char :: content)) spoil).reads 0 = .char char := rfl
          obtain ⟨last, hrest, hend⟩ := ih (List.not_mem_of_not_mem_cons hfeed)
            (Nat.lt_of_succ_lt_succ hshort)
          refine ⟨last, ?_, hend⟩
          unfold readLine
          rw [hfirst]
          dsimp only
          rw [if_neg hne, advance_ofList, hrest]

theorem fgets_complete {n size : Nat} (array : CharArray n) (hsize : size ≤ n) (hpos : 0 < size)
    {line : List UInt8} (hline : Complete (size - 1) line) (rest : List UInt8) :
    ∃ last, (opened (ofList (line ++ rest)) spoil).fgets array size =
        .ok (last, opened (ofList rest) spoil) ∧
      last.string = .ok (line.takeWhile (· != 0)) := by
  have hread : (opened (ofList (line ++ rest)) spoil).readLine (size - 1) =
    (line, .complete, opened (ofList rest) spoil) := readLine_complete hline rest
  have hlength := readLine_length (size - 1) (opened (ofList (line ++ rest)) spoil)
  rw [hread] at hlength
  dsimp only at hlength
  obtain ⟨last, hstore, hstring⟩ := array.storeString_string (show line.length < n by omega)
  refine ⟨last, ?_, hstring⟩
  unfold fgets
  rw [if_neg (by simp [opened]), hread]
  cases line <;> simp [hstore, bind, Except.bind, pure, Except.pure]

/-- Behind the last whole line the end of the file is met. -/
theorem fgets_rest {n size : Nat} (array : CharArray n) (hsize : size ≤ n)
    {content : List UInt8} (hfeed : lineFeed ∉ content) (hshort : content.length < size - 1) :
    ∃ array' last, (opened (ofList content) spoil).fgets array size = .ok (array', last) ∧
      last.eof = true := by
  obtain ⟨last, hread, hend⟩ := @readLine_rest spoil _ _ hfeed hshort
  obtain ⟨array', hfgets, -⟩ := @fgets_returns n size array (opened (ofList content) spoil) rfl
    hsize (by omega)
  rw [hread] at hfgets
  exact ⟨array', last, hfgets, hend⟩

end InputStream

end Imperative
