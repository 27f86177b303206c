import Mathlib.Data.List.TakeWhile
import ZtHttp.Foundation.Method

/-!
# Character arrays and C strings

A `char` array has its size in its type, and every access is checked against
it. The string functions read up to the terminator and no further.
-/

namespace Imperative

/-- A `char[n]`. -/
abbrev CharArray (n : Nat) := Vector UInt8 n

/-- The characters of a string literal, without its terminator. -/
def ascii (literal : String) : List UInt8 :=
  literal.toList.map fun char => UInt8.ofNat char.toNat

/-- `isspace` in the C locale. -/
def isspace (char : UInt8) : Bool := char == 32 || (9 ≤ char && char ≤ 13)

/-- `tolower` in the C locale. -/
def tolower (char : UInt8) : UInt8 := if 65 ≤ char && char ≤ 90 then char + 32 else char

namespace CharArray

variable {n : Nat}

def load (array : CharArray n) (index : Nat) : Except Fault UInt8 :=
  if h : index < n then .ok array[index] else .error .outOfBounds

def store (array : CharArray n) (index : Nat) (char : UInt8) : Except Fault (CharArray n) :=
  if h : index < n then .ok (array.set index char) else .error .outOfBounds

/-- Write characters from `index` on. -/
def storeAll : List UInt8 → Nat → CharArray n → Except Fault (CharArray n)
  | [], _, array => .ok array
  | char :: rest, index, array => do storeAll rest (index + 1) (← array.store index char)

/-- Write a string and its terminator from `index` on. -/
def storeString (array : CharArray n) (index : Nat) (string : List UInt8) :
    Except Fault (CharArray n) :=
  array.storeAll (string ++ [0]) index

end CharArray

/-- The string that starts a stretch of memory, up to its terminator. -/
def readString : List UInt8 → Except Fault (List UInt8)
  | [] => .error .outOfBounds
  | char :: rest => if char = 0 then .ok [] else return char :: (← readString rest)

/-- Whether `memory` holds the string `literal`, as the comparison functions
decide it: character by character, up to the first that differs. -/
def compareWith (fold : UInt8 → UInt8) : List UInt8 → List UInt8 → Except Fault Bool
  | _, [] => .error .outOfBounds
  | [], char :: _ => .ok (char == 0)
  | want :: literal, char :: memory =>
      if fold char = fold want then compareWith fold literal memory else .ok false

namespace CharArray

variable {n : Nat}

/-- The C string that the array holds. -/
def string (array : CharArray n) : Except Fault (List UInt8) := readString array.toList

/-- `strcmp(literal, array) == 0` -/
def strcmpEq (array : CharArray n) (literal : List UInt8) : Except Fault Bool :=
  compareWith id literal array.toList

/-- `strcasecmp(array, literal) == 0` -/
def strcasecmpEq (array : CharArray n) (literal : List UInt8) : Except Fault Bool :=
  compareWith tolower literal array.toList

/-- The characters from `index` on that `keep` holds of, at most `room`. -/
def span (array : CharArray n) (keep : UInt8 → Bool) (index room : Nat) : List UInt8 :=
  ((array.toList.drop index).takeWhile keep).take room

/-- `strcat(array, tail)` -/
def strcat (array : CharArray n) (tail : List UInt8) : Except Fault (CharArray n) := do
  array.storeString (← array.string).length tail

end CharArray

/-! ### Runs -/

section Runs

variable {α : Type*}

theorem takeWhile_comm (p q : α → Bool) (list : List α) :
    (list.takeWhile p).takeWhile q = (list.takeWhile q).takeWhile p := by
  rw [List.takeWhile_takeWhile, List.takeWhile_takeWhile]
  simp only [and_comm]

/-- A run does not go past a character that does not belong to it. -/
theorem takeWhile_append_cons {keep : α → Bool} {char : α} (hchar : keep char = false)
    (front rest : List α) : (front ++ char :: rest).takeWhile keep = front.takeWhile keep := by
  rw [List.takeWhile_append]
  split
  · next hall =>
      rw [List.takeWhile_cons_of_neg (by simp [hchar]), List.append_nil,
        (List.takeWhile_prefix keep).eq_of_length hall]
  · rfl

theorem takeWhile_append_of_neg {keep : α → Bool} {front rest : List α}
    (hfront : ∀ char ∈ front, keep char = true) {char : α} (hchar : keep char = false) :
    (front ++ char :: rest).takeWhile keep = front := by
  rw [takeWhile_append_cons hchar, List.takeWhile_eq_self_iff.mpr hfront]

theorem dropWhile_append_of_neg {keep : α → Bool} {front rest : List α}
    (hfront : ∀ char ∈ front, keep char = true) {char : α} (hchar : keep char = false) :
    (front ++ char :: rest).dropWhile keep = char :: rest := by
  rw [List.dropWhile_append_of_pos hfront, List.dropWhile_cons_of_neg (by simp [hchar])]

theorem drop_takeWhile (keep : α → Bool) (list : List α) :
    list.drop (list.takeWhile keep).length = list.dropWhile keep := by
  calc list.drop (list.takeWhile keep).length
      = (list.takeWhile keep ++ list.dropWhile keep).drop (list.takeWhile keep).length := by
        rw [List.takeWhile_append_dropWhile]
    _ = list.dropWhile keep := List.drop_left

end Runs

/-! ### Laws of arrays and strings -/

/-- The characters in front of the first `char` are all if there is none. -/
theorem takeWhile_ne_eq_self_iff {char : UInt8} {string : List UInt8} :
    string.takeWhile (· != char) = string ↔ char ∉ string := by
  rw [List.takeWhile_eq_self_iff]
  simp only [bne_iff_ne]
  exact ⟨fun hne hmem => hne char hmem rfl, fun hmem other hother =>
    ne_of_mem_of_not_mem hother hmem⟩

/-- The string ends at the first terminator. -/
theorem readString_eq (string rest : List UInt8) :
    readString (string ++ 0 :: rest) = .ok (string.takeWhile (· != 0)) := by
  induction string with
  | nil => simp [readString]
  | cons char string ih =>
      rw [List.cons_append, readString]
      by_cases hzero : char = 0
      · simp [hzero]
      · simp [hzero, ih, bind, Except.bind, pure, Except.pure]

theorem readString_of_not_mem {string : List UInt8} (hstring : 0 ∉ string) (rest : List UInt8) :
    readString (string ++ 0 :: rest) = .ok string := by
  rw [readString_eq, takeWhile_ne_eq_self_iff.mpr hstring]

/-- A stretch of memory that starts with a string has its terminator behind. -/
theorem readString_eq_ok {memory string : List UInt8} (hread : readString memory = .ok string) :
    0 ∉ string ∧ ∃ rest, memory = string ++ 0 :: rest := by
  induction memory generalizing string with
  | nil => contradiction
  | cons char memory ih =>
      rw [readString] at hread
      split at hread
      · next hzero =>
          cases hread
          exact ⟨by simp, memory, by rw [hzero, List.nil_append]⟩
      · next hzero =>
          cases htail : readString memory with
          | error fault =>
              rw [htail] at hread
              contradiction
          | ok tail =>
              rw [htail] at hread
              cases hread
              obtain ⟨hchars, rest, rfl⟩ := ih htail
              exact ⟨List.not_mem_cons_of_ne_of_not_mem (Ne.symm hzero) hchars, rest, rfl⟩

theorem readString_of_mem {memory : List UInt8} (hmemory : 0 ∈ memory) :
    ∃ string, readString memory = .ok string := by
  obtain ⟨front, rest, rfl⟩ := List.append_of_mem hmemory
  exact ⟨_, readString_eq front rest⟩

theorem readString_error {memory : List UInt8} {fault : Fault}
    (hread : readString memory = .error fault) : fault = .outOfBounds := by
  induction memory with
  | nil => exact (Except.error.inj hread).symm
  | cons char memory ih =>
      rw [readString] at hread
      split at hread
      · contradiction
      · cases htail : readString memory with
        | error other =>
            rw [htail] at hread
            exact ih (htail.trans hread)
        | ok tail =>
            rw [htail] at hread
            contradiction

theorem compareWith_error {fold : UInt8 → UInt8} {literal memory : List UInt8} {fault : Fault}
    (hcompare : compareWith fold literal memory = .error fault) : fault = .outOfBounds := by
  induction memory generalizing literal with
  | nil =>
      cases literal <;> exact (Except.error.inj hcompare).symm
  | cons char memory ih =>
      cases literal with
      | nil => contradiction
      | cons want literal =>
          rw [compareWith] at hcompare
          split at hcompare
          · exact ih hcompare
          · contradiction

/-- The comparison with the string that memory starts with. -/
theorem compareWith_eq {fold : UInt8 → UInt8} (hfold : ∀ char, fold char = fold 0 → char = 0)
    {literal string : List UInt8} (hliteral : 0 ∉ literal) (hstring : 0 ∉ string)
    (rest : List UInt8) :
    compareWith fold literal (string ++ 0 :: rest) =
      .ok (decide (string.map fold = literal.map fold)) := by
  induction literal generalizing string with
  | nil =>
      cases string with
      | nil => rfl
      | cons char string =>
          have hne : char ≠ 0 := (List.ne_of_not_mem_cons hstring).symm
          simp [compareWith, hne]
  | cons want literal ih =>
      have hwant : want ≠ 0 := (List.ne_of_not_mem_cons hliteral).symm
      cases string with
      | nil =>
          have hne : fold 0 ≠ fold want := fun hsame => hwant (hfold want hsame.symm)
          simp [compareWith, hne]
      | cons char string =>
          have hrest := ih (List.not_mem_of_not_mem_cons hliteral)
            (List.not_mem_of_not_mem_cons hstring)
          simp only [List.cons_append, compareWith, List.map_cons, List.cons.injEq, hrest]
          by_cases hsame : fold char = fold want <;> simp [hsame]

/-- Only the terminator is folded to it. -/
theorem tolower_eq_zero {char : UInt8} (hchar : tolower char = tolower 0) : char = 0 := by
  rw [show tolower 0 = 0 from rfl, tolower] at hchar
  split at hchar
  · next hupper =>
      simp only [Bool.and_eq_true, decide_eq_true_eq, UInt8.le_iff_toNat_le] at hupper
      have hsum := congrArg UInt8.toNat hchar
      rw [UInt8.toNat_add] at hsum
      simp at hupper hsum
      omega
  · exact hchar

theorem tolower_of_isspace {char : UInt8} (hspace : isspace char = true) : tolower char = char := by
  have hbelow : char.toNat ≤ 32 := by
    simp only [isspace, Bool.or_eq_true, Bool.and_eq_true, beq_iff_eq, decide_eq_true_eq,
      UInt8.le_iff_toNat_le] at hspace
    rcases hspace with rfl | ⟨-, hbelow⟩
    · decide
    · exact hbelow.trans (by decide)
  rw [tolower, if_neg]
  simp only [Bool.and_eq_true, decide_eq_true_eq, UInt8.le_iff_toNat_le]
  rintro ⟨habove, -⟩
  exact absurd (habove.trans hbelow) (by decide)

namespace CharArray

variable {n : Nat}

theorem load_eq (array : CharArray n) {index : Nat} (h : index < n) :
    array.load index = .ok array[index] := dif_pos h

theorem store_eq (array : CharArray n) {index : Nat} (char : UInt8) (h : index < n) :
    array.store index char = .ok (array.set index char) := dif_pos h

theorem storeAll_append (first second : List UInt8) (index : Nat) (array : CharArray n) :
    array.storeAll (first ++ second) index =
      (do storeAll second (index + first.length) (← array.storeAll first index)) := by
  induction first generalizing index array with
  | nil => rfl
  | cons char first ih =>
      simp only [List.cons_append, List.length_cons, storeAll]
      cases hstore : array.store index char with
      | error fault => rfl
      | ok last =>
          simp only [bind, Except.bind, ih, Nat.add_assoc, Nat.add_comm 1]

/-- A string is written in front of its terminator. -/
theorem storeString_eq_bind (string : List UInt8) (index : Nat) (array : CharArray n) :
    array.storeString index string =
      (do (← array.storeAll string index).store (index + string.length) 0) := by
  rw [storeString, storeAll_append]
  refine congrArg (array.storeAll string index >>= ·) (funext fun last => ?_)
  rw [storeAll]
  exact bind_pure _

theorem load_of_drop {array : CharArray n} {index : Nat} {char : UInt8} {rest : List UInt8}
    (hdrop : array.toList.drop index = char :: rest) :
    array.load index = .ok char ∧ array.toList.drop (index + 1) = rest := by
  have hindex : index < n := by
    by_contra hpast
    rw [List.drop_eq_nil_of_le (by simpa using hpast)] at hdrop
    contradiction
  have hlength : index < array.toList.length := by rwa [Vector.length_toList]
  rw [List.drop_eq_getElem_cons hlength, Vector.getElem_toList] at hdrop
  obtain ⟨rfl, hrest⟩ := List.cons.inj hdrop
  exact ⟨array.load_eq hindex, hrest⟩

/-- What is written replaces as many characters. -/
theorem storeAll_eq (chars : List UInt8) (index : Nat) (array : CharArray n)
    (hfits : index + chars.length ≤ n) :
    ∃ last, array.storeAll chars index = .ok last ∧
      last.toList =
        array.toList.take index ++ chars ++ array.toList.drop (index + chars.length) := by
  induction chars generalizing index array with
  | nil => exact ⟨array, rfl, by simp⟩
  | cons char rest ih =>
      rw [List.length_cons] at hfits
      have hindex : index < n := by omega
      obtain ⟨last, hrest, hlast⟩ := ih (index + 1) (array.set index char) (by omega)
      refine ⟨last, ?_, ?_⟩
      · rw [storeAll, store_eq array char hindex]
        exact hrest
      · have hlength : index < array.toList.length := by simpa using hindex
        have htake : (array.toList.set index char).take (index + 1) =
            array.toList.take index ++ [char] := by
          rw [List.set_eq_take_append_cons_drop, if_pos hlength, List.take_append,
            List.length_take_of_le (Nat.le_of_lt hlength), List.take_take]
          simp
        rw [hlast, Vector.toList_set, htake, List.drop_set_of_lt (by omega)]
        simp [Nat.add_comm, Nat.add_left_comm]

/-- A string that fits is written with its terminator behind. -/
theorem storeString_eq (array : CharArray n) (index : Nat) (string : List UInt8)
    (hfits : index + string.length < n) :
    ∃ last rest, array.storeString index string = .ok last ∧
      last.toList = array.toList.take index ++ string ++ 0 :: rest := by
  obtain ⟨last, hstore, hlast⟩ := storeAll_eq (string ++ [0]) index array (by
    rw [List.length_append, List.length_singleton]
    omega)
  refine ⟨last, array.toList.drop (index + (string ++ [0]).length), hstore, ?_⟩
  rw [hlast]
  simp only [List.append_assoc, List.cons_append, List.nil_append]

/-- A string that is written at the front is the string of the array. -/
theorem storeString_string (array : CharArray n) {string : List UInt8}
    (hfits : string.length < n) :
    ∃ last, array.storeString 0 string = .ok last ∧
      last.string = .ok (string.takeWhile (· != 0)) := by
  obtain ⟨last, rest, hstore, hlast⟩ := array.storeString_eq 0 string (by omega)
  refine ⟨last, hstore, ?_⟩
  rw [CharArray.string, hlast, List.take_zero, List.nil_append, readString_eq]

theorem span_zero (array : CharArray n) (keep : UInt8 → Bool) (index : Nat) :
    array.span keep index 0 = [] := List.take_zero

theorem span_succ (array : CharArray n) (keep : UInt8 → Bool) {index : Nat} (h : index < n)
    (room : Nat) : array.span keep index (room + 1) =
      if keep array[index] then array[index] :: array.span keep (index + 1) room else [] := by
  have hlength : index < array.toList.length := by rwa [Vector.length_toList]
  have hdrop : array.toList.drop index = array[index] :: array.toList.drop (index + 1) := by
    rw [List.drop_eq_getElem_cons hlength, Vector.getElem_toList]
  rw [span, hdrop, List.takeWhile_cons]
  split <;> rfl

theorem span_length (array : CharArray n) (keep : UInt8 → Bool) (index room : Nat) :
    (array.span keep index room).length ≤ room := List.length_take_le _ _

/-- The string is empty if its terminator comes first. -/
theorem string_eq_nil_iff (hn : 0 < n) (array : CharArray n) :
    array.string = .ok [] ↔ array[0] = 0 := by
  have hlength : 0 < array.toList.length := by rwa [Vector.length_toList]
  obtain ⟨char, rest, heq⟩ := List.exists_cons_of_length_pos hlength
  have hfirst : array[0] = char := by
    rw [← Vector.getElem_toList hlength]
    simp only [heq, List.getElem_cons_zero]
  rw [string, heq, hfirst]
  constructor
  · intro hstring
    obtain ⟨-, behind, hcons⟩ := readString_eq_ok hstring
    exact (List.cons.inj hcons).1
  · rintro rfl
    rfl

theorem string_length {array : CharArray n} {string : List UInt8}
    (hstring : array.string = .ok string) : string.length < n := by
  obtain ⟨-, rest, heq⟩ := readString_eq_ok hstring
  have hlength := congrArg List.length heq
  rw [Vector.length_toList, List.length_append, List.length_cons] at hlength
  omega

theorem strcmpEq_eq {array : CharArray n} {string literal : List UInt8}
    (hstring : array.string = .ok string) (hliteral : 0 ∉ literal) :
    array.strcmpEq literal = .ok (decide (string = literal)) := by
  obtain ⟨hchars, rest, heq⟩ := readString_eq_ok hstring
  have hcompare : compareWith id literal (string ++ 0 :: rest) =
      .ok (decide (string.map id = literal.map id)) :=
    compareWith_eq (fun _ hzero => hzero) hliteral hchars rest
  rw [strcmpEq, heq, hcompare, List.map_id, List.map_id]

/-- The comparison without regard to case. -/
theorem strcasecmpEq_eq {array : CharArray n} {string literal : List UInt8}
    (hstring : array.string = .ok string) (hliteral : 0 ∉ literal) :
    array.strcasecmpEq literal = .ok (decide (string.map tolower = literal.map tolower)) := by
  obtain ⟨hchars, rest, heq⟩ := readString_eq_ok hstring
  rw [strcasecmpEq, heq]
  exact compareWith_eq (fun _ => tolower_eq_zero) hliteral hchars rest

/-- `strcat` of a string that fits behind the one in the array. -/
theorem strcat_eq {array : CharArray n} {string : List UInt8} (tail : List UInt8)
    (hstring : array.string = .ok string) (hfits : string.length + tail.length < n)
    (htail : 0 ∉ tail) :
    ∃ last, array.strcat tail = .ok last ∧ last.string = .ok (string ++ tail) := by
  obtain ⟨hchars, rest, heq⟩ := readString_eq_ok hstring
  obtain ⟨last, behind, hstore, hlast⟩ := array.storeString_eq string.length tail hfits
  refine ⟨last, ?_, ?_⟩
  · rw [strcat, hstring]
    exact hstore
  · rw [heq, List.take_left] at hlast
    rw [CharArray.string, hlast]
    exact readString_of_not_mem (List.not_mem_append hchars htail) behind

end CharArray

end Imperative
