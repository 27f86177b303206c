import Mathlib.Tactic.IntervalCases
import ZtHttp.Foundation.CString

/-!
# Decimal numbers in strings

`sprintf` with `%d` and `atoi`. The latter skips white space, takes a sign and
then digits up to the first other character. As in glibc it is `strtol`, which
saturates, cut to 32 bits.
-/

namespace Imperative

/-- `isdigit` -/
def isdigit (char : UInt8) : Bool := 48 ≤ char && char ≤ 57

def minus : UInt8 := 45
def plus : UInt8 := 43

/-- `%d` of a number that is not negative. -/
def decimal (n : Nat) : List UInt8 := ascii n.repr

/-- `%d` -/
def formatInt : Int → List UInt8
  | .ofNat n => decimal n
  | .negSucc n => minus :: decimal (n + 1)

/-- The value of a run of digits. -/
def digitsValue (digits : List UInt8) : Nat :=
  digits.foldl (fun value digit => 10 * value + (digit.toNat - 48)) 0

/-- The value of the digits that a string starts with. -/
def leadingValue (string : List UInt8) : Nat := digitsValue (string.takeWhile isdigit)

/-- `strtol(string, NULL, 10)`, with a `long` of 64 bits. -/
def strtol (string : List UInt8) : Int :=
  match string.dropWhile isspace with
  | [] => 0
  | sign :: rest =>
      if sign = minus then max (-2 ^ 63) (-(leadingValue rest : Int))
      else min (2 ^ 63 - 1) (leadingValue (if sign = plus then rest else sign :: rest) : Int)

/-- `atoi(string)` -/
def atoi (string : List UInt8) : Int := (strtol string).bmod (2 ^ 32)

/-! ### Round trip -/

theorem decimal_eq (n : Nat) :
    decimal n = (Nat.toDigits 10 n).map fun char => UInt8.ofNat char.toNat := by
  rw [decimal, ascii, Nat.repr, String.toList_ofList]

theorem digitChar_digit {digit : Nat} (hdigit : digit < 10) :
    isdigit (UInt8.ofNat (Nat.digitChar digit).toNat) = true ∧
      (UInt8.ofNat (Nat.digitChar digit).toNat).toNat - 48 = digit := by
  interval_cases digit <;> decide

/-- The last digit comes off the end. -/
theorem decimal_cases (n : Nat) : ∃ digit, decimal n =
    (if n < 10 then [] else decimal (n / 10)) ++ [digit] ∧
      isdigit digit = true ∧ digit.toNat - 48 = n % 10 := by
  obtain ⟨hdigit, hvalue⟩ := digitChar_digit (Nat.mod_lt n (show 0 < 10 by decide))
  refine ⟨_, ?_, hdigit, hvalue⟩
  rw [decimal_eq, decimal_eq, Nat.toDigits_eq_if (by decide)]
  split
  · next hsmall => rw [Nat.mod_eq_of_lt hsmall, List.map_singleton, List.nil_append]
  · rw [List.map_append, List.map_singleton]

theorem decimal_isdigit (n : Nat) : ∀ char ∈ decimal n, isdigit char = true := by
  induction n using Nat.strong_induction_on with
  | _ n ih =>
      obtain ⟨digit, heq, hdigit, -⟩ := decimal_cases n
      intro char hchar
      rw [heq, List.mem_append, List.mem_singleton] at hchar
      rcases hchar with hfront | rfl
      · split at hfront
        · contradiction
        · exact ih (n / 10) (by omega) char hfront
      · exact hdigit

theorem digitsValue_decimal (n : Nat) : digitsValue (decimal n) = n := by
  induction n using Nat.strong_induction_on with
  | _ n ih =>
      obtain ⟨digit, heq, -, hvalue⟩ := decimal_cases n
      rw [heq, digitsValue, List.foldl_append, List.foldl_cons, List.foldl_nil, hvalue,
        ← digitsValue]
      split
      · next hsmall =>
          rw [digitsValue, List.foldl_nil]
          omega
      · rw [ih (n / 10) (by omega)]
        omega

theorem decimal_ne_nil (n : Nat) : decimal n ≠ [] := by
  obtain ⟨digit, heq, -⟩ := decimal_cases n
  rw [heq]
  exact List.append_ne_nil_of_right_ne_nil _ (List.cons_ne_nil _ _)

variable {rest : List UInt8}

/-- The digits of a number end where no digit follows. -/
theorem leadingValue_decimal (n : Nat) (hrest : rest.takeWhile isdigit = []) :
    leadingValue (decimal n ++ rest) = n := by
  rw [leadingValue, List.takeWhile_append_of_pos (decimal_isdigit n), hrest, List.append_nil,
    digitsValue_decimal]

/-- A digit is neither white space nor a sign. -/
theorem isdigit_other {char : UInt8} (hdigit : isdigit char = true) :
    isspace char = false ∧ char ≠ minus ∧ char ≠ plus := by
  rw [isdigit, Bool.and_eq_true, decide_eq_true_eq, decide_eq_true_eq] at hdigit
  have hbound := UInt8.le_iff_toNat_le.mp hdigit.1
  refine ⟨?_, ?_, ?_⟩
  · rw [← Bool.not_eq_true]
    intro hspace
    rw [isspace, Bool.or_eq_true, Bool.and_eq_true, beq_iff_eq, decide_eq_true_eq,
      decide_eq_true_eq] at hspace
    rcases hspace with rfl | ⟨-, habove⟩
    · exact absurd hbound (by decide)
    · exact absurd (hbound.trans (UInt8.le_iff_toNat_le.mp habove)) (by decide)
  · rintro rfl
    exact absurd hbound (by decide)
  · rintro rfl
    exact absurd hbound (by decide)

theorem strtol_decimal {n : Nat} (hn : n < 2 ^ 63) (hrest : rest.takeWhile isdigit = []) :
    strtol (decimal n ++ rest) = n := by
  obtain ⟨first, digits, hdecimal⟩ := List.exists_cons_of_ne_nil (decimal_ne_nil n)
  have hfirst : isdigit first = true := decimal_isdigit n first (by rw [hdecimal]; simp)
  obtain ⟨hspace, hminus, hplus⟩ := isdigit_other hfirst
  have hvalue := leadingValue_decimal n hrest
  rw [hdecimal, List.cons_append] at hvalue ⊢
  rw [strtol, List.dropWhile_cons_of_neg (by simp [hspace])]
  dsimp only
  rw [if_neg hminus, if_neg hplus, hvalue]
  omega

theorem strtol_negative {n : Nat} (hn : n ≤ 2 ^ 63) (hrest : rest.takeWhile isdigit = []) :
    strtol (minus :: decimal n ++ rest) = -n := by
  have hvalue := leadingValue_decimal n hrest
  rw [List.cons_append, strtol, List.dropWhile_cons_of_neg (by decide)]
  dsimp only
  rw [if_pos rfl, hvalue]
  omega

/-- `atoi` reads what `%d` wrote, whatever follows that is no digit. -/
theorem atoi_formatInt {n : Int} (hlow : -2 ^ 31 ≤ n) (hhigh : n < 2 ^ 31)
    (hrest : rest.takeWhile isdigit = []) : atoi (formatInt n ++ rest) = n := by
  have hstrtol : strtol (formatInt n ++ rest) = n := by
    cases n with
    | ofNat n =>
        rw [Int.ofNat_eq_natCast] at hhigh
        exact strtol_decimal (by omega) hrest
    | negSucc n => exact (strtol_negative (by omega) hrest).trans (by omega)
  rw [atoi, hstrtol]
  exact Int.bmod_eq_of_le (by omega) (by omega)

/-- No character of a number ends a string. -/
theorem zero_not_mem_formatInt (number : Int) : 0 ∉ formatInt number := by
  have hdecimal : ∀ n, 0 ∉ decimal n := fun n hmem =>
    absurd (decimal_isdigit n 0 hmem) (by decide)
  cases number with
  | ofNat n => exact hdecimal n
  | negSucc n => exact List.not_mem_cons_of_ne_of_not_mem (by decide) (hdecimal (n + 1))

theorem decimal_length {digits n : Nat} (hn : n < 10 ^ digits) (hdigits : 0 < digits) :
    (decimal n).length ≤ digits := by
  induction digits generalizing n with
  | zero => contradiction
  | succ digits ih =>
      obtain ⟨digit, heq, -, -⟩ := decimal_cases n
      rw [heq, List.length_append, List.length_singleton]
      apply Nat.succ_le_succ
      split
      · exact Nat.zero_le _
      · next hlarge =>
          rw [Nat.pow_succ] at hn
          have hquotient : n / 10 < 10 ^ digits := Nat.div_lt_of_lt_mul (by omega)
          refine ih hquotient (Nat.pos_of_ne_zero ?_)
          rintro rfl
          omega

/-- A number of 32 bits has ten digits at most, and a sign. -/
theorem formatInt_length {number : Int} (hlow : -2 ^ 31 ≤ number) (hhigh : number < 2 ^ 31) :
    (formatInt number).length ≤ 11 := by
  cases number with
  | ofNat n =>
      rw [Int.ofNat_eq_natCast] at hhigh
      have hlength := @decimal_length 10 n (by omega) (by decide)
      rw [formatInt]
      omega
  | negSucc n =>
      have hlength := @decimal_length 10 (n + 1) (by omega) (by decide)
      rw [formatInt, List.length_cons]
      omega

end Imperative
