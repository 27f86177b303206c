import ZtHttp.Http.Response

/-!
# The loops that discard headers

`serve_file` and the branch for missing resources read lines as long as the last
one was longer than 0 and is not a line feed. `get_line` takes nothing off the
input, but it returns 0, so that each of the loops ends with the first line that
it reads, whatever the input is and the arrays hold.
-/

namespace ZtHttp.Http

open Imperative

/-- The loop makes finitely many tests: it is over within some number of them,
however many more are granted. -/
def DiscardEnds (http : Http) (buf : CharArray 1024) (numchars : Nat) : Prop :=
  ∃ turns, ∀ fuel, turns ≤ fuel → discardHeaders http fuel buf numchars ≠ .error .diverges

variable {http : Http} {buf : CharArray 1024} {numchars : Nat}

/-- Behind a line of length 0 the array is not looked at. -/
theorem discardHeaders_zero (http : Http) (fuel : Nat) (buf : CharArray 1024) :
    discardHeaders http (fuel + 1) buf 0 = .ok () := rfl

/-- A turn reads one line, which is the last. -/
theorem discardHeaders_turn (http : Http) (fuel : Nat) (hchars : numchars ≠ 0)
    (hother : buf.strcmpEq [newline] = .ok false) :
    discardHeaders http (fuel + 2) buf numchars = .ok () := by
  obtain ⟨next, hnext, -⟩ := getLine_eq (by decide) http buf 1024
  rw [discardHeaders, if_neg hchars, hother]
  simp only [bind, Except.bind, Bool.false_eq_true, if_false, hnext]
  exact discardHeaders_zero http fuel next

/-- The loop on an array that holds a string. -/
theorem discardHeaders_eq (http : Http) {fuel : Nat} (hfuel : 2 ≤ fuel) {line : List Byte}
    (hline : buf.string = .ok line) (numchars : Nat) :
    discardHeaders http fuel buf numchars = .ok () := by
  obtain ⟨fuel, rfl⟩ : ∃ more, fuel = more + 2 := ⟨fuel - 2, by omega⟩
  by_cases hchars : numchars = 0
  · rw [hchars, discardHeaders_zero]
  · have hcompare := CharArray.strcmpEq_eq hline (show 0 ∉ [newline] by decide)
    cases hsame : decide (line = [newline]) with
    | true =>
        rw [hsame] at hcompare
        rw [discardHeaders, if_neg hchars, hcompare]
        rfl
    | false =>
        rw [hsame] at hcompare
        exact discardHeaders_turn http fuel hchars hcompare

/-- The loop on any array: it may run out of the array, and it ends. -/
theorem discardEnds (http : Http) (buf : CharArray 1024) (numchars : Nat) :
    DiscardEnds http buf numchars := by
  refine ⟨2, fun fuel hfuel => ?_⟩
  obtain ⟨fuel, rfl⟩ : ∃ more, fuel = more + 2 := ⟨fuel - 2, by omega⟩
  by_cases hchars : numchars = 0
  · rw [hchars, discardHeaders_zero]
    nofun
  · cases hcompare : buf.strcmpEq [newline] with
    | error fault =>
        rw [discardHeaders, if_neg hchars, hcompare, compareWith_error hcompare]
        nofun
    | ok same =>
        cases same with
        | true =>
            rw [discardHeaders, if_neg hchars, hcompare]
            nofun
        | false =>
            rw [discardHeaders_turn http fuel hchars hcompare]
            nofun

/-! ### Where the loops stand -/

/-- `buf[0] = 'A'; buf[1] = '\0';` leaves a string. -/
theorem store_letter (array : CharArray 1024) : ∃ first buf line,
    array.store 0 65 = .ok first ∧ CharArray.store first 1 0 = .ok buf ∧
      buf.string = .ok line := by
  have hmem : 0 ∈ ((array.set 0 65).set 1 0).toList := by
    rw [Vector.mem_toList_iff]
    exact Vector.mem_set _
  obtain ⟨line, hline⟩ := readString_of_mem hmem
  exact ⟨_, _, line, array.store_eq 65 (by decide), CharArray.store_eq _ 0 (by decide), hline⟩

/-- The loop ends on every array and behind every length, and it returns where
it stands: in the branch for missing resources behind `get_line`, and in
`serve_file` behind the two assignments. -/
theorem discardHeaders_ends (http : Http) (stack : Stack) :
    (∀ buf numchars, DiscardEnds http buf numchars) ∧
    (∃ buf numchars, getLine http stack.buf 1024 = .ok (buf, numchars) ∧
      ∃ turns, ∀ fuel, turns ≤ fuel → discardHeaders http fuel buf numchars = .ok ()) ∧
    ∃ first buf, stack.headerBuf.store 0 65 = .ok first ∧ CharArray.store first 1 0 = .ok buf ∧
      ∃ turns, ∀ fuel, turns ≤ fuel → discardHeaders http fuel buf 1 = .ok () := by
  refine ⟨discardEnds http, ?_, ?_⟩
  · obtain ⟨buf, hline, -⟩ := getLine_eq (by decide) http stack.buf 1024
    refine ⟨buf, 0, hline, 1, fun fuel hfuel => ?_⟩
    obtain ⟨fuel, rfl⟩ : ∃ more, fuel = more + 1 := ⟨fuel - 1, by omega⟩
    exact discardHeaders_zero http fuel buf
  · obtain ⟨first, buf, line, hfirst, hbuf, hline⟩ := store_letter stack.headerBuf
    exact ⟨first, buf, hfirst, hbuf, 2, fun _ hfuel => discardHeaders_eq http hfuel hline 1⟩

end ZtHttp.Http
