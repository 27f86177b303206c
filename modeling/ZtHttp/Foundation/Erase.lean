import Mathlib.Data.List.Chain
import ZtHttp.Foundation.Method

/-!
# Erasing from a vector while iterating over it

An iterator is a position. `erase` moves the elements behind it one place to the
front and leaves the iterator where it is, so that the increment of the loop
skips the element that moved up, and moves past the end if there is none.
-/

namespace Imperative

variable {α : Type}

/-- `for(; iter < end(); ++iter) if(doomed(*iter)) flag = true, erase(iter);` on
a vector, with the value of `flag` at the end. The end is not to be moved
past. -/
def eraseLoop (doomed : α → Bool) (iter : Nat) (flag : Bool) (vector : List α) :
    EStateM.Result Fault (List α) Bool :=
  if hiter : iter < vector.length then
    if doomed vector[iter] then
      let erased := vector.eraseIdx iter
      if iter < erased.length then eraseLoop doomed (iter + 1) true erased
      else .error .pastEnd erased
    else eraseLoop doomed (iter + 1) flag vector
  else .ok flag vector
termination_by vector.length - iter
decreasing_by
  · rw [List.length_eraseIdx_of_lt hiter]
    omega
  · omega

variable {doomed : α → Bool} (front : List α) {char : α} {rest : List α} (flag : Bool)

/-! ### One turn -/

theorem eraseLoop_done : eraseLoop doomed front.length flag front = .ok flag front := by
  rw [eraseLoop, dif_neg (Nat.lt_irrefl _)]

/-- The element under the iterator. -/
theorem getElem_length (front : List α) (char : α) (rest : List α)
    (hiter : front.length < (front ++ char :: rest).length) :
    (front ++ char :: rest)[front.length] = char := by
  rw [List.getElem_append_right (Nat.le_refl _)]
  simp

theorem eraseIdx_length (front : List α) (char : α) (rest : List α) :
    (front ++ char :: rest).eraseIdx front.length = front ++ rest := by
  rw [List.eraseIdx_append_of_length_le (Nat.le_refl _), Nat.sub_self]
  rfl

theorem length_lt_append_cons (front : List α) (char : α) (rest : List α) :
    front.length < (front ++ char :: rest).length := by
  rw [List.length_append, List.length_cons]
  omega

/-- An element that stays is stepped over. -/
theorem eraseLoop_kept (hchar : doomed char = false) :
    eraseLoop doomed front.length flag (front ++ char :: rest) =
      eraseLoop doomed (front ++ [char]).length flag ((front ++ [char]) ++ rest) := by
  rw [eraseLoop, dif_pos (length_lt_append_cons front char rest), getElem_length, hchar]
  simp

/-- Behind an element that goes the next one is stepped over unseen. -/
theorem eraseLoop_skips (next : α) (hchar : doomed char = true) :
    eraseLoop doomed front.length flag (front ++ char :: next :: rest) =
      eraseLoop doomed (front ++ [next]).length true ((front ++ [next]) ++ rest) := by
  rw [eraseLoop, dif_pos (length_lt_append_cons front char _), getElem_length, if_pos hchar]
  dsimp only
  rw [eraseIdx_length, if_pos (length_lt_append_cons front next rest)]
  simp

/-- Behind the last element there is nothing to step over. -/
theorem eraseLoop_pastEnd (hchar : doomed char = true) :
    eraseLoop doomed front.length flag (front ++ [char]) = .error .pastEnd front := by
  rw [eraseLoop, dif_pos (length_lt_append_cons front char []), getElem_length, if_pos hchar]
  dsimp only
  rw [eraseIdx_length, List.append_nil, if_neg (Nat.lt_irrefl _)]

/-! ### The whole loop -/

/-- What the loop leaves of the elements from the iterator on, and whether it
moves the iterator past the end. -/
def sweep (doomed : α → Bool) : List α → List α × Bool
  | [] => ([], false)
  | [last] => if doomed last then ([], true) else ([last], false)
  | char :: next :: rest =>
      if doomed char then
        let (kept, past) := sweep doomed rest
        (next :: kept, past)
      else
        let (kept, past) := sweep doomed (next :: rest)
        (char :: kept, past)

/-- The loop from any place on. Its flag tells whether it was set before or
there is an element to go. -/
theorem eraseLoop_eq (rest : List α) : eraseLoop doomed front.length flag (front ++ rest) =
    if (sweep doomed rest).2 then .error .pastEnd (front ++ (sweep doomed rest).1)
    else .ok (flag || rest.any doomed) (front ++ (sweep doomed rest).1) := by
  fun_induction sweep doomed rest generalizing front flag with
  | case1 => simpa using eraseLoop_done front flag
  | case2 last hlast => simpa using eraseLoop_pastEnd front flag hlast
  | case3 last hlast =>
      rw [Bool.not_eq_true] at hlast
      rw [eraseLoop_kept front flag hlast, List.append_nil, eraseLoop_done]
      simp [hlast]
  | case4 char next rest hchar kept past hsweep ih =>
      rw [eraseLoop_skips front flag next hchar, ih, hsweep]
      simp [hchar]
  | case5 char next rest hchar kept past hsweep ih =>
      rw [Bool.not_eq_true] at hchar
      rw [eraseLoop_kept front flag hchar, ih, hsweep]
      simp [hchar]

/-- No two elements in a row are to go. -/
def Apart (doomed : α → Bool) (vector : List α) : Prop :=
  vector.IsChain fun first second => doomed first = true → doomed second = false

/-- No two elements in a row are to go, and not the last one. -/
def Spaced (doomed : α → Bool) (vector : List α) : Prop :=
  Apart doomed vector ∧ ∀ last ∈ vector.getLast?, doomed last = false

/-- Where no two are to go in a row, those that are to go are taken off, and the
last of them even if the iterator is then moved past the end. -/
theorem sweep_apart {vector : List α} (hapart : Apart doomed vector) :
    (sweep doomed vector).1 = vector.filter fun char => !doomed char := by
  unfold Apart at hapart
  fun_induction sweep doomed vector with
  | case1 => rfl
  | case2 last hlast => simp [hlast]
  | case3 last hlast => simp [hlast]
  | case4 char next rest hchar kept past hsweep ih =>
      obtain ⟨hnext, hrest⟩ := List.isChain_cons_cons.mp hapart
      have hkept := ih hrest.tail
      rw [hsweep] at hkept
      simp [hchar, hnext hchar, ← hkept]
  | case5 char next rest hchar kept past hsweep ih =>
      rw [Bool.not_eq_true] at hchar
      have hkept := ih (List.isChain_cons_cons.mp hapart).2
      rw [hsweep] at hkept
      simp [hchar, ← hkept]

theorem spaced_cons_cons (next : α) : Spaced doomed (char :: next :: rest) ↔
    (doomed char = true → doomed next = false) ∧ Spaced doomed (next :: rest) := by
  simp only [Spaced, Apart, List.isChain_cons_cons, List.getLast?_cons_cons, and_assoc]

/-- An element that stays does not count. -/
theorem spaced_cons_kept (hchar : doomed char = false) :
    Spaced doomed (char :: rest) ↔ Spaced doomed rest := by
  cases rest with
  | nil => simp [Spaced, Apart, hchar]
  | cons next rest => simp [spaced_cons_cons, hchar]

/-- The elements that are to go are taken off, and nothing else happens, exactly
if they are spaced. -/
theorem sweep_filter_iff (vector : List α) :
    sweep doomed vector = (vector.filter fun char => !doomed char, false) ↔
      Spaced doomed vector := by
  fun_induction sweep doomed vector with
  | case1 => simp [Spaced, Apart]
  | case2 last hlast => simp [Spaced, Apart, hlast]
  | case3 last hlast => simp [Spaced, Apart, hlast]
  | case4 char next rest hchar kept past hsweep ih =>
      rw [spaced_cons_cons]
      cases hnext : doomed next with
      | true =>
          -- the element that is skipped is one of them
          refine iff_of_false ?_ fun hspaced => Bool.noConfusion (hspaced.1 hchar)
          intro hkept
          obtain ⟨hlist, -⟩ := Prod.mk.inj hkept
          have hmem : next ∈ (char :: next :: rest).filter fun char => !doomed char := by
            rw [← hlist]
            exact List.mem_cons_self
          simp [hnext] at hmem
      | false =>
          rw [spaced_cons_kept hnext, ← ih, hsweep]
          simp [hchar, hnext]
  | case5 char next rest hchar kept past hsweep ih =>
      rw [Bool.not_eq_true] at hchar
      rw [spaced_cons_kept hchar, ← ih, hsweep]
      simp [hchar]

end Imperative
