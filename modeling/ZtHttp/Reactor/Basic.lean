import ZtHttp.Foundation.Erase

/-!
# The reactor of the pool

`Event.cpp` has a reactor of its own, two vectors of handler pointers. `select`
of `HttpEventMultiplex` appends the waiting handlers to the selected ones and
then calls every selected one. Removing a handler erases from the vector that
the loop is iterating over.
-/

namespace ZtHttp

open Imperative

/-- `Reactor` of `Event.h`. A handler is known by its pointer. -/
structure Reactor (Handler : Type) where
  waitedQueue : List Handler
  selectedQueue : List Handler
  deriving DecidableEq

namespace Reactor

variable {Handler : Type}

/-- `Reactor()` -/
def initial : Reactor Handler := ⟨[], []⟩

/-- `Reactor::register_handler(p_handler)` -/
def registerHandler (h : Handler) : Method (Reactor Handler) Int := do
  modify fun reactor => { reactor with waitedQueue := reactor.waitedQueue ++ [h] }
  return 0

/-- A loop over the vector of the waiting handlers. -/
def onWaitedQueue {α : Type} (loop : Method (List Handler) α) : Method (Reactor Handler) α :=
  .zoom waitedQueue (fun waitedQueue reactor => { reactor with waitedQueue }) loop

/-- `Reactor::remove_handler(p_handler)` -/
def removeHandler [DecidableEq Handler] (h : Handler) : Method (Reactor Handler) Int := do
  let flag ← onWaitedQueue (eraseLoop (fun waiting => waiting = h) 0 false)
  if flag then return 0 else return 1

/-- The loop of `Reactor::handle_events()`: the value of `err` at its end, and
the handlers whose `handle_event` it called, in order. -/
def handleAll (handleEvent : Handler → Int) : List Handler → Int → Int × List Handler
  | [], err => (err, [])
  | h :: rest, err =>
      let (err, called) := handleAll handleEvent rest (if handleEvent h ≠ 0 then 1 else err)
      (err, h :: called)

/-- `Reactor::handle_events()`, with the calls that it made. -/
def handleEvents (handleEvent : Handler → Int) : Method (Reactor Handler) (Int × List Handler) := do
  let (err, called) := handleAll handleEvent (← get).selectedQueue 0
  return (if err ≠ 0 then 1 else 0, called)

/-- `HttpEventMultiplex::select()`, with the calls of `handle_event` that it
made. The function has no return statement, and its caller drops the result. -/
def select (handleEvent : Handler → Int) : Method (Reactor Handler) (List Handler) := do
  modify fun reactor =>
    { reactor with selectedQueue := reactor.selectedQueue ++ reactor.waitedQueue }
  let (_, called) ← handleEvents handleEvent
  return called

/-! ### Equations -/

theorem handleAll_called (handleEvent : Handler → Int) (handlers : List Handler) (err : Int) :
    (handleAll handleEvent handlers err).2 = handlers := by
  induction handlers generalizing err with
  | nil => rfl
  | cons h rest ih => exact congrArg (h :: ·) (ih _)

/-- Whatever the handlers return, all selected ones are called. -/
theorem select_eq (handleEvent : Handler → Int) (reactor : Reactor Handler) :
    select handleEvent reactor = .ok (reactor.selectedQueue ++ reactor.waitedQueue)
      { reactor with selectedQueue := reactor.selectedQueue ++ reactor.waitedQueue } := by
  have hcalled := handleAll_called handleEvent (reactor.selectedQueue ++ reactor.waitedQueue) 0
  rw [select, Method.bind_ok (Method.modify_apply _ _)]
  apply (Method.bind_ok rfl).trans
  exact congrArg (EStateM.Result.ok · _) hcalled

variable [DecidableEq Handler]

/-- The handler is not waiting any more, and the others wait as before. -/
def without (h : Handler) (reactor : Reactor Handler) : Reactor Handler :=
  { reactor with waitedQueue := reactor.waitedQueue.filter (· ≠ h) }

/-- The loop is a sweep, and its flag is set if the handler was there. -/
theorem removeHandler_eq (h : Handler) (reactor : Reactor Handler) :
    removeHandler h reactor =
      let swept := sweep (fun waiting => waiting = h) reactor.waitedQueue
      if swept.2 then .error .pastEnd { reactor with waitedQueue := swept.1 }
      else .ok (if h ∈ reactor.waitedQueue then 0 else 1)
        { reactor with waitedQueue := swept.1 } := by
  have hloop : eraseLoop (fun waiting => waiting = h) 0 false reactor.waitedQueue = _ :=
    eraseLoop_eq [] false reactor.waitedQueue
  dsimp only
  split at hloop
  · next hpast =>
      rw [if_pos hpast]
      exact Method.bind_error (Method.zoom_error hloop)
  · next hpast =>
      rw [if_neg hpast]
      apply (Method.bind_ok (Method.zoom_ok hloop)).trans
      by_cases hwaits : h ∈ reactor.waitedQueue
      · simp [hwaits]
      · simp [hwaits]

/-- Every occurrence of the handler is gone and the order of the others kept,
the result is 0 exactly if there was one, and no iterator is moved past the
end. -/
def RemovesAll (h : Handler) (reactor : Reactor Handler) : Prop :=
  ∃ ret, removeHandler h reactor = .ok ret (reactor.without h) ∧
    (ret = 0 ↔ h ∈ reactor.waitedQueue)

theorem spaced_eq_iff (h : Handler) (handlers : List Handler) :
    Spaced (fun waiting => waiting = h) handlers ↔
      handlers.getLast? ≠ some h ∧
        handlers.IsChain fun first second => first = h → second ≠ h := by
  have hlast : (∀ last ∈ handlers.getLast?, decide (last = h) = false) ↔
      handlers.getLast? ≠ some h := by
    constructor
    · intro hall hsome
      simpa using hall h hsome
    · intro hne last hmem
      rw [decide_eq_false_iff_not]
      rintro rfl
      exact hne hmem
  rw [Spaced, Apart, hlast, and_comm]
  simp only [decide_eq_true_eq, decide_eq_false_iff_not, ne_eq]

/-- The removal does what it is for exactly if the handler is not the last one
and is never twice in a row. -/
theorem removesAll_iff (h : Handler) (reactor : Reactor Handler) :
    RemovesAll h reactor ↔ reactor.waitedQueue.getLast? ≠ some h ∧
      reactor.waitedQueue.IsChain fun first second => first = h → second ≠ h := by
  have hkept : (reactor.waitedQueue.filter fun waiting => !decide (waiting = h)) =
      reactor.waitedQueue.filter (· ≠ h) := by simp only [ne_eq, decide_not]
  rw [← spaced_eq_iff, ← sweep_filter_iff, hkept, RemovesAll, removeHandler_eq]
  dsimp only
  constructor
  · rintro ⟨ret, hremove, -⟩
    split at hremove
    · contradiction
    · next hpast =>
        simp only [EStateM.Result.ok.injEq, without, Reactor.mk.injEq, and_true] at hremove
        exact Prod.ext hremove.2 (Bool.not_eq_true _ ▸ hpast)
  · intro hsweep
    refine ⟨if h ∈ reactor.waitedQueue then 0 else 1, ?_, by simp⟩
    rw [hsweep, if_neg Bool.false_ne_true]
    rfl

/-- A handler that is registered twice in a row. -/
theorem twiceInARow_leaves : ¬ RemovesAll 1 (⟨[1, 1], []⟩ : Reactor Nat) := by
  rintro ⟨ret, hremove, -⟩
  rw [removeHandler_eq] at hremove
  change EStateM.Result.ok 0 (⟨[1], []⟩ : Reactor Nat) = .ok ret ⟨[], []⟩ at hremove
  exact absurd (EStateM.Result.ok.inj hremove).2 (by decide)

end Reactor

end ZtHttp
