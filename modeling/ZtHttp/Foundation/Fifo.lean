import ZtHttp.Foundation.Transition

/-!
# First-in first-out queues

The queue is the list of its items, the oldest first. Its events carry the
items that enter and leave, so that a run fixes both streams.
-/

namespace Fifo

open Transition

universe u

variable {α : Type u}

inductive Event (α : Type u) where
  | push (items : List α)
  | pop (items : List α)
  | idle

/-- One event of the queue: items enter behind and leave in front. -/
inductive Step : List α → Event α → List α → Prop
  | push (queue items : List α) : Step queue (.push items) (queue ++ items)
  | pop (queue items : List α) : Step (items ++ queue) (.pop items) queue
  | idle (queue : List α) : Step queue .idle queue

/-- The queue that starts empty. -/
def system (α : Type u) : Lts (List α) (Event α) where
  init queue := queue = []
  step := Step

/-- The items that enter in one event. -/
def Event.entering : Event α → List α
  | .push items => items
  | _ => []

/-- The items that leave in one event. -/
def Event.leaving : Event α → List α
  | .pop items => items
  | _ => []

theorem Step.conservation {first last : List α} {event : Event α} (hstep : Step first event last) :
    first ++ event.entering = event.leaving ++ last := by
  cases hstep <;> simp [Event.entering, Event.leaving]

/-- Nothing is lost, duplicated or reordered: what was there and what entered
is what left and what is there now. -/
theorem conservation {first last : List α} {events : List (Event α)}
    (hrun : (system α).Run first events last) :
    first ++ events.flatMap Event.entering = events.flatMap Event.leaving ++ last := by
  induction hrun with
  | nil => simp
  | @cons first middle last event events hstep _ ih =>
      have hhead := Step.conservation hstep
      calc first ++ (event :: events).flatMap Event.entering
          = (first ++ event.entering) ++ events.flatMap Event.entering := by simp
        _ = event.leaving ++ (middle ++ events.flatMap Event.entering) := by simp [hhead]
        _ = (event :: events).flatMap Event.leaving ++ last := by simp [ih]

end Fifo
