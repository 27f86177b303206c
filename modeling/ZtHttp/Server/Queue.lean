import Mathlib.Data.List.Nodup
import ZtHttp.Server.Handoff

/-!
# What the wait queue conserves

`enqueue_and_wait` pushes a handler or discards it, and `registerEvents` takes
the whole queue and registers each handler that it takes. Both hold
`wait_queue_mtx`, so a pushed handler is queued until one task registers it, and
the full check of the only producer bounds the queue.
-/

namespace ZtHttp.Handoff

open Transition

variable {Handler Task : Type}

/-- The handler that a call of `enqueue_and_wait` brings. -/
def Action.brings : Action Handler Task → Option Handler
  | .enqueue handler => some handler
  | .kill | .sigwait | .increment | .testFlag _ | .drain _ => none

namespace Threads

/-- The handlers that were passed to some reactor's `register_handler`. -/
def registeredHandlers (threads : Threads Handler Task) : List Handler :=
  threads.registered.map Prod.snd

/-- The handlers ever pushed are, each once, those registered and those still
queued; none is registered twice or with two reactors, and the queue is within
its bound. -/
structure Conserved (threads : Threads Handler Task) : Prop where
  pushed : (threads.registeredHandlers ++ threads.handoff.waitQueue).Perm threads.handoff.pushed
  once : threads.handoff.pushed.Nodup
  registeredOnce : threads.registeredHandlers.Nodup
  oneReactor : ∀ handler task other, (task, handler) ∈ threads.registered →
    (other, handler) ∈ threads.registered → task = other
  bounded : threads.handoff.waitQueue.length ≤ backlogQueue

/-- What every step keeps, whether handlers are distinct or not. -/
structure Accounted (threads : Threads Handler Task) : Prop where
  pushed : (threads.registeredHandlers ++ threads.handoff.waitQueue).Perm threads.handoff.pushed
  bounded : threads.handoff.waitQueue.length ≤ backlogQueue

theorem accounted_initial : (initial : Threads Handler Task).Accounted where
  pushed := List.Perm.refl _
  bounded := Nat.zero_le _

/-- A step that leaves the queue and the registrations alone. -/
theorem Accounted.frame {threads : Threads Handler Task} {handoff : Handoff Handler}
    (haccounted : threads.Accounted) (hsame : threads.handoff.SameQueue handoff) :
    Accounted { threads with handoff } := by
  constructor
  · rw [registeredHandlers, hsame.waitQueue, hsame.pushed]
    exact haccounted.pushed
  · rw [hsame.waitQueue]
    exact haccounted.bounded

theorem Accounted.enqueue {threads : Threads Handler Task} (haccounted : threads.Accounted)
    (handler : Handler) :
    Accounted { threads with handoff := threads.handoff.enqueue handler } := by
  unfold Handoff.enqueue
  split
  · exact haccounted
  · next hroom =>
      constructor
      · simp only [registeredHandlers, ← List.append_assoc]
        exact haccounted.pushed.append_right [handler]
      · have hbounded := haccounted.bounded
        simp only [List.length_append, List.length_singleton]
        omega

variable [DecidableEq Task]

/-- `registerEvents` moves the whole queue to the registrations of its task. -/
theorem Accounted.drain {threads : Threads Handler Task} (haccounted : threads.Accounted)
    (task : Task) :
    Accounted { threads.goto task .looping with
      handoff := threads.handoff.drain
      registered := threads.registered ++ threads.handoff.taken.map (task, ·) } := by
  constructor
  · have htaken : (threads.registered ++ threads.handoff.taken.map (task, ·)).map Prod.snd =
        threads.registeredHandlers ++ threads.handoff.waitQueue.reverse := by
      simp [registeredHandlers, taken, Function.comp_def]
    simp only [registeredHandlers, htaken, Handoff.drain, List.append_nil]
    exact ((List.reverse_perm _).append_left _).trans haccounted.pushed
  · exact Nat.zero_le _

/-- Every step keeps the account. -/
theorem accounted_next {threads after : Threads Handler Task} {action : Action Handler Task}
    (haccounted : threads.Accounted) (hnext : threads.next action = some after) :
    after.Accounted := by
  cases action with
  | enqueue handler =>
      cases hnext
      exact haccounted.enqueue handler
  | kill =>
      obtain ⟨handoff, hkill, rfl⟩ := Option.map_eq_some_iff.mp hnext
      exact haccounted.frame (sameQueue_kill hkill)
  | sigwait =>
      obtain ⟨handoff, hsigwait, rfl⟩ := Option.map_eq_some_iff.mp hnext
      exact haccounted.frame (sameQueue_sigwait hsigwait)
  | increment =>
      obtain ⟨handoff, hincrement, rfl⟩ := Option.map_eq_some_iff.mp hnext
      exact haccounted.frame (sameQueue_increment hincrement)
  | testFlag task =>
      simp only [next, Option.ite_none_right_eq_some, Option.some.injEq] at hnext
      obtain ⟨-, rfl⟩ := hnext
      split
      · exact haccounted
      · exact ⟨haccounted.pushed, haccounted.bounded⟩
  | drain task =>
      simp only [next, Option.ite_none_right_eq_some, Option.some.injEq] at hnext
      obtain ⟨-, rfl⟩ := hnext
      exact haccounted.drain task

/-- A step pushes at most what it brings. -/
theorem pushed_next {threads after : Threads Handler Task} {action : Action Handler Task}
    (hnext : threads.next action = some after) :
    ∃ new, after.handoff.pushed = threads.handoff.pushed ++ new ∧
      new.Sublist action.brings.toList := by
  rcases next_cases hnext with ⟨handler, rfl, heq⟩ | ⟨rfl, hkill⟩ | ⟨rfl, hsigwait⟩ |
    ⟨rfl, hincrement⟩ | ⟨task, rfl, heq⟩ | ⟨task, rfl, heq⟩
  · rw [heq, Handoff.enqueue]
    split
    · exact ⟨[], (List.append_nil _).symm, List.nil_sublist _⟩
    · exact ⟨[handler], rfl, List.Sublist.refl _⟩
  · exact ⟨[], by rw [(sameQueue_kill hkill).pushed, List.append_nil], List.nil_sublist _⟩
  · exact ⟨[], by rw [(sameQueue_sigwait hsigwait).pushed, List.append_nil], List.nil_sublist _⟩
  · exact ⟨[], by rw [(sameQueue_increment hincrement).pushed, List.append_nil],
      List.nil_sublist _⟩
  · exact ⟨[], by rw [heq, List.append_nil], List.nil_sublist _⟩
  · exact ⟨[], by rw [heq, Handoff.drain, List.append_nil], List.nil_sublist _⟩

/-- What a run has pushed was brought, in that order. -/
theorem run_pushed {first last : Threads Handler Task} {actions : List (Action Handler Task)}
    (hrun : (system Handler Task).Run first actions last) :
    ∃ new, last.handoff.pushed = first.handoff.pushed ++ new ∧
      new.Sublist (actions.filterMap Action.brings) := by
  induction hrun with
  | nil => exact ⟨[], (List.append_nil _).symm, List.nil_sublist _⟩
  | @cons first middle last action actions hstep _ ih =>
      obtain ⟨head, hhead, hbrought⟩ := pushed_next hstep
      obtain ⟨tail, htail, hrest⟩ := ih
      refine ⟨head ++ tail, ?_, ?_⟩
      · rw [htail, hhead, List.append_assoc]
      · rw [List.filterMap_cons]
        cases hbrings : action.brings with
        | none =>
            rw [hbrings] at hbrought
            rw [List.sublist_nil.mp hbrought]
            exact hrest
        | some handler =>
            rw [hbrings] at hbrought
            exact hbrought.append hrest

/-- In every run whose calls of `enqueue_and_wait` bring distinct handlers, the
handlers pushed are exactly, without repetition, those registered and those
still queued. -/
theorem queue_conserved {threads : Threads Handler Task} {actions : List (Action Handler Task)}
    (hrun : (system Handler Task).Run initial actions threads)
    (hdistinct : (actions.filterMap Action.brings).Nodup) : threads.Conserved := by
  have haccounted : threads.Accounted :=
    hrun.preserves Accounted (fun _ _ _ => accounted_next) accounted_initial
  have honce : threads.handoff.pushed.Nodup := by
    obtain ⟨new, hnew, hbrought⟩ := run_pushed hrun
    rw [hnew]
    exact hdistinct.sublist hbrought
  have hregistered : threads.registeredHandlers.Nodup :=
    (haccounted.pushed.nodup_iff.mpr honce).sublist (List.sublist_append_left _ _)
  refine ⟨haccounted.pushed, honce, hregistered, ?_, haccounted.bounded⟩
  intro handler task other htask hother
  exact congrArg Prod.fst (List.inj_on_of_nodup_map hregistered htask hother rfl)

/-- Two tasks take turns at the queue. -/
theorem twoTasks_conserved :
    ∃ threads : Threads Nat Bool, threads.Conserved ∧
      threads.registered = [(true, 1), (false, 3), (false, 2)] ∧
      threads.handoff.waitQueue = [4] := by
  let actions : List (Action Nat Bool) :=
    [.enqueue 1, .kill, .sigwait, .increment, .testFlag true, .drain true,
      .enqueue 2, .kill, .sigwait, .increment, .testFlag false, .enqueue 3, .drain false,
      .enqueue 4]
  obtain ⟨threads, hexec⟩ : ∃ threads, Lts.exec next (initial : Threads Nat Bool) actions =
      some threads := ⟨_, rfl⟩
  refine ⟨threads, queue_conserved (Lts.run_of_exec hexec) (by decide), ?_⟩
  cases hexec
  exact ⟨rfl, rfl⟩

end Threads

end ZtHttp.Handoff
