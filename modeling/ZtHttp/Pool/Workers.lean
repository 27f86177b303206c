import Mathlib.Data.List.Perm.Subperm
import ZtHttp.Pool.Laws

/-!
# What the workers pop

A worker tests the list once before it waits and does not test it again when it
is woken. One broadcast wakes every waiter, and a broadcast can come after its
task is already gone, so a woken worker may find the list empty and then calls
`back()` and `pop_back()` on it.
-/

namespace ZtHttp.ThreadPool

open Transition

variable {Worker Caller Task : Type}

/-- No worker has called `back()` on an empty list. -/
def Safe (pool : ThreadPool Worker Caller Task) : Prop :=
  ∀ worker, pool.worker worker ≠ .undefined

/-- What is queued and what was started is what was enqueued. -/
def Conserved (pool : ThreadPool Worker Caller Task) : Prop :=
  (pool.tasks ++ pool.started).Perm pool.enqueued

/-- A worker that leaves `pthread_cond_wait` finds a task or the end of the
pool. -/
def FindsTask (pool : ThreadPool Worker Caller Task) : Action Worker Caller Task → Prop
  | .work worker => pool.worker worker = .woken → pool.tasks ≠ [] ∨ pool.isCancelled = true
  | .call _ _ | .resume _ => True

/-! ### One step of a worker -/

theorem safe_broadcast {pool : ThreadPool Worker Caller Task} :
    pool.broadcast.Safe ↔ pool.Safe := by
  have hwake : ∀ pc : WorkerPc Task, pc.wake = .undefined ↔ pc = .undefined := by
    intro pc
    cases pc <;> simp [WorkerPc.wake]
  simp only [Safe, broadcast, ne_eq, hwake]

section

variable [DecidableEq Worker] {pool after : ThreadPool Worker Caller Task} {worker : Worker}

/-- A worker that has not failed moves on. -/
theorem safe_setWorker (hworker : pool.worker worker ≠ .undefined) (pc : WorkerPc Task) :
    (pool.setWorker worker pc).Safe ↔ pool.Safe ∧ pc ≠ .undefined := by
  constructor
  · intro hsafe
    constructor
    · intro other
      by_cases hsame : other = worker
      · rw [hsame]
        exact hworker
      · have hother := hsafe other
        simp only [setWorker, if_neg hsame] at hother
        exact hother
    · have hsame := hsafe worker
      simp only [setWorker, if_true] at hsame
      exact hsame
  · rintro ⟨hsafe, hpc⟩ other
    simp only [setWorker]
    split
    · exact hpc
    · exact hsafe other

theorem safe_afterWait (hworker : pool.worker worker ≠ .undefined) :
    (pool.afterWait worker).Safe ↔
      pool.Safe ∧ (pool.tasks ≠ [] ∨ pool.isCancelled = true) := by
  rw [afterWait]
  split
  · next hcancelled =>
      rw [safe_setWorker hworker]
      simp [hcancelled]
  · next hcancelled =>
      rw [popBack]
      cases hlast : pool.tasks.getLast? with
      | none =>
          rw [safe_setWorker hworker]
          simp [List.getLast?_eq_none_iff.mp hlast, hcancelled]
      | some task =>
          have hne : pool.tasks ≠ [] := by
            intro hempty
            simp [hempty] at hlast
          have hmoves := safe_setWorker hworker (.running task)
          simp only [ne_eq, reduceCtorEq, not_false_eq_true, and_true] at hmoves
          exact hmoves.trans (by simp [hne])

theorem Conserved.afterWait (hconserved : pool.Conserved) (worker : Worker) :
    (pool.afterWait worker).Conserved := by
  rw [ThreadPool.afterWait]
  split
  · exact hconserved
  · rw [popBack]
    cases hlast : pool.tasks.getLast? with
    | none => exact hconserved
    | some task =>
        have htasks : pool.tasks.dropLast ++ [task] = pool.tasks :=
          List.dropLast_append_getLast? task hlast
        -- the popped task moves from the end of the queue to the end of the started ones
        have hmoved : (pool.tasks.dropLast ++ (pool.started ++ [task])).Perm
            (pool.tasks ++ pool.started) := by
          nth_rewrite 2 [← htasks]
          rw [List.append_assoc]
          exact List.perm_append_comm.append_left _
        exact hmoved.trans hconserved

/-- Only a worker that was woken may come to the pop with an empty list. -/
theorem Works.safe (hworks : Works pool worker after) :
    after.Safe ↔ pool.Safe ∧
      (pool.worker worker = .woken → pool.tasks ≠ [] ∨ pool.isCancelled = true) := by
  cases hworks with
  | tested hpc =>
      rw [safe_setWorker (by simp [hpc])]
      split <;> simp [hpc]
  | waits hpc hintact htasks =>
      rw [safe_setWorker (by simp [hpc])]
      simp [hpc]
  | locked hpc hintact htasks =>
      rw [safe_afterWait (by simp [hpc])]
      simp [hpc, htasks]
  | woken hpc hintact =>
      rw [safe_afterWait (by simp [hpc])]
      simp [hpc]
  | relayed hpc hintact =>
      -- the broadcast wakes waiting workers, and the relaying one is none of them
      have hwake : pool.broadcast.worker worker ≠ .undefined := by
        simp [broadcast, hpc, WorkerPc.wake]
      rw [safe_setWorker hwake, safe_broadcast]
      simp [hpc]
  | ran hpc =>
      rw [safe_setWorker (by simp [hpc])]
      simp [hpc]

theorem Works.conserved (hworks : Works pool worker after) (hconserved : pool.Conserved) :
    after.Conserved := by
  cases hworks with
  | locked hpc hintact htasks => exact hconserved.afterWait worker
  | woken hpc hintact => exact hconserved.afterWait worker
  | tested | waits | relayed | ran => exact hconserved

end

/-! ### One step of the system -/

variable [DecidableEq Caller] {pool after : ThreadPool Worker Caller Task}

/-- A caller leaves the workers alone or wakes them. -/
theorem Resumes.safe {caller : Caller} (hresumes : Resumes pool caller after) :
    after.Safe ↔ pool.Safe := by
  cases hresumes with
  | signalled | announced => exact safe_broadcast
  | pushed | polled | emptied | reopened | cancelled | ended => exact .rfl

/-- A caller pushes at most. -/
theorem Resumes.conserved {caller : Caller} (hresumes : Resumes pool caller after)
    (hconserved : pool.Conserved) : after.Conserved := by
  cases hresumes with
  | @pushed task hpc hintact =>
      -- `push_back` puts the task behind the queue, `enqueued` behind everything
      have hpushed : (pool.tasks ++ [task] ++ pool.started).Perm
          (pool.tasks ++ pool.started ++ [task]) := by
        rw [List.append_assoc, List.append_assoc]
        exact List.perm_append_comm.append_left _
      exact hpushed.trans (hconserved.append_right _)
  | signalled | polled | emptied | reopened | cancelled | announced | ended => exact hconserved

theorem start_cases (caller : Caller) (call : Call Task) :
    ((pool.start caller call).Safe ↔ pool.Safe) ∧
    (pool.Conserved → (pool.start caller call).Conserved) := by
  cases call with
  | enqueue task | waitPool | reStart | endPool => exact ⟨.rfl, id⟩

variable [DecidableEq Worker]

/-- A step calls `back()` on an empty list exactly if it is a woken worker's
and the condition fails. -/
theorem next_safe {action : Action Worker Caller Task} (hnext : pool.next action = some after) :
    after.Safe ↔ pool.Safe ∧ pool.FindsTask action := by
  cases action with
  | work worker => exact (works_of_work hnext).safe
  | call caller call =>
      obtain ⟨-, rfl⟩ := start_of_call hnext
      rw [(start_cases caller call).1]
      simp [FindsTask]
  | resume caller =>
      rw [(resumes_of_resume hnext).safe]
      simp [FindsTask]

theorem next_conserved {action : Action Worker Caller Task} (hconserved : pool.Conserved)
    (hnext : pool.next action = some after) : after.Conserved := by
  cases action with
  | work worker => exact (works_of_work hnext).conserved hconserved
  | call caller call =>
      obtain ⟨-, rfl⟩ := start_of_call hnext
      exact (start_cases caller call).2 hconserved
  | resume caller => exact (resumes_of_resume hnext).conserved hconserved

/-! ### What a run does -/

/-- Every pop found a task, every enqueued task is started at most once, and
the tasks queued or started are those enqueued. -/
structure PopsQueued (pool : ThreadPool Worker Caller Task) : Prop where
  safe : pool.Safe
  once : pool.started.Subperm pool.enqueued
  conserved : pool.Conserved

/-- The workers pop tasks that are there exactly in the runs in which every
worker that leaves `pthread_cond_wait` finds one. -/
theorem run_popsQueued_iff {actions : List (Action Worker Caller Task)}
    (hrun : (system Worker Caller Task).Run initial actions pool) :
    pool.PopsQueued ↔
      ((system Worker Caller Task).restrict FindsTask).Run initial actions pool := by
  have hinitial : (initial : ThreadPool Worker Caller Task).Safe := by
    intro worker
    simp [initial]
  have hsafe := hrun.restrict_iff Safe (fun _ _ _ hnext => next_safe hnext) hinitial
  have hconserved : pool.Conserved :=
    hrun.preserves Conserved (fun _ _ _ hconserved hnext => next_conserved hconserved hnext)
      (List.Perm.refl _)
  have honce : pool.started.Subperm pool.enqueued :=
    (List.sublist_append_right pool.tasks pool.started).subperm.trans hconserved.subperm
  exact ⟨fun hpops => hsafe.mp hpops.safe, fun hallowed => ⟨hsafe.mpr hallowed, honce, hconserved⟩⟩

instance [DecidableEq Task] (pool : ThreadPool Worker Caller Task) :
    (action : Action Worker Caller Task) → Decidable (pool.FindsTask action)
  | .work worker =>
      inferInstanceAs
        (Decidable (pool.worker worker = .woken → pool.tasks ≠ [] ∨ pool.isCancelled = true))
  | .call _ _ | .resume _ => isTrue trivial

/-- Two workers wait, one task is enqueued, and only one of them gets the mutex
again. -/
theorem oneWoken_popsQueued :
    ∃ (pool : ThreadPool (Fin 2) Unit Nat) (actions : List (Action (Fin 2) Unit Nat)),
      (system (Fin 2) Unit Nat).Run initial actions pool ∧ pool.PopsQueued ∧
      pool.worker 0 = .running 1 ∧ pool.worker 1 = .woken := by
  obtain ⟨pool, ⟨start, actions, rfl, hallowed⟩, hworkers⟩ := Lts.exists_restricted_of_exec
    (initial : ThreadPool (Fin 2) Unit Nat) next FindsTask
    (fun pool => pool.worker 0 = .running 1 ∧ pool.worker 1 = .woken)
    [.work 0, .work 0, .work 1, .work 1, .call () (.enqueue 1), .resume (), .resume (), .work 0]
    (by decide)
  exact ⟨pool, actions, hallowed.of_restrict,
    (run_popsQueued_iff hallowed.of_restrict).mpr hallowed, hworkers⟩

/-- The only worker takes the only task before its broadcast, waits, is woken by
that broadcast and pops the empty list. -/
theorem lateBroadcast_undefined :
    ∃ pool : ThreadPool Unit Unit Nat, (system Unit Unit Nat).Reachable pool ∧
      pool.enqueued = [1] ∧ pool.tasks = [] ∧ pool.worker () = .undefined :=
  Lts.exists_reachable_of_exec (initial : ThreadPool Unit Unit Nat) next
    (fun pool => pool.enqueued = [1] ∧ pool.tasks = [] ∧ pool.worker () = .undefined)
    [.call () (.enqueue 1), .resume (), .work (), .work (), .work (), .work (), .work (),
      .resume (), .work ()] (by decide)

end ZtHttp.ThreadPool
