import ZtHttp.Pool.Basic

/-!
# The steps of the pool

What a worker finds when it goes on in `runThread`, and what a caller finds when
it goes on in the method it called, each with the state that is left.
-/

namespace ZtHttp.ThreadPool

variable {Worker Caller Task : Type} {pool after : ThreadPool Worker Caller Task}
  {worker : Worker} {caller : Caller}

/-! ### The workers -/

section

variable [DecidableEq Worker]

/-- The steps of `runThread`. -/
inductive Works (pool : ThreadPool Worker Caller Task) (worker : Worker) :
    ThreadPool Worker Caller Task → Prop
  | tested : pool.worker worker = .testing →
      Works pool worker (pool.setWorker worker (if pool.isCancelled then .finished else .locking))
  | waits : pool.worker worker = .locking → pool.destroyed = false → pool.tasks = [] →
      Works pool worker (pool.setWorker worker .waiting)
  | locked : pool.worker worker = .locking → pool.destroyed = false → pool.tasks ≠ [] →
      Works pool worker (pool.afterWait worker)
  | woken : pool.worker worker = .woken → pool.destroyed = false →
      Works pool worker (pool.afterWait worker)
  | relayed : pool.worker worker = .relaying → pool.destroyed = false →
      Works pool worker (pool.broadcast.setWorker worker .finished)
  | ran {task : Task} : pool.worker worker = .running task →
      Works pool worker (pool.setWorker worker .testing)

theorem works_of_work (hwork : pool.work worker = some after) : Works pool worker after := by
  unfold work at hwork
  cases hpc : pool.worker worker with
  | testing =>
      simp only [hpc, Option.some.injEq] at hwork
      exact hwork ▸ .tested hpc
  | locking =>
      simp only [hpc, Option.ite_none_left_eq_some, Bool.not_eq_true] at hwork
      obtain ⟨hintact, hwork⟩ := hwork
      split at hwork
      · next htasks =>
          cases hwork
          exact .waits hpc hintact htasks
      · next htasks =>
          cases hwork
          exact .locked hpc hintact htasks
  | woken =>
      simp only [hpc, Option.ite_none_left_eq_some, Bool.not_eq_true, Option.some.injEq] at hwork
      exact hwork.2 ▸ .woken hpc hwork.1
  | relaying =>
      simp only [hpc, Option.ite_none_left_eq_some, Bool.not_eq_true, Option.some.injEq] at hwork
      exact hwork.2 ▸ .relayed hpc hwork.1
  | running task =>
      simp only [hpc, Option.some.injEq] at hwork
      exact hwork ▸ .ran hpc
  | waiting | undefined | finished => simp only [hpc, reduceCtorEq] at hwork

/-- A worker sets no flag, calls no method and pushes nothing. -/
structure LeavesGate (pool after : ThreadPool Worker Caller Task) : Prop where
  isWaited : after.isWaited = pool.isWaited
  isCancelled : after.isCancelled = pool.isCancelled
  destroyed : after.destroyed = pool.destroyed
  caller : after.caller = pool.caller
  enqueued : after.enqueued = pool.enqueued
  tasks : pool.tasks = [] → after.tasks = []

theorem leavesGate_afterWait (pool : ThreadPool Worker Caller Task) (worker : Worker) :
    pool.LeavesGate (pool.afterWait worker) := by
  unfold afterWait
  split
  · exact ⟨rfl, rfl, rfl, rfl, rfl, id⟩
  · unfold popBack
    cases hlast : pool.tasks.getLast? with
    | none => exact ⟨rfl, rfl, rfl, rfl, rfl, id⟩
    | some task =>
        refine ⟨rfl, rfl, rfl, rfl, rfl, ?_⟩
        intro hempty
        simp [hempty] at hlast

theorem Works.leavesGate (hworks : Works pool worker after) : pool.LeavesGate after := by
  cases hworks with
  | locked hpc hintact htasks => exact leavesGate_afterWait pool worker
  | woken hpc hintact => exact leavesGate_afterWait pool worker
  | tested | waits | relayed | ran => exact ⟨rfl, rfl, rfl, rfl, rfl, id⟩

end

/-! ### The callers -/

section

variable [DecidableEq Caller]

/-- The later steps of the methods. -/
inductive Resumes (pool : ThreadPool Worker Caller Task) (caller : Caller) :
    ThreadPool Worker Caller Task → Prop
  | pushed {task : Task} : pool.caller caller = .pushing task → pool.destroyed = false →
      Resumes pool caller
        { pool.setCaller caller .signalling with
          tasks := pool.tasks ++ [task]
          enqueued := pool.enqueued ++ [task] }
  | signalled : pool.caller caller = .signalling → pool.destroyed = false →
      Resumes pool caller (pool.broadcast.setCaller caller (.outside (some 0)))
  | polled {ending : Bool} : pool.caller caller = .polling ending → pool.destroyed = false →
      pool.tasks ≠ [] → Resumes pool caller pool
  | emptied {ending : Bool} : pool.caller caller = .polling ending → pool.destroyed = false →
      pool.tasks = [] →
      Resumes pool caller
        (pool.setCaller caller (if ending then .cancelling else .outside (some 0)))
  | reopened : pool.caller caller = .reopening →
      Resumes pool caller ({ pool with isWaited := false }.setCaller caller (.outside (some 0)))
  | cancelled : pool.caller caller = .cancelling →
      Resumes pool caller ({ pool with isCancelled := true }.setCaller caller .announcing)
  | announced : pool.caller caller = .announcing → pool.destroyed = false →
      Resumes pool caller (pool.broadcast.setCaller caller .destroying)
  | ended : pool.caller caller = .destroying → pool.destroyed = false →
      Resumes pool caller ({ pool with destroyed := true }.setCaller caller (.outside (some 0)))

theorem resumes_of_resume (hresume : pool.resume caller = some after) :
    Resumes pool caller after := by
  unfold resume at hresume
  cases hpc : pool.caller caller with
  | outside returned => simp only [hpc, reduceCtorEq] at hresume
  | pushing task =>
      simp only [hpc, Option.ite_none_left_eq_some, Bool.not_eq_true, Option.some.injEq] at hresume
      exact hresume.2 ▸ .pushed hpc hresume.1
  | signalling =>
      simp only [hpc, Option.ite_none_left_eq_some, Bool.not_eq_true, Option.some.injEq] at hresume
      exact hresume.2 ▸ .signalled hpc hresume.1
  | polling ending =>
      simp only [hpc, Option.ite_none_left_eq_some, Bool.not_eq_true] at hresume
      obtain ⟨hintact, hresume⟩ := hresume
      split at hresume
      · next htasks =>
          cases hresume
          exact .polled hpc hintact htasks
      · next htasks =>
          cases hresume
          exact .emptied hpc hintact (Classical.not_not.mp htasks)
  | reopening =>
      simp only [hpc, Option.some.injEq] at hresume
      exact hresume ▸ .reopened hpc
  | cancelling =>
      simp only [hpc, Option.some.injEq] at hresume
      exact hresume ▸ .cancelled hpc
  | announcing =>
      simp only [hpc, Option.ite_none_left_eq_some, Bool.not_eq_true, Option.some.injEq] at hresume
      exact hresume.2 ▸ .announced hpc hresume.1
  | destroying =>
      simp only [hpc, Option.ite_none_left_eq_some, Bool.not_eq_true, Option.some.injEq] at hresume
      exact hresume.2 ▸ .ended hpc hresume.1

theorem start_of_call [DecidableEq Worker] {call : Call Task}
    (hnext : pool.next (.call caller call) = some after) :
    pool.isOutside caller = true ∧ after = pool.start caller call := by
  obtain ⟨houtside, heq⟩ := Option.ite_none_right_eq_some.mp hnext
  exact ⟨houtside, (Option.some.inj heq).symm⟩

end

end ZtHttp.ThreadPool
