import Mathlib.Algebra.Order.BigOperators.Group.Finset
import Mathlib.Data.Fintype.Card
import ZtHttp.Foundation.Schedule
import ZtHttp.Pool.Order
import ZtHttp.Pool.Workers

/-!
# Whether `waitPool` returns

`waitPool` goes on when it finds the list empty. As long as the pool is not
cancelled every step of a worker brings it nearer to the point where it waits for a
task, so the workers come to that point in whatever order they take their turns.
They have emptied the list by then. A worker that is woken too late and finds the
list empty aborts the process in `pop_back`, and then `waitPool` does not return.
-/

namespace ZtHttp

/-- The worker has found the pool cancelled. -/
def WorkerPc.hasEnded {Task : Type} : WorkerPc Task → Bool
  | .relaying | .finished => true
  | _ => false

/-- The steps of a worker until it waits, where it finds no task. -/
def WorkerPc.toWait {Task : Type} : WorkerPc Task → Nat
  | .running _ => 3
  | .testing => 2
  | .locking | .woken => 1
  | .waiting | .undefined | .relaying | .finished => 0

theorem WorkerPc.hasEnded_wake {Task : Type} (pc : WorkerPc Task) :
    pc.wake.hasEnded = pc.hasEnded := by
  cases pc <;> rfl

namespace ThreadPool

open Transition

variable {Worker Caller Task : Type} {pool after : ThreadPool Worker Caller Task}
  {worker : Worker} {caller : Caller}

/-- Nobody has come to the end of the pool. -/
structure Serving (pool : ThreadPool Worker Caller Task) : Prop where
  running : pool.isCancelled = false
  intact : pool.destroyed = false
  workers : ∀ worker, (pool.worker worker).hasEnded = false

/-! ### One step -/

section

variable [DecidableEq Worker]

theorem Serving.afterWait_cases (hserving : pool.Serving) (worker : Worker) :
    (pool.tasks = [] ∧ pool.afterWait worker = pool.setWorker worker .undefined) ∨
    ∃ front task, pool.tasks = front ++ [task] ∧ pool.afterWait worker =
      { pool.setWorker worker (.running task) with
        tasks := front
        started := pool.started ++ [task] } := by
  rw [afterWait, hserving.running, if_neg Bool.false_ne_true, popBack]
  cases hlast : pool.tasks.getLast? with
  | none => exact .inl ⟨List.getLast?_eq_none_iff.mp hlast, rfl⟩
  | some task => exact .inr ⟨_, task, (List.dropLast_append_getLast? task hlast).symm, rfl⟩

/-- The steps of a worker while the pool serves: it moves to another point, and pops
a task if it runs one there. -/
inductive Advances (pool : ThreadPool Worker Caller Task) (worker : Worker) :
    ThreadPool Worker Caller Task → Prop
  | moved {pc : WorkerPc Task} : pc.hasEnded = false →
      pc.toWait + 1 = (pool.worker worker).toWait →
      Advances pool worker (pool.setWorker worker pc)
  | popped {front : List Task} {task : Task} : pool.tasks = front ++ [task] →
      (pool.worker worker).toWait = 1 →
      Advances pool worker
        { pool.setWorker worker (.running task) with
          tasks := front
          started := pool.started ++ [task] }

theorem Serving.advances (hserving : pool.Serving) (hworks : Works pool worker after) :
    Advances pool worker after := by
  -- the pop is the same for a worker that was woken and one that found a task at once
  have hpops : (pool.worker worker).toWait = 1 → Advances pool worker (pool.afterWait worker) := by
    intro htoWait
    rcases hserving.afterWait_cases worker with ⟨htasks, hpop⟩ | ⟨front, task, htasks, hpop⟩
    · rw [hpop]
      exact .moved rfl htoWait.symm
    · rw [hpop]
      exact .popped htasks htoWait
  cases hworks with
  | tested hpc =>
      rw [hserving.running]
      exact .moved rfl (by simp [hpc, WorkerPc.toWait])
  | waits hpc => exact .moved rfl (by simp [hpc, WorkerPc.toWait])
  | locked hpc => exact hpops (by simp [hpc, WorkerPc.toWait])
  | woken hpc => exact hpops (by simp [hpc, WorkerPc.toWait])
  | relayed hpc =>
      have hnone := hserving.workers worker
      simp [hpc, WorkerPc.hasEnded] at hnone
  | ran hpc => exact .moved rfl (by simp [hpc, WorkerPc.toWait])

/-- What holds of the worker that moves and held of all, holds of all. -/
theorem forall_setWorker (property : WorkerPc Task → Prop) {pc : WorkerPc Task} (hpc : property pc)
    (hothers : ∀ other, property (pool.worker other)) (other : Worker) :
    property ((pool.setWorker worker pc).worker other) := by
  rw [worker_setWorker]
  split
  · exact hpc
  · exact hothers other

theorem Serving.work (hserving : pool.Serving) (hwork : pool.work worker = some after) :
    after.Serving := by
  have hworks := works_of_work hwork
  have hleaves := hworks.leavesGate
  refine ⟨hleaves.isCancelled.trans hserving.running, hleaves.destroyed.trans hserving.intact, ?_⟩
  cases hserving.advances hworks with
  | moved hpc => exact forall_setWorker (fun pc => pc.hasEnded = false) hpc hserving.workers
  | popped => exact forall_setWorker (fun pc => pc.hasEnded = false) rfl hserving.workers

/-- A worker that has no step to take waits, or is lost. -/
theorem Serving.waiting_or_undefined (hserving : pool.Serving) (hnone : pool.work worker = none) :
    pool.worker worker = .waiting ∨ pool.worker worker = .undefined := by
  have hended := hserving.workers worker
  unfold ThreadPool.work at hnone
  cases hpc : pool.worker worker with
  | waiting => exact .inl rfl
  | undefined => exact .inr rfl
  | relaying | finished => simp [hpc, WorkerPc.hasEnded] at hended
  | testing | running task => simp [hpc] at hnone
  | woken => simp [hpc, hserving.intact] at hnone
  | locking =>
      simp only [hpc, hserving.intact, if_neg Bool.false_ne_true] at hnone
      split at hnone <;> cases hnone

end

/-! ### The steps that are left -/

section

variable [Fintype Worker]

/-- The steps of the workers until all of them wait. -/
def toWait (pool : ThreadPool Worker Caller Task) : Nat :=
  3 * pool.tasks.length + ∑ worker, (pool.worker worker).toWait

theorem toWait_le (pool : ThreadPool Worker Caller Task) :
    pool.toWait ≤ 3 * (pool.tasks.length + Fintype.card Worker) := by
  have hsum : ∑ worker, (pool.worker worker).toWait ≤ Fintype.card Worker * 3 := by
    refine Finset.sum_le_card_nsmul _ _ 3 fun worker _ => ?_
    cases pool.worker worker <;> simp only [WorkerPc.toWait] <;> omega
  rw [toWait]
  omega

variable [DecidableEq Worker]

/-- A worker that moves is all that a sum over the workers notices. -/
theorem sum_setWorker (weight : WorkerPc Task → Nat) (pool : ThreadPool Worker Caller Task)
    (worker : Worker) (pc : WorkerPc Task) :
    ∑ other, weight ((pool.setWorker worker pc).worker other) + weight (pool.worker worker) =
      ∑ other, weight (pool.worker other) + weight pc := by
  have hothers : ∑ other ∈ Finset.univ.erase worker,
        weight ((pool.setWorker worker pc).worker other) =
      ∑ other ∈ Finset.univ.erase worker, weight (pool.worker other) := by
    refine Finset.sum_congr rfl fun other hother => ?_
    rw [worker_setWorker, if_neg (Finset.ne_of_mem_erase hother)]
  rw [← Finset.add_sum_erase _ _ (Finset.mem_univ worker), hothers,
    ← Finset.add_sum_erase _ (fun other => weight (pool.worker other)) (Finset.mem_univ worker),
    worker_setWorker, if_pos rfl]
  omega

theorem Serving.toWait_work (hserving : pool.Serving) (hwork : pool.work worker = some after) :
    after.toWait + 1 = pool.toWait := by
  cases hserving.advances (works_of_work hwork) with
  | @moved pc _ htoWait =>
      have hsum := pool.sum_setWorker WorkerPc.toWait worker pc
      change 3 * pool.tasks.length + _ + 1 = 3 * pool.tasks.length + _
      omega
  | @popped front task htasks htoWait =>
      have hsum := pool.sum_setWorker WorkerPc.toWait worker (.running task)
      rw [htoWait] at hsum
      rw [toWait, toWait, htasks, List.length_append, List.length_singleton]
      change 3 * front.length +
        ∑ other, ((pool.setWorker worker (.running task)).worker other).toWait + 1 = _
      simp only [WorkerPc.toWait] at hsum ⊢
      omega

end

/-! ### The whole run -/

section

variable [DecidableEq Caller]

/-- The test of `waitPool`: the caller goes on where the list is empty. -/
theorem polling_goesOn_iff {ending : Bool} (hpolling : pool.caller caller = .polling ending)
    (hintact : pool.destroyed = false) :
    (∃ after, pool.resume caller = some after ∧
      after.caller caller = if ending then .cancelling else .outside (some 0)) ↔
    pool.tasks = [] := by
  constructor
  · rintro ⟨after, hresume, hgone⟩
    by_contra htasks
    have hstays : pool.resume caller = some pool := by
      simp [resume, hpolling, hintact, htasks]
    rw [hstays] at hresume
    cases hresume
    rw [hpolling] at hgone
    split at hgone <;> cases hgone
  · intro htasks
    refine ⟨pool.setCaller caller (if ending then .cancelling else .outside (some 0)), ?_,
      if_pos rfl⟩
    simp [resume, hpolling, hintact, htasks]

end

section

variable [DecidableEq Worker] [DecidableEq Caller] {action : Action Worker Caller Task}

theorem Serving.next (hserving : pool.Serving) (hunended : pool.Unended)
    (hnext : pool.next action = some after) : after.isCancelled = true ∨ after.Serving := by
  obtain ⟨hrunning, hintact, hworkers⟩ := hserving
  have hawake : ∀ worker, (pool.broadcast.worker worker).hasEnded = false :=
    fun worker => (WorkerPc.hasEnded_wake _).trans (hworkers worker)
  cases action with
  | work worker => exact .inr (Serving.work ⟨hrunning, hintact, hworkers⟩ hnext)
  | call caller call =>
      obtain ⟨-, rfl⟩ := start_of_call hnext
      cases call with
      | enqueue task | waitPool | reStart | endPool => exact .inr ⟨hrunning, hintact, hworkers⟩
  | resume caller =>
      have hcaller := hunended.caller caller
      cases resumes_of_resume hnext with
      | pushed | polled | emptied | reopened => exact .inr ⟨hrunning, hintact, hworkers⟩
      | signalled => exact .inr ⟨hrunning, hintact, hawake⟩
      | cancelled => exact .inl rfl
      | announced hpc | ended hpc =>
          rw [hpc] at hcaller
          contradiction

/-- Until `endPool` sets the flag, nobody comes to the end of the pool. -/
theorem cancelled_or_serving (hreach : (system Worker Caller Task).Reachable pool) :
    pool.isCancelled = true ∨ pool.Serving := by
  have hboth := hreach.invariant
    (fun pool => pool.isCancelled = true ∨ (pool.Unended ∧ pool.Serving)) ?_ ?_
  · exact hboth.imp_right And.right
  · rintro start rfl
    exact .inr ⟨⟨fun _ => rfl, rfl⟩, rfl, rfl, fun _ => rfl⟩
  · rintro first action last (hcancelled | ⟨hunended, hserving⟩) hnext
    · exact .inl (next_isCancelled hcancelled hnext)
    · rcases hunended.next hnext with hcancelled | hunended'
      · exact .inl hcancelled
      · exact (hserving.next hunended hnext).imp_right fun hserving' => ⟨hunended', hserving'⟩

end

section

variable [DecidableEq Worker] {start : ThreadPool Worker Caller Task}

/-- What the workers keep by themselves, where no `enqueue` has still to broadcast. -/
structure Alone (start pool : ThreadPool Worker Caller Task) : Prop where
  serving : pool.Serving
  awake : pool.Awake
  caller : pool.caller = start.caller
  empty : start.tasks = [] → pool.tasks = []

theorem Alone.work (halone : Alone start pool) (hwork : pool.work worker = some after) :
    Alone start after where
  serving := halone.serving.work hwork
  awake := halone.awake.works (works_of_work hwork)
  caller := (works_of_work hwork).leavesGate.caller.trans halone.caller
  empty hstart := (works_of_work hwork).leavesGate.tasks (halone.empty hstart)

/-- Behind a schedule of the workers no worker has called `back` on an empty list if and
only if none had before and each that is woken finds a task in its turn. -/
theorem play_safe_iff (schedule : List Worker) (pool : ThreadPool Worker Caller Task) :
    (Lts.play ThreadPool.work schedule pool).Safe ↔ pool.Safe ∧
      Lts.PlaysAllowed ThreadPool.work (fun pool worker => pool.FindsTask (.work worker))
        schedule pool :=
  Lts.play_iff Safe (fun _ _ _ hwork => (works_of_work hwork).safe) schedule pool

variable [Fintype Worker] {count : Nat} {schedule : List Worker}

/-- Behind enough turns of each worker the list is empty, if there is a worker at all. -/
theorem Alone.drained_iff (halone : Alone pool pool)
    (hsignalled : ∀ caller, pool.caller caller ≠ .signalling) (hrounds : Lts.Rounds count schedule)
    (hcount : 3 * (pool.tasks.length + Fintype.card Worker) ≤ count)
    (hsafe : (Lts.play ThreadPool.work schedule pool).Safe) :
    Alone pool (Lts.play ThreadPool.work schedule pool) ∧
      ((Lts.play ThreadPool.work schedule pool).tasks = [] ↔
        pool.tasks = [] ∨ Nonempty Worker) := by
  have hstuck := @Lts.stuck_of_rounds _ _ ThreadPool.work (Alone pool) toWait
    (fun _ _ _ halone hwork => halone.work hwork)
    (fun _ _ _ halone hwork => Nat.lt_of_succ_le (halone.serving.toWait_work hwork).le)
    _ _ hrounds pool halone (pool.toWait_le.trans hcount)
  have hlast := @Lts.play_preserves _ _ ThreadPool.work (Alone pool)
    (fun _ _ _ halone hwork => halone.work hwork) schedule pool halone
  refine ⟨hlast, ?_, ?_⟩
  · -- without workers the schedule leaves the list as it is
    intro hempty
    rcases isEmpty_or_nonempty Worker with hnobody | hsome
    · rw [Lts.play_of_none fun worker _ => hnobody.elim worker] at hempty
      exact .inl hempty
    · exact .inr hsome
  · rintro (hempty | ⟨⟨worker⟩⟩)
    · exact hlast.empty hempty
    · by_contra htasks
      have hnone : ∀ other, (Lts.play ThreadPool.work schedule pool).worker other ≠ .waiting :=
        (hlast.awake htasks).resolve_left (by simp [hlast.caller, hsignalled])
      exact (hlast.serving.waiting_or_undefined (hstuck worker)).elim (hnone worker)
        (hsafe worker)

variable [DecidableEq Caller]

/-- `waitPool`, also where `endPool` calls it, finds the list empty behind enough turns
of each worker, in whatever order they take them, and no `pop_back` has ended the process
by then, if and only if none had before, each worker that is woken finds a task in its
turn, and the list was empty before or there is a worker. -/
theorem waitPool_returns_iff {ending : Bool}
    (hreach : (system Worker Caller Task).Reachable pool) (hrunning : pool.isCancelled = false)
    (hsignalled : ∀ caller, pool.caller caller ≠ .signalling)
    (hpolling : pool.caller caller = .polling ending) (hrounds : Lts.Rounds count schedule)
    (hcount : 3 * (pool.tasks.length + Fintype.card Worker) ≤ count) :
    ((Lts.play ThreadPool.work schedule pool).Safe ∧
      ∃ after, (Lts.play ThreadPool.work schedule pool).resume caller = some after ∧
        after.caller caller = if ending then .cancelling else .outside (some 0)) ↔
    pool.Safe ∧
      Lts.PlaysAllowed ThreadPool.work (fun pool worker => pool.FindsTask (.work worker))
        schedule pool ∧
      (pool.tasks = [] ∨ Nonempty Worker) := by
  have hserving := (cancelled_or_serving hreach).resolve_left (by simp [hrunning])
  have halone : Alone pool pool := ⟨hserving, queued_awake hreach, rfl, id⟩
  rw [← and_assoc, ← play_safe_iff]
  refine and_congr_right fun hsafe => ?_
  obtain ⟨hlast, hdrained⟩ := halone.drained_iff hsignalled hrounds hcount hsafe
  have hstill : (Lts.play ThreadPool.work schedule pool).caller caller = .polling ending := by
    rw [hlast.caller, hpolling]
  rw [polling_goesOn_iff hstill hlast.serving.intact, hdrained]

end

/-- A worker that was woken for the first of two tasks takes turns with another one. -/
theorem bothTasks_returned : ∃ pool : ThreadPool (Fin 2) Unit Nat,
    pool.tasks = [1, 2] ∧ pool.caller () = .polling false ∧ pool.worker 0 = .woken ∧
    (Lts.play ThreadPool.work (List.replicate 12 [0, 1]).flatten pool).Safe ∧
    ∃ after,
      (Lts.play ThreadPool.work (List.replicate 12 [0, 1]).flatten pool).resume () = some after ∧
      after.caller () = .outside (some 0) := by
  obtain ⟨pool, hreach, htasks, hrunning, hpolling, hworker, hsafe, hfinds⟩ :=
    Lts.exists_reachable_of_exec (initial : ThreadPool (Fin 2) Unit Nat) next
    (fun pool => pool.tasks = [1, 2] ∧ pool.isCancelled = false ∧
      pool.caller () = .polling false ∧ pool.worker 0 = .woken ∧
      (∀ worker, pool.worker worker ≠ .undefined) ∧
      Lts.PlaysAllowed ThreadPool.work (fun pool worker => pool.FindsTask (.work worker))
        (List.replicate 12 [0, 1]).flatten pool)
    [.work 0, .work 0, .call () (.enqueue 1), .resume (), .resume (), .call () (.enqueue 2),
      .resume (), .resume (), .call () .waitPool] (by decide)
  have hrounds : Lts.Rounds 12 (List.replicate 12 [(0 : Fin 2), 1]).flatten :=
    Lts.rounds_replicate (by decide) 12
  have hreturns := waitPool_returns_iff hreach hrunning (by simp [hpolling]) hpolling hrounds
    (by simp [htasks])
  exact ⟨pool, htasks, hpolling, hworker, hreturns.mpr ⟨hsafe, hfinds, .inr ⟨0⟩⟩⟩

end ThreadPool

end ZtHttp
