import ZtHttp.Pool.Gate

/-!
# The workers at the end of the pool

`endPool` sets `isCancelled` and broadcasts without the mutex, and each worker
that is woken broadcasts once more. A worker that has tested the flag before it
was set, and comes to `pthread_cond_wait` after the last broadcast, is not woken
any more.
-/

namespace ZtHttp.ThreadPool

open Transition

variable {Worker Caller Task : Type}

/-- `endPool` has made its broadcast. -/
def Announced (pool : ThreadPool Worker Caller Task) : Prop :=
  pool.destroyed = true ∨ ∃ caller, pool.caller caller = .destroying

/-- With `isCancelled` set, the worker has still to pass the broadcast on: it was
woken, or it will find the list not empty. -/
def relays (pool : ThreadPool Worker Caller Task) (worker : Worker) : Bool :=
  match pool.worker worker with
  | .woken | .relaying => true
  | .locking => !pool.tasks.isEmpty
  | _ => false

/-- The broadcast of `endPool` is over, no worker has one to make, and some
worker waits for one. -/
structure Stranded (pool : ThreadPool Worker Caller Task) : Prop where
  announced : pool.Announced
  unrelayed : ∀ worker, pool.relays worker = false
  waiting : ∃ worker, pool.worker worker = .waiting

/-- No worker goes to wait when the broadcast of `endPool` is over and no worker
has one to make. -/
def WaitsInTime (pool : ThreadPool Worker Caller Task) : Action Worker Caller Task → Prop
  | .work worker =>
      pool.worker worker = .locking → pool.tasks = [] → pool.Announced →
        ∃ other, pool.relays other = true
  | .call _ _ | .resume _ => True

section

variable {pool after : ThreadPool Worker Caller Task} {worker : Worker} {caller : Caller}

theorem relays_of_locking (hpc : pool.worker worker = .locking) :
    pool.relays worker = !pool.tasks.isEmpty := by
  simp [relays, hpc]

/-- After a broadcast nobody waits. -/
theorem not_waiting_broadcast (pool : ThreadPool Worker Caller Task) (worker : Worker) :
    pool.broadcast.worker worker ≠ .waiting := by
  unfold broadcast
  cases hpc : pool.worker worker <;> simp [hpc, WorkerPc.wake]

/-- A step that leaves the workers alone strands none. -/
theorem Stranded.of_workers (hstranded : after.Stranded) (hannounced : pool.Announced)
    (hworker : after.worker = pool.worker) (htasks : after.tasks = [] → pool.tasks = []) :
    pool.Stranded := by
  refine ⟨hannounced, ?_, hworker ▸ hstranded.waiting⟩
  intro worker
  have hnone := hstranded.unrelayed worker
  unfold relays at hnone ⊢
  rw [hworker] at hnone
  cases hpc : pool.worker worker with
  | locking =>
      simp only [hpc, Bool.not_eq_false', List.isEmpty_iff] at hnone ⊢
      exact htasks hnone
  | woken | relaying =>
      rw [hpc] at hnone
      contradiction
  | testing | waiting | undefined | running task | finished => rfl

/-- `endPool` sets the flag before it broadcasts. -/
theorem Announced.isCancelled (hannounced : pool.Announced)
    (hfirst : pool.isCancelled = true ∨ pool.Unended) : pool.isCancelled = true := by
  rcases hfirst with hcancelled | hunended
  · exact hcancelled
  · rcases hannounced with hdestroyed | ⟨caller, hcaller⟩
    · rw [hunended.destroyed] at hdestroyed
      contradiction
    · have hnone := hunended.caller caller
      rw [hcaller] at hnone
      contradiction

section

variable [DecidableEq Caller] {pc : CallerPc Task}

theorem Announced.of_setCaller (hannounced : (pool.setCaller caller pc).Announced)
    (hpc : pc ≠ .destroying) : pool.Announced := by
  rcases hannounced with hdestroyed | ⟨other, hother⟩
  · exact .inl hdestroyed
  · rw [caller_setCaller] at hother
    split at hother
    · exact absurd hother hpc
    · exact .inr ⟨other, hother⟩

theorem Resumes.not_stranded (hresumes : Resumes pool caller after) (hnot : ¬ pool.Stranded) :
    ¬ after.Stranded := by
  intro hstranded
  cases hresumes with
  | signalled | announced =>
      obtain ⟨worker, hwaiting⟩ := hstranded.waiting
      exact not_waiting_broadcast pool worker hwaiting
  | polled => exact hnot hstranded
  | @emptied ending =>
      have hbefore : pool.Announced := by
        apply hstranded.announced.of_setCaller
        split <;> simp
      exact hnot (hstranded.of_workers hbefore rfl id)
  | pushed =>
      have hbefore : pool.Announced := Announced.of_setCaller hstranded.announced (by simp)
      exact hnot (hstranded.of_workers hbefore rfl (by simp))
  | reopened | cancelled =>
      have hbefore : pool.Announced := Announced.of_setCaller hstranded.announced (by simp)
      exact hnot (hstranded.of_workers hbefore rfl id)
  | ended hpc hintact => exact hnot (hstranded.of_workers (.inr ⟨caller, hpc⟩) rfl id)

theorem start_not_stranded (call : Call Task) (hnot : ¬ pool.Stranded) :
    ¬ (pool.start caller call).Stranded := by
  intro hstranded
  cases call with
  | enqueue task | reStart =>
      have hbefore : pool.Announced := by
        apply hstranded.announced.of_setCaller
        split <;> simp
      exact hnot (hstranded.of_workers hbefore rfl id)
  | waitPool | endPool =>
      have hbefore : pool.Announced := Announced.of_setCaller hstranded.announced (by simp)
      exact hnot (hstranded.of_workers hbefore rfl id)

end

section

variable [DecidableEq Worker] {pc : WorkerPc Task}

theorem worker_setWorker (other : Worker) : (pool.setWorker worker pc).worker other =
    if other = worker then pc else pool.worker other := rfl

theorem relays_setWorker {other : Worker} (hne : other ≠ worker) :
    (pool.setWorker worker pc).relays other = pool.relays other := by
  unfold relays
  rw [worker_setWorker, if_neg hne]
  rfl

/-- A worker that neither waits nor has to broadcast strands nobody by moving on. -/
theorem Stranded.of_setWorker (hstranded : (pool.setWorker worker pc).Stranded)
    (hrelays : pool.relays worker = false) (hpc : pc ≠ .waiting) : pool.Stranded := by
  refine ⟨hstranded.announced, ?_, ?_⟩
  · intro other
    by_cases hsame : other = worker
    · rw [hsame, hrelays]
    · rw [← relays_setWorker hsame]
      exact hstranded.unrelayed other
  · obtain ⟨other, hwaiting⟩ := hstranded.waiting
    rw [worker_setWorker] at hwaiting
    split at hwaiting
    · exact absurd hwaiting hpc
    · exact ⟨other, hwaiting⟩

theorem Works.not_stranded (hworks : Works pool worker after)
    (hcancels : pool.Announced → pool.isCancelled = true)
    (hintime : pool.WaitsInTime (.work worker)) (hnot : ¬ pool.Stranded) : ¬ after.Stranded := by
  intro hstranded
  have hleaves := hworks.leavesGate
  have hbefore : pool.Announced := by
    have hannounced := hstranded.announced
    unfold Announced at hannounced
    rwa [hleaves.destroyed, hleaves.caller] at hannounced
  -- the wait or the pop would have ended in the branch of the cancelled pool
  have hrelaying : pool.afterWait worker = pool.setWorker worker .relaying := by
    rw [afterWait, if_pos (hcancels hbefore)]
  have hrelays : ¬ (pool.setWorker worker .relaying).Stranded := by
    intro hlater
    have hnone := hlater.unrelayed worker
    simp [relays, worker_setWorker] at hnone
  cases hworks with
  | tested hpc =>
      rw [if_pos (hcancels hbefore)] at hstranded
      exact hnot (hstranded.of_setWorker (by simp [relays, hpc]) (by simp))
  | waits hpc hintact htasks =>
      obtain ⟨other, hother⟩ := hintime hpc htasks hbefore
      have hne : other ≠ worker := by
        rintro rfl
        simp [relays_of_locking hpc, htasks] at hother
      have hnone := hstranded.unrelayed other
      rw [relays_setWorker hne, hother] at hnone
      contradiction
  | locked hpc hintact htasks =>
      rw [hrelaying] at hstranded
      exact hrelays hstranded
  | woken hpc hintact =>
      rw [hrelaying] at hstranded
      exact hrelays hstranded
  | relayed hpc hintact =>
      obtain ⟨other, hwaiting⟩ := hstranded.waiting
      rw [worker_setWorker] at hwaiting
      split at hwaiting
      · contradiction
      · exact not_waiting_broadcast pool other hwaiting
  | ran hpc => exact hnot (hstranded.of_setWorker (by simp [relays, hpc]) (by simp))

end

end

/-! ### What a run does -/

variable [DecidableEq Worker] [DecidableEq Caller] {pool after : ThreadPool Worker Caller Task}

theorem next_not_stranded {action : Action Worker Caller Task} (hnot : ¬ pool.Stranded)
    (hfirst : pool.isCancelled = true ∨ pool.Unended) (hintime : pool.WaitsInTime action)
    (hnext : pool.next action = some after) : ¬ after.Stranded := by
  cases action with
  | work worker =>
      exact (works_of_work hnext).not_stranded (fun hannounced => hannounced.isCancelled hfirst)
        hintime hnot
  | call caller call =>
      obtain ⟨-, rfl⟩ := start_of_call hnext
      exact start_not_stranded call hnot
  | resume caller => exact (resumes_of_resume hnext).not_stranded hnot

/-- As long as every worker waits in time, none is stranded, whatever the order
of the steps. -/
theorem none_stranded
    (hreach : ((system Worker Caller Task).restrict WaitsInTime).Reachable pool) :
    ¬ pool.Stranded := by
  have hkept := hreach.invariant
    (fun pool => (pool.isCancelled = true ∨ pool.Unended) ∧ ¬ pool.Stranded) ?_ ?_
  · exact hkept.2
  · rintro start rfl
    refine ⟨.inr ⟨fun _ => rfl, rfl⟩, ?_⟩
    intro hstranded
    obtain ⟨worker, hwaiting⟩ := hstranded.waiting
    contradiction
  · rintro first action last ⟨hfirst, hnot⟩ ⟨hintime, hnext⟩
    exact ⟨cancelled_or_unended_next hfirst hnext, next_not_stranded hnot hfirst hintime hnext⟩

/-- A worker that waits too late is stranded at once. -/
theorem stranded_of_late {worker : Worker} (hlate : ¬ pool.WaitsInTime (.work worker))
    (hnext : pool.next (.work worker) = some after) : after.Stranded := by
  simp only [WaitsInTime, not_forall, not_exists, Bool.not_eq_true] at hlate
  obtain ⟨hpc, htasks, hannounced, hnone⟩ := hlate
  cases works_of_work hnext with
  | waits =>
      refine ⟨hannounced, ?_, worker, if_pos rfl⟩
      intro other
      by_cases hsame : other = worker
      · simp [hsame, relays, worker_setWorker]
      · rw [relays_setWorker hsame, hnone]
  | locked _ _ hne => exact absurd htasks hne
  | tested hother | woken hother | relayed hother | ran hother => cases hpc.symm.trans hother

instance [DecidableEq Task] {workers callers : Nat}
    (pool : ThreadPool (Fin workers) (Fin callers) Task) :
    (action : Action (Fin workers) (Fin callers) Task) → Decidable (pool.WaitsInTime action)
  | .work worker =>
      inferInstanceAs (Decidable (pool.worker worker = .locking → pool.tasks = [] →
        (pool.destroyed = true ∨ ∃ caller, pool.caller caller = .destroying) →
          ∃ other, pool.relays other = true))
  | .call _ _ | .resume _ => isTrue trivial

/-- Worker 1 comes to wait after the broadcast of `endPool`, and the broadcast of
worker 0 wakes it. -/
theorem relayedWait_notStranded : ∃ pool : ThreadPool (Fin 2) (Fin 1) Nat, ¬ pool.Stranded ∧
    pool.caller 0 = .destroying ∧ pool.worker 0 = .finished ∧ pool.worker 1 = .woken := by
  obtain ⟨pool, hreach, hend⟩ := Lts.exists_restricted_of_exec
    (initial : ThreadPool (Fin 2) (Fin 1) Nat) next WaitsInTime
    (fun pool => pool.caller 0 = .destroying ∧ pool.worker 0 = .finished ∧
      pool.worker 1 = .woken)
    [.work 0, .work 0, .work 1, .call 0 .endPool, .resume 0, .resume 0, .resume 0, .work 1,
      .work 0, .work 0] (by decide)
  exact ⟨pool, none_stranded hreach, hend⟩

/-- The only worker has found the pool not cancelled, `endPool` sets the flag and
broadcasts, and then the worker locks the mutex and waits. -/
theorem lateWait_stranded : ∃ pool : ThreadPool (Fin 1) (Fin 1) Nat,
    (system (Fin 1) (Fin 1) Nat).Reachable pool ∧ pool.Stranded := by
  obtain ⟨pool, hreach, hending, hwaiting⟩ := Lts.exists_reachable_of_exec
    (initial : ThreadPool (Fin 1) (Fin 1) Nat) next
    (fun pool => pool.caller 0 = .destroying ∧ pool.worker 0 = .waiting)
    [.work 0, .call 0 .endPool, .resume 0, .resume 0, .resume 0, .work 0] (by decide)
  refine ⟨pool, hreach, .inr ⟨0, hending⟩, ?_, 0, hwaiting⟩
  intro worker
  rw [Subsingleton.elim worker 0]
  simp [relays, hwaiting]

end ZtHttp.ThreadPool
