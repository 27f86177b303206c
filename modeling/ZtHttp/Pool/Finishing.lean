import ZtHttp.Pool.Draining
import ZtHttp.Pool.Workers

/-!
# Whether the workers finish

Behind its broadcast `endPool` sleeps for five seconds and then destroys the mutex and
the condition: it does not join the threads. In that time the workers are alone with
the flag that tells them to finish. Every one of their steps brings them nearer to the
end, but a worker that comes to wait behind the last broadcast stays there.
-/

namespace ZtHttp

/-- The steps of a worker until it finishes or is stuck. -/
def WorkerPc.toFinish {Task : Type} : WorkerPc Task → Nat
  | .locking => 4
  | .waiting => 3
  | .woken | .running _ => 2
  | .relaying | .testing => 1
  | .undefined | .finished => 0

/-- The steps of `runThread` in a pool that is cancelled, but for the broadcast. -/
inductive WorkerPc.Leaves {Task : Type} (empty : Prop) : WorkerPc Task → WorkerPc Task → Prop
  | tested : Leaves empty .testing .finished
  | waits : empty → Leaves empty .locking .waiting
  | locked : ¬ empty → Leaves empty .locking .relaying
  | woken : Leaves empty .woken .relaying
  | ran (task : Task) : Leaves empty (.running task) .testing

section

variable {Task : Type} {empty : Prop} {pc next : WorkerPc Task}

theorem WorkerPc.Leaves.toFinish_lt (hleaves : WorkerPc.Leaves empty pc next) :
    next.toFinish < pc.toFinish := by
  cases hleaves <;> simp [WorkerPc.toFinish]

/-- Nobody goes to lock the mutex any more, and nobody is lost. -/
theorem WorkerPc.Leaves.next_ne (hleaves : WorkerPc.Leaves empty pc next) :
    pc ≠ .undefined ∧ next ≠ .undefined ∧ next ≠ .locking := by
  cases hleaves <;> simp

theorem WorkerPc.toFinish_wake_le (pc : WorkerPc Task) : pc.wake.toFinish ≤ pc.toFinish := by
  cases pc <;> simp [WorkerPc.wake, WorkerPc.toFinish]

theorem WorkerPc.wake_eq_locking : pc.wake = .locking ↔ pc = .locking := by
  cases pc <;> simp [WorkerPc.wake]

end

namespace ThreadPool

open Transition

variable {Worker Caller Task : Type} {pool after : ThreadPool Worker Caller Task}
  {worker : Worker}

/-- `isCancelled` is set, and the mutex is there. -/
structure Leaving (pool : ThreadPool Worker Caller Task) : Prop where
  cancelled : pool.isCancelled = true
  intact : pool.destroyed = false

/-- Nobody is lost, nobody can come to wait, and who waits will be woken. -/
structure WillFinish (pool : ThreadPool Worker Caller Task) : Prop where
  safe : pool.Safe
  locking : pool.tasks = [] → ∀ worker, pool.worker worker ≠ .locking
  relayed : (∃ worker, pool.relays worker = true) ∨ ∀ worker, pool.worker worker ≠ .waiting

/-- Somebody is lost, or waits for a broadcast that nobody has to make. -/
def Stays (pool : ThreadPool Worker Caller Task) : Prop :=
  ¬ pool.Safe ∨ (∀ worker, pool.relays worker = false) ∧ ∃ worker, pool.worker worker = .waiting

theorem Stays.not_finished (hstays : pool.Stays) : ∃ worker, pool.worker worker ≠ .finished := by
  rcases hstays with hlost | ⟨-, worker, hwaiting⟩
  · simp only [Safe, not_forall, ne_eq, not_not] at hlost
    obtain ⟨worker, hundefined⟩ := hlost
    exact ⟨worker, by simp [hundefined]⟩
  · exact ⟨worker, by simp [hwaiting]⟩

/-! ### One step -/

section

variable [DecidableEq Worker]

theorem Leaving.leaves (hleaving : pool.Leaving) (hworks : Works pool worker after) :
    (∃ pc next, pool.worker worker = pc ∧ WorkerPc.Leaves (pool.tasks = []) pc next ∧
      after = pool.setWorker worker next) ∨
    (pool.worker worker = .relaying ∧ after = pool.broadcast.setWorker worker .finished) := by
  have hrelays : pool.afterWait worker = pool.setWorker worker .relaying := by
    rw [afterWait, if_pos hleaving.cancelled]
  cases hworks with
  | tested hpc =>
      rw [if_pos hleaving.cancelled]
      exact .inl ⟨_, _, hpc, .tested, rfl⟩
  | waits hpc _ htasks => exact .inl ⟨_, _, hpc, .waits htasks, rfl⟩
  | locked hpc _ htasks => exact .inl ⟨_, _, hpc, .locked htasks, hrelays⟩
  | woken hpc => exact .inl ⟨_, _, hpc, .woken, hrelays⟩
  | relayed hpc => exact .inr ⟨hpc, rfl⟩
  | ran hpc => exact .inl ⟨_, _, hpc, .ran _, rfl⟩

theorem Leaving.work (hleaving : pool.Leaving) (hwork : pool.work worker = some after) :
    after.Leaving ∧ after.tasks = pool.tasks := by
  have hworks := works_of_work hwork
  have hleaves := hworks.leavesGate
  refine ⟨⟨hleaves.isCancelled.trans hleaving.cancelled,
    hleaves.destroyed.trans hleaving.intact⟩, ?_⟩
  rcases hleaving.leaves hworks with ⟨pc, next, -, -, rfl⟩ | ⟨-, rfl⟩ <;> rfl

/-- A worker that has no step to take. -/
theorem Leaving.at_rest (hleaving : pool.Leaving) (hnone : pool.work worker = none) :
    pool.worker worker = .waiting ∨ pool.worker worker = .undefined ∨
      pool.worker worker = .finished := by
  unfold ThreadPool.work at hnone
  cases hpc : pool.worker worker with
  | waiting => exact .inl rfl
  | undefined => exact .inr (.inl rfl)
  | finished => exact .inr (.inr rfl)
  | testing | running task => simp [hpc] at hnone
  | woken | relaying => simp [hpc, hleaving.intact] at hnone
  | locking =>
      simp only [hpc, hleaving.intact, if_neg Bool.false_ne_true] at hnone
      split at hnone <;> cases hnone

theorem WillFinish.work (hwill : pool.WillFinish) (hleaving : pool.Leaving)
    (hwork : pool.work worker = some after) : after.WillFinish := by
  obtain ⟨hsafe, hlocking, hrelayed⟩ := hwill
  rcases hleaving.leaves (works_of_work hwork) with ⟨pc, next, hpc, hleaves, rfl⟩ | ⟨hpc, rfl⟩
  · obtain ⟨-, hundefined, hnext⟩ := hleaves.next_ne
    refine ⟨(safe_setWorker (hsafe worker) next).mpr ⟨hsafe, hundefined⟩,
      fun htasks => forall_setWorker (fun pc => pc ≠ .locking) hnext (hlocking htasks), ?_⟩
    cases hleaves with
    | waits htasks => exact absurd hpc (hlocking htasks worker)
    | locked | woken => exact .inl ⟨worker, by simp [relays, worker_setWorker]⟩
    | tested | ran =>
        refine hrelayed.imp ?_ (forall_setWorker (fun pc => pc ≠ .waiting) (by simp))
        rintro ⟨other, hother⟩
        have hne : other ≠ worker := by
          rintro rfl
          simp [relays, hpc] at hother
        exact ⟨other, by rw [relays_setWorker hne, hother]⟩
  · -- behind a broadcast nobody waits
    have hbroadcast : pool.broadcast.worker worker ≠ .undefined :=
      safe_broadcast.mpr hsafe worker
    have hlocked : pool.tasks = [] → ∀ other, pool.broadcast.worker other ≠ .locking :=
      fun htasks other => mt WorkerPc.wake_eq_locking.mp (hlocking htasks other)
    refine ⟨(safe_setWorker hbroadcast _).mpr ⟨safe_broadcast.mpr hsafe, by simp⟩,
      fun htasks => forall_setWorker (fun pc => pc ≠ .locking) (by simp) (hlocked htasks), ?_⟩
    exact .inr (forall_setWorker (fun pc => pc ≠ .waiting) (by simp) (not_waiting_broadcast pool))

theorem Stays.work (hstays : pool.Stays) (hleaving : pool.Leaving)
    (hwork : pool.work worker = some after) : after.Stays := by
  have hworks := works_of_work hwork
  rcases hstays with hlost | ⟨hnone, other, hwaiting⟩
  · exact .inl fun hsafe => hlost (hworks.safe.mp hsafe).1
  · have hworker := hnone worker
    rcases hleaving.leaves hworks with ⟨pc, next, hpc, hleaves, rfl⟩ | ⟨hpc, rfl⟩
    · have hne : other ≠ worker := by
        rintro rfl
        rw [hwaiting] at hpc
        subst hpc
        cases hleaves
      refine .inr ⟨?_, other, by rw [worker_setWorker, if_neg hne, hwaiting]⟩
      intro third
      by_cases hsame : third = worker
      · rw [hsame]
        cases hleaves with
        | tested | waits | ran => simp [relays, worker_setWorker]
        | locked htasks => simp [relays, hpc, htasks] at hworker
        | woken => simp [relays, hpc] at hworker
      · rw [relays_setWorker hsame, hnone]
    · simp [relays, hpc] at hworker

theorem Leaving.locking_work {other : Worker} (hleaving : pool.Leaving) (hne : worker ≠ other)
    (hlocking : pool.worker worker = .locking) (hwork : pool.work other = some after) :
    after.worker worker = .locking := by
  rcases hleaving.leaves (works_of_work hwork) with ⟨pc, next, -, -, rfl⟩ | ⟨-, rfl⟩
  · rw [worker_setWorker, if_neg hne, hlocking]
  · rw [worker_setWorker, if_neg hne]
    exact WorkerPc.wake_eq_locking.mpr hlocking

/-- Where no worker has a step to take, those that will finish have finished. -/
theorem WillFinish.finished_of_stuck (hwill : pool.WillFinish) (hleaving : pool.Leaving)
    (hstuck : ∀ worker, pool.work worker = none) (worker : Worker) :
    pool.worker worker = .finished := by
  have hunrelayed : ¬ ∃ worker, pool.relays worker = true := by
    rintro ⟨other, hother⟩
    rcases hleaving.at_rest (hstuck other) with hpc | hpc | hpc <;> simp [relays, hpc] at hother
  rcases hleaving.at_rest (hstuck worker) with hwaiting | hundefined | hfinished
  · exact absurd hwaiting (hwill.relayed.resolve_left hunrelayed worker)
  · exact absurd hundefined (hwill.safe worker)
  · exact hfinished

end

/-! ### The whole run -/

section

variable [Fintype Worker]

/-- The steps of the workers until each has finished or is stuck. -/
def toFinish (pool : ThreadPool Worker Caller Task) : Nat :=
  ∑ worker, (pool.worker worker).toFinish

theorem toFinish_le (pool : ThreadPool Worker Caller Task) :
    pool.toFinish ≤ 4 * Fintype.card Worker := by
  have hsum : pool.toFinish ≤ Fintype.card Worker * 4 := by
    refine Finset.sum_le_card_nsmul _ _ 4 fun worker _ => ?_
    cases pool.worker worker <;> simp only [WorkerPc.toFinish] <;> omega
  omega

theorem toFinish_broadcast_le (pool : ThreadPool Worker Caller Task) :
    pool.broadcast.toFinish ≤ pool.toFinish :=
  Finset.sum_le_sum fun worker _ => WorkerPc.toFinish_wake_le (pool.worker worker)

variable [DecidableEq Worker] {count : Nat}

theorem Leaving.toFinish_work (hleaving : pool.Leaving) (hwork : pool.work worker = some after) :
    after.toFinish < pool.toFinish := by
  rcases hleaving.leaves (works_of_work hwork) with ⟨pc, next, hpc, hleaves, rfl⟩ | ⟨hpc, rfl⟩
  · have hsum := pool.sum_setWorker WorkerPc.toFinish worker next
    have hless := hleaves.toFinish_lt
    rw [hpc] at hsum
    unfold toFinish
    omega
  · have hsum := pool.broadcast.sum_setWorker WorkerPc.toFinish worker .finished
    have hbroadcast := pool.toFinish_broadcast_le
    have hrelaying : pool.broadcast.worker worker = .relaying := by
      simp [broadcast, hpc, WorkerPc.wake]
    have hone : (WorkerPc.relaying : WorkerPc Task).toFinish = 1 := rfl
    have hzero : (WorkerPc.finished : WorkerPc Task).toFinish = 0 := rfl
    rw [hrelaying] at hsum
    unfold toFinish at *
    omega

/-- The others can go on until none of them has a step to take, and leave a worker that
is about to lock the mutex behind. -/
theorem Leaving.exists_last (hleaving : pool.Leaving) (htasks : pool.tasks = [])
    (hlocking : pool.worker worker = .locking) :
    ∃ schedule last, Lts.play ThreadPool.work schedule pool = last ∧
      (last.Leaving ∧ last.tasks = [] ∧ last.worker worker = .locking) ∧
      ∀ other, other ≠ worker → last.work other = none := by
  have hnearer : ∀ late : ThreadPool Worker Caller Task,
      late.Leaving ∧ late.tasks = [] ∧ late.worker worker = .locking →
      (∀ other, other ≠ worker → late.work other = none) ∨
      ∃ other after, late.work other = some after ∧
        (after.Leaving ∧ after.tasks = [] ∧ after.worker worker = .locking) ∧
        after.toFinish < late.toFinish := by
    rintro late ⟨hlate, hempty, hlast⟩
    by_cases hrest : ∀ other, other ≠ worker → late.work other = none
    · exact .inl hrest
    · simp only [not_forall] at hrest
      obtain ⟨other, hne, hsome⟩ := hrest
      obtain ⟨after, hwork⟩ := Option.ne_none_iff_exists'.mp hsome
      obtain ⟨hafter, hsame⟩ := hlate.work hwork
      exact .inr ⟨other, after, hwork,
        ⟨hafter, hsame.trans hempty, hlate.locking_work (Ne.symm hne) hlast hwork⟩,
        hlate.toFinish_work hwork⟩
  obtain ⟨schedule, hlast⟩ := Lts.exists_play _ _ toFinish hnearer ⟨hleaving, htasks, hlocking⟩
  exact ⟨schedule, _, rfl, hlast⟩

/-- A worker that is about to lock the mutex while the list is empty comes to wait
behind all the others in some order of the steps. -/
theorem Leaving.exists_stays (hleaving : pool.Leaving) (htasks : pool.tasks = [])
    (hlocking : pool.worker worker = .locking) :
    ∃ schedule, (Lts.play ThreadPool.work schedule pool).Stays := by
  obtain ⟨front, late, hplay, ⟨hlate, hempty, hlast⟩, hrest⟩ :=
    hleaving.exists_last htasks hlocking
  have hwaits : late.work worker = some (late.setWorker worker .waiting) := by
    simp [ThreadPool.work, hlast, hlate.intact, hempty]
  refine ⟨front ++ [worker], ?_⟩
  rw [Lts.play_append, hplay, Lts.play, hwaits, Option.getD_some, Lts.play]
  refine .inr ⟨fun other => ?_, worker, if_pos rfl⟩
  by_cases hsame : other = worker
  · rw [hsame]
    simp [relays, worker_setWorker]
  · rw [relays_setWorker hsame]
    rcases hlate.at_rest (hrest other hsame) with hpc | hpc | hpc <;> simp [relays, hpc]

/-- Some order of the steps leads to such a state, unless every order avoids it. -/
theorem Leaving.willFinish_or_stays (hleaving : pool.Leaving) :
    pool.WillFinish ∨ ∃ schedule, (Lts.play ThreadPool.work schedule pool).Stays := by
  by_cases hsafe : pool.Safe
  · by_cases hlocking : pool.tasks = [] → ∀ worker, pool.worker worker ≠ .locking
    · by_cases hrelayed : (∃ worker, pool.relays worker = true) ∨
          ∀ worker, pool.worker worker ≠ .waiting
      · exact .inl ⟨hsafe, hlocking, hrelayed⟩
      · simp only [not_or, not_exists, Bool.not_eq_true, not_forall, ne_eq, not_not] at hrelayed
        exact .inr ⟨[], .inr hrelayed⟩
    · simp only [not_forall, ne_eq, not_not] at hlocking
      obtain ⟨htasks, worker, hworker⟩ := hlocking
      exact .inr (hleaving.exists_stays htasks hworker)
  · exact .inr ⟨[], .inl hsafe⟩

/-- While `endPool` sleeps: in every order in which each worker has its turns, all the
workers finish, if and only if none is lost in `back`, none is about to lock the mutex
of an empty list, and those that wait have somebody to wake them. -/
theorem allFinish_iff (hcancelled : pool.isCancelled = true) (hintact : pool.destroyed = false)
    (hcount : 4 * Fintype.card Worker ≤ count) :
    (∀ schedule, Lts.Rounds count schedule → ∀ worker,
      (Lts.play ThreadPool.work schedule pool).worker worker = .finished) ↔ pool.WillFinish := by
  have hleaving : pool.Leaving := ⟨hcancelled, hintact⟩
  constructor
  · intro hfinish
    by_contra hnot
    obtain ⟨front, hstays⟩ := hleaving.willFinish_or_stays.resolve_left hnot
    -- that order can be the beginning of a schedule that is fair to all
    have hrounds := Lts.rounds_replicate (fun worker : Worker =>
      Finset.mem_toList.mpr (Finset.mem_univ worker)) count
    have hfront := @Lts.play_preserves _ _ ThreadPool.work Leaving
      (fun _ _ _ hleaving hwork => (hleaving.work hwork).1) front pool hleaving
    have hlast := @Lts.play_preserves _ _ ThreadPool.work (fun pool => pool.Leaving ∧ pool.Stays)
      (fun _ _ _ hboth hwork => ⟨(hboth.1.work hwork).1, hboth.2.work hboth.1 hwork⟩)
      (List.replicate count Finset.univ.toList).flatten _ ⟨hfront, hstays⟩
    obtain ⟨worker, hworker⟩ := hlast.2.not_finished
    have hfinished := hfinish _ (hrounds.behind front) worker
    rw [Lts.play_append] at hfinished
    exact hworker hfinished
  · intro hwill schedule hrounds
    have hkept : ∀ (state : ThreadPool Worker Caller Task) worker after,
        state.Leaving ∧ state.WillFinish → state.work worker = some after →
        after.Leaving ∧ after.WillFinish :=
      fun _ _ _ hboth hwork => ⟨(hboth.1.work hwork).1, hboth.2.work hboth.1 hwork⟩
    have hstuck := Lts.stuck_of_rounds hkept
      (fun _ _ _ hboth hwork => hboth.1.toFinish_work hwork) hrounds ⟨hleaving, hwill⟩
      (pool.toFinish_le.trans hcount)
    obtain ⟨hlast, hlastWill⟩ := Lts.play_preserves _ hkept schedule ⟨hleaving, hwill⟩
    exact hlastWill.finished_of_stuck hlast hstuck

end

/-- Both workers wait when `endPool` makes its broadcast. -/
theorem bothWoken_finish : ∃ pool : ThreadPool (Fin 2) Unit Nat,
    pool.caller () = .destroying ∧ pool.worker 0 = .woken ∧ pool.worker 1 = .woken ∧
    ∀ schedule, Lts.Rounds 8 schedule → ∀ worker,
      (Lts.play ThreadPool.work schedule pool).worker worker = .finished := by
  obtain ⟨pool, -, hcancelled, hintact, hcaller, hfirst, hsecond⟩ := Lts.exists_reachable_of_exec
    (initial : ThreadPool (Fin 2) Unit Nat) next
    (fun pool => pool.isCancelled = true ∧ pool.destroyed = false ∧
      pool.caller () = .destroying ∧ pool.worker 0 = .woken ∧ pool.worker 1 = .woken)
    [.work 0, .work 0, .work 1, .work 1, .call () .endPool, .resume (), .resume (), .resume ()]
    (by decide)
  have hwill : pool.WillFinish := by
    refine ⟨?_, fun _ => ?_, .inl ⟨0, by simp [relays, hfirst]⟩⟩
    all_goals exact Fin.forall_fin_two.mpr ⟨by simp [hfirst], by simp [hsecond]⟩
  exact ⟨pool, hcaller, hfirst, hsecond, (allFinish_iff hcancelled hintact (by simp)).mpr hwill⟩

end ThreadPool

end ZtHttp
