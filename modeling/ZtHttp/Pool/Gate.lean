import ZtHttp.Pool.Laws

/-!
# The gate of the pool

`enqueue` tests `isWaited` before it locks the mutex, and `reStart` tests
`isCancelled` before it clears `isWaited`. What was tested may be outdated when
it is acted upon: a push can come after `waitPool` has found the list empty, and
the gate can be opened after `endPool` has closed it.
-/

namespace ZtHttp

/-- The caller is in `endPool`, behind `isCancelled=1`. -/
def CallerPc.hasCancelled {Task : Type} : CallerPc Task → Bool
  | .announcing | .destroying => true
  | _ => false

namespace ThreadPool

open Transition

variable {Worker Caller Task : Type}

/-- The gate is closed, and no `reStart` is about to open it. -/
structure Shut (pool : ThreadPool Worker Caller Task) : Prop where
  isWaited : pool.isWaited = true
  closing : ∀ caller, pool.caller caller ≠ .reopening

/-- No `enqueue` stands between its test of `isWaited` and its push. -/
def NonePushing (pool : ThreadPool Worker Caller Task) : Prop :=
  ∀ caller task, pool.caller caller ≠ .pushing task

/-- The step is no call of `reStart`. -/
def NoReStart (_ : ThreadPool Worker Caller Task) : Action Worker Caller Task → Prop
  | .call _ .reStart => False
  | _ => True

/-- No `endPool` has come to its broadcast. -/
structure Unended (pool : ThreadPool Worker Caller Task) : Prop where
  caller : ∀ caller, (pool.caller caller).hasCancelled = false
  destroyed : pool.destroyed = false

/-! ### The flags -/

section

variable [DecidableEq Caller] {pool after : ThreadPool Worker Caller Task} {caller : Caller}
  {pc : CallerPc Task}

theorem caller_setCaller (other : Caller) : (pool.setCaller caller pc).caller other =
    if other = caller then pc else pool.caller other := rfl

theorem isOutside_setCaller (returned : Option Int) :
    (pool.setCaller caller (.outside returned)).isOutside caller = true := by
  simp [isOutside, caller_setCaller]

/-- What holds of the caller that moves and held of all, holds of all. -/
theorem forall_setCaller (property : CallerPc Task → Prop) (hpc : property pc)
    (hothers : ∀ other, property (pool.caller other)) (other : Caller) :
    property ((pool.setCaller caller pc).caller other) := by
  rw [caller_setCaller]
  split
  · exact hpc
  · exact hothers other

theorem Shut.setCaller (hshut : pool.Shut) (hpc : pc ≠ .reopening) :
    (pool.setCaller caller pc).Shut where
  isWaited := hshut.isWaited
  closing := forall_setCaller (fun pc => pc ≠ .reopening) hpc hshut.closing

/-- What holds of all and held of the caller that moved, held of all. -/
theorem of_forall_setCaller (property : CallerPc Task → Prop)
    (hlater : ∀ other, property ((pool.setCaller caller pc).caller other))
    (hcaller : property (pool.caller caller)) (other : Caller) : property (pool.caller other) := by
  have hother := hlater other
  rw [caller_setCaller] at hother
  split at hother
  · next hsame => rw [hsame]; exact hcaller
  · exact hother

theorem Shut.resumes (hshut : pool.Shut) (hresumes : Resumes pool caller after) : after.Shut := by
  cases hresumes with
  | polled hpc hintact htasks => exact hshut
  | @emptied ending hpc hintact htasks =>
      apply hshut.setCaller
      split <;> simp
  | reopened hpc => exact absurd hpc (hshut.closing caller)
  | pushed | signalled | cancelled | announced | ended =>
      exact ⟨hshut.isWaited, (hshut.setCaller (by simp)).closing⟩

/-- Only a `reStart` that finds the pool not cancelled comes to open the gate. -/
theorem Shut.start {call : Call Task} (hshut : pool.Shut)
    (hcall : call ≠ .reStart ∨ pool.isCancelled = true) : (pool.start caller call).Shut := by
  cases call with
  | enqueue task =>
      apply hshut.setCaller
      rw [hshut.isWaited]
      simp
  | reStart =>
      apply hshut.setCaller
      rw [hcall.resolve_left (by simp)]
      simp
  | waitPool | endPool => exact ⟨rfl, (hshut.setCaller (by simp)).closing⟩

theorem NonePushing.setCaller {pc : CallerPc Task} (hnone : pool.NonePushing)
    (hpc : ∀ task, pc ≠ .pushing task) : (pool.setCaller caller pc).NonePushing :=
  forall_setCaller (fun pc => ∀ task, pc ≠ .pushing task) hpc hnone

theorem NonePushing.of_setCaller (hnone : (pool.setCaller caller pc).NonePushing)
    (hcaller : ∀ task, pool.caller caller ≠ .pushing task) : pool.NonePushing :=
  of_forall_setCaller (fun pc => ∀ task, pc ≠ .pushing task) hnone hcaller

theorem Unended.setCaller (hunended : pool.Unended) (hpc : pc.hasCancelled = false) :
    (pool.setCaller caller pc).Unended where
  caller := forall_setCaller (fun pc => pc.hasCancelled = false) hpc hunended.caller
  destroyed := hunended.destroyed

variable [DecidableEq Worker] {action : Action Worker Caller Task}

theorem Shut.next (hshut : pool.Shut) (haction : pool.NoReStart action ∨ pool.isCancelled = true)
    (hnext : pool.next action = some after) : after.Shut := by
  cases action with
  | work worker =>
      have hleaves := (works_of_work hnext).leavesGate
      refine ⟨hleaves.isWaited.trans hshut.isWaited, ?_⟩
      rw [hleaves.caller]
      exact hshut.closing
  | call caller call =>
      obtain ⟨-, rfl⟩ := start_of_call hnext
      apply hshut.start
      refine haction.imp_left ?_
      rintro hno rfl
      exact hno
  | resume caller => exact hshut.resumes (resumes_of_resume hnext)

/-- A `reStart` that has passed its test opens the gate. -/
theorem next_reopening (hreopening : pool.caller caller = .reopening) :
    pool.next (.resume caller) =
      some ({ pool with isWaited := false }.setCaller caller (.outside (some 0))) := by
  simp [ThreadPool.next, resume, hreopening]

/-- `isCancelled` is never cleared. -/
theorem next_isCancelled (hcancelled : pool.isCancelled = true)
    (hnext : pool.next action = some after) : after.isCancelled = true := by
  cases action with
  | work worker => exact (works_of_work hnext).leavesGate.isCancelled.trans hcancelled
  | call caller call =>
      obtain ⟨-, rfl⟩ := start_of_call hnext
      cases call <;> exact hcancelled
  | resume caller => cases resumes_of_resume hnext <;> first | exact hcancelled | rfl

/-- `endPool` sets the flag before it goes on to its broadcast. -/
theorem Unended.next (hunended : pool.Unended) (hnext : pool.next action = some after) :
    after.isCancelled = true ∨ after.Unended := by
  cases action with
  | work worker =>
      have hleaves := (works_of_work hnext).leavesGate
      refine .inr ⟨?_, hleaves.destroyed.trans hunended.destroyed⟩
      rw [hleaves.caller]
      exact hunended.caller
  | call caller call =>
      obtain ⟨-, rfl⟩ := start_of_call hnext
      right
      cases call with
      | enqueue task | reStart =>
          apply hunended.setCaller
          split <;> rfl
      | waitPool | endPool => exact ⟨(hunended.setCaller rfl).caller, hunended.destroyed⟩
  | resume caller =>
      have hcaller := hunended.caller caller
      cases resumes_of_resume hnext with
      | pushed | signalled | reopened =>
          exact .inr ⟨(hunended.setCaller rfl).caller, hunended.destroyed⟩
      | polled hpc hintact htasks => exact .inr hunended
      | emptied hpc hintact htasks =>
          right
          apply hunended.setCaller
          split <;> rfl
      | cancelled hpc => exact .inl rfl
      | announced hpc hintact | ended hpc hintact =>
          rw [hpc] at hcaller
          contradiction

theorem cancelled_or_unended_next (hfirst : pool.isCancelled = true ∨ pool.Unended)
    (hnext : pool.next action = some after) : after.isCancelled = true ∨ after.Unended := by
  rcases hfirst with hcancelled | hunended
  · exact .inl (next_isCancelled hcancelled hnext)
  · exact hunended.next hnext

theorem cancelled_or_unended (hreach : (system Worker Caller Task).Reachable pool) :
    pool.isCancelled = true ∨ pool.Unended := by
  refine hreach.invariant (fun pool => pool.isCancelled = true ∨ pool.Unended) ?_
    fun _ _ _ => cancelled_or_unended_next
  rintro start rfl
  exact .inr ⟨fun _ => rfl, rfl⟩

end

/-! ### After `waitPool` -/

section

variable [DecidableEq Worker] [DecidableEq Caller] {pool after : ThreadPool Worker Caller Task}
  {caller : Caller} {action : Action Worker Caller Task}

/-- Until `reStart` is called the list stays empty, and nothing is pushed. -/
def StaysClosed (pool : ThreadPool Worker Caller Task) : Prop :=
  ∀ actions last, ((system Worker Caller Task).restrict NoReStart).Run pool actions last →
    last.tasks = [] ∧ last.enqueued = pool.enqueued

/-- Nothing is queued, and nothing can come to be. -/
structure Closed (pool : ThreadPool Worker Caller Task) : Prop where
  shut : pool.Shut
  nonePushing : pool.NonePushing
  tasks : pool.tasks = []

theorem Closed.next (hclosed : pool.Closed) (hno : pool.NoReStart action)
    (hnext : pool.next action = some after) : after.Closed ∧ after.enqueued = pool.enqueued := by
  obtain ⟨hshut, hnone, htasks⟩ := hclosed
  have hlater := hshut.next (.inl hno) hnext
  cases action with
  | work worker =>
      have hleaves := (works_of_work hnext).leavesGate
      refine ⟨⟨hlater, ?_, hleaves.tasks htasks⟩, hleaves.enqueued⟩
      unfold NonePushing
      rw [hleaves.caller]
      exact hnone
  | call caller call =>
      obtain ⟨-, rfl⟩ := start_of_call hnext
      cases call with
      | enqueue task =>
          refine ⟨⟨hlater, hnone.setCaller ?_, htasks⟩, rfl⟩
          rw [hshut.isWaited]
          simp
      | waitPool | endPool =>
          refine ⟨⟨hlater, ?_, htasks⟩, rfl⟩
          exact forall_setCaller (fun pc => ∀ task, pc ≠ .pushing task) (by simp) hnone
      | reStart => exact hno.elim
  | resume caller =>
      have hmoves : ∀ pc : CallerPc Task, (∀ task, pc ≠ .pushing task) →
          ∀ other task, (pool.setCaller caller pc).caller other ≠ .pushing task :=
        fun pc hpc => hnone.setCaller hpc
      cases resumes_of_resume hnext with
      | pushed hpc hintact => exact absurd hpc (hnone caller _)
      | polled => exact ⟨⟨hlater, hnone, htasks⟩, rfl⟩
      | emptied =>
          refine ⟨⟨hlater, hmoves _ ?_, htasks⟩, rfl⟩
          split <;> simp
      | reopened hpc => exact absurd hpc (hshut.closing caller)
      | signalled | cancelled | announced | ended =>
          exact ⟨⟨hlater, hmoves _ (by simp), htasks⟩, rfl⟩

theorem Closed.staysClosed (hclosed : pool.Closed) : pool.StaysClosed := by
  intro actions last hrun
  have hlast := hrun.preserves (fun last => last.Closed ∧ last.enqueued = pool.enqueued) ?_
    ⟨hclosed, rfl⟩
  · exact ⟨hlast.1.tasks, hlast.2⟩
  · rintro first action next ⟨hfirst, hsame⟩ ⟨hno, hnext⟩
    obtain ⟨hlater, hpushed⟩ := hfirst.next hno hnext
    exact ⟨hlater, hpushed.trans hsame⟩

theorem StaysClosed.next (hstays : pool.StaysClosed) (hno : pool.NoReStart action)
    (hnext : pool.next action = some after) : after.StaysClosed := by
  intro actions last hrun
  obtain ⟨-, hsame⟩ := hstays [action] after (.cons ⟨hno, hnext⟩ (.nil _))
  obtain ⟨htasks, hpushed⟩ := hstays (action :: actions) last (.cons ⟨hno, hnext⟩ hrun)
  exact ⟨htasks, hpushed.trans hsame.symm⟩

/-- A caller that is about to push does so. -/
theorem StaysClosed.nonePushing (hstays : pool.StaysClosed) (hintact : pool.destroyed = false) :
    pool.NonePushing := by
  intro caller task hpushing
  have hresume : pool.next (.resume caller) = some { pool.setCaller caller .signalling with
      tasks := pool.tasks ++ [task]
      enqueued := pool.enqueued ++ [task] } := by
    simp [ThreadPool.next, resume, hpushing, hintact]
  obtain ⟨htasks, -⟩ := hstays [.resume caller] _ (.cons ⟨trivial, hresume⟩ (.nil _))
  simp at htasks

/-- Where the gate is open, the next `enqueue` pushes. -/
theorem StaysClosed.isWaited [Inhabited Task] (hstays : pool.StaysClosed)
    (hintact : pool.destroyed = false) (houtside : pool.isOutside caller = true) :
    pool.isWaited = true := by
  rw [← Bool.not_eq_false]
  intro hopen
  have hcall : pool.next (.call caller (.enqueue default)) =
      some (pool.setCaller caller (.pushing default)) := by
    simp [ThreadPool.next, start, houtside, hopen]
  have hno : pool.NoReStart (.call caller (.enqueue default)) := trivial
  refine (hstays.next hno hcall).nonePushing hintact caller default ?_
  rw [caller_setCaller, if_pos rfl]

theorem StaysClosed.shut [Inhabited Task] (hstays : pool.StaysClosed)
    (hintact : pool.destroyed = false) (houtside : pool.isOutside caller = true) : pool.Shut := by
  refine ⟨hstays.isWaited hintact houtside, ?_⟩
  intro other hreopening
  have hno : pool.NoReStart (.resume other) := trivial
  have hclosed := (hstays.next hno (next_reopening hreopening)).isWaited hintact
    (isOutside_setCaller _)
  contradiction

/-- Where nobody calls `reStart`, `waitPool` finds the gate as it left it. -/
theorem shut_of_polling {ending : Bool}
    (hreach : ((system Worker Caller Task).restrict NoReStart).Reachable pool)
    (hpolling : pool.caller caller = .polling ending) : pool.Shut := by
  have hkept := hreach.invariant (fun pool => pool.Shut ∨
    ∀ caller, pool.caller caller ≠ .reopening ∧ ∀ ending, pool.caller caller ≠ .polling ending)
    ?_ ?_
  · exact hkept.resolve_right fun hnone => (hnone caller).2 ending hpolling
  · rintro start rfl
    exact .inr fun _ => by simp [initial]
  · rintro first action last (hshut | hnone) ⟨hno, hnext⟩
    · exact .inl (hshut.next (.inl hno) hnext)
    · -- before the first `waitPool`
      have hmoves : ∀ (caller : Caller) (pc : CallerPc Task),
          (pc ≠ .reopening ∧ ∀ ending, pc ≠ .polling ending) → ∀ other,
          (first.setCaller caller pc).caller other ≠ .reopening ∧
            ∀ ending, (first.setCaller caller pc).caller other ≠ .polling ending :=
        fun _ _ hpc => forall_setCaller
          (fun pc => pc ≠ .reopening ∧ ∀ ending, pc ≠ .polling ending) hpc hnone
      cases action with
      | work worker =>
          right
          rw [(works_of_work hnext).leavesGate.caller]
          exact hnone
      | call caller call =>
          obtain ⟨-, rfl⟩ := start_of_call hnext
          cases call with
          | enqueue task =>
              right
              apply hmoves
              split <;> simp
          | reStart => exact hno.elim
          | waitPool | endPool =>
              refine .inl ⟨rfl, ?_⟩
              exact forall_setCaller (fun pc => pc ≠ .reopening) (by simp) fun other =>
                (hnone other).1
      | resume caller =>
          cases resumes_of_resume hnext with
          | polled hpc | emptied hpc => exact absurd hpc ((hnone caller).2 _)
          | reopened hpc => exact absurd hpc (hnone caller).1
          | pushed | signalled | cancelled | announced | ended =>
              exact .inr (hmoves caller _ (by simp))

/-- The step with which `waitPool` returns. -/
theorem returned_spec (hpolling : pool.caller caller = .polling false)
    (hreturn : pool.next (.resume caller) = some after)
    (hreturned : after.caller caller = .outside (some 0)) :
    pool.destroyed = false ∧ pool.tasks = [] ∧
      after = pool.setCaller caller (.outside (some 0)) := by
  cases resumes_of_resume hreturn with
  | polled hpc hintact htasks =>
      rw [hpolling] at hreturned
      contradiction
  | emptied hpc hintact htasks =>
      cases hpolling.symm.trans hpc
      exact ⟨hintact, htasks, rfl⟩
  | pushed hpc | signalled hpc | reopened hpc | cancelled hpc | announced hpc | ended hpc =>
      cases hpolling.symm.trans hpc

/-- After `waitPool` has returned 0, the list stays empty and nothing is pushed
until `reStart` is called, if and only if at its last look at the list the gate
was closed, no `reStart` was about to open it and no `enqueue` stood between its
test and its push. -/
theorem returned_staysClosed_iff [Inhabited Task]
    (hpolling : pool.caller caller = .polling false)
    (hreturn : pool.next (.resume caller) = some after)
    (hreturned : after.caller caller = .outside (some 0)) :
    after.StaysClosed ↔ pool.Shut ∧ pool.NonePushing := by
  obtain ⟨hintact, htasks, rfl⟩ := returned_spec hpolling hreturn hreturned
  constructor
  · intro hstays
    have hshut := hstays.shut hintact (isOutside_setCaller _)
    refine ⟨⟨hshut.isWaited, ?_⟩,
      (hstays.nonePushing hintact).of_setCaller (by simp [hpolling])⟩
    exact of_forall_setCaller (fun pc => pc ≠ .reopening) hshut.closing (by simp [hpolling])
  · rintro ⟨hshut, hnone⟩
    apply Closed.staysClosed
    exact ⟨hshut.setCaller (by simp), hnone.setCaller (by simp), htasks⟩

end

/-- An `enqueue` that has pushed and returned, and then `waitPool`. -/
theorem pushedBefore_staysClosed : ∃ pool after : ThreadPool Unit (Fin 2) Nat,
    (system Unit (Fin 2) Nat).Reachable pool ∧ pool.next (.resume 1) = some after ∧
      after.enqueued = [1] ∧ after.StaysClosed := by
  obtain ⟨pool, hreach, hfirst, hpolling, hwaited, hintact, htasks, hpushed⟩ :=
    Lts.exists_reachable_of_exec (initial : ThreadPool Unit (Fin 2) Nat) next
      (fun pool => pool.caller 0 = .outside (some 0) ∧ pool.caller 1 = .polling false ∧
        pool.isWaited = true ∧ pool.destroyed = false ∧ pool.tasks = [] ∧ pool.enqueued = [1])
      [.call 0 (.enqueue 1), .resume 0, .resume 0, .work (), .work (), .call 1 .waitPool]
      (by decide)
  have hreturn : pool.next (.resume 1) = some (pool.setCaller 1 (.outside (some 0))) := by
    simp [next, resume, hpolling, hintact, htasks]
  have hcallers : ∀ caller, pool.caller caller = .outside (some 0) ∨
      pool.caller caller = .polling false := by
    rw [Fin.forall_fin_two]
    exact ⟨.inl hfirst, .inr hpolling⟩
  refine ⟨pool, _, hreach, hreturn, hpushed,
    (returned_staysClosed_iff hpolling hreturn rfl).mpr ⟨⟨hwaited, ?_⟩, ?_⟩⟩
  · intro caller
    rcases hcallers caller with hpc | hpc <;> simp [hpc]
  · intro caller task
    rcases hcallers caller with hpc | hpc <;> simp [hpc]

/-- An `enqueue` has tested the gate, `waitPool` runs from its first line to its
return, and then the `enqueue` pushes. -/
theorem straddledWait_pushes : ∃ pool after : ThreadPool Unit (Fin 2) Nat,
    (system Unit (Fin 2) Nat).Reachable pool ∧ pool.caller 1 = .polling false ∧
      pool.next (.resume 1) = some after ∧ after.caller 1 = .outside (some 0) ∧
      ¬ after.StaysClosed := by
  obtain ⟨pool, hreach, hpushing, hpolling, hintact, htasks⟩ :=
    Lts.exists_reachable_of_exec (initial : ThreadPool Unit (Fin 2) Nat) next
      (fun pool => pool.caller 0 = .pushing 1 ∧ pool.caller 1 = .polling false ∧
        pool.destroyed = false ∧ pool.tasks = [])
      [.call 0 (.enqueue 1), .call 1 .waitPool] (by decide)
  have hreturn : pool.next (.resume 1) = some (pool.setCaller 1 (.outside (some 0))) := by
    simp [next, resume, hpolling, hintact, htasks]
  refine ⟨pool, _, hreach, hpolling, hreturn, rfl, ?_⟩
  intro hstays
  exact hstays.nonePushing hintact 0 1 hpushing

/-! ### After `endPool` -/

section

variable [DecidableEq Caller] {pool after : ThreadPool Worker Caller Task} {caller : Caller}

/-- `enqueue` and `reStart` return -1 at once and touch nothing. -/
def TurnsAway (pool : ThreadPool Worker Caller Task) : Prop :=
  ∀ caller, pool.isOutside caller = true →
    (∀ task, pool.start caller (.enqueue task) = pool.setCaller caller (.outside (some (-1)))) ∧
      pool.start caller .reStart = pool.setCaller caller (.outside (some (-1)))

theorem turnsAway (hwaited : pool.isWaited = true) (hcancelled : pool.isCancelled = true) :
    pool.TurnsAway := by
  intro caller houtside
  simp [start, hwaited, hcancelled]

theorem TurnsAway.isWaited [Inhabited Task] (haway : pool.TurnsAway)
    (houtside : pool.isOutside caller = true) : pool.isWaited = true := by
  rw [← Bool.not_eq_false]
  intro hopen
  have hpushing := congrArg (fun pool => pool.caller caller) ((haway caller houtside).1 default)
  simp [start, hopen, caller_setCaller] at hpushing

variable [DecidableEq Worker]

/-- From here on the pool turns everything away. -/
def StaysEnded (pool : ThreadPool Worker Caller Task) : Prop :=
  ∀ actions last, (system Worker Caller Task).Run pool actions last → last.TurnsAway

theorem StaysEnded.shut [Inhabited Task] (hstays : pool.StaysEnded)
    (houtside : pool.isOutside caller = true) : pool.Shut := by
  refine ⟨(hstays [] _ (.nil _)).isWaited houtside, ?_⟩
  intro other hreopening
  have hopen := hstays [.resume other] _ (.cons (next_reopening hreopening) (.nil _))
  have hwaited := hopen.isWaited (isOutside_setCaller _)
  contradiction

/-- Once `endPool` has returned, every later `enqueue` and every later `reStart`
returns -1 and touches nothing, if and only if the gate was closed at its return
and no `reStart` was about to open it. -/
theorem ended_staysEnded_iff [Inhabited Task] (hreach : (system Worker Caller Task).Reachable pool)
    (hending : pool.caller caller = .destroying)
    (hreturn : pool.next (.resume caller) = some after) : after.StaysEnded ↔ pool.Shut := by
  have hcancelled : pool.isCancelled = true := by
    rcases cancelled_or_unended hreach with hcancelled | hunended
    · exact hcancelled
    · have hcaller := hunended.caller caller
      rw [hending] at hcaller
      contradiction
  constructor
  · intro hstays
    cases resumes_of_resume hreturn with
    | ended hpc hintact =>
        have hshut := hstays.shut (isOutside_setCaller _)
        refine ⟨hshut.isWaited, ?_⟩
        exact of_forall_setCaller (fun pc => pc ≠ .reopening) hshut.closing (by simp [hending])
    | pushed hpc | signalled hpc | polled hpc | emptied hpc | reopened hpc | cancelled hpc
    | announced hpc => cases hending.symm.trans hpc
  · intro hshut actions last hrun
    have hlast := hrun.preserves (fun last => last.Shut ∧ last.isCancelled = true) ?_
      ⟨hshut.next (.inr hcancelled) hreturn, next_isCancelled hcancelled hreturn⟩
    · exact turnsAway hlast.1.isWaited hlast.2
    · rintro first action next ⟨hfirst, hset⟩ hnext
      exact ⟨hfirst.next (.inr hset) hnext, next_isCancelled hset hnext⟩

end

/-- `endPool` with no other call meanwhile. -/
theorem quietEnd_staysEnded : ∃ pool after : ThreadPool Unit (Fin 1) Nat,
    (system Unit (Fin 1) Nat).Reachable pool ∧ pool.next (.resume 0) = some after ∧
      after.caller 0 = .outside (some 0) ∧ after.StaysEnded := by
  obtain ⟨pool, hreach, hending, hwaited, hintact⟩ :=
    Lts.exists_reachable_of_exec (initial : ThreadPool Unit (Fin 1) Nat) next
      (fun pool => pool.caller 0 = .destroying ∧ pool.isWaited = true ∧ pool.destroyed = false)
      [.call 0 .endPool, .resume 0, .resume 0, .resume 0] (by decide)
  have hreturn : pool.next (.resume 0) =
      some ({ pool with destroyed := true }.setCaller 0 (.outside (some 0))) := by
    simp [next, resume, hending, hintact]
  refine ⟨pool, _, hreach, hreturn, rfl,
    (ended_staysEnded_iff hreach hending hreturn).mpr ⟨hwaited, ?_⟩⟩
  intro caller
  rw [Subsingleton.elim caller 0, hending]
  simp

/-- `reStart` runs between the `waitPool` of `endPool` and `isCancelled=1`. After
`endPool` has returned the pool is cancelled and destroyed, and its gate is
open. -/
theorem reopenedEnd_accepts : ∃ pool after : ThreadPool Unit (Fin 2) Nat,
    (system Unit (Fin 2) Nat).Reachable pool ∧ pool.caller 1 = .destroying ∧
      pool.next (.resume 1) = some after ∧ after.start 0 (.enqueue 1) =
        after.setCaller 0 (.pushing 1) ∧ ¬ after.StaysEnded := by
  obtain ⟨pool, hreach, hfirst, hending, hopen, hintact⟩ :=
    Lts.exists_reachable_of_exec (initial : ThreadPool Unit (Fin 2) Nat) next
      (fun pool => pool.caller 0 = .outside (some 0) ∧ pool.caller 1 = .destroying ∧
        pool.isWaited = false ∧ pool.destroyed = false)
      [.call 1 .endPool, .resume 1, .call 0 .reStart, .resume 0, .resume 1, .resume 1] (by decide)
  have hreturn : pool.next (.resume 1) =
      some ({ pool with destroyed := true }.setCaller 1 (.outside (some 0))) := by
    simp [next, resume, hending, hintact]
  refine ⟨pool, _, hreach, hending, hreturn, ?_, ?_⟩
  · have hgate : ({ pool with destroyed := true }.setCaller 1 (.outside (some 0))).isWaited =
        false := hopen
    rw [start, hgate]
    simp
  · intro hstays
    have hwaited := (hstays.shut (isOutside_setCaller _)).isWaited
    change pool.isWaited = true at hwaited
    rw [hopen] at hwaited
    contradiction

end ThreadPool

end ZtHttp
