import Mathlib.Data.List.Nodup
import ZtHttp.Pool.Ending

/-!
# When the workers start a task, and which

`enqueue` broadcasts behind its push, and a worker comes to wait only where the list
is empty, so a task is not left to workers that all sleep. But `back` takes the task
that was pushed last, and a task may be overtaken by all that are pushed after it.
-/

namespace ZtHttp.ThreadPool

open Transition

variable {Worker Caller Task : Type} {pool after : ThreadPool Worker Caller Task}
  {worker : Worker} {caller : Caller}

/-! ### Waking -/

/-- With a task in the list nobody waits, but for an `enqueue` that has still to
broadcast. -/
def Awake (pool : ThreadPool Worker Caller Task) : Prop :=
  pool.tasks ≠ [] → (∃ caller, pool.caller caller = .signalling) ∨
    ∀ worker, pool.worker worker ≠ .waiting

section

variable [DecidableEq Worker]

/-- A worker comes to wait only where the list is empty. -/
theorem Works.not_waiting (hworks : Works pool worker after) (htasks : after.tasks ≠ [])
    (hawake : ∀ other, pool.worker other ≠ .waiting) (other : Worker) :
    after.worker other ≠ .waiting := by
  have hmoves : ∀ pc : WorkerPc Task, pc ≠ .waiting →
      (pool.setWorker worker pc).worker other ≠ .waiting := by
    intro pc hpc
    rw [worker_setWorker]
    split
    · exact hpc
    · exact hawake other
  have hpops : (pool.afterWait worker).worker other ≠ .waiting := by
    unfold afterWait
    split
    · exact hmoves _ nofun
    · unfold popBack
      split <;> exact hmoves _ nofun
  cases hworks with
  | tested =>
      apply hmoves
      split <;> nofun
  | waits hpc hintact hempty => exact absurd hempty htasks
  | locked | woken => exact hpops
  | relayed =>
      rw [worker_setWorker]
      split
      · nofun
      · exact not_waiting_broadcast pool other
  | ran => exact hmoves _ nofun

theorem Awake.works (hawake : pool.Awake) (hworks : Works pool worker after) : after.Awake := by
  intro htasks
  have hleaves := hworks.leavesGate
  rw [hleaves.caller]
  exact (hawake (mt hleaves.tasks htasks)).imp_right fun hnone => hworks.not_waiting htasks hnone

end

section

variable [DecidableEq Caller]

/-- A caller that is not about to broadcast goes on to another point. -/
theorem Awake.setCaller {pc : CallerPc Task} (hawake : pool.Awake)
    (hpc : pool.caller caller ≠ .signalling) : (pool.setCaller caller pc).Awake := by
  intro htasks
  refine (hawake htasks).imp_left ?_
  rintro ⟨other, hother⟩
  have hne : other ≠ caller := by
    rintro rfl
    exact hpc hother
  exact ⟨other, by rw [caller_setCaller, if_neg hne, hother]⟩

theorem Awake.resumes (hawake : pool.Awake) (hresumes : Resumes pool caller after) :
    after.Awake := by
  cases hresumes with
  | pushed => exact fun _ => .inl ⟨caller, by simp [caller_setCaller]⟩
  | signalled | announced => exact fun _ => .inr (not_waiting_broadcast pool)
  | polled => exact hawake
  | emptied hpc | reopened hpc | cancelled hpc | ended hpc =>
      exact hawake.setCaller (by simp [hpc])

theorem Awake.start (hawake : pool.Awake) (houtside : pool.isOutside caller = true)
    (call : Call Task) : (pool.start caller call).Awake := by
  have hpc : pool.caller caller ≠ .signalling := by
    intro hsignalling
    simp [isOutside, hsignalling] at houtside
  cases call with
  | enqueue task | waitPool | reStart | endPool => exact hawake.setCaller hpc

variable [DecidableEq Worker]

theorem awake_step {action : Action Worker Caller Task} (hawake : pool.Awake)
    (hnext : pool.next action = some after) : after.Awake := by
  cases action with
  | work worker => exact hawake.works (works_of_work hnext)
  | call caller call =>
      obtain ⟨houtside, rfl⟩ := start_of_call hnext
      exact hawake.start houtside call
  | resume caller => exact hawake.resumes (resumes_of_resume hnext)

/-- No wakeup is lost: where a task is queued and every `enqueue` has made its
broadcast, no worker waits for one. -/
theorem queued_awake (hreach : (system Worker Caller Task).Reachable pool)
    (htasks : pool.tasks ≠ []) :
    (∃ caller, pool.caller caller = .signalling) ∨ ∀ worker, pool.worker worker ≠ .waiting := by
  refine hreach.invariant Awake ?_ ?_ htasks
  · rintro start rfl htasks
    exact absurd rfl htasks
  · intro first action last hawake hnext
    exact awake_step hawake hnext

end

/-- A task that is pushed while both workers wait. -/
theorem bothWoken_awake : ∃ pool : ThreadPool (Fin 2) Unit Nat,
    pool.worker 0 = .woken ∧ pool.worker 1 = .woken ∧
    ((∃ caller, pool.caller caller = .signalling) ∨ ∀ worker, pool.worker worker ≠ .waiting) := by
  obtain ⟨pool, hreach, htasks, hfirst, hsecond⟩ := Lts.exists_reachable_of_exec
    (initial : ThreadPool (Fin 2) Unit Nat) next
    (fun pool => pool.tasks ≠ [] ∧ pool.worker 0 = .woken ∧ pool.worker 1 = .woken)
    [.work 0, .work 0, .work 1, .work 1, .call () (.enqueue 1), .resume (), .resume ()]
    (by decide)
  exact ⟨pool, hfirst, hsecond, queued_awake hreach htasks⟩

/-! ### Order -/

/-- A worker that comes to pop finds no more than one task. -/
def PopsOnly (pool : ThreadPool Worker Caller Task) : Action Worker Caller Task → Prop
  | .work worker => pool.worker worker = .locking ∨ pool.worker worker = .woken →
      pool.isCancelled = false → pool.tasks.length ≤ 1
  | .call _ _ | .resume _ => True

/-- What is queued was pushed behind what was started. -/
def InOrder (pool : ThreadPool Worker Caller Task) : Prop :=
  pool.started ++ pool.tasks = pool.enqueued

/-- A task was pushed twice, or one was started in the place of another. -/
def Disordered (pool : ThreadPool Worker Caller Task) : Prop :=
  ¬ pool.enqueued.Nodup ∨ ∃ (place : Nat) (task other : Task),
    pool.started[place]? = some task ∧ pool.enqueued[place]? = some other ∧ task ≠ other

/-- What is started and what is pushed is so for good. -/
theorem Disordered.grow (hdisordered : pool.Disordered) (hstarted : pool.started <+: after.started)
    (henqueued : pool.enqueued <+: after.enqueued) : after.Disordered := by
  rcases hdisordered with htwice | ⟨place, task, other, htask, hother, hne⟩
  · exact .inl (mt henqueued.sublist.nodup htwice)
  · obtain ⟨started, hstarted⟩ := hstarted
    obtain ⟨enqueued, henqueued⟩ := henqueued
    refine .inr ⟨place, task, other, ?_, ?_, hne⟩
    · rw [← hstarted, List.getElem?_append_left (List.getElem?_eq_some_iff.mp htask).1, htask]
    · rw [← henqueued, List.getElem?_append_left (List.getElem?_eq_some_iff.mp hother).1, hother]

theorem Disordered.not_prefix (hdisordered : pool.Disordered) (hdistinct : pool.enqueued.Nodup) :
    ¬ pool.started <+: pool.enqueued := by
  rintro ⟨rest, hrest⟩
  rcases hdisordered with htwice | ⟨place, task, other, htask, hother, hne⟩
  · exact htwice hdistinct
  · rw [← hrest, List.getElem?_append_left (List.getElem?_eq_some_iff.mp htask).1, htask] at hother
    exact hne (Option.some.inj hother)

section

variable [DecidableEq Worker]

theorem grows_afterWait (pool : ThreadPool Worker Caller Task) (worker : Worker) :
    pool.started <+: (pool.afterWait worker).started := by
  unfold afterWait
  split
  · exact List.prefix_rfl
  · unfold popBack
    split
    · exact List.prefix_rfl
    · exact List.prefix_append _ _

theorem Works.grows (hworks : Works pool worker after) : pool.started <+: after.started := by
  cases hworks with
  | locked | woken => exact grows_afterWait pool worker
  | tested | waits | relayed | ran => exact List.prefix_rfl

/-- The only task that is queued is the next. -/
theorem InOrder.afterWait (hinorder : pool.InOrder)
    (honly : pool.isCancelled = false → pool.tasks.length ≤ 1) :
    (pool.afterWait worker).InOrder := by
  unfold ThreadPool.afterWait
  split
  · exact hinorder
  · next hrunning =>
      unfold popBack
      cases hlast : pool.tasks.getLast? with
      | none => exact hinorder
      | some task =>
          have htasks : pool.tasks.dropLast ++ [task] = pool.tasks :=
            List.dropLast_append_getLast? task hlast
          have hlength := honly (Bool.not_eq_true _ ▸ hrunning)
          have hnone : pool.tasks.dropLast = [] := by
            apply List.eq_nil_of_length_eq_zero
            rw [List.length_dropLast]
            omega
          rw [hnone, List.nil_append] at htasks
          change pool.started ++ [task] ++ pool.tasks.dropLast = pool.enqueued
          rw [hnone, htasks, List.append_nil]
          exact hinorder

/-- Of several tasks the last is taken, and the first would have been next. -/
theorem InOrder.disordered (hinorder : pool.InOrder) (hrunning : pool.isCancelled = false)
    (hmany : 1 < pool.tasks.length) : (pool.afterWait worker).Disordered := by
  have hne : pool.tasks ≠ [] := List.ne_nil_of_length_pos (by omega)
  have hpop : pool.afterWait worker =
      { pool.setWorker worker (.running (pool.tasks.getLast hne)) with
        tasks := pool.tasks.dropLast
        started := pool.started ++ [pool.tasks.getLast hne] } := by
    rw [ThreadPool.afterWait, hrunning, if_neg Bool.false_ne_true, popBack,
      List.getLast?_eq_some_getLast hne]
  rw [hpop]
  by_cases hdistinct : pool.enqueued.Nodup
  · refine .inr ⟨pool.started.length, pool.tasks.getLast hne, pool.tasks[0], ?_, ?_, ?_⟩
    · exact List.getElem?_concat_length
    · change pool.enqueued[pool.started.length]? = _
      rw [← hinorder, List.getElem?_append_right (Nat.le_refl _), Nat.sub_self]
      exact List.getElem?_eq_getElem _
    · rw [← hinorder] at hdistinct
      have htasks := hdistinct.of_append_right
      rw [List.getLast_eq_getElem]
      intro hsame
      have hplace := (List.Nodup.getElem_inj_iff htasks).mp hsame
      omega
  · exact .inl hdistinct

theorem InOrder.works (hinorder : pool.InOrder) (hworks : Works pool worker after)
    (honly : pool.PopsOnly (.work worker)) : after.InOrder := by
  cases hworks with
  | locked hpc => exact hinorder.afterWait (honly (.inl hpc))
  | woken hpc => exact hinorder.afterWait (honly (.inr hpc))
  | tested | waits | relayed | ran => exact hinorder

theorem InOrder.overtaken (hinorder : pool.InOrder) (hworks : Works pool worker after)
    (hmany : ¬ pool.PopsOnly (.work worker)) : after.Disordered := by
  simp only [PopsOnly, not_forall, Nat.not_le] at hmany
  obtain ⟨hpc, hrunning, hmany⟩ := hmany
  cases hworks with
  | locked | woken => exact hinorder.disordered hrunning hmany
  | tested hother | relayed hother | ran hother => simp [hother] at hpc
  | waits hother hintact hempty => simp [hempty] at hmany

end

section

variable [DecidableEq Caller]

theorem Resumes.grows (hresumes : Resumes pool caller after) :
    after.started = pool.started ∧ pool.enqueued <+: after.enqueued ∧
      (pool.InOrder → after.InOrder) := by
  cases hresumes with
  | @pushed task hpc hintact =>
      refine ⟨rfl, List.prefix_append _ _, fun hinorder => ?_⟩
      change pool.started ++ (pool.tasks ++ [task]) = pool.enqueued ++ [task]
      rw [← List.append_assoc, hinorder]
  | signalled | polled | emptied | reopened | cancelled | announced | ended =>
      exact ⟨rfl, List.prefix_rfl, id⟩

variable [DecidableEq Worker] {action : Action Worker Caller Task}

theorem inOrder_step (hinorder : pool.InOrder) (honly : pool.PopsOnly action)
    (hnext : pool.next action = some after) : after.InOrder := by
  cases action with
  | work worker => exact hinorder.works (works_of_work hnext) honly
  | call caller call =>
      obtain ⟨-, rfl⟩ := start_of_call hnext
      cases call with
      | enqueue task | waitPool | reStart | endPool => exact hinorder
  | resume caller => exact (resumes_of_resume hnext).grows.2.2 hinorder

theorem overtaken_step (hinorder : pool.InOrder) (hmany : ¬ pool.PopsOnly action)
    (hnext : pool.next action = some after) : after.Disordered := by
  cases action with
  | work worker => exact hinorder.overtaken (works_of_work hnext) hmany
  | call caller call => exact absurd trivial hmany
  | resume caller => exact absurd trivial hmany

theorem disordered_step (hdisordered : pool.Disordered) (hnext : pool.next action = some after) :
    after.Disordered := by
  cases action with
  | work worker =>
      have hworks := works_of_work hnext
      exact hdisordered.grow hworks.grows (hworks.leavesGate.enqueued ▸ List.prefix_rfl)
  | call caller call =>
      obtain ⟨-, rfl⟩ := start_of_call hnext
      cases call with
      | enqueue task | waitPool | reStart | endPool => exact hdisordered
  | resume caller =>
      obtain ⟨hstarted, henqueued, -⟩ := (resumes_of_resume hnext).grows
      exact hdisordered.grow (hstarted ▸ List.prefix_rfl) henqueued

/-- Distinct tasks are started in the order in which they were pushed if and only if
every worker that popped one found no other beside it. -/
theorem startsInOrder_iff {actions : List (Action Worker Caller Task)}
    (hrun : (system Worker Caller Task).Run initial actions pool)
    (hdistinct : pool.enqueued.Nodup) :
    pool.started <+: pool.enqueued ↔
      ((system Worker Caller Task).restrict PopsOnly).Run initial actions pool := by
  have hinitial : (initial : ThreadPool Worker Caller Task).InOrder := rfl
  constructor
  · intro hstarted
    rcases hrun.kept_or_lost InOrder Disordered
      (fun _ _ _ hinorder honly hnext => inOrder_step hinorder honly hnext)
      (fun _ _ _ hinorder hmany hnext => overtaken_step hinorder hmany hnext)
      (fun _ _ _ hdisordered hnext => disordered_step hdisordered hnext)
      hinitial with ⟨hallowed, -⟩ | hdisordered
    · exact hallowed
    · exact absurd hstarted (hdisordered.not_prefix hdistinct)
  · intro hallowed
    have hinorder : pool.InOrder := by
      refine hallowed.preserves InOrder ?_ hinitial
      rintro first action last hinorder ⟨honly, hnext⟩
      exact inOrder_step hinorder honly hnext
    exact ⟨pool.tasks, hinorder⟩

end

/-- Two tasks, the first of which is started before the second is pushed. -/
theorem oneByOne_inOrder :
    ∃ (pool : ThreadPool Unit Unit Nat) (actions : List (Action Unit Unit Nat)),
      pool.started = [1, 2] ∧ (pool.started <+: pool.enqueued ↔
        ((system Unit Unit Nat).restrict PopsOnly).Run initial actions pool) := by
  obtain ⟨pool, ⟨start, actions, rfl, hrun⟩, hstarted, hdistinct⟩ := Lts.exists_reachable_of_exec
    (initial : ThreadPool Unit Unit Nat) next
    (fun pool => pool.started = [1, 2] ∧ pool.enqueued.Nodup)
    [.work (), .call () (.enqueue 1), .resume (), .resume (), .work (), .work (), .work (),
      .call () (.enqueue 2), .resume (), .resume (), .work ()] (by decide)
  exact ⟨pool, actions, hstarted, startsInOrder_iff hrun hdistinct⟩

/-- Two tasks that are both pushed before the only worker pops. -/
theorem bothPushed_overtaken : ∃ pool : ThreadPool Unit Unit Nat,
    (system Unit Unit Nat).Reachable pool ∧ pool.enqueued = [1, 2] ∧ pool.started = [2] :=
  Lts.exists_reachable_of_exec (initial : ThreadPool Unit Unit Nat) next
    (fun pool => pool.enqueued = [1, 2] ∧ pool.started = [2])
    [.call () (.enqueue 1), .resume (), .resume (), .call () (.enqueue 2), .resume (), .work (),
      .work ()] (by decide)

end ZtHttp.ThreadPool
