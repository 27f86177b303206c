import ZtHttp.Foundation.Schedule
import ZtHttp.Server.Queue

/-!
# Whether a queued handler is registered

A handler that waits in the queue is registered by the next task that reads a flag
other than 0. When nothing more is accepted, the signals that are on their way are
counted sooner or later, and the tasks go on to read the flag: the queue is emptied,
unless the flag comes to stay at 0 because of the signals that merged. This rests
on a signal being kept for the signal thread until its next `sigwait`.
-/

namespace ZtHttp.Handoff

open Transition

/-- The threads of the server, seen from the queue. -/
inductive Turn (Task : Type) where
  /-- the accept loop, which has only `pthread_kill` left -/
  | accept
  /-- `signal_handle` -/
  | signal
  | task (task : Task)

namespace Threads

variable {Handler Task : Type} {threads after : Threads Handler Task} {label : Turn Task}

/-- What a thread does next. -/
def action (threads : Threads Handler Task) : Turn Task → Action Handler Task
  | .accept => .kill
  | .signal =>
      match threads.handoff.signalThread with
      | .waiting => .sigwait
      | .received => .increment
  | .task task =>
      match threads.pc task with
      | .looping => .testFlag task
      | .registering => .drain task

/-- The queue is empty, or the flag stays at 0. -/
def Settled (threads : Threads Handler Task) : Prop :=
  threads.handoff.waitQueue = [] ∨
    threads.handoff.Quiescent ∧ threads.handoff.registerFlag = 0

/-- The turns that the signals and this task still need. -/
def toSettle (task : Task) (threads : Threads Handler Task) : Nat :=
  3 * threads.handoff.unsent + 2 * threads.handoff.pending.toNat +
    threads.handoff.signalThread.uncounted + if threads.pc task = .registering then 0 else 1

/-- Whose turn it takes: signals are counted first, then sent, and then the task reads
the flag. -/
def helpful (task : Task) (threads : Threads Handler Task) : Turn Task :=
  if threads.handoff.pending = true ∨ threads.handoff.signalThread = .received then .signal
  else if threads.handoff.unsent ≠ 0 then .accept
  else .task task

/-- A task is helpful when no signal is on its way. -/
theorem helpful_eq_task {task other : Task} (hhelpful : threads.helpful task = .task other) :
    threads.handoff.Quiescent ∧ task = other := by
  unfold helpful at hhelpful
  split at hhelpful
  · contradiction
  · next hsignals =>
      split at hhelpful
      · contradiction
      · next hunsent =>
          cases hhelpful
          rw [not_or, Bool.not_eq_true] at hsignals
          refine ⟨⟨hsignals.1, Decidable.not_not.mp hunsent, ?_⟩, rfl⟩
          cases hthread : threads.handoff.signalThread with
          | waiting => rfl
          | received => exact absurd hthread hsignals.2

variable [DecidableEq Task]

def turn (threads : Threads Handler Task) (label : Turn Task) : Option (Threads Handler Task) :=
  threads.next (threads.action label)

/-- What one turn does. -/
inductive Turns (threads : Threads Handler Task) : Turn Task → Threads Handler Task → Prop
  | sent {handoff : Handoff Handler} : threads.handoff.kill = some handoff →
      Turns threads .accept { threads with handoff }
  | received {handoff : Handoff Handler} : threads.handoff.sigwait = some handoff →
      Turns threads .signal { threads with handoff }
  | counted {handoff : Handoff Handler} : threads.handoff.increment = some handoff →
      Turns threads .signal { threads with handoff }
  | idled {task : Task} : threads.pc task = .looping → threads.handoff.registerFlag = 0 →
      Turns threads (.task task) threads
  | tested {task : Task} : threads.pc task = .looping → threads.handoff.registerFlag ≠ 0 →
      Turns threads (.task task) (threads.goto task .registering)
  | drained {task : Task} : threads.pc task = .registering →
      Turns threads (.task task) { threads.goto task .looping with
        handoff := threads.handoff.drain
        registered := threads.registered ++ threads.handoff.taken.map (task, ·) }

theorem turns_of_turn (hturn : threads.turn label = some after) : Turns threads label after := by
  unfold turn at hturn
  cases label with
  | accept =>
      obtain ⟨handoff, hkill, rfl⟩ := Option.map_eq_some_iff.mp hturn
      exact .sent hkill
  | signal =>
      cases hthread : threads.handoff.signalThread with
      | waiting =>
          simp only [action, hthread] at hturn
          obtain ⟨handoff, hsigwait, rfl⟩ := Option.map_eq_some_iff.mp hturn
          exact .received hsigwait
      | received =>
          simp only [action, hthread] at hturn
          obtain ⟨handoff, hincrement, rfl⟩ := Option.map_eq_some_iff.mp hturn
          exact .counted hincrement
  | task task =>
      cases hpc : threads.pc task with
      | looping =>
          simp only [action, hpc, next, if_true, Option.some.injEq] at hturn
          split at hturn
          · next hflag => exact hturn ▸ .idled hpc hflag
          · next hflag => exact hturn ▸ .tested hpc hflag
      | registering =>
          simp only [action, hpc, next, if_true, Option.some.injEq] at hturn
          exact hturn ▸ .drained hpc

/-! ### One turn -/

/-- Nothing is pushed. -/
theorem Turns.queue (hturns : Turns threads label after) :
    after.handoff.pushed = threads.handoff.pushed ∧
      (after.handoff.waitQueue = threads.handoff.waitQueue ∨ after.handoff.waitQueue = []) := by
  cases hturns with
  | sent hkill => exact ⟨(sameQueue_kill hkill).pushed, .inl (sameQueue_kill hkill).waitQueue⟩
  | received hsigwait =>
      exact ⟨(sameQueue_sigwait hsigwait).pushed, .inl (sameQueue_sigwait hsigwait).waitQueue⟩
  | counted hincrement =>
      exact ⟨(sameQueue_increment hincrement).pushed,
        .inl (sameQueue_increment hincrement).waitQueue⟩
  | idled | tested => exact ⟨rfl, .inl rfl⟩
  | drained => exact ⟨rfl, .inr rfl⟩

theorem Settled.turns (hsettled : threads.Settled) (hturns : Turns threads label after) :
    after.Settled := by
  rcases hsettled with hempty | ⟨hquiescent, hflag⟩
  · rcases hturns.queue.2 with hsame | hlater
    · exact .inl (hsame.trans hempty)
    · exact .inl hlater
  · cases hturns with
    | sent hkill => simp [kill, hquiescent.unsent] at hkill
    | received hsigwait => simp [sigwait, hquiescent.pending] at hsigwait
    | counted hincrement => simp [increment, hquiescent.signalThread] at hincrement
    | idled => exact .inr ⟨hquiescent, hflag⟩
    | tested hpc hother => exact absurd hflag hother
    | drained => exact .inl rfl

theorem helpful_enabled (task : Task) (threads : Threads Handler Task) :
    threads.turn (threads.helpful task) ≠ none := by
  unfold helpful turn
  split
  · next hsignals =>
      cases hthread : threads.handoff.signalThread with
      | waiting =>
          have hpending := hsignals.resolve_right (by simp [hthread])
          simp [action, hthread, next, onHandoff, sigwait, hpending]
      | received => simp [action, hthread, next, onHandoff, increment]
  · split
    · next hunsent => simp [action, next, onHandoff, kill, hunsent]
    · cases hpc : threads.pc task <;> simp [action, hpc, next]

/-- Until the queue is settled, every step but those of the other tasks brings it
nearer, and those leave the signals as they are. -/
theorem Turns.nearer {task : Task} (hturns : Turns threads label after)
    (hnot : ¬ threads.Settled) : after.Settled ∨ after.toSettle task < threads.toSettle task ∨
      after.toSettle task = threads.toSettle task ∧ after.helpful task = threads.helpful task ∧
        label ≠ threads.helpful task := by
  cases hturns with
  | sent hkill =>
      simp only [kill, Option.ite_none_left_eq_some, Option.some.injEq] at hkill
      obtain ⟨hunsent, rfl⟩ := hkill
      right; left
      simp only [toSettle, Bool.toNat_true]
      omega
  | received hsigwait =>
      simp only [sigwait, Option.ite_none_right_eq_some, Option.some.injEq] at hsigwait
      obtain ⟨⟨hpending, hwaiting⟩, rfl⟩ := hsigwait
      right; left
      simp only [toSettle, hpending, hwaiting, SignalPc.uncounted, Bool.toNat_true,
        Bool.toNat_false]
      omega
  | counted hincrement =>
      simp only [increment, Option.ite_none_right_eq_some, Option.some.injEq] at hincrement
      obtain ⟨hreceived, rfl⟩ := hincrement
      right; left
      simp only [toSettle, hreceived, SignalPc.uncounted]
      omega
  | @idled other hpc hflag =>
      refine .inr (.inr ⟨rfl, rfl, ?_⟩)
      intro hhelpful
      exact hnot (.inr ⟨(helpful_eq_task hhelpful.symm).1, hflag⟩)
  | @tested other hpc hflag =>
      right
      -- another task that reads the flag takes nothing from what is still needed
      by_cases hsame : task = other
      · left
        simp [toSettle, goto, hsame, hpc]
      · refine .inr ⟨?_, rfl, fun hhelpful => hsame (helpful_eq_task hhelpful.symm).2⟩
        simp [toSettle, goto, hsame]
  | drained => exact .inl (.inl rfl)

/-- The rule of the helpful turns, for one of the tasks. -/
theorem helps (task : Task) : Lts.Helps (@turn Handler Task _) (fun _ => True) Settled
    (toSettle task) (helpful task) where
  kept _ _ _ _ _ := trivial
  stays _ _ _ hboth hturn := hboth.2.turns (turns_of_turn hturn)
  enabled threads _ _ := helpful_enabled task threads
  nearer _ _ _ _ hnot hturn := (turns_of_turn hturn).nearer hnot

/-! ### The whole run -/

theorem accounted_reachable (hreach : (system Handler Task).Reachable threads) :
    threads.Accounted :=
  hreach.invariant Accounted (fun _ hinit => hinit ▸ accounted_initial)
    fun _ _ _ => accounted_next

/-- When nothing more is accepted, every handler that was queued is registered, in
whatever order the threads take their turns, unless as many signals have merged as
handlers are left in the queue. -/
theorem queue_delivered [Nonempty Task] {count : Nat} {schedule : List (Turn Task)}
    (hreach : (system Handler Task).Reachable threads) (hrounds : Lts.Rounds count schedule)
    (hcount : 3 * threads.handoff.unsent + 5 ≤ count) :
    ∃ last, Lts.play turn schedule threads = last ∧
      (last.registeredHandlers.Perm threads.handoff.pushed ∨
        last.handoff.registerFlag = 0 ∧ 0 < last.handoff.merged ∧
          last.handoff.merged = last.handoff.waitQueue.length) := by
  obtain ⟨task⟩ := ‹Nonempty Task›
  have hfew : threads.toSettle task < count := by
    have hpending := threads.handoff.pending.toNat_le
    have hsignal : threads.handoff.signalThread.uncounted ≤ 1 := by
      cases threads.handoff.signalThread <;> simp [SignalPc.uncounted]
    unfold toSettle
    split <;> omega
  obtain ⟨hbalanced, haccounted, hpushed⟩ := @Lts.play_preserves _ _ (@turn Handler Task _)
    (fun later => later.handoff.Balanced ∧ later.Accounted ∧
      later.handoff.pushed = threads.handoff.pushed)
    (fun _ _ _ hkept hturn => ⟨balanced_next hkept.1 hturn, accounted_next hkept.2.1 hturn,
      (turns_of_turn hturn).queue.1.trans hkept.2.2⟩) schedule threads
    ⟨balanced_reachable hreach, accounted_reachable hreach, rfl⟩
  refine ⟨_, rfl, ?_⟩
  -- the rounds outlast the signals and then let the task read the flag and drain
  have hsettled := (helps task).goal_of_rounds hrounds trivial hfew
  generalize Lts.play turn schedule threads = last at *
  by_cases hempty : last.handoff.waitQueue = []
  · left
    have hall := haccounted.pushed
    rwa [hempty, List.append_nil, hpushed] at hall
  · obtain ⟨hquiescent, hflag⟩ := hsettled.resolve_left hempty
    have hcounted := hbalanced.quiescent hquiescent
    have hqueued := List.length_pos_of_ne_nil hempty
    exact .inr ⟨hflag, by omega, by omega⟩

/-- A handler is queued while the signal for the one before it is being counted. -/
theorem twoQueued_delivered : ∃ threads : Threads Nat Unit,
    threads.handoff.waitQueue = [1, 2] ∧ threads.handoff.merged = 0 ∧
    ∃ last, Lts.play turn (List.replicate 8 [.accept, .signal, .task ()]).flatten threads = last ∧
      (last.registeredHandlers.Perm [1, 2] ∨ last.handoff.registerFlag = 0 ∧
        0 < last.handoff.merged ∧ last.handoff.merged = last.handoff.waitQueue.length) := by
  obtain ⟨threads, hreach, hqueue, hmerged, hpushed, hunsent⟩ := Lts.exists_reachable_of_exec
    (initial : Threads Nat Unit) next
    (fun threads => threads.handoff.waitQueue = [1, 2] ∧ threads.handoff.merged = 0 ∧
      threads.handoff.pushed = [1, 2] ∧ threads.handoff.unsent = 1)
    [.enqueue 1, .kill, .sigwait, .enqueue 2] (by decide)
  have hall : ∀ label : Turn Unit, label ∈ [.accept, .signal, .task ()] := by
    rintro (_ | _ | ⟨⟩) <;> simp
  have hdelivered := queue_delivered hreach (Lts.rounds_replicate hall 8) (by omega)
  rw [hpushed] at hdelivered
  exact ⟨threads, hqueue, hmerged, hdelivered⟩

end Threads

end ZtHttp.Handoff
