import ZtHttp.Foundation.Transition

/-!
# Handing accepted connections over

The accept loop pushes a handler on `p_wait_queue` and signals; the signal
thread counts the signals it receives in `register_flag`; a task that reads a
non-zero flag drains the queue and subtracts what it took. The flag is meant to
count the queue. A signal that is sent while an earlier one is pending merges
with it, and is never counted. One that is sent while the signal thread is not
in `sigwait` is taken to stay pending until it is, as a blocked signal does; the
call that would block it is commented out.
-/

namespace ZtHttp

open Transition

/-- `BACKLOG_Queue` -/
def backlogQueue : Nat := 32

/-- Where `signal_handle` stands. -/
inductive SignalPc where
  /-- before `sigwait` -/
  | waiting
  /-- between `sigwait` and `++register_flag` -/
  | received
  deriving DecidableEq

/-- The signals received and not yet counted. -/
def SignalPc.uncounted : SignalPc → Nat
  | .waiting => 0
  | .received => 1

/-- The queue, the counter and the signal channel between them. `pushed` and
`merged` record what was ever pushed and how many signals merged with a pending
one; no step reads them. -/
structure Handoff (Handler : Type) where
  waitQueue : List Handler
  registerFlag : Int
  /-- `SIGUSR1` is pending for the signal thread -/
  pending : Bool
  /-- the calls of `enqueue_and_wait` between their push and `pthread_kill` -/
  unsent : Nat
  signalThread : SignalPc
  pushed : List Handler
  merged : Nat

namespace Handoff

variable {Handler : Type}

def initial : Handoff Handler where
  waitQueue := []
  registerFlag := 0
  pending := false
  unsent := 0
  signalThread := .waiting
  pushed := []
  merged := 0

/-- The critical section of `enqueue_and_wait`: a full queue discards. -/
def enqueue (handler : Handler) (handoff : Handoff Handler) : Handoff Handler :=
  if handoff.waitQueue.length = backlogQueue then handoff
  else
    { handoff with
      waitQueue := handoff.waitQueue ++ [handler]
      unsent := handoff.unsent + 1
      pushed := handoff.pushed ++ [handler] }

/-- `pthread_kill(signal_handle_thread, SIGUSR1)` -/
def kill (handoff : Handoff Handler) : Option (Handoff Handler) :=
  if handoff.unsent = 0 then none
  else
    some { handoff with
      unsent := handoff.unsent - 1
      pending := true
      merged := if handoff.pending then handoff.merged + 1 else handoff.merged }

/-- `sigwait` takes the pending signal. -/
def sigwait (handoff : Handoff Handler) : Option (Handoff Handler) :=
  if handoff.pending ∧ handoff.signalThread = .waiting then
    some { handoff with pending := false, signalThread := .received }
  else none

/-- `++register_flag` -/
def increment (handoff : Handoff Handler) : Option (Handoff Handler) :=
  if handoff.signalThread = .received then
    some { handoff with registerFlag := handoff.registerFlag + 1, signalThread := .waiting }
  else none

/-- The handlers that `registerEvents` takes, in the order it takes them. -/
def taken (handoff : Handoff Handler) : List Handler := handoff.waitQueue.reverse

/-- `registerEvents`: each handler popped costs one `--register_flag`. -/
def drain (handoff : Handoff Handler) : Handoff Handler :=
  { handoff with
    waitQueue := []
    registerFlag := handoff.registerFlag - handoff.waitQueue.length }

/-! ### What the signals leave alone -/

/-- What the signals leave alone. -/
structure SameQueue (before after : Handoff Handler) : Prop where
  waitQueue : after.waitQueue = before.waitQueue
  pushed : after.pushed = before.pushed

theorem sameQueue_kill {handoff next : Handoff Handler} (hkill : handoff.kill = some next) :
    handoff.SameQueue next := by
  simp only [kill, Option.ite_none_left_eq_some, Option.some.injEq] at hkill
  obtain ⟨-, rfl⟩ := hkill
  exact ⟨rfl, rfl⟩

theorem sameQueue_sigwait {handoff next : Handoff Handler}
    (hsigwait : handoff.sigwait = some next) : handoff.SameQueue next := by
  simp only [sigwait, Option.ite_none_right_eq_some, Option.some.injEq] at hsigwait
  obtain ⟨-, rfl⟩ := hsigwait
  exact ⟨rfl, rfl⟩

theorem sameQueue_increment {handoff next : Handoff Handler}
    (hincrement : handoff.increment = some next) : handoff.SameQueue next := by
  simp only [increment, Option.ite_none_right_eq_some, Option.some.injEq] at hincrement
  obtain ⟨-, rfl⟩ := hincrement
  exact ⟨rfl, rfl⟩

theorem enqueue_waitQueue {handoff : Handoff Handler}
    (hroom : handoff.waitQueue.length ≠ backlogQueue) (handler : Handler) :
    (handoff.enqueue handler).waitQueue = handoff.waitQueue ++ [handler] := by
  rw [enqueue, if_neg hroom]

/-! ### What the flag counts -/

/-- The signals that are on their way to the counter. -/
def travelling (handoff : Handoff Handler) : Nat :=
  handoff.unsent + handoff.pending.toNat + handoff.signalThread.uncounted

/-- The queue is counted by the flag, by the signals on their way and by those
that merged. -/
def Balanced (handoff : Handoff Handler) : Prop :=
  handoff.registerFlag + handoff.travelling + handoff.merged = handoff.waitQueue.length

/-- No signal is on its way. -/
structure Quiescent (handoff : Handoff Handler) : Prop where
  pending : handoff.pending = false
  unsent : handoff.unsent = 0
  signalThread : handoff.signalThread = .waiting

instance (handoff : Handoff Handler) : Decidable handoff.Quiescent :=
  decidable_of_iff
    (handoff.pending = false ∧ handoff.unsent = 0 ∧ handoff.signalThread = .waiting)
    ⟨fun ⟨hpending, hunsent, hthread⟩ => ⟨hpending, hunsent, hthread⟩,
      fun hquiescent => ⟨hquiescent.pending, hquiescent.unsent, hquiescent.signalThread⟩⟩

theorem balanced_initial : (initial : Handoff Handler).Balanced := by
  simp [Balanced, travelling, initial, SignalPc.uncounted]

theorem Balanced.enqueue {handoff : Handoff Handler} (hbalanced : handoff.Balanced)
    (handler : Handler) : (handoff.enqueue handler).Balanced := by
  rw [Handoff.enqueue]
  split
  · exact hbalanced
  · simp only [Balanced, travelling, List.length_append, List.length_singleton] at hbalanced ⊢
    omega

/-- A merged signal moves from the travelling ones to the merged ones. -/
theorem Balanced.kill {handoff next : Handoff Handler} (hbalanced : handoff.Balanced)
    (hkill : handoff.kill = some next) : next.Balanced := by
  simp only [Handoff.kill, Option.ite_none_left_eq_some, Option.some.injEq] at hkill
  obtain ⟨hunsent, rfl⟩ := hkill
  -- a signal that finds another one pending is lost, and counts as merged
  cases hpending : handoff.pending with
  | false =>
      simp only [Balanced, travelling, hpending, Bool.toNat_false, Bool.toNat_true,
        Bool.false_eq_true, if_false] at hbalanced ⊢
      omega
  | true =>
      simp only [Balanced, travelling, hpending, Bool.toNat_true, if_true] at hbalanced ⊢
      omega

theorem Balanced.sigwait {handoff next : Handoff Handler} (hbalanced : handoff.Balanced)
    (hsigwait : handoff.sigwait = some next) : next.Balanced := by
  simp only [Handoff.sigwait, Option.ite_none_right_eq_some, Option.some.injEq] at hsigwait
  obtain ⟨⟨hpending, hwaiting⟩, rfl⟩ := hsigwait
  simp only [Balanced, travelling, hpending, hwaiting, SignalPc.uncounted, Bool.toNat_true,
    Bool.toNat_false] at hbalanced ⊢
  omega

theorem Balanced.increment {handoff next : Handoff Handler} (hbalanced : handoff.Balanced)
    (hincrement : handoff.increment = some next) : next.Balanced := by
  simp only [Handoff.increment, Option.ite_none_right_eq_some, Option.some.injEq] at hincrement
  obtain ⟨hreceived, rfl⟩ := hincrement
  simp only [Balanced, travelling, hreceived, SignalPc.uncounted] at hbalanced ⊢
  omega

theorem Balanced.drain {handoff : Handoff Handler} (hbalanced : handoff.Balanced) :
    handoff.drain.Balanced := by
  simp only [Balanced, travelling, Handoff.drain, List.length_nil] at hbalanced ⊢
  omega

/-- A quiescent flag misses exactly the merged signals. -/
theorem Balanced.quiescent {handoff : Handoff Handler} (hbalanced : handoff.Balanced)
    (hquiescent : handoff.Quiescent) :
    handoff.registerFlag + handoff.merged = handoff.waitQueue.length := by
  simp only [Balanced, travelling, hquiescent.pending, hquiescent.unsent,
    hquiescent.signalThread, SignalPc.uncounted, Bool.toNat_false] at hbalanced
  omega

/-! ### The threads -/

/-- Where an `EMTask` stands, seen from the queue. -/
inductive TaskPc where
  | looping
  /-- it has read a non-zero flag -/
  | registering
  deriving DecidableEq

variable {Task : Type} [DecidableEq Task]

/-- The queue with the tasks around it; `registered` records which task took
which handler. -/
structure Threads (Handler Task : Type) where
  handoff : Handoff Handler
  pc : Task → TaskPc
  registered : List (Task × Handler)

inductive Action (Handler Task : Type) where
  | enqueue (handler : Handler)
  | kill
  | sigwait
  | increment
  | testFlag (task : Task)
  | drain (task : Task)

namespace Threads

def initial : Threads Handler Task where
  handoff := .initial
  pc _ := .looping
  registered := []

def goto (task : Task) (pc : TaskPc) (threads : Threads Handler Task) : Threads Handler Task :=
  { threads with pc := fun other => if other = task then pc else threads.pc other }

def onHandoff (threads : Threads Handler Task) (next : Option (Handoff Handler)) :
    Option (Threads Handler Task) :=
  next.map fun handoff => { threads with handoff }

def next (threads : Threads Handler Task) : Action Handler Task → Option (Threads Handler Task)
  | .enqueue handler => threads.onHandoff (some (threads.handoff.enqueue handler))
  | .kill => threads.onHandoff threads.handoff.kill
  | .sigwait => threads.onHandoff threads.handoff.sigwait
  | .increment => threads.onHandoff threads.handoff.increment
  | .testFlag task =>
      if threads.pc task = .looping then
        some (if threads.handoff.registerFlag = 0 then threads else threads.goto task .registering)
      else none
  | .drain task =>
      if threads.pc task = .registering then
        some { threads.goto task .looping with
          handoff := threads.handoff.drain
          registered := threads.registered ++ threads.handoff.taken.map (task, ·) }
      else none

/-- The hand-off with every task looping and nothing accepted yet. -/
def system (Handler Task : Type) [DecidableEq Task] :
    Lts (Threads Handler Task) (Action Handler Task) :=
  .ofNext initial next

/-- `pthread_kill` is called only when no earlier `SIGUSR1` is pending. -/
def NoMerge (threads : Threads Handler Task) : Action Handler Task → Prop
  | .kill => threads.handoff.pending = false
  | _ => True

/-- What one step does to the hand-off. -/
theorem next_cases {threads after : Threads Handler Task} {action : Action Handler Task}
    (hnext : threads.next action = some after) :
    (∃ handler, action = .enqueue handler ∧ after.handoff = threads.handoff.enqueue handler) ∨
    (action = .kill ∧ threads.handoff.kill = some after.handoff) ∨
    (action = .sigwait ∧ threads.handoff.sigwait = some after.handoff) ∨
    (action = .increment ∧ threads.handoff.increment = some after.handoff) ∨
    (∃ task, action = .testFlag task ∧ after.handoff = threads.handoff) ∨
    (∃ task, action = .drain task ∧ after.handoff = threads.handoff.drain) := by
  cases action with
  | enqueue handler =>
      cases hnext
      exact .inl ⟨handler, rfl, rfl⟩
  | kill =>
      obtain ⟨handoff, hkill, rfl⟩ := Option.map_eq_some_iff.mp hnext
      exact .inr (.inl ⟨rfl, hkill⟩)
  | sigwait =>
      obtain ⟨handoff, hsigwait, rfl⟩ := Option.map_eq_some_iff.mp hnext
      exact .inr (.inr (.inl ⟨rfl, hsigwait⟩))
  | increment =>
      obtain ⟨handoff, hincrement, rfl⟩ := Option.map_eq_some_iff.mp hnext
      exact .inr (.inr (.inr (.inl ⟨rfl, hincrement⟩)))
  | testFlag task =>
      simp only [next, Option.ite_none_right_eq_some, Option.some.injEq] at hnext
      obtain ⟨-, rfl⟩ := hnext
      exact .inr (.inr (.inr (.inr (.inl ⟨task, rfl, by split <;> rfl⟩))))
  | drain task =>
      simp only [next, Option.ite_none_right_eq_some, Option.some.injEq] at hnext
      obtain ⟨-, rfl⟩ := hnext
      exact .inr (.inr (.inr (.inr (.inr ⟨task, rfl, rfl⟩))))

/-- Every step keeps the balance. -/
theorem balanced_next {threads after : Threads Handler Task} {action : Action Handler Task}
    (hbalanced : threads.handoff.Balanced) (hnext : threads.next action = some after) :
    after.handoff.Balanced := by
  rcases next_cases hnext with ⟨handler, -, heq⟩ | ⟨-, hkill⟩ | ⟨-, hsigwait⟩ | ⟨-, hincrement⟩ |
    ⟨task, -, heq⟩ | ⟨task, -, heq⟩
  · exact heq ▸ hbalanced.enqueue handler
  · exact hbalanced.kill hkill
  · exact hbalanced.sigwait hsigwait
  · exact hbalanced.increment hincrement
  · exact heq ▸ hbalanced
  · exact heq ▸ hbalanced.drain

/-- A step that meets the condition merges nothing. -/
theorem merged_next {threads after : Threads Handler Task} {action : Action Handler Task}
    (hcondition : threads.NoMerge action) (hnext : threads.next action = some after) :
    after.handoff.merged = threads.handoff.merged := by
  rcases next_cases hnext with ⟨handler, -, heq⟩ | ⟨rfl, hkill⟩ | ⟨-, hsigwait⟩ | ⟨-, hincrement⟩ |
    ⟨task, -, heq⟩ | ⟨task, -, heq⟩
  · rw [heq, Handoff.enqueue]
    split <;> rfl
  · have hpending : threads.handoff.pending = false := hcondition
    simp only [Handoff.kill, Option.ite_none_left_eq_some, Option.some.injEq] at hkill
    obtain ⟨-, heq⟩ := hkill
    simp [← heq, hpending]
  · simp only [Handoff.sigwait, Option.ite_none_right_eq_some, Option.some.injEq] at hsigwait
    obtain ⟨-, heq⟩ := hsigwait
    rw [← heq]
  · simp only [Handoff.increment, Option.ite_none_right_eq_some, Option.some.injEq] at hincrement
    obtain ⟨-, heq⟩ := hincrement
    rw [← heq]
  · rw [heq]
  · rw [heq]
    rfl

theorem balanced_reachable {threads : Threads Handler Task}
    (hreach : (system Handler Task).Reachable threads) : threads.handoff.Balanced :=
  hreach.invariant (fun threads => threads.handoff.Balanced)
    (fun _ hinit => hinit ▸ balanced_initial) fun _ _ _ => balanced_next

/-- In a quiescent state the flag is wrong exactly by the signals that merged. -/
theorem flag_eq_iff_nothing_merged {threads : Threads Handler Task}
    (hreach : (system Handler Task).Reachable threads) (hquiescent : threads.handoff.Quiescent) :
    threads.handoff.registerFlag = threads.handoff.waitQueue.length ↔
      threads.handoff.merged = 0 := by
  have hcount := (balanced_reachable hreach).quiescent hquiescent
  omega

/-- As long as no signal is sent while one is pending, the flag counts the
queue in every quiescent state, whatever the order of the steps. -/
theorem flag_counts_queue {threads : Threads Handler Task}
    (hreach : ((system Handler Task).restrict NoMerge).Reachable threads)
    (hquiescent : threads.handoff.Quiescent) :
    threads.handoff.registerFlag = threads.handoff.waitQueue.length := by
  have hinvariant : threads.handoff.Balanced ∧ threads.handoff.merged = 0 := by
    refine hreach.invariant (fun threads => threads.handoff.Balanced ∧ threads.handoff.merged = 0)
      ?_ ?_
    · rintro start rfl
      exact ⟨balanced_initial, rfl⟩
    · rintro first action last ⟨hbalanced, hmerged⟩ ⟨hcondition, hnext⟩
      exact ⟨balanced_next hbalanced hnext, (merged_next hcondition hnext).trans hmerged⟩
  have hcount := hinvariant.1.quiescent hquiescent
  rw [hinvariant.2] at hcount
  simpa using hcount

instance (threads : Threads Handler Task) :
    (action : Action Handler Task) → Decidable (threads.NoMerge action)
  | .kill => inferInstanceAs (Decidable (_ = _))
  | .enqueue _ | .sigwait | .increment | .testFlag _ | .drain _ => isTrue trivial

/-- Two connections, each signalled and counted before the next one, and one of
them drained. -/
theorem separateSignals_counted :
    ∃ threads : Threads Nat Unit, threads.handoff.waitQueue = [2] ∧
      threads.handoff.registerFlag = threads.handoff.waitQueue.length := by
  obtain ⟨threads, hreach, hquiescent, hqueue⟩ := Lts.exists_restricted_of_exec
    (initial : Threads Nat Unit) next NoMerge
    (fun threads => threads.handoff.Quiescent ∧ threads.handoff.waitQueue = [2])
    [.enqueue 1, .kill, .sigwait, .increment, .testFlag (), .drain (),
      .enqueue 2, .kill, .sigwait, .increment] (by decide)
  exact ⟨threads, hqueue, flag_counts_queue hreach hquiescent⟩

/-- Two connections are accepted before the signal thread runs, their signals
merge, and the drain takes both for one count. The next connection is left in
the queue with the flag at 0. -/
theorem mergedSignals_stranded :
    ∃ threads : Threads Nat Unit, (system Nat Unit).Reachable threads ∧
      threads.handoff.Quiescent ∧ threads.handoff.registerFlag = 0 ∧
      threads.handoff.waitQueue = [3] :=
  Lts.exists_reachable_of_exec (initial : Threads Nat Unit) next
    (fun threads => threads.handoff.Quiescent ∧ threads.handoff.registerFlag = 0 ∧
      threads.handoff.waitQueue = [3])
    [.enqueue 1, .kill, .enqueue 2, .kill, .sigwait, .increment, .testFlag (), .drain (),
      .enqueue 3, .kill, .sigwait, .increment] (by decide)

end Threads

end Handoff

end ZtHttp
