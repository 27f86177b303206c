import ZtHttp.Server.Laws

/-!
# Shutting down

On `SIGINT` the signal thread sets `quit_wait_flag` to 2, the number of the
reactors. A task that finds the flag set at the beginning of `select` or
`handle_events` calls `quit_and_rst`: it closes and clears its tables, counts
the flag down, sends `SIGUSR2` if that made it 0, and stays in `pause`. On
`SIGUSR2` the signal thread ends the process. A second `SIGINT` between the two
reactors starts the count again, and it never comes to 0.
-/

namespace ZtHttp

open Transition

/-- Where a task stands with respect to `quit_and_rst`. -/
inductive QuitPc where
  /-- before the test of `quit_wait_flag` in `select` or `handle_events` -/
  | testing
  | running
  /-- in `quit_and_rst`, before its critical section -/
  | clearing
  /-- before `--quit_wait_flag` -/
  | counting
  /-- before `pthread_kill` -/
  | killing
  | pausing
  deriving DecidableEq

namespace QuitPc

/-- The task has still to count itself. -/
def toStop : QuitPc → Nat
  | .testing | .running | .clearing | .counting => 1
  | .killing | .pausing => 0

/-- The task has begun to quit and has not counted itself. -/
def quits : QuitPc → Bool
  | .clearing | .counting => true
  | .testing | .running | .killing | .pausing => false

/-- The task has been through the critical section of `quit_and_rst`. -/
def cleared : QuitPc → Bool
  | .counting | .killing | .pausing => true
  | .testing | .running | .clearing => false

theorem cleared_of_toStop {pc : QuitPc} (hstopped : pc.toStop = 0) : pc.cleared = true := by
  cases pc <;> first | rfl | contradiction

end QuitPc

/-- One `::close` with the handler in whose name it is called and the
connection that has the descriptor at that moment. -/
structure Closing where
  behalf : Option HandlerId
  fd : Fd
  owner : Option HandlerId
  deriving DecidableEq

/-- Which connection has which open descriptor, and every `::close` so far. The
program keeps no such record and no step reads it. -/
structure Ledger where
  owner : Fd → Option HandlerId
  closings : List Closing

namespace Ledger

def accept (fd : Fd) (h : HandlerId) (ledger : Ledger) : Ledger :=
  { ledger with owner := Function.update ledger.owner fd (some h) }

def close (behalf : Option HandlerId) (fd : Fd) (ledger : Ledger) : Ledger where
  owner := Function.update ledger.owner fd none
  closings := ledger.closings ++ [⟨behalf, fd, ledger.owner fd⟩]

end Ledger

/-- The server with two reactors, the flag, and the two ends of `SIGUSR2`. -/
structure Shutdown where
  server : Server 2
  quitWaitFlag : Int
  quit : Fin 2 → QuitPc
  sent : Bool
  exited : Bool
  ledger : Ledger

namespace Shutdown

inductive Action where
  | server (action : Server.Action 2)
  | sigint
  | sigusr2
  | testQuit (task : Fin 2)
  | clear (task : Fin 2)
  | count (task : Fin 2)
  | kill (task : Fin 2)

def initial : Shutdown where
  server := .initial
  quitWaitFlag := 0
  quit _ := .testing
  sent := false
  exited := false
  ledger := ⟨fun _ => none, []⟩

def goto (task : Fin 2) (pc : QuitPc) (shutdown : Shutdown) : Shutdown :=
  { shutdown with quit := Function.update shutdown.quit task pc }

/-- The task whose step it is. -/
def actor : Server.Action 2 → Option (Fin 2)
  | .select task _ | .testFlag task | .drain task | .dispatch task | .serve task _ | .close task
  | .remove task => some task
  | .accept _ | .enqueue | .kill | .sigwait | .increment => none

/-- The task comes to the beginning of `select` or of `handle_events`. The copy
of `rdy` that a step takes along is made after the test, of a map that only the
task itself changes. -/
def atTest : TaskPc → TaskPc → Bool
  | .testing, .dispatching _ | .registering, .dispatching _ | .dispatching _, .selecting => true
  | _, _ => false

/-- The descriptor that the step closes, with its handler. -/
def closes (server : Server 2) : Server.Action 2 → Option (HandlerId × Fd)
  | .close task =>
      match server.task task with
      | .closing h _ =>
          (server.process.heap[h]?.bind EpollEventHandler.tcp).map fun socket => (h, socket.fd)
      | _ => none
  | _ => none

/-- What a step of the server enters in the ledger. -/
def enter (server : Server 2) (action : Server.Action 2) (ledger : Ledger) : Ledger :=
  match action, closes server action with
  | .accept (some (fd, _)), _ => ledger.accept fd server.process.heap.length
  | _, some (h, fd) => ledger.close (some h) fd
  | _, none => ledger

/-- What `quit_and_rst` enters: every key, in the name of the handler stored
there. -/
def enterAll (entries : List (Fd × UInt32 × Option HandlerId)) (ledger : Ledger) : Ledger :=
  entries.foldl (fun ledger entry => ledger.close entry.2.2 entry.1) ledger

/-- A step of the server; one of a task is taken past the test of the flag. -/
def serverStep (shutdown : Shutdown) (action : Server.Action 2) : Option Shutdown :=
  (shutdown.server.next action).bind fun server =>
    let after := { shutdown with
      server
      ledger := enter shutdown.server action shutdown.ledger }
    match actor action with
    | none => some after
    | some task =>
        if shutdown.quit task = .running then
          some (after.goto task
            (if atTest (shutdown.server.task task) (server.task task) then .testing else .running))
        else none

def next (shutdown : Shutdown) (action : Action) : Option Shutdown :=
  if shutdown.exited then none
  else
    match action with
    | .server action => shutdown.serverStep action
    | .sigint =>
        if shutdown.server.handoff.signalThread = .waiting then
          some { shutdown with quitWaitFlag := 2 }
        else none
    | .sigusr2 =>
        if shutdown.server.handoff.signalThread = .waiting ∧ shutdown.sent = true then
          some { shutdown with exited := true }
        else none
    | .testQuit task =>
        if shutdown.quit task = .testing then
          some (shutdown.goto task (if shutdown.quitWaitFlag = 0 then .running else .clearing))
        else none
    | .clear task =>
        if shutdown.quit task = .clearing then
          some { shutdown.goto task .counting with
            server := { shutdown.server with
              process := shutdown.server.process.quitAndRst task }
            ledger := enterAll (shutdown.server.process.fds task).toList shutdown.ledger }
        else none
    | .count task =>
        if shutdown.quit task = .counting then
          some { shutdown.goto task
              (if shutdown.quitWaitFlag - 1 = 0 then .killing else .pausing) with
            quitWaitFlag := shutdown.quitWaitFlag - 1 }
        else none
    | .kill task =>
        if shutdown.quit task = .killing then
          some { shutdown.goto task .pausing with sent := true }
        else none

/-- The process from its start, with both tasks before their first `select`. -/
def system : Lts Shutdown Action := .ofNext initial next

variable {shutdown after : Shutdown} {action : Action}

/-! ### The count -/

/-- The reactors that have still to count themselves. -/
def toStop (shutdown : Shutdown) : Nat := (shutdown.quit 0).toStop + (shutdown.quit 1).toStop

theorem toStop_update {task : Fin 2} {pc : QuitPc}
    (hquit : after.quit = Function.update shutdown.quit task pc) :
    after.toStop + (shutdown.quit task).toStop = shutdown.toStop + pc.toStop := by
  unfold toStop
  rw [hquit]
  match task with
  | 0 =>
      rw [Function.update_self, Function.update_of_ne (by decide)]
      omega
  | 1 =>
      rw [Function.update_self, Function.update_of_ne (by decide)]
      omega

theorem toStop_le (shutdown : Shutdown) : shutdown.toStop ≤ 2 := by
  have hle : ∀ pc : QuitPc, pc.toStop ≤ 1 := by
    intro pc
    cases pc <;> decide
  have hfirst := hle (shutdown.quit 0)
  have hsecond := hle (shutdown.quit 1)
  unfold toStop
  omega

theorem toStop_eq_zero_iff : shutdown.toStop = 0 ↔ ∀ task, (shutdown.quit task).toStop = 0 := by
  rw [Fin.forall_fin_two, toStop, Nat.add_eq_zero_iff]

theorem toStop_pos {task : Fin 2} (htask : (shutdown.quit task).toStop = 1) :
    shutdown.toStop ≠ 0 := by
  intro hzero
  have hnone := toStop_eq_zero_iff.mp hzero task
  omega

/-- A step that the count does not notice: a task that has still to count
itself moves on, and begins to quit only where the flag is set. -/
structure Moves (shutdown after : Shutdown) (task : Fin 2) (pc : QuitPc) : Prop where
  flag : after.quitWaitFlag = shutdown.quitWaitFlag
  sent : after.sent = shutdown.sent
  quit : after.quit = Function.update shutdown.quit task pc
  before : (shutdown.quit task).toStop = 1
  later : pc.toStop = 1
  begins : pc.quits = true → (shutdown.quit task).quits = true ∨ shutdown.quitWaitFlag ≠ 0

/-- A step that changes nothing that the count depends on. -/
structure Idles (shutdown after : Shutdown) : Prop where
  flag : after.quitWaitFlag = shutdown.quitWaitFlag
  sent : after.sent = shutdown.sent
  quit : after.quit = shutdown.quit

theorem serverStep_cases {step : Server.Action 2} (hstep : shutdown.serverStep step = some after) :
    shutdown.Idles after ∨ ∃ task pc, shutdown.Moves after task pc := by
  obtain ⟨server, -, hafter⟩ := Option.bind_eq_some_iff.mp hstep
  cases hactor : actor step with
  | none =>
      simp only [hactor, Option.some.injEq] at hafter
      rw [← hafter]
      exact .inl ⟨rfl, rfl, rfl⟩
  | some task =>
      simp only [hactor, Option.ite_none_right_eq_some, Option.some.injEq] at hafter
      obtain ⟨hrunning, rfl⟩ := hafter
      refine .inr ⟨task, _, rfl, rfl, rfl, by rw [hrunning]; rfl, ?_, ?_⟩
      · split <;> rfl
      · split <;> exact fun hquits => by contradiction

/-- What one step does to the count. -/
theorem next_cases (hnext : shutdown.next action = some after) :
    shutdown.Idles after ∨
    (∃ task pc, shutdown.Moves after task pc) ∨
    (action = .sigint ∧ after = { shutdown with quitWaitFlag := 2 }) ∨
    (∃ task, shutdown.quit task = .counting ∧
      after = { shutdown.goto task
          (if shutdown.quitWaitFlag - 1 = 0 then .killing else .pausing) with
        quitWaitFlag := shutdown.quitWaitFlag - 1 }) ∨
    (∃ task, shutdown.quit task = .killing ∧
      after = { shutdown.goto task .pausing with sent := true }) := by
  unfold next at hnext
  obtain ⟨-, hnext⟩ := Option.ite_none_left_eq_some.mp hnext
  cases action with
  | server step =>
      rcases serverStep_cases hnext with hidle | hmoves
      · exact .inl hidle
      · exact .inr (.inl hmoves)
  | sigint =>
      obtain ⟨-, heq⟩ := Option.ite_none_right_eq_some.mp hnext
      exact .inr (.inr (.inl ⟨rfl, (Option.some.inj heq).symm⟩))
  | sigusr2 =>
      obtain ⟨-, heq⟩ := Option.ite_none_right_eq_some.mp hnext
      cases heq
      exact .inl ⟨rfl, rfl, rfl⟩
  | testQuit task =>
      obtain ⟨htesting, heq⟩ := Option.ite_none_right_eq_some.mp hnext
      cases heq
      refine .inr (.inl ⟨task, _, rfl, rfl, rfl, by rw [htesting]; rfl, ?_, ?_⟩)
      · split <;> rfl
      · split
        · exact fun hquits => by contradiction
        · next hset => exact fun _ => .inr hset
  | clear task =>
      obtain ⟨hclearing, heq⟩ := Option.ite_none_right_eq_some.mp hnext
      cases heq
      refine .inr (.inl ⟨task, _, rfl, rfl, rfl, by rw [hclearing]; rfl, rfl, ?_⟩)
      exact fun _ => .inl (by rw [hclearing]; rfl)
  | count task =>
      obtain ⟨hcounting, heq⟩ := Option.ite_none_right_eq_some.mp hnext
      exact .inr (.inr (.inr (.inl ⟨task, hcounting, (Option.some.inj heq).symm⟩)))
  | kill task =>
      obtain ⟨hkilling, heq⟩ := Option.ite_none_right_eq_some.mp hnext
      exact .inr (.inr (.inr (.inr ⟨task, hkilling, (Option.some.inj heq).symm⟩)))

/-! ### The protocol -/

/-- `SIGUSR2` is sent only after both reactors have cleared their tables. -/
def SentLast (shutdown : Shutdown) : Prop :=
  shutdown.sent = true → ∀ task, (shutdown.quit task).cleared = true

/-- Both reactors are in `pause`. -/
def Paused (shutdown : Shutdown) : Prop := ∀ task, shutdown.quit task = .pausing

/-- `SIGINT` is not handled while the flag is 1, that is after one of the two
reactors has counted itself. -/
def KeepsCount (shutdown : Shutdown) : Action → Prop
  | .sigint => shutdown.quitWaitFlag ≠ 1
  | _ => True

/-- The flag is the number of the reactors still to stop, or no reactor has
begun, or all are done; and `SIGUSR2` is sent, or about to be, once all are
done. -/
structure CountsDown (shutdown : Shutdown) : Prop where
  flag : shutdown.quitWaitFlag = shutdown.toStop ∨
    (shutdown.quitWaitFlag = 0 ∧ shutdown.toStop = 2 ∧
      ∀ task, (shutdown.quit task).quits = false) ∨
    (shutdown.quitWaitFlag = 2 ∧ shutdown.toStop = 0)
  finished : shutdown.toStop = 0 → shutdown.sent = true ∨ ∃ task, shutdown.quit task = .killing
  unsent : shutdown.toStop ≠ 0 →
    shutdown.sent = false ∧ ∀ task, shutdown.quit task ≠ .killing

/-- The count will not come to 0 any more: nothing is sent, and either nobody
is left to count, or the one that is left finds the flag at 2. -/
structure Missed (shutdown : Shutdown) : Prop where
  unsent : shutdown.sent = false
  unkilled : ∀ task, shutdown.quit task ≠ .killing
  count : shutdown.toStop = 0 ∨ shutdown.toStop = 1 ∧ shutdown.quitWaitFlag = 2

theorem CountsDown.sentLast (hcounts : shutdown.CountsDown) : shutdown.SentLast := by
  intro hsent task
  have hzero : shutdown.toStop = 0 := by
    by_contra hleft
    have hunsent := (hcounts.unsent hleft).1
    rw [hsent] at hunsent
    contradiction
  exact QuitPc.cleared_of_toStop (toStop_eq_zero_iff.mp hzero task)

theorem CountsDown.sent_of_paused (hcounts : shutdown.CountsDown) (hpaused : shutdown.Paused) :
    shutdown.sent = true := by
  have hzero : shutdown.toStop = 0 := by
    rw [toStop_eq_zero_iff]
    intro task
    rw [hpaused task]
    rfl
  rcases hcounts.finished hzero with hsent | ⟨task, hkilling⟩
  · exact hsent
  · rw [hpaused task] at hkilling
    contradiction

theorem CountsDown.of_idles (hcounts : shutdown.CountsDown) (hidles : shutdown.Idles after) :
    after.CountsDown := by
  obtain ⟨hflag, hsent, hquit⟩ := hidles
  have hleft : after.toStop = shutdown.toStop := by rw [toStop, toStop, hquit]
  constructor
  · rw [hflag, hleft, hquit]
    exact hcounts.flag
  · rw [hleft, hsent, hquit]
    exact hcounts.finished
  · rw [hleft, hsent, hquit]
    exact hcounts.unsent

theorem CountsDown.of_moves {task : Fin 2} {pc : QuitPc} (hcounts : shutdown.CountsDown)
    (hmoves : shutdown.Moves after task pc) : after.CountsDown := by
  have hleft : after.toStop = shutdown.toStop := by
    have hsum := toStop_update hmoves.quit
    have hbefore := hmoves.before
    have hlater := hmoves.later
    omega
  have hpos : shutdown.toStop ≠ 0 := toStop_pos hmoves.before
  constructor
  · rw [hmoves.flag, hleft]
    rcases hcounts.flag with hcount | ⟨hzero, hboth, hnone⟩ | ⟨_, hdone⟩
    · exact .inl hcount
    · refine .inr (.inl ⟨hzero, hboth, ?_⟩)
      intro other
      rw [hmoves.quit, Function.update_apply]
      split
      · -- nobody begins to quit while the flag is 0
        rw [← Bool.not_eq_true]
        intro hquits
        rcases hmoves.begins hquits with hold | hset
        · rw [hnone task] at hold
          contradiction
        · exact hset hzero
      · exact hnone other
    · exact absurd hdone hpos
  · intro hzero
    exact absurd (hleft.symm.trans hzero) hpos
  · intro _
    obtain ⟨hunsent, hnone⟩ := hcounts.unsent hpos
    refine ⟨hmoves.sent.trans hunsent, ?_⟩
    intro other hkilling
    rw [hmoves.quit, Function.update_apply] at hkilling
    split at hkilling
    · have hlater := hmoves.later
      rw [hkilling] at hlater
      contradiction
    · exact hnone other hkilling

/-- `SIGINT` starts the count where nobody has counted yet or all have. -/
theorem CountsDown.of_sigint (hcounts : shutdown.CountsDown) (hkeeps : shutdown.quitWaitFlag ≠ 1) :
    CountsDown { shutdown with quitWaitFlag := 2 } := by
  have hrange := toStop_le shutdown
  have hcases : shutdown.toStop = 2 ∨ shutdown.toStop = 0 := by
    rcases hcounts.flag with hcount | ⟨_, hboth, _⟩ | ⟨_, hdone⟩
    · omega
    · exact .inl hboth
    · exact .inr hdone
  refine ⟨?_, hcounts.finished, hcounts.unsent⟩
  rcases hcases with hboth | hdone
  · exact .inl (congrArg Nat.cast hboth).symm
  · exact .inr (.inr ⟨rfl, hdone⟩)

/-- A reactor counts itself; the second one finds the flag at 1. -/
theorem CountsDown.of_count {task : Fin 2} (hcounts : shutdown.CountsDown)
    (hcounting : shutdown.quit task = .counting) :
    CountsDown { shutdown.goto task
        (if shutdown.quitWaitFlag - 1 = 0 then .killing else .pausing) with
      quitWaitFlag := shutdown.quitWaitFlag - 1 } := by
  obtain ⟨pc, hpc⟩ : ∃ pc, pc =
      if shutdown.quitWaitFlag - 1 = 0 then QuitPc.killing else .pausing := ⟨_, rfl⟩
  rw [← hpc]
  let after : Shutdown :=
    { shutdown.goto task pc with quitWaitFlag := shutdown.quitWaitFlag - 1 }
  have hbefore : (shutdown.quit task).toStop = 1 := by rw [hcounting]; rfl
  have hstopped : pc.toStop = 0 := by
    rw [hpc]
    split <;> rfl
  have hpos : shutdown.toStop ≠ 0 := toStop_pos hbefore
  have hsum : after.toStop + (shutdown.quit task).toStop = shutdown.toStop + pc.toStop :=
    toStop_update rfl
  have hflag : shutdown.quitWaitFlag = shutdown.toStop := by
    rcases hcounts.flag with hcount | ⟨_, _, hnone⟩ | ⟨_, hdone⟩
    · exact hcount
    · have hquits := hnone task
      rw [hcounting] at hquits
      contradiction
    · exact absurd hdone hpos
  have hquit : after.quit task = pc := Function.update_self _ _ _
  constructor
  · left
    change shutdown.quitWaitFlag - 1 = after.toStop
    omega
  · intro hzero
    change after.toStop = 0 at hzero
    refine .inr ⟨task, hquit.trans ?_⟩
    rw [hpc, if_pos (by omega)]
  · intro hleft
    change after.toStop ≠ 0 at hleft
    obtain ⟨hunsent, hnone⟩ := hcounts.unsent hpos
    refine ⟨hunsent, ?_⟩
    intro other hkilling
    change Function.update shutdown.quit task pc other = .killing at hkilling
    rw [Function.update_apply] at hkilling
    split at hkilling
    · rw [hpc, if_neg (by omega)] at hkilling
      contradiction
    · exact hnone other hkilling

theorem CountsDown.of_kill {task : Fin 2} (hcounts : shutdown.CountsDown)
    (hkilling : shutdown.quit task = .killing) :
    CountsDown { shutdown.goto task .pausing with sent := true } := by
  let after : Shutdown := { shutdown.goto task .pausing with sent := true }
  have hdone : shutdown.toStop = 0 := by
    by_contra hleft
    exact (hcounts.unsent hleft).2 task hkilling
  have hsum : after.toStop + (shutdown.quit task).toStop =
      shutdown.toStop + QuitPc.pausing.toStop := toStop_update rfl
  have hzero : after.toStop = 0 := by
    simp only [hdone, QuitPc.toStop] at hsum
    omega
  constructor
  · rcases hcounts.flag with hcount | ⟨_, hboth, _⟩ | ⟨hset, _⟩
    · left
      change shutdown.quitWaitFlag = after.toStop
      rw [hzero, hcount, hdone]
    · rw [hdone] at hboth
      contradiction
    · exact .inr (.inr ⟨hset, hzero⟩)
  · exact fun _ => .inl rfl
  · exact fun hleft => absurd hzero hleft

/-- As long as no `SIGINT` comes between the two reactors, the flag counts
down. -/
theorem countsDown_step (hcounts : shutdown.CountsDown) (hkeeps : shutdown.KeepsCount action)
    (hnext : shutdown.next action = some after) : after.CountsDown := by
  rcases next_cases hnext with hidles | ⟨task, pc, hmoves⟩ | ⟨rfl, rfl⟩ | ⟨task, hcounting, rfl⟩ |
    ⟨task, hkilling, rfl⟩
  · exact hcounts.of_idles hidles
  · exact hcounts.of_moves hmoves
  · exact hcounts.of_sigint hkeeps
  · exact hcounts.of_count hcounting
  · exact hcounts.of_kill hkilling

/-! ### The restarted count -/

/-- A `SIGINT` between the two reactors makes the second one count to 1. -/
theorem CountsDown.missed (hcounts : shutdown.CountsDown) (hrestarts : ¬ shutdown.KeepsCount action)
    (hnext : shutdown.next action = some after) : after.Missed := by
  cases action with
  | sigint =>
      have hone : shutdown.quitWaitFlag = 1 := Classical.not_not.mp hrestarts
      have hleft : shutdown.toStop = 1 := by
        rcases hcounts.flag with hcount | ⟨hzero, _⟩ | ⟨htwo, _⟩ <;> omega
      obtain ⟨hunsent, hnone⟩ := hcounts.unsent (by omega)
      unfold next at hnext
      obtain ⟨-, hnext⟩ := Option.ite_none_left_eq_some.mp hnext
      obtain ⟨-, heq⟩ := Option.ite_none_right_eq_some.mp hnext
      cases heq
      exact ⟨hunsent, hnone, .inr ⟨hleft, rfl⟩⟩
  | _ => exact absurd trivial hrestarts

theorem Missed.of_moves {task : Fin 2} {pc : QuitPc} (hmissed : shutdown.Missed)
    (hmoves : shutdown.Moves after task pc) : after.Missed := by
  have hleft : after.toStop = shutdown.toStop := by
    have hsum := toStop_update hmoves.quit
    have hbefore := hmoves.before
    have hlater := hmoves.later
    omega
  refine ⟨hmoves.sent.trans hmissed.unsent, ?_, ?_⟩
  · intro other hkilling
    rw [hmoves.quit, Function.update_apply] at hkilling
    split at hkilling
    · have hlater := hmoves.later
      rw [hkilling] at hlater
      contradiction
    · exact hmissed.unkilled other hkilling
  · rw [hleft, hmoves.flag]
    exact hmissed.count

theorem Missed.of_count {task : Fin 2} (hmissed : shutdown.Missed)
    (hcounting : shutdown.quit task = .counting) :
    Missed { shutdown.goto task
        (if shutdown.quitWaitFlag - 1 = 0 then .killing else .pausing) with
      quitWaitFlag := shutdown.quitWaitFlag - 1 } := by
  have hbefore : (shutdown.quit task).toStop = 1 := by rw [hcounting]; rfl
  have hpos : shutdown.toStop ≠ 0 := toStop_pos hbefore
  obtain ⟨hone, htwo⟩ := hmissed.count.resolve_left hpos
  rw [if_neg (by omega)]
  let after : Shutdown :=
    { shutdown.goto task .pausing with quitWaitFlag := shutdown.quitWaitFlag - 1 }
  have hsum : after.toStop + (shutdown.quit task).toStop =
      shutdown.toStop + QuitPc.pausing.toStop := toStop_update rfl
  have hstopped : QuitPc.pausing.toStop = 0 := rfl
  have hzero : after.toStop = 0 := by omega
  refine ⟨hmissed.unsent, ?_, .inl hzero⟩
  intro other hkilling
  change Function.update shutdown.quit task .pausing other = .killing at hkilling
  rw [Function.update_apply] at hkilling
  split at hkilling
  · contradiction
  · exact hmissed.unkilled other hkilling

theorem missed_step (hmissed : shutdown.Missed) (hnext : shutdown.next action = some after) :
    after.Missed := by
  rcases next_cases hnext with ⟨hflag, hsent, hquit⟩ | ⟨task, pc, hmoves⟩ | ⟨_, rfl⟩ |
    ⟨task, hcounting, rfl⟩ | ⟨task, hkilling, rfl⟩
  · have hleft : after.toStop = shutdown.toStop := by rw [toStop, toStop, hquit]
    refine ⟨hsent.trans hmissed.unsent, ?_, ?_⟩
    · rw [hquit]
      exact hmissed.unkilled
    · rw [hleft, hflag]
      exact hmissed.count
  · exact hmissed.of_moves hmoves
  · refine ⟨hmissed.unsent, hmissed.unkilled, ?_⟩
    rcases hmissed.count with hdone | ⟨hone, _⟩
    · exact .inl hdone
    · exact .inr ⟨hone, rfl⟩
  · exact hmissed.of_count hcounting
  · exact absurd hkilling (hmissed.unkilled task)

theorem countsDown_initial : initial.CountsDown where
  flag := .inr (.inl ⟨rfl, rfl, fun _ => rfl⟩)
  finished := by
    intro hdone
    contradiction
  unsent := fun _ => ⟨rfl, fun _ => by simp [initial]⟩

/-- In every run `SIGUSR2` is sent only after both reactors have cleared their
tables, and where both are in `pause` it has been sent if and only if no
`SIGINT` was handled between the two. -/
theorem paused_sent_iff {actions : List Action} (hrun : system.Run initial actions shutdown) :
    shutdown.SentLast ∧ (shutdown.Paused →
      (shutdown.sent = true ↔ (system.restrict KeepsCount).Run initial actions shutdown)) := by
  rcases hrun.kept_or_lost CountsDown Missed (fun _ _ _ => countsDown_step)
    (fun _ _ _ => CountsDown.missed) (fun _ _ _ => missed_step) countsDown_initial
    with ⟨hallowed, hcounts⟩ | hmissed
  · exact ⟨hcounts.sentLast, fun hpaused => iff_of_true (hcounts.sent_of_paused hpaused) hallowed⟩
  · have hunsent := hmissed.unsent
    constructor
    · intro hsent
      rw [hunsent] at hsent
      contradiction
    · intro hpaused
      refine iff_of_false (by simp [hunsent]) ?_
      intro hallowed
      have hcounts : shutdown.CountsDown := by
        refine hallowed.preserves CountsDown ?_ countsDown_initial
        rintro state action next hstate ⟨hkeeps, hnext⟩
        exact countsDown_step hstate hkeeps hnext
      have hsent := hcounts.sent_of_paused hpaused
      rw [hunsent] at hsent
      contradiction

instance (shutdown : Shutdown) : (action : Action) → Decidable (shutdown.KeepsCount action)
  | .sigint => inferInstanceAs (Decidable (shutdown.quitWaitFlag ≠ 1))
  | .server _ | .sigusr2 | .testQuit _ | .clear _ | .count _ | .kill _ => isTrue trivial

instance : DecidablePred Paused := fun shutdown =>
  inferInstanceAs (Decidable (∀ task, shutdown.quit task = .pausing))

/-- The task finds the flag set, clears its tables and counts itself. -/
def stops (task : Fin 2) : List Action := [.testQuit task, .clear task, .count task]

/-- One `SIGINT`, and both reactors stop. -/
theorem oneSigint_sent : ∃ shutdown : Shutdown, shutdown.Paused ∧ shutdown.sent = true := by
  obtain ⟨shutdown, ⟨start, actions, rfl, hallowed⟩, hpaused⟩ := Lts.exists_restricted_of_exec
    initial next KeepsCount Paused ([.sigint] ++ stops 0 ++ stops 1 ++ [.kill 1]) (by decide)
  exact ⟨shutdown, hpaused, ((paused_sent_iff hallowed.of_restrict).2 hpaused).mpr hallowed⟩

/-- A second `SIGINT` when only reactor 0 has stopped: both are in `pause`, the
flag is 1, and nothing is sent. -/
theorem twoSigints_hang : ∃ shutdown : Shutdown, system.Reachable shutdown ∧ shutdown.Paused ∧
    shutdown.quitWaitFlag = 1 ∧ shutdown.sent = false :=
  Lts.exists_reachable_of_exec initial next
    (fun shutdown => shutdown.Paused ∧ shutdown.quitWaitFlag = 1 ∧ shutdown.sent = false)
    ([.sigint] ++ stops 0 ++ [.sigint] ++ stops 1) (by decide)

end Shutdown

end ZtHttp
