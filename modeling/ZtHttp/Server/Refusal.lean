import ZtHttp.Server.Leftover

/-!
# The refused connection

`enqueue_and_wait` returns nothing, so the accept loop goes on in the same way
whether the handler was queued or discarded. A queued connection stays queued
until a task takes it; the discarded one is left to nobody, with its descriptor
open.
-/

namespace ZtHttp

open Transition

/-- The server, with the handlers that `registerEvents` has ever taken. No step
reads the record. -/
structure Intake (count : Nat) where
  server : Server count
  taken : List HandlerId

namespace Intake

variable {count : Nat}

section

variable [NeZero count]

def initial : Intake count := ⟨.initial, []⟩

/-- What the step takes from the queue. -/
def takes (server : Server count) : Server.Action count → List HandlerId
  | .drain _ => server.handoff.taken
  | _ => []

def next (intake : Intake count) (action : Server.Action count) : Option (Intake count) :=
  (intake.server.next action).map fun server =>
    { server, taken := takes intake.server action ++ intake.taken }

def system (count : Nat) [NeZero count] : Lts (Intake count) (Server.Action count) :=
  .ofNext initial next

end

/-- Every accepted connection for which `enqueue_and_wait` has been left is
queued, was taken from the queue, or is closed. -/
def NoneAbandoned (intake : Intake count) : Prop :=
  ∀ h < intake.server.process.heap.length, intake.server.acceptor ≠ .enqueueing h →
    h ∈ intake.server.handoff.waitQueue ∨ h ∈ intake.taken ∨
      intake.server.process.closed h = true

/-- The same without the closed ones, which is what the steps keep. -/
def Kept (intake : Intake count) : Prop :=
  ∀ h < intake.server.process.heap.length, intake.server.acceptor ≠ .enqueueing h →
    h ∈ intake.server.handoff.waitQueue ∨ h ∈ intake.taken

/-- `enqueue_and_wait` finds room in the queue. -/
def FindsRoom (intake : Intake count) : Server.Action count → Prop
  | .enqueue => intake.server.handoff.waitQueue.length ≠ backlogQueue
  | _ => True

variable {intake : Intake count} {after : Server count}

theorem Kept.noneAbandoned (hkept : intake.Kept) : intake.NoneAbandoned := by
  intro h hmade hleft
  rcases hkept h hmade hleft with hqueued | htaken
  · exact .inl hqueued
  · exact .inr (.inl htaken)

/-- A step that leaves the heap's length and the queue alone, and takes no
connection out of the acceptor's hands. -/
theorem Kept.frame (hkept : intake.Kept)
    (hheap : after.process.heap.length = intake.server.process.heap.length)
    (hqueue : after.handoff.waitQueue = intake.server.handoff.waitQueue)
    (hacceptor : ∀ h, intake.server.acceptor = .enqueueing h → after.acceptor = .enqueueing h) :
    Kept { intake with server := after } := by
  intro h hmade hleft
  rw [hheap] at hmade
  rw [hqueue]
  exact hkept h hmade fun hholds => hleft (hacceptor h hholds)

/-- A connection waits to be enqueued while the acceptor has it. -/
theorem Kept.accepted {connection : EpollEventHandler (Fin count)} (hkept : intake.Kept)
    (hacceptor : intake.server.acceptor = .accepting)
    (hheap : after.process.heap = intake.server.process.heap ++ [connection])
    (hqueue : after.handoff = intake.server.handoff)
    (hholds : after.acceptor = .enqueueing intake.server.process.heap.length) :
    Kept { intake with server := after } := by
  intro h hmade hleft
  have hold : h < intake.server.process.heap.length := by
    have hne : h ≠ intake.server.process.heap.length := by
      rintro rfl
      exact hleft hholds
    simp only [hheap, List.length_append, List.length_singleton] at hmade
    omega
  rw [hqueue]
  exact hkept h hold (by rw [hacceptor]; nofun)

/-- With room in the queue, the acceptor's connection goes there. -/
theorem Kept.enqueued {held : HandlerId} (hkept : intake.Kept)
    (hacceptor : intake.server.acceptor = .enqueueing held)
    (hroom : intake.server.handoff.waitQueue.length ≠ backlogQueue) :
    Kept { intake with server := { intake.server with
      handoff := intake.server.handoff.enqueue held, acceptor := .signalling } } := by
  intro h hmade _
  simp only [Handoff.enqueue_waitQueue hroom, List.mem_append, List.mem_singleton]
  by_cases hheld : h = held
  · exact .inl (.inr hheld)
  · have hleft : intake.server.acceptor ≠ .enqueueing h := by
      rw [hacceptor]
      intro hsame
      cases hsame
      exact hheld rfl
    rcases hkept h hmade hleft with hqueued | htaken
    · exact .inl (.inl hqueued)
    · exact .inr htaken

/-- What leaves the queue is recorded. -/
theorem Kept.drained (hkept : intake.Kept)
    (hheap : after.process.heap.length = intake.server.process.heap.length)
    (hacceptor : after.acceptor = intake.server.acceptor) :
    Kept ⟨after, intake.server.handoff.taken ++ intake.taken⟩ := by
  intro h hmade hleft
  rw [hheap] at hmade
  rw [hacceptor] at hleft
  refine .inr (List.mem_append.mpr ?_)
  rcases hkept h hmade hleft with hqueued | htaken
  · exact .inl (List.mem_reverse.mpr hqueued)
  · exact .inr htaken

theorem registerAll_heap {task : Fin count} {handlers : List HandlerId}
    {process last : Process (Fin count)}
    (hcall : Process.registerAll true task handlers process = .ok () last) :
    last.heap = process.heap :=
  Process.registerAll_preserves (fun _ middle => middle.heap = process.heap)
    (fun _ _ _ _ hsame _ => (Process.heap_register true).trans hsame) rfl hcall

variable [NeZero count]

/-- A step keeps the connections unless it is an `enqueue_and_wait` that finds
the queue full. -/
theorem kept_step {action : Server.Action count} (hkept : intake.Kept)
    (hroom : intake.FindsRoom action) (hstep : Server.Step intake.server action after) :
    Kept ⟨after, takes intake.server action ++ intake.taken⟩ := by
  cases hstep with
  | accepted hacceptor hclosed => exact hkept.accepted hacceptor rfl rfl rfl
  | enqueued hacceptor hfree => exact hkept.enqueued hacceptor hfree
  | discarded hacceptor hfull => exact (hroom hfull).elim
  | drained hpc hregister =>
      exact hkept.drained (congrArg List.length (registerAll_heap hregister)) rfl
  | refused | selected | finished | dispatched => exact hkept
  | killed hacceptor hkill =>
      refine hkept.frame rfl (Handoff.sameQueue_kill hkill).waitQueue fun h hholds => ?_
      rw [hacceptor] at hholds
      contradiction
  | waited hwait =>
      exact hkept.frame rfl (Handoff.sameQueue_sigwait hwait).waitQueue fun _ => id
  | incremented hincrement =>
      exact hkept.frame rfl (Handoff.sameQueue_increment hincrement).waitQueue fun _ => id
  | tested hpc =>
      rw [Server.testFlag]
      split <;> exact hkept
  | served hpc hserved hafter => exact hkept.frame hserved.heapLength rfl fun _ => id
  | closed hpc hserved => exact hkept.frame hserved.heapLength rfl fun _ => id
  | removed hpc hhandler =>
      exact hkept.frame (congrArg List.length (Server.heap_remove _ _))
        (congrArg Handoff.waitQueue (Server.handoff_remove _ _))
        fun _ => (Server.acceptor_remove _ _).trans

/-- As long as every call of `enqueue_and_wait` finds room in the queue, no
accepted connection is abandoned open. -/
theorem none_abandoned {intake : Intake count}
    (hreach : ((system count).restrict FindsRoom).Reachable intake) : intake.NoneAbandoned := by
  refine (hreach.invariant Kept ?_ ?_).noneAbandoned
  · rintro start rfl h hmade
    contradiction
  · rintro first action last hkept ⟨hroom, hnext⟩
    obtain ⟨after, hserver, rfl⟩ := Option.map_eq_some_iff.mp hnext
    exact kept_step hkept hroom (Server.step_of_next hserver)

instance (intake : Intake count) :
    (action : Server.Action count) → Decidable (intake.FindsRoom action)
  | .enqueue => inferInstanceAs (Decidable (_ ≠ _))
  | .accept _ | .kill | .sigwait | .increment | .select _ _ | .testFlag _ | .drain _
  | .dispatch _ | .serve _ _ | .close _ | .remove _ => isTrue trivial

/-- A connection on `fd` up to the call of `enqueue_and_wait`, which is made. -/
def calls (fd : Fd) : List (Server.Action 1) :=
  [.accept (some (fd, ⟨none, none, none⟩, 0)), .enqueue]

/-- The first connection is queued. -/
theorem firstCall_queued : ∃ intake : Intake 1, intake.NoneAbandoned ∧
    intake.server.handoff.waitQueue = [0] := by
  obtain ⟨intake, hreach, hqueued⟩ := Lts.exists_restricted_of_exec (initial : Intake 1) next
    FindsRoom (fun intake => intake.server.handoff.waitQueue = [0]) (calls 5) (by decide +kernel)
  exact ⟨intake, none_abandoned hreach, hqueued⟩

/-- `BACKLOG_Queue` connections that nobody drains, and one more. -/
def flood : List (Server.Action 1) :=
  (List.range backlogQueue).flatMap (fun n => calls (n + 5) ++ [.kill]) ++ calls 100

/-- The last connection is discarded, and its descriptor stays open. -/
theorem flood_abandons : ∃ intake : Intake 1, (system 1).Reachable intake ∧
    ¬ intake.NoneAbandoned ∧ intake.server.process.kernel.opened 100 = true := by
  obtain ⟨intake, hreach, hmade, hleft, hqueue, htaken, hopen, hdescriptor⟩ :=
    Lts.exists_reachable_of_exec (initial : Intake 1) next
      (fun intake => 32 < intake.server.process.heap.length ∧
        intake.server.acceptor ≠ .enqueueing 32 ∧ 32 ∉ intake.server.handoff.waitQueue ∧
        32 ∉ intake.taken ∧ intake.server.process.closed 32 ≠ true ∧
        intake.server.process.kernel.opened 100 = true) flood (by decide +kernel)
  refine ⟨intake, hreach, ?_, hdescriptor⟩
  intro hnone
  rcases hnone 32 hmade hleft with hqueued | hrecorded | hclosed
  · exact hqueue hqueued
  · exact htaken hrecorded
  · exact hopen hclosed

end Intake

end ZtHttp
