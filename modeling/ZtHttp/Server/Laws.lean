import ZtHttp.Event.Serving
import ZtHttp.Server.System

/-!
# What each step of the server does

The steps that call a method of the shared objects, as equations for the state
they leave. What the other steps leave is their definition.
-/

namespace ZtHttp

open Imperative Transition

namespace Process

variable {ρ : Type} [DecidableEq ρ]

theorem registerHandler_eq_ok {granted : Bool} {r : ρ} {h : HandlerId} {ret : Int}
    {process last : Process ρ} (hcall : registerHandler granted r h process = .ok ret last) :
    ∃ handler, process.handler? h = some handler ∧
      last = process.register granted r h handler := by
  obtain ⟨handler, same, hderef, hrest⟩ := Method.bind_eq_ok hcall
  obtain ⟨hhandler, rfl⟩ := deref_eq_ok hderef
  rw [registerHandler_eq hhandler] at hcall
  cases hcall
  exact ⟨handler, hhandler, rfl⟩

/-- What one registration preserves while it uses up the list, the loop
preserves. -/
theorem registerAll_preserves {granted : Bool} {r : ρ}
    (invariant : List HandlerId → Process ρ → Prop)
    (hregister : ∀ h rest process handler, invariant (h :: rest) process →
      process.handler? h = some handler → invariant rest (process.register granted r h handler))
    {handlers : List HandlerId} {process last : Process ρ} (hfirst : invariant handlers process)
    (hcall : registerAll granted r handlers process = .ok () last) : invariant [] last := by
  induction handlers generalizing process with
  | nil =>
      cases hcall
      exact hfirst
  | cons h rest ih =>
      obtain ⟨ret, middle, hhead, htail⟩ := Method.bind_eq_ok hcall
      obtain ⟨handler, hhandler, rfl⟩ := registerHandler_eq_ok hhead
      exact ih (hregister h rest process handler hfirst hhandler) htail

end Process

namespace Server

variable {count : Nat} {server after : Server count} {task : Fin count}

theorem call_eq_some {α : Type} {method : Method (Process (Fin count)) α} {value : α}
    (hcall : server.call method = some (value, after)) :
    method server.process = .ok value after.process ∧
      after = { server with process := after.process } := by
  rw [call] at hcall
  split at hcall
  · next result process hmethod =>
      cases hcall
      exact ⟨hmethod, rfl⟩
  · contradiction

/-! ### The handler in hand -/

/-- What the serving of the handler in hand leaves of it. -/
theorem serve_spec {outside : Outside} {h : HandlerId} {mask : UInt32}
    {rest : List (Fd × UInt32)} (hserve : server.serve task outside h mask rest = some after) :
    ∃ handler later pc, server.process.handler? h = some handler ∧ handler.SamePlace later ∧
      later.line = handler.line ∧ (pc = .closing h rest ∨ pc = .removing .testFlag h rest) ∧
      after = { server with process := server.process.setHandler h later }.goto task pc := by
  obtain ⟨⟨reaches, middle⟩, hcall, rfl⟩ := Option.map_eq_some_iff.mp hserve
  obtain ⟨hmethod, heq⟩ := call_eq_some hcall
  obtain ⟨handler, later, hhandler, hready, hprocess⟩ := Process.onHandler_eq_ok hmethod
  have hplace := (EpollEventHandler.admits_samePlace.bind
    (EpollEventHandler.samePlace_setRdyEvents mask)
    fun _ => EpollEventHandler.admits_samePlace.serveReady outside) handler
  have hline := (EpollEventHandler.admits_line.bind (EpollEventHandler.line_setRdyEvents mask)
    fun _ => EpollEventHandler.admits_line.serveReady outside) handler
  rw [Method.after_ok hready] at hplace hline
  refine ⟨handler, later, if reaches then .closing h rest else .removing .testFlag h rest,
    hhandler, hplace, hline, ?_, ?_⟩
  · cases reaches with
    | true => exact .inl rfl
    | false => exact .inr rfl
  · rw [heq, hprocess]

/-- What the closing of the handler in hand leaves of it. -/
theorem close_spec {h : HandlerId} {rest : List (Fd × UInt32)}
    (hclose : server.close task h rest = some after) :
    ∃ handler later socket, server.process.handler? h = some handler ∧ handler.SamePlace later ∧
      handler.tcp = some socket ∧ later.line = some (socket.fd, false) ∧
      after = { server with
        process := (server.process.setHandler h later).closeFd socket.fd }.goto task
          (.removing .testFlag h rest) := by
  obtain ⟨⟨value, middle⟩, hcall, rfl⟩ := Option.map_eq_some_iff.mp hclose
  obtain ⟨hmethod, heq⟩ := call_eq_some hcall
  obtain ⟨_, closed, hdisConnect, hrest⟩ := Method.bind_eq_ok hmethod
  obtain ⟨handler, later, hhandler, hmark, rfl⟩ := Process.onHandler_eq_ok hdisConnect
  have hplace := EpollEventHandler.samePlace_disConnect handler
  have hline := EpollEventHandler.line_disConnect handler
  rw [Method.after_ok hmark] at hplace hline
  obtain ⟨found, same, hderef, hsocket⟩ := Method.bind_eq_ok hrest
  obtain ⟨hfound, rfl⟩ := Process.deref_eq_ok hderef
  obtain ⟨hlive, hheap⟩ := Process.handler?_eq_some.mp hhandler
  have hset : (server.process.setHandler h later).heap[h]? = some later :=
    List.getElem?_set_self (List.getElem?_eq_some_iff.mp hheap).1
  cases hset.symm.trans (Process.handler?_eq_some.mp hfound).2
  cases htcp : handler.tcp with
  | none =>
      have hwild : (EpollEventHandler.disConnect : Method _ _) handler =
          .error .wildPointer handler :=
        Method.bind_error (by simp only [EpollEventHandler.onTcp, htcp])
      rw [hwild] at hmark
      contradiction
  | some socket =>
      rw [htcp, Option.map_some] at hline
      obtain ⟨marked, hmarked, hsame⟩ := Option.map_eq_some_iff.mp hline
      have hfd : marked.fd = socket.fd := congrArg Prod.fst hsame
      simp only [hmarked, Method.modify_apply, EStateM.Result.ok.injEq] at hsocket
      refine ⟨handler, later, socket, hhandler, hplace, htcp, hline, ?_⟩
      rw [heq, ← hsocket.2, hfd]

/-! ### `remove_handler` -/

section

variable {h : HandlerId} {rest : List (Fd × UInt32)} (handler : EpollEventHandler (Fin count))
  (stage : RemoveStage)

theorem heap_remove :
    (server.remove task handler h rest stage).process.heap = server.process.heap := by
  cases stage with
  | touch => simp only [remove, Process.heap_touchEntry]
  | testFlag | find | erase | ctl events | delete => rfl

theorem handoff_remove : (server.remove task handler h rest stage).handoff = server.handoff := by
  cases stage <;> rfl

theorem acceptor_remove :
    (server.remove task handler h rest stage).acceptor = server.acceptor := by
  cases stage <;> rfl

theorem rdy_remove :
    (server.remove task handler h rest stage).process.rdy = server.process.rdy := by
  cases stage with
  | touch => simp only [remove, Process.rdy_touchEntry]
  | testFlag | find | erase | ctl events | delete => rfl

theorem opened_remove (fd : Fd) :
    (server.remove task handler h rest stage).process.kernel.opened fd =
      server.process.kernel.opened fd := by
  cases stage with
  | touch => simp only [remove, Process.kernel_touchEntry]
  | ctl events => exact Process.opened_epollCtl _ _ _ _ _ _ _
  | testFlag | find | erase | delete => rfl

/-- `remove_handler` stores no handler. -/
theorem stored_of_remove {r : Fin count} {fd : Fd} {events : UInt32} {other : HandlerId}
    (hstored : (server.remove task handler h rest stage).process.entry r fd =
      some (events, some other)) : server.process.entry r fd = some (events, some other) := by
  cases stage with
  | erase =>
      rw [remove, Process.entry_eraseEntry, Option.ite_none_left_eq_some] at hstored
      exact hstored.2
  | touch => exact Process.stored_of_touchEntry hstored
  | testFlag | find | ctl events | delete => exact hstored

/-- `remove_handler` watches nothing. -/
theorem watched_of_remove {r : Fin count} {fd : Fd}
    (hfd : (server.remove task handler h rest stage).process.watched r fd ≠ none) :
    server.process.watched r fd ≠ none := by
  cases stage with
  | touch =>
      simp only [remove, Process.watched_touchEntry] at hfd
      exact hfd
  | ctl events =>
      rw [remove, Process.watched_epollCtl] at hfd
      split at hfd
      · exact absurd rfl hfd
      · exact hfd
  | testFlag | find | erase | delete => exact hfd

/-- The task goes on to another stage or to its next ready event. -/
theorem task_remove : ∃ pc, (pc = .dispatching rest ∨ ∃ stage', pc = .removing stage' h rest) ∧
    (server.remove task handler h rest stage).task = (server.goto task pc).task := by
  cases stage with
  | testFlag | find =>
      refine ⟨_, ?_, rfl⟩
      split
      · exact .inl rfl
      · exact .inr ⟨_, rfl⟩
  | erase | touch | ctl events => exact ⟨_, .inr ⟨_, rfl⟩, rfl⟩
  | delete => exact ⟨_, .inl rfl, rfl⟩

end

/-- The steps of the server, each with what it found and the state it leaves. -/
inductive Step [NeZero count] (server : Server count) : Action count → Server count → Prop
  | refused : server.acceptor = .accepting →
      Step server (.accept none) { server with reactorSelect := server.reactorSelect + 1 }
  | accepted {fd : Fd} {memory : Slots} {rdyEvents : UInt32} : server.acceptor = .accepting →
      server.process.kernel.opened fd = false →
      Step server (.accept (some (fd, memory, rdyEvents)))
        { server with
          reactorSelect := server.reactorSelect + 1
          process := server.process.newHandler (epollOut ||| epollRdHup) fd
            (server.reactorSelect + 1) memory rdyEvents
          acceptor := .enqueueing server.process.heap.length }
  | discarded {h : HandlerId} : server.acceptor = .enqueueing h →
      server.handoff.waitQueue.length = backlogQueue →
      Step server .enqueue { server with acceptor := .accepting }
  | enqueued {h : HandlerId} : server.acceptor = .enqueueing h →
      server.handoff.waitQueue.length ≠ backlogQueue →
      Step server .enqueue
        { server with handoff := server.handoff.enqueue h, acceptor := .signalling }
  | killed {handoff : Handoff HandlerId} : server.acceptor = .signalling →
      server.handoff.kill = some handoff →
      Step server .kill { server with handoff, acceptor := .accepting }
  | waited {handoff : Handoff HandlerId} : server.handoff.sigwait = some handoff →
      Step server .sigwait { server with handoff }
  | incremented {handoff : Handoff HandlerId} : server.handoff.increment = some handoff →
      Step server .increment { server with handoff }
  | selected {task : Fin count} {ready : List (Fd × UInt32)} :
      server.task task = .selecting →
      (∀ event ∈ ready, server.process.watched task event.1 ≠ none) →
      Step server (.select task ready)
        { server.goto task .testing with process := server.process.setReady task ready }
  | tested {task : Fin count} : server.task task = .testing →
      Step server (.testFlag task) (server.testFlag task)
  | drained {task : Fin count} {process : Process (Fin count)} :
      server.task task = .registering →
      Process.registerAll true task server.handoff.taken server.process = .ok () process →
      Step server (.drain task)
        ({ server with process, handoff := server.handoff.drain }.handleEvents task)
  | finished {task : Fin count} : server.task task = .dispatching [] →
      Step server (.dispatch task)
        { server.goto task .selecting with process := server.process.clearReady task }
  | dispatched {task : Fin count} {fd : Fd} {mask events : UInt32} {rest : List (Fd × UInt32)}
      {h : HandlerId} : server.task task = .dispatching ((fd, mask) :: rest) →
      server.process.entry task fd = some (events, some h) →
      Step server (.dispatch task) (server.goto task (.serving h mask rest))
  | served {task : Fin count} {outside : Outside} {h : HandlerId} {mask : UInt32}
      {rest : List (Fd × UInt32)} {process : Process (Fin count)} {pc : TaskPc} :
      server.task task = .serving h mask rest → server.process.Served process →
      pc = .closing h rest ∨ pc = .removing .testFlag h rest →
      Step server (.serve task outside) ({ server with process }.goto task pc)
  | closed {task : Fin count} {h : HandlerId} {rest : List (Fd × UInt32)}
      {process : Process (Fin count)} :
      server.task task = .closing h rest → server.process.Served process →
      Step server (.close task)
        ({ server with process }.goto task (.removing .testFlag h rest))
  | removed {task : Fin count} {stage : RemoveStage} {h : HandlerId} {rest : List (Fd × UInt32)}
      {handler : EpollEventHandler (Fin count)} :
      server.task task = .removing stage h rest → server.process.handler? h = some handler →
      Step server (.remove task) (server.remove task handler h rest stage)

section

variable [NeZero count]

theorem Step.of_accept {connection : Option (Fd × Slots × UInt32)}
    (hacceptor : server.acceptor = .accepting) (haccept : server.accept connection = some after) :
    Step server (.accept connection) after := by
  cases connection with
  | none =>
      cases haccept
      exact .refused hacceptor
  | some connection =>
      obtain ⟨fd, memory, rdyEvents⟩ := connection
      simp only [accept, Option.ite_none_left_eq_some, Bool.not_eq_true] at haccept
      obtain ⟨hclosed, heq⟩ := haccept
      cases heq
      exact .accepted hacceptor hclosed

theorem Step.of_select {ready : List (Fd × UInt32)} (hpc : server.task task = .selecting)
    (hselect : server.select task ready = some after) :
    Step server (.select task ready) after := by
  obtain ⟨⟨-, -, hready⟩, heq⟩ := Option.ite_none_right_eq_some.mp hselect
  cases heq
  apply Step.selected hpc
  intro event hevent hwatched
  have hreports := List.all_eq_true.mp hready event hevent
  simp only [reports, hwatched, Bool.false_eq_true] at hreports

theorem Step.of_drain (hpc : server.task task = .registering)
    (hdrain : server.drain task = some after) : Step server (.drain task) after := by
  obtain ⟨⟨value, middle⟩, hcall, rfl⟩ := Option.map_eq_some_iff.mp hdrain
  obtain ⟨hregister, heq⟩ := call_eq_some hcall
  rw [heq]
  exact .drained hpc hregister

theorem Step.of_dispatch {rest : List (Fd × UInt32)} (hpc : server.task task = .dispatching rest)
    (hdispatch : server.dispatch task rest = some after) : Step server (.dispatch task) after := by
  cases rest with
  | nil =>
      cases hdispatch
      exact .finished hpc
  | cons event left =>
      simp only [dispatch] at hdispatch
      split at hdispatch
      · next hentry =>
          cases hdispatch
          exact .dispatched hpc hentry
      · contradiction

theorem Step.of_serve {outside : Outside} {h : HandlerId} {mask : UInt32}
    {rest : List (Fd × UInt32)} (hpc : server.task task = .serving h mask rest)
    (hserve : server.serve task outside h mask rest = some after) :
    Step server (.serve task outside) after := by
  obtain ⟨handler, later, pc, hhandler, hplace, -, hafter, rfl⟩ := serve_spec hserve
  have hheap := (Process.handler?_eq_some.mp hhandler).2
  exact .served hpc (Process.served_setHandler hheap hplace) hafter

theorem Step.of_close {h : HandlerId} {rest : List (Fd × UInt32)}
    (hpc : server.task task = .closing h rest) (hclose : server.close task h rest = some after) :
    Step server (.close task) after := by
  obtain ⟨handler, later, socket, hhandler, hplace, -, -, rfl⟩ := close_spec hclose
  have hheap := (Process.handler?_eq_some.mp hhandler).2
  exact .closed hpc ((Process.served_setHandler hheap hplace).trans (Process.served_closeFd _ _))

/-- Every step of the system is one of the steps listed. -/
theorem step_of_next {action : Action count} (hnext : server.next action = some after) :
    Step server action after := by
  cases action with
  | accept connection =>
      obtain ⟨hacceptor, haccept⟩ := Option.ite_none_right_eq_some.mp hnext
      exact .of_accept hacceptor haccept
  | enqueue =>
      simp only [next] at hnext
      split at hnext
      · next h hacceptor =>
          cases hnext
          by_cases hfull : server.handoff.waitQueue.length = backlogQueue
          · rw [if_pos hfull, Handoff.enqueue, if_pos hfull]
            exact .discarded hacceptor hfull
          · rw [if_neg hfull]
            exact .enqueued hacceptor hfull
      · contradiction
  | kill =>
      obtain ⟨hacceptor, hkill⟩ := Option.ite_none_right_eq_some.mp hnext
      obtain ⟨handoff, hhandoff, rfl⟩ := Option.map_eq_some_iff.mp hkill
      exact .killed hacceptor hhandoff
  | sigwait =>
      obtain ⟨handoff, hhandoff, rfl⟩ := Option.map_eq_some_iff.mp hnext
      exact .waited hhandoff
  | increment =>
      obtain ⟨handoff, hhandoff, rfl⟩ := Option.map_eq_some_iff.mp hnext
      exact .incremented hhandoff
  | select task ready =>
      obtain ⟨hpc, hselect⟩ := Option.ite_none_right_eq_some.mp hnext
      exact .of_select hpc hselect
  | testFlag task =>
      obtain ⟨hpc, heq⟩ := Option.ite_none_right_eq_some.mp hnext
      cases heq
      exact .tested hpc
  | drain task =>
      obtain ⟨hpc, hdrain⟩ := Option.ite_none_right_eq_some.mp hnext
      exact .of_drain hpc hdrain
  | dispatch task =>
      simp only [next] at hnext
      split at hnext
      · next rest hpc => exact .of_dispatch hpc hnext
      · contradiction
  | serve task outside =>
      simp only [next] at hnext
      split at hnext
      · next h mask rest hpc => exact .of_serve hpc hnext
      · contradiction
  | close task =>
      simp only [next] at hnext
      split at hnext
      · next h rest hpc => exact .of_close hpc hnext
      · contradiction
  | remove task =>
      simp only [next] at hnext
      split at hnext
      · next stage h rest hpc =>
          obtain ⟨handler, hhandler, rfl⟩ := Option.map_eq_some_iff.mp hnext
          exact .removed hpc hhandler
      · contradiction

end

end Server

end ZtHttp
