import ZtHttp.Event.Laws
import ZtHttp.Server.Handoff

/-!
# The server

The accept loop, the signal thread and one `EMTask` for each reactor, stepping
in any order. A step is a section that the code holds a mutex for, or what lies
between two of them: `select`, `registerEvents`, the lookup of `handle_events`,
the serving and the closing of one handler, and the six stages of
`remove_handler`. A step that the code cannot survive, such as a call through a
null or a deleted handler, is not given.
-/

namespace ZtHttp

open Imperative Transition

/-- `EPOLL_EVNUMS` -/
def epollEvnums : Nat := 32

/-- Where the accept loop stands. -/
inductive AcceptorPc where
  /-- before `accept` -/
  | accepting
  /-- in `enqueue_and_wait`, before its critical section -/
  | enqueueing (h : HandlerId)
  /-- in `enqueue_and_wait`, before `pthread_kill` -/
  | signalling
  deriving DecidableEq

/-- Where `remove_handler` stands. -/
inductive RemoveStage where
  /-- before the test of `register_flag` -/
  | testFlag
  /-- before `_fds.find` -/
  | find
  /-- before `_fds.erase` -/
  | erase
  /-- in `epollUpdate`, before `_fds[fd].first` -/
  | touch
  /-- in `epollUpdate`, before `epoll_ctl` -/
  | ctl (events : UInt32)
  /-- before `delete p_handler` -/
  | delete
  deriving DecidableEq

/-- Where a task stands in `EMTask::run`. The lists are what is left of `rdy`. -/
inductive TaskPc where
  | selecting
  /-- before the test of `register_flag` -/
  | testing
  /-- before `registerEvents` -/
  | registering
  /-- in `handle_events`, before the lookup -/
  | dispatching (rest : List (Fd × UInt32))
  /-- with a handler in hand, before `setRdyEvents` -/
  | serving (h : HandlerId) (mask : UInt32) (rest : List (Fd × UInt32))
  /-- in `handle_event`, before `disConnected` -/
  | closing (h : HandlerId) (rest : List (Fd × UInt32))
  /-- in `remove_handler` -/
  | removing (stage : RemoveStage) (h : HandlerId) (rest : List (Fd × UInt32))
  deriving DecidableEq

/-- The whole server, with `count` reactors and their tasks. -/
structure Server (count : Nat) where
  process : Process (Fin count)
  handoff : Handoff HandlerId
  reactorSelect : Fin count
  acceptor : AcceptorPc
  task : Fin count → TaskPc

namespace Server

variable {count : Nat}

inductive Action (count : Nat) where
  /-- One iteration of the accept loop up to `enqueue_and_wait`; `none` is a
  failed `accept`. -/
  | accept (connection : Option (Fd × Slots × UInt32))
  | enqueue
  | kill
  | sigwait
  | increment
  | select (task : Fin count) (ready : List (Fd × UInt32))
  | testFlag (task : Fin count)
  | drain (task : Fin count)
  | dispatch (task : Fin count)
  | serve (task : Fin count) (outside : Outside)
  | close (task : Fin count)
  | remove (task : Fin count)

def initial [NeZero count] : Server count where
  process := .initial
  handoff := .initial
  reactorSelect := 0
  acceptor := .accepting
  task _ := .selecting

def goto (task : Fin count) (pc : TaskPc) (server : Server count) : Server count :=
  { server with task := fun other => if other = task then pc else server.task other }

/-- What a method of the shared objects returns and leaves, unless it faults. -/
def call {α : Type} (server : Server count) (method : Method (Process (Fin count)) α) :
    Option (α × Server count) :=
  match method server.process with
  | .ok value process => some (value, { server with process })
  | .error _ _ => none

def onHandoff (server : Server count) (next : Option (Handoff HandlerId)) :
    Option (Server count) :=
  next.map fun handoff => { server with handoff }

/-- `reactor_select=++reactor_select%_count`, `accept` and the new handler. -/
def accept [NeZero count] (server : Server count) :
    Option (Fd × Slots × UInt32) → Option (Server count)
  | none => some { server with reactorSelect := server.reactorSelect + 1 }
  | some (fd, memory, rdyEvents) =>
      if server.process.kernel.opened fd then none
      else
        some { server with
          reactorSelect := server.reactorSelect + 1
          process := server.process.newHandler (epollOut ||| epollRdHup) fd
            (server.reactorSelect + 1) memory rdyEvents
          acceptor := .enqueueing server.process.heap.length }

/-- What `epoll_wait` may report: the events that the descriptor is watched
for, and errors and hangups. -/
def reports (server : Server count) (task : Fin count) (event : Fd × UInt32) : Bool :=
  match server.process.watched task event.1 with
  | none => false
  | some events => event.2 != 0 && event.2 &&& ~~~(events ||| epollErr ||| epollHup) == 0

def select (server : Server count) (task : Fin count) (ready : List (Fd × UInt32)) :
    Option (Server count) :=
  if ready.length ≤ epollEvnums ∧ (ready.map Prod.fst).Nodup ∧
      ready.all (server.reports task) = true then
    some { server.goto task .testing with process := server.process.setReady task ready }
  else none

/-- `handle_events` begins with its copy of `rdy`. -/
def handleEvents (server : Server count) (task : Fin count) : Server count :=
  server.goto task (.dispatching (server.process.rdy task).toList)

def testFlag (server : Server count) (task : Fin count) : Server count :=
  if server.handoff.registerFlag = 0 then server.handleEvents task
  else server.goto task .registering

/-- `EMTask::registerEvents()` -/
def drain (server : Server count) (task : Fin count) : Option (Server count) :=
  (server.call (Process.registerAll true task server.handoff.taken)).map fun result =>
    { result.2 with handoff := server.handoff.drain }.handleEvents task

/-- One iteration of `handle_events` up to the handler's pointer, or its end. -/
def dispatch (server : Server count) (task : Fin count) :
    List (Fd × UInt32) → Option (Server count)
  | [] => some { server.goto task .selecting with process := server.process.clearReady task }
  | (fd, mask) :: rest =>
      match server.process.entry task fd with
      | some (_, some h) => some (server.goto task (.serving h mask rest))
      | _ => none

/-- `setRdyEvents` and `handle_event` up to `disConnected`. -/
def serve (server : Server count) (task : Fin count) (outside : Outside) (h : HandlerId)
    (mask : UInt32) (rest : List (Fd × UInt32)) : Option (Server count) :=
  (server.call (Process.onHandler h (do
    let _ ← EpollEventHandler.setRdyEvents mask
    EpollEventHandler.serveReady outside))).map fun result =>
      result.2.goto task (if result.1 then .closing h rest else .removing .testFlag h rest)

def close (server : Server count) (task : Fin count) (h : HandlerId)
    (rest : List (Fd × UInt32)) : Option (Server count) :=
  (server.call (Process.disConnect h)).map fun result =>
    result.2.goto task (.removing .testFlag h rest)

/-- One stage of `remove_handler` of the handler's own reactor. -/
def remove (server : Server count) (task : Fin count) (handler : EpollEventHandler (Fin count))
    (h : HandlerId) (rest : List (Fd × UInt32)) : RemoveStage → Server count
  | .testFlag =>
      server.goto task
        (if server.handoff.registerFlag ≠ 0 then .dispatching rest else .removing .find h rest)
  | .find =>
      server.goto task
        (if (server.process.entry handler.reactor handler.getFd).isNone then .dispatching rest
          else .removing .erase h rest)
  | .erase =>
      { server.goto task (.removing .touch h rest) with
        process := server.process.eraseEntry handler.reactor handler.getFd }
  | .touch =>
      let process := server.process.touchEntry handler.reactor handler.getFd
      { server.goto task
          (.removing (.ctl (process.storedEvents handler.reactor handler.getFd)) h rest) with
        process }
  | .ctl events =>
      { server.goto task (.removing .delete h rest) with
        process := server.process.epollCtl true handler.reactor .del handler.getFd events }
  | .delete => { server.goto task (.dispatching rest) with process := server.process.delete h }

def next [NeZero count] (server : Server count) : Action count → Option (Server count)
  | .accept connection =>
      if server.acceptor = .accepting then server.accept connection else none
  | .enqueue =>
      match server.acceptor with
      | .enqueueing h =>
          some { server with
            handoff := server.handoff.enqueue h
            acceptor :=
              if server.handoff.waitQueue.length = backlogQueue then .accepting
              else .signalling }
      | _ => none
  | .kill =>
      if server.acceptor = .signalling then
        { server with acceptor := .accepting }.onHandoff server.handoff.kill
      else none
  | .sigwait => server.onHandoff server.handoff.sigwait
  | .increment => server.onHandoff server.handoff.increment
  | .select task ready => if server.task task = .selecting then server.select task ready else none
  | .testFlag task => if server.task task = .testing then some (server.testFlag task) else none
  | .drain task => if server.task task = .registering then server.drain task else none
  | .dispatch task =>
      match server.task task with
      | .dispatching rest => server.dispatch task rest
      | _ => none
  | .serve task outside =>
      match server.task task with
      | .serving h mask rest => server.serve task outside h mask rest
      | _ => none
  | .close task =>
      match server.task task with
      | .closing h rest => server.close task h rest
      | _ => none
  | .remove task =>
      match server.task task with
      | .removing stage h rest =>
          (server.process.handler? h).map fun handler => server.remove task handler h rest stage
      | _ => none

/-- The server from its start. -/
def system (count : Nat) [NeZero count] : Lts (Server count) (Action count) :=
  .ofNext initial next

end Server

end ZtHttp
