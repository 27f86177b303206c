import Mathlib.Data.List.Basic
import ZtHttp.Event.Handler

/-!
# The multiplexer and the kernel

`EpollMultiplexer` keeps a table from descriptors to handlers, and the kernel
keeps the interest set of its epoll instance. `Process` holds both for every
reactor, with the handlers on the heap. Each section that the code holds a mutex
for is a function of its own, so that threads can be interleaved between them.
-/

namespace ZtHttp

open Imperative

/-- A pointer to an `EpollEventHandler`: the handler's place on the heap. -/
abbrev HandlerId := Nat

/-- A `map` keyed by descriptors. -/
abbrev FdMap (α : Type) := Std.ExtTreeMap Fd α

/-- The operations of `epoll_ctl`. -/
inductive Ctl where
  | add
  | mod
  | del
  deriving DecidableEq

/-- What the operation makes of the mask that the kernel holds for an open
descriptor: `ADD` wants none, `MOD` and `DEL` want one, and an operation that
fails changes nothing. -/
def Ctl.apply (events : UInt32) : Ctl → Option UInt32 → Option UInt32
  | .add, none => some events
  | .add, some old => some old
  | .mod, none => none
  | .mod, some _ => some events
  | .del, _ => none

/-- What the kernel keeps: the open descriptors and, for the epoll instance of
each reactor, its interest set with the masks. -/
structure Kernel (ρ : Type) where
  opened : Fd → Bool
  interest : ρ → FdMap UInt32

/-- The memory that the threads share. `fds` and `rdy` are the members of the
reactors' multiplexers; a null handler pointer is `none`. -/
structure Process (ρ : Type) where
  kernel : Kernel ρ
  fds : ρ → FdMap (UInt32 × Option HandlerId)
  rdy : ρ → FdMap UInt32
  heap : List (EpollEventHandler ρ)
  deleted : List HandlerId

namespace Kernel

variable {ρ : Type} [DecidableEq ρ]

/-- `epoll_ctl`, which wants an open descriptor. `granted` is false when the
kernel refuses for another reason, such as a full watch quota. -/
def epollCtl (granted : Bool) (r : ρ) (ctl : Ctl) (fd : Fd) (events : UInt32)
    (kernel : Kernel ρ) : Kernel ρ :=
  if granted && kernel.opened fd then
    { kernel with
      interest := fun other =>
        if other = r then (kernel.interest r).alter fd (ctl.apply events)
        else kernel.interest other }
  else kernel

/-- `close`, which takes the descriptor out of every interest set. -/
def close (fd : Fd) (kernel : Kernel ρ) : Kernel ρ where
  opened other := if other = fd then false else kernel.opened other
  interest r := (kernel.interest r).erase fd

/-- `accept` hands out a descriptor that is not open. -/
def accept (fd : Fd) (kernel : Kernel ρ) : Kernel ρ :=
  { kernel with opened := fun other => if other = fd then true else kernel.opened other }

end Kernel

namespace Process

variable {ρ : Type} [DecidableEq ρ]

def initial : Process ρ where
  kernel := ⟨fun _ => false, fun _ => ∅⟩
  fds _ := ∅
  rdy _ := ∅
  heap := []
  deleted := []

/-! ### The mutex sections -/

/-- `_fds.find(fd)` -/
def entry (process : Process ρ) (r : ρ) (fd : Fd) : Option (UInt32 × Option HandlerId) :=
  (process.fds r)[fd]?

def setTable (r : ρ) (table : FdMap (UInt32 × Option HandlerId)) (process : Process ρ) :
    Process ρ :=
  { process with fds := fun other => if other = r then table else process.fds other }

/-- `_fds[fd] = make_pair(events, handler)` -/
def insertEntry (r : ρ) (fd : Fd) (entry : UInt32 × Option HandlerId) (process : Process ρ) :
    Process ρ :=
  process.setTable r ((process.fds r).insert fd entry)

/-- `_fds.erase(fd)` -/
def eraseEntry (r : ρ) (fd : Fd) (process : Process ρ) : Process ρ :=
  process.setTable r ((process.fds r).erase fd)

/-- What `operator[]` does to the table before it is read: a missing key gets
no events and a null handler. -/
def touchEntry (r : ρ) (fd : Fd) (process : Process ρ) : Process ρ :=
  match process.entry r fd with
  | some _ => process
  | none => process.insertEntry r fd (0, none)

/-- `_fds[fd].first` -/
def storedEvents (r : ρ) (fd : Fd) (process : Process ρ) : UInt32 :=
  (process.entry r fd).elim 0 Prod.fst

def epollCtl (granted : Bool) (r : ρ) (ctl : Ctl) (fd : Fd) (events : UInt32)
    (process : Process ρ) : Process ρ :=
  { process with kernel := process.kernel.epollCtl granted r ctl fd events }

def closeFd (fd : Fd) (process : Process ρ) : Process ρ :=
  { process with kernel := process.kernel.close fd }

def setHandler (h : HandlerId) (handler : EpollEventHandler ρ) (process : Process ρ) :
    Process ρ :=
  { process with heap := process.heap.set h handler }

/-- `delete p_handler` -/
def delete (h : HandlerId) (process : Process ρ) : Process ρ :=
  { process with deleted := h :: process.deleted }

/-- `rdy[ev.data.fd] = ev.events` for each event that `epoll_wait` reported. -/
def setReady (r : ρ) (ready : List (Fd × UInt32)) (process : Process ρ) : Process ρ :=
  { process with
    rdy := fun other =>
      if other = r then
        ready.foldl (fun rdy event => rdy.insert event.1 event.2) (process.rdy other)
      else process.rdy other }

/-- `rdy.erase(rdy.begin(), rdy.end())` -/
def clearReady (r : ρ) (process : Process ρ) : Process ρ :=
  { process with rdy := fun other => if other = r then ∅ else process.rdy other }

/-- The critical section of `EpollMultiplexer::quit_and_rst()`: every key of the
table is closed, and both maps are emptied. -/
def quitAndRst (r : ρ) (process : Process ρ) : Process ρ :=
  let closed := (process.fds r).toList.foldl (fun process entry => process.closeFd entry.1) process
  (closed.setTable r ∅).clearReady r

/-- `accept` and `new EpollEventHandler(ee, reactor, new TcpSocket(fd))`. -/
def newHandler (events : UInt32) (fd : Fd) (reactor : ρ) (memory : Slots) (rdyEvents : UInt32)
    (process : Process ρ) : Process ρ :=
  { process with
    kernel := process.kernel.accept fd
    heap := process.heap ++ [.create events fd reactor (.create fd memory) rdyEvents] }

/-! ### The methods -/

/-- The handler behind a pointer, unless it was deleted. -/
def handler? (process : Process ρ) (h : HandlerId) : Option (EpollEventHandler ρ) :=
  if h ∈ process.deleted then none else process.heap[h]?

/-- Call a method of a handler. -/
def onHandler {α : Type} (h : HandlerId) (method : Method (EpollEventHandler ρ) α) :
    Method (Process ρ) α := fun process =>
  match process.handler? h with
  | none => .error .wildPointer process
  | some handler =>
      match method handler with
      | .ok value handler => .ok value (process.setHandler h handler)
      | .error fault handler => .error fault (process.setHandler h handler)

/-- Read the members of a handler. -/
def deref (h : HandlerId) : Method (Process ρ) (EpollEventHandler ρ) := fun process =>
  match process.handler? h with
  | none => .error .wildPointer process
  | some handler => .ok handler process

/-- `EpollMultiplexer::epollUpdate(fd, options)` -/
def epollUpdate (granted : Bool) (r : ρ) (fd : Fd) (options : Ctl) : Method (Process ρ) Unit := do
  modify (touchEntry r fd)
  let events := (← get).storedEvents r fd
  modify (epollCtl granted r options fd events)

/-- `EpollMultiplexer::register_handler(p_handler)` -/
def registerHandler (granted : Bool) (r : ρ) (h : HandlerId) : Method (Process ρ) Int := do
  let handler ← deref h
  let isAdd := ((← get).entry r handler.getFd).isNone
  modify (insertEntry r handler.getFd (handler.getEvents, some h))
  epollUpdate granted r handler.getFd (if isAdd then .add else .mod)
  return 0

/-- The loop of `EMTask::registerEvents` over the handlers it takes. -/
def registerAll (granted : Bool) (r : ρ) : List HandlerId → Method (Process ρ) Unit
  | [] => pure ()
  | h :: rest => do
      let _ ← registerHandler granted r h
      registerAll granted r rest

/-- `EpollMultiplexer::remove_handler(p_handler)` -/
def removeHandler (registerFlag : Int) (granted : Bool) (r : ρ) (h : HandlerId) :
    Method (Process ρ) Int := do
  if registerFlag ≠ 0 then return -1
  else
    let handler ← deref h
    if ((← get).entry r handler.getFd).isNone then return 0
    else
      modify (eraseEntry r handler.getFd)
      epollUpdate granted r handler.getFd .del
      modify (delete h)
      return 0

/-- `_p_tcp->disConnected()` of a handler, with the effect of its `::close`. -/
def disConnect (h : HandlerId) : Method (Process ρ) Unit := do
  onHandler h EpollEventHandler.disConnect
  match (← deref h).tcp with
  | none => pure ()
  | some socket => modify (closeFd socket.fd)

/-- `EpollEventHandler::handle_event()` -/
def handleEvent (registerFlag : Int) (granted : Bool) (outside : Outside) (h : HandlerId) :
    Method (Process ρ) Int := do
  if ← onHandler h (EpollEventHandler.serveReady outside) then disConnect h
  let _ ← removeHandler registerFlag granted (← deref h).reactor h
  return 0

/-! ### Equations -/

section

variable {ρ : Type}

theorem storedEvents_eq {process : Process ρ} {r : ρ} {fd : Fd}
    {value : UInt32 × Option HandlerId} (hentry : process.entry r fd = some value) :
    process.storedEvents r fd = value.1 := by
  rw [storedEvents, hentry, Option.elim_some]

/-- The mask with which the kernel watches the descriptor for a reactor. -/
def watched (process : Process ρ) (r : ρ) (fd : Fd) : Option UInt32 :=
  (process.kernel.interest r)[fd]?

theorem watched_closeFd (process : Process ρ) (fd key : Fd) (r : ρ) :
    (process.closeFd fd).watched r key = if key = fd then none else process.watched r key := by
  simp only [watched, closeFd, Kernel.close, Std.ExtTreeMap.getElem?_erase,
    Std.LawfulEqCmp.compare_eq_iff_eq, eq_comm (a := fd)]

end

@[simp] theorem entry_setTable (process : Process ρ) (r other : ρ)
    (table : FdMap (UInt32 × Option HandlerId)) (fd : Fd) :
    (process.setTable r table).entry other fd =
      if other = r then table[fd]? else process.entry other fd := by
  simp only [entry, setTable]
  split <;> rfl

theorem entry_insertEntry (process : Process ρ) (r other : ρ) (fd key : Fd)
    (value : UInt32 × Option HandlerId) :
    (process.insertEntry r fd value).entry other key =
      if other = r ∧ key = fd then some value else process.entry other key := by
  simp only [insertEntry, entry_setTable, Std.ExtTreeMap.getElem?_insert,
    Std.LawfulEqCmp.compare_eq_iff_eq, eq_comm (a := fd)]
  by_cases hr : other = r
  · simp only [hr, if_true, true_and, entry]
  · simp only [hr, if_false, false_and]

theorem entry_eraseEntry (process : Process ρ) (r other : ρ) (fd key : Fd) :
    (process.eraseEntry r fd).entry other key =
      if other = r ∧ key = fd then none else process.entry other key := by
  simp only [eraseEntry, entry_setTable, Std.ExtTreeMap.getElem?_erase,
    Std.LawfulEqCmp.compare_eq_iff_eq, eq_comm (a := fd)]
  by_cases hr : other = r
  · simp only [hr, if_true, true_and, entry]
  · simp only [hr, if_false, false_and]

theorem entry_touchEntry (process : Process ρ) (r other : ρ) (fd key : Fd) :
    (process.touchEntry r fd).entry other key =
      if other = r ∧ key = fd then some ((process.entry r fd).getD (0, none))
      else process.entry other key := by
  simp only [touchEntry]
  split
  · next value hentry =>
      split
      · next hsame => rw [hsame.1, hsame.2, hentry, Option.getD_some]
      · rfl
  · next hentry =>
      rw [entry_insertEntry, hentry, Option.getD_none]

theorem watched_epollCtl (process : Process ρ) (granted : Bool) (r other : ρ) (ctl : Ctl)
    (fd key : Fd) (events : UInt32) :
    (process.epollCtl granted r ctl fd events).watched other key =
      if (granted && process.kernel.opened fd) = true ∧ other = r ∧ key = fd then
        ctl.apply events (process.watched r fd)
      else process.watched other key := by
  simp only [watched, epollCtl, Kernel.epollCtl]
  by_cases hgranted : (granted && process.kernel.opened fd) = true
  · rw [if_pos hgranted]
    by_cases hr : other = r
    · simp only [hr, if_true, hgranted, true_and, Std.ExtTreeMap.getElem?_alter,
        Std.LawfulEqCmp.compare_eq_iff_eq, eq_comm (a := fd)]
    · simp only [hr, if_false, false_and, and_false]
  · rw [if_neg hgranted, if_neg fun h => hgranted h.1]

end Process

end ZtHttp
