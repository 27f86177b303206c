import ZtHttp.Tcp.Socket

/-!
# The handler of one connection

`EpollEventHandler::handle_event` serves a ready mask on its socket and then
asks its reactor to remove it. Every path ends in that request, so the object's
own part of the function is the serving and, on most paths, the closing.
-/

namespace ZtHttp

open Imperative

def epollIn : UInt32 := 0x001
def epollOut : UInt32 := 0x004
def epollErr : UInt32 := 0x008
def epollHup : UInt32 := 0x010
def epollRdHup : UInt32 := 0x2000

/-- The mask has the event. -/
def has (mask event : UInt32) : Bool := mask &&& event != 0

/-- `EpollEventHandler`. A pointer to a socket that was never set is `none`, and
`ρ` names the reactors. -/
structure EpollEventHandler (ρ : Type) where
  events : UInt32
  fd : Fd
  rdyEvents : UInt32
  tcp : Option TcpSocket
  reactor : ρ

/-- What one `handle_event` finds outside its object. -/
structure Outside where
  recv : RecvResult
  send : SendResult
  env : HttpEnv

namespace EpollEventHandler

variable {ρ : Type}

/-- `EpollEventHandler(ee, p_reactor, p_tcpsocket)`, which leaves `_rdy_events`
as it finds it. -/
def create (events : UInt32) (fd : Fd) (reactor : ρ) (tcp : TcpSocket) (rdyEvents : UInt32) :
    EpollEventHandler ρ where
  events := events
  fd := fd
  rdyEvents := rdyEvents
  tcp := some tcp
  reactor := reactor

/-- `EpollEventHandler(ee, p_reactor)`: the socket that it allocates goes to a
local variable of the same name as the member. -/
def createWithoutSocket (events : UInt32) (fd : Fd) (reactor : ρ) (rdyEvents : UInt32) :
    EpollEventHandler ρ where
  events := events
  fd := fd
  rdyEvents := rdyEvents
  tcp := none
  reactor := reactor

/-- What the accept loop builds for a connection: it registers `EPOLLOUT` and
`EPOLLRDHUP`, the mask with `EPOLLIN` being commented out. The members that no
constructor sets are what the memory holds. -/
def accepted (fd : Fd) (reactor : ρ) (memory : Slots) (rdyEvents : UInt32) :
    EpollEventHandler ρ :=
  create (epollOut ||| epollRdHup) fd reactor (TcpSocket.create fd memory) rdyEvents

/-- Call a method of `_p_tcp`. -/
def onTcp {α : Type} (method : Method TcpSocket α) : Method (EpollEventHandler ρ) α :=
  fun handler =>
    match handler.tcp with
    | none => .error .wildPointer handler
    | some socket =>
        match method socket with
        | .ok value socket => .ok value { handler with tcp := some socket }
        | .error fault socket => .error fault { handler with tcp := some socket }

def getFd (handler : EpollEventHandler ρ) : Fd := handler.fd

def getEvents (handler : EpollEventHandler ρ) : UInt32 := handler.events

def setRdyEvents (events : UInt32) : Method (EpollEventHandler ρ) Bool := do
  modify fun handler => { handler with rdyEvents := events }
  return true

def handleRead (kernel : RecvResult) : Method (EpollEventHandler ρ) Bool := do
  if (← onTcp (TcpSocket.read kernel)) = -1 then return false
  return true

def handleWrite (env : HttpEnv) (kernel : SendResult) : Method (EpollEventHandler ρ) Bool := do
  if (← onTcp (TcpSocket.write env kernel .null)) = -1 then return false
  return true

def handleErr : Method (EpollEventHandler ρ) Bool := return true

def handleHangup : Method (EpollEventHandler ρ) Bool := return true

def isConnected : Method (EpollEventHandler ρ) Bool :=
  onTcp ((·.isConnected) <$> get)

/-- `if(_rdy_events & event) if(!handle()) if(!_p_tcp->isConnected())`: false
when the innermost branch is entered, which ends the function. -/
def serve (event : UInt32) (handle : Method (EpollEventHandler ρ) Bool) :
    Method (EpollEventHandler ρ) Bool := do
  if has (← get).rdyEvents event then
    if ← handle then return true else isConnected
  else return true

/-- `handle_event` up to `_p_tcp->disConnected()`. The result tells whether the
function gets there; otherwise it goes on with `remove_handler` at once. -/
def serveReady (outside : Outside) : Method (EpollEventHandler ρ) Bool := do
  let rdyEvents := (← get).rdyEvents
  if has rdyEvents epollErr then
    let _ ← handleErr
    return false
  else if has rdyEvents epollHup then
    let _ ← handleHangup
    return false
  else if ← serve epollIn (handleRead outside.recv) then
    serve epollOut (handleWrite outside.env outside.send)
  else return false

/-- `_p_tcp->disConnected()` -/
def disConnect : Method (EpollEventHandler ρ) Unit := do
  let _ ← onTcp TcpSocket.disConnected

/-- `handle_event` up to `remove_handler(this)`. -/
def handleIo (outside : Outside) : Method (EpollEventHandler ρ) Unit := do
  if ← serveReady outside then disConnect

/-! ### Equations -/

theorem onTcp_ok {α : Type} {method : Method TcpSocket α} {handler : EpollEventHandler ρ}
    {socket socket' : TcpSocket} {value : α} (htcp : handler.tcp = some socket)
    (hmethod : method socket = .ok value socket') :
    onTcp method handler = .ok value { handler with tcp := some socket' } := by
  simp only [onTcp, htcp, hmethod]

theorem onTcp_error {α : Type} {method : Method TcpSocket α} {handler : EpollEventHandler ρ}
    {socket socket' : TcpSocket} {fault : Fault} (htcp : handler.tcp = some socket)
    (hmethod : method socket = .error fault socket') :
    onTcp method handler = .error fault { handler with tcp := some socket' } := by
  simp only [onTcp, htcp, hmethod]

theorem isConnected_eq {handler : EpollEventHandler ρ} {socket : TcpSocket}
    (htcp : handler.tcp = some socket) :
    isConnected handler = .ok socket.isConnected handler := by
  have hsame : { handler with tcp := some socket } = handler := by rw [← htcp]
  have hread : (((·.isConnected) <$> get) : Method TcpSocket Bool) socket =
      .ok socket.isConnected socket := rfl
  rw [isConnected, onTcp_ok htcp hread, hsame]

/-- A mask without the event serves nothing. -/
theorem serve_skip {event : UInt32} {handle : Method (EpollEventHandler ρ) Bool}
    {handler : EpollEventHandler ρ} (hskip : has handler.rdyEvents event = false) :
    serve event handle handler = .ok true handler := by
  rw [serve, Method.bind_ok (Method.get_apply _), if_neg (by simp [hskip])]
  rfl

theorem serve_error {event : UInt32} {handle : Method (EpollEventHandler ρ) Bool}
    {handler after : EpollEventHandler ρ} {fault : Fault}
    (hready : has handler.rdyEvents event = true) (hhandle : handle handler = .error fault after) :
    serve event handle handler = .error fault after := by
  rw [serve, Method.bind_ok (Method.get_apply _), if_pos hready, Method.bind_error hhandle]

/-- A mask with `EPOLLERR` or `EPOLLHUP` touches nothing. -/
theorem serveReady_broken {outside : Outside} {handler : EpollEventHandler ρ}
    (hbroken : has handler.rdyEvents epollErr = true ∨ has handler.rdyEvents epollHup = true) :
    serveReady outside handler = .ok false handler := by
  rw [serveReady, Method.bind_ok (Method.get_apply _)]
  by_cases herr : has handler.rdyEvents epollErr = true
  · rw [if_pos herr]
    rfl
  · rw [if_neg herr, if_pos (hbroken.resolve_left herr)]
    rfl

/-- Any other mask is tested for reading first. -/
theorem serveReady_unbroken (outside : Outside) {handler : EpollEventHandler ρ}
    (herr : has handler.rdyEvents epollErr = false)
    (hhup : has handler.rdyEvents epollHup = false) :
    serveReady outside handler = (serve epollIn (handleRead outside.recv) >>= fun goesOn =>
      if goesOn then serve epollOut (handleWrite outside.env outside.send) else pure false)
        handler := by
  rw [serveReady, Method.bind_ok (Method.get_apply _)]
  simp only [herr, hhup, Bool.false_eq_true, if_false]

end EpollEventHandler

end ZtHttp
