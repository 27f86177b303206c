import ZtHttp.Http.Basic

/-!
# The connected socket

`TcpSocket` moves bytes between a descriptor, its two buffers and its `Http`
object. What its methods do outside the object is recorded, in order, in
`calls`; the record is no member of the class and nothing reads it.
-/

namespace ZtHttp

open Imperative

/-- A non-negative descriptor number. -/
abbrev Fd := Nat

/-- What a successful `recv` into an array of `_maxRecvSize` bytes delivers. -/
abbrev Piece := { bytes : List Byte // bytes ≠ [] ∧ bytes.length ≤ 1024 }

/-- The outcomes of `::recv`. -/
inductive RecvResult where
  | data (piece : Piece)
  | eof
  | error
  deriving DecidableEq

/-- The outcome of `::send` for each size passed: -1, or no more than the size. -/
structure SendResult where
  ret : Nat → Int
  ge : ∀ size, -1 ≤ ret size
  le : ∀ size, ret size ≤ size

/-- A kernel that accepts at most `limit` bytes in one `::send`. -/
def SendResult.upTo (limit : Nat) : SendResult where
  ret size := min limit size
  ge size := by omega
  le size := by omega

/-- A `SendCallFunc*`, which is handed `&_sendBuffer`. The tag is the pointer's
value. -/
structure SendCall where
  tag : Nat
  run : Method IOBuffer IOBuffer.ChunkPtr

/-- A `RecvCallFunc*`, which is handed `&_recvBuffer`. -/
structure RecvCall where
  tag : Nat
  run : Method IOBuffer Unit

/-- A `DisConnCallFunc*`, which is handed null. -/
structure DisConnCall where
  tag : Nat
  deriving DecidableEq

/-- The three callback members; null is `none`. -/
structure Slots where
  sendCall : Option SendCall
  recvCall : Option RecvCall
  disConnCall : Option DisConnCall

/-- Everything a socket does outside itself. -/
inductive SysCall where
  | recv (fd : Fd) (result : RecvResult)
  | send (fd : Fd) (offered : List Byte) (ret : Int)
  | shutdownWr (fd : Fd)
  | close (fd : Fd)
  | sendCall (tag : Nat)
  | recvCall (tag : Nat)
  | disConnCall (tag : Nat)
  | httpRead (bytes : List Byte)
  | httpWrite
  | consumeError
  deriving DecidableEq

def tcpNomal : UInt8 := 0
def tcpRdClosed : UInt8 := 1
def tcpWrClosed : UInt8 := 2

/-- `_maxSendSize`, which the constructor sets and no method changes. -/
def maxSendSize : UInt32 := 1024

structure TcpSocket where
  fd : Fd
  isConnected : Bool
  status : UInt8
  slots : Slots
  recvBuffer : IOBuffer
  sendBuffer : IOBuffer
  http : Http
  calls : List SysCall

namespace TcpSocket

/-- `TcpSocket(in_port_t fd_connected_sock)`: the parameter has 16 bits. The
constructor leaves the callback members as it finds them. -/
def create (fd : Fd) (memory : Slots) : TcpSocket where
  fd := fd % 2 ^ 16
  isConnected := true
  status := tcpNomal
  slots := memory
  recvBuffer := .empty
  sendBuffer := .empty
  http := ⟨[]⟩
  calls := []

def getFd (socket : TcpSocket) : Fd := socket.fd

/-- A socket just accepted on descriptor 5, its callback members null. -/
def fresh : TcpSocket := create 5 ⟨none, none, none⟩

def log (call : SysCall) : Method TcpSocket Unit :=
  modify fun socket => { socket with calls := socket.calls ++ [call] }

def onSendBuffer {α : Type} (method : Method IOBuffer α) : Method TcpSocket α :=
  .zoom sendBuffer (fun buffer socket => { socket with sendBuffer := buffer }) method

def onRecvBuffer {α : Type} (method : Method IOBuffer α) : Method TcpSocket α :=
  .zoom recvBuffer (fun buffer socket => { socket with recvBuffer := buffer }) method

def setSendCallBack (sendCall : Option SendCall) : Method TcpSocket Bool := do
  modify fun socket => { socket with slots := { socket.slots with sendCall } }
  return sendCall.isSome

def setRecvCallBack (recvCall : Option RecvCall) : Method TcpSocket Bool := do
  modify fun socket => { socket with slots := { socket.slots with recvCall } }
  return recvCall.isSome

def setDisConnectedCallBack (disConnCall : Option DisConnCall) : Method TcpSocket Bool := do
  modify fun socket => { socket with slots := { socket.slots with disConnCall } }
  return disConnCall.isSome

/-! ### Writing -/

/-- `if(_sendCall) _sendBuffer.append(_sendCall(&_sendBuffer)); _sendCall = nullptr;` -/
def runSendCall : Method TcpSocket Unit := do
  match (← get).slots.sendCall with
  | none => pure ()
  | some callback =>
      log (.sendCall callback.tag)
      let result ← onSendBuffer callback.run
      let _ ← onSendBuffer (IOBuffer.appendChunk result)
  let _ ← setSendCallBack none

/-- What `write` puts into `_sendBuffer` before it sends. -/
def collect (env : HttpEnv) (chunk : IOBuffer.ChunkPtr) : Method TcpSocket Unit := do
  let _ ← onSendBuffer (IOBuffer.appendChunk chunk)
  runSendCall
  log .httpWrite
  let _ ← onSendBuffer (Http.write env (← get).http)

/-- `if(!_sendBuffer.size()) shutdown(_fd_sock, SHUT_WR), _status &= TCP_WR_CLOSED;` -/
def shutdownWhenDrained : Method TcpSocket Unit := do
  if (← get).sendBuffer.size = 0 then
    log (.shutdownWr (← get).fd)
    modify fun socket => { socket with status := socket.status &&& tcpWrClosed }

/-- What `write` does with the result of `::send`. -/
def afterSend (siz : Int) : Method TcpSocket Int := do
  if siz = -1 ∨ siz = 0 then
    shutdownWhenDrained
    return 0
  else if ← onSendBuffer (IOBuffer.consume (UInt32.ofNat siz.toNat)) then
    shutdownWhenDrained
    return siz
  else
    log .consumeError
    shutdownWhenDrained
    return 0

/-- Send one window of `_sendBuffer`. -/
def transmit (kernel : SendResult) : Method TcpSocket Int := do
  let size := (← get).sendBuffer.size
  let sz := if maxSendSize < size then maxSendSize else size
  let wb ← onSendBuffer (IOBuffer.pullDown sz)
  let offered := (wb.getD []).take sz.toNat
  let siz := kernel.ret sz.toNat
  log (.send (← get).fd offered siz)
  afterSend siz

/-- `TcpSocket::write(chunk)` -/
def write (env : HttpEnv) (kernel : SendResult) (chunk : IOBuffer.ChunkPtr) :
    Method TcpSocket Int := do
  if !(← get).isConnected then return -1
  else
    collect env chunk
    transmit kernel

/-! ### Reading -/

/-- `_recvBuffer.append(new IOBuffer(rc, siz))` for data; the other outcomes
are only logged. -/
def receive (kernel : RecvResult) : Method TcpSocket Int := do
  log (.recv (← get).fd kernel)
  match kernel with
  | .data piece =>
      match IOBuffer.appendBytes piece.1 IOBuffer.empty with
      | .ok _ chunk =>
          let _ ← onRecvBuffer (IOBuffer.appendChunk (.other chunk))
          return piece.1.length
      | .error fault _ => Method.ofExcept (.error fault)
  | .eof => return 0
  | .error => return -1

/-- `if(_recvCall) _recvCall(&_recvBuffer); _recvCall = nullptr;` -/
def runRecvCall : Method TcpSocket Unit := do
  match (← get).slots.recvCall with
  | none => pure ()
  | some callback =>
      log (.recvCall callback.tag)
      onRecvBuffer callback.run
  let _ ← setRecvCallBack none

/-- `if(!_recvBuffer.size()) shutdown(_fd_sock, SHUT_WR), _status &= TCP_RD_CLOSED;` -/
def shutdownWhenEmpty : Method TcpSocket Unit := do
  if (← get).recvBuffer.size = 0 then
    log (.shutdownWr (← get).fd)
    modify fun socket => { socket with status := socket.status &&& tcpRdClosed }

/-- `_p_http->read(&_recvBuffer)` -/
def deliver : Method TcpSocket Unit := do
  let http ← onRecvBuffer (Http.read (← get).http)
  log (.httpRead http.inBuffer)
  modify fun socket => { socket with http }

/-- `TcpSocket::read(p_read_buffer)`, whose parameter has no effect. -/
def read (kernel : RecvResult) : Method TcpSocket Int := do
  if !(← get).isConnected then return -1
  else
    let siz ← receive kernel
    runRecvCall
    shutdownWhenEmpty
    deliver
    return siz

/-- `TcpSocket::disConnected()` -/
def disConnected : Method TcpSocket Int := do
  match (← get).slots.disConnCall with
  | none => pure ()
  | some callback => log (.disConnCall callback.tag)
  log (.close (← get).fd)
  modify fun socket => { socket with isConnected := false }
  return 0

end TcpSocket

end ZtHttp
