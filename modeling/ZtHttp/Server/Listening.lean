import ZtHttp.Foundation.CString

/-!
# Listening sockets

`start_up` of the server, `startup` of `simHttp` and the constructor of
`TcpListeningSocket` bring up a listening socket in the same way. They differ in what
they make of a call that fails, and in how they learn the number that the kernel
chose where they were given 0.
-/

namespace ZtHttp

open Imperative

/-- A `struct sockaddr_in`, byte by byte, on a little-endian host. -/
abbrev SockaddrIn := CharArray 16

def htons (short : UInt16) : UInt16 := short >>> 8 ||| short <<< 8

def ntohs (short : UInt16) : UInt16 := short >>> 8 ||| short <<< 8

namespace SockaddrIn

/-- `sin_port` -/
def sinPort (name : SockaddrIn) : UInt16 := name[2].toUInt16 ||| name[3].toUInt16 <<< 8

/-- `name.sin_family=AF_INET`, `name.sin_port=htons(port)` and
`name.sin_addr.s_addr=htonl(INADDR_ANY)` -/
def fill (port : UInt16) (name : SockaddrIn) : SockaddrIn :=
  let short := htons port
  ((((((((name.set 0 2).set 1 0).set 2 short.toUInt8).set 3 (short >>> 8).toUInt8).set 4 0).set
    5 0).set 6 0).set 7 0)

/-- The number that the kernel finds, which has its high byte first. -/
def number (name : SockaddrIn) : UInt16 := name[2].toUInt16 <<< 8 ||| name[3].toUInt16

end SockaddrIn

/-- What the kernel keeps of a socket. -/
structure Listener where
  port : Option UInt16
  listening : Bool
  reuseAddr : Bool
  keepAlive : Bool

/-- Which calls the kernel grants, and the number that it chooses for a socket. -/
structure Net where
  socket : Bool
  bind : Bool
  listen : Bool
  getsockname : Bool
  ephemeral : UInt16
  ephemeral_ne : ephemeral ≠ 0

/-- A `setsockopt` of an `int`. -/
inductive SockOpt where
  | reuseAddr
  | keepAlive

namespace Net

variable (net : Net)

/-- `socket(AF_INET, SOCK_STREAM, 0)`; `none` is -1. -/
def openSocket : Option Listener :=
  if net.socket then some ⟨none, false, false, false⟩ else none

/-- `bind`, with what it returns. -/
def bindTo (name : SockaddrIn) : Option Listener → Int × Option Listener
  | none => (-1, none)
  | some listener =>
      if net.bind then
        (0, some { listener with
          port := some (if name.number = 0 then net.ephemeral else name.number) })
      else (-1, some listener)

/-- `listen`, which gives a socket that has no number one. -/
def listenOn : Option Listener → Int × Option Listener
  | none => (-1, none)
  | some listener =>
      if net.listen then
        (0, some { listener with
          port := some (listener.port.getD net.ephemeral)
          listening := true })
      else (-1, some listener)

/-- `getsockname` writes no more bytes of the address than it is told to. -/
def nameOf (length : Nat) (name : SockaddrIn) : Option Listener → Int × SockaddrIn
  | none => (-1, name)
  | some listener =>
      if net.getsockname then
        let own := SockaddrIn.fill (listener.port.getD 0) (.replicate 16 0)
        (0, .ofFn fun index => if index < length then own[index] else name[index])
      else (-1, name)

end Net

/-- `setsockopt` wants a value of the length of an `int`. -/
def setsockopt (option : SockOpt) (length : Nat) : Option Listener → Int × Option Listener
  | none => (-1, none)
  | some listener =>
      if length < 4 then (-1, some listener)
      else
        match option with
        | .reuseAddr => (0, some { listener with reuseAddr := true })
        | .keepAlive => (0, some { listener with keepAlive := true })

/-- `start_up(port)`, with what it leaves in `port`. A call that fails is only
logged. `name` is what `s_name` holds before it is written to. -/
def startUp (net : Net) (name : SockaddrIn) (port : UInt16) : Option Listener × UInt16 :=
  let sock := net.openSocket
  let (sock, name) :=
    if port ≠ 0 then ((net.bindTo (name.fill port) sock).2, name.fill port) else (sock, name)
  let sock := (net.listenOn sock).2
  let port :=
    if port = 0 then
      -- `s_name_len` is 0
      ntohs (net.nameOf 0 name sock).2.sinPort
    else port
  -- `opt` is a `char` and `isKa` a `bool`
  let sock := (setsockopt .reuseAddr 1 sock).2
  let sock := (setsockopt .keepAlive 1 sock).2
  (sock, port)

/-- `startup(port)` of `simHttp`; `none` is `exit`. -/
def SimHttp.startup (net : Net) (port : UInt16) : Option (Option Listener × UInt16) := do
  let sock := net.openSocket
  if sock.isNone then none
  let name : SockaddrIn := SockaddrIn.fill port (.replicate 16 0)
  let (ret, sock) := net.bindTo name sock
  if ret < 0 then none
  let mut port := port
  if port = 0 then
    let (ret, name) := net.nameOf 16 name sock
    if ret = -1 then none
    port := ntohs name.sinPort
  let (ret, sock) := net.listenOn sock
  if ret < 0 then none
  return (sock, port)

/-- `TcpListeningSocket(port)`, which keeps `port` as `_port`. A call that fails is
passed over. -/
def TcpListeningSocket.create (net : Net) (name : SockaddrIn) (port : UInt16) :
    Option Listener × UInt16 :=
  ((net.listenOn (net.bindTo (name.fill port) net.openSocket).2).2, port)

/-! ### Byte order -/

theorem ntohs_joined (low high : UInt8) :
    ntohs (low.toUInt16 ||| high.toUInt16 <<< 8) = low.toUInt16 <<< 8 ||| high.toUInt16 := by
  apply UInt16.toBitVec_inj.mp
  unfold ntohs
  ext bit hbit
  simp
  grind

theorem htons_split (port : UInt16) : (htons port).toUInt8.toUInt16 <<< 8 |||
    (htons port >>> 8).toUInt8.toUInt16 = port := by
  apply UInt16.toBitVec_inj.mp
  unfold htons
  simp only [UInt16.toBitVec_or, UInt16.toBitVec_shiftLeft, UInt8.toBitVec_toUInt16,
    UInt16.toBitVec_toUInt8, UInt16.toBitVec_shiftRight]
  ext bit hbit
  simp only [BitVec.getElem_or, BitVec.getElem_setWidth]
  simp [BitVec.getLsbD_setWidth]
  grind

namespace SockaddrIn

/-- `ntohs(name.sin_port)` is the number that the kernel finds. -/
@[simp] theorem ntohs_sinPort (name : SockaddrIn) : ntohs name.sinPort = name.number :=
  ntohs_joined _ _

/-- The kernel finds the number that was filled in. -/
@[simp] theorem number_fill (port : UInt16) (name : SockaddrIn) :
    (name.fill port).number = port := by
  refine Eq.trans ?_ (htons_split port)
  simp [fill, number]

end SockaddrIn

/-! ### The numbers -/

/-- The socket listens under the number. -/
def Listens (sock : Option Listener) (port : UInt16) : Prop :=
  ∃ listener, sock = some listener ∧ listener.listening = true ∧ listener.port = some port

namespace Net

variable {net : Net} {listener : Listener}

/-- `listen` is granted, and the socket has the number or is given it. -/
theorem listens_listenOn_iff {port : UInt16} (hlistening : listener.listening = false) :
    Listens (net.listenOn (some listener)).2 port ↔
      net.listen = true ∧ listener.port.getD net.ephemeral = port := by
  cases hlisten : net.listen with
  | true => simp [Listens, listenOn, hlisten]
  | false => simp [Listens, listenOn, hlisten, hlistening]

/-- Of an address of length 0 nothing is written. -/
theorem nameOf_zero (net : Net) (name : SockaddrIn) (sock : Option Listener) :
    (net.nameOf 0 name sock).2 = name := by
  cases sock with
  | none => rfl
  | some listener =>
      cases hgranted : net.getsockname with
      | true =>
          ext index hindex
          simp [nameOf, hgranted]
      | false => simp [nameOf, hgranted]

theorem nameOf_whole (hgranted : net.getsockname = true) (name : SockaddrIn) :
    net.nameOf 16 name (some listener) =
      (0, SockaddrIn.fill (listener.port.getD 0) (.replicate 16 0)) := by
  simp [nameOf, hgranted]

/-- What `bind` makes of a new socket, which `listen` then completes. -/
theorem bindTo_new (name : SockaddrIn) : (net.bindTo name net.openSocket).2 =
    if net.socket then
      some ⟨if net.bind then some (if name.number = 0 then net.ephemeral else name.number)
        else none, false, false, false⟩
    else none := by
  cases hsocket : net.socket with
  | false => simp [openSocket, bindTo, hsocket]
  | true => cases hbind : net.bind <;> simp [openSocket, bindTo, hsocket, hbind]

end Net

/-- A value of one byte is no `int`. -/
theorem setsockopt_byte (option : SockOpt) (sock : Option Listener) :
    (setsockopt option 1 sock).2 = sock := by
  cases sock with
  | none => rfl
  | some listener => rfl

/-- The socket of `start_up`, for which neither option is set. -/
theorem startUp_fst (net : Net) (name : SockaddrIn) (port : UInt16) :
    (startUp net name port).1 = (net.listenOn
      (if port ≠ 0 then (net.bindTo (name.fill port) net.openSocket).2 else net.openSocket)).2 := by
  rw [startUp]
  dsimp only
  rw [setsockopt_byte, setsockopt_byte]
  split <;> rfl

/-- The number that `start_up` reports where it was given 0 is what the memory held. -/
theorem startUp_snd (net : Net) (name : SockaddrIn) (port : UInt16) :
    (startUp net name port).2 = if port = 0 then name.number else port := by
  rw [startUp]
  dsimp only
  split
  · next hzero => rw [if_neg (not_not_intro hzero), Net.nameOf_zero, SockaddrIn.ntohs_sinPort]
  · rfl

/-- `start_up` reports the number that its socket listens under if and only if the
memory of `s_name` happens to hold it, or the number that was asked for is had, be it
by chance. -/
theorem startUp_reports_iff (net : Net) (name : SockaddrIn) (port : UInt16) :
    Listens (startUp net name port).1 (startUp net name port).2 ↔
      net.socket = true ∧ net.listen = true ∧
        if port = 0 then net.ephemeral = name.number
        else net.bind = true ∨ net.ephemeral = port := by
  rw [startUp_fst, startUp_snd]
  cases hsocket : net.socket with
  | false =>
      have hnone : net.openSocket = none := by simp [Net.openSocket, hsocket]
      have hbound : (net.bindTo (name.fill port) net.openSocket).2 = none := by
        rw [hnone]
        rfl
      rw [hbound, hnone, ite_self]
      simp [Listens, Net.listenOn]
  | true =>
      by_cases hzero : port = 0
      · have hnew : net.openSocket = some ⟨none, false, false, false⟩ := by
          simp [Net.openSocket, hsocket]
        rw [if_neg (not_not_intro hzero), hnew, Net.listens_listenOn_iff rfl]
        simp [hzero]
      · rw [if_pos hzero, Net.bindTo_new, if_pos hsocket, Net.listens_listenOn_iff rfl]
        cases hbind : net.bind <;> simp [hzero]

namespace SimHttp

/-- `startup` returns if and only if every call that it makes is granted, and then its
socket listens under the number that it reports, which is the one that was asked for. -/
theorem startup_listens (net : Net) (port : UInt16) :
    ((startup net port).isSome = true ↔ net.socket = true ∧ net.bind = true ∧
      net.listen = true ∧ (port = 0 → net.getsockname = true)) ∧
    ∀ result ∈ startup net port, Listens result.1 result.2 ∧ (port ≠ 0 → result.2 = port) := by
  cases hsocket : net.socket with
  | false => simp [startup, Net.openSocket, hsocket]
  | true =>
      cases hbind : net.bind with
      | false => simp [startup, Net.openSocket, Net.bindTo, hsocket, hbind]
      | true =>
          by_cases hzero : port = 0
          · cases hname : net.getsockname with
            | false =>
                simp [startup, Net.openSocket, Net.bindTo, Net.nameOf, hsocket, hbind, hzero, hname]
            | true =>
                cases hlisten : net.listen <;> simp [startup, Net.openSocket, Net.bindTo,
                  Net.nameOf_whole, Net.listenOn, Listens, hsocket, hbind, hzero, hname, hlisten]
          · cases hlisten : net.listen <;> simp [startup, Net.openSocket, Net.bindTo, Net.listenOn,
              Listens, hsocket, hbind, hzero, hlisten]

end SimHttp

namespace TcpListeningSocket

/-- `_port` is the number that the socket listens under if and only if it is not 0 and
had, be it by chance. -/
theorem port_reports_iff (net : Net) (name : SockaddrIn) (port : UInt16) :
    Listens (create net name port).1 (create net name port).2 ↔
      net.socket = true ∧ net.listen = true ∧
        if net.bind then port ≠ 0 else net.ephemeral = port := by
  rw [create, Net.bindTo_new]
  cases hsocket : net.socket with
  | false => simp [Listens, Net.listenOn]
  | true =>
      rw [if_pos rfl, Net.listens_listenOn_iff rfl]
      cases hbind : net.bind with
      | false => simp
      | true => by_cases hzero : port = 0 <;> simp [hzero, net.ephemeral_ne]

end TcpListeningSocket

end ZtHttp
