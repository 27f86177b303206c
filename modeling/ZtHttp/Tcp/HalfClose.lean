import ZtHttp.Tcp.Record
import ZtHttp.Tcp.Wire

/-!
# Sending after the half-close

`write` half-closes the descriptor when it leaves the send buffer empty, `read`
when it finds the receive buffer empty. `_status` is cleared at both places
instead of marked, and `write` does not look at it, so the next `write` sends
on a descriptor that is shut for writing.
-/

namespace ZtHttp

open Imperative

/-- No `::send` on the descriptor comes after its `shutdown`. -/
def NeverSends (fd : Fd) (record : List SysCall) : Prop :=
  record.Pairwise fun earlier later =>
    earlier = .shutdownWr fd → ∀ offered ret, later ≠ .send fd offered ret

namespace NeverSends

variable {fd : Fd} {record : List SysCall}

theorem of_grown {longer : List SysCall} (hgrown : record <+: longer)
    (hlonger : NeverSends fd longer) : NeverSends fd record :=
  hlonger.sublist hgrown.sublist

theorem of_open (hopen : ∀ fd, .shutdownWr fd ∉ record) : NeverSends fd record := by
  apply List.pairwise_of_forall_mem_list
  intro earlier hearlier later _ hshut
  rw [hshut] at hearlier
  exact (hopen _ hearlier).elim

/-- A record may go on with anything that is no `send`. -/
theorem append_silent {added : List SysCall}
    (hsilent : ∀ call ∈ added, ∀ offered ret, call ≠ .send fd offered ret) :
    NeverSends fd (record ++ added) ↔ NeverSends fd record := by
  unfold NeverSends
  rw [List.pairwise_append]
  constructor
  · intro hall
    exact hall.1
  · intro hrecord
    refine ⟨hrecord, ?_, ?_⟩
    · apply List.pairwise_of_forall_mem_list
      intro earlier _ later hlater _
      exact hsilent later hlater
    · intro earlier _ later hlater _
      exact hsilent later hlater

theorem append_send (offered : List Byte) (ret : Int) :
    NeverSends fd (record ++ [.send fd offered ret]) ↔
      NeverSends fd record ∧ .shutdownWr fd ∉ record := by
  unfold NeverSends
  rw [List.pairwise_append]
  constructor
  · rintro ⟨hrecord, _, hcross⟩
    refine ⟨hrecord, ?_⟩
    intro hshut
    exact hcross _ hshut _ (List.mem_singleton_self _) rfl offered ret rfl
  · rintro ⟨hrecord, hopen⟩
    refine ⟨hrecord, List.pairwise_singleton _ _, ?_⟩
    intro earlier hearlier later _ hshut
    rw [hshut] at hearlier
    contradiction

end NeverSends

/-- One call of `read`, with the callback installed at that moment and what
`::recv` delivers. -/
structure ReadCall where
  callback : Option ReceivingCall
  kernel : RecvResult

def ReadCall.exec (call : ReadCall) : Method TcpSocket Int := do
  let _ ← TcpSocket.setRecvCallBack (call.callback.map ReceivingCall.call)
  TcpSocket.read call.kernel

/-- A call of `read` or `write`. -/
inductive SocketCall where
  | read (call : ReadCall)
  | write (call : WriteCall)

namespace SocketCall

def exec : SocketCall → Method TcpSocket Int
  | .read call => call.exec
  | .write call => call.exec

def isWrite : SocketCall → Bool
  | .read _ => false
  | .write _ => true

/-- The number of bytes that the call appends to the send buffer. -/
def supplied : SocketCall → Nat
  | .read _ => 0
  | .write call => (call.bytes ⟨[]⟩).length

/-- The call finds or leaves the buffer empty that it looks at: `read` is handed
no byte, `write` has one window to send and the kernel takes all of it. -/
def HalfCloses (call : SocketCall) (socket : TcpSocket) : Prop :=
  match call with
  | .read call => (socket.handed call.kernel call.callback).content = []
  | .write call =>
      let size := (socket.sendBuffer.content ++ call.bytes socket.http).length
      size ≤ 1024 ∧ call.kernel.ret size = size

end SocketCall

theorem WriteCall.bytes_length (call : WriteCall) (http : Http) :
    (call.bytes http).length = (call.bytes ⟨[]⟩).length := by
  unfold WriteCall.bytes
  rw [TcpSocket.supply_length, TcpSocket.supply_length]

theorem WriteCall.bytes_ne_nil (call : WriteCall) (http : Http) : call.bytes http ≠ [] := by
  intro hnil
  have hlength := congrArg List.length hnil
  rw [WriteCall.bytes, TcpSocket.supply_length, List.length_nil] at hlength
  omega

namespace TcpSocket

def runCalls : List SocketCall → Method TcpSocket Unit
  | [] => pure ()
  | call :: rest => do
      let _ ← call.exec
      runCalls rest

/-- Every call of the run returns, and no `write` comes after a call that
half-closed the descriptor. -/
def Orderly : Prop → List SocketCall → TcpSocket → Prop
  | _, [], _ => True
  | halfClosed, call :: rest, socket =>
      ¬ (halfClosed ∧ call.isWrite = true) ∧
        call.exec.Returns
          (fun _ after => Orderly (halfClosed ∨ call.HalfCloses socket) rest after) socket

/-- A connected socket between two calls. -/
structure Ready (socket : TcpSocket) : Prop where
  connected : socket.isConnected = true
  sendCounted : socket.sendBuffer.Counted
  recvCounted : socket.recvBuffer.Counted
  recvBound : socket.recvBuffer.content.length + 1024 < 2 ^ 31

/-! ### What one call records -/

theorem mem_halfClose_iff (fd : Fd) (content : List Byte) :
    .shutdownWr fd ∈ halfClose fd content ↔ content = [] := by
  unfold halfClose
  split <;> simp_all

theorem halfClose_silent {fd : Fd} {content : List Byte} :
    ∀ call ∈ halfClose fd content, ∀ offered ret, call ≠ .send fd offered ret := by
  intro call hmem offered ret
  rw [eq_shutdownWr_of_mem_halfClose hmem]
  exact SysCall.noConfusion

/-- What a call does to the record: a `write` sends once, and the half-close
comes last. -/
structure Records (call : SocketCall) (socket after : TcpSocket) : Prop where
  fd : after.fd = socket.fd
  sends : NeverSends socket.fd after.calls ↔ NeverSends socket.fd socket.calls ∧
    ¬ (.shutdownWr socket.fd ∈ socket.calls ∧ call.isWrite = true)
  shuts : .shutdownWr socket.fd ∈ after.calls ↔
    .shutdownWr socket.fd ∈ socket.calls ∨ call.HalfCloses socket

/-- `::recv`, the callback and the half-close hold no `send`. -/
theorem records_read {socket after : TcpSocket} {call : ReadCall} {called : List SysCall}
    (last : List SysCall) (hcalled : ∀ entry ∈ called, ∃ tag, entry = .recvCall tag)
    (hlast : ∀ entry ∈ last, ∃ bytes, entry = .httpRead bytes) (hfd : after.fd = socket.fd)
    (hcalls : after.calls = socket.calls ++ (.recv socket.fd call.kernel :: called ++
      halfClose socket.fd (socket.handed call.kernel call.callback).content ++ last)) :
    Records (.read call) socket after where
  fd := hfd
  sends := by
    rw [hcalls, NeverSends.append_silent]
    · simp [SocketCall.isWrite]
    · intro entry hmem offered ret
      rcases List.mem_append.mp hmem with hmem | hmem
      · rcases List.mem_append.mp hmem with hmem | hmem
        · rcases List.mem_cons.mp hmem with hmem | hmem
          · rw [hmem]
            exact SysCall.noConfusion
          · obtain ⟨tag, rfl⟩ := hcalled entry hmem
            exact SysCall.noConfusion
        · exact halfClose_silent entry hmem offered ret
      · obtain ⟨bytes, rfl⟩ := hlast entry hmem
        exact SysCall.noConfusion
  shuts := by
    have hsilent : .shutdownWr socket.fd ∉ called := by
      intro hmem
      obtain ⟨tag, htag⟩ := hcalled _ hmem
      exact SysCall.noConfusion htag
    have hquiet : .shutdownWr socket.fd ∉ last := by
      intro hmem
      obtain ⟨bytes, hbytes⟩ := hlast _ hmem
      exact SysCall.noConfusion hbytes
    rw [hcalls]
    simp [hsilent, hquiet, mem_halfClose_iff, SocketCall.HalfCloses]

/-- A `write` sends before it looks whether the buffer is empty. -/
theorem records_write {socket after : TcpSocket} {call : WriteCall} {called : List SysCall}
    {stream rest : List Byte}
    (hstream : stream = socket.sendBuffer.content ++ call.bytes socket.http)
    (hsplit : stream = taken call.kernel stream ++ rest)
    (hcalled : ∀ entry ∈ called, ∃ tag, entry = .sendCall tag) (hfd : after.fd = socket.fd)
    (hcalls : after.calls = socket.calls ++ (called ++ .httpWrite ::
      sendCallOf socket.fd call.kernel stream :: halfClose socket.fd rest)) :
    Records (.write call) socket after := by
  let front := called ++ [.httpWrite]
  have hfront : ∀ entry ∈ front, ∀ offered ret, entry ≠ .send socket.fd offered ret := by
    intro entry hmem offered ret
    rcases List.mem_append.mp hmem with hmem | hmem
    · obtain ⟨tag, rfl⟩ := hcalled entry hmem
      exact SysCall.noConfusion
    · rw [List.mem_singleton.mp hmem]
      exact SysCall.noConfusion
  have hopen : .shutdownWr socket.fd ∉ front := by
    intro hmem
    rcases List.mem_append.mp hmem with hmem | hmem
    · obtain ⟨tag, htag⟩ := hcalled _ hmem
      exact SysCall.noConfusion htag
    · exact SysCall.noConfusion (List.mem_singleton.mp hmem)
  have hparts : after.calls = (socket.calls ++ front) ++
      [sendCallOf socket.fd call.kernel stream] ++ halfClose socket.fd rest := by
    simp [hcalls, front]
  refine ⟨hfd, ?_, ?_⟩
  · rw [hparts, NeverSends.append_silent halfClose_silent, sendCallOf, NeverSends.append_send,
      NeverSends.append_silent hfront, List.mem_append, or_iff_left hopen]
    simp [SocketCall.isWrite]
  · have hne : stream ≠ [] := by
      rw [hstream]
      simp [call.bytes_ne_nil]
    rw [hparts, SocketCall.HalfCloses, ← hstream, ← rest_nil_iff hsplit hne,
      ← mem_halfClose_iff socket.fd]
    simp [hopen, sendCallOf]

/-- A `read` on a ready socket returns or is undefined in `consume`. -/
theorem exec_read {socket : TcpSocket} (hready : socket.Ready) (call : ReadCall) :
    Records (.read call) socket (call.exec.after socket) ∧
      ∀ ret after, call.exec socket = .ok ret after →
        after.Ready ∧ after.sendBuffer = socket.sendBuffer ∧
          after.slots.sendCall = socket.slots.sendCall := by
  let installed : TcpSocket := { socket with
    slots := { socket.slots with recvCall := call.callback.map ReceivingCall.call } }
  have hconnected : installed.isConnected = true := hready.connected
  by_cases hchunks : (installed.handed call.kernel call.callback).chunks = []
  · obtain ⟨status, called, hread, hcalled⟩ := read_fault hconnected hready.recvCounted
      hready.recvBound call.kernel call.callback rfl hchunks
    have hexec : call.exec socket = .error .pastEnd _ := (Method.bind_ok rfl).trans hread
    rw [Method.after_error hexec]
    refine ⟨records_read [] hcalled (by simp) rfl
      (congrArg (socket.calls ++ ·) (List.append_nil _).symm), ?_⟩
    intro ret after hreturns
    rw [hexec] at hreturns
    contradiction
  · obtain ⟨status, drained, called, hread, hdrained, hnil, hcalled⟩ := read_spec hconnected
      hready.recvCounted hready.recvBound call.kernel call.callback rfl hchunks
    have hexec : call.exec socket = .ok _ _ := (Method.bind_ok rfl).trans hread
    rw [Method.after_ok hexec]
    refine ⟨records_read [.httpRead _] hcalled (by simp) rfl rfl, ?_⟩
    intro ret after hreturns
    rw [hexec] at hreturns
    cases hreturns
    exact ⟨⟨hready.connected, hready.sendCounted, hdrained, by simp [hnil]⟩, rfl, rfl⟩

section

variable {socket : TcpSocket} (hready : socket.Ready) (call : ReadCall)

include hready

/-- A `read` that has something to hand over returns. -/
theorem exec_read_returns (hchunks : (socket.handed call.kernel call.callback).chunks ≠ []) :
    ∃ siz after, call.exec socket = .ok siz after := by
  let installed : TcpSocket := { socket with
    slots := { socket.slots with recvCall := call.callback.map ReceivingCall.call } }
  have hconnected : installed.isConnected = true := hready.connected
  obtain ⟨status, drained, called, hread, -⟩ := read_spec hconnected hready.recvCounted
    hready.recvBound call.kernel call.callback rfl hchunks
  exact ⟨_, _, (Method.bind_ok rfl).trans hread⟩

/-- Any other is undefined in `consume`. -/
theorem exec_read_fault (hchunks : (socket.handed call.kernel call.callback).chunks = []) :
    ∃ after, call.exec socket = .error .pastEnd after := by
  let installed : TcpSocket := { socket with
    slots := { socket.slots with recvCall := call.callback.map ReceivingCall.call } }
  have hconnected : installed.isConnected = true := hready.connected
  obtain ⟨status, called, hread, -⟩ := read_fault hconnected hready.recvCounted
    hready.recvBound call.kernel call.callback rfl hchunks
  exact ⟨_, (Method.bind_ok rfl).trans hread⟩

end

/-- A `write` on a ready socket returns. -/
theorem exec_write {socket : TcpSocket} (hready : socket.Ready) (call : WriteCall)
    (hbound : socket.sendBuffer.content.length + (call.bytes ⟨[]⟩).length < 2 ^ 31) :
    ∃ ret after, call.exec socket = .ok ret after ∧ Records (.write call) socket after ∧
      after.Ready ∧ after.sendBuffer.content.length ≤
        socket.sendBuffer.content.length + (call.bytes ⟨[]⟩).length := by
  let installed : TcpSocket := { socket with
    slots := { socket.slots with sendCall := call.callback.map AppendingCall.call } }
  have hconnected : installed.isConnected = true := hready.connected
  have hsize := call.bytes_length socket.http
  obtain ⟨stream, hstream⟩ :
      ∃ stream, stream = socket.sendBuffer.content ++ call.bytes socket.http := ⟨_, rfl⟩
  have hlength := congrArg List.length hstream
  rw [List.length_append] at hlength
  obtain ⟨ret, buffer, status, called, hwrite, hbuffer, hsplit, hcalled⟩ :=
    write_spec hconnected hready.sendCounted call.env call.kernel call.proper call.callback rfl
      hstream (by omega)
  have hlengths := congrArg List.length hsplit
  rw [List.length_append] at hlengths
  refine ⟨ret, _, (Method.bind_ok rfl).trans hwrite, records_write hstream hsplit hcalled rfl rfl,
    ⟨hready.connected, hbuffer, hready.recvCounted, hready.recvBound⟩, ?_⟩
  simp only
  omega

/-- One call on a ready socket: what it records, and, if it returns, the socket
for the next one. -/
theorem exec_records {socket : TcpSocket} (hready : socket.Ready) (call : SocketCall)
    (hbound : socket.sendBuffer.content.length + call.supplied < 2 ^ 31) :
    Records call socket (call.exec.after socket) ∧
      ∀ ret after, call.exec socket = .ok ret after → after.Ready ∧
        after.sendBuffer.content.length ≤ socket.sendBuffer.content.length + call.supplied := by
  cases call with
  | read call =>
      obtain ⟨hrecords, hreturns⟩ := exec_read hready call
      refine ⟨hrecords, ?_⟩
      intro ret after hexec
      obtain ⟨hafter, hsame, _⟩ := hreturns ret after hexec
      rw [hsame]
      exact ⟨hafter, Nat.le_add_right _ _⟩
  | write call =>
      obtain ⟨ret, after, hexec, hrecords, hafter, hgrows⟩ := exec_write hready call hbound
      have hexec' : (SocketCall.write call).exec socket = .ok ret after := hexec
      rw [Method.after_ok hexec']
      refine ⟨hrecords, ?_⟩
      intro ret' after' hreturns
      rw [hexec'] at hreturns
      cases hreturns
      exact ⟨hafter, hgrows⟩

/-- Where the slot holds the callback already, the call is the method. -/
theorem exec_read_installed {socket : TcpSocket} {call : ReadCall}
    (hslot : socket.slots.recvCall = call.callback.map ReceivingCall.call) :
    call.exec socket = socket.read call.kernel := by
  apply (Method.bind_ok rfl).trans
  rw [← hslot]

theorem exec_write_installed {socket : TcpSocket} {call : WriteCall}
    (hslot : socket.slots.sendCall = call.callback.map AppendingCall.call) :
    call.exec socket = socket.write call.env call.kernel call.chunk := by
  apply (Method.bind_ok rfl).trans
  rw [← hslot]

/-! ### What a run records -/

theorem grows_exec (call : SocketCall) : Method.Grows calls call.exec := by
  cases call with
  | read call => exact .bind (admits_grows.setRecvCallBack _) fun _ => admits_grows.read _
  | write call => exact .bind (admits_grows.setSendCallBack _) fun _ => admits_grows.write _ _ _

theorem grows_runCalls (run : List SocketCall) : Method.Grows calls (runCalls run) := by
  induction run with
  | nil => exact .of_pure _
  | cons call rest ih => exact .bind (grows_exec call) fun _ => ih

/-- From a record that is still in order, a run returns and keeps it in order
exactly if it is orderly from the half-close on, if there was one. The induction
is on the calls; a `write` that comes too late is recorded for good. -/
theorem runCalls_orderly {socket : TcpSocket} (hready : socket.Ready)
    (hnever : NeverSends socket.fd socket.calls) (run : List SocketCall)
    (hbound : socket.sendBuffer.content.length + (run.map SocketCall.supplied).sum < 2 ^ 31) :
    (runCalls run).Returns (fun _ last => NeverSends socket.fd last.calls) socket ↔
      Orderly (.shutdownWr socket.fd ∈ socket.calls) run socket := by
  induction run generalizing socket with
  | nil => exact iff_of_true hnever trivial
  | cons call rest ih =>
      simp only [List.map_cons, List.sum_cons] at hbound
      obtain ⟨hrecords, hreturns⟩ := exec_records hready call (by omega)
      rw [runCalls, Method.returns_bind, Orderly]
      cases hexec : call.exec socket with
      | error fault after =>
          exact iff_of_false (Method.not_returns hexec)
            fun hboth => Method.not_returns hexec hboth.2
      | ok ret after =>
          obtain ⟨hafter, hgrows⟩ := hreturns ret after hexec
          rw [Method.after_ok hexec] at hrecords
          rw [Method.returns_ok hexec, Method.returns_ok hexec, ← hrecords.fd]
          by_cases hkept : NeverSends after.fd after.calls
          · have hlate := (hrecords.sends.mp (hrecords.fd ▸ hkept)).2
            rw [ih hafter hkept (by omega), hrecords.fd, hrecords.shuts, and_iff_right hlate]
          · refine iff_of_false ?_ fun hboth => ?_
            · intro hruns
              obtain ⟨_, last, hlast, hnone⟩ := hruns.exists
              have hmore := grows_runCalls rest after
              rw [Method.after_ok hlast] at hmore
              exact hkept (hnone.of_grown hmore)
            · rw [hrecords.fd] at hkept hboth
              exact hkept (hrecords.sends.mpr ⟨hnever, hboth.1⟩)

/-- Over every sequence of reads and writes on a socket that was not shut
before, all calls return and no `::send` follows the `shutdown` if and only if
all calls return and no `write` comes after a read that was handed nothing or a
write that left nothing. -/
theorem runCalls_neverSends_iff {socket : TcpSocket} (hready : socket.Ready)
    (hopen : ∀ fd, .shutdownWr fd ∉ socket.calls) (run : List SocketCall)
    (hbound : socket.sendBuffer.content.length + (run.map SocketCall.supplied).sum < 2 ^ 31) :
    (runCalls run).Returns (fun _ last => NeverSends socket.fd last.calls) socket ↔
      Orderly False run socket := by
  rw [runCalls_orderly hready (.of_open hopen) run hbound, eq_false (hopen socket.fd)]

/-- Two calls are in order if both return, and the second is no `write` or the
first does not half-close. -/
theorem orderly_pair_iff (first second : SocketCall) (socket : TcpSocket) :
    Orderly False [first, second] socket ↔ first.exec.Returns (fun _ after =>
      ¬ (first.HalfCloses socket ∧ second.isWrite = true) ∧
        second.exec.Returns (fun _ _ => True) after) socket := by
  simp only [Orderly, false_and, not_false_eq_true, true_and, false_or]

/-- A read and a write are in order exactly if the read is handed something. -/
theorem orderly_readWrite_iff {socket : TcpSocket} (hready : socket.Ready) (reading : ReadCall)
    (writing : WriteCall) (hbound : socket.sendBuffer.content.length +
      ([.read reading, .write writing].map SocketCall.supplied).sum < 2 ^ 31) :
    Orderly False [.read reading, .write writing] socket ↔
      (socket.handed reading.kernel reading.callback).content ≠ [] := by
  rw [orderly_pair_iff]
  by_cases hchunks : (socket.handed reading.kernel reading.callback).chunks = []
  · obtain ⟨after, hfault⟩ := exec_read_fault hready reading hchunks
    have hreads : (SocketCall.read reading).exec socket = .error .pastEnd after := hfault
    refine iff_of_false (Method.not_returns hreads) (not_not_intro ?_)
    rw [IOBuffer.content, hchunks, List.flatten_nil]
  · obtain ⟨siz, middle, hread⟩ := exec_read_returns hready reading hchunks
    obtain ⟨hmiddle, hsame, -⟩ := (exec_read hready reading).2 siz middle hread
    obtain ⟨ret, last, hwrite, -⟩ := exec_write hmiddle writing (by
      rw [hsame]
      simpa [SocketCall.supplied] using hbound)
    have hreads : (SocketCall.read reading).exec socket = .ok siz middle := hread
    have hwrites : (SocketCall.write writing).exec middle = .ok ret last := hwrite
    rw [Method.returns_ok hreads, Method.returns_ok hwrites, and_true]
    exact not_congr (and_iff_left rfl)

theorem fresh_ready : fresh.Ready :=
  ⟨rfl, IOBuffer.counted_empty, IOBuffer.counted_empty, by decide⟩

/-- `recv` delivers the line `GET`. -/
def asking : ReadCall := ⟨none, .data ⟨[71, 69, 84, 10], by decide⟩⟩

/-- A `write(nullptr)` whose `send` takes the whole response. -/
def answering : WriteCall := ⟨none, .null, trivial, .blank, .upTo 1024⟩

theorem answering_length (http : Http) : (answering.bytes http).length = 206 := by
  rw [WriteCall.bytes, supply_length]
  rfl

theorem answering_supplied : (SocketCall.write answering).supplied = 206 :=
  answering_length ⟨[]⟩

/-- One request and one answer. -/
theorem askedOnce_neverSends :
    (runCalls [.read asking, .write answering]).Returns
      (fun _ last => NeverSends fresh.fd last.calls) fresh := by
  have hbound : fresh.sendBuffer.content.length +
      ([.read asking, .write answering].map SocketCall.supplied).sum < 2 ^ 31 := by
    rw [List.map_cons, List.map_cons, List.sum_cons, List.sum_cons, answering_supplied]
    decide
  rw [runCalls_neverSends_iff fresh_ready (fun _ => List.not_mem_nil) _ hbound,
    orderly_readWrite_iff fresh_ready asking answering hbound]
  exact List.cons_ne_nil _ _

/-- The first answer leaves the send buffer empty and shuts the descriptor; the
second is sent on it. -/
theorem answeredTwice_sends :
    ∃ last, runCalls [.write answering, .write answering] fresh = .ok () last ∧
      ¬ NeverSends fresh.fd last.calls := by
  have hshut : (SocketCall.write answering).HalfCloses fresh := by
    rw [SocketCall.HalfCloses, List.length_append, answering_length]
    decide
  obtain ⟨ret, after, hfirst, hrecords, hready, hgrows⟩ :=
    exec_write fresh_ready answering (by rw [answering_length]; decide)
  rw [answering_length] at hgrows
  obtain ⟨ret', last, hsecond, hrecords', -⟩ := exec_write hready answering (by
    rw [answering_length]
    exact Nat.lt_of_le_of_lt (Nat.add_le_add_right hgrows _) (by decide))
  refine ⟨last, ?_, ?_⟩
  · have hlast : runCalls [.write answering] after = .ok () last :=
      (Method.bind_ok hsecond).trans rfl
    exact (Method.bind_ok hfirst).trans hlast
  · intro hnever
    rw [← hrecords.fd] at hnever
    have hopen := (hrecords'.sends.mp hnever).2
    rw [hrecords.fd] at hopen
    exact hopen ⟨hrecords.shuts.mpr (.inr hshut), rfl⟩

end TcpSocket

end ZtHttp
