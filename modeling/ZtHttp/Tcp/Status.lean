import ZtHttp.Tcp.HalfClose

/-!
# The status bits

The methods of a socket in any order, and what they make of `_status`. Each of
the three sites that should mark a half-close takes bits away instead of adding
one, so from `TCP_NOMAL` no bit is ever set.
-/

namespace ZtHttp

open Imperative

/-- A call of one of the socket's methods, with what the call finds outside. -/
inductive Use where
  | setSendCallBack (sendCall : Option SendCall)
  | setRecvCallBack (recvCall : Option RecvCall)
  | setDisConnectedCallBack (disConnCall : Option DisConnCall)
  | read (kernel : RecvResult)
  | write (env : HttpEnv) (kernel : SendResult) (chunk : IOBuffer.ChunkPtr)
  | disConnected

namespace Use

def exec : Use → Method TcpSocket Unit
  | .setSendCallBack sendCall => do let _ ← TcpSocket.setSendCallBack sendCall
  | .setRecvCallBack recvCall => do let _ ← TcpSocket.setRecvCallBack recvCall
  | .setDisConnectedCallBack disConnCall => do
      let _ ← TcpSocket.setDisConnectedCallBack disConnCall
  | .read kernel => do let _ ← TcpSocket.read kernel
  | .write env kernel chunk => do let _ ← TcpSocket.write env kernel chunk
  | .disConnected => do let _ ← TcpSocket.disConnected

/-- A `write` that drains the send buffer and shuts the descriptor for writing. -/
def Drains (use : Use) (socket : TcpSocket) : Prop :=
  match use with
  | .write _ _ _ => ∃ after, use.exec socket = .ok () after ∧ after.sendBuffer.size = 0 ∧
      .shutdownWr socket.fd ∈ after.calls.drop socket.calls.length
  | _ => False

/-- A `read` that finds the receive buffer empty after its `::recv`. -/
def FindsEmpty (use : Use) (socket : TcpSocket) : Prop :=
  match use with
  | .read kernel => socket.isConnected = true ∧ ∃ found : TcpSocket,
      (do let _ ← TcpSocket.receive kernel; TcpSocket.runRecvCall) socket = .ok () found ∧
        found.recvBuffer.size = 0
  | _ => False

end Use

namespace TcpSocket

def runUses : List Use → Method TcpSocket Unit
  | [] => pure ()
  | use :: rest => do
      use.exec
      runUses rest

/-- Some call that the run reaches meets the condition. -/
def Happens (event : Use → TcpSocket → Prop) : List Use → TcpSocket → Prop
  | [], _ => False
  | use :: rest, socket => event use socket ∨
      match use.exec socket with
      | .ok _ after => Happens event rest after
      | .error _ _ => False

theorem Happens.head {event : Use → TcpSocket → Prop} {use : Use} {rest : List Use}
    {socket : TcpSocket} (hevent : event use socket) : Happens event (use :: rest) socket :=
  .inl hevent

/-- `_status` tells, where the run has got to, whether a `write` has drained the
send buffer and whether a `read` has found the receive buffer empty. -/
structure StatusTracks (run : List Use) (socket : TcpSocket) : Prop where
  written : ((runUses run).after socket).status &&& tcpWrClosed ≠ 0 ↔
    Happens Use.Drains run socket
  read : ((runUses run).after socket).status &&& tcpRdClosed ≠ 0 ↔
    Happens Use.FindsEmpty run socket

/-! ### What a run leaves of a socket -/

section Respects

variable {rel : TcpSocket → TcpSocket → Prop} (hio : AdmitsIo rel)
  (hcallback : AdmitsCallback rel) (hdisConnected : Method.Respects rel disConnected)

include hio hcallback hdisConnected

theorem respects_exec (use : Use) : Method.Respects rel use.exec := by
  have hdrop : ∀ {α : Type} {method : Method TcpSocket α}, Method.Respects rel method →
      Method.Respects rel (do let _ ← method : Method TcpSocket Unit) :=
    fun hmethod => hio.bind hmethod fun _ => hio.of_pure _
  cases use with
  | setSendCallBack sendCall => exact hdrop (hcallback.setSendCallBack sendCall)
  | setRecvCallBack recvCall => exact hdrop (hcallback.setRecvCallBack recvCall)
  | setDisConnectedCallBack disConnCall => exact fun socket => hcallback.slots socket _
  | read kernel => exact hdrop (hio.read hcallback.runRecvCall kernel)
  | write env kernel chunk => exact hdrop (hio.write hcallback.runSendCall env kernel chunk)
  | disConnected => exact hdrop hdisConnected

theorem respects_runUses (run : List Use) : Method.Respects rel (runUses run) := by
  induction run with
  | nil => exact hio.of_pure _
  | cons use rest ih =>
      exact hio.bind (respects_exec hio hcallback hdisConnected use) fun _ => ih

end Respects

/-! ### What the methods leave of the status -/

/-- A status without bits gets none. -/
def StaysClear (before after : TcpSocket) : Prop := before.status = 0 → after.status = 0

theorem admitsIo_staysClear : AdmitsIo StaysClear where
  refl _ := id
  trans _ _ _ hleft hright hclear := hright (hleft hclear)
  log _ _ _ _ := id
  sendBuffer _ _ := id
  recvBuffer _ _ := id
  status socket mask hclear := by
    change socket.status &&& mask = 0
    rw [hclear, UInt8.zero_and]
  http _ _ := id

theorem admitsCallback_staysClear : AdmitsCallback StaysClear where
  refl _ := id
  trans _ _ _ hleft hright hclear := hright (hleft hclear)
  sendCall _ _ := id
  recvCall _ _ := id
  slots _ _ := id
  sendBuffer _ _ := id
  recvBuffer _ _ := id

theorem staysClear_disConnected : Method.Respects StaysClear disConnected := by
  intro socket
  rw [after_disConnected]
  exact id

theorem staysClear_runUses (run : List Use) : Method.Respects StaysClear (runUses run) :=
  respects_runUses admitsIo_staysClear admitsCallback_staysClear staysClear_disConnected run

/-! ### When the half-closes happen -/

/-- A `write` drains the buffer when it has one window to send and `::send` takes
all of it. -/
theorem drains_iff {socket : TcpSocket} (hready : socket.Ready) (call : WriteCall)
    (hslot : socket.slots.sendCall = call.callback.map AppendingCall.call)
    (hbound : socket.sendBuffer.content.length + (call.bytes ⟨[]⟩).length < 2 ^ 31) :
    (Use.write call.env call.kernel call.chunk).Drains socket ↔
      (SocketCall.write call).HalfCloses socket := by
  obtain ⟨stream, hstream⟩ :
      ∃ stream, stream = socket.sendBuffer.content ++ call.bytes socket.http := ⟨_, rfl⟩
  have hlength : stream.length < 2 ^ 31 := by
    rwa [hstream, List.length_append, call.bytes_length]
  have hne : stream ≠ [] := by
    rw [hstream]
    simp [call.bytes_ne_nil]
  obtain ⟨ret, buffer, status, called, hwrite, hbuffer, hsplit, hcalled⟩ :=
    write_spec hready.connected hready.sendCounted call.env call.kernel call.proper call.callback
      hslot hstream hlength
  have hexec : (Use.write call.env call.kernel call.chunk).exec socket = .ok () _ :=
    Method.bind_ok hwrite
  rw [SocketCall.HalfCloses, ← hstream, ← rest_nil_iff hsplit hne, Use.Drains, hexec]
  constructor
  · rintro ⟨after, hafter, hdrained, -⟩
    cases hafter
    exact hbuffer.content_eq_nil hdrained
  · intro hnil
    refine ⟨_, rfl, hbuffer.size_eq_zero hnil, ?_⟩
    rw [List.drop_left]
    refine List.mem_append_right _ (List.mem_cons_of_mem _ (List.mem_cons_of_mem _ ?_))
    exact (mem_halfClose_iff socket.fd buffer.content).mpr hnil

/-- A `read` finds the buffer empty when it is handed no byte. -/
theorem findsEmpty_iff {socket : TcpSocket} (hready : socket.Ready) (call : ReadCall)
    (hslot : socket.slots.recvCall = call.callback.map ReceivingCall.call) :
    (Use.read call.kernel).FindsEmpty socket ↔ (SocketCall.read call).HalfCloses socket := by
  obtain ⟨hreceive, hreceived⟩ := receive_spec hready.recvCounted hready.recvBound call.kernel
  obtain ⟨added, hcall, hhanded, -⟩ := runRecvCall_spec
    { socket with
      recvBuffer := socket.received call.kernel
      calls := socket.calls ++ [.recv socket.fd call.kernel] } hreceived call.callback hslot
  have hhanded : (socket.handed call.kernel call.callback).Counted := hhanded
  have hfound : (do let _ ← receive call.kernel; runRecvCall) socket = .ok () _ :=
    (Method.bind_ok hreceive).trans hcall
  rw [SocketCall.HalfCloses, Use.FindsEmpty, hfound]
  constructor
  · rintro ⟨-, found, hsame, hempty⟩
    cases hsame
    exact hhanded.content_eq_nil hempty
  · intro hnil
    exact ⟨hready.connected, _, rfl, hhanded.size_eq_zero hnil⟩

/-- On a socket from its constructor, `_status` tracks the half-closes of a run
if and only if there is none: no `write` drains the send buffer, and no `read`
finds the receive buffer empty. On a ready socket whose slot holds null or a
callback that returns, a `write` drains if it has one window to send and the
kernel takes all of it, and a `read` finds nothing if it is handed no byte. -/
theorem statusTracks_iff (fd : Fd) (memory : Slots) (run : List Use) :
    (StatusTracks run (create fd memory) ↔
      ¬ Happens Use.Drains run (create fd memory) ∧
        ¬ Happens Use.FindsEmpty run (create fd memory)) ∧
    (∀ (socket : TcpSocket) (call : WriteCall), socket.Ready →
      socket.slots.sendCall = call.callback.map AppendingCall.call →
      socket.sendBuffer.content.length + (call.bytes ⟨[]⟩).length < 2 ^ 31 →
      ((Use.write call.env call.kernel call.chunk).Drains socket ↔
        (SocketCall.write call).HalfCloses socket)) ∧
    ∀ (socket : TcpSocket) (call : ReadCall), socket.Ready →
      socket.slots.recvCall = call.callback.map ReceivingCall.call →
      ((Use.read call.kernel).FindsEmpty socket ↔ (SocketCall.read call).HalfCloses socket) := by
  refine ⟨?_, fun _ call hready => drains_iff hready call,
    fun _ call hready => findsEmpty_iff hready call⟩
  have hclear : ((runUses run).after (create fd memory)).status = 0 :=
    staysClear_runUses run (create fd memory) rfl
  have hunset : ∀ bit, ¬ ((runUses run).after (create fd memory)).status &&& bit ≠ 0 := by
    intro bit
    rw [hclear, UInt8.zero_and, not_not]
  constructor
  · intro htracks
    exact ⟨fun hdrains => hunset _ (htracks.written.mpr hdrains),
      fun hempty => hunset _ (htracks.read.mpr hempty)⟩
  · rintro ⟨hnever, hfull⟩
    exact ⟨iff_of_false (hunset _) hnever, iff_of_false (hunset _) hfull⟩

/-- A `write` on a fresh socket, whose `::send` takes the whole response. -/
def oneAnswer : Use := .write .blank (.upTo 1024) .null

theorem oneAnswer_drains : oneAnswer.Drains fresh := by
  refine (drains_iff fresh_ready answering rfl ?_).mpr ?_
  · rw [answering_length]
    decide
  · rw [SocketCall.HalfCloses, List.length_append, answering_length]
    decide

/-- The write side is shut, and the bit is not set. -/
theorem oneAnswer_unmarked : ¬ StatusTracks [oneAnswer] fresh := by
  intro htracks
  apply htracks.written.mpr (.head oneAnswer_drains)
  rw [staysClear_runUses [oneAnswer] fresh rfl, UInt8.zero_and]

end TcpSocket

end ZtHttp
