import ZtHttp.Http.Response
import ZtHttp.Tcp.Socket

/-!
# What each socket method does

The equations of the socket's methods on counted buffers. A method's effect on
the record of outside calls is stated as the calls it adds.
-/

namespace ZtHttp

open Imperative

/-- A pointer that `append` may be given: null or a counted buffer distinct
from the target. -/
def IOBuffer.ChunkPtr.Proper : IOBuffer.ChunkPtr → Prop
  | .null => True
  | .self => False
  | .other buffer => buffer.Counted

/-- The bytes behind the pointer. -/
def IOBuffer.ChunkPtr.bytes : IOBuffer.ChunkPtr → List Byte
  | .other buffer => buffer.content
  | _ => []

theorem IOBuffer.appendChunk_proper {chunk : ChunkPtr} (hproper : chunk.Proper)
    {buffer : IOBuffer} (hcounted : buffer.Counted)
    (hbound : buffer.content.length + chunk.bytes.length < 2 ^ 31) :
    ∃ buffer', appendChunk chunk buffer = .ok true buffer' ∧ buffer'.Counted ∧
      buffer'.content = buffer.content ++ chunk.bytes := by
  cases chunk with
  | null => exact ⟨buffer, rfl, hcounted, by simp [ChunkPtr.bytes]⟩
  | self => exact hproper.elim
  | other other =>
      exact ⟨_, appendChunk_other buffer other, hcounted.concat hproper hbound, by
        simp [ChunkPtr.bytes]⟩

/-- The bytes that a `::send` accepted. -/
def SysCall.accepted : SysCall → List Byte
  | .send _ offered ret => offered.take ret.toNat
  | _ => []

/-- A receive callback that returns on every counted buffer, with the buffer it
leaves. -/
structure ReceivingCall where
  call : RecvCall
  leaves : IOBuffer → IOBuffer
  returns : ∀ buffer : IOBuffer, buffer.Counted →
    call.run buffer = .ok () (leaves buffer) ∧ (leaves buffer).Counted

/-- A send callback with what it does to the buffer it is handed: it appends
`written` and returns `result`, null or a buffer other than its argument. -/
structure AppendingCall where
  call : SendCall
  written : List Byte
  result : IOBuffer.ChunkPtr
  proper : result.Proper
  appends : ∀ buffer : IOBuffer, buffer.Counted →
    buffer.content.length + written.length < 2 ^ 31 →
    ∃ buffer', call.run buffer = .ok result buffer' ∧ buffer'.Counted ∧
      buffer'.content = buffer.content ++ written

/-- Everything that callback puts behind the buffer's content. -/
def AppendingCall.bytes (callback : AppendingCall) : List Byte :=
  callback.written ++ callback.result.bytes

namespace TcpSocket

theorem log_apply (call : SysCall) (socket : TcpSocket) :
    log call socket = .ok () { socket with calls := socket.calls ++ [call] } := rfl

theorem onSendBuffer_ok {α : Type} {method : Method IOBuffer α} (socket : TcpSocket) {value : α}
    {buffer : IOBuffer} (hmethod : method socket.sendBuffer = .ok value buffer) :
    onSendBuffer method socket = .ok value { socket with sendBuffer := buffer } :=
  Method.zoom_ok hmethod

theorem onRecvBuffer_ok {α : Type} {method : Method IOBuffer α} (socket : TcpSocket) {value : α}
    {buffer : IOBuffer} (hmethod : method socket.recvBuffer = .ok value buffer) :
    onRecvBuffer method socket = .ok value { socket with recvBuffer := buffer } :=
  Method.zoom_ok hmethod

/-! ### Sending -/

/-- The half-close of a descriptor whose buffer is found with `content`. -/
def halfClose (fd : Fd) (content : List Byte) : List SysCall :=
  if content = [] then [.shutdownWr fd] else []

theorem eq_shutdownWr_of_mem_halfClose {fd : Fd} {content : List Byte} {call : SysCall}
    (hmem : call ∈ halfClose fd content) : call = .shutdownWr fd := by
  unfold halfClose at hmem
  split at hmem
  · exact List.mem_singleton.mp hmem
  · contradiction

theorem shutdownWhenDrained_spec (socket : TcpSocket) (hcounted : socket.sendBuffer.Counted) :
    ∃ status, shutdownWhenDrained socket = .ok ()
      { socket with
        status := status
        calls := socket.calls ++ halfClose socket.fd socket.sendBuffer.content } := by
  rw [shutdownWhenDrained, Method.bind_ok (Method.get_apply _), halfClose]
  by_cases hempty : socket.sendBuffer.size = 0
  · rw [if_pos hempty, if_pos (hcounted.content_eq_nil hempty)]
    exact ⟨_, rfl⟩
  · rw [if_neg hempty, if_neg (hcounted.content_ne_nil hempty), List.append_nil]
    exact ⟨socket.status, rfl⟩

/-- The window of a stream that is offered to the kernel. -/
def window (stream : List Byte) : List Byte := stream.take 1024

/-- What `::send` takes off the front of a stream. -/
def taken (kernel : SendResult) (stream : List Byte) : List Byte :=
  (window stream).take (kernel.ret (window stream).length).toNat

/-- The record of one `::send`. -/
def sendCallOf (fd : Fd) (kernel : SendResult) (stream : List Byte) : SysCall :=
  .send fd (window stream) (kernel.ret (window stream).length)

theorem accepted_sendCallOf (fd : Fd) (kernel : SendResult) (stream : List Byte) :
    (sendCallOf fd kernel stream).accepted = taken kernel stream := rfl

/-- `consume` of what was just sent from the front chunk is never refused, and
takes off exactly that. -/
theorem afterSend_spec (socket : TcpSocket) (hcounted : socket.sendBuffer.Counted) (siz : Int)
    (hge : -1 ≤ siz) (hfront : siz.toNat ≤ socket.sendBuffer.front.length) :
    ∃ ret buffer status, afterSend siz socket = .ok ret
        { socket with
          sendBuffer := buffer
          status := status
          calls := socket.calls ++ halfClose socket.fd buffer.content } ∧
      buffer.Counted ∧
      socket.sendBuffer.content = socket.sendBuffer.content.take siz.toNat ++ buffer.content := by
  -- an error and an empty `send` consume nothing
  by_cases hnone : siz = -1 ∨ siz = 0
  · obtain ⟨status, hshut⟩ := shutdownWhenDrained_spec socket hcounted
    refine ⟨0, socket.sendBuffer, status, ?_, hcounted, ?_⟩
    · rw [afterSend, if_pos hnone, Method.bind_ok hshut, Method.pure_apply]
    · have hzero : siz.toNat = 0 := by omega
      rw [hzero, List.take_zero, List.nil_append]
  · have hlength := hcounted.front_length
    have hnum : (UInt32.ofNat siz.toNat).toNat = siz.toNat := by
      simp only [UInt32.toNat_ofNat']
      omega
    obtain ⟨buffer, hconsume, hnext, hbytes⟩ := IOBuffer.consume_granted hcounted
      (UInt32.ofNat siz.toNat) (by omega) (by intro hnil; simp [hnil] at hfront; omega)
    obtain ⟨status, hshut⟩ := shutdownWhenDrained_spec { socket with sendBuffer := buffer } hnext
    refine ⟨siz, buffer, status, ?_, hnext, by rwa [hnum] at hbytes⟩
    rw [afterSend, if_neg hnone, Method.bind_ok (onSendBuffer_ok socket hconsume)]
    exact (Method.bind_ok hshut).trans rfl

/-- After the pull the front chunk holds the window, and the stream is the
same. -/
theorem pullDown_window {buffer : IOBuffer} (hcounted : buffer.Counted) {sz : UInt32}
    (hsz : sz.toNat = min 1024 buffer.content.length) :
    ∃ wb pulled, IOBuffer.pullDown sz buffer = .ok wb pulled ∧ pulled.Counted ∧
      pulled.content = buffer.content ∧ sz.toNat ≤ pulled.front.length ∧
      (wb.getD []).take sz.toNat = window buffer.content := by
  by_cases hempty : buffer.size = 0
  · have hnil := hcounted.content_eq_nil hempty
    refine ⟨none, _, IOBuffer.pullDown_refused (.inr hempty), hcounted, rfl, ?_, ?_⟩
    · simp [hsz, hnil]
    · simp [window, hnil]
  · have hpos := List.length_pos_iff.mpr (hcounted.content_ne_nil hempty)
    have hnonzero : sz ≠ 0 := by
      intro hzero
      rw [hzero] at hsz
      simp only [UInt32.reduceToNat] at hsz
      omega
    obtain ⟨front, rest, hpull, hbytes, hreach⟩ := IOBuffer.pullDown_served hcounted sz hempty
      (by omega) fun hzero => absurd hzero hnonzero
    have hsame : IOBuffer.content ⟨front :: rest, buffer.size⟩ = buffer.content := by
      simpa using hbytes
    refine ⟨some front, _, hpull, hcounted.rechunk hsame, hsame, hreach, ?_⟩
    rw [Option.getD_some, window, ← hbytes, hsz]
    rw [hsz] at hreach
    rw [← hbytes] at hreach ⊢
    rw [← List.take_append_of_le_length hreach]
    exact (List.take_eq_take_min).symm

/-- One window: what `::send` accepted left the front of the stream, and the
rest is still there. -/
theorem transmit_spec (socket : TcpSocket) (hcounted : socket.sendBuffer.Counted)
    (kernel : SendResult) :
    ∃ ret buffer status, transmit kernel socket = .ok ret
        { socket with
          sendBuffer := buffer
          status := status
          calls := socket.calls ++ sendCallOf socket.fd kernel socket.sendBuffer.content ::
            halfClose socket.fd buffer.content } ∧
      buffer.Counted ∧
      socket.sendBuffer.content = taken kernel socket.sendBuffer.content ++ buffer.content := by
  let sz := if maxSendSize < socket.sendBuffer.size then maxSendSize else socket.sendBuffer.size
  have hsz : sz.toNat = min 1024 socket.sendBuffer.content.length := by
    have hsize := hcounted.size_eq
    simp only [sz, UInt32.lt_iff_toNat_lt]
    split <;> simp only [maxSendSize, UInt32.reduceToNat] at * <;> omega
  have hoffered : (window socket.sendBuffer.content).length = sz.toNat := by simp [window, hsz]
  have hwindow := kernel.ge sz.toNat
  have hfits := kernel.le sz.toNat
  obtain ⟨wb, pulled, hpull, hpulled, hcontent, hreach, hwb⟩ := pullDown_window hcounted hsz
  obtain ⟨ret, buffer, status, hsend, hnext, hbytes⟩ := afterSend_spec
    { socket with
      sendBuffer := pulled
      calls := socket.calls ++
        [.send socket.fd (window socket.sendBuffer.content) (kernel.ret sz.toNat)] }
    hpulled (kernel.ret sz.toNat) hwindow (by simp only; omega)
  refine ⟨ret, buffer, status, ?_, hnext, ?_⟩
  · rw [transmit, Method.bind_ok (Method.get_apply _)]
    dsimp only
    rw [Method.bind_ok (onSendBuffer_ok _ hpull), Method.bind_ok (Method.get_apply _), hwb,
      Method.bind_ok (log_apply _ _), hsend]
    simp [sendCallOf, hoffered, sz]
  · simp only [hcontent] at hbytes
    rw [taken, hoffered, window, List.take_take, Nat.min_eq_left (by omega)]
    exact hbytes

/-- Nothing is behind the window exactly when the kernel took the whole stream
at once. -/
theorem rest_nil_iff {kernel : SendResult} {stream rest : List Byte}
    (hsplit : stream = taken kernel stream ++ rest) (hstream : stream ≠ []) :
    rest = [] ↔ stream.length ≤ 1024 ∧ kernel.ret stream.length = stream.length := by
  have hpos := List.length_pos_iff.mpr hstream
  have hle := kernel.le stream.length
  have hlength := congrArg List.length hsplit
  simp only [List.length_append, taken, window, List.length_take] at hlength
  rw [← List.length_eq_zero_iff]
  constructor
  · intro hrest
    have hfits : stream.length ≤ 1024 := by omega
    rw [Nat.min_eq_right hfits] at hlength
    exact ⟨hfits, by omega⟩
  · rintro ⟨hfits, hall⟩
    rw [Nat.min_eq_right hfits, hall] at hlength
    omega

/-- What one `write` puts behind the send buffer's content. -/
def supply (env : HttpEnv) (chunk : IOBuffer.ChunkPtr) (callback : Option AppendingCall)
    (http : Http) : List Byte :=
  chunk.bytes ++ (callback.elim [] AppendingCall.bytes ++ http.response env)

theorem supply_length (env : HttpEnv) (chunk : IOBuffer.ChunkPtr) (callback : Option AppendingCall)
    (http : Http) :
    (supply env chunk callback http).length =
      chunk.bytes.length + ((callback.elim [] AppendingCall.bytes).length + 206) := by
  rw [supply, List.length_append, List.length_append, Http.response_length]

/-- The callback slot of the sending side. -/
theorem runSendCall_spec (socket : TcpSocket) (hcounted : socket.sendBuffer.Counted)
    (callback : Option AppendingCall)
    (hslot : socket.slots.sendCall = callback.map AppendingCall.call)
    (hbound : socket.sendBuffer.content.length +
      (callback.elim [] AppendingCall.bytes).length < 2 ^ 31) :
    ∃ full called, runSendCall socket = .ok ()
        { socket with
          slots := { socket.slots with sendCall := none }
          sendBuffer := full
          calls := socket.calls ++ called } ∧
      full.Counted ∧
      full.content = socket.sendBuffer.content ++ callback.elim [] AppendingCall.bytes ∧
      ∀ call ∈ called, ∃ tag, call = .sendCall tag := by
  cases callback with
  | none =>
      refine ⟨socket.sendBuffer, [], ?_, hcounted, by simp, by simp⟩
      rw [runSendCall, Method.bind_ok (Method.get_apply _), hslot, List.append_nil]
      rfl
  | some callback =>
      simp only [Option.elim_some, AppendingCall.bytes, List.length_append] at hbound
      obtain ⟨written, hrun, hwritten, hbytes⟩ :=
        callback.appends socket.sendBuffer hcounted (by omega)
      obtain ⟨full, happend, hfull, hresult⟩ := IOBuffer.appendChunk_proper
        callback.proper hwritten (by rw [hbytes, List.length_append]; omega)
      let logged : TcpSocket :=
        { socket with calls := socket.calls ++ [.sendCall callback.call.tag] }
      refine ⟨full, [.sendCall callback.call.tag], ?_, hfull, ?_, by simp⟩
      · rw [runSendCall, Method.bind_ok (Method.get_apply _), hslot]
        simp only [Option.map_some]
        rw [Method.bind_ok (log_apply _ _), Method.bind_ok (onSendBuffer_ok logged hrun),
          Method.bind_ok (onSendBuffer_ok { logged with sendBuffer := written } happend)]
        rfl
      · simp [hresult, hbytes, AppendingCall.bytes]

/-- What `write` has appended before it sends. -/
theorem collect_spec (socket : TcpSocket) (hcounted : socket.sendBuffer.Counted) (env : HttpEnv)
    {chunk : IOBuffer.ChunkPtr} (hproper : chunk.Proper) (callback : Option AppendingCall)
    (hslot : socket.slots.sendCall = callback.map AppendingCall.call)
    (hbound : socket.sendBuffer.content.length +
      (supply env chunk callback socket.http).length < 2 ^ 31) :
    ∃ full called, collect env chunk socket = .ok ()
        { socket with
          slots := { socket.slots with sendCall := none }
          sendBuffer := full
          calls := socket.calls ++ (called ++ [.httpWrite]) } ∧
      full.Counted ∧
      full.content = socket.sendBuffer.content ++ supply env chunk callback socket.http ∧
      ∀ call ∈ called, ∃ tag, call = .sendCall tag := by
  simp only [supply, List.length_append] at hbound
  obtain ⟨chunked, hchunk, hchunked, hbytes⟩ :=
    IOBuffer.appendChunk_proper hproper hcounted (by omega)
  obtain ⟨full, called, hcall, hfull, hcontent, hcalled⟩ := runSendCall_spec
    { socket with sendBuffer := chunked } hchunked callback hslot
    (by simp only [hbytes, List.length_append]; omega)
  simp only [hbytes] at hcontent
  obtain ⟨result, buffer, hwrite, hbuffer, hresponse⟩ := Http.write_appends env socket.http
    hfull (by rw [hcontent]; simp only [List.length_append]; omega)
  let logged : TcpSocket :=
    { socket with
      slots := { socket.slots with sendCall := none }
      sendBuffer := full
      calls := socket.calls ++ called ++ [.httpWrite] }
  refine ⟨buffer, called, ?_, hbuffer, ?_, hcalled⟩
  · rw [collect, Method.bind_ok (onSendBuffer_ok _ hchunk), Method.bind_ok hcall,
      Method.bind_ok (log_apply _ _), Method.bind_ok (Method.get_apply _),
      Method.bind_ok (onSendBuffer_ok logged hwrite)]
    simp [logged]
  · simp only [hresponse, hcontent, supply, List.append_assoc]

/-- One `write`: the stream grows behind by what the call supplies, and what
`::send` took is gone in front. -/
theorem write_spec {socket : TcpSocket} (hconnected : socket.isConnected = true)
    (hcounted : socket.sendBuffer.Counted) (env : HttpEnv) (kernel : SendResult)
    {chunk : IOBuffer.ChunkPtr} (hproper : chunk.Proper) (callback : Option AppendingCall)
    (hslot : socket.slots.sendCall = callback.map AppendingCall.call) {stream : List Byte}
    (hstream : stream = socket.sendBuffer.content ++ supply env chunk callback socket.http)
    (hbound : stream.length < 2 ^ 31) :
    ∃ ret buffer status called, write env kernel chunk socket = .ok ret
        { socket with
          status := status
          slots := { socket.slots with sendCall := none }
          sendBuffer := buffer
          calls := socket.calls ++ (called ++ .httpWrite ::
            sendCallOf socket.fd kernel stream :: halfClose socket.fd buffer.content) } ∧
      buffer.Counted ∧ stream = taken kernel stream ++ buffer.content ∧
      ∀ call ∈ called, ∃ tag, call = .sendCall tag := by
  obtain ⟨full, called, hcollect, hfull, hcontent, hcalled⟩ :=
    collect_spec socket hcounted env hproper callback hslot (by
      rwa [hstream, List.length_append] at hbound)
  rw [← hstream] at hcontent
  obtain ⟨ret, buffer, status, htransmit, hbuffer, hbytes⟩ := transmit_spec
    { socket with
      slots := { socket.slots with sendCall := none }
      sendBuffer := full
      calls := socket.calls ++ (called ++ [.httpWrite]) } hfull kernel
  simp only [hcontent] at htransmit hbytes
  refine ⟨ret, buffer, status, called, ?_, hbuffer, hbytes, hcalled⟩
  rw [write, Method.bind_ok (Method.get_apply _), if_neg (by simp [hconnected]),
    Method.bind_ok hcollect, htransmit]
  simp

/-! ### Receiving -/

/-- `_recvBuffer` when `::recv` has returned. -/
def received (kernel : RecvResult) (socket : TcpSocket) : IOBuffer :=
  match kernel with
  | .data piece => socket.recvBuffer.concat (IOBuffer.empty.push piece.1)
  | _ => socket.recvBuffer

/-- `_recvBuffer` as `Http::read` gets it. -/
def handed (kernel : RecvResult) (callback : Option ReceivingCall) (socket : TcpSocket) :
    IOBuffer :=
  callback.elim (socket.received kernel) fun callback => callback.leaves (socket.received kernel)

/-- What `read` returns. -/
def recvRet : RecvResult → Int
  | .data piece => piece.1.length
  | .eof => 0
  | .error => -1

theorem receive_spec {socket : TcpSocket} (hcounted : socket.recvBuffer.Counted)
    (hbound : socket.recvBuffer.content.length + 1024 < 2 ^ 31) (kernel : RecvResult) :
    receive kernel socket = .ok (recvRet kernel)
        { socket with
          recvBuffer := socket.received kernel
          calls := socket.calls ++ [.recv socket.fd kernel] } ∧
      (socket.received kernel).Counted := by
  cases kernel with
  | eof => exact ⟨rfl, hcounted⟩
  | error => exact ⟨rfl, hcounted⟩
  | data piece =>
      have hpiece := piece.2.2
      have happend := IOBuffer.appendBytes_eq IOBuffer.empty piece.1 (by omega)
      refine ⟨?_, hcounted.concat (IOBuffer.counted_empty.push ?_) ?_⟩
      · rw [receive, Method.bind_ok (Method.get_apply _), Method.bind_ok (log_apply _ _)]
        simp only [happend]
        exact (Method.bind_ok (onRecvBuffer_ok _ (IOBuffer.appendChunk_other _ _))).trans rfl
      · simp only [IOBuffer.content_empty, List.length_nil]
        omega
      · simp only [IOBuffer.content_push, IOBuffer.content_empty, List.nil_append]
        omega

/-- The callback slot of the receiving side. -/
theorem runRecvCall_spec (socket : TcpSocket) (hcounted : socket.recvBuffer.Counted)
    (callback : Option ReceivingCall)
    (hslot : socket.slots.recvCall = callback.map ReceivingCall.call) :
    ∃ added, runRecvCall socket = .ok ()
        { socket with
          slots := { socket.slots with recvCall := none }
          recvBuffer := callback.elim socket.recvBuffer (·.leaves socket.recvBuffer)
          calls := socket.calls ++ added } ∧
      (callback.elim socket.recvBuffer (·.leaves socket.recvBuffer)).Counted ∧
      ∀ call ∈ added, ∃ tag, call = .recvCall tag := by
  rw [runRecvCall, Method.bind_ok (Method.get_apply _), hslot]
  cases callback with
  | none =>
      refine ⟨[], ?_, hcounted, by simp⟩
      rw [List.append_nil]
      rfl
  | some callback =>
      obtain ⟨hrun, hleaves⟩ := callback.returns socket.recvBuffer hcounted
      refine ⟨[.recvCall callback.call.tag], ?_, hleaves, by simp⟩
      simp only [Option.map_some, Option.elim_some]
      let logged : TcpSocket :=
        { socket with calls := socket.calls ++ [.recvCall callback.call.tag] }
      rw [Method.bind_ok (log_apply _ _),
        Method.bind_ok (onRecvBuffer_ok logged hrun)]
      rfl

theorem shutdownWhenEmpty_spec (socket : TcpSocket) (hcounted : socket.recvBuffer.Counted) :
    ∃ status, shutdownWhenEmpty socket = .ok ()
      { socket with
        status := status
        calls := socket.calls ++ halfClose socket.fd socket.recvBuffer.content } := by
  rw [shutdownWhenEmpty, Method.bind_ok (Method.get_apply _), halfClose]
  by_cases hempty : socket.recvBuffer.size = 0
  · rw [if_pos hempty, if_pos (hcounted.content_eq_nil hempty)]
    exact ⟨_, rfl⟩
  · rw [if_neg hempty, if_neg (hcounted.content_ne_nil hempty), List.append_nil]
    exact ⟨socket.status, rfl⟩

/-- `deliver` hands the whole receive buffer to the `Http` object. -/
theorem deliver_spec (socket : TcpSocket) (hcounted : socket.recvBuffer.Counted)
    (hchunks : socket.recvBuffer.chunks ≠ []) :
    ∃ drained, deliver socket = .ok ()
        { socket with
          recvBuffer := drained
          http := ⟨socket.recvBuffer.content⟩
          calls := socket.calls ++ [.httpRead socket.recvBuffer.content] } ∧
      drained.Counted ∧ drained.content = [] := by
  obtain ⟨drained, hread, hdrained, hnil⟩ := Http.read_spec socket.http hcounted hchunks
  refine ⟨drained, ?_, hdrained, hnil⟩
  rw [deliver, Method.bind_ok (Method.get_apply _), Method.bind_ok (onRecvBuffer_ok _ hread)]
  rfl

/-- The state of the socket when `read` has received and called back. -/
theorem read_received {socket : TcpSocket} (hconnected : socket.isConnected = true)
    (hcounted : socket.recvBuffer.Counted)
    (hbound : socket.recvBuffer.content.length + 1024 < 2 ^ 31) (kernel : RecvResult)
    (callback : Option ReceivingCall)
    (hslot : socket.slots.recvCall = callback.map ReceivingCall.call) :
    ∃ status called,
      read kernel socket = (deliver >>= fun _ => pure (recvRet kernel))
        { socket with
          status := status
          slots := { socket.slots with recvCall := none }
          recvBuffer := socket.handed kernel callback
          calls := socket.calls ++ (.recv socket.fd kernel :: called ++
            halfClose socket.fd (socket.handed kernel callback).content) } ∧
      (socket.handed kernel callback).Counted ∧ ∀ call ∈ called, ∃ tag, call = .recvCall tag := by
  obtain ⟨hreceive, hreceived⟩ := receive_spec hcounted hbound kernel
  let first : TcpSocket :=
    { socket with
      recvBuffer := socket.received kernel
      calls := socket.calls ++ [.recv socket.fd kernel] }
  obtain ⟨called, hcall, hhanded, hcalled⟩ :=
    runRecvCall_spec first hreceived callback hslot
  let second : TcpSocket :=
    { first with
      slots := { first.slots with recvCall := none }
      recvBuffer := callback.elim first.recvBuffer (·.leaves first.recvBuffer)
      calls := first.calls ++ called }
  obtain ⟨status, hshut⟩ := shutdownWhenEmpty_spec second hhanded
  refine ⟨status, called, ?_, hhanded, hcalled⟩
  rw [read, Method.bind_ok (Method.get_apply _), if_neg (by simp [hconnected]),
    Method.bind_ok hreceive, Method.bind_ok hcall, Method.bind_ok hshut]
  simp only [second, first, List.append_assoc, List.nil_append, List.cons_append, handed]

/-- A `read` that has a chunk to hand over returns, and the `Http` object holds
what it was handed. -/
theorem read_spec {socket : TcpSocket} (hconnected : socket.isConnected = true)
    (hcounted : socket.recvBuffer.Counted)
    (hbound : socket.recvBuffer.content.length + 1024 < 2 ^ 31) (kernel : RecvResult)
    (callback : Option ReceivingCall)
    (hslot : socket.slots.recvCall = callback.map ReceivingCall.call)
    (hchunks : (socket.handed kernel callback).chunks ≠ []) :
    ∃ status drained called, read kernel socket = .ok (recvRet kernel)
        { socket with
          status := status
          slots := { socket.slots with recvCall := none }
          recvBuffer := drained
          http := ⟨(socket.handed kernel callback).content⟩
          calls := socket.calls ++ (.recv socket.fd kernel :: called ++
            halfClose socket.fd (socket.handed kernel callback).content ++
            [.httpRead (socket.handed kernel callback).content]) } ∧
      drained.Counted ∧ drained.content = [] ∧ ∀ call ∈ called, ∃ tag, call = .recvCall tag := by
  obtain ⟨status, called, hread, hhanded, hcalled⟩ :=
    read_received hconnected hcounted hbound kernel callback hslot
  obtain ⟨drained, hdeliver, hdrained, hnil⟩ := deliver_spec
    { socket with
      status := status
      slots := { socket.slots with recvCall := none }
      recvBuffer := socket.handed kernel callback
      calls := socket.calls ++ (.recv socket.fd kernel :: called ++
        halfClose socket.fd (socket.handed kernel callback).content) } hhanded hchunks
  refine ⟨status, drained, called, ?_, hdrained, hnil, hcalled⟩
  rw [hread, Method.bind_ok hdeliver]
  simp

/-- A `read` without any chunk to hand over is undefined in `consume`. -/
theorem read_fault {socket : TcpSocket} (hconnected : socket.isConnected = true)
    (hcounted : socket.recvBuffer.Counted)
    (hbound : socket.recvBuffer.content.length + 1024 < 2 ^ 31) (kernel : RecvResult)
    (callback : Option ReceivingCall)
    (hslot : socket.slots.recvCall = callback.map ReceivingCall.call)
    (hchunks : (socket.handed kernel callback).chunks = []) :
    ∃ status called, read kernel socket = .error .pastEnd
        { socket with
          status := status
          slots := { socket.slots with recvCall := none }
          recvBuffer := socket.handed kernel callback
          calls := socket.calls ++ (.recv socket.fd kernel :: called ++
            halfClose socket.fd (socket.handed kernel callback).content) } ∧
      ∀ call ∈ called, ∃ tag, call = .recvCall tag := by
  obtain ⟨status, called, hread, hhanded, hcalled⟩ :=
    read_received hconnected hcounted hbound kernel callback hslot
  refine ⟨status, called, ?_, hcalled⟩
  rw [hread]
  apply Method.bind_error
  rw [deliver, Method.bind_ok (Method.get_apply _)]
  apply Method.bind_error
  exact Method.zoom_error (Http.read_fault socket.http hhanded hchunks)

end TcpSocket

end ZtHttp
