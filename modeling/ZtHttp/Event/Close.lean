import ZtHttp.Event.Handler
import ZtHttp.Tcp.HalfClose

/-!
# Closing after one window

`handle_event` writes once and then closes the socket, however much of the
send buffer the one `::send` left behind. The buffer is empty at the close
exactly when the whole stream fitted one window and the kernel took all of it.
-/

namespace ZtHttp

open Imperative

/-- A connected socket between two events: its buffers are counted, and each
of the two transfer slots holds null or a callback that returns. -/
structure TcpSocket.Sound (socket : TcpSocket) (sendCallback : Option AppendingCall)
    (recvCallback : Option ReceivingCall) : Prop where
  connected : socket.isConnected = true
  sendCounted : socket.sendBuffer.Counted
  recvCounted : socket.recvBuffer.Counted
  recvBound : socket.recvBuffer.content.length + 1024 < 2 ^ 31
  sendSlot : socket.slots.sendCall = sendCallback.map AppendingCall.call
  recvSlot : socket.slots.recvCall = recvCallback.map ReceivingCall.call

theorem TcpSocket.Sound.ready {socket : TcpSocket} {sendCallback : Option AppendingCall}
    {recvCallback : Option ReceivingCall} (hsound : socket.Sound sendCallback recvCallback) :
    socket.Ready :=
  ⟨hsound.connected, hsound.sendCounted, hsound.recvCounted, hsound.recvBound⟩

namespace EpollEventHandler

variable {ρ : Type}

/-- A branch whose call leaves a connected socket goes on, whatever it returned. -/
theorem serve_connected {event : UInt32} {handle : Method (EpollEventHandler ρ) Bool}
    {handler after : EpollEventHandler ρ} {value : Bool} {socket : TcpSocket}
    (hready : has handler.rdyEvents event = true) (hhandle : handle handler = .ok value after)
    (htcp : after.tcp = some socket) (hconnected : socket.isConnected = true) :
    serve event handle handler = .ok true after := by
  rw [serve, Method.bind_ok (Method.get_apply _), if_pos hready, Method.bind_ok hhandle]
  cases value with
  | true => rfl
  | false =>
      simp only [Bool.false_eq_true, if_false]
      rw [isConnected_eq htcp, hconnected]

theorem handleRead_ok {kernel : RecvResult} {handler : EpollEventHandler ρ}
    {socket socket' : TcpSocket} {ret : Int} (htcp : handler.tcp = some socket)
    (hread : socket.read kernel = .ok ret socket') :
    ∃ value, handleRead kernel handler = .ok value { handler with tcp := some socket' } := by
  rw [handleRead, Method.bind_ok (onTcp_ok htcp hread)]
  split
  · exact ⟨false, rfl⟩
  · exact ⟨true, rfl⟩

theorem handleRead_error {kernel : RecvResult} {handler : EpollEventHandler ρ}
    {socket socket' : TcpSocket} {fault : Fault} (htcp : handler.tcp = some socket)
    (hread : socket.read kernel = .error fault socket') :
    handleRead kernel handler = .error fault { handler with tcp := some socket' } := by
  rw [handleRead, Method.bind_error (onTcp_error htcp hread)]

theorem handleWrite_ok {env : HttpEnv} {kernel : SendResult} {handler : EpollEventHandler ρ}
    {socket socket' : TcpSocket} {ret : Int} (htcp : handler.tcp = some socket)
    (hwrite : socket.write env kernel .null = .ok ret socket') :
    ∃ value, handleWrite env kernel handler = .ok value { handler with tcp := some socket' } := by
  rw [handleWrite, Method.bind_ok (onTcp_ok htcp hwrite)]
  split
  · exact ⟨false, rfl⟩
  · exact ⟨true, rfl⟩

/-- Nothing at all is there to be handed over: the mask reads, `::recv`
delivers no data, and the receive buffer has no chunk left. -/
def ReadsNothing (outside : Outside) (recvCallback : Option ReceivingCall)
    (handler : EpollEventHandler ρ) (socket : TcpSocket) : Prop :=
  has handler.rdyEvents epollIn = true ∧ (socket.handed outside.recv recvCallback).chunks = []

/-- The `Http` object that answers: a mask that reads has replaced its input. -/
def answering (outside : Outside) (recvCallback : Option ReceivingCall)
    (handler : EpollEventHandler ρ) (socket : TcpSocket) : Http :=
  if has handler.rdyEvents epollIn then ⟨(socket.handed outside.recv recvCallback).content⟩
  else socket.http

/-- The stream that `write` finds to send: what was left and the response. -/
def stream (outside : Outside) (sendCallback : Option AppendingCall)
    (recvCallback : Option ReceivingCall) (handler : EpollEventHandler ρ) (socket : TcpSocket) :
    List Byte :=
  socket.sendBuffer.content ++
    TcpSocket.supply outside.env .null sendCallback (answering outside recvCallback handler socket)

variable {outside : Outside} {sendCallback : Option AppendingCall}
  {recvCallback : Option ReceivingCall} {handler : EpollEventHandler ρ} {socket : TcpSocket}

/-- The reading branch of a mask that finds something to hand over. -/
theorem serve_read (htcp : handler.tcp = some socket)
    (hsound : socket.Sound sendCallback recvCallback)
    (hreads : ¬ ReadsNothing outside recvCallback handler socket) :
    ∃ middle, serve epollIn (handleRead outside.recv) handler =
        .ok true { handler with tcp := some middle } ∧
      middle.isConnected = true ∧ middle.sendBuffer = socket.sendBuffer ∧
      middle.slots.sendCall = socket.slots.sendCall ∧
      middle.http = answering outside recvCallback handler socket := by
  by_cases hready : has handler.rdyEvents epollIn = true
  · have hchunks : (socket.handed outside.recv recvCallback).chunks ≠ [] :=
      fun hnone => hreads ⟨hready, hnone⟩
    obtain ⟨status, drained, called, hread, _, _, _⟩ := TcpSocket.read_spec hsound.connected
      hsound.recvCounted hsound.recvBound outside.recv recvCallback hsound.recvSlot hchunks
    obtain ⟨value, hhandle⟩ := handleRead_ok htcp hread
    exact ⟨_, serve_connected hready hhandle rfl hsound.connected, hsound.connected, rfl, rfl, by
      simp [answering, hready]⟩
  · simp only [Bool.not_eq_true] at hready
    refine ⟨socket, ?_, hsound.connected, rfl, rfl, by simp [answering, hready]⟩
    rw [serve_skip hready, ← htcp]

/-- A mask that writes and is not broken: the function reaches the close with
what one `::send` left of the stream. -/
theorem serveReady_writes (htcp : handler.tcp = some socket)
    (hsound : socket.Sound sendCallback recvCallback)
    (hout : has handler.rdyEvents epollOut = true) (herr : has handler.rdyEvents epollErr = false)
    (hhup : has handler.rdyEvents epollHup = false)
    (hbound : (stream outside sendCallback recvCallback handler socket).length < 2 ^ 31)
    (hreads : ¬ ReadsNothing outside recvCallback handler socket) :
    ∃ last, serveReady outside handler = .ok true { handler with tcp := some last } ∧
      stream outside sendCallback recvCallback handler socket =
        TcpSocket.taken outside.send (stream outside sendCallback recvCallback handler socket) ++
          last.sendBuffer.content := by
  obtain ⟨middle, hread, hconnected, hbuffer, hslot, hhttp⟩ := serve_read htcp hsound hreads
  obtain ⟨ret, buffer, status, called, hwrite, _, hbytes, _⟩ := TcpSocket.write_spec
    hconnected (hbuffer ▸ hsound.sendCounted) outside.env outside.send
    (show IOBuffer.ChunkPtr.null.Proper from trivial) sendCallback (hslot.trans hsound.sendSlot)
    (show stream outside sendCallback recvCallback handler socket = _ by
      rw [stream, hbuffer, hhttp]) hbound
  let reading : EpollEventHandler ρ := { handler with tcp := some middle }
  obtain ⟨value, hhandle⟩ := handleWrite_ok (show reading.tcp = some middle from rfl) hwrite
  have hserve := serve_connected (show has reading.rdyEvents epollOut = true from hout) hhandle rfl
    hconnected
  refine ⟨_, Eq.trans ?_ hserve, hbytes⟩
  rw [serveReady_unbroken outside herr hhup, Method.bind_ok hread]
  rfl

/-- A mask that reads when there is nothing is undefined before it writes. -/
theorem serveReady_fault (htcp : handler.tcp = some socket)
    (hsound : socket.Sound sendCallback recvCallback)
    (herr : has handler.rdyEvents epollErr = false)
    (hhup : has handler.rdyEvents epollHup = false)
    (hreads : ReadsNothing outside recvCallback handler socket) :
    ∃ last, serveReady outside handler = .error .pastEnd { handler with tcp := some last } := by
  obtain ⟨status, called, hread, _⟩ := TcpSocket.read_fault hsound.connected hsound.recvCounted
    hsound.recvBound outside.recv recvCallback hsound.recvSlot hreads.2
  have hserve := serve_error hreads.1 (handleRead_error htcp hread)
  refine ⟨_, Eq.trans ?_ hserve⟩
  rw [serveReady_unbroken outside herr hhup, Method.bind_error hserve, hserve]

theorem stream_ne_nil : stream outside sendCallback recvCallback handler socket ≠ [] := by
  intro hnil
  have hlength := congrArg List.length hnil
  rw [stream, List.length_append, TcpSocket.supply_length, List.length_nil] at hlength
  omega

/-- `handle_event` reaches `disConnected` with an empty send buffer exactly when
what it reads is defined, the stream is at most one window, and `::send` takes all
of it. -/
theorem closed_drained_iff (htcp : handler.tcp = some socket)
    (hsound : socket.Sound sendCallback recvCallback)
    (hout : has handler.rdyEvents epollOut = true) (herr : has handler.rdyEvents epollErr = false)
    (hhup : has handler.rdyEvents epollHup = false)
    (hbound : (stream outside sendCallback recvCallback handler socket).length < 2 ^ 31) :
    (serveReady outside).Returns (fun reaches after =>
        reaches = true ∧ ∃ last, after.tcp = some last ∧ last.sendBuffer.content = []) handler ↔
      ¬ ReadsNothing outside recvCallback handler socket ∧
        (stream outside sendCallback recvCallback handler socket).length ≤ 1024 ∧
          outside.send.ret (stream outside sendCallback recvCallback handler socket).length =
            (stream outside sendCallback recvCallback handler socket).length := by
  by_cases hreads : ReadsNothing outside recvCallback handler socket
  · obtain ⟨last, hfault⟩ := serveReady_fault htcp hsound herr hhup hreads
    exact iff_of_false (Method.not_returns hfault) fun hboth => hboth.1 hreads
  · obtain ⟨last, hserve, hsplit⟩ :=
      serveReady_writes htcp hsound hout herr hhup hbound hreads
    rw [and_iff_right hreads, ← TcpSocket.rest_nil_iff hsplit stream_ne_nil,
      Method.returns_ok hserve]
    simp

/-! ### Reading and writing in one event -/

/-- The `read` and the `write` of one `handle_event`. -/
def bothCalls (outside : Outside) (sendCallback : Option AppendingCall)
    (recvCallback : Option ReceivingCall) : List SocketCall :=
  [.read ⟨recvCallback, outside.recv⟩,
    .write ⟨sendCallback, .null, trivial, outside.env, outside.send⟩]

theorem bothCalls_supplied :
    ((bothCalls outside sendCallback recvCallback).map SocketCall.supplied).sum =
      (TcpSocket.supply outside.env .null sendCallback
        (answering outside recvCallback handler socket)).length := by
  rw [bothCalls, List.map_cons, List.map_cons, List.sum_cons, List.sum_cons, SocketCall.supplied,
    SocketCall.supplied, WriteCall.bytes, TcpSocket.supply_length, TcpSocket.supply_length]
  simp

/-- A mask that reads and writes does to the socket what the two calls do in a
row. -/
theorem serveReady_both (htcp : handler.tcp = some socket)
    (hsound : socket.Sound sendCallback recvCallback)
    (hin : has handler.rdyEvents epollIn = true) (hout : has handler.rdyEvents epollOut = true)
    (herr : has handler.rdyEvents epollErr = false)
    (hhup : has handler.rdyEvents epollHup = false)
    (hbound : (stream outside sendCallback recvCallback handler socket).length < 2 ^ 31)
    (property : TcpSocket → Prop) :
    (serveReady outside).Returns (fun reaches after =>
        reaches = true ∧ ∃ last, after.tcp = some last ∧ property last) handler ↔
      (TcpSocket.runCalls (bothCalls outside sendCallback recvCallback)).Returns
        (fun _ last => property last) socket := by
  let reading : ReadCall := ⟨recvCallback, outside.recv⟩
  let writing : WriteCall := ⟨sendCallback, .null, trivial, outside.env, outside.send⟩
  have hinstalled : reading.exec socket = socket.read outside.recv :=
    TcpSocket.exec_read_installed hsound.recvSlot
  cases hread : socket.read outside.recv with
  | error fault middle =>
      have hserve := serve_error hin (handleRead_error htcp hread)
      have hready := (serveReady_unbroken outside herr hhup).trans (Method.bind_error hserve)
      have hruns : TcpSocket.runCalls (bothCalls outside sendCallback recvCallback) socket =
          .error fault middle := Method.bind_error (hinstalled.trans hread)
      exact iff_of_false (Method.not_returns hready) (Method.not_returns hruns)
  | ok ret middle =>
      obtain ⟨hmiddle, hbuffer, hslot⟩ := (TcpSocket.exec_read hsound.ready reading).2 ret middle
        (hinstalled.trans hread)
      obtain ⟨value, hhandle⟩ := handleRead_ok htcp hread
      have hserve := serve_connected hin hhandle rfl hmiddle.connected
      obtain ⟨sent, last, hexec, -, hlast, -⟩ := TcpSocket.exec_write hmiddle writing (by
        rw [hbuffer, ← writing.bytes_length (answering outside recvCallback handler socket)]
        rwa [stream, List.length_append] at hbound)
      have hwrite : middle.write outside.env outside.send .null = .ok sent last :=
        (TcpSocket.exec_write_installed (hslot.trans hsound.sendSlot)).symm.trans hexec
      let writer : EpollEventHandler ρ := { handler with tcp := some middle }
      obtain ⟨value', hhandle'⟩ := handleWrite_ok (show writer.tcp = some middle from rfl) hwrite
      have hserve' := serve_connected (show has writer.rdyEvents epollOut = true from hout) hhandle'
        rfl hlast.connected
      have hready := ((serveReady_unbroken outside herr hhup).trans (Method.bind_ok hserve)).trans
        hserve'
      have hruns : TcpSocket.runCalls (bothCalls outside sendCallback recvCallback) socket =
          .ok () last := by
        refine (Method.bind_ok (hinstalled.trans hread)).trans ?_
        exact (Method.bind_ok hexec).trans rfl
      rw [Method.returns_ok hready, Method.returns_ok hruns]
      simp

/-- One event that is served with a read and a write reaches the close without a
send on a shut descriptor exactly if the read was handed something. -/
theorem serveReady_neverSends_iff (htcp : handler.tcp = some socket)
    (hsound : socket.Sound sendCallback recvCallback)
    (hin : has handler.rdyEvents epollIn = true) (hout : has handler.rdyEvents epollOut = true)
    (herr : has handler.rdyEvents epollErr = false)
    (hhup : has handler.rdyEvents epollHup = false)
    (hbound : (stream outside sendCallback recvCallback handler socket).length < 2 ^ 31)
    (hopen : ∀ fd, .shutdownWr fd ∉ socket.calls) :
    (serveReady outside).Returns (fun reaches after => reaches = true ∧
        ∃ last, after.tcp = some last ∧ NeverSends socket.fd last.calls) handler ↔
      (socket.handed outside.recv recvCallback).content ≠ [] := by
  rw [serveReady_both htcp hsound hin hout herr hhup hbound]
  rw [stream, List.length_append, ← bothCalls_supplied] at hbound
  rw [TcpSocket.runCalls_orderly hsound.ready (.of_open hopen) _ hbound,
    eq_false (hopen socket.fd), bothCalls, TcpSocket.orderly_readWrite_iff hsound.ready _ _ hbound]

/-- A connection that is ready to be written to. -/
def writable : EpollEventHandler Unit := create (epollOut ||| epollRdHup) 5 () .fresh epollOut

/-- A kernel that takes at most `limit` bytes, and nothing to receive. -/
def sending (limit : Nat) : Outside := ⟨.error, .upTo limit, .blank⟩

theorem fresh_sound : TcpSocket.fresh.Sound none none :=
  ⟨rfl, IOBuffer.counted_empty, IOBuffer.counted_empty, by decide, rfl, rfl⟩

theorem stream_writable_length (limit : Nat) :
    (stream (sending limit) none none writable .fresh).length = 206 := by
  rw [stream, List.length_append, TcpSocket.supply_length]
  rfl

theorem writable_drained_iff :
    (serveReady (sending 2000)).Returns (fun reaches after =>
        reaches = true ∧ ∃ last, after.tcp = some last ∧ last.sendBuffer.content = []) writable ↔
      ¬ ReadsNothing (sending 2000) none writable .fresh ∧
        (stream (sending 2000) none none writable .fresh).length ≤ 1024 ∧
          (sending 2000).send.ret (stream (sending 2000) none none writable .fresh).length =
            (stream (sending 2000) none none writable .fresh).length :=
  closed_drained_iff rfl fresh_sound (by decide) (by decide) (by decide)
    (by rw [stream_writable_length]; decide)

/-- `::send` takes one byte of the page, and the socket is closed on the rest. -/
theorem writable_truncated :
    ∃ after last, serveReady (sending 1) writable = .ok true after ∧ after.tcp = some last ∧
      last.sendBuffer.content.length = 205 := by
  have hlength := stream_writable_length 1
  have hreads : ¬ ReadsNothing (sending 1) none writable .fresh := fun hreads =>
    absurd hreads.1 (by decide)
  obtain ⟨last, hserve, hsplit⟩ := serveReady_writes rfl fresh_sound (by decide) (by decide)
    (by decide) (by rw [hlength]; decide) hreads
  refine ⟨_, last, hserve, rfl, ?_⟩
  have hlengths := congrArg List.length hsplit
  have hone : ((sending 1).send.ret (min 1024 206)).toNat = 1 := rfl
  rw [List.length_append, TcpSocket.taken, TcpSocket.window, List.length_take, List.length_take,
    hlength, hone] at hlengths
  omega

end EpollEventHandler

end ZtHttp
