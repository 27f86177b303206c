import ZtHttp.Event.Serving
import ZtHttp.Tcp.Laws

/-!
# What the handler of one connection does

A socket whose send callback is null answers with the page of `unimplemented`,
in one `::send`. What the handler of an accepted connection is served adds that
answer to the record, or nothing.
-/

namespace ZtHttp

open Imperative

/-- What `epoll_wait` may report of a descriptor that is watched for `EPOLLOUT`
and `EPOLLRDHUP`. -/
def epollReported : UInt32 := epollOut ||| epollRdHup ||| epollErr ||| epollHup

/-- Nothing that is reported is readable. -/
theorem has_epollIn_of_reported {mask : UInt32} (hmask : mask &&& ~~~epollReported = 0) :
    has mask epollIn = false := by
  have hmasked : mask &&& epollIn = 0 := by
    calc mask &&& epollIn = mask &&& (~~~epollReported &&& epollIn) := by
          rw [show ~~~epollReported &&& epollIn = epollIn by decide]
      _ = (mask &&& ~~~epollReported) &&& epollIn := (UInt32.and_assoc _ _ _).symm
      _ = 0 := by rw [hmask, UInt32.zero_and]
  rw [has, hmasked]
  rfl

namespace TcpSocket

/-- The record of an answer of which the kernel takes `ret` bytes. -/
def answer (fd : Fd) (ret : Int) : List SysCall :=
  .httpWrite :: .send fd Http.unimplementedPage ret ::
    if ret = 206 then [.shutdownWr fd] else []

/-- A socket that was constructed over a null send callback, and nothing else. -/
structure Untouched (socket : TcpSocket) : Prop where
  isConnected : socket.isConnected = true
  sendCall : socket.slots.sendCall = none
  sendBuffer : socket.sendBuffer = .empty
  calls : socket.calls = []

/-- A socket that has answered and is connected. -/
structure Answered (socket : TcpSocket) : Prop where
  isConnected : socket.isConnected = true
  calls : ∃ ret, -1 ≤ ret ∧ ret ≤ 206 ∧ socket.calls = answer socket.fd ret

/-- Everything that a socket has done is one answer or none, and behind it so many
times `disConnected`. -/
structure Recorded (socket : TcpSocket) (closes : Nat) : Prop where
  isConnected : socket.isConnected = decide (closes = 0)
  calls : ∃ begun : List SysCall,
    (begun = [] ∨ ∃ ret, -1 ≤ ret ∧ ret ≤ 206 ∧ begun = answer socket.fd ret) ∧
      socket.calls = begun ++
        (List.replicate closes (socket.farewell ++ [.close socket.fd])).flatten

variable {socket : TcpSocket}

theorem untouched_create (fd : Fd) {memory : Slots} (hnull : memory.sendCall = none) :
    (create fd memory).Untouched := ⟨rfl, hnull, rfl, rfl⟩

/-- What `write` has put into the buffer before it sends. -/
theorem Untouched.collect (huntouched : socket.Untouched) (env : HttpEnv) :
    TcpSocket.collect env .null socket = .ok ()
      { socket with
        sendBuffer := IOBuffer.empty.push Http.unimplementedPage
        calls := [.httpWrite] } := by
  obtain ⟨hconnected, hslot, hbuffer, hcalls⟩ := huntouched
  have hrun : runSendCall socket = .ok () socket := by
    rw [runSendCall, Method.bind_ok (Method.get_apply _), hslot]
    change EStateM.Result.ok () { socket with slots := { socket.slots with sendCall := none } } = _
    rw [← hslot]
  have hchunk : onSendBuffer (IOBuffer.appendChunk .null) socket = .ok true socket := rfl
  have hwrite := Http.write_eq env socket.http socket.sendBuffer
  rw [TcpSocket.collect, Method.bind_ok hchunk, Method.bind_ok hrun,
    Method.bind_ok (log_apply _ _), Method.bind_ok (Method.get_apply _),
    Method.bind_ok (onSendBuffer_ok { socket with calls := socket.calls ++ [.httpWrite] } hwrite),
    hcalls, hbuffer]
  rfl

/-- The record of a `::send` of the page and of what follows it. -/
theorem answer_eq (fd : Fd) (kernel : SendResult) {rest : List Byte}
    (hsplit : Http.unimplementedPage = taken kernel Http.unimplementedPage ++ rest) :
    .httpWrite :: sendCallOf fd kernel Http.unimplementedPage :: halfClose fd rest =
      answer fd (kernel.ret 206) := by
  have hlength : Http.unimplementedPage.length = 206 := Http.unimplementedPage_length
  have hwindow : window Http.unimplementedPage = Http.unimplementedPage :=
    List.take_of_length_le (by rw [hlength]; decide)
  have hrest : rest = [] ↔ kernel.ret 206 = 206 := by
    rw [rest_nil_iff hsplit (List.ne_nil_of_length_pos (by rw [hlength]; decide)), hlength]
    exact and_iff_right (by decide)
  simp only [answer, sendCallOf, halfClose, hwindow, hlength, hrest]

/-- The first `write` answers, and leaves the socket connected. -/
theorem Untouched.write (huntouched : socket.Untouched) (env : HttpEnv) (kernel : SendResult) :
    ∃ ret after, TcpSocket.write env kernel .null socket = .ok ret after ∧ after.Answered := by
  have hlength : Http.unimplementedPage.length = 206 := Http.unimplementedPage_length
  have hcounted : (IOBuffer.empty.push Http.unimplementedPage).Counted :=
    IOBuffer.counted_empty.push (by rw [hlength]; decide)
  have hcontent : (IOBuffer.empty.push Http.unimplementedPage).content = Http.unimplementedPage :=
    by rw [IOBuffer.content_push, IOBuffer.content_empty, List.nil_append]
  obtain ⟨ret, buffer, status, htransmit, -, hsplit⟩ := transmit_spec
    { socket with
      sendBuffer := IOBuffer.empty.push Http.unimplementedPage
      calls := [.httpWrite] } hcounted kernel
  simp only [hcontent] at htransmit hsplit
  have hwrite : TcpSocket.write env kernel .null socket = transmit kernel
      { socket with
        sendBuffer := IOBuffer.empty.push Http.unimplementedPage
        calls := [.httpWrite] } := by
    rw [TcpSocket.write, Method.bind_ok (Method.get_apply _),
      if_neg (by simp [huntouched.isConnected]), Method.bind_ok (huntouched.collect env)]
  exact ⟨ret, _, hwrite.trans htransmit, huntouched.isConnected, kernel.ret 206, kernel.ge 206,
    kernel.le 206, answer_eq socket.fd kernel hsplit⟩

/-- A socket that was closed writes nothing. -/
theorem write_closed (hclosed : socket.isConnected = false) (env : HttpEnv) (kernel : SendResult) :
    write env kernel .null socket = .ok (-1) socket := by
  rw [write, Method.bind_ok (Method.get_apply _), if_pos (by simp [hclosed])]
  rfl

theorem Untouched.recorded (huntouched : socket.Untouched) : socket.Recorded 0 :=
  ⟨huntouched.isConnected, [], .inl rfl, huntouched.calls⟩

theorem Answered.recorded (hanswered : socket.Answered) : socket.Recorded 0 := by
  obtain ⟨hconnected, ret, hge, hle, hcalls⟩ := hanswered
  refine ⟨hconnected, answer socket.fd ret, .inr ⟨ret, hge, hle, rfl⟩, ?_⟩
  rw [hcalls, List.replicate_zero, List.flatten_nil, List.append_nil]

theorem Recorded.disConnected {closes : Nat} (hrecorded : socket.Recorded closes) :
    ∃ after, TcpSocket.disConnected socket = .ok 0 after ∧ after.Recorded (closes + 1) := by
  obtain ⟨-, begun, hbegun, hcalls⟩ := hrecorded
  refine ⟨_, disConnected_apply socket, rfl, begun, hbegun, ?_⟩
  dsimp only
  rw [hcalls, List.replicate_succ', List.flatten_append, List.flatten_singleton,
    List.append_assoc, List.append_assoc]
  rfl

/-- How far a socket has come; one that has answered is about to be closed. -/
inductive Told (socket : TcpSocket) (closing : Prop) : Prop
  | untouched : socket.Untouched → Told socket closing
  | answered : socket.Answered → closing → Told socket closing
  | closed (closes : Nat) : socket.Recorded (closes + 1) → Told socket closing

theorem Told.recorded {closing : Prop} (htold : socket.Told closing) :
    ∃ closes, socket.Recorded closes := by
  cases htold with
  | untouched huntouched => exact ⟨0, huntouched.recorded⟩
  | answered hanswered => exact ⟨0, hanswered.recorded⟩
  | closed closes hrecorded => exact ⟨closes + 1, hrecorded⟩

theorem Told.imp {closing closing' : Prop} (htold : socket.Told closing)
    (himp : closing → closing') : socket.Told closing' := by
  cases htold with
  | untouched huntouched => exact .untouched huntouched
  | answered hanswered hclosing => exact .answered hanswered (himp hclosing)
  | closed closes hrecorded => exact .closed closes hrecorded

end TcpSocket

namespace EpollEventHandler

variable {ρ : Type} {handler later : EpollEventHandler ρ} {socket : TcpSocket}

/-- The `EPOLLOUT` of a handler: a socket that has done nothing answers and goes
on to be closed, and one that was closed does nothing. -/
theorem told_serve_write (htcp : handler.tcp = some socket) (htold : socket.Told False)
    (env : HttpEnv) (kernel : SendResult) {reaches : Bool}
    (hserve : serve epollOut (handleWrite env kernel) handler = .ok reaches later) :
    ∃ after, later.tcp = some after ∧ after.Told (reaches = true) := by
  by_cases hout : has handler.rdyEvents epollOut = true
  · rw [serve, Method.bind_ok (Method.get_apply _), if_pos hout] at hserve
    cases htold with
    | untouched huntouched =>
        obtain ⟨ret, after, hwrite, hanswered⟩ := huntouched.write env kernel
        have honTcp := onTcp_ok htcp hwrite
        have hconnected := @isConnected_eq ρ { handler with tcp := some after } after rfl
        rw [hanswered.isConnected] at hconnected
        -- a failed `write` asks for the connection, which is there
        have hlater : (EStateM.Result.ok true { handler with tcp := some after } :
            EStateM.Result Fault (EpollEventHandler ρ) Bool) = .ok reaches later := by
          rw [← hserve]
          by_cases hret : ret = -1
          · have hhandle : handleWrite env kernel handler =
                .ok false { handler with tcp := some after } := by
              rw [handleWrite, Method.bind_ok honTcp, if_pos hret]
              rfl
            rw [Method.bind_ok hhandle]
            exact hconnected.symm
          · have hhandle : handleWrite env kernel handler =
                .ok true { handler with tcp := some after } := by
              rw [handleWrite, Method.bind_ok honTcp, if_neg hret]
              rfl
            rw [Method.bind_ok hhandle]
            rfl
        cases hlater
        exact ⟨after, rfl, .answered hanswered rfl⟩
    | answered hanswered hfalse => exact hfalse.elim
    | closed closes hrecorded =>
        have hclosed : socket.isConnected = false := hrecorded.isConnected
        have hsame : { handler with tcp := some socket } = handler := by rw [← htcp]
        have hwrite := onTcp_ok htcp (TcpSocket.write_closed hclosed env kernel)
        have hhandle : handleWrite env kernel handler = .ok false handler := by
          rw [handleWrite, Method.bind_ok hwrite, if_pos rfl, hsame]
          rfl
        rw [Method.bind_ok hhandle] at hserve
        have hconnected := (isConnected_eq htcp).symm.trans hserve
        cases hconnected
        exact ⟨socket, htcp, .closed closes hrecorded⟩
  · rw [serve_skip (by simpa using hout)] at hserve
    cases hserve
    exact ⟨socket, htcp, htold.imp False.elim⟩

/-- What is served of a mask that `epoll_wait` may report. -/
theorem told_serveReady (htcp : handler.tcp = some socket) (htold : socket.Told False)
    (hmask : handler.rdyEvents &&& ~~~epollReported = 0) (outside : Outside) {reaches : Bool}
    (hserve : serveReady outside handler = .ok reaches later) :
    ∃ after, later.tcp = some after ∧ after.Told (reaches = true) := by
  by_cases hbroken : has handler.rdyEvents epollErr = true ∨ has handler.rdyEvents epollHup = true
  · rw [serveReady_broken hbroken] at hserve
    cases hserve
    exact ⟨socket, htcp, htold.imp False.elim⟩
  · simp only [not_or, Bool.not_eq_true] at hbroken
    rw [serveReady_unbroken outside hbroken.1 hbroken.2,
      Method.bind_ok (serve_skip (has_epollIn_of_reported hmask)), if_pos rfl] at hserve
    exact told_serve_write htcp htold outside.env outside.send hserve

/-- `disConnected` of a socket that has come to any point. -/
theorem told_disConnect {closing : Prop} (htcp : handler.tcp = some socket)
    (htold : socket.Told closing) (hclose : disConnect handler = .ok () later) :
    ∃ after, later.tcp = some after ∧ after.Told False := by
  obtain ⟨closes, hrecorded⟩ := htold.recorded
  obtain ⟨after, hdisConnected, hafter⟩ := hrecorded.disConnected
  rw [disConnect, Method.bind_ok (onTcp_ok htcp hdisConnected)] at hclose
  cases hclose
  exact ⟨after, rfl, .closed closes hafter⟩

end EpollEventHandler

end ZtHttp
