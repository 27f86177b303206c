import ZtHttp.Foundation.Fifo
import ZtHttp.Tcp.Laws

/-!
# From the send buffer to the wire

Whatever a sequence of writes puts into `_sendBuffer` and however the kernel
cuts the windows, the send buffer is a queue between the bytes appended and the
bytes accepted.
-/

namespace ZtHttp

open Imperative

/-- One call of `write`, with the callback installed at that moment and what
the call finds outside the socket. -/
structure WriteCall where
  callback : Option AppendingCall
  chunk : IOBuffer.ChunkPtr
  proper : chunk.Proper
  env : HttpEnv
  kernel : SendResult

namespace WriteCall

/-- The bytes that the call appends to the send buffer of a socket with `http`. -/
def bytes (call : WriteCall) (http : Http) : List Byte :=
  TcpSocket.supply call.env call.chunk call.callback http

def exec (call : WriteCall) : Method TcpSocket Int := do
  let _ ← TcpSocket.setSendCallBack (call.callback.map AppendingCall.call)
  TcpSocket.write call.env call.kernel call.chunk

end WriteCall

namespace TcpSocket

def runWrites : List WriteCall → Method TcpSocket Unit
  | [] => pure ()
  | call :: rest => do
      let _ ← call.exec
      runWrites rest

/-- One write: the send buffer takes the appended bytes in and gives the
accepted ones out. -/
theorem exec_spec {socket : TcpSocket} (hconnected : socket.isConnected = true)
    (hcounted : socket.sendBuffer.Counted) (call : WriteCall)
    (hbound : socket.sendBuffer.content.length + (call.bytes socket.http).length < 2 ^ 31) :
    ∃ ret after added, call.exec socket = .ok ret after ∧ after.isConnected = true ∧
      after.http = socket.http ∧ after.sendBuffer.Counted ∧ after.calls = socket.calls ++ added ∧
      .consumeError ∉ added ∧
      (Fifo.system Byte).Run socket.sendBuffer.content
        [.push (call.bytes socket.http), .pop (added.flatMap SysCall.accepted)]
        after.sendBuffer.content := by
  let installed : TcpSocket := { socket with
    slots := { socket.slots with sendCall := call.callback.map AppendingCall.call } }
  obtain ⟨stream, hstream⟩ :
      ∃ stream, stream = socket.sendBuffer.content ++ call.bytes socket.http := ⟨_, rfl⟩
  obtain ⟨ret, buffer, status, called, hwrite, hbuffer, hbytes, hcalled⟩ :=
    write_spec (show installed.isConnected = true from hconnected) hcounted call.env call.kernel
      call.proper call.callback rfl hstream (by rw [hstream, List.length_append]; exact hbound)
  refine ⟨ret, _, _, (Method.bind_ok rfl).trans hwrite, hconnected, rfl, hbuffer, rfl, ?_,
    .cons (.push _ _) (.cons ?_ (.nil _))⟩
  · intro hmem
    rcases List.mem_append.mp hmem with hmem | hmem
    · obtain ⟨tag, htag⟩ := hcalled _ hmem
      exact SysCall.noConfusion htag
    · simp only [List.mem_cons, sendCallOf] at hmem
      rcases hmem with hmem | hmem | hmem
      · exact SysCall.noConfusion hmem
      · exact SysCall.noConfusion hmem
      · exact SysCall.noConfusion (eq_shutdownWr_of_mem_halfClose hmem)
  · have hsilent : called.flatMap SysCall.accepted = [] := by
      rw [List.flatMap_eq_nil_iff]
      intro entry hentry
      obtain ⟨tag, rfl⟩ := hcalled entry hentry
      rfl
    have hclose : (halfClose socket.fd buffer.content).flatMap SysCall.accepted = [] := by
      rw [List.flatMap_eq_nil_iff]
      intro entry hentry
      rw [eq_shutdownWr_of_mem_halfClose hentry]
      rfl
    have htaken : (called ++ .httpWrite :: sendCallOf socket.fd call.kernel stream ::
        halfClose socket.fd buffer.content).flatMap SysCall.accepted =
          taken call.kernel stream := by
      rw [List.flatMap_append, hsilent, List.flatMap_cons, List.flatMap_cons, accepted_sendCallOf,
        hclose, List.append_nil]
      rfl
    have hpop := Fifo.Step.pop buffer.content (taken call.kernel stream)
    rw [← hbytes] at hpop
    rw [htaken, ← hstream]
    exact hpop

/-- A run of writes is a run of the queue, which takes in what the calls append
and gives out what the sends accept. The induction is on the calls. -/
theorem runWrites_queue {socket : TcpSocket} (hconnected : socket.isConnected = true)
    (hcounted : socket.sendBuffer.Counted) (calls : List WriteCall)
    (hbound : socket.sendBuffer.content.length +
      (calls.flatMap fun call => call.bytes socket.http).length < 2 ^ 31) :
    ∃ after added events, runWrites calls socket = .ok () after ∧
      after.calls = socket.calls ++ added ∧ .consumeError ∉ added ∧
      (Fifo.system Byte).Run socket.sendBuffer.content events after.sendBuffer.content ∧
      events.flatMap Fifo.Event.entering = calls.flatMap (fun call => call.bytes socket.http) ∧
      events.flatMap Fifo.Event.leaving = added.flatMap SysCall.accepted := by
  induction calls generalizing socket with
  | nil => exact ⟨socket, [], [], rfl, by simp, by simp, .nil _, rfl, rfl⟩
  | cons call rest ih =>
      simp only [List.flatMap_cons, List.length_append] at hbound
      obtain ⟨ret, middle, first, hexec, hopen, hhttp, hmiddle, hfirst, hgranted, hqueue⟩ :=
        exec_spec hconnected hcounted call (by omega)
      have hlength := congrArg List.length (Fifo.conservation hqueue)
      simp only [List.flatMap_cons, List.flatMap_nil, Fifo.Event.entering, Fifo.Event.leaving,
        List.append_nil, List.nil_append, List.length_append] at hlength
      obtain ⟨after, second, events, hrun, hsecond, hgranted', hqueue', hentering, hleaving⟩ :=
        ih hopen hmiddle (by rw [hhttp]; omega)
      rw [hhttp] at hentering
      refine ⟨after, first ++ second, _, ?_, ?_, ?_, hqueue.trans hqueue', ?_, ?_⟩
      · rw [runWrites, Method.bind_ok hexec, hrun]
      · rw [hsecond, hfirst, List.append_assoc]
      · simp only [List.mem_append, not_or]
        exact ⟨hgranted, hgranted'⟩
      · simp [Fifo.Event.entering, hentering]
      · simp [Fifo.Event.leaving, hleaving]

/-- Over every sequence of writes the bytes accepted by the sends, followed by
what is left in the send buffer, are the bytes that were there and the bytes
appended; no write fails and no `consume` after a send is refused. -/
theorem runWrites_conserves {socket : TcpSocket} (hconnected : socket.isConnected = true)
    (hcounted : socket.sendBuffer.Counted) (calls : List WriteCall)
    (hbound : socket.sendBuffer.content.length +
      (calls.flatMap fun call => call.bytes socket.http).length < 2 ^ 31) :
    ∃ after added, runWrites calls socket = .ok () after ∧
      after.calls = socket.calls ++ added ∧
      added.flatMap SysCall.accepted ++ after.sendBuffer.content =
        socket.sendBuffer.content ++ calls.flatMap (fun call => call.bytes socket.http) ∧
      .consumeError ∉ added := by
  obtain ⟨after, added, events, hrun, hadded, hgranted, hqueue, hentering, hleaving⟩ :=
    runWrites_queue hconnected hcounted calls hbound
  have hconserved := Fifo.conservation hqueue
  rw [hentering, hleaving] at hconserved
  exact ⟨after, added, hrun, hadded, hconserved.symm, hgranted⟩

/-- A send callback that writes a greeting and returns null. -/
def greeting : AppendingCall where
  call := ⟨1, do
    let _ ← IOBuffer.appendBytes [104, 105]
    return .null⟩
  written := [104, 105]
  result := .null
  proper := trivial
  appends buffer hcounted hbound :=
    ⟨buffer.push [104, 105], Method.bind_ok (IOBuffer.appendBytes_eq buffer _ (by decide)),
      hcounted.push hbound, by simp⟩

/-- A call with a chunk of three bytes to a kernel that accepts 100 bytes, and
a second one to a kernel that accepts none. -/
def twoWrites (env : HttpEnv) : List WriteCall :=
  [⟨some greeting, .other ⟨[[1], [2, 3]], 3⟩, ⟨by decide, by decide⟩, env, .upTo 100⟩,
    ⟨none, .null, trivial, env, .upTo 0⟩]

theorem twoWrites_conserve :
    ∃ after added, runWrites (twoWrites .blank) fresh = .ok () after ∧
      after.calls = fresh.calls ++ added ∧
      added.flatMap SysCall.accepted ++ after.sendBuffer.content =
        fresh.sendBuffer.content ++
          (twoWrites .blank).flatMap (fun call => call.bytes fresh.http) ∧
      .consumeError ∉ added :=
  runWrites_conserves rfl IOBuffer.counted_empty (twoWrites .blank) (by
    rw [twoWrites, List.flatMap_cons, List.flatMap_cons, List.flatMap_nil, List.append_nil,
      List.length_append, WriteCall.bytes, WriteCall.bytes, supply_length, supply_length]
    decide)

end TcpSocket

end ZtHttp
