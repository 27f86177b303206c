import ZtHttp.Tcp.Socket

/-!
# What reading and writing leave of a socket

A relation between sockets that every single update of `read` and `write` meets
is met by the methods as a whole, whatever the callbacks do and wherever a
method is stopped. So the record of the outside calls only grows, reading and
writing change neither the descriptor nor whether it is connected, and no method
calls on another descriptor than the socket's own.
-/

namespace ZtHttp

open Imperative

/-- What `read` and `write` do outside by themselves, apart from the callbacks. -/
def SysCall.isIo : SysCall → Bool
  | .recv _ _ | .send _ _ _ | .shutdownWr _ | .httpRead _ | .httpWrite | .consumeError => true
  | .close _ | .sendCall _ | .recvCall _ | .disConnCall _ => false

/-- A call on a descriptor is on this one. -/
def SysCall.On (fd : Fd) : SysCall → Prop
  | .recv own _ | .send own _ _ | .shutdownWr own | .close own => own = fd
  | .sendCall _ | .recvCall _ | .disConnCall _ | .httpRead _ | .httpWrite | .consumeError => True

namespace TcpSocket

/-- A relation that the updates of `read` and `write` meet which no callback is part
of. The outside calls are on the socket's own descriptor, and a status only loses
bits. -/
structure AdmitsIo (rel : TcpSocket → TcpSocket → Prop) : Prop where
  refl : ∀ socket, rel socket socket
  trans : ∀ first middle last, rel first middle → rel middle last → rel first last
  log : ∀ (socket : TcpSocket) call, call.isIo = true → call.On socket.fd →
    rel socket { socket with calls := socket.calls ++ [call] }
  sendBuffer : ∀ (socket : TcpSocket) sendBuffer, rel socket { socket with sendBuffer }
  recvBuffer : ∀ (socket : TcpSocket) recvBuffer, rel socket { socket with recvBuffer }
  status : ∀ (socket : TcpSocket) mask, rel socket { socket with status := socket.status &&& mask }
  http : ∀ (socket : TcpSocket) http, rel socket { socket with http }

namespace AdmitsIo

variable {rel : TcpSocket → TcpSocket → Prop} (hrel : AdmitsIo rel)

include hrel

theorem bind {α β : Type} {method : Method TcpSocket α} {rest : α → Method TcpSocket β}
    (hmethod : Method.Respects rel method) (hrest : ∀ value, Method.Respects rel (rest value)) :
    Method.Respects rel (method >>= rest) :=
  Method.Respects.bind hrel.trans hmethod hrest

theorem of_pure {α : Type} (value : α) : Method.Respects rel (pure value) := hrel.refl

theorem of_get : Method.Respects rel (get : Method TcpSocket TcpSocket) := hrel.refl

theorem onRecvBuffer {α : Type} (method : Method IOBuffer α) :
    Method.Respects rel (TcpSocket.onRecvBuffer method) :=
  Method.Respects.zoom fun buffer socket => hrel.recvBuffer socket buffer

/-- A call on no descriptor. -/
theorem logged (call : SysCall) (hcall : call.isIo = true) (hon : ∀ fd, call.On fd) :
    Method.Respects rel (TcpSocket.log call) :=
  fun socket => hrel.log socket call hcall (hon socket.fd)

/-- A call on the descriptor that was just read off the socket. -/
theorem loggedOwn {β : Type} {call : TcpSocket → SysCall} {rest : TcpSocket → Method TcpSocket β}
    (hcall : ∀ socket, (call socket).isIo = true) (hon : ∀ socket, (call socket).On socket.fd)
    (hrest : ∀ socket, Method.Respects rel (rest socket)) :
    Method.Respects rel (do
      let socket ← get
      TcpSocket.log (call socket)
      rest socket) := by
  intro socket
  have hlog : TcpSocket.log (call socket) socket =
      .ok () { socket with calls := socket.calls ++ [call socket] } := rfl
  rw [Method.after_bind_ok (Method.get_apply _), Method.after_bind_ok hlog]
  exact hrel.trans _ _ _ (hrel.log socket _ (hcall socket) (hon socket)) (hrest socket _)

theorem receive (kernel : RecvResult) : Method.Respects rel (TcpSocket.receive kernel) := by
  apply hrel.loggedOwn
  · exact fun _ => rfl
  · exact fun _ => rfl
  intro _
  cases kernel with
  | eof => exact hrel.of_pure _
  | error => exact hrel.of_pure _
  | data piece =>
      dsimp only
      split
      · exact hrel.bind (hrel.onRecvBuffer _) fun _ => hrel.of_pure _
      · exact hrel.refl

theorem shutdownWhenEmpty : Method.Respects rel TcpSocket.shutdownWhenEmpty := by
  unfold TcpSocket.shutdownWhenEmpty
  apply hrel.bind hrel.of_get
  intro socket
  split
  · exact hrel.loggedOwn (fun _ => rfl) (fun _ => rfl) fun _ socket => hrel.status socket _
  · exact hrel.of_pure _

theorem deliver : Method.Respects rel TcpSocket.deliver := by
  apply hrel.bind hrel.of_get
  intro socket
  apply hrel.bind (hrel.onRecvBuffer _)
  intro http
  apply hrel.bind (hrel.logged (.httpRead _) rfl fun _ => trivial)
  exact fun _ socket => hrel.http socket _

theorem read (hcallback : Method.Respects rel TcpSocket.runRecvCall) (kernel : RecvResult) :
    Method.Respects rel (TcpSocket.read kernel) := by
  unfold TcpSocket.read
  apply hrel.bind hrel.of_get
  intro socket
  split
  · exact hrel.of_pure _
  · apply hrel.bind (hrel.receive kernel)
    intro siz
    apply hrel.bind hcallback
    intro _
    apply hrel.bind hrel.shutdownWhenEmpty
    intro _
    exact hrel.bind hrel.deliver fun _ => hrel.of_pure _

theorem onSendBuffer {α : Type} (method : Method IOBuffer α) :
    Method.Respects rel (TcpSocket.onSendBuffer method) :=
  Method.Respects.zoom fun buffer socket => hrel.sendBuffer socket buffer

theorem collect (hcallback : Method.Respects rel TcpSocket.runSendCall) (env : HttpEnv)
    (chunk : IOBuffer.ChunkPtr) : Method.Respects rel (TcpSocket.collect env chunk) := by
  apply hrel.bind (hrel.onSendBuffer _)
  intro _
  apply hrel.bind hcallback
  intro _
  apply hrel.bind (hrel.logged .httpWrite rfl fun _ => trivial)
  intro _
  apply hrel.bind hrel.of_get
  intro socket
  exact hrel.bind (hrel.onSendBuffer _) fun _ => hrel.of_pure _

theorem shutdownWhenDrained : Method.Respects rel TcpSocket.shutdownWhenDrained := by
  unfold TcpSocket.shutdownWhenDrained
  apply hrel.bind hrel.of_get
  intro socket
  split
  · exact hrel.loggedOwn (fun _ => rfl) (fun _ => rfl) fun _ socket => hrel.status socket _
  · exact hrel.of_pure _

theorem afterSend (siz : Int) : Method.Respects rel (TcpSocket.afterSend siz) := by
  unfold TcpSocket.afterSend
  split
  · exact hrel.bind hrel.shutdownWhenDrained fun _ => hrel.of_pure _
  · apply hrel.bind (hrel.onSendBuffer _)
    intro granted
    split
    · exact hrel.bind hrel.shutdownWhenDrained fun _ => hrel.of_pure _
    · apply hrel.bind (hrel.logged .consumeError rfl fun _ => trivial)
      intro _
      exact hrel.bind hrel.shutdownWhenDrained fun _ => hrel.of_pure _

theorem transmit (kernel : SendResult) : Method.Respects rel (TcpSocket.transmit kernel) := by
  apply hrel.bind hrel.of_get
  intro socket
  apply hrel.bind (hrel.onSendBuffer _)
  intro wb
  exact hrel.loggedOwn (fun _ => rfl) (fun _ => rfl) fun _ => hrel.afterSend _

theorem write (hcallback : Method.Respects rel TcpSocket.runSendCall) (env : HttpEnv)
    (kernel : SendResult) (chunk : IOBuffer.ChunkPtr) :
    Method.Respects rel (TcpSocket.write env kernel chunk) := by
  unfold TcpSocket.write
  apply hrel.bind hrel.of_get
  intro socket
  split
  · exact hrel.of_pure _
  · exact hrel.bind (hrel.collect hcallback env chunk) fun _ => hrel.transmit kernel

end AdmitsIo

/-- A relation that the updates of the callbacks meet, whatever a callback does to
its buffer. -/
structure AdmitsCallback (rel : TcpSocket → TcpSocket → Prop) : Prop where
  refl : ∀ socket, rel socket socket
  trans : ∀ first middle last, rel first middle → rel middle last → rel first last
  sendCall : ∀ (socket : TcpSocket) tag,
    rel socket { socket with calls := socket.calls ++ [.sendCall tag] }
  recvCall : ∀ (socket : TcpSocket) tag,
    rel socket { socket with calls := socket.calls ++ [.recvCall tag] }
  slots : ∀ (socket : TcpSocket) slots, rel socket { socket with slots }
  sendBuffer : ∀ (socket : TcpSocket) sendBuffer, rel socket { socket with sendBuffer }
  recvBuffer : ∀ (socket : TcpSocket) recvBuffer, rel socket { socket with recvBuffer }

namespace AdmitsCallback

variable {rel : TcpSocket → TcpSocket → Prop} (hrel : AdmitsCallback rel)

include hrel

theorem bind {α β : Type} {method : Method TcpSocket α} {rest : α → Method TcpSocket β}
    (hmethod : Method.Respects rel method) (hrest : ∀ value, Method.Respects rel (rest value)) :
    Method.Respects rel (method >>= rest) :=
  Method.Respects.bind hrel.trans hmethod hrest

theorem of_pure {α : Type} (value : α) : Method.Respects rel (pure value) := hrel.refl

theorem of_get : Method.Respects rel (get : Method TcpSocket TcpSocket) := hrel.refl

theorem setSendCallBack (sendCall : Option SendCall) :
    Method.Respects rel (TcpSocket.setSendCallBack sendCall) :=
  hrel.bind (fun socket => hrel.slots socket _) fun _ => hrel.of_pure _

theorem setRecvCallBack (recvCall : Option RecvCall) :
    Method.Respects rel (TcpSocket.setRecvCallBack recvCall) :=
  hrel.bind (fun socket => hrel.slots socket _) fun _ => hrel.of_pure _

theorem runRecvCall : Method.Respects rel TcpSocket.runRecvCall := by
  have hbuffer : ∀ {α : Type} (method : Method IOBuffer α),
      Method.Respects rel (TcpSocket.onRecvBuffer method) := fun method =>
    Method.Respects.zoom fun buffer socket => hrel.recvBuffer socket buffer
  unfold TcpSocket.runRecvCall
  apply hrel.bind hrel.of_get
  intro socket
  split
  · exact hrel.bind (hrel.setRecvCallBack none) fun _ => hrel.of_pure _
  · rename_i callback _
    have hlog : Method.Respects rel (TcpSocket.log (.recvCall callback.tag)) :=
      fun socket => hrel.recvCall socket callback.tag
    apply hrel.bind hlog
    intro _
    apply hrel.bind (hbuffer _)
    intro _
    exact hrel.bind (hrel.setRecvCallBack none) fun _ => hrel.of_pure _

theorem runSendCall : Method.Respects rel TcpSocket.runSendCall := by
  have hbuffer : ∀ {α : Type} (method : Method IOBuffer α),
      Method.Respects rel (TcpSocket.onSendBuffer method) := fun method =>
    Method.Respects.zoom fun buffer socket => hrel.sendBuffer socket buffer
  unfold TcpSocket.runSendCall
  apply hrel.bind hrel.of_get
  intro socket
  split
  · exact hrel.bind (hrel.setSendCallBack none) fun _ => hrel.of_pure _
  · rename_i callback _
    have hlog : Method.Respects rel (TcpSocket.log (.sendCall callback.tag)) :=
      fun socket => hrel.sendCall socket callback.tag
    apply hrel.bind hlog
    intro _
    apply hrel.bind (hbuffer _)
    intro result
    apply hrel.bind (hbuffer _)
    intro _
    exact hrel.bind (hrel.setSendCallBack none) fun _ => hrel.of_pure _

end AdmitsCallback

/-- A relation that the updates of `read` and `write` meet. -/
structure Admits (rel : TcpSocket → TcpSocket → Prop) : Prop where
  refl : ∀ socket, rel socket socket
  trans : ∀ first middle last, rel first middle → rel middle last → rel first last
  log : ∀ (socket : TcpSocket) call, rel socket { socket with calls := socket.calls ++ [call] }
  slots : ∀ (socket : TcpSocket) slots, rel socket { socket with slots }
  sendBuffer : ∀ (socket : TcpSocket) sendBuffer, rel socket { socket with sendBuffer }
  recvBuffer : ∀ (socket : TcpSocket) recvBuffer, rel socket { socket with recvBuffer }
  status : ∀ (socket : TcpSocket) status, rel socket { socket with status }
  http : ∀ (socket : TcpSocket) http, rel socket { socket with http }

namespace Admits

variable {rel : TcpSocket → TcpSocket → Prop} (hrel : Admits rel)

include hrel

theorem io : AdmitsIo rel where
  refl := hrel.refl
  trans := hrel.trans
  log socket call _ _ := hrel.log socket call
  sendBuffer := hrel.sendBuffer
  recvBuffer := hrel.recvBuffer
  status socket mask := hrel.status socket (socket.status &&& mask)
  http := hrel.http

theorem callback : AdmitsCallback rel where
  refl := hrel.refl
  trans := hrel.trans
  sendCall socket tag := hrel.log socket (.sendCall tag)
  recvCall socket tag := hrel.log socket (.recvCall tag)
  slots := hrel.slots
  sendBuffer := hrel.sendBuffer
  recvBuffer := hrel.recvBuffer

theorem setSendCallBack (sendCall : Option SendCall) :
    Method.Respects rel (TcpSocket.setSendCallBack sendCall) :=
  hrel.callback.setSendCallBack sendCall

theorem setRecvCallBack (recvCall : Option RecvCall) :
    Method.Respects rel (TcpSocket.setRecvCallBack recvCall) :=
  hrel.callback.setRecvCallBack recvCall

theorem write (env : HttpEnv) (kernel : SendResult) (chunk : IOBuffer.ChunkPtr) :
    Method.Respects rel (TcpSocket.write env kernel chunk) :=
  hrel.io.write hrel.callback.runSendCall env kernel chunk

theorem read (kernel : RecvResult) : Method.Respects rel (TcpSocket.read kernel) :=
  hrel.io.read hrel.callback.runRecvCall kernel

theorem logged (call : SysCall) : Method.Respects rel (TcpSocket.log call) :=
  fun socket => hrel.log socket call

end Admits

/-! ### Closing -/

/-- The call of the callback for the end of the connection, if there is one. -/
def farewell (socket : TcpSocket) : List SysCall :=
  (socket.slots.disConnCall.map fun callback => SysCall.disConnCall callback.tag).toList

theorem mem_farewell {socket : TcpSocket} {call : SysCall} (hcall : call ∈ socket.farewell) :
    ∃ tag, call = .disConnCall tag := by
  rw [farewell, Option.mem_toList, Option.map_eq_some_iff] at hcall
  obtain ⟨callback, -, rfl⟩ := hcall
  exact ⟨callback.tag, rfl⟩

theorem disConnected_apply (socket : TcpSocket) : disConnected socket = .ok 0 { socket with
    calls := socket.calls ++ socket.farewell ++ [.close socket.fd], isConnected := false } := by
  rw [disConnected, Method.bind_ok (Method.get_apply _), farewell]
  cases socket.slots.disConnCall with
  | none =>
      rw [Option.map_none, Option.toList_none, List.append_nil]
      rfl
  | some callback => rfl

theorem after_disConnected (socket : TcpSocket) : disConnected.after socket = { socket with
    calls := socket.calls ++ socket.farewell ++ [.close socket.fd], isConnected := false } :=
  Method.after_ok (disConnected_apply socket)

/-! ### The record -/

theorem admits_grows : Admits fun before after => before.calls <+: after.calls where
  refl _ := List.prefix_rfl
  trans _ _ _ hleft hright := hleft.trans hright
  log socket call := List.prefix_append socket.calls [call]
  slots _ _ := List.prefix_rfl
  sendBuffer _ _ := List.prefix_rfl
  recvBuffer _ _ := List.prefix_rfl
  status _ _ := List.prefix_rfl
  http _ _ := List.prefix_rfl

theorem grows_disConnected : Method.Grows calls disConnected := by
  intro socket
  rw [after_disConnected]
  exact (List.prefix_append _ _).trans (List.prefix_append _ _)

/-! ### The line -/

/-- The descriptor and whether it is connected. -/
def line (socket : TcpSocket) : Fd × Bool := (socket.fd, socket.isConnected)

theorem admits_line : Admits fun before after => after.line = before.line where
  refl _ := rfl
  trans _ _ _ hleft hright := hright.trans hleft
  log _ _ := rfl
  slots _ _ := rfl
  sendBuffer _ _ := rfl
  recvBuffer _ _ := rfl
  status _ _ := rfl
  http _ _ := rfl

theorem line_disConnected (socket : TcpSocket) :
    (disConnected.after socket).line = (socket.fd, false) := by
  rw [after_disConnected]
  rfl

/-! ### The closes -/

/-- How often the record closes the descriptor. -/
def closes (fd : Fd) (socket : TcpSocket) : Nat := socket.calls.count (.close fd)

theorem admitsIo_closes (fd : Fd) :
    AdmitsIo fun before after => after.closes fd = before.closes fd where
  refl _ := rfl
  trans _ _ _ hleft hright := hright.trans hleft
  log socket call hcall _ := by
    have hother : call ≠ .close fd := by
      rintro rfl
      contradiction
    rw [closes, closes, List.count_append, List.count_singleton, beq_false_of_ne hother]
    rfl
  sendBuffer _ _ := rfl
  recvBuffer _ _ := rfl
  status _ _ := rfl
  http _ _ := rfl

theorem admitsCallback_closes (fd : Fd) :
    AdmitsCallback fun before after => after.closes fd = before.closes fd where
  refl _ := rfl
  trans _ _ _ hleft hright := hright.trans hleft
  sendCall socket tag := by
    rw [closes, closes, List.count_append, List.count_singleton]
    rfl
  recvCall socket tag := by
    rw [closes, closes, List.count_append, List.count_singleton]
    rfl
  slots _ _ := rfl
  sendBuffer _ _ := rfl
  recvBuffer _ _ := rfl

theorem closes_disConnected (fd : Fd) (socket : TcpSocket) :
    (disConnected.after socket).closes fd =
      socket.closes fd + if fd = socket.fd then 1 else 0 := by
  have hfarewell : socket.farewell.count (.close fd) = 0 := by
    rw [List.count_eq_zero]
    intro hmem
    obtain ⟨tag, hcall⟩ := mem_farewell hmem
    contradiction
  have hclose : ([.close socket.fd] : List SysCall).count (.close fd) =
      if fd = socket.fd then 1 else 0 := by
    rw [List.count_singleton]
    by_cases hfd : fd = socket.fd
    · rw [if_pos hfd, hfd, beq_self_eq_true, if_pos rfl]
    · have hother : SysCall.close socket.fd ≠ .close fd := fun hsame => by
        cases hsame
        exact hfd rfl
      rw [if_neg hfd, beq_false_of_ne hother, if_neg Bool.false_ne_true]
  rw [after_disConnected, closes, closes, List.count_append, List.count_append, hfarewell, hclose,
    Nat.add_zero]

/-! ### The own descriptor -/

/-- No call is on another descriptor than the socket's. -/
def OwnCalls (socket : TcpSocket) : Prop := ∀ call ∈ socket.calls, call.On socket.fd

/-- The descriptor stays, and the calls added are on no other. -/
structure StaysOwn (before after : TcpSocket) : Prop where
  fd : after.fd = before.fd
  calls : before.OwnCalls → after.OwnCalls

theorem StaysOwn.refl (socket : TcpSocket) : socket.StaysOwn socket := ⟨rfl, id⟩

theorem StaysOwn.trans {first middle last : TcpSocket} (hleft : first.StaysOwn middle)
    (hright : middle.StaysOwn last) : first.StaysOwn last :=
  ⟨hright.fd.trans hleft.fd, fun hown => hright.calls (hleft.calls hown)⟩

theorem StaysOwn.of_append (socket : TcpSocket) {added : List SysCall}
    (hon : ∀ call ∈ added, call.On socket.fd) :
    socket.StaysOwn { socket with calls := socket.calls ++ added } := by
  refine ⟨rfl, fun hown call hmem => ?_⟩
  cases List.mem_append.mp hmem with
  | inl hmem => exact hown call hmem
  | inr hmem => exact hon call hmem

theorem StaysOwn.of_log (socket : TcpSocket) {call : SysCall} (hon : call.On socket.fd) :
    socket.StaysOwn { socket with calls := socket.calls ++ [call] } := by
  apply StaysOwn.of_append
  intro added hmem
  rw [List.mem_singleton.mp hmem]
  exact hon

theorem admitsIo_staysOwn : AdmitsIo StaysOwn where
  refl := StaysOwn.refl
  trans _ _ _ := StaysOwn.trans
  log socket _ _ hon := StaysOwn.of_log socket hon
  sendBuffer _ _ := ⟨rfl, id⟩
  recvBuffer _ _ := ⟨rfl, id⟩
  status _ _ := ⟨rfl, id⟩
  http _ _ := ⟨rfl, id⟩

theorem admitsCallback_staysOwn : AdmitsCallback StaysOwn where
  refl := StaysOwn.refl
  trans _ _ _ := StaysOwn.trans
  sendCall socket _ := StaysOwn.of_log socket trivial
  recvCall socket _ := StaysOwn.of_log socket trivial
  slots _ _ := ⟨rfl, id⟩
  sendBuffer _ _ := ⟨rfl, id⟩
  recvBuffer _ _ := ⟨rfl, id⟩

theorem staysOwn_disConnected : Method.Respects StaysOwn disConnected := by
  intro socket
  have hon : ∀ call ∈ socket.farewell ++ [.close socket.fd], call.On socket.fd := by
    intro call hmem
    cases List.mem_append.mp hmem with
    | inl hmem =>
        obtain ⟨tag, rfl⟩ := mem_farewell hmem
        trivial
    | inr hmem =>
        rw [List.mem_singleton.mp hmem]
        rfl
  rw [after_disConnected, List.append_assoc]
  exact (StaysOwn.of_append socket hon).trans ⟨rfl, id⟩

end TcpSocket

end ZtHttp
