import ZtHttp.Event.Handler
import ZtHttp.Tcp.Record

/-!
# What handling leaves of a handler

A relation between handlers that the socket's `read` and `write` meet is met by
everything up to the close, on every path. So the record of what the handler
does outside only grows, the members that it was built with never change, and
serving leaves its socket connected or closed as it was.
-/

namespace ZtHttp.EpollEventHandler

open Imperative

variable {ρ : Type}

/-- A method of the socket changes no other member. -/
theorem after_onTcp {α : Type} (method : Method TcpSocket α) (handler : EpollEventHandler ρ) :
    (onTcp method).after handler = { handler with tcp := handler.tcp.map method.after } := by
  cases htcp : handler.tcp with
  | none =>
      have hwild : onTcp method handler = .error .wildPointer handler := by
        simp only [onTcp, htcp]
      rw [Method.after_error hwild, Option.map_none, ← htcp]
  | some socket =>
      cases hresult : method socket with
      | ok value socket' =>
          rw [Method.after_ok (onTcp_ok htcp hresult), Option.map_some, Method.after_ok hresult]
      | error fault socket' =>
          rw [Method.after_error (onTcp_error htcp hresult), Option.map_some,
            Method.after_error hresult]

theorem after_isConnected (handler : EpollEventHandler ρ) :
    isConnected.after handler = handler := by
  unfold isConnected
  rw [after_onTcp]
  cases htcp : handler.tcp with
  | none => rw [Option.map_none, ← htcp]
  | some socket =>
      have hsame : ((·.isConnected) <$> get : Method TcpSocket Bool).after socket = socket := rfl
      rw [Option.map_some, hsame, ← htcp]

/-- What a method leaves of a view of the socket, it leaves of the handler's. -/
theorem respects_onTcp {α β : Type} {view : TcpSocket → β} {missing : β} (rel : β → β → Prop)
    (hrefl : rel missing missing) {method : Method TcpSocket α}
    (hmethod : Method.Respects (fun before after => rel (view before) (view after)) method) :
    Method.Respects (fun before after : EpollEventHandler ρ =>
      rel (before.tcp.elim missing view) (after.tcp.elim missing view)) (onTcp method) := by
  intro handler
  rw [after_onTcp]
  cases handler.tcp with
  | none => exact hrefl
  | some socket => exact hmethod socket

/-- A relation that `read` and `write` of the socket meet. -/
structure Admits (rel : EpollEventHandler ρ → EpollEventHandler ρ → Prop) : Prop where
  refl : ∀ handler, rel handler handler
  trans : ∀ first middle last, rel first middle → rel middle last → rel first last
  read : ∀ kernel, Method.Respects rel (onTcp (TcpSocket.read kernel))
  write : ∀ env kernel, Method.Respects rel (onTcp (TcpSocket.write env kernel .null))

namespace Admits

variable {rel : EpollEventHandler ρ → EpollEventHandler ρ → Prop} (hrel : Admits rel)

include hrel

theorem bind {α β : Type} {method : Method (EpollEventHandler ρ) α}
    {rest : α → Method (EpollEventHandler ρ) β} (hmethod : Method.Respects rel method)
    (hrest : ∀ value, Method.Respects rel (rest value)) : Method.Respects rel (method >>= rest) :=
  Method.Respects.bind hrel.trans hmethod hrest

theorem of_pure {α : Type} (value : α) : Method.Respects rel (pure value) := hrel.refl

theorem of_get :
    Method.Respects rel (get : Method (EpollEventHandler ρ) (EpollEventHandler ρ)) := hrel.refl

theorem serve (event : UInt32) {handle : Method (EpollEventHandler ρ) Bool}
    (hhandle : Method.Respects rel handle) :
    Method.Respects rel (EpollEventHandler.serve event handle) := by
  unfold EpollEventHandler.serve
  apply hrel.bind hrel.of_get
  intro handler
  split
  · apply hrel.bind hhandle
    intro done
    split
    · exact hrel.of_pure _
    · intro handler
      rw [after_isConnected]
      exact hrel.refl handler
  · exact hrel.of_pure _

theorem handleRead (kernel : RecvResult) :
    Method.Respects rel (EpollEventHandler.handleRead kernel) := by
  apply hrel.bind (hrel.read kernel)
  intro ret
  split
  · exact hrel.of_pure _
  · exact hrel.of_pure _

theorem handleWrite (env : HttpEnv) (kernel : SendResult) :
    Method.Respects rel (EpollEventHandler.handleWrite env kernel) := by
  apply hrel.bind (hrel.write env kernel)
  intro ret
  split
  · exact hrel.of_pure _
  · exact hrel.of_pure _

theorem serveReady (outside : Outside) :
    Method.Respects rel (EpollEventHandler.serveReady outside) := by
  unfold EpollEventHandler.serveReady
  apply hrel.bind hrel.of_get
  intro handler
  dsimp only
  split
  · exact hrel.bind (hrel.of_pure _) fun _ => hrel.of_pure _
  · split
    · exact hrel.bind (hrel.of_pure _) fun _ => hrel.of_pure _
    · apply hrel.bind (hrel.serve epollIn (hrel.handleRead _))
      intro goesOn
      split
      · exact hrel.serve epollOut (hrel.handleWrite _ _)
      · exact hrel.of_pure _

variable (hclose : Method.Respects rel (onTcp TcpSocket.disConnected))

include hclose

theorem disConnect : Method.Respects rel EpollEventHandler.disConnect :=
  hrel.bind hclose fun _ => hrel.of_pure _

theorem handleIo (outside : Outside) :
    Method.Respects rel (EpollEventHandler.handleIo outside) := by
  apply hrel.bind (hrel.serveReady outside)
  intro reaches
  split
  · exact hrel.disConnect hclose
  · exact hrel.of_pure _

end Admits

/-! ### The record -/

/-- Everything that the handler's socket has done. -/
def calls (handler : EpollEventHandler ρ) : List SysCall := handler.tcp.elim [] TcpSocket.calls

theorem grows_onTcp {α : Type} {method : Method TcpSocket α}
    (hmethod : Method.Grows TcpSocket.calls method) :
    Method.Grows calls (onTcp method : Method (EpollEventHandler ρ) α) :=
  respects_onTcp (· <+: ·) List.prefix_rfl hmethod

theorem admits_grows :
    Admits fun before after : EpollEventHandler ρ => before.calls <+: after.calls where
  refl _ := List.prefix_rfl
  trans _ _ _ hleft hright := hleft.trans hright
  read kernel := grows_onTcp (TcpSocket.admits_grows.read kernel)
  write env kernel := grows_onTcp (TcpSocket.admits_grows.write env kernel .null)

theorem grows_disConnect :
    Method.Grows calls (disConnect : Method (EpollEventHandler ρ) Unit) :=
  admits_grows.disConnect (grows_onTcp TcpSocket.grows_disConnected)

theorem grows_handleIo (outside : Outside) :
    Method.Grows calls (handleIo outside : Method (EpollEventHandler ρ) Unit) :=
  admits_grows.handleIo (grows_onTcp TcpSocket.grows_disConnected) outside

/-! ### What the constructor fixed -/

/-- The members that no method writes. -/
structure SamePlace (before after : EpollEventHandler ρ) : Prop where
  fd : after.fd = before.fd
  events : after.events = before.events
  reactor : after.reactor = before.reactor

theorem SamePlace.refl (handler : EpollEventHandler ρ) : handler.SamePlace handler :=
  ⟨rfl, rfl, rfl⟩

theorem SamePlace.trans {first middle last : EpollEventHandler ρ} (hleft : first.SamePlace middle)
    (hright : middle.SamePlace last) : first.SamePlace last :=
  ⟨hright.fd.trans hleft.fd, hright.events.trans hleft.events, hright.reactor.trans hleft.reactor⟩

theorem samePlace_onTcp {α : Type} (method : Method TcpSocket α) :
    Method.Respects SamePlace (onTcp method : Method (EpollEventHandler ρ) α) := by
  intro handler
  rw [after_onTcp]
  exact ⟨rfl, rfl, rfl⟩

theorem admits_samePlace : Admits (SamePlace (ρ := ρ)) where
  refl := SamePlace.refl
  trans _ _ _ := SamePlace.trans
  read _ := samePlace_onTcp _
  write _ _ := samePlace_onTcp _

theorem samePlace_disConnect :
    Method.Respects SamePlace (disConnect : Method (EpollEventHandler ρ) Unit) :=
  admits_samePlace.disConnect (samePlace_onTcp _)

theorem samePlace_handleIo (outside : Outside) :
    Method.Respects SamePlace (handleIo outside : Method (EpollEventHandler ρ) Unit) :=
  admits_samePlace.handleIo (samePlace_onTcp _) outside

theorem samePlace_setRdyEvents (events : UInt32) :
    Method.Respects SamePlace (setRdyEvents events : Method (EpollEventHandler ρ) Bool) :=
  admits_samePlace.bind (fun _ => ⟨rfl, rfl, rfl⟩) fun _ => admits_samePlace.of_pure _

/-! ### The line -/

/-- The descriptor of the handler's socket and whether it is connected. -/
def line (handler : EpollEventHandler ρ) : Option (Fd × Bool) := handler.tcp.map TcpSocket.line

theorem line_eq {handler : EpollEventHandler ρ} {socket : TcpSocket}
    (htcp : handler.tcp = some socket) : handler.line = some socket.line := by
  rw [line, htcp, Option.map_some]

theorem line_eq_some {handler : EpollEventHandler ρ} {endpoint : Fd × Bool}
    (hline : handler.line = some endpoint) :
    ∃ socket, handler.tcp = some socket ∧ socket.line = endpoint :=
  Option.map_eq_some_iff.mp hline

theorem line_onTcp {α : Type} {method : Method TcpSocket α}
    (hmethod : Method.Respects (fun before after => after.line = before.line) method) :
    Method.Respects (fun before after : EpollEventHandler ρ => after.line = before.line)
      (onTcp method) := by
  intro handler
  rw [after_onTcp, line, line]
  cases handler.tcp with
  | none => rfl
  | some socket => exact congrArg some (hmethod socket)

theorem admits_line :
    Admits fun before after : EpollEventHandler ρ => after.line = before.line where
  refl _ := rfl
  trans _ _ _ hleft hright := hright.trans hleft
  read kernel := line_onTcp (TcpSocket.admits_line.read kernel)
  write env kernel := line_onTcp (TcpSocket.admits_line.write env kernel .null)

theorem line_setRdyEvents (events : UInt32) :
    Method.Respects (fun before after : EpollEventHandler ρ => after.line = before.line)
      (setRdyEvents events) :=
  admits_line.bind (fun _ => rfl) fun _ => admits_line.of_pure _

theorem after_disConnect (handler : EpollEventHandler ρ) :
    disConnect.after handler = (onTcp TcpSocket.disConnected).after handler := by
  cases hresult : onTcp TcpSocket.disConnected handler with
  | ok ret after =>
      rw [Method.after_ok hresult]
      exact Method.after_ok (Method.bind_ok hresult)
  | error fault after =>
      rw [Method.after_error hresult]
      exact Method.after_error (Method.bind_error hresult)

/-- `disConnected` marks the socket and leaves its descriptor. -/
theorem line_disConnect (handler : EpollEventHandler ρ) :
    (disConnect.after handler).line = handler.tcp.map fun socket => (socket.fd, false) := by
  rw [after_disConnect, after_onTcp, line]
  cases handler.tcp with
  | none => rfl
  | some socket => exact congrArg some (TcpSocket.line_disConnected socket)

/-! ### The closes -/

/-- How often the handler has closed the descriptor. -/
def closes (fd : Fd) (handler : EpollEventHandler ρ) : Nat :=
  handler.tcp.elim 0 (TcpSocket.closes fd)

theorem closes_onTcp {α : Type} {method : Method TcpSocket α} {fd : Fd}
    (hmethod : Method.Respects (fun before after => after.closes fd = before.closes fd) method) :
    Method.Respects (fun before after : EpollEventHandler ρ => after.closes fd = before.closes fd)
      (onTcp method) :=
  respects_onTcp (fun before after => after = before) rfl hmethod

/-- Serving closes nothing. -/
theorem admits_closes (fd : Fd) :
    Admits fun before after : EpollEventHandler ρ => after.closes fd = before.closes fd where
  refl _ := rfl
  trans _ _ _ hleft hright := hright.trans hleft
  read kernel := closes_onTcp ((TcpSocket.admitsIo_closes fd).read
    (TcpSocket.admitsCallback_closes fd).runRecvCall kernel)
  write env kernel := closes_onTcp ((TcpSocket.admitsIo_closes fd).write
    (TcpSocket.admitsCallback_closes fd).runSendCall env kernel .null)

theorem closes_disConnect (fd : Fd) {handler : EpollEventHandler ρ} {socket : TcpSocket}
    (htcp : handler.tcp = some socket) :
    (disConnect.after handler).closes fd =
      handler.closes fd + if fd = socket.fd then 1 else 0 := by
  rw [after_disConnect, after_onTcp, closes, closes, htcp]
  exact TcpSocket.closes_disConnected fd socket

end ZtHttp.EpollEventHandler
