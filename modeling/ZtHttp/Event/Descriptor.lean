import ZtHttp.Event.Record
import ZtHttp.Tcp.Status

/-!
# The descriptor of a handler

A handler registers the descriptor that `accept` returned, and its socket was
built from the low 16 bits of it. Whatever is called on the socket stays on the
socket's own descriptor, so the two agree for the descriptors below 65536, and
then `handle_event` uses no other. The constructor without a socket sets no
`_p_tcp` at all.
-/

namespace ZtHttp

open Imperative

namespace EpollEventHandler

variable {ρ : Type}

/-- The constructors of a handler. -/
inductive Constructor where
  | withSocket
  | withoutSocket

/-- The handler that a constructor makes of a descriptor from `accept`. The
caller of the first one passes `new TcpSocket(c_sock)`, as the accept loop does. -/
def Constructor.make (ctor : Constructor) (events : UInt32) (fd : Fd) (reactor : ρ)
    (memory : Slots) (rdyEvents : UInt32) : EpollEventHandler ρ :=
  match ctor with
  | .withSocket => create events fd reactor (TcpSocket.create fd memory) rdyEvents
  | .withoutSocket => createWithoutSocket events fd reactor rdyEvents

/-- The handler registers the descriptor and has a socket on it, which reads,
writes, shuts down and closes no other one, whatever is called on it. -/
structure OneDescriptor (fd : Fd) (handler : EpollEventHandler ρ) : Prop where
  registered : handler.getFd = fd
  served : ∃ socket, handler.tcp = some socket ∧ socket.getFd = fd ∧
    ∀ run, ∀ call ∈ ((TcpSocket.runUses run).after socket).calls, call.On fd

/-- No call on a socket leaves its descriptor. -/
theorem staysOwn_runUses (run : List Use) :
    Method.Respects TcpSocket.StaysOwn (TcpSocket.runUses run) :=
  TcpSocket.respects_runUses TcpSocket.admitsIo_staysOwn TcpSocket.admitsCallback_staysOwn
    TcpSocket.staysOwn_disConnected run

theorem on_of_runUses {fd : Fd} {socket : TcpSocket} (hfd : socket.getFd = fd)
    (hnew : socket.calls = []) (run : List Use) {call : SysCall}
    (hcall : call ∈ ((TcpSocket.runUses run).after socket).calls) : call.On fd := by
  have hown : socket.OwnCalls := by
    intro earlier hmem
    rw [hnew] at hmem
    contradiction
  have hstays := staysOwn_runUses run socket
  have hon := hstays.calls hown call hcall
  rw [hstays.fd] at hon
  rwa [← hfd]

/-- The socket has the descriptor that was accepted if and only if it fits the
16 bits of the constructor's parameter. -/
theorem getFd_create_iff (fd : Fd) (memory : Slots) :
    (TcpSocket.create fd memory).getFd = fd ↔ fd < 2 ^ 16 :=
  Nat.mod_eq_iff_lt (by decide)

/-- A handler and its socket are on one descriptor exactly if the handler was
given its socket and the descriptor fits 16 bits. -/
theorem oneDescriptor_iff (ctor : Constructor) (events : UInt32) (fd : Fd) (reactor : ρ)
    (memory : Slots) (rdyEvents : UInt32) :
    OneDescriptor fd (ctor.make events fd reactor memory rdyEvents) ↔
      ctor = .withSocket ∧ fd < 2 ^ 16 := by
  constructor
  · rintro ⟨-, socket, htcp, hfd, -⟩
    cases ctor with
    | withSocket =>
        cases htcp
        exact ⟨rfl, (getFd_create_iff fd memory).mp hfd⟩
    | withoutSocket => contradiction
  · rintro ⟨rfl, hfits⟩
    have hfd := (getFd_create_iff fd memory).mpr hfits
    exact ⟨rfl, _, rfl, hfd, fun run _ => on_of_runUses hfd rfl run⟩

/-- The accept loop with many descriptors open: the handler is registered for
65541, and its socket is on descriptor 5. -/
theorem accepted_apart :
    ¬ OneDescriptor 65541 (accepted 65541 () ⟨none, none, none⟩ 0) := by
  rintro ⟨-, socket, htcp, hfd, -⟩
  cases htcp
  have hlow : (TcpSocket.create 65541 ⟨none, none, none⟩).getFd = 5 := rfl
  rw [hlow] at hfd
  contradiction

/-! ### Handling an event -/

/-- The sockets of the two handlers are one that kept to its descriptor. -/
def StaysOwn (before after : EpollEventHandler ρ) : Prop :=
  ∀ socket, before.tcp = some socket →
    ∃ last, after.tcp = some last ∧ socket.StaysOwn last

theorem StaysOwn.refl (handler : EpollEventHandler ρ) : handler.StaysOwn handler :=
  fun socket htcp => ⟨socket, htcp, .refl socket⟩

theorem StaysOwn.trans {first middle last : EpollEventHandler ρ} (hleft : first.StaysOwn middle)
    (hright : middle.StaysOwn last) : first.StaysOwn last := by
  intro socket htcp
  obtain ⟨between, hbetween, hstays⟩ := hleft socket htcp
  obtain ⟨final, hfinal, hstays'⟩ := hright between hbetween
  exact ⟨final, hfinal, hstays.trans hstays'⟩

theorem staysOwn_onTcp {α : Type} {method : Method TcpSocket α}
    (hmethod : Method.Respects TcpSocket.StaysOwn method) :
    Method.Respects StaysOwn (onTcp method : Method (EpollEventHandler ρ) α) := by
  intro handler socket htcp
  rw [after_onTcp, htcp]
  exact ⟨_, rfl, hmethod socket⟩

theorem admits_staysOwn : Admits (StaysOwn (ρ := ρ)) where
  refl := StaysOwn.refl
  trans _ _ _ := StaysOwn.trans
  read kernel := staysOwn_onTcp (TcpSocket.admitsIo_staysOwn.read
    TcpSocket.admitsCallback_staysOwn.runRecvCall kernel)
  write env kernel := staysOwn_onTcp (TcpSocket.admitsIo_staysOwn.write
    TcpSocket.admitsCallback_staysOwn.runSendCall env kernel .null)

theorem staysOwn_handleIo (outside : Outside) :
    Method.Respects StaysOwn (handleIo outside : Method (EpollEventHandler ρ) Unit) :=
  admits_staysOwn.handleIo (staysOwn_onTcp TcpSocket.staysOwn_disConnected) outside

/-- Where the two agree, `handle_event` uses the registered descriptor. -/
theorem OneDescriptor.handleIo {fd : Fd} {handler : EpollEventHandler ρ}
    (hone : OneDescriptor fd handler) (outside : Outside) :
    ∀ call ∈ ((EpollEventHandler.handleIo outside).after handler).calls,
      call.On (((EpollEventHandler.handleIo outside).after handler).getFd) := by
  obtain ⟨socket, htcp, hfd, hruns⟩ := hone.served
  obtain ⟨last, hlast, hstays⟩ := staysOwn_handleIo outside handler socket htcp
  have hown : last.OwnCalls := by
    apply hstays.calls
    intro call hcall
    rw [← hfd] at hruns
    exact hruns [] call hcall
  have hsame : ((EpollEventHandler.handleIo outside).after handler).getFd = last.fd := calc
    _ = handler.fd := (samePlace_handleIo outside handler).fd
    _ = socket.fd := hone.registered.trans hfd.symm
    _ = last.fd := hstays.fd.symm
  intro call hcall
  rw [calls, hlast] at hcall
  rw [hsame]
  exact hown call hcall

end EpollEventHandler

end ZtHttp
