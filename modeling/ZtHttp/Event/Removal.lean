import ZtHttp.Event.Close
import ZtHttp.Event.Registration
import ZtHttp.Event.Serving

/-!
# Closing before the removal

Every path of `handle_event` ends with `remove_handler(this)`, which deletes the
handler. A connected socket is closed on the way there, except on the two paths
that a mask with `EPOLLERR` or `EPOLLHUP` takes: they go to the removal at once,
and nothing refers to the open descriptor any more.
-/

namespace ZtHttp

open Imperative

/-- The mask has neither `EPOLLERR` nor `EPOLLHUP`. -/
def Unbroken (mask : UInt32) : Prop := has mask epollErr = false ∧ has mask epollHup = false

instance (mask : UInt32) : Decidable (Unbroken mask) := inferInstanceAs (Decidable (_ ∧ _))

theorem not_unbroken {mask : UInt32} (hbroken : ¬ Unbroken mask) :
    has mask epollErr = true ∨ has mask epollHup = true := by
  by_contra hneither
  rw [not_or, Bool.not_eq_true, Bool.not_eq_true] at hneither
  exact hbroken hneither

namespace EpollEventHandler

variable {ρ : Type} {outside : Outside} {handler after : EpollEventHandler ρ} {socket : TcpSocket}

/-- What the handler's mask asks it to do with its socket is defined. -/
def Handles (outside : Outside) (handler : EpollEventHandler ρ) : Prop :=
  ∃ after, handleIo outside handler = .ok () after

/-! ### One branch of the mask -/

/-- A branch on a connected socket never ends the function, whatever its call
returned. -/
theorem serve_reaches {event : UInt32} {handle : Method (EpollEventHandler ρ) Bool}
    {reaches : Bool} {fd : Fd}
    (hkeeps : Method.Respects (fun before after => after.line = before.line) handle)
    (hline : handler.line = some (fd, true))
    (hserve : serve event handle handler = .ok reaches after) :
    reaches = true ∧ after.line = some (fd, true) := by
  have hafter := admits_line.serve event hkeeps handler
  rw [Method.after_ok hserve, hline] at hafter
  refine ⟨?_, hafter⟩
  rw [serve, Method.bind_ok (Method.get_apply _)] at hserve
  split at hserve
  · obtain ⟨done, middle, hhandle, hrest⟩ := Method.bind_eq_ok hserve
    cases done with
    | true =>
        cases hrest
        rfl
    | false =>
        have hmiddle := hkeeps handler
        rw [Method.after_ok hhandle, hline] at hmiddle
        obtain ⟨socket, htcp, hsocket⟩ := line_eq_some hmiddle
        have hconnected : socket.isConnected = true := congrArg Prod.snd hsocket
        simp only [Bool.false_eq_true, if_false, isConnected_eq htcp, hconnected] at hrest
        cases hrest
        rfl
  · cases hserve
    rfl

/-- So an unbroken mask on a connected socket leads to the close. -/
theorem serveReady_reaches {reaches : Bool} (htcp : handler.tcp = some socket)
    (hconnected : socket.isConnected = true) (hmask : Unbroken handler.rdyEvents)
    (hserve : serveReady outside handler = .ok reaches after) : reaches = true := by
  have hline : handler.line = some (socket.fd, true) := by
    rw [line_eq htcp, TcpSocket.line, hconnected]
  rw [serveReady_unbroken outside hmask.1 hmask.2] at hserve
  obtain ⟨goesOn, middle, hread, hwrite⟩ := Method.bind_eq_ok hserve
  obtain ⟨rfl, hmiddle⟩ := serve_reaches (admits_line.handleRead _) hline hread
  rw [if_pos rfl] at hwrite
  exact (serve_reaches (admits_line.handleWrite _ _) hmiddle hwrite).1

/-! ### Up to the removal -/

theorem disConnect_ok (htcp : handler.tcp = some socket) :
    ∃ after, disConnect handler = .ok () after :=
  ⟨_, Method.bind_ok (onTcp_ok htcp (TcpSocket.disConnected_apply socket))⟩

/-- A connected handler that gets to its removal has closed its descriptor on
the way exactly if its mask is unbroken. -/
theorem handleIo_closesUnbroken (htcp : handler.tcp = some socket)
    (hconnected : socket.isConnected = true) (hio : handleIo outside handler = .ok () after) :
    (Unbroken handler.rdyEvents →
      ∀ fd, after.closes fd = handler.closes fd + if fd = socket.fd then 1 else 0) ∧
    (¬ Unbroken handler.rdyEvents → ∀ fd, after.closes fd = handler.closes fd) := by
  obtain ⟨reaches, served, hserve, hrest⟩ := Method.bind_eq_ok hio
  have hkept : ∀ fd, served.closes fd = handler.closes fd := by
    intro fd
    have hsame := (admits_closes fd).serveReady outside handler
    rwa [Method.after_ok hserve] at hsame
  have hline := admits_line.serveReady outside handler
  rw [Method.after_ok hserve] at hline
  obtain ⟨reading, hreading, hsame⟩ := line_eq_some (hline.trans (line_eq htcp))
  constructor
  · intro hmask fd
    obtain rfl := serveReady_reaches htcp hconnected hmask hserve
    have hcloses := closes_disConnect fd hreading
    rw [if_pos rfl] at hrest
    rw [Method.after_ok hrest, hkept fd] at hcloses
    rw [hcloses, show reading.fd = socket.fd from congrArg Prod.fst hsame]
  · intro hbroken fd
    rw [serveReady_broken (not_unbroken hbroken)] at hserve
    cases hserve
    cases hrest
    rfl

/-- On a counted socket whose slots hold null or callbacks that return, what is
undefined is to read when there is nothing. -/
theorem handles_iff {sendCallback : Option AppendingCall} {recvCallback : Option ReceivingCall}
    (htcp : handler.tcp = some socket) (hsound : socket.Sound sendCallback recvCallback)
    (hbound : (stream outside sendCallback recvCallback handler socket).length < 2 ^ 31) :
    handler.Handles outside ↔
      (Unbroken handler.rdyEvents → ¬ ReadsNothing outside recvCallback handler socket) := by
  constructor
  · rintro ⟨after, hio⟩ hmask hreads
    obtain ⟨reaches, served, hserve, -⟩ := Method.bind_eq_ok hio
    obtain ⟨last, hfault⟩ := serveReady_fault htcp hsound hmask.1 hmask.2 hreads
    rw [hserve] at hfault
    contradiction
  · intro hreads
    by_cases hmask : Unbroken handler.rdyEvents
    · have hserves : ∃ last,
          serveReady outside handler = .ok true { handler with tcp := some last } := by
        by_cases hout : has handler.rdyEvents epollOut = true
        · obtain ⟨last, hserve, -⟩ :=
            serveReady_writes htcp hsound hout hmask.1 hmask.2 hbound (hreads hmask)
          exact ⟨last, hserve⟩
        · obtain ⟨middle, hread, -⟩ := serve_read htcp hsound (hreads hmask)
          rw [Bool.not_eq_true] at hout
          refine ⟨middle, ?_⟩
          rw [serveReady_unbroken outside hmask.1 hmask.2, Method.bind_ok hread]
          exact serve_skip hout
      obtain ⟨last, hserve⟩ := hserves
      obtain ⟨after, hclose⟩ :=
        disConnect_ok (show { handler with tcp := some last }.tcp = some last from rfl)
      exact ⟨after, (Method.bind_ok hserve).trans hclose⟩
    · exact ⟨handler, Method.bind_ok (serveReady_broken (not_unbroken hmask))⟩

end EpollEventHandler

namespace Process

variable {ρ : Type} {process : Process ρ} {h : HandlerId} {handler after : EpollEventHandler ρ}
  {outside : Outside}

/-- Closing a handler leaves it on the heap as its own method does. -/
theorem disConnect_ok (hhandler : process.handler? h = some handler)
    (hclose : EpollEventHandler.disConnect handler = .ok () after) :
    ∃ closed, disConnect h process = .ok () closed ∧ process.Served closed ∧
      closed.heap = process.heap.set h after := by
  have hplace := EpollEventHandler.samePlace_disConnect handler
  rw [Method.after_ok hclose] at hplace
  have hserved := served_setHandler (handler?_eq_some.mp hhandler).2 hplace
  have hderef := deref_ok (handler?_setHandler hhandler after)
  rw [disConnect, Method.bind_ok (onHandler_ok hhandler hclose), Method.bind_ok hderef]
  cases after.tcp with
  | none => exact ⟨_, rfl, hserved, rfl⟩
  | some socket => exact ⟨_, rfl, hserved.trans (served_closeFd _ socket.fd), rfl⟩

variable [DecidableEq ρ]

/-- `handle_event` of a handler that its reactor's table has, and that gets to
its removal: what it leaves is what the removal leaves of a served process. -/
theorem handleEvent_ok (hhandler : process.handler? h = some handler)
    (hfound : process.entry handler.reactor handler.fd ≠ none)
    (hio : EpollEventHandler.handleIo outside handler = .ok () after) (granted : Bool) :
    ∃ served, process.Served served ∧ served.heap = process.heap.set h after ∧
      handleEvent 0 granted outside h process =
        .ok 0 (served.remove granted handler.reactor handler.fd h) := by
  obtain ⟨hlive, hheap⟩ := handler?_eq_some.mp hhandler
  have hplace := EpollEventHandler.samePlace_handleIo outside handler
  rw [Method.after_ok hio] at hplace
  -- the two paths meet at the removal
  have hremoval : ∀ {served : Process ρ}, process.Served served →
      served.heap = process.heap.set h after →
      (do let _ ← removeHandler 0 granted (← deref h).reactor h
          return (0 : Int) : Method (Process ρ) Int) served =
        .ok 0 (served.remove granted handler.reactor handler.fd h) := by
    intro served hserved hset
    have hafter : served.handler? h = some after := by
      refine handler?_eq_some.mpr ⟨hserved.deleted ▸ hlive, ?_⟩
      rw [hset, List.getElem?_set_self (List.getElem?_eq_some_iff.mp hheap).1]
    rw [Method.bind_ok (deref_ok hafter), hplace.reactor, ← hplace.fd]
    refine Method.bind_ok (removeHandler_found hafter granted ?_)
    rwa [hserved.entry, hplace.fd]
  obtain ⟨reaches, middle, hserve, hrest⟩ := Method.bind_eq_ok hio
  have hready := onHandler_ok hhandler hserve
  have hsame := EpollEventHandler.admits_samePlace.serveReady outside handler
  rw [Method.after_ok hserve] at hsame
  have hserved := served_setHandler hheap hsame
  cases reaches with
  | false =>
      cases hrest
      exact ⟨_, hserved, rfl, (Method.bind_ok hready).trans (hremoval hserved rfl)⟩
  | true =>
      obtain ⟨closed, hclose, hclosed, hset⟩ :=
        disConnect_ok (handler?_setHandler hhandler middle) hrest
      rw [heap_setHandler, List.set_set] at hset
      have hserved := hserved.trans hclosed
      refine ⟨closed, hserved, hset, (Method.bind_ok hready).trans ?_⟩
      exact (Method.bind_ok hclose).trans (hremoval hserved hset)

/-- A handler that is undefined on its mask leaves `handle_event` undefined. -/
theorem handleEvent_fault (hhandler : process.handler? h = some handler)
    (hhandles : ¬ handler.Handles outside) (registerFlag : Int) (granted : Bool) :
    ∃ fault stopped, handleEvent registerFlag granted outside h process =
      .error fault stopped := by
  cases hserve : EpollEventHandler.serveReady outside handler with
  | error fault after => exact ⟨fault, _, Method.bind_error (onHandler_error hhandler hserve)⟩
  | ok reaches middle =>
      have hready := onHandler_ok hhandler hserve
      cases reaches with
      | false => exact (hhandles ⟨middle, Method.bind_ok hserve⟩).elim
      | true =>
          cases hclose : EpollEventHandler.disConnect middle with
          | ok _ after => exact (hhandles ⟨after, (Method.bind_ok hserve).trans hclose⟩).elim
          | error fault after =>
              have hclosing : disConnect h (process.setHandler h middle) =
                  .error fault ((process.setHandler h middle).setHandler h after) :=
                Method.bind_error
                  (onHandler_error (handler?_setHandler hhandler middle) hclose)
              exact ⟨fault, _, (Method.bind_ok hready).trans (Method.bind_error hclosing)⟩

/-- A `handle_event` that returns has done what the mask asks for. -/
theorem handles_of_handleEvent (hhandler : process.handler? h = some handler)
    {registerFlag ret : Int} {granted : Bool} {last : Process ρ}
    (hcall : handleEvent registerFlag granted outside h process = .ok ret last) :
    handler.Handles outside := by
  by_contra hhandles
  obtain ⟨fault, stopped, hfault⟩ := handleEvent_fault hhandler hhandles registerFlag granted
  rw [hcall] at hfault
  contradiction

/-- What `handle_event` should leave of a connected handler: its reactor has
been asked once, at the end, to remove it, and by then its descriptor has been
closed once and no other. -/
structure ClosedAndRemoved (granted : Bool) (h : HandlerId) (handler : EpollEventHandler ρ)
    (socket : TcpSocket) (process last : Process ρ) : Prop where
  removed : ∃ served, process.Served served ∧
    last = served.remove granted handler.reactor handler.fd h
  closed : ∃ after, last.heap[h]? = some after ∧
    ∀ fd, after.closes fd = handler.closes fd + if fd = socket.fd then 1 else 0

section

variable {socket : TcpSocket} (hhandler : process.handler? h = some handler)
  (htcp : handler.tcp = some socket) (hconnected : socket.isConnected = true)
  (hfound : process.entry handler.reactor handler.fd ≠ none)

include hhandler htcp hconnected hfound

/-- What `handle_event` leaves of a connected handler that gets to its removal. -/
theorem handleEvent_closes (hhandles : handler.Handles outside) (granted : Bool) :
    ∃ served after, process.Served served ∧
      handleEvent 0 granted outside h process =
        .ok 0 (served.remove granted handler.reactor handler.fd h) ∧
      (served.remove granted handler.reactor handler.fd h).heap[h]? = some after ∧
      (Unbroken handler.rdyEvents →
        ∀ fd, after.closes fd = handler.closes fd + if fd = socket.fd then 1 else 0) ∧
      (¬ Unbroken handler.rdyEvents → ∀ fd, after.closes fd = handler.closes fd) := by
  obtain ⟨after, hio⟩ := hhandles
  obtain ⟨served, hserved, hset, hcall⟩ := handleEvent_ok hhandler hfound hio granted
  refine ⟨served, after, hserved, hcall, ?_,
    EpollEventHandler.handleIo_closesUnbroken htcp hconnected hio⟩
  have hheap := (handler?_eq_some.mp hhandler).2
  rw [heap_remove, hset, List.getElem?_set_self (List.getElem?_eq_some_iff.mp hheap).1]

/-- A mask with `EPOLLERR` or `EPOLLHUP` leaves the descriptor open. -/
theorem ClosedAndRemoved.unbroken {granted : Bool} {last : Process ρ}
    (hcall : handleEvent 0 granted outside h process = .ok 0 last)
    (hclosed : ClosedAndRemoved granted h handler socket process last) :
    Unbroken handler.rdyEvents := by
  obtain ⟨served, after, -, hreturns, hafter, -, hopen⟩ := handleEvent_closes hhandler htcp
    hconnected hfound (handles_of_handleEvent hhandler hcall) granted
  cases hreturns.symm.trans hcall
  obtain ⟨found, hfound, honce⟩ := hclosed.closed
  cases hafter.symm.trans hfound
  by_contra hbroken
  have hnone := hopen hbroken socket.fd
  rw [honce, if_pos rfl] at hnone
  omega

/-- `handle_event` closes the descriptor of a connected handler and removes the
handler if and only if the mask is unbroken and what it asks for is defined. The
latter means, for a socket that is sound, that the mask does not read when there
is nothing to hand over. -/
theorem handleEvent_closesAndRemoves_iff (granted : Bool) (outside : Outside) :
    ((∃ last, handleEvent 0 granted outside h process = .ok 0 last ∧
        ClosedAndRemoved granted h handler socket process last) ↔
      Unbroken handler.rdyEvents ∧ handler.Handles outside) ∧
    ∀ sendCallback recvCallback, socket.Sound sendCallback recvCallback →
      (EpollEventHandler.stream outside sendCallback recvCallback handler socket).length < 2 ^ 31 →
      (handler.Handles outside ↔ (Unbroken handler.rdyEvents →
        ¬ EpollEventHandler.ReadsNothing outside recvCallback handler socket)) := by
  refine ⟨?_, fun _ _ => EpollEventHandler.handles_iff htcp⟩
  constructor
  · rintro ⟨last, hcall, hclosed⟩
    exact ⟨hclosed.unbroken hhandler htcp hconnected hfound hcall,
      handles_of_handleEvent hhandler hcall⟩
  · rintro ⟨hmask, hhandles⟩
    obtain ⟨served, after, hserved, hcall, hafter, hcloses, -⟩ :=
      handleEvent_closes hhandler htcp hconnected hfound hhandles granted
    exact ⟨_, hcall, ⟨served, hserved, rfl⟩, after, hafter, hcloses hmask⟩

end

/-- A connection that is registered with its reactor and holds a ready mask. -/
def oneReady (mask : UInt32) : Process Unit :=
  (initial.newHandler (epollOut ||| epollRdHup) 5 () ⟨none, none, none⟩ mask).register true () 0
    (.accepted 5 () ⟨none, none, none⟩ mask)

theorem oneReady_found (mask : UInt32) : (oneReady mask).entry () 5 ≠ none := by
  rw [oneReady, entry_register, if_pos ⟨rfl, rfl⟩]
  nofun

theorem oneReady_closed : ∃ last,
    handleEvent 0 true (EpollEventHandler.sending 2000) 0 (oneReady epollOut) = .ok 0 last ∧
      ClosedAndRemoved true 0 EpollEventHandler.writable .fresh (oneReady epollOut) last := by
  refine (handleEvent_closesAndRemoves_iff rfl rfl rfl (oneReady_found epollOut) true
    (EpollEventHandler.sending 2000)).1.mpr ⟨by decide, ?_⟩
  refine (EpollEventHandler.handles_iff rfl EpollEventHandler.fresh_sound ?_).mpr ?_
  · rw [EpollEventHandler.stream_writable_length]
    decide
  · exact fun _ hreads => absurd hreads.1 (by decide)

/-- The peer has reset the connection. -/
theorem oneReady_leftOpen : ¬ ∃ last,
    handleEvent 0 true (EpollEventHandler.sending 2000) 0 (oneReady epollErr) = .ok 0 last ∧
      ClosedAndRemoved true 0 (.accepted 5 () ⟨none, none, none⟩ epollErr) .fresh
        (oneReady epollErr) last := by
  rintro ⟨last, hcall, hclosed⟩
  exact absurd (hclosed.unbroken rfl rfl rfl (oneReady_found epollErr) hcall) (by decide)

end Process

end ZtHttp
