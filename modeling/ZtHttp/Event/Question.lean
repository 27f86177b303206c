import ZtHttp.Event.Record

/-!
# Answers before questions

The accept loop does not register `EPOLLIN`, so no event that epoll reports
makes the handler read. The first event that is not an error decides: if the
socket is writable, a response is generated from an empty input.
-/

namespace ZtHttp

open Imperative

/-- The pointer that the constructor leaves in `_sendCall` is null or can be
called, and what it returns can be appended. -/
def Slots.SendCallReturns (memory : Slots) : Prop :=
  ∀ callback, memory.sendCall = some callback →
    ∃ result buffer, (callback.run >>= IOBuffer.appendChunk) IOBuffer.empty = .ok result buffer

/-- epoll reports registered events, and errors and hang-ups besides. -/
def Reportable (registered mask : UInt32) : Prop :=
  mask &&& ~~~(registered ||| epollErr ||| epollHup) = 0

instance (registered mask : UInt32) : Decidable (Reportable registered mask) :=
  inferInstanceAs (Decidable (_ = _))

/-- `Http::write` was run before `Http::read` was handed a byte. -/
def AnswersFirst (calls : List SysCall) : Prop :=
  ∃ before after, calls = before ++ .httpWrite :: after ∧
    ∀ bytes, .httpRead bytes ∈ before → bytes = []

theorem AnswersFirst.mono {calls longer : List SysCall} (hanswers : AnswersFirst calls)
    (hlonger : calls <+: longer) : AnswersFirst longer := by
  obtain ⟨before, after, rfl, hread⟩ := hanswers
  obtain ⟨added, rfl⟩ := hlonger
  exact ⟨before, after ++ added, by simp, hread⟩

theorem not_answersFirst {calls : List SysCall} (hcalls : .httpWrite ∉ calls) :
    ¬ AnswersFirst calls := by
  rintro ⟨before, after, rfl, _⟩
  simp at hcalls

/-- No event that the accept loop registers is reported with `EPOLLIN`. -/
theorem reportable_no_in {mask : UInt32} (hmask : Reportable (epollOut ||| epollRdHup) mask) :
    has mask epollIn = false := by
  have hbit : epollIn =
      ~~~(epollOut ||| epollRdHup ||| epollErr ||| epollHup) &&& epollIn := by decide
  have hzero : mask &&& epollIn = 0 := by
    rw [hbit, ← UInt32.and_assoc, hmask, UInt32.zero_and]
  simp [has, hzero]

/-! ### The first write of a fresh socket -/

namespace TcpSocket

theorem onSendBuffer_null (socket : TcpSocket) :
    onSendBuffer (IOBuffer.appendChunk .null) socket = .ok true socket := rfl

/-- The socket when the callback of a fresh one is about to be called. -/
def calling (fd : Fd) (memory : Slots) (callback : SendCall) : TcpSocket :=
  { create fd memory with calls := [.sendCall callback.tag] }

theorem runSendCall_some (fd : Fd) {memory : Slots} {callback : SendCall}
    (hslot : memory.sendCall = some callback) :
    runSendCall (create fd memory) = (onSendBuffer callback.run >>= fun result =>
      onSendBuffer (IOBuffer.appendChunk result) >>= fun _ =>
      setSendCallBack none >>= fun _ => pure ()) (calling fd memory callback) := by
  rw [runSendCall, Method.bind_ok (Method.get_apply _), create, hslot]
  rfl

/-- A callback slot that can be used lets `write` go on. -/
theorem runSendCall_returns (fd : Fd) {memory : Slots} (hreturns : memory.SendCallReturns) :
    ∃ called, runSendCall (create fd memory) = .ok () called ∧
      ∀ call ∈ called.calls, ∃ tag, call = .sendCall tag := by
  cases hslot : memory.sendCall with
  | none =>
      refine ⟨{ create fd memory with slots := { memory with sendCall := none } }, ?_, nofun⟩
      rw [runSendCall, Method.bind_ok (Method.get_apply _), create, hslot]
      rfl
  | some callback =>
      obtain ⟨result, buffer, hboth⟩ := hreturns callback hslot
      obtain ⟨chunk, written, hrun, happend⟩ := Method.bind_eq_ok hboth
      let called : TcpSocket := { calling fd memory callback with sendBuffer := written }
      have hfirst : onSendBuffer callback.run (calling fd memory callback) = .ok chunk called :=
        Method.zoom_ok hrun
      have hsecond : onSendBuffer (IOBuffer.appendChunk chunk) called =
          .ok result { called with sendBuffer := buffer } := Method.zoom_ok happend
      refine ⟨{ called with
          sendBuffer := buffer
          slots := { memory with sendCall := none } }, ?_, ?_⟩
      · rw [runSendCall_some fd hslot, Method.bind_ok hfirst, Method.bind_ok hsecond]
        rfl
      · intro call hcall
        exact ⟨callback.tag, List.mem_singleton.mp hcall⟩

/-- Any other callback slot stops `write` before a response is generated. -/
theorem runSendCall_stops (fd : Fd) {memory : Slots} (hstops : ¬ memory.SendCallReturns) :
    ∃ fault stopped, runSendCall (create fd memory) = .error fault stopped ∧
      ∀ call ∈ stopped.calls, ∃ tag, call = .sendCall tag := by
  simp only [Slots.SendCallReturns, Classical.not_forall] at hstops
  obtain ⟨callback, hslot, hstops⟩ := hstops
  rw [runSendCall_some fd hslot]
  have htag : ∀ call ∈ (calling fd memory callback).calls, ∃ tag, call = .sendCall tag :=
    fun call hcall => ⟨callback.tag, List.mem_singleton.mp hcall⟩
  cases hrun : callback.run IOBuffer.empty with
  | error fault written =>
      have hfirst : onSendBuffer callback.run (calling fd memory callback) = .error fault
          { calling fd memory callback with sendBuffer := written } := Method.zoom_error hrun
      exact ⟨fault, _, Method.bind_error hfirst, htag⟩
  | ok chunk written =>
      have hfirst : onSendBuffer callback.run (calling fd memory callback) = .ok chunk
          { calling fd memory callback with sendBuffer := written } := Method.zoom_ok hrun
      rw [Method.bind_ok hfirst]
      cases happend : IOBuffer.appendChunk chunk written with
      | error fault buffer =>
          have hsecond : onSendBuffer (IOBuffer.appendChunk chunk)
              { calling fd memory callback with sendBuffer := written } = .error fault
                { calling fd memory callback with sendBuffer := buffer } :=
            Method.zoom_error happend
          exact ⟨fault, _, Method.bind_error hsecond, htag⟩
      | ok result buffer =>
          exact absurd ⟨result, buffer, (Method.bind_ok hrun).trans happend⟩ hstops

/-- The first `write` on a fresh socket generates a response without a
question, unless the callback slot stops it. -/
theorem write_create_answersFirst (fd : Fd) {memory : Slots} (hreturns : memory.SendCallReturns)
    (env : HttpEnv) (kernel : SendResult) :
    AnswersFirst ((write env kernel .null).after (create fd memory)).calls := by
  obtain ⟨called, hcall, htags⟩ := runSendCall_returns fd hreturns
  have hlogged : AnswersFirst ((log .httpWrite).after called).calls := by
    refine ⟨called.calls, [], rfl, ?_⟩
    intro bytes hread
    obtain ⟨tag, htag⟩ := htags _ hread
    exact SysCall.noConfusion htag
  have hcollect : AnswersFirst ((collect env .null).after (create fd memory)).calls := by
    rw [collect, Method.after_bind_ok (onSendBuffer_null _), Method.after_bind_ok hcall]
    apply hlogged.mono
    apply Method.Grows.first
    intro _
    apply Method.Grows.bind Method.Grows.of_get
    intro socket
    exact Method.Grows.bind (admits_grows.io.onSendBuffer _) fun _ => Method.Grows.of_pure _
  rw [write, Method.after_bind_ok (Method.get_apply _), if_neg (by simp [create])]
  exact hcollect.mono (Method.Grows.first (fun _ => admits_grows.io.transmit kernel) _)

theorem write_create_stops (fd : Fd) {memory : Slots} (hstops : ¬ memory.SendCallReturns)
    (env : HttpEnv) (kernel : SendResult) :
    ∃ fault stopped, write env kernel .null (create fd memory) = .error fault stopped ∧
      .httpWrite ∉ stopped.calls := by
  obtain ⟨fault, stopped, hcall, htags⟩ := runSendCall_stops fd hstops
  refine ⟨fault, stopped, ?_, ?_⟩
  · rw [write, Method.bind_ok (Method.get_apply _), if_neg (by simp [create])]
    apply Method.bind_error
    rw [collect, Method.bind_ok (onSendBuffer_null _)]
    exact Method.bind_error hcall
  · intro hmem
    obtain ⟨tag, htag⟩ := htags _ hmem
    exact SysCall.noConfusion htag

end TcpSocket

/-! ### The events of one connection -/

namespace EpollEventHandler

variable {ρ : Type}

/-- Hand a connection the masks that are reported for it, one after the other. -/
def handleAll : List (UInt32 × Outside) → Method (EpollEventHandler ρ) Unit
  | [] => pure ()
  | (mask, outside) :: rest => do
      let _ ← setRdyEvents mask
      handleIo outside
      handleAll rest

theorem grows_handleAll (events : List (UInt32 × Outside)) :
    Method.Grows calls (handleAll events : Method (EpollEventHandler ρ) Unit) := by
  induction events with
  | nil => exact Method.Grows.of_pure _
  | cons event rest ih =>
      apply Method.Grows.bind (Method.Grows.of_same fun _ => rfl)
      intro _
      exact Method.Grows.bind (grows_handleIo event.2) fun _ => ih

/-- A mask that is not an error and does not read is served by the writing
branch alone. -/
theorem serveReady_writing (outside : Outside) {handler : EpollEventHandler ρ}
    (herr : has handler.rdyEvents epollErr = false) (hhup : has handler.rdyEvents epollHup = false)
    (hin : has handler.rdyEvents epollIn = false) :
    serveReady outside handler =
      serve epollOut (handleWrite outside.env outside.send) handler := by
  rw [serveReady_unbroken outside herr hhup, Method.bind_ok (serve_skip hin)]
  rfl

theorem handleAll_cons (mask : UInt32) (outside : Outside) (rest : List (UInt32 × Outside))
    (handler : EpollEventHandler ρ) :
    handleAll ((mask, outside) :: rest) handler =
      (handleIo outside >>= fun _ => handleAll rest) { handler with rdyEvents := mask } := rfl

/-! ### A closed socket is silent -/

/-- The handler's socket is closed and no response was ever generated. -/
def Silent (handler : EpollEventHandler ρ) : Prop :=
  ∃ socket, handler.tcp = some socket ∧ socket.isConnected = false ∧ .httpWrite ∉ socket.calls

/-- Closing a socket generates no response. -/
theorem disConnect_silent {handler : EpollEventHandler ρ} {socket : TcpSocket}
    (htcp : handler.tcp = some socket) (hcalls : .httpWrite ∉ socket.calls) :
    ∃ after, disConnect handler = .ok () after ∧ after.Silent := by
  have hclose := TcpSocket.disConnected_apply socket
  refine ⟨_, Method.bind_ok (onTcp_ok htcp hclose), _, rfl, rfl, fun hmem => ?_⟩
  simp only [List.mem_append, List.mem_singleton, reduceCtorEq, or_false] at hmem
  cases hmem with
  | inl hmem => exact hcalls hmem
  | inr hmem =>
      obtain ⟨tag, hcall⟩ := TcpSocket.mem_farewell hmem
      contradiction

/-- Further events leave a silent handler silent. -/
theorem handleIo_silent (outside : Outside) {handler : EpollEventHandler ρ}
    (hsilent : handler.Silent) (hin : has handler.rdyEvents epollIn = false) :
    ∃ after, handleIo outside handler = .ok () after ∧ after.Silent := by
  obtain ⟨socket, htcp, hclosed, hcalls⟩ := hsilent
  have hsame : { handler with tcp := some socket } = handler := by rw [← htcp]
  by_cases hbroken : has handler.rdyEvents epollErr = true ∨ has handler.rdyEvents epollHup = true
  · exact ⟨handler, Method.bind_ok (serveReady_broken hbroken), socket, htcp, hclosed, hcalls⟩
  · simp only [not_or, Bool.not_eq_true] at hbroken
    have hserve := serveReady_writing outside hbroken.1 hbroken.2 hin
    cases hout : has handler.rdyEvents epollOut with
    | false =>
        rw [serve_skip hout] at hserve
        obtain ⟨after, hclose, hafter⟩ := disConnect_silent htcp hcalls
        exact ⟨after, (Method.bind_ok hserve).trans hclose, hafter⟩
    | true =>
        -- `write` refuses a closed socket, and the innermost branch ends the function
        have hwrite : TcpSocket.write outside.env outside.send .null socket = .ok (-1) socket := by
          rw [TcpSocket.write, Method.bind_ok (Method.get_apply _), if_pos (by simp [hclosed])]
          rfl
        have hhandle : handleWrite outside.env outside.send handler = .ok false handler := by
          rw [handleWrite, Method.bind_ok (onTcp_ok htcp hwrite), hsame]
          rfl
        have hopen : isConnected handler = .ok false handler := by
          rw [isConnected_eq htcp, hclosed]
        refine ⟨handler, ?_, socket, htcp, hclosed, hcalls⟩
        have hstop : serve epollOut (handleWrite outside.env outside.send) handler =
            .ok false handler := by
          rw [serve, Method.bind_ok (Method.get_apply _), if_pos hout, Method.bind_ok hhandle]
          exact hopen
        exact (Method.bind_ok (hserve.trans hstop)).trans rfl

/-- A silent handler never answers. -/
theorem handleAll_silent {handler : EpollEventHandler ρ} (hsilent : handler.Silent)
    (events : List (UInt32 × Outside)) (hin : ∀ event ∈ events, has event.1 epollIn = false) :
    .httpWrite ∉ ((handleAll events).after handler).calls := by
  induction events generalizing handler with
  | nil =>
      obtain ⟨socket, htcp, _, hcalls⟩ := hsilent
      have hsame : (handleAll []).after handler = handler := rfl
      rw [hsame, calls, htcp]
      exact hcalls
  | cons event rest ih =>
      obtain ⟨mask, outside⟩ := event
      obtain ⟨socket, htcp, hclosed, hcalls⟩ := hsilent
      have hready : Silent { handler with rdyEvents := mask } := ⟨socket, htcp, hclosed, hcalls⟩
      obtain ⟨after, hhandle, hafter⟩ := handleIo_silent outside hready (hin _ List.mem_cons_self)
      have hall : (handleAll ((mask, outside) :: rest)).after handler =
          (handleAll rest).after after := by
        simp only [Method.after, handleAll_cons, Method.bind_ok hhandle]
      rw [hall]
      exact ih hafter fun event hevent => hin event (List.mem_cons_of_mem _ hevent)

/-! ### The first event that is not an error -/

/-- The first mask that `handle_event` serves at all. -/
def firstServed (events : List (UInt32 × Outside)) : Option UInt32 :=
  (events.map Prod.fst).find? fun mask => !has mask epollErr && !has mask epollHup

/-- The first event of a fresh connection answers when it is writable. -/
theorem handleIo_answersFirst {handler : EpollEventHandler ρ} {fd : Fd} {memory : Slots}
    (htcp : handler.tcp = some (TcpSocket.create fd memory)) (hreturns : memory.SendCallReturns)
    (outside : Outside) (herr : has handler.rdyEvents epollErr = false)
    (hhup : has handler.rdyEvents epollHup = false) (hin : has handler.rdyEvents epollIn = false)
    (hout : has handler.rdyEvents epollOut = true) :
    AnswersFirst ((handleIo outside).after handler).calls := by
  -- what follows the first `write` only adds to the record, on each level of the call
  have hwrite := TcpSocket.write_create_answersFirst fd hreturns outside.env outside.send
  have hcall : AnswersFirst
      ((onTcp (TcpSocket.write outside.env outside.send .null)).after handler).calls := by
    cases hresult : TcpSocket.write outside.env outside.send .null (TcpSocket.create fd memory) with
    | ok ret socket =>
        rw [Method.after_ok hresult] at hwrite
        rw [Method.after_ok (onTcp_ok htcp hresult)]
        exact hwrite
    | error fault socket =>
        rw [Method.after_error hresult] at hwrite
        rw [Method.after_error (onTcp_error htcp hresult)]
        exact hwrite
  have hhandle : AnswersFirst
      ((handleWrite outside.env outside.send).after handler).calls :=
    hcall.mono (Method.Grows.first (fun ret => by
      split <;> exact Method.Grows.of_same fun _ => rfl) _)
  have hserve : AnswersFirst
      ((serve epollOut (handleWrite outside.env outside.send)).after handler).calls := by
    rw [serve, Method.after_bind_ok (Method.get_apply _), if_pos hout]
    apply hhandle.mono
    apply Method.Grows.first
    intro done
    split
    · exact Method.Grows.of_pure _
    · exact grows_onTcp (Method.Grows.of_same fun _ => rfl)
  have hready : AnswersFirst ((serveReady outside).after handler).calls := by
    rw [Method.after, serveReady_writing outside herr hhup hin]
    exact hserve
  apply hready.mono
  apply Method.Grows.first
  intro reaches
  split
  · exact grows_disConnect
  · exact Method.Grows.of_pure _

/-- The callback slot stops the first event before anything is answered. -/
theorem handleIo_stops {handler : EpollEventHandler ρ} {fd : Fd} {memory : Slots}
    (htcp : handler.tcp = some (TcpSocket.create fd memory)) (hstops : ¬ memory.SendCallReturns)
    (outside : Outside) (herr : has handler.rdyEvents epollErr = false)
    (hhup : has handler.rdyEvents epollHup = false) (hin : has handler.rdyEvents epollIn = false)
    (hout : has handler.rdyEvents epollOut = true) :
    ∃ fault after, handleIo outside handler = .error fault after ∧ .httpWrite ∉ after.calls := by
  obtain ⟨fault, stopped, hwrite, hcalls⟩ :=
    TcpSocket.write_create_stops fd hstops outside.env outside.send
  have hhandle : handleWrite outside.env outside.send handler =
      .error fault { handler with tcp := some stopped } :=
    Method.bind_error (onTcp_error htcp hwrite)
  have hserve := (serveReady_writing outside herr hhup hin).trans (serve_error hout hhandle)
  exact ⟨fault, _, Method.bind_error hserve, hcalls⟩

/-- The first event of a fresh connection closes it unanswered when it is not
writable. -/
theorem handleIo_closes {handler : EpollEventHandler ρ} {fd : Fd} {memory : Slots}
    (htcp : handler.tcp = some (TcpSocket.create fd memory)) (outside : Outside)
    (herr : has handler.rdyEvents epollErr = false)
    (hhup : has handler.rdyEvents epollHup = false) (hin : has handler.rdyEvents epollIn = false)
    (hout : has handler.rdyEvents epollOut = false) :
    ∃ after, handleIo outside handler = .ok () after ∧ after.Silent := by
  have hserve := (serveReady_writing outside herr hhup hin).trans (serve_skip hout)
  obtain ⟨closed, hclose, hsilent⟩ := disConnect_silent htcp nofun
  exact ⟨closed, (Method.bind_ok hserve).trans hclose, hsilent⟩

theorem handleAll_accepted (fd : Fd) (reactor : ρ) (memory : Slots) (rdyEvents mask : UInt32)
    (outside : Outside) (rest : List (UInt32 × Outside)) :
    (handleAll ((mask, outside) :: rest)).after (accepted fd reactor memory rdyEvents) =
      (handleIo outside >>= fun _ => handleAll rest).after (accepted fd reactor memory mask) :=
  rfl

/-- No response is generated before a request byte was read exactly when the
first mask served, if there is one, is not writable, or the callback slot as
the constructor found it stops the call. The induction is on the masks; those
in front with an error leave the fresh socket alone. -/
theorem accepted_answersFirst_iff (fd : Fd) (reactor : ρ) (memory : Slots) (rdyEvents : UInt32)
    (events : List (UInt32 × Outside))
    (hevents : ∀ event ∈ events,
      Reportable (accepted fd reactor memory rdyEvents).events event.1) :
    ¬ AnswersFirst ((handleAll events).after (accepted fd reactor memory rdyEvents)).calls ↔
      ∀ mask, firstServed events = some mask → has mask epollOut = true →
        ¬ memory.SendCallReturns := by
  induction events generalizing rdyEvents with
  | nil => exact iff_of_true (not_answersFirst nofun) nofun
  | cons event rest ih =>
      obtain ⟨mask, outside⟩ := event
      have hin : has mask epollIn = false := reportable_no_in (hevents _ List.mem_cons_self)
      have hrest := fun event hevent => hevents event (List.mem_cons_of_mem _ hevent)
      rw [handleAll_accepted]
      by_cases hbroken : has mask epollErr = true ∨ has mask epollHup = true
      · have hskip : firstServed ((mask, outside) :: rest) = firstServed rest := by
          simp only [firstServed, List.map_cons, List.find?_cons]
          rcases hbroken with herr | hhup <;> simp [*]
        have hhandle : handleIo outside (accepted fd reactor memory mask) =
            .ok () (accepted fd reactor memory mask) := Method.bind_ok (serveReady_broken hbroken)
        rw [hskip, Method.after_bind_ok hhandle]
        exact ih mask hrest
      · simp only [not_or, Bool.not_eq_true] at hbroken
        obtain ⟨herr, hhup⟩ := hbroken
        have hfirst : firstServed ((mask, outside) :: rest) = some mask := by
          simp [firstServed, herr, hhup]
        have htcp : (accepted fd reactor memory mask).tcp =
            some (TcpSocket.create fd memory) := rfl
        simp only [hfirst, Option.some.injEq, forall_eq']
        -- the first mask served decides: it closes the socket, or it is the first to answer
        cases hout : has mask epollOut with
        | false =>
            obtain ⟨closed, hhandle, hsilent⟩ := handleIo_closes htcp outside herr hhup hin hout
            rw [Method.after_bind_ok hhandle]
            refine iff_of_true (not_answersFirst (handleAll_silent hsilent rest ?_)) nofun
            exact fun event hevent => reportable_no_in (hrest event hevent)
        | true =>
            simp only [true_implies]
            by_cases hreturns : memory.SendCallReturns
            · have hanswers := handleIo_answersFirst htcp hreturns outside herr hhup hin hout
              refine iff_of_false (not_not_intro (hanswers.mono ?_)) (not_not_intro hreturns)
              exact Method.Grows.first (fun _ => grows_handleAll rest) _
            · obtain ⟨fault, after, hhandle, hcalls⟩ :=
                handleIo_stops htcp hreturns outside herr hhup hin hout
              refine iff_of_true ?_ hreturns
              rw [Method.after_error (Method.bind_error hhandle)]
              exact not_answersFirst hcalls

/-- An event handled on a kernel that has nothing to read and takes 100 bytes. -/
def quiet : Outside := ⟨.eof, .upTo 100, .blank⟩

theorem hangup_answersFirst_iff :
    ¬ AnswersFirst ((handleAll [(epollHup, quiet), (epollRdHup, quiet)]).after
        (accepted 5 () ⟨none, none, none⟩ 0)).calls ↔
      ∀ mask, firstServed [(epollHup, quiet), (epollRdHup, quiet)] = some mask →
        has mask epollOut = true → ¬ Slots.SendCallReturns ⟨none, none, none⟩ :=
  accepted_answersFirst_iff 5 () ⟨none, none, none⟩ 0 [(epollHup, quiet), (epollRdHup, quiet)]
    (by
      intro event hevent
      simp only [List.mem_cons, List.not_mem_nil, or_false] at hevent
      rcases hevent with rfl | rfl <;> decide)

/-- A fresh socket is writable, epoll says so, and the response is generated. -/
theorem writable_answersFirst :
    Reportable (accepted 5 () ⟨none, none, none⟩ 0).events epollOut ∧
      AnswersFirst ((handleAll [(epollOut, quiet)]).after
        (accepted 5 () ⟨none, none, none⟩ 0)).calls := by
  have htcp : (accepted 5 () ⟨none, none, none⟩ epollOut).tcp =
      some (TcpSocket.create 5 ⟨none, none, none⟩) := rfl
  have hanswers := handleIo_answersFirst htcp nofun quiet (by decide) (by decide) (by decide)
    (by decide)
  have hreportable : Reportable (epollOut ||| epollRdHup) epollOut := by decide
  rw [handleAll_accepted]
  exact ⟨hreportable, hanswers.mono (Method.Grows.first (fun _ => grows_handleAll []) _)⟩

end EpollEventHandler

end ZtHttp
