import ZtHttp.Tcp.Status

/-!
# Which callbacks are invoked

`write` and `read` test a callback member before they do their work, call it
and reset it; `disConnected` calls its member and keeps it. The constructor
leaves all three as it finds them, so a member that is tested before anything
was assigned to it is called if the memory was not zero.
-/

namespace ZtHttp

open Imperative

/-- The three callback members. -/
inductive Slot where
  | send
  | recv
  | disConn
  deriving DecidableEq

/-- `_sendCall` and `_recvCall` are reset once they were called. -/
def Slot.usedOnce : Slot → Bool
  | .send | .recv => true
  | .disConn => false

/-- The pointer in the member, `none` for null. -/
def Slots.pointer (slots : Slots) : Slot → Option Nat
  | .send => slots.sendCall.map SendCall.tag
  | .recv => slots.recvCall.map RecvCall.tag
  | .disConn => slots.disConnCall.map DisConnCall.tag

/-- The member is reset if it is used once. -/
def Slots.clear : Slot → Slots → Slots
  | .send, slots => { slots with sendCall := none }
  | .recv, slots => { slots with recvCall := none }
  | .disConn, slots => slots

theorem Slots.pointer_clear (slot other : Slot) (slots : Slots) :
    (slots.clear slot).pointer other =
      if other = slot ∧ slot.usedOnce = true then none else slots.pointer other := by
  cases slot <;> cases other <;> rfl

/-- What happens to a member: a pointer, or null, is installed, or the pointer in
it is called. -/
inductive SlotEvent where
  | installed (slot : Slot) (pointer : Option Nat)
  | invoked (slot : Slot) (pointer : Nat)
  deriving DecidableEq

def SysCall.invocation : SysCall → Option SlotEvent
  | .sendCall tag => some (.invoked .send tag)
  | .recvCall tag => some (.invoked .recv tag)
  | .disConnCall tag => some (.invoked .disConn tag)
  | .recv _ _ | .send _ _ _ | .shutdownWr _ | .close _ | .httpRead _ | .httpWrite
  | .consumeError => none

namespace TcpSocket

/-- The invocations in the record. -/
def invocations (socket : TcpSocket) : List SlotEvent :=
  socket.calls.filterMap SysCall.invocation

end TcpSocket

namespace Use

/-- What the call does to the members: an installation, or the invocations that
it adds to the record. -/
def events (use : Use) (socket : TcpSocket) : List SlotEvent :=
  match use with
  | .setSendCallBack sendCall => [.installed .send (sendCall.map SendCall.tag)]
  | .setRecvCallBack recvCall => [.installed .recv (recvCall.map RecvCall.tag)]
  | .setDisConnectedCallBack disConnCall =>
      [.installed .disConn (disConnCall.map DisConnCall.tag)]
  | .read _ | .write _ _ _ | .disConnected =>
      (use.exec.after socket).invocations.drop socket.invocations.length

/-- The member that the call tests. -/
def tests (use : Use) (socket : TcpSocket) : Option Slot :=
  match use with
  | .read _ => if socket.isConnected then some .recv else none
  | .write _ _ _ => if socket.isConnected then some .send else none
  | .disConnected => some .disConn
  | .setSendCallBack _ | .setRecvCallBack _ | .setDisConnectedCallBack _ => none

/-- The member that the call assigns to by its name. -/
def sets : Use → Option Slot
  | .setSendCallBack _ => some .send
  | .setRecvCallBack _ => some .recv
  | .setDisConnectedCallBack _ => some .disConn
  | .read _ | .write _ _ _ | .disConnected => none

end Use

namespace TcpSocket

/-- What happens to the members in the course of a run, in order. -/
def history : List Use → TcpSocket → List SlotEvent
  | [], _ => []
  | use :: rest, socket => use.events socket ++
      match use.exec socket with
      | .ok _ after => history rest after
      | .error _ _ => []

/-- The pointer was the last to be installed for its member, and one that is used
once has not been called since. -/
def Justified (past : List SlotEvent) (slot : Slot) (pointer : Nat) : Prop :=
  ∃ front later, past = front ++ .installed slot (some pointer) :: later ∧
    (∀ other, .installed slot other ∉ later) ∧
    (slot.usedOnce = true → ∀ other, .invoked slot other ∉ later)

/-- Every invocation is justified by what came before it. -/
def AllJustified (events : List SlotEvent) : Prop :=
  ∀ past slot pointer later, events = past ++ .invoked slot pointer :: later →
    Justified past slot pointer

/-- Every call of the run returns, and none tests a member that was never
assigned to. -/
def TestsAssigned : (Slot → Prop) → List Use → TcpSocket → Prop
  | _, [], _ => True
  | assigned, use :: rest, socket =>
      (∀ slot, use.tests socket = some slot → assigned slot) ∧
        use.exec.Returns
          (fun _ after =>
            TestsAssigned (fun slot => assigned slot ∨ use.sets = some slot) rest after)
          socket

/-! ### What the parts of a method leave of the members -/

/-- Nothing was invoked or installed. -/
structure SameCallbacks (before after : TcpSocket) : Prop where
  invocations : after.invocations = before.invocations
  slots : after.slots = before.slots

theorem admitsIo_sameCallbacks : AdmitsIo SameCallbacks where
  refl _ := ⟨rfl, rfl⟩
  trans _ _ _ hleft hright :=
    ⟨hright.invocations.trans hleft.invocations, hright.slots.trans hleft.slots⟩
  log socket call hio _ := by
    have hnone : call.invocation = none := by
      cases call <;> first | rfl | contradiction
    refine ⟨?_, rfl⟩
    simp only [invocations, List.filterMap_append, List.filterMap_cons, hnone, List.filterMap_nil,
      List.append_nil]
  sendBuffer _ _ := ⟨rfl, rfl⟩
  recvBuffer _ _ := ⟨rfl, rfl⟩
  status _ _ := ⟨rfl, rfl⟩
  http _ _ := ⟨rfl, rfl⟩

theorem invocations_log (call : SysCall) {event : SlotEvent}
    (hcall : call.invocation = some event) (socket : TcpSocket) :
    ((log call).after socket).invocations = socket.invocations ++ [event] := by
  change (socket.calls ++ [call]).filterMap SysCall.invocation = _
  rw [List.filterMap_append, List.filterMap_cons, hcall]
  rfl

/-- What the test of a member does: its pointer is called, if it is not null, and
a method that returns has reset the member. -/
structure Calls {α : Type} (slot : Slot) (method : Method TcpSocket α) (socket : TcpSocket) :
    Prop where
  invocations : (method.after socket).invocations =
    socket.invocations ++ ((socket.slots.pointer slot).map (.invoked slot)).toList
  slots : ∀ value after, method socket = .ok value after → after.slots = socket.slots.clear slot

section

variable {α : Type} {slot : Slot} {socket middle : TcpSocket}

/-- A null pointer is not called. -/
theorem Calls.of_null {method : Method TcpSocket Unit}
    (hnull : socket.slots.pointer slot = none)
    (hmethod : method socket = .ok () { socket with slots := socket.slots.clear slot }) :
    Calls slot method socket where
  invocations := by
    rw [Method.after_ok hmethod, hnull]
    exact (List.append_nil _).symm
  slots value after hafter := by
    cases hmethod.symm.trans hafter
    rfl

/-- The callback is logged, does what it does to a buffer, and is reset. -/
theorem Calls.of_pointer {method body : Method TcpSocket Unit} {logged : TcpSocket}
    {pointer : Nat} (reset : Method TcpSocket Unit)
    (hpointer : socket.slots.pointer slot = some pointer)
    (hlogged : logged.invocations = socket.invocations ++ [.invoked slot pointer])
    (hslots : logged.slots = socket.slots) (hbody : Method.Respects SameCallbacks body)
    (hreset : ∀ socket, reset socket = .ok () { socket with slots := socket.slots.clear slot })
    (hmethod : method socket = (body >>= fun _ => reset) logged) :
    Calls slot method socket := by
  have hsame := hbody logged
  cases hran : body logged with
  | ok _ ran =>
      rw [Method.after_ok hran] at hsame
      rw [Method.bind_ok hran, hreset] at hmethod
      refine ⟨?_, ?_⟩
      · rw [Method.after_ok hmethod, hpointer]
        exact hsame.invocations.trans hlogged
      · intro value after hafter
        cases hmethod.symm.trans hafter
        exact congrArg (Slots.clear slot) (hsame.slots.trans hslots)
  | error fault stopped =>
      rw [Method.after_error hran] at hsame
      rw [Method.bind_error hran] at hmethod
      refine ⟨?_, ?_⟩
      · rw [Method.after_error hmethod, hpointer]
        exact hsame.invocations.trans hlogged
      · intro value after hafter
        rw [hmethod] at hafter
        contradiction

/-- What is done before and after the test invokes and installs nothing. -/
theorem Calls.around {β : Type} {first : Method TcpSocket β} {value : β}
    {test : Method TcpSocket Unit} {rest : Method TcpSocket α}
    (hfirst : first socket = .ok value middle) (hsame : SameCallbacks socket middle)
    (hcalls : Calls slot test middle) (hrest : Method.Respects SameCallbacks rest) :
    Calls slot (do let _ ← first; test; rest) socket := by
  have htested : (do let _ ← first; test; rest) socket = (test >>= fun _ => rest) middle :=
    Method.bind_ok hfirst
  have hinvoked := hcalls.invocations
  rw [hsame.invocations, hsame.slots] at hinvoked
  cases hran : test middle with
  | ok _ ran =>
      have hlater := hrest ran
      rw [Method.after_ok hran] at hinvoked
      rw [Method.bind_ok hran] at htested
      have hafter : (do let _ ← first; test; rest).after socket = rest.after ran := by
        unfold Method.after
        rw [htested]
      refine ⟨?_, ?_⟩
      · rw [hafter, hlater.invocations, hinvoked]
      · intro result after hreturns
        have hreturned := htested.symm.trans hreturns
        rw [Method.after_ok hreturned] at hlater
        rw [hlater.slots, hcalls.slots _ _ hran, hsame.slots]
  | error fault stopped =>
      rw [Method.after_error hran] at hinvoked
      rw [Method.bind_error hran] at htested
      refine ⟨?_, ?_⟩
      · rw [Method.after_error htested, hinvoked]
      · intro result after hreturns
        rw [htested] at hreturns
        contradiction

end

theorem calls_runSendCall (socket : TcpSocket) : Calls .send runSendCall socket := by
  cases hslot : socket.slots.sendCall with
  | none =>
      refine .of_null (by rw [Slots.pointer, hslot]; rfl) ?_
      rw [runSendCall, Method.bind_ok (Method.get_apply _)]
      simp only [hslot]
      rfl
  | some callback =>
      have hbody : Method.Respects SameCallbacks (do
          let result ← onSendBuffer callback.run
          let _ ← onSendBuffer (IOBuffer.appendChunk result)) := by
        apply admitsIo_sameCallbacks.bind (admitsIo_sameCallbacks.onSendBuffer _)
        intro result
        exact admitsIo_sameCallbacks.bind (admitsIo_sameCallbacks.onSendBuffer _)
          fun _ => admitsIo_sameCallbacks.of_pure _
      refine .of_pointer (do let _ ← setSendCallBack none) (by rw [Slots.pointer, hslot]; rfl)
        (invocations_log (.sendCall callback.tag) rfl socket) rfl hbody (fun _ => rfl) ?_
      rw [runSendCall, Method.bind_ok (Method.get_apply _)]
      simp only [hslot]
      rw [Method.bind_ok (log_apply _ _)]
      simp only [bind_assoc, pure_bind]
      rfl

theorem calls_runRecvCall (socket : TcpSocket) : Calls .recv runRecvCall socket := by
  cases hslot : socket.slots.recvCall with
  | none =>
      refine .of_null (by rw [Slots.pointer, hslot]; rfl) ?_
      rw [runRecvCall, Method.bind_ok (Method.get_apply _)]
      simp only [hslot]
      rfl
  | some callback =>
      refine .of_pointer (do let _ ← setRecvCallBack none) (by rw [Slots.pointer, hslot]; rfl)
        (invocations_log (.recvCall callback.tag) rfl socket) rfl
        (admitsIo_sameCallbacks.onRecvBuffer callback.run) (fun _ => rfl) ?_
      rw [runRecvCall, Method.bind_ok (Method.get_apply _)]
      simp only [hslot]
      rw [Method.bind_ok (log_apply _ _)]
      rfl

/-! ### What a call of a method does to the members -/

theorem Calls.congr {α : Type} {slot : Slot} {method other : Method TcpSocket α}
    {socket : TcpSocket} (hsame : method socket = other socket)
    (hcalls : Calls slot other socket) : Calls slot method socket := by
  have hafter : method.after socket = other.after socket := by
    unfold Method.after
    rw [hsame]
  refine ⟨?_, ?_⟩
  · rw [hafter]
    exact hcalls.invocations
  · intro value after hreturns
    exact hcalls.slots value after (hsame.symm.trans hreturns)

/-- `read` gets to its member whatever `::recv` delivers. -/
theorem receive_returns (kernel : RecvResult) (socket : TcpSocket) :
    ∃ siz received, receive kernel socket = .ok siz received := by
  cases kernel with
  | eof => exact ⟨0, _, rfl⟩
  | error => exact ⟨-1, _, rfl⟩
  | data piece =>
      have hpiece := piece.2.2
      have happend := IOBuffer.appendBytes_eq IOBuffer.empty piece.1 (by omega)
      rw [receive, Method.bind_ok (Method.get_apply _), Method.bind_ok (log_apply _ _)]
      simp only [happend]
      exact ⟨_, _, (Method.bind_ok (onRecvBuffer_ok _ (IOBuffer.appendChunk_other _ _))).trans rfl⟩

theorem calls_read {socket : TcpSocket} (hconnected : socket.isConnected = true)
    (kernel : RecvResult) : Calls .recv (Use.read kernel).exec socket := by
  obtain ⟨siz, received, hreceive⟩ := receive_returns kernel socket
  have hsame := admitsIo_sameCallbacks.receive kernel socket
  rw [Method.after_ok hreceive] at hsame
  have hrest : Method.Respects SameCallbacks (do shutdownWhenEmpty; deliver; pure ()) := by
    apply admitsIo_sameCallbacks.bind admitsIo_sameCallbacks.shutdownWhenEmpty
    intro _
    exact admitsIo_sameCallbacks.bind admitsIo_sameCallbacks.deliver
      fun _ => admitsIo_sameCallbacks.of_pure _
  have hcalls := Calls.around hreceive hsame (calls_runRecvCall received) hrest
  apply hcalls.congr
  rw [Use.exec, read, bind_assoc, Method.bind_ok (Method.get_apply _),
    if_neg (by simp [hconnected])]
  simp only [bind_assoc, pure_bind]

/-- `write` gets to its member unless the chunk cannot be appended. -/
theorem calls_write {socket middle : TcpSocket} (hconnected : socket.isConnected = true)
    (env : HttpEnv) (kernel : SendResult) {chunk : IOBuffer.ChunkPtr} {appended : Bool}
    (happend : onSendBuffer (IOBuffer.appendChunk chunk) socket = .ok appended middle) :
    Calls .send (Use.write env kernel chunk).exec socket := by
  have hsame := admitsIo_sameCallbacks.onSendBuffer (IOBuffer.appendChunk chunk) socket
  rw [Method.after_ok happend] at hsame
  have hrest : Method.Respects SameCallbacks (do
      log .httpWrite
      let _ ← onSendBuffer (Http.write env (← get).http)
      let _ ← transmit kernel) := by
    apply admitsIo_sameCallbacks.bind
      (admitsIo_sameCallbacks.logged .httpWrite rfl fun _ => trivial)
    intro _
    apply admitsIo_sameCallbacks.bind admitsIo_sameCallbacks.of_get
    intro answering
    apply admitsIo_sameCallbacks.bind (admitsIo_sameCallbacks.onSendBuffer _)
    intro _
    exact admitsIo_sameCallbacks.bind (admitsIo_sameCallbacks.transmit kernel)
      fun _ => admitsIo_sameCallbacks.of_pure _
  have hcalls := Calls.around happend hsame (calls_runSendCall middle) hrest
  apply hcalls.congr
  rw [Use.exec, write, bind_assoc, Method.bind_ok (Method.get_apply _),
    if_neg (by simp [hconnected])]
  simp only [collect, bind_assoc, pure_bind]

theorem calls_disConnected (socket : TcpSocket) :
    Calls .disConn Use.disConnected.exec socket := by
  have hexec : Use.disConnected.exec socket = .ok () { socket with
      calls := socket.calls ++ socket.farewell ++ [.close socket.fd], isConnected := false } :=
    Method.bind_ok (disConnected_apply socket)
  have hfarewell : socket.farewell.filterMap SysCall.invocation =
      ((socket.slots.pointer .disConn).map (.invoked .disConn)).toList := by
    rw [farewell, Slots.pointer]
    cases socket.slots.disConnCall with
    | none => rfl
    | some callback => rfl
  refine ⟨?_, ?_⟩
  · rw [Method.after_ok hexec, ← hfarewell, invocations, invocations, List.filterMap_append,
      List.filterMap_append]
    exact List.append_nil _
  · intro value after hafter
    cases hexec.symm.trans hafter
    rfl

/-- A call that returns gets to the member that it tests. -/
theorem calls_exec {use : Use} {slot : Slot} {socket after : TcpSocket}
    (htests : use.tests socket = some slot) (hreturns : use.exec socket = .ok () after) :
    Calls slot use.exec socket := by
  cases use with
  | setSendCallBack _ | setRecvCallBack _ | setDisConnectedCallBack _ => contradiction
  | disConnected =>
      cases htests
      exact calls_disConnected socket
  | read kernel =>
      obtain ⟨hconnected, heq⟩ := Option.ite_none_right_eq_some.mp htests
      cases heq
      exact calls_read hconnected kernel
  | write env kernel chunk =>
      obtain ⟨hconnected, heq⟩ := Option.ite_none_right_eq_some.mp htests
      cases heq
      cases happend : onSendBuffer (IOBuffer.appendChunk chunk) socket with
      | ok appended middle => exact calls_write hconnected env kernel happend
      | error fault stopped =>
          rw [Use.exec, write, bind_assoc, Method.bind_ok (Method.get_apply _),
            if_neg (by simp [hconnected])] at hreturns
          simp only [collect, bind_assoc] at hreturns
          rw [Method.bind_error happend] at hreturns
          contradiction

/-- A call that adds no invocation to the record and assigns nothing. -/
theorem events_silent {use : Use} {socket : TcpSocket} (hsets : use.sets = none)
    (hsame : (use.exec.after socket).invocations = socket.invocations) :
    use.events socket = [] := by
  cases use with
  | setSendCallBack _ | setRecvCallBack _ | setDisConnectedCallBack _ => contradiction
  | read _ | write _ _ _ | disConnected =>
      rw [Use.events, hsame]
      exact List.drop_length

/-- A call that neither tests nor assigns is one on a closed socket, which
returns at once. -/
theorem exec_idle {use : Use} {socket : TcpSocket} (htests : use.tests socket = none)
    (hsets : use.sets = none) : use.exec socket = .ok () socket ∧ use.events socket = [] := by
  have hidle : use.exec socket = .ok () socket := by
    cases use with
    | setSendCallBack _ | setRecvCallBack _ | setDisConnectedCallBack _ | disConnected =>
        contradiction
    | read kernel =>
        have hclosed : ¬ socket.isConnected = true := by
          simpa only [Use.tests, ite_eq_right_iff, reduceCtorEq, imp_false] using htests
        rw [Use.exec, read, bind_assoc, Method.bind_ok (Method.get_apply _),
          if_pos (by simp [hclosed])]
        rfl
    | write env kernel chunk =>
        have hclosed : ¬ socket.isConnected = true := by
          simpa only [Use.tests, ite_eq_right_iff, reduceCtorEq, imp_false] using htests
        rw [Use.exec, write, bind_assoc, Method.bind_ok (Method.get_apply _),
          if_pos (by simp [hclosed])]
        rfl
  refine ⟨hidle, events_silent hsets ?_⟩
  rw [Method.after_ok hidle]

/-- An assignment replaces the pointer of its member, and nothing else. -/
theorem exec_sets {use : Use} {slot : Slot} (hsets : use.sets = some slot) (socket : TcpSocket) :
    use.tests socket = none ∧ ∃ pointer after, use.events socket = [.installed slot pointer] ∧
      use.exec socket = .ok () after ∧ ∀ other, after.slots.pointer other =
        if other = slot then pointer else socket.slots.pointer other := by
  cases use with
  | read _ | write _ _ _ | disConnected => contradiction
  | setSendCallBack sendCall | setRecvCallBack recvCall | setDisConnectedCallBack disConnCall =>
      cases hsets
      refine ⟨rfl, _, _, rfl, rfl, ?_⟩
      intro other
      cases other <;> rfl

/-- The invocations that a call adds are those of the member that it tests. -/
theorem events_tested {use : Use} {slot : Slot} {socket : TcpSocket}
    (htests : use.tests socket = some slot) (hcalls : Calls slot use.exec socket) :
    use.events socket = ((socket.slots.pointer slot).map (.invoked slot)).toList := by
  cases use with
  | setSendCallBack _ | setRecvCallBack _ | setDisConnectedCallBack _ => contradiction
  | read _ | write _ _ _ | disConnected =>
      rw [Use.events, hcalls.invocations]
      exact List.drop_left

theorem mem_events_tested {use : Use} {slot : Slot} {socket : TcpSocket}
    (htests : use.tests socket = some slot) (hcalls : Calls slot use.exec socket)
    {event : SlotEvent} (hmem : event ∈ use.events socket) :
    ∃ pointer, event = .invoked slot pointer := by
  rw [events_tested htests hcalls, Option.mem_toList, Option.map_eq_some_iff] at hmem
  obtain ⟨pointer, -, rfl⟩ := hmem
  exact ⟨pointer, rfl⟩

/-! ### The law of every invocation -/

/-- What comes after neither installs nor uses up the pointer. -/
theorem Justified.append {past added : List SlotEvent} {slot : Slot} {pointer : Nat}
    (hpast : Justified past slot pointer) (hinstalled : ∀ other, .installed slot other ∉ added)
    (hinvoked : slot.usedOnce = true → ∀ other, .invoked slot other ∉ added) :
    Justified (past ++ added) slot pointer := by
  obtain ⟨front, later, hsplit, hlast, hunused⟩ := hpast
  refine ⟨front, later ++ added, ?_, ?_, ?_⟩
  · rw [hsplit, List.append_assoc, List.cons_append]
  · intro other hmem
    exact (List.mem_append.mp hmem).elim (hlast other) (hinstalled other)
  · intro honce other hmem
    exact (List.mem_append.mp hmem).elim (hunused honce other) (hinvoked honce other)

theorem Justified.installed_mem {past : List SlotEvent} {slot : Slot} {pointer : Nat}
    (hpast : Justified past slot pointer) : .installed slot (some pointer) ∈ past := by
  obtain ⟨front, later, hsplit, -, -⟩ := hpast
  rw [hsplit]
  exact List.mem_append_right front List.mem_cons_self

theorem AllJustified.concat {past : List SlotEvent} (hpast : AllJustified past)
    {event : SlotEvent}
    (hevent : ∀ slot pointer, event = .invoked slot pointer → Justified past slot pointer) :
    AllJustified (past ++ [event]) := by
  intro front slot pointer later hsplit
  rcases List.eq_nil_or_concat later with rfl | ⟨before, last, rfl⟩
  · obtain ⟨rfl, hlast⟩ := List.append_inj' hsplit rfl
    cases hlast
    exact hevent slot pointer rfl
  · rw [List.concat_eq_append, ← List.cons_append, ← List.append_assoc] at hsplit
    exact hpast front slot pointer before (List.append_inj' hsplit rfl).1

/-- Where a run has got to: a pointer in an assigned member is justified, and an
unassigned one still holds what the memory had, which is not null. -/
structure Tracked (assigned : Slot → Prop) (past : List SlotEvent) (socket : TcpSocket) :
    Prop where
  justified : ∀ slot pointer, assigned slot → socket.slots.pointer slot = some pointer →
    Justified past slot pointer
  wild : ∀ slot, ¬ assigned slot → ∃ pointer, socket.slots.pointer slot = some pointer
  uninstalled : ∀ slot pointer, ¬ assigned slot → .installed slot pointer ∉ past

variable {assigned : Slot → Prop} {past : List SlotEvent} {socket after : TcpSocket}

theorem Tracked.install (htracked : Tracked assigned past socket) {slot : Slot}
    {pointer : Option Nat} (hafter : ∀ other, after.slots.pointer other =
      if other = slot then pointer else socket.slots.pointer other) :
    Tracked (fun other => assigned other ∨ some slot = some other)
      (past ++ [.installed slot pointer]) after where
  justified other value hassigned hvalue := by
    rw [hafter] at hvalue
    by_cases hother : other = slot
    · subst hother
      rw [if_pos rfl] at hvalue
      subst hvalue
      exact ⟨past, [], rfl, fun _ => List.not_mem_nil, fun _ _ => List.not_mem_nil⟩
    · rw [if_neg hother] at hvalue
      have hbefore : assigned other :=
        hassigned.resolve_right fun hsame => hother (Option.some_inj.mp hsame).symm
      refine (htracked.justified other value hbefore hvalue).append ?_ ?_
      · intro _ hmem
        cases List.mem_singleton.mp hmem
        exact hother rfl
      · intro _ _ hmem
        cases List.mem_singleton.mp hmem
  wild other hnew := by
    obtain ⟨hunassigned, hother⟩ := not_or.mp hnew
    rw [hafter, if_neg fun hsame => hother (congrArg some hsame.symm)]
    exact htracked.wild other hunassigned
  uninstalled other value hnew hmem := by
    obtain ⟨hunassigned, hother⟩ := not_or.mp hnew
    rcases List.mem_append.mp hmem with hmem | hmem
    · exact htracked.uninstalled other value hunassigned hmem
    · cases List.mem_singleton.mp hmem
      exact hother rfl

theorem Tracked.call (htracked : Tracked assigned past socket) {use : Use} {slot : Slot}
    (htests : use.tests socket = some slot) (hassigned : assigned slot)
    (hcalls : Calls slot use.exec socket) (hreturns : use.exec socket = .ok () after) :
    Tracked assigned (past ++ use.events socket) after := by
  have hinstalled : ∀ other value, .installed other value ∉ use.events socket := by
    intro other value hmem
    obtain ⟨_, heq⟩ := mem_events_tested htests hcalls hmem
    cases heq
  have hpointer : ∀ other, after.slots.pointer other =
      if other = slot ∧ slot.usedOnce = true then none else socket.slots.pointer other := by
    intro other
    rw [hcalls.slots () after hreturns, Slots.pointer_clear]
  exact {
    justified := by
      intro other value hother hvalue
      rw [hpointer] at hvalue
      obtain ⟨hkept, hvalue⟩ := Option.ite_none_left_eq_some.mp hvalue
      apply (htracked.justified other value hother hvalue).append (hinstalled other)
      intro honce _ hmem
      obtain ⟨_, heq⟩ := mem_events_tested htests hcalls hmem
      cases heq
      exact hkept ⟨rfl, honce⟩
    wild := by
      intro other hunassigned
      have hother : other ≠ slot := by
        rintro rfl
        exact hunassigned hassigned
      rw [hpointer, if_neg fun hsame => hother hsame.1]
      exact htracked.wild other hunassigned
    uninstalled := by
      intro other value hunassigned hmem
      rcases List.mem_append.mp hmem with hmem | hmem
      · exact htracked.uninstalled other value hunassigned hmem
      · exact hinstalled other value hmem }

/-- The invocation of an assigned member is justified. -/
theorem Tracked.allJustified (htracked : Tracked assigned past socket)
    (hpast : AllJustified past) {use : Use} {slot : Slot} (htests : use.tests socket = some slot)
    (hassigned : assigned slot) (hcalls : Calls slot use.exec socket) :
    AllJustified (past ++ use.events socket) := by
  rw [events_tested htests hcalls]
  cases hpointer : socket.slots.pointer slot with
  | none => exact (List.append_nil past).symm ▸ hpast
  | some pointer =>
      apply hpast.concat
      rintro _ _ ⟨⟩
      exact htracked.justified slot pointer hassigned hpointer

/-- The invocation of an unassigned member is not. -/
theorem Tracked.not_allJustified (htracked : Tracked assigned past socket) {use : Use}
    {slot : Slot} (htests : use.tests socket = some slot) (hunassigned : ¬ assigned slot)
    (hcalls : Calls slot use.exec socket) (later : List SlotEvent) :
    ¬ AllJustified (past ++ (use.events socket ++ later)) := by
  obtain ⟨pointer, hpointer⟩ := htracked.wild slot hunassigned
  intro hall
  rw [events_tested htests hcalls, hpointer] at hall
  have hpast := hall past slot pointer later rfl
  exact htracked.uninstalled slot _ hunassigned hpast.installed_mem

/-! ### Every run -/

/-- A call that assigns nothing leaves the assigned members. -/
theorem assigned_unset {use : Use} (hsets : use.sets = none) :
    (fun slot => assigned slot ∨ use.sets = some slot) = assigned := by
  funext slot
  rw [hsets, eq_false (nofun : (none : Option Slot) ≠ some slot), or_false]

/-- By induction on the run, from whatever happened before it. -/
theorem allJustified_history_iff (run : List Use) (hpast : AllJustified past)
    (htracked : Tracked assigned past socket) :
    (runUses run).Returns (fun _ _ => AllJustified (past ++ history run socket)) socket ↔
      TestsAssigned assigned run socket := by
  induction run generalizing assigned past socket with
  | nil =>
      rw [history, List.append_nil]
      exact iff_of_true hpast trivial
  | cons use rest ih =>
      rw [runUses, Method.returns_bind, TestsAssigned]
      cases hexec : use.exec socket with
      | error fault stopped =>
          exact iff_of_false (Method.not_returns hexec)
            fun hboth => Method.not_returns hexec hboth.2
      | ok _ after =>
          rw [Method.returns_ok hexec, Method.returns_ok hexec, history, hexec]
          cases hsets : use.sets with
          | some slot =>
              obtain ⟨htests, pointer, installed, hevents, hinstalls, hafter⟩ :=
                exec_sets hsets socket
              cases hinstalls.symm.trans hexec
              have hinstalled : AllJustified (past ++ [.installed slot pointer]) :=
                hpast.concat fun _ _ heq => nomatch heq
              rw [htests, and_iff_right (by simp), hevents, ← List.append_assoc]
              exact ih hinstalled (htracked.install hafter)
          | none =>
              rw [← hsets, assigned_unset hsets]
              cases htests : use.tests socket with
              | none =>
                  obtain ⟨hidle, hevents⟩ := exec_idle htests hsets
                  cases hidle.symm.trans hexec
                  rw [hevents, and_iff_right nofun]
                  exact ih hpast htracked
              | some slot =>
                  have hcalls := calls_exec htests hexec
                  by_cases hslot : assigned slot
                  · have hall := htracked.allJustified hpast htests hslot hcalls
                    rw [and_iff_right (by simpa using hslot), ← List.append_assoc]
                    exact ih hall (htracked.call htests hslot hcalls hexec)
                  · refine iff_of_false ?_ fun hboth => hslot (hboth.1 slot rfl)
                    intro hruns
                    obtain ⟨_, last, -, hall⟩ := hruns.exists
                    exact htracked.not_allJustified htests hslot hcalls _ hall

/-- On a socket from its constructor, whatever the memory holds, the run returns,
every callback invoked is the one last installed for its member, and one of a
sending or receiving member is invoked once for its installation, if and only if
every call of the run returns and none tests a member that was not null in the
memory before it is assigned. -/
theorem allJustified_iff (fd : Fd) (memory : Slots) (run : List Use) :
    (runUses run).Returns (fun _ _ => AllJustified (history run (create fd memory)))
        (create fd memory) ↔
      TestsAssigned (fun slot => memory.pointer slot = none) run (create fd memory) := by
  have htracked : Tracked (fun slot => memory.pointer slot = none) [] (create fd memory) := by
    refine ⟨?_, ?_, fun _ _ _ => List.not_mem_nil⟩
    · intro slot pointer hnull hpointer
      exact nomatch hnull.symm.trans hpointer
    · intro slot hslot
      exact Option.ne_none_iff_exists'.mp hslot
  have hpast : AllJustified [] := by
    intro past slot pointer later hsplit
    exact absurd hsplit.symm (List.append_ne_nil_of_right_ne_nil past (List.cons_ne_nil _ _))
  exact allJustified_history_iff run hpast htracked

/-- A socket in memory whose member for the end of the connection happens not to
be zero. -/
def stray : TcpSocket := create 5 ⟨none, none, some ⟨7⟩⟩

/-- `disConnected` calls it. -/
theorem stray_unjustified : ∃ last, runUses [.disConnected] stray = .ok () last ∧
    ¬ AllJustified (history [.disConnected] stray) := by
  refine ⟨_, rfl, ?_⟩
  intro hall
  have hevents : Use.disConnected.events stray = [.invoked .disConn 7] :=
    events_tested rfl (calls_disConnected stray)
  obtain ⟨later, hhistory⟩ :
      ∃ later, history [.disConnected] stray = .invoked .disConn 7 :: later :=
    ⟨_, by rw [history, hevents, List.cons_append]⟩
  exact nomatch (hall [] .disConn 7 later hhistory).installed_mem

end TcpSocket

end ZtHttp
