import ZtHttp.Event.Question
import ZtHttp.Event.Removal

/-!
# One round of the reactor

`handle_events` walks over `rdy` and calls the handler that the table has for
each descriptor. The handler removes and deletes itself while the walk is under
way, so the table shrinks below it; what keeps the walk right is that a handler
is stored under its own descriptor and changes no other entry.
-/

namespace ZtHttp

open Imperative

namespace Process

variable {ρ : Type}

section

variable [DecidableEq ρ]

/-- One turn of the loop of `EpollMultiplexer::handle_events()`: the handler that
was called, and the mask that the call found in it. A missing key is logged, and
the end of the table is dereferenced all the same. -/
def dispatchOne (registerFlag : Int) (granted : HandlerId → Bool) (outside : HandlerId → Outside)
    (r : ρ) (ardy : Fd × UInt32) : Method (Process ρ) (HandlerId × UInt32) := do
  match (← get).entry r ardy.1 with
  | none => Method.ofExcept (.error .pastEnd)
  | some (_, none) => Method.ofExcept (.error .nullPointer)
  | some (_, some h) =>
      let _ ← onHandler h (EpollEventHandler.setRdyEvents ardy.2)
      let mask := (← deref h).rdyEvents
      let _ ← handleEvent registerFlag (granted h) (outside h) h
      return (h, mask)

def dispatchAll (registerFlag : Int) (granted : HandlerId → Bool) (outside : HandlerId → Outside)
    (r : ρ) : List (Fd × UInt32) → Method (Process ρ) (List (HandlerId × UInt32))
  | [] => return []
  | ardy :: rest => do
      let call ← dispatchOne registerFlag granted outside r ardy
      let calls ← dispatchAll registerFlag granted outside r rest
      return call :: calls

/-- `EpollMultiplexer::handle_events()` from the test of `quit_wait_flag` on,
which found 0. The function returns 0; the result here is the record of its
calls. `granted` and `outside` are what each handler finds outside. -/
def handleEvents (registerFlag : Int) (granted : HandlerId → Bool) (outside : HandlerId → Outside)
    (r : ρ) : Method (Process ρ) (List (HandlerId × UInt32)) := do
  let calls ← dispatchAll registerFlag granted outside r ((← get).rdy r).toList
  modify (clearReady r)
  return calls

end

/-- The reactor's table has the live handler under the descriptor, which is the
handler's own as `register_handler` sees to. -/
structure Hosts (process : Process ρ) (r : ρ) (fd : Fd) (h : HandlerId)
    (handler : EpollEventHandler ρ) : Prop where
  entry : ∃ events, process.entry r fd = some (events, some h)
  live : process.handler? h = some handler
  fd : handler.fd = fd
  reactor : handler.reactor = r

/-- The handler on the heap once `setRdyEvents` has stored the mask. -/
def armed (mask : UInt32) (handler : EpollEventHandler ρ) : EpollEventHandler ρ :=
  { handler with rdyEvents := mask }

/-- The call went to the handler stored under the ready descriptor, with the
descriptor's own mask. -/
def CallsFor (process : Process ρ) (r : ρ) (event : Fd × UInt32) (call : HandlerId × UInt32) :
    Prop :=
  call.2 = event.2 ∧ ∃ handler, process.Hosts r event.1 call.1 handler

variable {process last : Process ρ} {r : ρ} {fd : Fd} {h : HandlerId}
  {handler : EpollEventHandler ρ} {granted : HandlerId → Bool} {outside : HandlerId → Outside}

/-- A handler is stored at one place only. -/
theorem Hosts.fd_eq {other : Fd} {found : EpollEventHandler ρ}
    (hhosts : process.Hosts r fd h handler) (hother : process.Hosts r other h found) :
    fd = other := by
  cases hhosts.live.symm.trans hother.live
  exact hhosts.fd.symm.trans hother.fd

theorem Hosts.unique {other : HandlerId} {found : EpollEventHandler ρ}
    (hhosts : process.Hosts r fd h handler) (hother : process.Hosts r fd other found) :
    h = other ∧ handler = found := by
  obtain ⟨events, hentry⟩ := hhosts.entry
  obtain ⟨events', hentry'⟩ := hother.entry
  cases hentry.symm.trans hentry'
  cases hhosts.live.symm.trans hother.live
  exact ⟨rfl, rfl⟩

/-! ### One turn -/

/-- What a turn leaves: the handler is gone, its key maps to null, and everything
else of the tables and of the other handlers is as it was. -/
structure TurnLeaves (process last : Process ρ) (r : ρ) (fd : Fd) (h : HandlerId) : Prop where
  entry : ∀ key, last.entry r key = if key = fd then some (0, none) else process.entry r key
  rdy : last.rdy = process.rdy
  dead : last.handler? h = none
  others : ∀ other, other ≠ h → last.handler? other = process.handler? other

/-- The turn changes nothing that another descriptor depends on. -/
theorem TurnLeaves.hosts_iff (hturn : TurnLeaves process last r fd h)
    (hhosts : process.Hosts r fd h handler) {other : Fd} {found : HandlerId}
    {handler' : EpollEventHandler ρ} (hne : other ≠ fd) :
    last.Hosts r other found handler' ↔ process.Hosts r other found handler' := by
  constructor
  · rintro ⟨hentry, hlive, hfd, hreactor⟩
    have hfound : found ≠ h := by
      rintro rfl
      rw [hturn.dead] at hlive
      contradiction
    rw [hturn.entry, if_neg hne] at hentry
    rw [hturn.others found hfound] at hlive
    exact ⟨hentry, hlive, hfd, hreactor⟩
  · intro hbefore
    have hfound : found ≠ h := by
      rintro rfl
      exact hne (hbefore.fd_eq hhosts)
    refine ⟨?_, ?_, hbefore.fd, hbefore.reactor⟩
    · rw [hturn.entry, if_neg hne]
      exact hbefore.entry
    · rw [hturn.others found hfound]
      exact hbefore.live

section

variable [DecidableEq ρ] {mask : UInt32}

/-- A turn arms the handler and hands over to its `handle_event`. -/
theorem dispatchOne_eq (hhosts : process.Hosts r fd h handler) (mask : UInt32) :
    dispatchOne 0 granted outside r (fd, mask) process =
      (handleEvent 0 (granted h) (outside h) h >>= fun _ => return (h, mask))
        (process.setHandler h (armed mask handler)) := by
  obtain ⟨events, hentry⟩ := hhosts.entry
  have harm : EpollEventHandler.setRdyEvents mask handler = .ok true (armed mask handler) := rfl
  have hlive := handler?_setHandler hhosts.live (armed mask handler)
  rw [dispatchOne, Method.bind_ok (Method.get_apply _)]
  simp only [hentry]
  rw [Method.bind_ok (onHandler_ok hhosts.live harm), Method.bind_ok (deref_ok hlive)]
  rfl

theorem dispatchOne_ok (hhosts : process.Hosts r fd h handler)
    (hhandles : (armed mask handler).Handles (outside h)) :
    ∃ last, dispatchOne 0 granted outside r (fd, mask) process = .ok (h, mask) last ∧
      process.TurnLeaves last r fd h := by
  obtain ⟨after, hio⟩ := hhandles
  have hlive := handler?_setHandler hhosts.live (armed mask handler)
  have hfd : (armed mask handler).fd = fd := hhosts.fd
  have hreactor : (armed mask handler).reactor = r := hhosts.reactor
  have hfound : (process.setHandler h (armed mask handler)).entry (armed mask handler).reactor
      (armed mask handler).fd ≠ none := by
    obtain ⟨events, hentry⟩ := hhosts.entry
    rw [hfd, hreactor]
    intro hnone
    have hsame := hentry.symm.trans hnone
    contradiction
  obtain ⟨served, hserved, hset, hcall⟩ := handleEvent_ok hlive hfound hio (granted h)
  rw [hfd, hreactor] at hcall
  have hheap : served.heap = process.heap.set h after := by
    rw [hset, heap_setHandler, List.set_set]
  refine ⟨_, (dispatchOne_eq hhosts mask).trans (Method.bind_ok hcall), ?_⟩
  exact {
    entry := by
      intro key
      rw [entry_remove, hserved.entry]
      simp only [true_and]
      rfl
    rdy := hserved.rdy
    dead := by
      rw [handler?, if_pos]
      rw [deleted_remove]
      exact List.mem_cons_self
    others := by
      intro other hother
      simp only [handler?, deleted_remove, List.mem_cons, hother, false_or, heap_remove, hheap,
        hserved.deleted, List.getElem?_set_ne (Ne.symm hother)]
      rfl }

/-- A turn that returns has called a handler that is defined on the mask. -/
theorem dispatchOne_eq_ok (hhosts : process.Hosts r fd h handler) {call : HandlerId × UInt32}
    (hone : dispatchOne 0 granted outside r (fd, mask) process = .ok call last) :
    (armed mask handler).Handles (outside h) ∧ process.TurnLeaves last r fd h := by
  have hcalled := hone
  rw [dispatchOne_eq hhosts] at hcalled
  obtain ⟨ret, middle, hcall, -⟩ := Method.bind_eq_ok hcalled
  have hhandles := handles_of_handleEvent (handler?_setHandler hhosts.live _) hcall
  obtain ⟨left, hleft, hturn⟩ := dispatchOne_ok hhosts hhandles
  cases hleft.symm.trans hone
  exact ⟨hhandles, hturn⟩

end

/-- A sending member that holds neither null nor a callback that returns stops the
first write. -/
theorem not_handles_of_stops {mask : UInt32} {outside : Outside} {memory : Slots}
    (htcp : handler.tcp = some (TcpSocket.create fd memory)) (hstops : ¬ memory.SendCallReturns)
    (hmask : Unbroken mask) (hin : has mask epollIn = false) (hout : has mask epollOut = true) :
    ¬ (armed mask handler).Handles outside := by
  rintro ⟨after, hio⟩
  obtain ⟨fault, stopped, hfault, -⟩ :=
    EpollEventHandler.handleIo_stops (show (armed mask handler).tcp = _ from htcp) hstops outside
      hmask.1 hmask.2 hin hout
  rw [hio] at hfault
  contradiction

/-! ### The walk -/

variable {mask : UInt32} {events : List (Fd × UInt32)}

/-- What the walk over the events leaves: it called the handler of each, in
order and none twice, and the keys of other descriptors are as they were. -/
structure WalkLeaves (process last : Process ρ) (r : ρ) (events : List (Fd × UInt32))
    (called : List (HandlerId × UInt32)) : Prop where
  calls : List.Forall₂ (process.CallsFor r) events called
  once : (called.map Prod.fst).Nodup
  frame : ∀ key, key ∉ events.map Prod.fst → last.entry r key = process.entry r key

/-- A call that a later walk makes is one that the walk from here makes: its
handler lived on, so it is not the one that this turn deleted. -/
theorem TurnLeaves.callsFor (hturn : process.TurnLeaves last r fd h)
    (hhosts : process.Hosts r fd h handler) {event : Fd × UInt32} {call : HandlerId × UInt32}
    (hne : event.1 ≠ fd) (hcall : last.CallsFor r event call) :
    call.1 ≠ h ∧ process.CallsFor r event call := by
  obtain ⟨hmask, found, hfound⟩ := hcall
  refine ⟨?_, hmask, found, (hturn.hosts_iff hhosts hne).mp hfound⟩
  intro hsame
  have hdead := hfound.live
  rw [hsame, hturn.dead] at hdead
  contradiction

/-- So the handlers of the events to come are hosted as before. -/
theorem TurnLeaves.hosts_rest (hturn : process.TurnLeaves last r fd h)
    (hhosts : process.Hosts r fd h handler) (hfd : fd ∉ events.map Prod.fst) :
    ∀ event ∈ events, ∀ other found,
      last.Hosts r event.1 other found ↔ process.Hosts r event.1 other found := by
  intro event hevent other found
  refine hturn.hosts_iff hhosts fun hsame => ?_
  exact hfd (List.mem_map.mpr ⟨event, hevent, hsame⟩)

theorem WalkLeaves.cons {middle : Process ρ}
    {called : List (HandlerId × UInt32)} (hhosts : process.Hosts r fd h handler)
    (hturn : process.TurnLeaves middle r fd h) (hfd : fd ∉ events.map Prod.fst)
    (hwalk : middle.WalkLeaves last r events called) :
    process.WalkLeaves last r ((fd, mask) :: events) ((h, mask) :: called) := by
  have hlater : List.Forall₂ (fun event call => call.1 ≠ h ∧ process.CallsFor r event call)
      events called := by
    have hother : ∀ event ∈ events, event.1 ≠ fd := by
      rintro event hevent rfl
      exact hfd (List.mem_map_of_mem hevent)
    refine ((List.forall₂_and_left events called).mpr ⟨hother, hwalk.calls⟩).imp ?_
    rintro event call ⟨hne, hcall⟩
    exact hturn.callsFor hhosts hne hcall
  have hnew : ∀ call ∈ called, call.1 ≠ h :=
    ((List.forall₂_and_left called events).mp (List.Forall₂.flip hlater)).1
  exact {
    calls := .cons ⟨rfl, handler, hhosts⟩ (hlater.imp fun _ _ hboth => hboth.2)
    once := by
      rw [List.map_cons, List.nodup_cons]
      refine ⟨?_, hwalk.once⟩
      intro hmem
      obtain ⟨call, hcall, hsame⟩ := List.mem_map.mp hmem
      exact hnew call hcall hsame
    frame := by
      intro key hkey
      rw [List.map_cons, List.mem_cons, not_or] at hkey
      rw [hwalk.frame key hkey.2, hturn.entry, if_neg hkey.1] }

section

variable [DecidableEq ρ]

/-- If every handler is defined on its mask, the walk returns. The induction is on
the events: a turn leaves the later handlers where they were. -/
theorem dispatchAll_ok (process : Process ρ) (hdistinct : (events.map Prod.fst).Nodup)
    (hhosts : ∀ event ∈ events, ∃ h handler, process.Hosts r event.1 h handler)
    (hhandles : ∀ event ∈ events, ∀ h handler, process.Hosts r event.1 h handler →
      (armed event.2 handler).Handles (outside h)) :
    ∃ called last, dispatchAll 0 granted outside r events process = .ok called last ∧
      last.rdy = process.rdy ∧ process.WalkLeaves last r events called := by
  induction events generalizing process with
  | nil => exact ⟨[], process, rfl, rfl, .nil, List.nodup_nil, fun _ _ => rfl⟩
  | cons event rest ih =>
      obtain ⟨fd, mask⟩ := event
      rw [List.map_cons, List.nodup_cons] at hdistinct
      obtain ⟨h, handler, hfirst⟩ := hhosts _ List.mem_cons_self
      have hhandle := hhandles _ List.mem_cons_self h handler hfirst
      obtain ⟨middle, hone, hturn⟩ : ∃ middle,
          dispatchOne 0 granted outside r (fd, mask) process = .ok (h, mask) middle ∧
            process.TurnLeaves middle r fd h := dispatchOne_ok hfirst hhandle
      have hkept := hturn.hosts_rest hfirst hdistinct.1
      obtain ⟨called, last, hall, hrdy, hwalk⟩ := ih middle hdistinct.2 (by
          intro event hevent
          obtain ⟨other, found, hbefore⟩ := hhosts event (List.mem_cons_of_mem _ hevent)
          exact ⟨other, found, (hkept event hevent other found).mpr hbefore⟩) (by
          intro event hevent other found hmiddle
          exact hhandles event (List.mem_cons_of_mem _ hevent) other found
            ((hkept event hevent other found).mp hmiddle))
      refine ⟨(h, mask) :: called, last, ?_, hrdy.trans hturn.rdy,
        hwalk.cons hfirst hturn hdistinct.1⟩
      exact (Method.bind_ok hone).trans (Method.bind_ok hall)

/-- A walk that returns has called handlers that are all defined on their masks. -/
theorem handles_of_dispatchAll {called : List (HandlerId × UInt32)}
    (hdistinct : (events.map Prod.fst).Nodup)
    (hhosts : ∀ event ∈ events, ∃ h handler, process.Hosts r event.1 h handler)
    (hall : dispatchAll 0 granted outside r events process = .ok called last) :
    ∀ event ∈ events, ∀ h handler, process.Hosts r event.1 h handler →
      (armed event.2 handler).Handles (outside h) := by
  induction events generalizing process called last with
  | nil => nofun
  | cons event rest ih =>
      obtain ⟨fd, mask⟩ := event
      rw [List.map_cons, List.nodup_cons] at hdistinct
      obtain ⟨call, middle, hone, hrest⟩ := Method.bind_eq_ok hall
      obtain ⟨later, last', hlater, -⟩ := Method.bind_eq_ok hrest
      obtain ⟨h, handler, hfirst⟩ := hhosts _ List.mem_cons_self
      obtain ⟨hhandle, hturn⟩ := dispatchOne_eq_ok hfirst hone
      have hkept := hturn.hosts_rest hfirst hdistinct.1
      intro event hevent other found hbefore
      rcases List.mem_cons.mp hevent with rfl | hmem
      · obtain ⟨rfl, rfl⟩ := hfirst.unique hbefore
        exact hhandle
      · refine ih hdistinct.2 ?_ hlater event hmem other found
          ((hkept event hmem other found).mpr hbefore)
        intro next hnext
        obtain ⟨h', handler', hhosted⟩ := hhosts next (List.mem_cons_of_mem _ hnext)
        exact ⟨h', handler', (hkept next hnext h' handler').mpr hhosted⟩

/-! ### The round -/

/-- `handle_events` has called the handler of every ready descriptor once, with
the descriptor's own mask and in ascending order, and no other. It leaves no
ready descriptor behind and touches no entry of another descriptor. -/
structure ExactlyOnce (process last : Process ρ) (r : ρ) (ready : List (Fd × UInt32))
    (called : List (HandlerId × UInt32)) : Prop where
  ascending : ∃ events, events.Perm ready ∧ events.Pairwise (fun event later => event.1 < later.1) ∧
    List.Forall₂ (process.CallsFor r) events called
  once : (called.map Prod.fst).Nodup
  cleared : last.rdy r = ∅
  frame : ∀ fd, fd ∉ ready.map Prod.fst → last.entry r fd = process.entry r fd

theorem ordered_toList {α : Type} (map : FdMap α) :
    map.toList.Pairwise fun event later => event.1 < later.1 :=
  Std.ExtTreeMap.ordered_keys_toList.imp Nat.compare_eq_lt.mp

section

variable {ready : List (Fd × UInt32)} (hempty : process.rdy r = ∅)
  (hdistinct : (ready.map Prod.fst).Nodup)
  (hhosts : ∀ event ∈ ready, ∃ h handler, (process.setReady r ready).Hosts r event.1 h handler)

include hempty hdistinct

/-- What `select` stores into an empty map is what the walk will see. -/
theorem rdy_setReady_perm : ((process.setReady r ready).rdy r).toList.Perm ready := by
  simp only [setReady, if_true, hempty]
  exact toList_foldl_insert_perm hdistinct

include hhosts

/-- A round that returns has called handlers that are all defined on their masks. -/
theorem handles_of_handleEvents {called : List (HandlerId × UInt32)}
    (hround : handleEvents 0 granted outside r (process.setReady r ready) = .ok called last) :
    ∀ event ∈ ready, ∀ h handler, (process.setReady r ready).Hosts r event.1 h handler →
      (armed event.2 handler).Handles (outside h) := by
  have hperm := rdy_setReady_perm hempty hdistinct
  rw [handleEvents, Method.bind_ok (Method.get_apply _)] at hround
  obtain ⟨called', middle, hall, -⟩ := Method.bind_eq_ok hround
  have hwalk := handles_of_dispatchAll ((hperm.map Prod.fst).nodup_iff.mpr hdistinct)
    (fun event hevent => hhosts event (hperm.mem_iff.mp hevent)) hall
  intro event hevent
  exact hwalk event (hperm.mem_iff.mpr hevent)

/-- When `select` has stored ready descriptors with hosted handlers, the round
dispatches each exactly once if and only if what their masks ask for is defined.
The latter means, for a handler whose socket is sound, that its mask does not
read when there is nothing to hand over. A handler that was not served yet is
undefined on a mask that writes if its sending member is neither null nor a
callback that returns what can be appended. -/
theorem handleEvents_exactlyOnce_iff (granted : HandlerId → Bool)
    (outside : HandlerId → Outside) :
    ((∃ called last,
        handleEvents 0 granted outside r (process.setReady r ready) = .ok called last ∧
          (process.setReady r ready).ExactlyOnce last r ready called) ↔
      ∀ event ∈ ready, ∀ h handler, (process.setReady r ready).Hosts r event.1 h handler →
        (armed event.2 handler).Handles (outside h)) ∧
    (∀ h (handler : EpollEventHandler ρ) mask socket sendCallback recvCallback,
      handler.tcp = some socket → socket.Sound sendCallback recvCallback →
      (EpollEventHandler.stream (outside h) sendCallback recvCallback (armed mask handler)
        socket).length < 2 ^ 31 →
      ((armed mask handler).Handles (outside h) ↔ (Unbroken mask →
        ¬ EpollEventHandler.ReadsNothing (outside h) recvCallback (armed mask handler)
          socket))) ∧
    ∀ h (handler : EpollEventHandler ρ) mask fd memory,
      handler.tcp = some (TcpSocket.create fd memory) → ¬ memory.SendCallReturns →
      Unbroken mask → has mask epollIn = false → has mask epollOut = true →
      ¬ (armed mask handler).Handles (outside h) := by
  refine ⟨?_, fun h handler mask socket _ _ htcp => EpollEventHandler.handles_iff htcp,
    fun h handler mask fd memory htcp hstops hmask hin hout =>
      not_handles_of_stops htcp hstops hmask hin hout⟩
  constructor
  · rintro ⟨called, last, hround, -⟩
    exact handles_of_handleEvents hempty hdistinct hhosts hround
  · intro hhandles
    have hperm := rdy_setReady_perm hempty hdistinct
    obtain ⟨called, middle, hall, hrdy, hwalk⟩ : ∃ called middle,
        dispatchAll 0 granted outside r ((process.setReady r ready).rdy r).toList
          (process.setReady r ready) = .ok called middle ∧
        middle.rdy = (process.setReady r ready).rdy ∧
        (process.setReady r ready).WalkLeaves middle r
          ((process.setReady r ready).rdy r).toList called :=
      dispatchAll_ok (process.setReady r ready) ((hperm.map Prod.fst).nodup_iff.mpr hdistinct)
        (fun event hevent => hhosts event (hperm.mem_iff.mp hevent))
        (fun event hevent => hhandles event (hperm.mem_iff.mp hevent))
    refine ⟨called, middle.clearReady r, ?_, ?_⟩
    · rw [handleEvents, Method.bind_ok (Method.get_apply _), Method.bind_ok hall]
      rfl
    · refine ⟨⟨_, hperm, ordered_toList _, hwalk.calls⟩, hwalk.once, ?_, ?_⟩
      · simp only [clearReady, if_true]
      · intro fd hfd
        refine hwalk.frame fd fun hmem => hfd ?_
        exact (hperm.map Prod.fst).mem_iff.mp hmem

end

end

/-- A connection whose callback members hold the pointers, registered with its
reactor. -/
def oneConnection (slots : Slots) : Process Unit :=
  (initial.newHandler (epollOut ||| epollRdHup) 5 () slots 0).register true () 0
    (.accepted 5 () slots 0)

theorem oneConnection_hosts (slots : Slots) (mask : UInt32) :
    ((oneConnection slots).setReady () [(5, mask)]).Hosts () 5 0 (.accepted 5 () slots 0) := by
  have hentry : (oneConnection slots).entry () 5 = some (epollOut ||| epollRdHup, some 0) := by
    rw [oneConnection, entry_register, if_pos ⟨rfl, rfl⟩]
    rfl
  exact ⟨⟨_, hentry⟩, rfl, rfl, rfl⟩

theorem oneConnection_reported (slots : Slots) (mask : UInt32) :
    ∀ event ∈ [((5 : Fd), mask)], ∃ h handler,
      ((oneConnection slots).setReady () [(5, mask)]).Hosts () event.1 h handler := by
  intro event hevent
  cases List.mem_singleton.mp hevent
  exact ⟨0, _, oneConnection_hosts slots mask⟩

theorem oneConnection_distinct (mask : UInt32) : ([((5 : Fd), mask)].map Prod.fst).Nodup :=
  List.nodup_singleton 5

/-- The connection is ready to be written to. -/
theorem oneConnection_dispatched : ∃ called last,
    handleEvents 0 (fun _ => true) (fun _ => EpollEventHandler.sending 2000) ()
        ((oneConnection ⟨none, none, none⟩).setReady () [(5, epollOut)]) = .ok called last ∧
      ((oneConnection ⟨none, none, none⟩).setReady () [(5, epollOut)]).ExactlyOnce last ()
        [(5, epollOut)] called := by
  refine (handleEvents_exactlyOnce_iff rfl (oneConnection_distinct epollOut)
    (oneConnection_reported ⟨none, none, none⟩ epollOut) _ _).1.mpr ?_
  intro event hevent h handler hhosts
  cases List.mem_singleton.mp hevent
  obtain ⟨rfl, rfl⟩ := hhosts.unique (oneConnection_hosts ⟨none, none, none⟩ epollOut)
  refine (EpollEventHandler.handles_iff rfl EpollEventHandler.fresh_sound ?_).mpr ?_
  · exact EpollEventHandler.stream_writable_length 2000 ▸ by decide
  · exact fun _ hreads => absurd hreads.1 (by decide)

/-- A callback that puts a byte into the buffer which it is handed and returns that
buffer. -/
def filling : SendCall where
  tag := 7
  run := do
    let _ ← IOBuffer.appendBytes [104]
    return .self

/-- The buffer is appended to itself, and the walk over it does not end. -/
theorem filling_stops : ¬ Slots.SendCallReturns ⟨some filling, none, none⟩ := by
  intro hreturns
  obtain ⟨result, buffer, hboth⟩ := hreturns filling rfl
  have hendless : (filling.run >>= IOBuffer.appendChunk) IOBuffer.empty =
      .error .diverges ⟨[[104]], 1⟩ := rfl
  rw [hendless] at hboth
  contradiction

/-- So `handle_event` does not return to the round. -/
theorem oneConnection_stopped : ¬ ∃ called last,
    handleEvents 0 (fun _ => true) (fun _ => EpollEventHandler.sending 2000) ()
        ((oneConnection ⟨some filling, none, none⟩).setReady () [(5, epollOut)]) =
      .ok called last ∧
      ((oneConnection ⟨some filling, none, none⟩).setReady () [(5, epollOut)]).ExactlyOnce last ()
        [(5, epollOut)] called := by
  rintro ⟨called, last, hround, -⟩
  have hhandles := handles_of_handleEvents rfl (oneConnection_distinct epollOut)
    (oneConnection_reported ⟨some filling, none, none⟩ epollOut) hround _ List.mem_cons_self 0 _
    (oneConnection_hosts ⟨some filling, none, none⟩ epollOut)
  exact not_handles_of_stops rfl filling_stops (by decide) (by decide) (by decide) hhandles

end Process

end ZtHttp
