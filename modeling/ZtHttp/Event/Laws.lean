import Mathlib.Data.List.Nodup
import ZtHttp.Event.Multiplexer

/-!
# What each multiplexer method does

Every method is its mutex sections in sequence, and each section changes one of
the table, the interest sets, the heap and the list of deleted handlers. A
method's equation says what it returns and the state it leaves.
-/

namespace ZtHttp.Process

open Imperative

variable {ρ : Type}

/-! ### The ready events -/

theorem nodup_keys {α : Type} (map : FdMap α) : (map.toList.map Prod.fst).Nodup := by
  refine List.pairwise_map.mpr (Std.ExtTreeMap.distinct_keys_toList.imp ?_)
  intro event other hne hsame
  exact hne (Std.LawfulEqCmp.compare_eq_iff_eq.mpr hsame)

/-- What `select` adds is what it was told. -/
theorem mem_foldl_insert {ready : List (Fd × UInt32)} {rdy : FdMap UInt32} {event : Fd × UInt32}
    (hevent : event ∈
      (ready.foldl (fun rdy event => rdy.insert event.1 event.2) rdy).toList) :
    event ∈ ready ∨ event ∈ rdy.toList := by
  induction ready generalizing rdy with
  | nil => exact .inr hevent
  | cons head rest ih =>
      rcases ih hevent with hrest | hinserted
      · exact .inl (List.mem_cons_of_mem _ hrest)
      · obtain ⟨fd, mask⟩ := event
        rw [Std.ExtTreeMap.mem_toList_iff_getElem?_eq_some, Std.ExtTreeMap.getElem?_insert]
          at hinserted
        split at hinserted
        · next hsame =>
            cases hinserted
            rw [← Std.LawfulEqCmp.compare_eq_iff_eq.mp hsame]
            exact .inl List.mem_cons_self
        · exact .inr (Std.ExtTreeMap.mem_toList_iff_getElem?_eq_some.mpr hinserted)

theorem getElem?_foldl_insert {ready : List (Fd × UInt32)} {rdy : FdMap UInt32} {fd : Fd}
    (hfd : fd ∉ ready.map Prod.fst) :
    (ready.foldl (fun rdy event => rdy.insert event.1 event.2) rdy)[fd]? = rdy[fd]? := by
  induction ready generalizing rdy with
  | nil => rfl
  | cons head rest ih =>
      rw [List.map_cons, List.mem_cons, not_or] at hfd
      rw [List.foldl_cons, ih hfd.2, Std.ExtTreeMap.getElem?_insert, if_neg]
      rw [Std.LawfulEqCmp.compare_eq_iff_eq]
      exact Ne.symm hfd.1

/-- When no descriptor is reported twice, an empty map takes all of it. -/
theorem toList_foldl_insert_perm {ready : List (Fd × UInt32)}
    (hdistinct : (ready.map Prod.fst).Nodup) :
    (ready.foldl (fun rdy event => rdy.insert event.1 event.2)
      (∅ : FdMap UInt32)).toList.Perm ready := by
  have hadded : ∀ (rdy : FdMap UInt32) event, event ∈ ready → event ∈
      (ready.foldl (fun rdy event => rdy.insert event.1 event.2) rdy).toList := by
    induction ready with
    | nil => nofun
    | cons head rest ih =>
        rw [List.map_cons, List.nodup_cons] at hdistinct
        intro rdy event hevent
        rcases List.mem_cons.mp hevent with rfl | hrest
        · rw [Std.ExtTreeMap.mem_toList_iff_getElem?_eq_some, List.foldl_cons,
            getElem?_foldl_insert hdistinct.1, Std.ExtTreeMap.getElem?_insert_self]
        · exact ih hdistinct.2 _ event hrest
  refine (List.perm_ext_iff_of_nodup ((nodup_keys _).of_map _) (hdistinct.of_map _)).mpr
    fun event => ⟨fun hevent => (mem_foldl_insert hevent).resolve_right ?_, hadded ∅ event⟩
  rw [Std.ExtTreeMap.mem_toList_iff_getElem?_eq_some, Std.ExtTreeMap.getElem?_empty]
  nofun

/-! ### What a section leaves alone -/

section

variable (process : Process ρ) (r : ρ) (fd : Fd) (h : HandlerId)

@[simp] theorem opened_closeFd (key : Fd) :
    (process.closeFd fd).kernel.opened key =
      if key = fd then false else process.kernel.opened key := rfl

@[simp] theorem heap_setHandler (handler : EpollEventHandler ρ) :
    (process.setHandler h handler).heap = process.heap.set h handler := rfl

@[simp] theorem entry_delete : (process.delete h).entry r fd = process.entry r fd := rfl

@[simp] theorem watched_delete : (process.delete h).watched r fd = process.watched r fd := rfl

@[simp] theorem deleted_delete : (process.delete h).deleted = h :: process.deleted := rfl

@[simp] theorem newHandler_opened (events : UInt32) (reactor : ρ) (memory : Slots)
    (rdyEvents : UInt32) (key : Fd) :
    (process.newHandler events fd reactor memory rdyEvents).kernel.opened key =
      if key = fd then true else process.kernel.opened key := rfl

@[simp] theorem heap_newHandler (events : UInt32) (reactor : ρ) (memory : Slots)
    (rdyEvents : UInt32) :
    (process.newHandler events fd reactor memory rdyEvents).heap =
      process.heap ++ [.create events fd reactor (.create fd memory) rdyEvents] := rfl

variable [DecidableEq ρ] (other : ρ) (key : Fd) (value : UInt32 × Option HandlerId)
  (granted : Bool) (ctl : Ctl) (events : UInt32)

@[simp] theorem kernel_insertEntry :
    (process.insertEntry r fd value).kernel = process.kernel := rfl

@[simp] theorem watched_touchEntry :
    (process.touchEntry r fd).watched other key = process.watched other key := by
  simp only [touchEntry]
  split <;> rfl

@[simp] theorem kernel_touchEntry : (process.touchEntry r fd).kernel = process.kernel := by
  simp only [touchEntry]
  split <;> rfl

@[simp] theorem rdy_touchEntry : (process.touchEntry r fd).rdy = process.rdy := by
  simp only [touchEntry]
  split <;> rfl

@[simp] theorem heap_touchEntry : (process.touchEntry r fd).heap = process.heap := by
  simp only [touchEntry]
  split <;> rfl

@[simp] theorem deleted_touchEntry : (process.touchEntry r fd).deleted = process.deleted := by
  simp only [touchEntry]
  split <;> rfl

@[simp] theorem entry_epollCtl :
    (process.epollCtl granted r ctl fd events).entry other key = process.entry other key := rfl

@[simp] theorem opened_epollCtl :
    (process.epollCtl granted r ctl fd events).kernel.opened key = process.kernel.opened key := by
  simp only [epollCtl, Kernel.epollCtl]
  split <;> rfl

end

/-! ### Handlers -/

section

variable {process last : Process ρ} {h : HandlerId} {handler : EpollEventHandler ρ}

theorem handler?_eq_some :
    process.handler? h = some handler ↔ h ∉ process.deleted ∧ process.heap[h]? = some handler := by
  rw [handler?, Option.ite_none_left_eq_some]

/-- A method of a handler that returns has replaced the handler on the heap. -/
theorem onHandler_eq_ok {α : Type} {method : Method (EpollEventHandler ρ) α} {value : α}
    (hcall : onHandler h method process = .ok value last) :
    ∃ handler after, process.handler? h = some handler ∧ method handler = .ok value after ∧
      last = process.setHandler h after := by
  cases hhandler : process.handler? h with
  | none => simp only [onHandler, hhandler, reduceCtorEq] at hcall
  | some handler =>
      simp only [onHandler, hhandler] at hcall
      cases hmethod : method handler with
      | error fault after => simp only [hmethod, reduceCtorEq] at hcall
      | ok result after =>
          simp only [hmethod, EStateM.Result.ok.injEq] at hcall
          obtain ⟨rfl, rfl⟩ := hcall
          exact ⟨handler, after, rfl, hmethod, rfl⟩

theorem onHandler_ok {α : Type} {method : Method (EpollEventHandler ρ) α} {value : α}
    {after : EpollEventHandler ρ} (hhandler : process.handler? h = some handler)
    (hmethod : method handler = .ok value after) :
    onHandler h method process = .ok value (process.setHandler h after) := by
  simp only [onHandler, hhandler, hmethod]

theorem onHandler_error {α : Type} {method : Method (EpollEventHandler ρ) α} {fault : Fault}
    {after : EpollEventHandler ρ} (hhandler : process.handler? h = some handler)
    (hmethod : method handler = .error fault after) :
    onHandler h method process = .error fault (process.setHandler h after) := by
  simp only [onHandler, hhandler, hmethod]

theorem handler?_setHandler (hhandler : process.handler? h = some handler)
    (after : EpollEventHandler ρ) : (process.setHandler h after).handler? h = some after := by
  obtain ⟨hlive, hheap⟩ := handler?_eq_some.mp hhandler
  refine handler?_eq_some.mpr ⟨hlive, ?_⟩
  rw [heap_setHandler, List.getElem?_set_self (List.getElem?_eq_some_iff.mp hheap).1]

theorem deref_ok (hhandler : process.handler? h = some handler) :
    deref h process = .ok handler process := by
  simp only [deref, hhandler]

theorem deref_eq_ok (hderef : deref h process = .ok handler last) :
    process.handler? h = some handler ∧ last = process := by
  cases hhandler : process.handler? h with
  | none => simp only [deref, hhandler, reduceCtorEq] at hderef
  | some found =>
      simp only [deref, hhandler, EStateM.Result.ok.injEq] at hderef
      exact ⟨congrArg some hderef.1, hderef.2.symm⟩

end

/-! ### Tables and interest sets -/

section

variable [DecidableEq ρ] {process : Process ρ} {r : ρ} {fd : Fd} {h : HandlerId}
  {handler : EpollEventHandler ρ}

theorem epollUpdate_present {value : UInt32 × Option HandlerId}
    (hentry : process.entry r fd = some value) (granted : Bool) (ctl : Ctl) :
    epollUpdate granted r fd ctl process = .ok () (process.epollCtl granted r ctl fd value.1) := by
  have htouch : process.touchEntry r fd = process := by simp only [touchEntry, hentry]
  rw [epollUpdate, Method.bind_ok (Method.modify_apply _ _), htouch,
    Method.bind_ok (Method.get_apply _), storedEvents_eq hentry, Method.modify_apply]

/-- Reading the mask of a missing key puts the key back. -/
theorem epollUpdate_absent (hentry : process.entry r fd = none) (granted : Bool) (ctl : Ctl) :
    epollUpdate granted r fd ctl process =
      .ok () ((process.insertEntry r fd (0, none)).epollCtl granted r ctl fd 0) := by
  have htouch : process.touchEntry r fd = process.insertEntry r fd (0, none) := by
    simp only [touchEntry, hentry]
  have hnull : (process.insertEntry r fd (0, none)).entry r fd = some (0, none) := by
    rw [entry_insertEntry, if_pos ⟨rfl, rfl⟩]
  rw [epollUpdate, Method.bind_ok (Method.modify_apply _ _), htouch,
    Method.bind_ok (Method.get_apply _), storedEvents_eq hnull, Method.modify_apply]

/-- The state that a registration leaves. -/
def register (granted : Bool) (r : ρ) (h : HandlerId) (handler : EpollEventHandler ρ)
    (process : Process ρ) : Process ρ :=
  (process.insertEntry r handler.fd (handler.events, some h)).epollCtl granted r
    (if (process.entry r handler.fd).isNone then .add else .mod) handler.fd handler.events

theorem registerHandler_eq (hhandler : process.handler? h = some handler) (granted : Bool)
    (r : ρ) :
    registerHandler granted r h process = .ok 0 (process.register granted r h handler) := by
  have hentry : (process.insertEntry r handler.fd (handler.events, some h)).entry r handler.fd =
      some (handler.events, some h) := by rw [entry_insertEntry, if_pos ⟨rfl, rfl⟩]
  rw [registerHandler, Method.bind_ok (deref_ok hhandler), Method.bind_ok (Method.get_apply _),
    Method.bind_ok (Method.modify_apply _ _)]
  exact Method.bind_ok (epollUpdate_present hentry granted _)

/-- The state that a granted removal leaves. -/
def remove (granted : Bool) (r : ρ) (fd : Fd) (h : HandlerId) (process : Process ρ) : Process ρ :=
  (((process.eraseEntry r fd).insertEntry r fd (0, none)).epollCtl granted r .del fd 0).delete h

theorem removeHandler_found (hhandler : process.handler? h = some handler) (granted : Bool)
    (hfound : process.entry r handler.fd ≠ none) :
    removeHandler 0 granted r h process = .ok 0 (process.remove granted r handler.fd h) := by
  have hsome : (process.entry r handler.fd).isNone = false := by
    rw [← Bool.not_eq_true, Option.isNone_iff_eq_none]
    exact hfound
  have hgone : (process.eraseEntry r handler.fd).entry r handler.fd = none := by
    rw [entry_eraseEntry, if_pos ⟨rfl, rfl⟩]
  rw [removeHandler, if_neg (by simp), Method.bind_ok (deref_ok hhandler),
    Method.bind_ok (Method.get_apply _),
    if_neg (by simp [EpollEventHandler.getFd, hsome]), Method.bind_ok (Method.modify_apply _ _)]
  apply (Method.bind_ok (epollUpdate_absent hgone granted .del)).trans
  rw [Method.bind_ok (Method.modify_apply _ _)]
  rfl

/-- Reading a mask stores no handler. -/
theorem stored_of_touchEntry {other : ρ} {key : Fd} {events : UInt32}
    (hstored : (process.touchEntry r fd).entry other key = some (events, some h)) :
    process.entry other key = some (events, some h) := by
  rw [entry_touchEntry] at hstored
  split at hstored
  · next hkey =>
      cases hentry : process.entry r fd with
      | none => simp [hentry] at hstored
      | some value =>
          rw [hentry, Option.getD_some] at hstored
          rw [hkey.1, hkey.2, hentry, hstored]
  · exact hstored

theorem entry_register (granted : Bool) (other : ρ) (key : Fd) :
    (process.register granted r h handler).entry other key =
      if other = r ∧ key = handler.fd then some (handler.events, some h)
      else process.entry other key := by
  rw [register, entry_epollCtl, entry_insertEntry]

theorem watched_register (granted : Bool) (other : ρ) (key : Fd) :
    (process.register granted r h handler).watched other key =
      if (granted && process.kernel.opened handler.fd) = true ∧ other = r ∧ key = handler.fd then
        (if (process.entry r handler.fd).isNone then Ctl.add else Ctl.mod).apply handler.events
          (process.watched r handler.fd)
      else process.watched other key := by
  rw [register, watched_epollCtl]
  rfl

@[simp] theorem heap_register (granted : Bool) :
    (process.register granted r h handler).heap = process.heap := rfl

@[simp] theorem opened_register (granted : Bool) (key : Fd) :
    (process.register granted r h handler).kernel.opened key = process.kernel.opened key := by
  rw [register, opened_epollCtl, kernel_insertEntry]

@[simp] theorem heap_remove (granted : Bool) :
    (process.remove granted r fd h).heap = process.heap := rfl

@[simp] theorem rdy_remove (granted : Bool) :
    (process.remove granted r fd h).rdy = process.rdy := rfl

@[simp] theorem deleted_remove (granted : Bool) :
    (process.remove granted r fd h).deleted = h :: process.deleted := rfl

theorem entry_remove (granted : Bool) (other : ρ) (key : Fd) :
    (process.remove granted r fd h).entry other key =
      if other = r ∧ key = fd then some (0, none) else process.entry other key := by
  rw [remove, entry_delete, entry_epollCtl, entry_insertEntry, entry_eraseEntry]
  split
  · rfl
  · rfl

theorem watched_remove (granted : Bool) (other : ρ) (key : Fd) :
    (process.remove granted r fd h).watched other key =
      if (granted && process.kernel.opened fd) = true ∧ other = r ∧ key = fd then none
      else process.watched other key := by
  rw [remove, watched_delete, watched_epollCtl]
  rfl

end

end ZtHttp.Process
