import ZtHttp.Event.Laws
import ZtHttp.Event.Record

/-!
# What serving leaves alone

Serving and closing a handler change the handler's own object and may close a
descriptor. The tables, the handlers' places and the list of the deleted ones
stay as they are, and the kernel watches nothing that it did not watch before.
-/

namespace ZtHttp.Process

open Imperative

section

variable {ρ : Type}

/-- Only open descriptors are watched. -/
def WatchedOpen (process : Process ρ) : Prop :=
  ∀ r fd events, process.watched r fd = some events → process.kernel.opened fd = true

/-- Every handler is still on the heap, with the members that its constructor
fixed. -/
def Places (before after : Process ρ) : Prop :=
  ∀ (h : HandlerId) (handler : EpollEventHandler ρ), before.heap[h]? = some handler →
    ∃ later, after.heap[h]? = some later ∧ handler.SamePlace later

theorem Places.of_heap {before after : Process ρ} (hheap : after.heap = before.heap) :
    before.Places after := fun h handler hhandler =>
  ⟨handler, by rwa [hheap], .refl handler⟩

theorem Places.trans {first middle last : Process ρ} (hleft : first.Places middle)
    (hright : middle.Places last) : first.Places last := by
  intro h handler hhandler
  obtain ⟨later, hlater, hplace⟩ := hleft h handler hhandler
  obtain ⟨latest, hlatest, hplace'⟩ := hright h later hlater
  exact ⟨latest, hlatest, hplace.trans hplace'⟩

theorem places_newHandler (process : Process ρ) (events : UInt32) (fd : Fd) (reactor : ρ)
    (memory : Slots) (rdyEvents : UInt32) :
    process.Places (process.newHandler events fd reactor memory rdyEvents) := by
  intro h handler hhandler
  refine ⟨handler, ?_, .refl handler⟩
  rw [heap_newHandler, List.getElem?_append_left (List.getElem?_eq_some_iff.mp hhandler).1,
    hhandler]

/-- What serving and closing do to the shared memory and to the kernel:
descriptors may be closed, and nothing else changes. -/
structure Served (before after : Process ρ) : Prop where
  entry : ∀ r fd, after.entry r fd = before.entry r fd
  rdy : after.rdy = before.rdy
  deleted : after.deleted = before.deleted
  heapLength : after.heap.length = before.heap.length
  places : before.Places after
  watched : ∀ r fd events, after.watched r fd = some events → before.watched r fd = some events
  watchedOpen : before.WatchedOpen → after.WatchedOpen

theorem Served.refl (process : Process ρ) : process.Served process where
  entry _ _ := rfl
  rdy := rfl
  deleted := rfl
  heapLength := rfl
  places := .of_heap rfl
  watched _ _ _ := id
  watchedOpen := id

theorem Served.trans {first middle last : Process ρ} (hleft : first.Served middle)
    (hright : middle.Served last) : first.Served last where
  entry r fd := (hright.entry r fd).trans (hleft.entry r fd)
  rdy := hright.rdy.trans hleft.rdy
  deleted := hright.deleted.trans hleft.deleted
  heapLength := hright.heapLength.trans hleft.heapLength
  places := hleft.places.trans hright.places
  watched r fd events hwatched := hleft.watched r fd events (hright.watched r fd events hwatched)
  watchedOpen hopen := hright.watchedOpen (hleft.watchedOpen hopen)

/-- What is not watched stays so. -/
theorem Served.unwatched {before after : Process ρ} {r : ρ} {fd : Fd}
    (hserved : before.Served after) (hunwatched : before.watched r fd = none) :
    after.watched r fd = none := by
  rw [Option.eq_none_iff_forall_ne_some]
  intro events hwatched
  have hbefore := hserved.watched r fd events hwatched
  rw [hunwatched] at hbefore
  contradiction

theorem served_setHandler {process : Process ρ} {h : HandlerId}
    {handler after : EpollEventHandler ρ}
    (hhandler : process.heap[h]? = some handler) (hplace : handler.SamePlace after) :
    process.Served (process.setHandler h after) where
  entry _ _ := rfl
  rdy := rfl
  deleted := rfl
  heapLength := List.length_set
  places := by
    intro other found hfound
    rw [heap_setHandler]
    by_cases hsame : h = other
    · subst hsame
      cases hhandler.symm.trans hfound
      exact ⟨after, List.getElem?_set_self (List.getElem?_eq_some_iff.mp hhandler).1, hplace⟩
    · exact ⟨found, (List.getElem?_set_ne hsame).trans hfound, .refl found⟩
  watched _ _ _ := id
  watchedOpen := id

theorem served_closeFd (process : Process ρ) (fd : Fd) : process.Served (process.closeFd fd) where
  entry _ _ := rfl
  rdy := rfl
  deleted := rfl
  heapLength := rfl
  places := .of_heap rfl
  watched r key events hwatched := by
    rw [watched_closeFd] at hwatched
    exact (Option.ite_none_left_eq_some.mp hwatched).2
  watchedOpen hopen r key events hwatched := by
    rw [watched_closeFd, Option.ite_none_left_eq_some] at hwatched
    rw [opened_closeFd, if_neg hwatched.1]
    exact hopen r key events hwatched.2

/-- What the loop of `quit_and_rst` does. -/
theorem closeAll_leaves (entries : List (Fd × UInt32 × Option HandlerId)) (process : Process ρ) :
    let last := entries.foldl (fun process entry => process.closeFd entry.1) process
    process.Served last ∧ last.heap = process.heap ∧ ∀ fd, last.kernel.opened fd =
      if fd ∈ entries.map Prod.fst then false else process.kernel.opened fd := by
  induction entries generalizing process with
  | nil => exact ⟨.refl process, rfl, fun fd => by simp⟩
  | cons entry rest ih =>
      obtain ⟨hserved, hheap, hopened⟩ := ih (process.closeFd entry.1)
      refine ⟨(served_closeFd process entry.1).trans hserved, hheap, ?_⟩
      intro fd
      rw [List.foldl_cons, hopened, opened_closeFd]
      by_cases hrest : fd ∈ rest.map Prod.fst
      · simp [hrest]
      · by_cases hsame : fd = entry.1 <;> simp [hrest, hsame]

/-- A method that keeps a handler's place leaves the handler where it was. -/
theorem onHandler_served {α : Type} {method : Method (EpollEventHandler ρ) α}
    (hplace : Method.Respects EpollEventHandler.SamePlace method) {h : HandlerId}
    {handler : EpollEventHandler ρ} {process last : Process ρ} {value : α}
    (hhandler : process.handler? h = some handler)
    (hcall : onHandler h method process = .ok value last) :
    process.Served last ∧ ∃ after, last.handler? h = some after ∧ handler.SamePlace after := by
  obtain ⟨found, after, hfound, hmethod, rfl⟩ := onHandler_eq_ok hcall
  cases hhandler.symm.trans hfound
  have hsame := hplace handler
  rw [Method.after_ok hmethod] at hsame
  obtain ⟨hlive, hheap⟩ := handler?_eq_some.mp hfound
  refine ⟨served_setHandler hheap hsame, after, handler?_eq_some.mpr ⟨hlive, ?_⟩, hsame⟩
  have hlength := (List.getElem?_eq_some_iff.mp hheap).1
  rw [heap_setHandler, List.getElem?_set_self hlength]

theorem disConnect_served {h : HandlerId} {handler : EpollEventHandler ρ}
    {process last : Process ρ} (hhandler : process.handler? h = some handler)
    (hcall : disConnect h process = .ok () last) :
    process.Served last ∧ ∃ after, last.handler? h = some after ∧ handler.SamePlace after := by
  obtain ⟨_, closed, hclose, hrest⟩ := Method.bind_eq_ok hcall
  obtain ⟨hserved, after, hafter, hplace⟩ :=
    onHandler_served EpollEventHandler.samePlace_disConnect hhandler hclose
  obtain ⟨found, same, hderef, hsocket⟩ := Method.bind_eq_ok hrest
  obtain ⟨-, rfl⟩ := deref_eq_ok hderef
  cases htcp : found.tcp with
  | none =>
      simp only [htcp] at hsocket
      cases hsocket
      exact ⟨hserved, after, hafter, hplace⟩
  | some socket =>
      simp only [htcp] at hsocket
      cases hsocket
      exact ⟨hserved.trans (served_closeFd _ socket.fd), after, hafter, hplace⟩

theorem WatchedOpen.newHandler {process : Process ρ} (hopen : process.WatchedOpen)
    (events : UInt32) (fd : Fd) (reactor : ρ) (memory : Slots) (rdyEvents : UInt32) :
    (process.newHandler events fd reactor memory rdyEvents).WatchedOpen := by
  intro r key mask hwatched
  rw [newHandler_opened]
  split
  · rfl
  · exact hopen r key mask hwatched

variable [DecidableEq ρ]

/-- `epoll_ctl` refuses a closed descriptor. -/
theorem WatchedOpen.epollCtl {process : Process ρ} (hopen : process.WatchedOpen) (granted : Bool)
    (r : ρ) (ctl : Ctl) (fd : Fd) (events : UInt32) :
    (process.epollCtl granted r ctl fd events).WatchedOpen := by
  intro other key mask hwatched
  rw [opened_epollCtl]
  rw [watched_epollCtl] at hwatched
  split at hwatched
  · next hkey =>
      rw [hkey.2.2]
      exact (Bool.and_eq_true_iff.mp hkey.1).2
  · exact hopen other key mask hwatched

/-- After a `DEL` the descriptor is not watched: one that is refused finds a
closed descriptor, which was not watched before. -/
theorem WatchedOpen.unwatched_del {process : Process ρ} (hopen : process.WatchedOpen) (r : ρ)
    (fd : Fd) (events : UInt32) :
    (process.epollCtl true r .del fd events).watched r fd = none := by
  rw [watched_epollCtl]
  split
  · rfl
  · next hclosed =>
      rw [Option.eq_none_iff_forall_ne_some]
      intro mask hwatched
      apply hclosed
      rw [Bool.true_and]
      exact ⟨hopen r fd mask hwatched, rfl, rfl⟩

/-- What `quit_and_rst` leaves: an empty table, and none of its keys open. -/
structure QuitLeaves (process : Process ρ) (task : ρ) (last : Process ρ) : Prop where
  heap : last.heap = process.heap
  entry : ∀ r fd, last.entry r fd = if r = task then none else process.entry r fd
  rdy : ∀ r, last.rdy r = if r = task then ∅ else process.rdy r
  watched : ∀ r fd, last.watched r fd ≠ none → process.watched r fd ≠ none
  opened : ∀ fd, last.kernel.opened fd =
    if fd ∈ (process.fds task).toList.map Prod.fst then false else process.kernel.opened fd

theorem quitAndRst_leaves (process : Process ρ) (task : ρ) :
    process.QuitLeaves task (process.quitAndRst task) := by
  obtain ⟨hserved, hheap, hopened⟩ := closeAll_leaves (process.fds task).toList process
  refine ⟨hheap, ?_, ?_, ?_, hopened⟩
  · intro r fd
    refine (entry_setTable _ _ _ _ _).trans ?_
    rw [hserved.entry, Std.ExtTreeMap.getElem?_empty]
  · intro r
    refine ite_congr rfl (fun _ => rfl) fun _ => ?_
    exact congrFun hserved.rdy r
  · intro r fd hfd hnone
    exact hfd (hserved.unwatched hnone)

/-- `handle_event` serves, closes or not, and asks the handler's own reactor to
remove it. -/
theorem handleEvent_cases {registerFlag ret : Int} {granted : Bool} {outside : Outside}
    {h : HandlerId} {process last : Process ρ}
    (hcall : handleEvent registerFlag granted outside h process = .ok ret last) :
    ∃ handler served after ret', process.handler? h = some handler ∧ process.Served served ∧
      served.handler? h = some after ∧ handler.SamePlace after ∧
      removeHandler registerFlag granted handler.reactor h served = .ok ret' last := by
  obtain ⟨reaches, ready, hready, hrest⟩ := Method.bind_eq_ok hcall
  obtain ⟨handler, _, hhandler, _, _⟩ := onHandler_eq_ok hready
  obtain ⟨hserved, first, hfirst, hplace⟩ :=
    onHandler_served (EpollEventHandler.admits_samePlace.serveReady outside) hhandler hready
  -- the two paths meet at the removal
  have hremoval : ∀ {middle : Process ρ} {found : EpollEventHandler ρ},
      middle.handler? h = some found → handler.SamePlace found →
      (do let _ ← removeHandler registerFlag granted (← deref h).reactor h
          return (0 : Int) : Method (Process ρ) Int) middle = .ok ret last →
      ∃ ret', removeHandler registerFlag granted handler.reactor h middle = .ok ret' last := by
    intro middle found hfound hsame hmiddle
    obtain ⟨again, same, hderef, hmiddle⟩ := Method.bind_eq_ok hmiddle
    obtain ⟨hagain, rfl⟩ := deref_eq_ok hderef
    cases hfound.symm.trans hagain
    obtain ⟨ret', removed, hremove, hmiddle⟩ := Method.bind_eq_ok hmiddle
    cases hmiddle
    exact ⟨ret', hsame.reactor ▸ hremove⟩
  cases reaches with
  | false =>
      simp only [Bool.false_eq_true, if_false] at hrest
      obtain ⟨ret', hremove⟩ := hremoval hfirst hplace hrest
      exact ⟨handler, ready, first, ret', hhandler, hserved, hfirst, hplace, hremove⟩
  | true =>
      simp only [if_true] at hrest
      obtain ⟨_, closed, hclose, hrest⟩ := Method.bind_eq_ok hrest
      obtain ⟨hclosed, second, hsecond, hplace'⟩ := disConnect_served hfirst hclose
      obtain ⟨ret', hremove⟩ := hremoval hsecond (hplace.trans hplace') hrest
      exact ⟨handler, closed, second, ret', hhandler, hserved.trans hclosed, hsecond,
        hplace.trans hplace', hremove⟩

end

end ZtHttp.Process
