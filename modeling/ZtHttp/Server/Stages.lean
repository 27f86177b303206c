import ZtHttp.Server.Laws

/-!
# The stages of a handler

A handler waits in the queue, is stored in one table, is taken out of it again
and is deleted. While it is stored, only its own task may take it out: that is
what keeps the events that the task has still to dispatch stored. The stage is
no member of the code's objects; the invariant says that some assignment of
stages fits the state.
-/

namespace ZtHttp

open Imperative

/-- How far a handler has come. -/
inductive Stage (ρ : Type) where
  | waiting
  | tabled (r : ρ)
  | leaving (r : ρ)
  | gone

namespace TaskPc

/-- The events that the task has still to dispatch. -/
def left (rdy : FdMap UInt32) : TaskPc → List (Fd × UInt32)
  | .selecting | .testing | .registering => rdy.toList
  | .dispatching rest | .serving _ _ rest | .closing _ rest | .removing _ _ rest => rest

/-- The handler that the task is working on and that is stored. -/
def holds : TaskPc → Option HandlerId
  | .serving h _ _ | .closing h _ | .removing .testFlag h _ | .removing .find h _
  | .removing .erase h _ => some h
  | _ => none

/-- The handler that the task has taken out of its table. -/
def drops : TaskPc → Option HandlerId
  | .removing .touch h _ | .removing (.ctl _) h _ | .removing .delete h _ => some h
  | _ => none

/-- The handler whose descriptor may still be watched. -/
def unwatches : TaskPc → Option HandlerId
  | .removing .touch h _ | .removing (.ctl _) h _ => some h
  | _ => none

end TaskPc

namespace Process

variable {ρ : Type}

/-- Some handler is stored under the descriptor. -/
def Stored (process : Process ρ) (r : ρ) (fd : Fd) : Prop :=
  ∃ events h, process.entry r fd = some (events, some h)

/-- The tables and the list of the deleted handlers fit the stages. -/
structure Staged (stage : HandlerId → Stage ρ) (process : Process ρ) : Prop where
  stored : ∀ r fd events h, process.entry r fd = some (events, some h) →
    stage h = .tabled r ∧ ∃ handler, process.heap[h]? = some handler ∧ handler.fd = fd
  deleted : ∀ h ∈ process.deleted, stage h = .gone
  fresh : ∀ h, process.heap.length ≤ h → stage h = .waiting
  watchedOpen : process.WatchedOpen

/-- The handlers wait, each once. -/
structure Waiting (stage : HandlerId → Stage ρ) (process : Process ρ)
    (handlers : List HandlerId) : Prop where
  waiting : ∀ h ∈ handlers, stage h = .waiting
  made : ∀ h ∈ handlers, h < process.heap.length
  nodup : handlers.Nodup

/-- What a task relies on in its own table. -/
structure TaskOk (stage : HandlerId → Stage ρ) (process : Process ρ) (task : ρ) (pc : TaskPc) :
    Prop where
  stored : ∀ event ∈ pc.left (process.rdy task), process.Stored task event.1
  nodup : ((pc.left (process.rdy task)).map Prod.fst).Nodup
  watched : ∀ fd, process.watched task fd ≠ none → process.Stored task fd ∨
    ∃ h handler, pc.unwatches = some h ∧ process.heap[h]? = some handler ∧ handler.fd = fd
  holds : ∀ h, pc.holds = some h → ∃ handler events, process.heap[h]? = some handler ∧
    process.entry task handler.fd = some (events, some h) ∧
    ∀ event ∈ pc.left (process.rdy task), event.1 ≠ handler.fd
  drops : ∀ h, pc.drops = some h → stage h = .leaving task ∧
    ∃ handler, process.heap[h]? = some handler ∧ handler.reactor = task ∧
      ∀ event ∈ pc.left (process.rdy task), event.1 ≠ handler.fd

/-- Some stages fit the tables, the queue and every task. -/
def Sound (process : Process ρ) (handlers : List HandlerId) (pc : ρ → TaskPc) : Prop :=
  ∃ stage, process.Staged stage ∧ process.Waiting stage handlers ∧
    ∀ task, process.TaskOk stage task (pc task)

variable {stage stage' : HandlerId → Stage ρ} {process before after : Process ρ} {h : HandlerId}
  {r : ρ} {fd : Fd}

/-! ### The tables -/

/-- A stored handler is alive and stored under its own descriptor. -/
theorem Staged.live {events : UInt32} (hstaged : process.Staged stage)
    (hentry : process.entry r fd = some (events, some h)) :
    ∃ handler, process.handler? h = some handler ∧ handler.fd = fd := by
  obtain ⟨htabled, handler, hheap, hfd⟩ := hstaged.stored r fd events h hentry
  refine ⟨handler, handler?_eq_some.mpr ⟨fun hdeleted => ?_, hheap⟩, hfd⟩
  have hgone := hstaged.deleted h hdeleted
  rw [htabled] at hgone
  contradiction

/-- A step that stores no handler, moves none and deletes none. -/
theorem Staged.frame (hstaged : before.Staged stage)
    (hentry : ∀ r fd events h, after.entry r fd = some (events, some h) →
      before.entry r fd = some (events, some h))
    (hplaces : before.Places after) (hdeleted : after.deleted = before.deleted)
    (hlength : before.heap.length ≤ after.heap.length) (hopen : after.WatchedOpen) :
    after.Staged stage where
  stored r fd events h hstored := by
    obtain ⟨htabled, handler, hheap, hfd⟩ :=
      hstaged.stored r fd events h (hentry r fd events h hstored)
    obtain ⟨later, hlater, hplace⟩ := hplaces h handler hheap
    exact ⟨htabled, later, hlater, hplace.fd.trans hfd⟩
  deleted h hmem := hstaged.deleted h (hdeleted ▸ hmem)
  fresh h hle := hstaged.fresh h (Nat.le_trans hlength hle)
  watchedOpen := hopen

theorem Staged.served (hstaged : before.Staged stage) (hserved : before.Served after) :
    after.Staged stage :=
  hstaged.frame (fun r fd events h hstored => by rwa [hserved.entry] at hstored) hserved.places
    hserved.deleted (Nat.le_of_eq hserved.heapLength.symm) (hserved.watchedOpen hstaged.watchedOpen)

/-- The handler that moves is another one when its stage is. -/
theorem stage_update {found : HandlerId} {current : Stage ρ} (hstage : stage h ≠ current)
    (hfound : stage found = current) (next : Stage ρ) :
    Function.update stage h next found = current := by
  have hne : found ≠ h := by
    rintro rfl
    exact hstage hfound
  rw [Function.update_of_ne hne, hfound]

/-- A handler that no table holds moves to another stage. -/
theorem Staged.update (hstaged : process.Staged stage) (hmade : h < process.heap.length)
    (hentry : ∀ r fd events, process.entry r fd ≠ some (events, some h))
    (hlive : h ∉ process.deleted) (next : Stage ρ) :
    process.Staged (Function.update stage h next) where
  stored r fd events other hstored := by
    have hne : other ≠ h := fun hsame => hentry r fd events (hsame ▸ hstored)
    rw [Function.update_of_ne hne]
    exact hstaged.stored r fd events other hstored
  deleted other hmem := by
    have hne : other ≠ h := fun hsame => hlive (hsame ▸ hmem)
    rw [Function.update_of_ne hne]
    exact hstaged.deleted other hmem
  fresh other hle := by
    have hne : other ≠ h := fun hsame => Nat.not_lt.mpr (hsame ▸ hle) hmade
    rw [Function.update_of_ne hne]
    exact hstaged.fresh other hle
  watchedOpen := hstaged.watchedOpen

/-- A handler that is in no table by its stage. -/
theorem Staged.not_stored (hstaged : process.Staged stage) (hstage : ∀ r, stage h ≠ .tabled r)
    (r : ρ) (fd : Fd) (events : UInt32) : process.entry r fd ≠ some (events, some h) :=
  fun hstored => hstage r (hstaged.stored r fd events h hstored).1

theorem Staged.not_deleted (hstaged : process.Staged stage) (hstage : stage h ≠ .gone) :
    h ∉ process.deleted :=
  fun hdeleted => hstage (hstaged.deleted h hdeleted)

theorem Staged.delete (hstaged : process.Staged stage) (hgone : stage h = .gone) :
    (process.delete h).Staged stage where
  stored := hstaged.stored
  deleted other hmem := by
    rw [deleted_delete, List.mem_cons] at hmem
    cases hmem with
    | inl hsame => rw [hsame, hgone]
    | inr hold => exact hstaged.deleted other hold
  fresh := hstaged.fresh
  watchedOpen := hstaged.watchedOpen

section

variable [DecidableEq ρ] {handler : EpollEventHandler ρ}

theorem Staged.register (hstaged : process.Staged stage) (hstage : stage h = .tabled r)
    (hhandler : process.heap[h]? = some handler) (granted : Bool) :
    (process.register granted r h handler).Staged stage where
  stored other fd events found hstored := by
    rw [entry_register] at hstored
    split at hstored
    · next hkey =>
        cases hstored
        exact ⟨hkey.1 ▸ hstage, handler, hhandler, hkey.2.symm⟩
    · exact hstaged.stored other fd events found hstored
  deleted := hstaged.deleted
  fresh := hstaged.fresh
  watchedOpen := WatchedOpen.epollCtl hstaged.watchedOpen _ _ _ _ _

/-- The handler whose entry is erased leaves its table. -/
theorem Staged.eraseEntry {events : UInt32} (hstaged : process.Staged stage)
    (hentry : process.entry r fd = some (events, some h)) :
    (process.eraseEntry r fd).Staged (Function.update stage h (.leaving r)) := by
  obtain ⟨htabled, handler, hheap, hfd⟩ := hstaged.stored r fd events h hentry
  have herased : (process.eraseEntry r fd).Staged stage :=
    hstaged.frame (fun other key mask found hstored => by
      rw [entry_eraseEntry, Option.ite_none_left_eq_some] at hstored
      exact hstored.2) (.of_heap rfl) rfl (Nat.le_refl _) hstaged.watchedOpen
  refine herased.update (List.getElem?_eq_some_iff.mp hheap).1 ?_ ?_ _
  · intro other key mask hstored
    rw [entry_eraseEntry, Option.ite_none_left_eq_some] at hstored
    obtain ⟨hkey, hstored⟩ := hstored
    -- the handler is stored nowhere else
    obtain ⟨htabled', handler', hheap', hfd'⟩ := hstaged.stored other key mask h hstored
    cases htabled.symm.trans htabled'
    cases hheap.symm.trans hheap'
    exact hkey ⟨rfl, hfd'.symm.trans hfd⟩
  · apply hstaged.not_deleted
    simp [htabled]

theorem Staged.touchEntry (hstaged : process.Staged stage) (r : ρ) (fd : Fd) :
    (process.touchEntry r fd).Staged stage := by
  refine hstaged.frame (fun other key events found => stored_of_touchEntry)
    (.of_heap (heap_touchEntry process r fd)) (deleted_touchEntry process r fd)
    (heap_touchEntry process r fd ▸ Nat.le_refl _) ?_
  intro other key mask hwatched
  rw [kernel_touchEntry]
  rw [watched_touchEntry] at hwatched
  exact hstaged.watchedOpen other key mask hwatched

theorem Staged.epollCtl (hstaged : process.Staged stage) (granted : Bool) (r : ρ) (ctl : Ctl)
    (fd : Fd) (events : UInt32) : (process.epollCtl granted r ctl fd events).Staged stage :=
  hstaged.frame (fun _ _ _ _ hstored => hstored) (.of_heap rfl) rfl (Nat.le_refl _)
    (hstaged.watchedOpen.epollCtl _ _ _ _ _)

end

/-! ### The queue -/

theorem Waiting.frame {handlers : List HandlerId} (hwaiting : before.Waiting stage handlers)
    (hstage : ∀ h ∈ handlers, stage h = .waiting → stage' h = .waiting)
    (hlength : before.heap.length ≤ after.heap.length) : after.Waiting stage' handlers where
  waiting h hmem := hstage h hmem (hwaiting.waiting h hmem)
  made h hmem := Nat.lt_of_lt_of_le (hwaiting.made h hmem) hlength
  nodup := hwaiting.nodup

theorem Waiting.perm {handlers others : List HandlerId} (hwaiting : process.Waiting stage handlers)
    (hperm : others.Perm handlers) : process.Waiting stage others where
  waiting h hmem := hwaiting.waiting h (hperm.mem_iff.mp hmem)
  made h hmem := hwaiting.made h (hperm.mem_iff.mp hmem)
  nodup := hperm.nodup_iff.mpr hwaiting.nodup

theorem Waiting.sublist {handlers others : List HandlerId}
    (hwaiting : process.Waiting stage handlers) (hsublist : others.Sublist handlers) :
    process.Waiting stage others where
  waiting h hmem := hwaiting.waiting h (hsublist.subset hmem)
  made h hmem := hwaiting.made h (hsublist.subset hmem)
  nodup := hwaiting.nodup.sublist hsublist

/-- A handler that does not wait may move to another stage. -/
theorem Waiting.update {handlers : List HandlerId} (hwaiting : process.Waiting stage handlers)
    (hmem : h ∉ handlers) (next : Stage ρ) :
    process.Waiting (Function.update stage h next) handlers :=
  hwaiting.frame (fun other hother hwaits => by
    have hne : other ≠ h := fun hsame => hmem (hsame ▸ hother)
    rw [Function.update_of_ne hne, hwaits]) (Nat.le_refl _)

theorem Waiting.not_mem {handlers : List HandlerId} (hwaiting : process.Waiting stage handlers)
    (hstage : stage h ≠ .waiting) : h ∉ handlers :=
  fun hmem => hstage (hwaiting.waiting h hmem)

/-! ### The tasks -/

/-- What a task that unwatches nothing watches is stored. -/
theorem TaskOk.stored_of_watched {task : ρ} {pc : TaskPc} (hok : process.TaskOk stage task pc)
    (hunwatches : pc.unwatches = none) (hfd : process.watched task fd ≠ none) :
    process.Stored task fd := by
  rcases hok.watched fd hfd with hstored | ⟨other, _, hother, _⟩
  · exact hstored
  · simp [hunwatches] at hother

/-- A step that leaves the task's stored handlers stored, its ready events and
the stage of the handler it drops alone, and adds nothing to its interest set. -/
theorem TaskOk.frame {task : ρ} {pc : TaskPc} (hok : before.TaskOk stage task pc)
    (hentry : ∀ fd events h, before.entry task fd = some (events, some h) →
      after.entry task fd = some (events, some h))
    (hrdy : after.rdy task = before.rdy task)
    (hwatched : ∀ fd, after.watched task fd ≠ none → before.watched task fd ≠ none)
    (hplaces : before.Places after)
    (hstage : ∀ h, pc.drops = some h → stage h = .leaving task → stage' h = .leaving task) :
    after.TaskOk stage' task pc where
  stored event hevent := by
    rw [hrdy] at hevent
    obtain ⟨events, h, hstored⟩ := hok.stored event hevent
    exact ⟨events, h, hentry _ _ _ hstored⟩
  nodup := hrdy ▸ hok.nodup
  watched fd hfd := by
    obtain ⟨events, h, hstored⟩ | ⟨h, handler, hdrops, hheap, hsame⟩ :=
      hok.watched fd (hwatched fd hfd)
    · exact .inl ⟨events, h, hentry _ _ _ hstored⟩
    · obtain ⟨later, hlater, hplace⟩ := hplaces h handler hheap
      exact .inr ⟨h, later, hdrops, hlater, hplace.fd.trans hsame⟩
  holds h hholds := by
    obtain ⟨handler, events, hheap, hstored, hrest⟩ := hok.holds h hholds
    obtain ⟨later, hlater, hplace⟩ := hplaces h handler hheap
    refine ⟨later, events, hlater, ?_, ?_⟩
    · rw [hplace.fd]
      exact hentry _ _ _ hstored
    · rw [hplace.fd, hrdy]
      exact hrest
  drops h hdrops := by
    obtain ⟨hleaving, handler, hheap, hreactor, hrest⟩ := hok.drops h hdrops
    obtain ⟨later, hlater, hplace⟩ := hplaces h handler hheap
    refine ⟨hstage h hdrops hleaving, later, hlater, hplace.reactor.trans hreactor, ?_⟩
    rw [hplace.fd, hrdy]
    exact hrest

/-- A task that moves on without touching the shared memory. -/
theorem TaskOk.goto {task : ρ} {pc pc' : TaskPc} (hok : process.TaskOk stage task pc)
    (hleft : (pc'.left (process.rdy task)).Sublist (pc.left (process.rdy task)))
    (hholds : ∀ h, pc'.holds = some h → pc.holds = some h)
    (hdrops : ∀ h, pc'.drops = some h → pc.drops = some h)
    (hunwatches : ∀ h, pc.unwatches = some h → pc'.unwatches = some h) :
    process.TaskOk stage task pc' where
  stored event hevent := hok.stored event (hleft.subset hevent)
  nodup := hok.nodup.sublist (hleft.map Prod.fst)
  watched fd hfd := by
    rcases hok.watched fd hfd with hstored | ⟨h, handler, hpc, hheap⟩
    · exact .inl hstored
    · exact .inr ⟨h, handler, hunwatches h hpc, hheap⟩
  holds h hpc := by
    obtain ⟨handler, events, hheap, hstored, hrest⟩ := hok.holds h (hholds h hpc)
    exact ⟨handler, events, hheap, hstored, fun event hevent => hrest event (hleft.subset hevent)⟩
  drops h hpc := by
    obtain ⟨hleaving, handler, hheap, hreactor, hrest⟩ := hok.drops h (hdrops h hpc)
    exact ⟨hleaving, handler, hheap, hreactor,
      fun event hevent => hrest event (hleft.subset hevent)⟩

theorem TaskOk.served {task : ρ} {pc : TaskPc} (hok : before.TaskOk stage task pc)
    (hserved : before.Served after) : after.TaskOk stage task pc := by
  refine hok.frame (fun fd events h hstored => (hserved.entry task fd).trans hstored)
    (congrFun hserved.rdy task) ?_ hserved.places fun _ _ => id
  intro fd hfd hnone
  exact hfd (hserved.unwatched hnone)

/-- An own registration stores what it adds to the interest set. -/
theorem TaskOk.register [DecidableEq ρ] {task : ρ} {pc : TaskPc} {handler : EpollEventHandler ρ}
    (hok : process.TaskOk stage task pc) (hholds : pc.holds = none) (hdrops : pc.drops = none)
    (hunwatches : pc.unwatches = none) (granted : Bool) :
    (process.register granted task h handler).TaskOk stage' task pc := by
  have hkept : ∀ fd, process.Stored task fd →
      (process.register granted task h handler).Stored task fd := by
    rintro fd ⟨events, other, hstored⟩
    by_cases hfd : fd = handler.fd
    · exact ⟨handler.events, h, by rw [entry_register, if_pos ⟨rfl, hfd⟩]⟩
    · exact ⟨events, other, by rw [entry_register, if_neg fun hkey => hfd hkey.2, hstored]⟩
  exact {
    stored := fun event hevent => hkept _ (hok.stored event hevent)
    nodup := hok.nodup
    watched := by
      intro fd hfd
      rw [watched_register] at hfd
      split at hfd
      · next hkey =>
          exact .inl ⟨handler.events, h, by rw [entry_register, if_pos hkey.2]⟩
      · exact .inl (hkept fd (hok.stored_of_watched hunwatches hfd))
    holds := by
      intro other hother
      simp [hholds] at hother
    drops := by
      intro other hother
      simp [hdrops] at hother }

end Process

end ZtHttp
