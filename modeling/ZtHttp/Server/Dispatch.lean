import ZtHttp.Server.Stages

/-!
# What a task dispatches

`remove_handler` erases whatever its home table holds under the handler's
number. As long as that is the handler's own entry, every ready event that a
task has still to dispatch is stored under its number with a handler that is
alive. The number can have passed on to another connection by then, whose entry
is erased in its place.
-/

namespace ZtHttp

open Imperative Transition

namespace Process

variable {ρ : Type} {process before after : Process ρ} {handlers : List HandlerId}
  {pc : ρ → TaskPc} {task : ρ}

theorem Sound.served (hsound : before.Sound handlers pc) (hserved : before.Served after) :
    after.Sound handlers pc := by
  obtain ⟨stage, hstaged, hwaiting, htasks⟩ := hsound
  exact ⟨stage, hstaged.served hserved,
    hwaiting.frame (fun _ _ => id) (Nat.le_of_eq hserved.heapLength.symm),
    fun other => (htasks other).served hserved⟩

theorem Sound.perm {others : List HandlerId} (hsound : process.Sound handlers pc)
    (hperm : others.Perm handlers) : process.Sound others pc := by
  obtain ⟨stage, hstaged, hwaiting, htasks⟩ := hsound
  exact ⟨stage, hstaged, hwaiting.perm hperm, htasks⟩

theorem Sound.sublist {others : List HandlerId} (hsound : process.Sound handlers pc)
    (hsublist : others.Sublist handlers) : process.Sound others pc := by
  obtain ⟨stage, hstaged, hwaiting, htasks⟩ := hsound
  exact ⟨stage, hstaged, hwaiting.sublist hsublist, htasks⟩

theorem Sound.newHandler (hsound : process.Sound handlers pc) (events : UInt32) (fd : Fd)
    (reactor : ρ) (memory : Slots) (rdyEvents : UInt32) :
    (process.newHandler events fd reactor memory rdyEvents).Sound
      (handlers ++ [process.heap.length]) pc := by
  obtain ⟨stage, hstaged, hwaiting, htasks⟩ := hsound
  have hplaces := places_newHandler process events fd reactor memory rdyEvents
  have hlength : (process.newHandler events fd reactor memory rdyEvents).heap.length =
      process.heap.length + 1 := by
    rw [heap_newHandler, List.length_append, List.length_singleton]
  refine ⟨stage, hstaged.frame (fun _ _ _ _ hstored => hstored) hplaces rfl (by omega)
    (hstaged.watchedOpen.newHandler _ _ _ _ _), ⟨?_, ?_, ?_⟩,
    fun other => (htasks other).frame (fun _ _ _ hstored => hstored) rfl (fun _ => id) hplaces
      fun _ _ => id⟩
  · intro h hmem
    rw [List.mem_append, List.mem_singleton] at hmem
    cases hmem with
    | inl hold => exact hwaiting.waiting h hold
    | inr hnew => exact hstaged.fresh h (Nat.le_of_eq hnew.symm)
  · intro h hmem
    rw [List.mem_append, List.mem_singleton] at hmem
    rw [hlength]
    cases hmem with
    | inl hold => exact Nat.lt_succ_of_lt (hwaiting.made h hold)
    | inr hnew => exact hnew ▸ Nat.lt_succ_self _
  · refine List.nodup_append.mpr ⟨hwaiting.nodup, by simp, ?_⟩
    intro h hold other hnew hsame
    have hmade := hwaiting.made h hold
    rw [hsame, List.mem_singleton.mp hnew] at hmade
    exact Nat.lt_irrefl _ hmade

variable [DecidableEq ρ]

/-- What holds of the moved task and of each other one holds of all. -/
theorem forall_goto {property : ρ → TaskPc → Prop} {pc' : TaskPc} (hown : property task pc')
    (hother : ∀ other, other ≠ task → property other (pc other)) (other : ρ) :
    property other (if other = task then pc' else pc other) := by
  split
  · next hsame => rw [hsame]; exact hown
  · next hne => exact hother other hne

/-! ### The steps that keep to one object -/

theorem Sound.goto {pc' : TaskPc} (hsound : process.Sound handlers pc)
    (hleft : (pc'.left (process.rdy task)).Sublist ((pc task).left (process.rdy task)))
    (hholds : ∀ h, pc'.holds = some h → (pc task).holds = some h)
    (hdrops : ∀ h, pc'.drops = some h → (pc task).drops = some h)
    (hunwatches : ∀ h, (pc task).unwatches = some h → pc'.unwatches = some h) :
    process.Sound handlers fun other => if other = task then pc' else pc other := by
  obtain ⟨stage, hstaged, hwaiting, htasks⟩ := hsound
  exact ⟨stage, hstaged, hwaiting, forall_goto
    ((htasks task).goto hleft hholds hdrops hunwatches) fun other _ => htasks other⟩

/-! ### Ready events -/

/-- `select` reports watched descriptors, and what is watched is stored unless
the task itself is about to take it out of the interest set. -/
theorem Sound.setReady {ready : List (Fd × UInt32)} (hsound : process.Sound handlers pc)
    (hpc : pc task = .selecting)
    (hready : ∀ event ∈ ready, process.watched task event.1 ≠ none) :
    (process.setReady task ready).Sound handlers
      fun other => if other = task then .testing else pc other := by
  obtain ⟨stage, hstaged, hwaiting, htasks⟩ := hsound
  have hown := htasks task
  rw [hpc] at hown
  refine ⟨stage, hstaged.frame (fun _ _ _ _ hstored => hstored) (.of_heap rfl) rfl (Nat.le_refl _)
    hstaged.watchedOpen, hwaiting.frame (fun _ _ => id) (Nat.le_refl _),
    forall_goto ?_ ?_⟩
  · exact {
      stored := by
        intro event hevent
        simp only [TaskPc.left, Process.setReady, if_true] at hevent
        cases mem_foldl_insert hevent with
        | inl hreported => exact hown.stored_of_watched rfl (hready event hreported)
        | inr hold => exact hown.stored event hold
      nodup := nodup_keys _
      watched := hown.watched
      holds := by simp [TaskPc.holds]
      drops := by simp [TaskPc.drops] }
  · intro other hne
    exact (htasks other).frame (fun _ _ _ hstored => hstored)
      (by simp only [Process.setReady, if_neg hne]) (fun _ => id) (.of_heap rfl) fun _ _ => id

theorem Sound.clearReady (hsound : process.Sound handlers pc) (hpc : pc task = .dispatching []) :
    (process.clearReady task).Sound handlers
      fun other => if other = task then .selecting else pc other := by
  obtain ⟨stage, hstaged, hwaiting, htasks⟩ := hsound
  have hown := htasks task
  rw [hpc] at hown
  have hempty : TaskPc.selecting.left ((process.clearReady task).rdy task) = [] := by
    simp [TaskPc.left, Process.clearReady]
  refine ⟨stage, hstaged.frame (fun _ _ _ _ hstored => hstored) (.of_heap rfl) rfl (Nat.le_refl _)
    hstaged.watchedOpen, hwaiting.frame (fun _ _ => id) (Nat.le_refl _),
    forall_goto ?_ ?_⟩
  · exact {
      stored := by simp [hempty]
      nodup := by simp [hempty]
      watched := hown.watched
      holds := by simp [TaskPc.holds]
      drops := by simp [TaskPc.drops] }
  · intro other hne
    exact (htasks other).frame (fun _ _ _ hstored => hstored)
      (by simp only [Process.clearReady, if_neg hne]) (fun _ => id) (.of_heap rfl) fun _ _ => id

/-- The lookup takes a stored handler in hand. -/
theorem Sound.dispatched {fd : Fd} {mask events : UInt32} {rest : List (Fd × UInt32)}
    {h : HandlerId} (hsound : process.Sound handlers pc)
    (hpc : pc task = .dispatching ((fd, mask) :: rest))
    (hentry : process.entry task fd = some (events, some h)) :
    process.Sound handlers
      fun other => if other = task then .serving h mask rest else pc other := by
  obtain ⟨stage, hstaged, hwaiting, htasks⟩ := hsound
  have hown := htasks task
  rw [hpc] at hown
  obtain ⟨hfresh, hnodup⟩ := List.nodup_cons.mp hown.nodup
  obtain ⟨-, handler, hheap, hfd⟩ := hstaged.stored task fd events h hentry
  refine ⟨stage, hstaged, hwaiting, forall_goto ?_ fun other _ => htasks other⟩
  exact {
    stored := fun event hevent => hown.stored event (List.mem_cons_of_mem _ hevent)
    nodup := hnodup
    watched := hown.watched
    holds := by
      intro other hother
      cases hother
      refine ⟨handler, events, hheap, hfd ▸ hentry, fun event hevent hsame => hfresh ?_⟩
      rw [← hfd, ← hsame]
      exact List.mem_map.mpr ⟨event, hevent, rfl⟩
    drops := by simp [TaskPc.drops] }

/-! ### Registration -/

theorem Sound.register {h : HandlerId} {handler : EpollEventHandler ρ}
    (hsound : process.Sound (h :: handlers) pc) (hpc : pc task = .registering)
    (hhandler : process.handler? h = some handler) (granted : Bool) :
    (process.register granted task h handler).Sound handlers pc := by
  obtain ⟨stage, hstaged, hwaiting, htasks⟩ := hsound
  obtain ⟨hlive, hheap⟩ := handler?_eq_some.mp hhandler
  have hwaits : stage h = .waiting := hwaiting.waiting h List.mem_cons_self
  have hmoved : process.Staged (Function.update stage h (.tabled task)) :=
    hstaged.update (hwaiting.made h List.mem_cons_self)
      (hstaged.not_stored (by simp [hwaits])) hlive _
  have hrest := (hwaiting.sublist (List.sublist_cons_self _ _)).update
    (List.nodup_cons.mp hwaiting.nodup).1 (.tabled task)
  refine ⟨Function.update stage h (.tabled task),
    hmoved.register (Function.update_self _ _ _) hheap granted,
    hrest.frame (fun _ _ => id) (Nat.le_refl _), ?_⟩
  intro other
  by_cases hsame : other = task
  · subst hsame
    have hown := htasks other
    rw [hpc] at hown ⊢
    exact hown.register rfl rfl rfl granted
  · refine (htasks other).frame ?_ rfl ?_ (.of_heap rfl) ?_
    · intro fd events found hstored
      rwa [entry_register, if_neg fun hkey => hsame hkey.1]
    · intro fd hfd
      rwa [watched_register, if_neg fun hkey => hsame hkey.2.1] at hfd
    · intro found _ hleaving
      exact stage_update (by simp [hwaits]) hleaving _

/-- The loop of `registerEvents` stores the handlers it takes. -/
theorem Sound.registerAll {taken : List HandlerId} (hsound : before.Sound (taken ++ handlers) pc)
    (hpc : pc task = .registering) {granted : Bool}
    (hcall : Process.registerAll granted task taken before = .ok () after) :
    after.Sound handlers pc :=
  registerAll_preserves (fun rest process => process.Sound (rest ++ handlers) pc)
    (fun _ _ _ _ hrest hhandler => hrest.register hpc hhandler granted) hsound hcall

/-! ### Removal -/

section

variable {h : HandlerId} {rest : List (Fd × UInt32)} {handler : EpollEventHandler ρ}

/-- The handler in hand is erased from its own task's table. -/
theorem Sound.erase {events : UInt32} (hsound : process.Sound handlers pc)
    (hpc : pc task = .removing .erase h rest) (hheap : process.heap[h]? = some handler)
    (hown : process.entry handler.reactor handler.fd = some (events, some h)) :
    (process.eraseEntry handler.reactor handler.fd).Sound handlers
      fun other => if other = task then .removing .touch h rest else pc other := by
  obtain ⟨stage, hstaged, hwaiting, htasks⟩ := hsound
  have htask := htasks task
  rw [hpc] at htask
  obtain ⟨found, mask, hfound, hstored, hrest⟩ := htask.holds h rfl
  cases hheap.symm.trans hfound
  have htabled := (hstaged.stored _ _ _ _ hown).1
  -- the task found the handler in its own table, so the home table is its own
  have hhome : handler.reactor = task :=
    Stage.tabled.inj (htabled.symm.trans (hstaged.stored _ _ _ _ hstored).1)
  rw [hhome] at hown htabled ⊢
  have hentry : ∀ fd, fd ≠ handler.fd →
      (process.eraseEntry task handler.fd).entry task fd = process.entry task fd :=
    fun fd hne => by rw [entry_eraseEntry, if_neg fun hkey => hne hkey.2]
  have hqueue := hwaiting.update (hwaiting.not_mem (h := h) (by simp [htabled])) (.leaving task)
  refine ⟨_, hstaged.eraseEntry hown, hqueue.frame (fun _ _ => id) (Nat.le_refl _),
    forall_goto ?_ ?_⟩
  · exact {
      stored := by
        intro event hevent
        obtain ⟨mask, other, hother⟩ := htask.stored event hevent
        exact ⟨mask, other, (hentry event.1 (hrest event hevent)).trans hother⟩
      nodup := htask.nodup
      watched := by
        intro fd hfd
        by_cases hsame : fd = handler.fd
        · exact .inr ⟨h, handler, rfl, hheap, hsame.symm⟩
        · obtain ⟨mask, other, hother⟩ := htask.stored_of_watched rfl hfd
          exact .inl ⟨mask, other, (hentry fd hsame).trans hother⟩
      holds := by simp [TaskPc.holds]
      drops := by
        intro other hother
        cases hother
        exact ⟨Function.update_self _ _ _, handler, hheap, hhome, hrest⟩ }
  · intro other hne
    refine (htasks other).frame ?_ rfl (fun _ => id) (.of_heap rfl) ?_
    · intro fd mask found hfound
      rwa [entry_eraseEntry, if_neg fun hkey => hne hkey.1]
    · intro found _ hleaving
      exact stage_update (by simp [htabled]) hleaving _

theorem Sound.touch (hsound : process.Sound handlers pc) (hpc : pc task = .removing .touch h rest)
    (r : ρ) (fd : Fd) (events : UInt32) :
    (process.touchEntry r fd).Sound handlers
      fun other => if other = task then .removing (.ctl events) h rest else pc other := by
  obtain ⟨stage, hstaged, hwaiting, htasks⟩ := hsound
  have htouched : (process.touchEntry r fd).Sound handlers pc := by
    refine ⟨stage, hstaged.touchEntry r fd, hwaiting.frame (fun _ _ => id) ?_, fun other =>
      (htasks other).frame ?_ ?_ ?_ (.of_heap (heap_touchEntry _ _ _)) fun _ _ => id⟩
    · exact Nat.le_of_eq (congrArg List.length (heap_touchEntry process r fd)).symm
    · intro key mask found hfound
      rw [entry_touchEntry]
      split
      · next hkey => rw [← hkey.1, ← hkey.2, hfound, Option.getD_some]
      · exact hfound
    · rw [rdy_touchEntry]
    · intro key hkey
      rwa [watched_touchEntry] at hkey
  apply htouched.goto
  · rw [hpc]
    exact List.Sublist.refl _
  · simp [TaskPc.holds]
  · simp [hpc, TaskPc.drops]
  · simp [hpc, TaskPc.unwatches]

/-- After the `DEL` the descriptor is not watched, whether it was still open or
closed before. -/
theorem Sound.unwatch {events mask : UInt32} (hsound : process.Sound handlers pc)
    (hpc : pc task = .removing (.ctl events) h rest) (hheap : process.heap[h]? = some handler) :
    (process.epollCtl true handler.reactor .del handler.fd mask).Sound handlers
      fun other => if other = task then .removing .delete h rest else pc other := by
  obtain ⟨stage, hstaged, hwaiting, htasks⟩ := hsound
  have htask := htasks task
  rw [hpc] at htask
  obtain ⟨-, found, hfound, hhome, -⟩ := htask.drops h rfl
  cases hheap.symm.trans hfound
  have hless : ∀ other fd,
      (process.epollCtl true handler.reactor .del handler.fd mask).watched other fd ≠ none →
      process.watched other fd ≠ none := by
    intro other fd hfd
    rw [watched_epollCtl] at hfd
    split at hfd
    · exact absurd rfl hfd
    · exact hfd
  refine ⟨stage, hstaged.epollCtl _ _ _ _ _, hwaiting.frame (fun _ _ => id) (Nat.le_refl _),
    forall_goto ⟨htask.stored, htask.nodup, ?_, htask.holds, htask.drops⟩
      fun other _ => (htasks other).frame (fun _ _ _ hstored => hstored) rfl (hless other)
        (.of_heap rfl) fun _ _ => id⟩
  intro fd hfd
  rcases htask.watched fd (hless task fd hfd) with hstored | ⟨other, found, hother, hfound, hsame⟩
  · exact .inl hstored
  · cases hother
    cases hheap.symm.trans hfound
    have hgone := hstaged.watchedOpen.unwatched_del handler.reactor handler.fd mask
    rw [hhome, hsame] at hgone
    rw [hhome, hsame] at hfd
    exact absurd hgone hfd

theorem Sound.delete (hsound : process.Sound handlers pc)
    (hpc : pc task = .removing .delete h rest) (hheap : process.heap[h]? = some handler) :
    (process.delete h).Sound handlers
      fun other => if other = task then .dispatching rest else pc other := by
  obtain ⟨stage, hstaged, hwaiting, htasks⟩ := hsound
  have htask := htasks task
  rw [hpc] at htask
  have hleaving := (htask.drops h rfl).1
  have hgone : process.Staged (Function.update stage h .gone) :=
    hstaged.update (List.getElem?_eq_some_iff.mp hheap).1 (hstaged.not_stored (by simp [hleaving]))
      (hstaged.not_deleted (by simp [hleaving])) _
  have hqueue := hwaiting.update (hwaiting.not_mem (h := h) (by simp [hleaving])) .gone
  refine ⟨_, hgone.delete (Function.update_self _ _ _),
    hqueue.frame (fun _ _ => id) (Nat.le_refl _), forall_goto ?_ ?_⟩
  · exact ⟨htask.stored, htask.nodup, fun fd hfd => .inl (htask.stored_of_watched rfl hfd),
      by simp [TaskPc.holds], by simp [TaskPc.drops]⟩
  · intro other hne
    -- no other task is taking this handler out
    have hmine : stage h ≠ .leaving other := by
      intro hsame
      exact hne (Stage.leaving.inj (hleaving.symm.trans hsame)).symm
    exact (htasks other).frame (fun _ _ _ hstored => hstored) rfl (fun _ => id) (.of_heap rfl)
      fun found _ hfound => stage_update hmine hfound _

end

end Process

/-- The handler that the accept loop has not handed over yet. -/
def AcceptorPc.held : AcceptorPc → List HandlerId
  | .enqueueing h => [h]
  | .accepting | .signalling => []

/-- The handler whose home entry `remove_handler` is about to erase. -/
def TaskPc.erases : TaskPc → Option HandlerId
  | .removing .erase h _ => some h
  | _ => none

namespace Server

variable {count : Nat} {server after : Server count} {task : Fin count}

/-- `_fds.erase` finds the entry of the very handler that is being removed. -/
def ErasesOwn (server : Server count) : Action count → Prop
  | .remove task =>
      ∀ h ∈ (server.task task).erases, ∀ handler ∈ server.process.heap[h]?,
        (server.process.entry handler.reactor handler.fd).map Prod.snd = some (some h)
  | _ => True

/-- Each task's next ready event is stored with a handler that is not deleted. -/
def DispatchesLive (server : Server count) : Prop :=
  ∀ task fd mask rest, server.task task = .dispatching ((fd, mask) :: rest) →
    ∃ events h handler, server.process.entry task fd = some (events, some h) ∧
      server.process.handler? h = some handler

/-- The stages fit the server. -/
def Sound (server : Server count) : Prop :=
  server.process.Sound (server.handoff.waitQueue ++ server.acceptor.held) server.task

theorem Sound.dispatchesLive (hsound : server.Sound) : server.DispatchesLive := by
  obtain ⟨stage, hstaged, -, htasks⟩ := hsound
  intro task fd mask rest hpc
  have htask := htasks task
  rw [hpc] at htask
  obtain ⟨events, h, hentry⟩ := htask.stored (fd, mask) List.mem_cons_self
  obtain ⟨handler, hhandler, -⟩ := hstaged.live hentry
  exact ⟨events, h, handler, hentry, hhandler⟩

/-- One stage of `remove_handler`. -/
theorem Sound.remove {stage : RemoveStage} {h : HandlerId} {rest : List (Fd × UInt32)}
    {handler : EpollEventHandler (Fin count)} (hsound : server.Sound)
    (hpc : server.task task = .removing stage h rest)
    (hhandler : server.process.handler? h = some handler)
    (hown : server.ErasesOwn (.remove task)) :
    (server.remove task handler h rest stage).Sound := by
  have hheap := (Process.handler?_eq_some.mp hhandler).2
  -- the task gives the handler up, or goes on to a stage with the same one in hand
  have hgoto : ∀ pc', pc' = .dispatching rest ∨ pc' = .removing .find h rest ∨
      pc' = .removing .erase h rest → (server.task task).holds = some h →
      (server.task task).unwatches = none → (server.goto task pc').Sound := by
    intro pc' hpc' hholds hunwatches
    refine Process.Sound.goto hsound ?_ ?_ ?_ (by simp [hunwatches])
    · rw [hpc]
      rcases hpc' with rfl | rfl | rfl <;> exact List.Sublist.refl _
    · rw [hholds]
      rcases hpc' with rfl | rfl | rfl <;> simp [TaskPc.holds]
    · rcases hpc' with rfl | rfl | rfl <;> simp [TaskPc.drops]
  cases stage with
  | testFlag =>
      refine hgoto _ ?_ (by rw [hpc]; rfl) (by rw [hpc]; rfl)
      split
      · exact .inl rfl
      · exact .inr (.inl rfl)
  | find =>
      refine hgoto _ ?_ (by rw [hpc]; rfl) (by rw [hpc]; rfl)
      split
      · exact .inl rfl
      · exact .inr (.inr rfl)
  | erase =>
      have hentry := hown h (by rw [hpc]; rfl) handler hheap
      obtain ⟨⟨events, _⟩, hentry, rfl⟩ := Option.map_eq_some_iff.mp hentry
      exact Process.Sound.erase hsound hpc hheap hentry
  | touch => exact Process.Sound.touch hsound hpc _ _ _
  | ctl events => exact Process.Sound.unwatch hsound hpc hheap
  | delete => exact Process.Sound.delete hsound hpc hheap

/-- A task with no handler in hand goes on with the same ready events. -/
theorem Sound.turn {pc' : TaskPc} (hsound : server.Sound) (hholds : pc'.holds = none)
    (hdrops : pc'.drops = none) (hunwatches : (server.task task).unwatches = none)
    (hleft : pc'.left (server.process.rdy task) =
      (server.task task).left (server.process.rdy task)) : (server.goto task pc').Sound := by
  apply Process.Sound.goto hsound
  · exact hleft ▸ List.Sublist.refl _
  · simp [hholds]
  · simp [hdrops]
  · simp [hunwatches]

/-- A task that turns to its ready events. -/
theorem Sound.handleEvents (hsound : server.Sound)
    (hpc : server.task task = .testing ∨ server.task task = .registering) :
    (server.handleEvents task).Sound := by
  rcases hpc with hpc | hpc
  · exact hsound.turn rfl rfl (by rw [hpc]; rfl) (by rw [hpc]; rfl)
  · exact hsound.turn rfl rfl (by rw [hpc]; rfl) (by rw [hpc]; rfl)

theorem Sound.testFlag (hsound : server.Sound) (hpc : server.task task = .testing) :
    (server.testFlag task).Sound := by
  unfold Server.testFlag
  split
  · exact hsound.handleEvents (.inl hpc)
  · exact hsound.turn rfl rfl (by rw [hpc]; rfl) (by rw [hpc]; rfl)

theorem Sound.drain {process : Process (Fin count)} (hsound : server.Sound)
    (hpc : server.task task = .registering)
    (hcall : Process.registerAll true task server.handoff.taken server.process = .ok () process) :
    ({ server with process, handoff := server.handoff.drain }.handleEvents task).Sound := by
  have htaken : server.process.Sound (server.handoff.taken ++ server.acceptor.held) server.task :=
    Process.Sound.perm hsound ((List.reverse_perm _).append_right _)
  have hdrained : { server with process, handoff := server.handoff.drain }.Sound :=
    htaken.registerAll hpc hcall
  exact hdrained.handleEvents (.inr hpc)

/-- A task that has served or closed the handler in its hand. -/
theorem Sound.serve {h : HandlerId} {rest : List (Fd × UInt32)} {process : Process (Fin count)}
    {pc' : TaskPc} (hsound : server.Sound) (hserved : server.process.Served process)
    (hleft : ∀ rdy, (server.task task).left rdy = rest)
    (hholds : (server.task task).holds = some h) (hunwatches : (server.task task).unwatches = none)
    (hpc' : pc' = .closing h rest ∨ pc' = .removing .testFlag h rest) :
    ({ server with process }.goto task pc').Sound := by
  refine (Process.Sound.served hsound hserved).goto ?_ ?_ ?_ (by simp [hunwatches])
  · rw [hleft]
    rcases hpc' with rfl | rfl <;> exact List.Sublist.refl _
  · rw [hholds]
    rcases hpc' with rfl | rfl <;> simp [TaskPc.holds]
  · rcases hpc' with rfl | rfl <;> simp [TaskPc.drops]

variable [NeZero count]

theorem sound_step {action : Action count} (hsound : server.Sound)
    (hown : server.ErasesOwn action) (hstep : Step server action after) : after.Sound := by
  cases hstep with
  | refused => exact hsound
  | accepted hacceptor hclosed =>
      have hqueue : server.handoff.waitQueue ++ server.acceptor.held =
          server.handoff.waitQueue := by
        rw [hacceptor, AcceptorPc.held, List.append_nil]
      rw [Sound, hqueue] at hsound
      exact hsound.newHandler _ _ _ _ _
  | discarded hacceptor hfull =>
      exact Process.Sound.sublist hsound (List.sublist_append_left _ _ |>.append_left _)
  | @enqueued h hacceptor hroom =>
      have hqueue : server.handoff.waitQueue ++ server.acceptor.held =
          (server.handoff.enqueue h).waitQueue ++ AcceptorPc.signalling.held := by
        rw [Handoff.enqueue_waitQueue hroom, hacceptor, AcceptorPc.held, AcceptorPc.held,
          List.append_nil]
      rw [Sound, hqueue] at hsound
      exact hsound
  | killed hacceptor hkill =>
      rw [Sound, hacceptor] at hsound
      rw [Sound, (Handoff.sameQueue_kill hkill).waitQueue]
      exact hsound
  | waited hsigwait =>
      rw [Sound, (Handoff.sameQueue_sigwait hsigwait).waitQueue]
      exact hsound
  | incremented hincrement =>
      rw [Sound, (Handoff.sameQueue_increment hincrement).waitQueue]
      exact hsound
  | selected hpc hready => exact Process.Sound.setReady hsound hpc hready
  | tested hpc => exact hsound.testFlag hpc
  | drained hpc hregister => exact hsound.drain hpc hregister
  | finished hpc => exact Process.Sound.clearReady hsound hpc
  | dispatched hpc hentry => exact Process.Sound.dispatched hsound hpc hentry
  | served hpc hserved hafter =>
      exact hsound.serve hserved (fun _ => by rw [hpc]; rfl) (by rw [hpc]; rfl) (by rw [hpc]; rfl)
        hafter
  | closed hpc hserved =>
      exact hsound.serve hserved (fun _ => by rw [hpc]; rfl) (by rw [hpc]; rfl) (by rw [hpc]; rfl)
        (.inr rfl)
  | removed hpc hhandler => exact hsound.remove hpc hhandler hown

theorem sound_initial : (initial : Server count).Sound := by
  refine ⟨fun _ => .waiting, ?_, ?_, fun task => ?_⟩
  · exact {
      stored := by simp [initial, Process.initial, Process.entry]
      deleted := by simp [initial, Process.initial]
      fresh := fun _ _ => rfl
      watchedOpen := by
        intro r fd events hwatched
        simp [initial, Process.initial, Process.watched] at hwatched }
  · exact {
      waiting := fun _ _ => rfl
      made := by simp [initial, Handoff.initial, AcceptorPc.held]
      nodup := by simp [initial, Handoff.initial, AcceptorPc.held] }
  · exact {
      stored := by simp [initial, Process.initial, TaskPc.left]
      nodup := Process.nodup_keys _
      watched := by
        intro fd hwatched
        simp [initial, Process.initial, Process.watched] at hwatched
      holds := by simp [initial, TaskPc.holds]
      drops := by simp [initial, TaskPc.drops] }

/-- As long as `remove_handler` erases no other handler's entry, every task
dispatches only stored handlers that are alive, whatever the order of the
steps. -/
theorem dispatches_live
    (hreach : ((system count).restrict ErasesOwn).Reachable server) : server.DispatchesLive := by
  refine (hreach.invariant Sound ?_ ?_).dispatchesLive
  · rintro start rfl
    exact sound_initial
  · rintro first action last hsound ⟨hown, hnext⟩
    exact sound_step hsound hown (step_of_next hnext)

instance (server : Server count) : (action : Action count) → Decidable (server.ErasesOwn action)
  | .remove task =>
      inferInstanceAs (Decidable (∀ h ∈ (server.task task).erases,
        ∀ handler ∈ server.process.heap[h]?,
          (server.process.entry handler.reactor handler.fd).map Prod.snd = some (some h)))
  | .accept _ | .enqueue | .kill | .sigwait | .increment | .select _ _ | .testFlag _ | .drain _
  | .dispatch _ | .serve _ _ | .close _ => isTrue trivial

/-- A connection on `fd` that the task stores in its own table. -/
def connect (fd : Fd) (task : Fin 2) : List (Action 2) :=
  [.accept (some (fd, ⟨none, none, none⟩, 0)), .enqueue, .kill, .sigwait, .increment,
    .select task [], .testFlag task, .drain task, .dispatch task]

/-- The peer hangs up, and the task serves and closes the handler. -/
def hangUp (fd : Fd) (task : Fin 2) : List (Action 2) :=
  [.select task [(fd, epollRdHup)], .testFlag task, .dispatch task,
    .serve task ⟨.error, .upTo 0, .blank⟩, .close task]

/-- A handler is removed from its home table, and the next one becomes ready in
the other task. -/
theorem ownRemoval_live : ∃ server : Server 2, server.DispatchesLive ∧
    server.process.deleted = [0] ∧ server.task 0 = .dispatching [(5, epollOut)] := by
  obtain ⟨server, hreach, hend⟩ := Lts.exists_restricted_of_exec (initial : Server 2) next ErasesOwn
    (fun server => server.process.deleted = [0] ∧ server.task 0 = .dispatching [(5, epollOut)])
    (connect 5 1 ++ hangUp 5 1 ++ List.replicate 6 (.remove 1) ++ connect 5 0 ++
      [.select 0 [(5, epollOut)], .testFlag 0]) (by decide +kernel)
  exact ⟨server, dispatches_live hreach, hend⟩

/-- Task 0 has stored a handler of reactor 1 and has closed its descriptor. The
number is given to a connection that is stored and ready in task 1, and task 0
erases that entry in the name of its own handler. -/
theorem reusedNumber_lost : ∃ server : Server 2, (system 2).Reachable server ∧
    server.task 1 = .dispatching [(5, epollOut)] ∧ server.process.entry 1 5 = none :=
  Lts.exists_reachable_of_exec (initial : Server 2) next
    (fun server => server.task 1 = .dispatching [(5, epollOut)] ∧
      server.process.entry 1 5 = none)
    (connect 5 0 ++ hangUp 5 0 ++ [.accept none] ++ connect 5 1 ++
      [.select 1 [(5, epollOut)], .testFlag 1] ++ List.replicate 3 (.remove 0)) (by decide +kernel)

end Server

end ZtHttp
