import ZtHttp.Event.Transcript
import ZtHttp.Server.Descriptors

/-!
# What the server does for one connection

A handler is registered by one task, and by no other is it worked on. What that
task serves is never readable. So whatever the order of the steps and of the
signals, a connection is answered once with the page of `unimplemented`, or not at
all, and nothing that a client sends is read. The shutdown closes what is still
registered by its descriptor, which no socket records.
-/

namespace ZtHttp

open Imperative Transition

/-- Without its ready events a task has only those that it took along. -/
theorem TaskPc.mem_left_of_empty {pc : TaskPc} {rdy : FdMap UInt32} {event : Fd × UInt32}
    (hevent : event ∈ pc.left ∅) : event ∈ pc.left rdy := by
  cases pc with
  | selecting | testing | registering =>
      have hmem := Std.ExtTreeMap.mem_toList_iff_getElem?_eq_some.mp hevent
      simp at hmem
  | dispatching | serving | closing | removing => exact hevent

namespace Server

variable {count : Nat} {server after : Server count} {action : Action count}

/-! ### Who works on a handler -/

/-- The handlers that are not registered yet. -/
def queued (server : Server count) : List HandlerId :=
  server.handoff.waitQueue ++ server.acceptor.held

/-- The task that registered each handler stores it and works on it, and no other
task does. -/
structure Housed (home : HandlerId → Option (Fin count)) (process : Process (Fin count))
    (handlers : List HandlerId) (pc : Fin count → TaskPc) : Prop where
  waiting : ∀ h ∈ handlers, home h = none
  made : ∀ h ∈ handlers, h < process.heap.length
  nodup : handlers.Nodup
  fresh : ∀ h, process.heap.length ≤ h → home h = none
  stored : ∀ r fd events h, process.entry r fd = some (events, some h) → home h = some r
  hand : ∀ task h, (pc task).hand = some h → home h = some task

section

variable {home : HandlerId → Option (Fin count)} {process last : Process (Fin count)}
  {handlers others : List HandlerId} {pc : Fin count → TaskPc} {task : Fin count}

theorem Housed.perm (hhoused : Housed home process handlers pc) (hperm : others.Perm handlers) :
    Housed home process others pc :=
  { hhoused with
    waiting := fun h hmem => hhoused.waiting h (hperm.mem_iff.mp hmem)
    made := fun h hmem => hhoused.made h (hperm.mem_iff.mp hmem)
    nodup := hperm.nodup_iff.mpr hhoused.nodup }

theorem Housed.sublist (hhoused : Housed home process handlers pc)
    (hsublist : others.Sublist handlers) : Housed home process others pc :=
  { hhoused with
    waiting := fun h hmem => hhoused.waiting h (hsublist.subset hmem)
    made := fun h hmem => hhoused.made h (hsublist.subset hmem)
    nodup := hhoused.nodup.sublist hsublist }

/-- A step that makes and stores no handler. -/
theorem Housed.frame (hhoused : Housed home process handlers pc)
    (hlength : last.heap.length = process.heap.length)
    (hentry : ∀ r fd events h, last.entry r fd = some (events, some h) →
      process.entry r fd = some (events, some h)) : Housed home last handlers pc where
  waiting := hhoused.waiting
  made := hlength ▸ hhoused.made
  nodup := hhoused.nodup
  fresh := hlength ▸ hhoused.fresh
  stored r fd events h hstored := hhoused.stored r fd events h (hentry r fd events h hstored)
  hand := hhoused.hand

theorem Housed.goto {next : TaskPc} (hhoused : Housed home process handlers pc)
    (hhand : ∀ h, next.hand = some h → home h = some task) :
    Housed home process handlers fun other => if other = task then next else pc other :=
  { hhoused with
    hand := by
      intro other h hother
      split at hother
      · next hsame =>
          rw [hsame]
          exact hhand h hother
      · exact hhoused.hand other h hother }

theorem Housed.newHandler (hhoused : Housed home process handlers pc) (events : UInt32) (fd : Fd)
    (reactor : Fin count) (memory : Slots) (rdyEvents : UInt32) :
    Housed home (process.newHandler events fd reactor memory rdyEvents)
      (handlers ++ [process.heap.length]) pc := by
  have hlength : (process.newHandler events fd reactor memory rdyEvents).heap.length =
      process.heap.length + 1 := by
    rw [Process.heap_newHandler, List.length_append, List.length_singleton]
  refine ⟨?_, ?_, ?_, ?_, hhoused.stored, hhoused.hand⟩
  · intro h hmem
    rcases List.mem_append.mp hmem with hmem | hmem
    · exact hhoused.waiting h hmem
    · exact hhoused.fresh h (Nat.le_of_eq (List.mem_singleton.mp hmem).symm)
  · intro h hmem
    rw [hlength]
    rcases List.mem_append.mp hmem with hmem | hmem
    · exact Nat.lt_succ_of_lt (hhoused.made h hmem)
    · rw [List.mem_singleton.mp hmem]
      exact Nat.lt_succ_self _
  · refine List.nodup_append.mpr ⟨hhoused.nodup, List.nodup_singleton _, ?_⟩
    intro h hmem other hother
    rw [List.mem_singleton.mp hother]
    exact Nat.ne_of_lt (hhoused.made h hmem)
  · intro h hle
    rw [hlength] at hle
    exact hhoused.fresh h (Nat.le_of_succ_le hle)

/-- A waiting handler comes into the table of the task that registers. -/
theorem Housed.register {h : HandlerId} {handler : EpollEventHandler (Fin count)}
    (hhoused : Housed home process (h :: handlers) pc) (granted : Bool) :
    Housed (Function.update home h (some task)) (process.register granted task h handler) handlers
      pc := by
  obtain ⟨hfresh, hnodup⟩ := List.nodup_cons.mp hhoused.nodup
  have hwaits : home h = none := hhoused.waiting h List.mem_cons_self
  have hhome : ∀ other r, home other = some r →
      Function.update home h (some task) other = some r := by
    intro other r hother
    have hne : other ≠ h := by
      rintro rfl
      rw [hwaits] at hother
      contradiction
    rw [Function.update_of_ne hne, hother]
  refine ⟨?_, ?_, hnodup, ?_, ?_, ?_⟩
  · intro other hmem
    have hne : other ≠ h := fun hsame => hfresh (hsame ▸ hmem)
    rw [Function.update_of_ne hne]
    exact hhoused.waiting other (List.mem_cons_of_mem _ hmem)
  · exact fun other hmem => hhoused.made other (List.mem_cons_of_mem _ hmem)
  · intro other hle
    rw [Process.heap_register] at hle
    have hmade := hhoused.made h List.mem_cons_self
    rw [Function.update_of_ne (Ne.symm (Nat.ne_of_lt (Nat.lt_of_lt_of_le hmade hle)))]
    exact hhoused.fresh other hle
  · intro r fd events other hstored
    rw [Process.entry_register] at hstored
    split at hstored
    · next hkey =>
        cases hstored
        rw [Function.update_self, hkey.1]
    · exact hhome other r (hhoused.stored r fd events other hstored)
  · exact fun other found hfound => hhome found other (hhoused.hand other found hfound)

theorem Housed.registerAll {taken : List HandlerId}
    (hhoused : Housed home process (taken ++ handlers) pc) {granted : Bool}
    (hcall : Process.registerAll granted task taken process = .ok () last) :
    ∃ home', Housed home' last handlers pc := by
  refine Process.registerAll_preserves
    (fun rest process => ∃ home', Housed home' process (rest ++ handlers) pc) ?_
    ⟨home, hhoused⟩ hcall
  rintro h rest process handler ⟨home', hrest⟩ -
  exact ⟨_, hrest.register granted⟩

end

/-- Each handler has a home, once it is registered. -/
def Homes (server : Server count) : Prop :=
  ∃ home, Housed home server.process server.queued server.task

theorem homes_step [NeZero count] (hhomes : server.Homes) (hstep : Step server action after) :
    after.Homes := by
  obtain ⟨home, hhoused⟩ := hhomes
  cases hstep with
  | refused => exact ⟨home, hhoused⟩
  | accepted hacceptor hclosed =>
      rw [queued, hacceptor, AcceptorPc.held, List.append_nil] at hhoused
      exact ⟨home, hhoused.newHandler _ _ _ _ _⟩
  | discarded hacceptor hfull =>
      exact ⟨home, hhoused.sublist ((List.nil_sublist _).append_left _)⟩
  | enqueued hacceptor hroom =>
      rw [queued, hacceptor] at hhoused
      rw [Homes, queued, Handoff.enqueue_waitQueue hroom, AcceptorPc.held, List.append_nil]
      exact ⟨home, hhoused⟩
  | killed hacceptor hkill =>
      rw [queued, hacceptor] at hhoused
      rw [Homes, queued, (Handoff.sameQueue_kill hkill).waitQueue]
      exact ⟨home, hhoused⟩
  | waited hsigwait =>
      rw [Homes, queued, (Handoff.sameQueue_sigwait hsigwait).waitQueue]
      exact ⟨home, hhoused⟩
  | incremented hincrement =>
      rw [Homes, queued, (Handoff.sameQueue_increment hincrement).waitQueue]
      exact ⟨home, hhoused⟩
  | selected =>
      refine ⟨home, (hhoused.goto ?_).frame rfl fun _ _ _ _ => id⟩
      simp [TaskPc.hand]
  | tested hpc =>
      refine ⟨home, ?_⟩
      rw [testFlag]
      split <;> exact hhoused.goto (by simp [TaskPc.hand])
  | drained hpc hregister =>
      obtain ⟨home', hdrained⟩ :=
        (hhoused.perm ((List.reverse_perm _).append_right _)).registerAll hregister
      exact ⟨home', hdrained.goto (by simp [TaskPc.hand])⟩
  | finished =>
      refine ⟨home, (hhoused.goto ?_).frame rfl fun _ _ _ _ => id⟩
      simp [TaskPc.hand]
  | @dispatched task fd mask events rest h hpc hentry =>
      refine ⟨home, hhoused.goto ?_⟩
      rintro found ⟨⟩
      exact hhoused.stored task fd events h hentry
  | @served task outside h mask rest process pc hpc hserved hafter =>
      refine ⟨home, (hhoused.goto ?_).frame hserved.heapLength
        fun r fd events other hstored => hserved.entry r fd ▸ hstored⟩
      intro found hfound
      apply hhoused.hand
      rcases hafter with rfl | rfl <;> rwa [hpc]
  | @closed task h rest process hpc hserved =>
      refine ⟨home, (hhoused.goto ?_).frame hserved.heapLength
        fun r fd events other hstored => hserved.entry r fd ▸ hstored⟩
      intro found hfound
      apply hhoused.hand
      rwa [hpc]
  | @removed task stage h rest handler hpc hhandler =>
      obtain ⟨next, hnext, htask⟩ := @task_remove _ server task h rest handler stage
      rw [Homes, queued, handoff_remove, acceptor_remove, htask]
      refine ⟨home, (hhoused.goto ?_).frame (congrArg List.length (heap_remove handler stage))
        fun _ _ _ _ => stored_of_remove handler stage⟩
      intro found hfound
      apply hhoused.hand
      rcases hnext with rfl | ⟨stage', rfl⟩
      · contradiction
      · rwa [hpc]

/-! ### What is reported -/

/-- Connections are watched as the accept loop says, and a task has been reported
nothing else. -/
structure Masked (process : Process (Fin count)) (pc : Fin count → TaskPc) : Prop where
  heap : ∀ (h : HandlerId) (handler : EpollEventHandler (Fin count)),
    process.heap[h]? = some handler → handler.events = epollOut ||| epollRdHup
  watched : ∀ r fd events, process.watched r fd = some events → events = epollOut ||| epollRdHup
  ready : ∀ task, ∀ event ∈ (pc task).left (process.rdy task), event.2 &&& ~~~epollReported = 0
  serving : ∀ task h mask rest, pc task = .serving h mask rest → mask &&& ~~~epollReported = 0

section

variable {process last : Process (Fin count)} {pc : Fin count → TaskPc} {task : Fin count}

/-- A step that moves a handler no further than its place and watches nothing. -/
theorem Masked.frame (hmasked : Masked process pc) (hplaces : process.Places last)
    (hlength : last.heap.length = process.heap.length)
    (hwatched : ∀ r fd events, last.watched r fd = some events →
      process.watched r fd = some events) (hrdy : last.rdy = process.rdy) : Masked last pc where
  heap h handler hheap := by
    have hless : h < process.heap.length := hlength ▸ (List.getElem?_eq_some_iff.mp hheap).1
    obtain ⟨found, hfound, hplace⟩ := hplaces h _ (List.getElem?_eq_getElem hless)
    cases hheap.symm.trans hfound
    rw [hplace.events]
    exact hmasked.heap h _ (List.getElem?_eq_getElem hless)
  watched r fd events hfd := hmasked.watched r fd events (hwatched r fd events hfd)
  ready := hrdy ▸ hmasked.ready
  serving := hmasked.serving

/-- A task whose ready events become others. -/
theorem Masked.turn {next : TaskPc} (hmasked : Masked process pc)
    (hsame : last.heap = process.heap ∧ last.kernel = process.kernel)
    (hrdy : ∀ other, other ≠ task → last.rdy other = process.rdy other)
    (hready : ∀ event ∈ next.left (last.rdy task), event.2 &&& ~~~epollReported = 0)
    (hserving : ∀ h mask rest, next = .serving h mask rest → mask &&& ~~~epollReported = 0) :
    Masked last fun other => if other = task then next else pc other where
  heap := hsame.1 ▸ hmasked.heap
  watched r fd events hfd := by
    rw [Process.watched, hsame.2] at hfd
    exact hmasked.watched r fd events hfd
  ready other event hevent := by
    split at hevent
    · next heq => exact hready event (heq ▸ hevent)
    · next hne =>
        rw [hrdy other hne] at hevent
        exact hmasked.ready other event hevent
  serving other h mask rest hother := by
    split at hother
    · exact hserving h mask rest hother
    · exact hmasked.serving other h mask rest hother

/-- A task that goes on with the same ready events. -/
theorem Masked.goto {next : TaskPc} (hmasked : Masked process pc)
    (hleft : (next.left (process.rdy task)).Sublist ((pc task).left (process.rdy task)))
    (hserving : ∀ h mask rest, next = .serving h mask rest → mask &&& ~~~epollReported = 0) :
    Masked process fun other => if other = task then next else pc other :=
  hmasked.turn ⟨rfl, rfl⟩ (fun _ _ => rfl)
    (fun event hevent => hmasked.ready task event (hleft.subset hevent)) hserving

theorem Masked.newHandler (hmasked : Masked process pc) (fd : Fd) (reactor : Fin count)
    (memory : Slots) (rdyEvents : UInt32) :
    Masked (process.newHandler (epollOut ||| epollRdHup) fd reactor memory rdyEvents) pc := by
  refine ⟨?_, hmasked.watched, hmasked.ready, hmasked.serving⟩
  intro h handler hheap
  rcases Process.heap_newHandler_cases hheap with hheap | ⟨-, rfl⟩
  · exact hmasked.heap h handler hheap
  · rfl

theorem Masked.register {h : HandlerId} {handler : EpollEventHandler (Fin count)}
    (hmasked : Masked process pc) (hheap : process.heap[h]? = some handler) (granted : Bool) :
    Masked (process.register granted task h handler) pc := by
  refine ⟨hmasked.heap, ?_, hmasked.ready, hmasked.serving⟩
  intro r fd events hfd
  have hevents := hmasked.heap h handler hheap
  rw [Process.watched_register] at hfd
  split at hfd
  · -- `ADD` or `MOD`, over what was watched before or nothing
    cases hbefore : process.watched task handler.fd with
    | none =>
        rw [hbefore] at hfd
        split at hfd <;> simp_all [Ctl.apply]
    | some old =>
        have hold := hmasked.watched task handler.fd old hbefore
        rw [hbefore] at hfd
        split at hfd <;> simp_all [Ctl.apply]
  · exact hmasked.watched r fd events hfd

theorem Masked.registerAll {handlers : List HandlerId} (hmasked : Masked process pc)
    {granted : Bool} (hcall : Process.registerAll granted task handlers process = .ok () last) :
    Masked last pc :=
  Process.registerAll_preserves (fun _ process => Masked process pc)
    (fun _ _ _ _ hrest hhandler => hrest.register (Process.handler?_eq_some.mp hhandler).2 granted)
    hmasked hcall

end

/-- What is reported is nothing that nobody asked for. -/
theorem mask_of_reports {task : Fin count} (hmasked : Masked server.process server.task)
    {event : Fd × UInt32} (hreports : server.reports task event = true) :
    event.2 &&& ~~~epollReported = 0 := by
  simp only [reports] at hreports
  split at hreports
  · contradiction
  · next events hwatched =>
      rw [hmasked.watched task event.1 events hwatched, Bool.and_eq_true, beq_iff_eq] at hreports
      exact hreports.2

theorem masked_remove {task : Fin count} {h : HandlerId} {rest : List (Fd × UInt32)}
    (handler : EpollEventHandler (Fin count)) (stage : RemoveStage)
    (hmasked : Masked server.process server.task)
    (hpc : server.task task = .removing stage h rest) :
    Masked (server.remove task handler h rest stage).process
      (server.remove task handler h rest stage).task := by
  obtain ⟨next, hnext, htask⟩ := @task_remove _ server task h rest handler stage
  rw [htask]
  have hwatched : ∀ r fd events,
      (server.remove task handler h rest stage).process.watched r fd = some events →
        server.process.watched r fd = some events := by
    intro r fd events hfd
    cases stage with
    | touch => rwa [remove, Process.watched_touchEntry] at hfd
    | ctl mask =>
        rw [remove, Process.watched_epollCtl] at hfd
        split at hfd
        · contradiction
        · exact hfd
    | testFlag | find | erase | delete => exact hfd
  have hheap := @heap_remove _ server task h rest handler stage
  refine (hmasked.goto ?_ ?_).frame (.of_heap hheap) (congrArg List.length hheap) hwatched
    (rdy_remove handler stage)
  · rw [hpc]
    rcases hnext with rfl | ⟨stage', rfl⟩ <;> exact List.Sublist.refl _
  · rintro other mask left rfl
    rcases hnext with hnext | ⟨stage', hnext⟩ <;> contradiction

theorem masked_step [NeZero count] (hmasked : Masked server.process server.task)
    (hnext : server.next action = some after) : Masked after.process after.task := by
  have hstep := step_of_next hnext
  cases hstep with
  | refused | discarded | enqueued | killed | waited | incremented => exact hmasked
  | accepted hacceptor hclosed => exact hmasked.newHandler _ _ _ _
  | @selected task ready hpc hwatched =>
      obtain ⟨-, hselect⟩ := Option.ite_none_right_eq_some.mp hnext
      obtain ⟨⟨-, -, hready⟩, -⟩ := Option.ite_none_right_eq_some.mp hselect
      refine hmasked.turn ⟨rfl, rfl⟩ (fun other hne => if_neg hne) ?_ (by simp)
      intro event hevent
      simp only [TaskPc.left, Process.setReady, if_true] at hevent
      rcases Process.mem_foldl_insert hevent with hnew | hold
      · exact mask_of_reports hmasked (List.all_eq_true.mp hready event hnew)
      · refine hmasked.ready task event ?_
        rwa [hpc]
  | @tested task hpc =>
      rw [testFlag]
      split
      · exact hmasked.goto (by rw [hpc]; exact List.Sublist.refl _) (by simp)
      · exact hmasked.goto (by rw [hpc]; exact List.Sublist.refl _) (by simp)
  | @drained task process hpc hregister =>
      have hdrained := hmasked.registerAll hregister
      exact hdrained.goto (by rw [hpc]; exact List.Sublist.refl _) (by simp)
  | @finished task hpc =>
      refine hmasked.turn ⟨rfl, rfl⟩ (fun other hne => if_neg hne) ?_ (by simp)
      simp [TaskPc.left, Process.clearReady]
  | @dispatched task fd mask events rest h hpc hentry =>
      refine hmasked.goto (by rw [hpc]; exact List.sublist_cons_self _ _) ?_
      rintro found mask' left ⟨⟩
      exact hmasked.ready task (fd, mask) (by rw [hpc]; exact List.mem_cons_self)
  | @served task outside h mask rest process pc hpc hserved hafter =>
      refine (hmasked.goto ?_ ?_).frame hserved.places hserved.heapLength hserved.watched
        hserved.rdy
      · rw [hpc]
        rcases hafter with rfl | rfl <;> exact List.Sublist.refl _
      · rintro other mask' left rfl
        rcases hafter with hafter | hafter <;> contradiction
  | @closed task h rest process hpc hserved =>
      refine (hmasked.goto ?_ ?_).frame hserved.places hserved.heapLength hserved.watched
        hserved.rdy
      · rw [hpc]
        exact List.Sublist.refl _
      · simp
  | removed hpc hhandler => exact masked_remove _ _ hmasked hpc

/-! ### What is recorded -/

/-- Every connection has answered once or not at all, and the task that is to close
one that has answered is at that point. -/
def Told (server : Server count) : Prop :=
  ∀ (h : HandlerId) (handler : EpollEventHandler (Fin count)),
    server.process.heap[h]? = some handler → ∃ socket, handler.tcp = some socket ∧
      socket.Told (∃ task rest, server.task task = .closing h rest)

/-- A step that leaves the handlers alone and is not that of a task about to close. -/
theorem Told.frame (htold : server.Told) (hheap : after.process.heap = server.process.heap)
    (hclosing : ∀ task h rest, server.task task = .closing h rest →
      after.task task = .closing h rest) : after.Told := by
  intro h handler hfound
  obtain ⟨socket, htcp, hsocket⟩ := htold h handler (hheap ▸ hfound)
  refine ⟨socket, htcp, hsocket.imp ?_⟩
  rintro ⟨task, rest, hpc⟩
  exact ⟨task, rest, hclosing task h rest hpc⟩

/-- Another task is where it was. -/
theorem goto_closing {task other : Fin count} {pc : TaskPc} {h : HandlerId}
    {rest : List (Fd × UInt32)} (hpc : ∀ rest, server.task task ≠ .closing h rest)
    (hother : server.task other = .closing h rest) :
    (server.goto task pc).task other = .closing h rest := by
  have hne : other ≠ task := by
    rintro rfl
    exact hpc rest hother
  exact (if_neg hne).trans hother

/-- A task is done with the handler in its hand. -/
theorem Told.setHandler {task : Fin count} {h : HandlerId} {pc : TaskPc}
    {later : EpollEventHandler (Fin count)} {socket : TcpSocket} (htold : server.Told)
    (hheap : after.process.heap = server.process.heap.set h later)
    (htask : after.task = (server.goto task pc).task)
    (hpc : ∀ other rest, other ≠ h → server.task task ≠ .closing other rest)
    (htcp : later.tcp = some socket)
    (hsocket : socket.Told (∃ rest, pc = .closing h rest)) : after.Told := by
  intro other handler hfound
  rw [hheap] at hfound
  by_cases hsame : h = other
  · subst hsame
    have hless : h < server.process.heap.length := by
      have hbound := (List.getElem?_eq_some_iff.mp hfound).1
      rwa [List.length_set] at hbound
    rw [List.getElem?_set_self hless] at hfound
    cases hfound
    refine ⟨socket, htcp, hsocket.imp ?_⟩
    rintro ⟨rest, rfl⟩
    exact ⟨task, rest, by rw [htask]; exact if_pos rfl⟩
  · rw [List.getElem?_set_ne hsame] at hfound
    obtain ⟨found, hfoundTcp, hfoundTold⟩ := htold other handler hfound
    refine ⟨found, hfoundTcp, hfoundTold.imp ?_⟩
    rintro ⟨closer, rest, hclosing⟩
    refine ⟨closer, rest, ?_⟩
    rw [htask]
    exact goto_closing (fun rest => hpc other rest (Ne.symm hsame)) hclosing

/-- The accept loop finds no send callback where it constructs a socket. -/
def NullSendCall : Action count → Prop
  | .accept (some (_, memory, _)) => memory.sendCall = none
  | _ => True

theorem Told.serve {task : Fin count} {outside : Outside} {h : HandlerId} {mask : UInt32}
    {rest : List (Fd × UInt32)} (htold : server.Told) (hhomes : server.Homes)
    (hmasked : Masked server.process server.task) (hpc : server.task task = .serving h mask rest)
    (hserve : server.serve task outside h mask rest = some after) : after.Told := by
  obtain ⟨⟨reaches, middle⟩, hcall, rfl⟩ := Option.map_eq_some_iff.mp hserve
  obtain ⟨hmethod, hmiddle⟩ := call_eq_some hcall
  obtain ⟨handler, later, hhandler, hready, hprocess⟩ := Process.onHandler_eq_ok hmethod
  obtain ⟨socket, htcp, hsocket⟩ := htold h handler (Process.handler?_eq_some.mp hhandler).2
  -- only this task works on the handler, and it is not about to close it
  have hopen : socket.Told False := by
    refine hsocket.imp ?_
    rintro ⟨other, left, hother⟩
    obtain ⟨home, hhoused⟩ := hhomes
    have hown := hhoused.hand task h (by rw [hpc]; rfl)
    have hforeign := hhoused.hand other h (by rw [hother]; rfl)
    cases hown.symm.trans hforeign
    rw [hpc] at hother
    contradiction
  have hset : (EpollEventHandler.setRdyEvents mask : Method (EpollEventHandler (Fin count)) Bool)
      handler = .ok true { handler with rdyEvents := mask } := rfl
  rw [Method.bind_ok hset] at hready
  obtain ⟨told, htoldTcp, htoldSocket⟩ := @EpollEventHandler.told_serveReady _
    { handler with rdyEvents := mask } later socket htcp hopen
    (hmasked.serving task h mask rest hpc) outside reaches hready
  rw [hmiddle, hprocess]
  refine @Told.setHandler _ server _ task h
    (if reaches then .closing h rest else .removing .testFlag h rest) later told htold rfl rfl ?_
    htoldTcp (htoldSocket.imp fun hreaches => ⟨rest, if_pos hreaches⟩)
  intro other left hne hclosing
  rw [hpc] at hclosing
  contradiction

theorem Told.close {task : Fin count} {h : HandlerId} {rest : List (Fd × UInt32)}
    (htold : server.Told) (hpc : server.task task = .closing h rest)
    (hclose : server.close task h rest = some after) : after.Told := by
  obtain ⟨⟨_, middle⟩, hcall, rfl⟩ := Option.map_eq_some_iff.mp hclose
  obtain ⟨hmethod, hmiddle⟩ := call_eq_some hcall
  obtain ⟨_, closed, hdisConnect, hrest⟩ := Method.bind_eq_ok hmethod
  obtain ⟨handler, later, hhandler, hmark, hprocess⟩ := Process.onHandler_eq_ok hdisConnect
  obtain ⟨socket, htcp, hsocket⟩ := htold h handler (Process.handler?_eq_some.mp hhandler).2
  obtain ⟨told, htoldTcp, htoldSocket⟩ := EpollEventHandler.told_disConnect htcp hsocket hmark
  have hheap : middle.process.heap = server.process.heap.set h later := by
    obtain ⟨found, same, hderef, hsocket⟩ := Method.bind_eq_ok hrest
    obtain ⟨-, rfl⟩ := Process.deref_eq_ok hderef
    rw [hprocess] at hsocket
    cases hfound : found.tcp with
    | none =>
        simp only [hfound] at hsocket
        rw [← (EStateM.Result.ok.inj hsocket).2]
        rfl
    | some socket =>
        simp only [hfound] at hsocket
        rw [← (EStateM.Result.ok.inj hsocket).2]
        rfl
  rw [hmiddle]
  refine @Told.setHandler _ server _ task h (.removing .testFlag h rest) later told htold hheap rfl
    ?_ htoldTcp (htoldSocket.imp False.elim)
  intro other left hne hclosing
  rw [hpc] at hclosing
  cases hclosing
  exact hne rfl

theorem told_step [NeZero count] (htold : server.Told) (hhomes : server.Homes)
    (hmasked : Masked server.process server.task) (hnull : NullSendCall action)
    (hnext : server.next action = some after) : after.Told := by
  have hstep := step_of_next hnext
  cases hstep with
  | refused | discarded | enqueued | killed | waited | incremented => exact htold
  | accepted hacceptor hclosed =>
      intro h handler hfound
      rcases Process.heap_newHandler_cases hfound with hfound | ⟨-, rfl⟩
      · exact htold h handler hfound
      · exact ⟨_, rfl, .untouched (TcpSocket.untouched_create _ hnull)⟩
  | selected hpc | finished hpc | dispatched hpc =>
      exact htold.frame rfl fun other h rest => goto_closing (by simp [hpc])
  | tested hpc =>
      rw [testFlag]
      split
      · exact htold.frame rfl fun other h rest => goto_closing (by simp [hpc])
      · exact htold.frame rfl fun other h rest => goto_closing (by simp [hpc])
  | @drained task process hpc hregister =>
      have hheap : process.heap = server.process.heap :=
        Process.registerAll_preserves
          (fun _ (middle : Process (Fin count)) => middle.heap = server.process.heap)
          (fun _ _ _ _ hmiddle _ => hmiddle) rfl hregister
      exact htold.frame hheap fun other h rest => goto_closing (by simp [hpc])
  | @served task outside h mask rest process pc hpc hserved hafter =>
      simp only [next, hpc] at hnext
      exact htold.serve hhomes hmasked hpc hnext
  | @closed task h rest process hpc hserved =>
      simp only [next, hpc] at hnext
      exact htold.close hpc hnext
  | @removed task stage h rest handler hpc hhandler =>
      obtain ⟨pc, -, htask⟩ := @task_remove _ server task h rest handler stage
      refine htold.frame (heap_remove handler stage) fun other found left hclosing => ?_
      rw [htask]
      exact goto_closing (by simp [hpc]) hclosing

/-- All that is needed of a state. -/
structure Transcribed (server : Server count) : Prop where
  homes : server.Homes
  masked : Masked server.process server.task
  told : server.Told

theorem transcribed_step [NeZero count] (htranscribed : server.Transcribed)
    (hnull : NullSendCall action) (hnext : server.next action = some after) :
    after.Transcribed where
  homes := homes_step htranscribed.homes (step_of_next hnext)
  masked := masked_step htranscribed.masked hnext
  told := told_step htranscribed.told htranscribed.homes htranscribed.masked hnull hnext

theorem transcribed_initial [NeZero count] : (initial : Server count).Transcribed where
  homes := by
    refine ⟨fun _ => none, ?_, ?_, ?_, fun _ _ => rfl, ?_, ?_⟩
    · exact fun _ _ => rfl
    · simp [queued, initial, Handoff.initial, AcceptorPc.held]
    · simp [queued, initial, Handoff.initial, AcceptorPc.held]
    · simp [initial, Process.initial, Process.entry]
    · simp [initial, TaskPc.hand]
  masked := by
    refine ⟨?_, ?_, ?_, ?_⟩
    · simp [initial, Process.initial]
    · simp [initial, Process.initial, Process.watched]
    · simp [initial, Process.initial, TaskPc.left]
    · simp [initial]
  told := by
    intro h handler hheap
    simp [initial, Process.initial] at hheap

end Server

namespace Shutdown

variable {shutdown after : Shutdown} {action : Action}

/-- Every accepted connection is constructed over a null send callback. -/
def NullSendCall (_ : Shutdown) : Action → Prop
  | .server action => Server.NullSendCall action
  | _ => True

/-- `quit_and_rst` forgets connections and does nothing with them. -/
theorem transcribed_clear (htranscribed : shutdown.server.Transcribed) (task : Fin 2) :
    { shutdown.server with
      process := shutdown.server.process.quitAndRst task : Server 2 }.Transcribed := by
  obtain ⟨⟨home, hhoused⟩, hmasked, htold⟩ := htranscribed
  obtain ⟨hheap, hentry, hrdy, -, -⟩ := Process.quitAndRst_leaves shutdown.server.process task
  obtain ⟨hserved, -, -⟩ :=
    Process.closeAll_leaves (shutdown.server.process.fds task).toList shutdown.server.process
  refine ⟨⟨home, hhoused.frame (congrArg List.length hheap) ?_⟩, ?_, ?_⟩
  · intro r fd events h hstored
    rw [hentry] at hstored
    split at hstored
    · contradiction
    · exact hstored
  · refine ⟨?_, ?_, ?_, hmasked.serving⟩
    · intro h handler hfound
      exact hmasked.heap h handler (hheap ▸ hfound)
    · intro r fd events hfd
      exact hmasked.watched r fd events (hserved.watched r fd events hfd)
    · intro other event hevent
      rw [hrdy] at hevent
      split at hevent
      · exact hmasked.ready other event (TaskPc.mem_left_of_empty hevent)
      · exact hmasked.ready other event hevent
  · exact htold.frame hheap fun _ _ _ => id

theorem transcribed_serverStep {step : Server.Action 2}
    (htranscribed : shutdown.server.Transcribed) (hnull : Server.NullSendCall step)
    (hstep : shutdown.serverStep step = some after) : after.server.Transcribed := by
  obtain ⟨server, hnext, hafter⟩ := Option.bind_eq_some_iff.mp hstep
  have hserver : after.server = server := by
    cases hactor : actor step with
    | none =>
        simp only [hactor] at hafter
        cases hafter
        rfl
    | some task =>
        simp only [hactor, Option.ite_none_right_eq_some] at hafter
        cases hafter.2
        rfl
  rw [hserver]
  exact Server.transcribed_step htranscribed hnull hnext

theorem transcribed_step (htranscribed : shutdown.server.Transcribed)
    (hnull : shutdown.NullSendCall action) (hnext : shutdown.next action = some after) :
    after.server.Transcribed := by
  unfold next at hnext
  obtain ⟨-, hnext⟩ := Option.ite_none_left_eq_some.mp hnext
  cases action with
  | server step => exact transcribed_serverStep htranscribed hnull hnext
  | clear task =>
      obtain ⟨-, heq⟩ := Option.ite_none_right_eq_some.mp hnext
      cases heq
      exact transcribed_clear htranscribed task
  | sigint | sigusr2 | testQuit task | count task | kill task =>
      obtain ⟨-, heq⟩ := Option.ite_none_right_eq_some.mp hnext
      cases heq
      exact htranscribed

/-- Whatever the clients send and the kernel reports, and whatever the order of the
steps and of the signals: what is called through the socket of a connection is at most
one answer, which is the page of `unimplemented`, and then `disConnected`. -/
theorem connections_recorded (hreach : (system.restrict NullSendCall).Reachable shutdown)
    {h : HandlerId} {handler : EpollEventHandler (Fin 2)}
    (hheap : shutdown.server.process.heap[h]? = some handler) :
    ∃ socket closes, handler.tcp = some socket ∧ socket.Recorded closes := by
  have htranscribed : shutdown.server.Transcribed := by
    refine hreach.invariant (fun shutdown => shutdown.server.Transcribed) ?_ ?_
    · rintro start rfl
      exact Server.transcribed_initial
    · rintro first action last hfirst ⟨hnull, hnext⟩
      exact transcribed_step hfirst hnull hnext
  obtain ⟨socket, htcp, htold⟩ := htranscribed.told h handler hheap
  obtain ⟨closes, hrecorded⟩ := htold.recorded
  exact ⟨socket, closes, htcp, hrecorded⟩

instance (shutdown : Shutdown) : (action : Action) → Decidable (shutdown.NullSendCall action)
  | .server (.accept (some (_, memory, _))) =>
      inferInstanceAs (Decidable (memory.sendCall = none))
  | .server (.accept none) | .server .enqueue | .server .kill | .server .sigwait
  | .server .increment | .server (.select _ _) | .server (.testFlag _) | .server (.drain _)
  | .server (.dispatch _) | .server (.serve _ _) | .server (.close _) | .server (.remove _)
  | .sigint | .sigusr2 | .testQuit _ | .clear _ | .count _ | .kill _ => isTrue trivial

/-- A connection that can be written to is answered and closed, without a look at
what it has sent. -/
theorem writable_answered : ∃ shutdown : Shutdown,
    shutdown.server.process.heap.map (fun handler => handler.tcp.map TcpSocket.calls) =
      [some (TcpSocket.answer 5 206 ++ [.close 5])] ∧
    ∀ handler ∈ shutdown.server.process.heap[0]?, ∃ socket closes,
      handler.tcp = some socket ∧ socket.Recorded closes := by
  obtain ⟨shutdown, hreach, hcalls⟩ := Lts.exists_restricted_of_exec initial next NullSendCall
    (fun shutdown => shutdown.server.process.heap.map
      (fun handler => handler.tcp.map TcpSocket.calls) =
        [some (TcpSocket.answer 5 206 ++ [.close 5])])
    (arrives 5 ++ stores 0 ++ [.testQuit 0, .server (.select 0 [(5, epollOut)]),
      .server (.testFlag 0), .testQuit 0, .server (.dispatch 0),
      .server (.serve 0 ⟨.error, .upTo 1024, .blank⟩), .server (.close 0)]) (by decide +kernel)
  exact ⟨shutdown, hcalls, fun handler hheap => connections_recorded hreach hheap⟩

end Shutdown

end ZtHttp
