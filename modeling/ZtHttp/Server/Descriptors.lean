import ZtHttp.Server.Connections

/-!
# Who closes a descriptor

`disConnected` closes the descriptor of a handler, `quit_and_rst` every key that
is left in its table. A connection that was closed leaves its key there: under
its own handler if the removal was refused, and under a null one if it was
granted, because `epollUpdate` reads the mask of the key that was just erased.
Such a key is closed once more, or another connection with the same number is.
-/

namespace ZtHttp

open Imperative Transition

/-- The handler that the task is about to close. -/
def TaskPc.closes : TaskPc → Option HandlerId
  | .closing h _ => some h
  | _ => none

namespace Process

variable {ρ : Type} {process : Process ρ} {h : HandlerId} {task : ρ}
  {home : HandlerId → Option ρ} {handlers : List HandlerId} {pc : ρ → TaskPc} {quit : ρ → QuitPc}
  {ledger : Ledger}

/-! ### A socket is closed -/

section

variable {handler later : EpollEventHandler ρ} {fd : Fd} {rest : List (Fd × UInt32)}

theorem served_closing (fd : Fd) (hheap : process.heap[h]? = some handler)
    (hplace : handler.SamePlace later) :
    process.Served ((process.setHandler h later).closeFd fd) :=
  (served_setHandler hheap hplace).trans (served_closeFd _ fd)

theorem closed_closing {other : HandlerId} (hne : other ≠ h) :
    ((process.setHandler h later).closeFd fd).closed other = process.closed other :=
  closed_congr (List.getElem?_set_ne (Ne.symm hne))

theorem closed_closing_self (hheap : process.heap[h]? = some handler)
    (hline : later.line = some (fd, false)) :
    ((process.setHandler h later).closeFd fd).closed h = true := by
  have hset : ((process.setHandler h later).closeFd fd).heap[h]? = some later :=
    List.getElem?_set_self (List.getElem?_eq_some_iff.mp hheap).1
  rw [closed_of_line hset hline]
  rfl

/-- The connection that is closed owns nothing any more. -/
theorem Traced.fits_close (htraced : process.Traced home handlers pc quit ledger)
    (howner : ledger.owner handler.fd = some h) (hheap : process.heap[h]? = some handler)
    (hplace : handler.SamePlace later) (hline : later.line = some (handler.fd, false))
    (hbound : handler.fd < 2 ^ 16) :
    (ledger.close (some h) handler.fd).Fits
      ((process.setHandler h later).closeFd handler.fd) := by
  refine ⟨?_, ?_⟩
  · intro fd other hother
    rw [Ledger.owner_close, Option.ite_none_left_eq_some] at hother
    obtain ⟨hnefd, hother⟩ := hother
    obtain ⟨hopened, hbefore, hfound⟩ :=
      htraced.fits.owned_of_places (served_closing handler.fd hheap hplace).places hother
    have hne : other ≠ h := by
      rintro rfl
      exact hnefd (htraced.fits.unique howner hother)
    refine ⟨?_, (closed_closing hne).trans hbefore, hfound⟩
    rw [opened_closeFd, if_neg hnefd]
    exact hopened
  · intro other found hother
    rcases heap_setHandler_cases hother with ⟨rfl, rfl⟩ | ⟨-, hold⟩
    · refine ⟨false, hline.trans ?_⟩
      rw [hplace.fd, Nat.mod_eq_of_lt hbound]
    · exact htraced.fits.line other found hold

variable [DecidableEq ρ]

/-- The closed handler is stored under its own number only, which is neither
watched nor ready any more. -/
theorem Traced.serves_close (htraced : process.Traced home handlers pc quit ledger)
    (hpc : pc task = .closing h rest) (hheap : process.heap[h]? = some handler)
    (hplace : handler.SamePlace later) (other : ρ) :
    ((process.setHandler h later).closeFd handler.fd).ServesOpen other
      (if other = task then .removing .testFlag h rest else pc other) := by
  have hserved := served_closing handler.fd hheap hplace
  have hhome : home h = some task := (htraced.hand task h (by rw [hpc]; rfl)).1
  have hserves := htraced.serves task
  rw [hpc] at hserves
  obtain ⟨found, hfound, hrest⟩ := hserves.hand h rfl
  cases hheap.symm.trans hfound
  have hstays : ∀ fd events other, fd ≠ handler.fd →
      process.entry task fd = some (events, some other) → other ≠ h := by
    rintro fd events other hne hstored rfl
    obtain ⟨-, -, again, hagain, hsame⟩ := htraced.stored task fd events other hstored
    cases hheap.symm.trans hagain
    exact hne hsame.symm
  revert other
  refine forall_goto ⟨?_, ?_, hserves.nodup, by simp [TaskPc.serves], ?_⟩ ?_
  · intro fd events found hfd hstored
    rw [watched_closeFd] at hfd
    split at hfd
    · exact absurd rfl hfd
    · next hne =>
        rw [closed_closing (hstays fd events found hne hstored)]
        exact hserves.watched fd events found hfd hstored
  · intro event hevent events found hstored
    rw [closed_closing (hstays event.1 events found (hrest event hevent) hstored)]
    exact hserves.ready event hevent events found hstored
  · intro found hfound
    cases hfound
    exact ⟨later, List.getElem?_set_self (List.getElem?_eq_some_iff.mp hheap).1,
      fun event hevent => hplace.fd ▸ hrest event hevent⟩
  · intro other hne
    refine (htraced.serves other).frame (fun _ _ _ => id)
      (fun fd hfd hnone => hfd (hserved.unwatched hnone)) rfl hserved.places ?_
    intro found hconcerns hbefore
    have hneh : found ≠ h := by
      rintro rfl
      have hother : home found = some other := by
        rcases hconcerns with ⟨fd, events, hstored⟩ | hhand
        · exact (htraced.stored other fd events found hstored).1
        · exact (htraced.hand other found hhand).1
      exact hne (Option.some.inj (hother.symm.trans hhome))
    exact (closed_closing hneh).trans hbefore

theorem Traced.close {socket : TcpSocket}
    (htraced : process.Traced home handlers pc quit ledger)
    (hpc : pc task = .closing h rest) (hheap : process.heap[h]? = some handler)
    (hplace : handler.SamePlace later) (htcp : handler.tcp = some socket)
    (hline : later.line = some (socket.fd, false)) (hbound : handler.fd < 2 ^ 16) :
    ((process.setHandler h later).closeFd socket.fd).Traced home handlers
      (fun other => if other = task then .removing .testFlag h rest else pc other) quit
      (ledger.close (some h) socket.fd) := by
  have hfd : socket.fd = handler.fd := by
    obtain ⟨connected, hbefore⟩ := htraced.fits.line h handler hheap
    rw [EpollEventHandler.line, htcp, Option.map_some, Option.some.injEq] at hbefore
    exact (congrArg Prod.fst hbefore).trans (Nat.mod_eq_of_lt hbound)
  rw [hfd] at hline ⊢
  have hserved := served_closing handler.fd hheap hplace
  obtain ⟨hhome, hquit⟩ := htraced.hand task h (by rw [hpc]; rfl)
  have howner : ledger.owner handler.fd = some h :=
    htraced.owner_of_serves (by rw [hpc]; rfl) hheap
  exact {
    waiting := htraced.waiting
    made := by
      rw [hserved.heapLength]
      exact htraced.made
    nodup := htraced.nodup
    fresh := by
      rw [hserved.heapLength]
      exact htraced.fresh
    homeless := by
      intro other hnone
      have hne : other ≠ h := by
        rintro rfl
        rw [hhome] at hnone
        contradiction
      exact (closed_closing hne).trans (htraced.homeless other hnone)
    stored := by
      intro r fd events other hstored
      exact htraced.stored_of_places hserved.places hstored
    hand := by
      apply htraced.hand_goto
      intro found hfound
      cases hfound
      exact ⟨hhome, hquit⟩
    owns := by
      intro other found hother hlast hcleared
      have hne : other ≠ h := by
        rintro rfl
        rw [closed_closing_self hheap hline] at hlast
        contradiction
      rw [closed_closing hne] at hlast
      have hbefore : process.heap[other]? = some found :=
        (List.getElem?_set_ne (Ne.symm hne)).symm.trans hother
      have hfound := htraced.owns other found hbefore hlast hcleared
      rw [Ledger.owner_close, if_neg, hfound]
      intro hsame
      rw [hsame, howner] at hfound
      exact hne (Option.some.inj hfound).symm
    fits := htraced.fits_close howner hheap hplace hline hbound
    settled := by
      rw [hserved.heapLength]
      exact htraced.settled.close howner (List.getElem?_eq_some_iff.mp hheap).1
        fun other hother => htraced.fits.unique howner hother
    serves := htraced.serves_close hpc hheap hplace }

end

/-! ### A table is cleared -/

/-- A key under which a connection that is not closed is stored belongs to that
connection. -/
theorem Traced.owner_of_key {fd : Fd} {events : UInt32}
    (htraced : process.Traced home handlers pc quit ledger)
    (hstored : process.entry task fd = some (events, some h))
    (hopen : process.closed h = false) : ledger.owner fd = some h := by
  obtain ⟨hhome, hcleared, handler, hheap, hfd⟩ := htraced.stored task fd events h hstored
  rw [← hfd]
  apply htraced.owns h handler hheap hopen
  intro r hr
  cases hhome.symm.trans hr
  exact hcleared

/-- The keys of a table that stores open connections only. -/
theorem Traced.keys_owned (htraced : process.Traced home handlers pc quit ledger)
    (hopen : ∀ entry ∈ (process.fds task).toList,
      ∃ h ∈ entry.2.2, process.closed h = false) :
    ∀ entry ∈ (process.fds task).toList,
      ∃ h, entry.2.2 = some h ∧ ledger.owner entry.1 = some h ∧ home h = some task := by
  rintro ⟨fd, events, stored⟩ hentry
  obtain ⟨h, hbehalf, hclosed⟩ := hopen _ hentry
  cases hbehalf
  rw [Std.ExtTreeMap.mem_toList_iff_getElem?_eq_some] at hentry
  exact ⟨h, rfl, htraced.owner_of_key hentry hclosed,
    (htraced.stored task fd events h hentry).1⟩

variable [DecidableEq ρ]

theorem closed_quitAndRst (process : Process ρ) (task : ρ) (h : HandlerId) :
    (process.quitAndRst task).closed h = process.closed h :=
  closed_congr (by rw [(quitAndRst_leaves process task).heap])

theorem stored_of_quitAndRst {r : ρ} {fd : Fd} {stored : UInt32 × Option HandlerId}
    (hlast : (process.quitAndRst task).entry r fd = some stored) :
    r ≠ task ∧ process.entry r fd = some stored := by
  rw [(quitAndRst_leaves process task).entry] at hlast
  exact Option.ite_none_left_eq_some.mp hlast

/-- The task whose table is cleared has nothing in hand. -/
theorem Traced.serves_quitAndRst (htraced : process.Traced home handlers pc quit ledger)
    (hquit : quit task = .clearing) (other : ρ) :
    (process.quitAndRst task).ServesOpen other (pc other) := by
  obtain ⟨hheap, -, hrdy, hwatched, -⟩ := quitAndRst_leaves process task
  by_cases hsame : other = task
  · subst hsame
    have hnone : ∀ fd events h,
        (process.quitAndRst other).entry other fd ≠ some (events, some h) :=
      fun fd events h hlast => (stored_of_quitAndRst hlast).1 rfl
    have hidle : ∀ h, (pc other).hand ≠ some h := by
      intro h hhand
      have hother := (htraced.hand other h hhand).2
      rw [hquit] at hother
      contradiction
    refine ⟨fun fd events h _ hlast => absurd hlast (hnone fd events h),
      fun event _ events h hlast => absurd hlast (hnone event.1 events h), ?_,
      fun h hserves => absurd (TaskPc.hand_of_serves hserves) (hidle h),
      fun h hhand => absurd hhand (hidle h)⟩
    have hleft := (htraced.serves other).nodup
    rw [hrdy, if_pos rfl]
    cases hpc : pc other with
    | selecting | testing | registering => exact nodup_keys _
    | dispatching rest | serving h mask rest | closing h rest | removing stage h rest =>
        rw [hpc] at hleft
        exact hleft
  · refine (htraced.serves other).frame (fun fd events h hlast => (stored_of_quitAndRst hlast).2)
      (hwatched other) ?_ (.of_heap hheap)
      fun h _ hbefore => (closed_quitAndRst process task h).trans hbefore
    rw [hrdy, if_neg hsame]

/-- `quit_and_rst` closes the descriptors of the connections in its table. -/
theorem Traced.quitAndRst (htraced : process.Traced home handlers pc quit ledger)
    (hquit : quit task = .clearing)
    (hopen : ∀ entry ∈ (process.fds task).toList,
      ∃ h ∈ entry.2.2, process.closed h = false) :
    (process.quitAndRst task).Traced home handlers pc (Function.update quit task .counting)
      (Shutdown.enterAll (process.fds task).toList ledger) := by
  obtain ⟨hheap, -, -, -, hopened⟩ := quitAndRst_leaves process task
  have hclosed := closed_quitAndRst process task
  have hkeys := htraced.keys_owned hopen
  exact {
    waiting := htraced.waiting
    made := by
      rw [hheap]
      exact htraced.made
    nodup := htraced.nodup
    fresh := by
      rw [hheap]
      exact htraced.fresh
    homeless := by
      intro h hhome
      rw [hclosed]
      exact htraced.homeless h hhome
    stored := by
      intro r fd events h hlast
      obtain ⟨hne, hbefore⟩ := stored_of_quitAndRst hlast
      rw [Function.update_of_ne hne, hheap]
      exact htraced.stored r fd events h hbefore
    hand := by
      intro other h hhand
      obtain ⟨hhome, hother⟩ := htraced.hand other h hhand
      have hne : other ≠ task := by
        rintro rfl
        rw [hquit] at hother
        contradiction
      refine ⟨hhome, ?_⟩
      rw [Function.update_of_ne hne, hother]
    owns := by
      intro h handler hfound hlast hcleared
      rw [hheap] at hfound
      rw [hclosed] at hlast
      have hne : ∀ r, home h = some r → r ≠ task := by
        rintro r hr rfl
        have hlater := hcleared r hr
        rw [Function.update_self] at hlater
        contradiction
      have howner := htraced.owns h handler hfound hlast fun r hr => by
        have hlater := hcleared r hr
        rwa [Function.update_of_ne (hne r hr)] at hlater
      rw [Shutdown.owner_enterAll, if_neg, howner]
      intro hkey
      obtain ⟨entry, hmem, hsame⟩ := List.mem_map.mp hkey
      obtain ⟨other, -, hother, hhome⟩ := hkeys entry hmem
      rw [hsame, howner] at hother
      cases hother
      exact hne task hhome rfl
    fits.owned := by
      intro fd h howner
      rw [Shutdown.owner_enterAll, Option.ite_none_left_eq_some] at howner
      obtain ⟨hkey, howner⟩ := howner
      rw [hopened, if_neg hkey, hclosed, hheap]
      exact htraced.fits.owned fd h howner
    fits.line := by
      rw [hheap]
      exact htraced.fits.line
    settled := by
      rw [hheap]
      refine Shutdown.settled_enterAll htraced.settled (nodup_keys (process.fds task)) ?_
      intro entry hmem
      obtain ⟨h, hbehalf, howner, -⟩ := hkeys entry hmem
      obtain ⟨-, -, handler, hfound, -⟩ := htraced.fits.owned _ _ howner
      exact ⟨h, hbehalf, howner, (List.getElem?_eq_some_iff.mp hfound).1,
        fun other hother => htraced.fits.unique howner hother⟩
    serves := htraced.serves_quitAndRst hquit }

end Process

/-! ### The shutdown -/

namespace Shutdown

variable {shutdown after : Shutdown} {action : Action}

/-- Every open descriptor is traced to the connection that has it. -/
def Traced (shutdown : Shutdown) : Prop :=
  ∃ home, shutdown.server.process.Traced home
    (shutdown.server.handoff.waitQueue ++ shutdown.server.acceptor.held) shutdown.server.task
    shutdown.quit shutdown.ledger

/-- A handler's descriptor fits the 16 bits of its socket's, and every key that
`quit_and_rst` closes is mapped to a handler whose socket is not closed. -/
def ClosesOwn (shutdown : Shutdown) : Action → Prop
  | .server (.close task) =>
      ∀ h ∈ (shutdown.server.task task).closes,
        ∀ handler ∈ shutdown.server.process.heap[h]?, handler.fd < 2 ^ 16
  | .clear task =>
      ∀ entry ∈ (shutdown.server.process.fds task).toList,
        ∃ h ∈ entry.2.2, shutdown.server.process.closed h = false
  | _ => True

section

variable {server last : Server 2} {task : Fin 2} {home : HandlerId → Option (Fin 2)}
  {handlers : List HandlerId} {quit : Fin 2 → QuitPc} {ledger : Ledger}

/-- One stage of `remove_handler`. -/
theorem traced_remove {stage : RemoveStage} {h : HandlerId} {rest : List (Fd × UInt32)}
    (handler : EpollEventHandler (Fin 2))
    (htraced : server.process.Traced home handlers server.task quit ledger)
    (hpc : server.task task = .removing stage h rest) :
    (server.remove task handler h rest stage).process.Traced home handlers
      (server.remove task handler h rest stage).task quit ledger := by
  obtain ⟨pc, hnext, htask⟩ := @Server.task_remove _ server task h rest handler stage
  have hmoved : server.process.Traced home handlers (server.goto task pc).task quit ledger := by
    apply htraced.goto
    · rw [hpc]
      rcases hnext with rfl | ⟨stage', rfl⟩ <;> exact List.Sublist.refl _
    · rcases hnext with rfl | ⟨stage', rfl⟩ <;> simp [TaskPc.serves]
    · rw [hpc]
      rcases hnext with rfl | ⟨stage', rfl⟩ <;> simp [TaskPc.hand]
  rw [htask]
  refine hmoved.frame (Process.lines_of_heap (Server.heap_remove _ _))
    (fun _ _ _ _ => Server.stored_of_remove _ _) (Server.opened_remove _ _) hmoved.hand ?_
  intro other
  refine (hmoved.serves other).frame (fun _ _ _ => Server.stored_of_remove _ _)
    (fun _ => Server.watched_of_remove _ _) ?_ (.of_heap (Server.heap_remove _ _)) ?_
  · rw [Server.rdy_remove]
  · intro found _ hopen
    exact (Server.closed_remove _ _ found).trans hopen

theorem enter_close {h : HandlerId} {rest : List (Fd × UInt32)}
    {handler : EpollEventHandler (Fin 2)} {socket : TcpSocket}
    (hpc : server.task task = .closing h rest) (hheap : server.process.heap[h]? = some handler)
    (htcp : handler.tcp = some socket) :
    enter server (.close task) ledger = ledger.close (some h) socket.fd := by
  simp only [enter, closes, hpc, hheap, htcp, Option.bind_some, Option.map_some]

/-- A step of the server closes only a descriptor of its own connection, and
enters that in the ledger. -/
theorem traced_server {step : Server.Action 2}
    (htraced : server.process.Traced home (server.handoff.waitQueue ++ server.acceptor.held)
      server.task quit ledger)
    (hbound : ∀ task, step = .close task → ∀ h ∈ (server.task task).closes,
      ∀ handler ∈ server.process.heap[h]?, handler.fd < 2 ^ 16)
    (hrunning : ∀ task, actor step = some task → quit task = .running)
    (hnext : server.next step = some last) :
    ∃ home', last.process.Traced home' (last.handoff.waitQueue ++ last.acceptor.held) last.task
      quit (enter server step ledger) := by
  have hstep := Server.step_of_next hnext
  cases hstep with
  | refused => exact ⟨home, htraced⟩
  | accepted hacceptor hunused =>
      rw [hacceptor, AcceptorPc.held, List.append_nil] at htraced
      exact ⟨home, htraced.newHandler hunused _ _ _ _⟩
  | discarded hacceptor hfull =>
      exact ⟨home, htraced.sublist ((List.nil_sublist _).append_left _)⟩
  | enqueued hacceptor hroom =>
      rw [hacceptor] at htraced
      rw [Handoff.enqueue_waitQueue hroom, AcceptorPc.held, List.append_nil]
      exact ⟨home, htraced⟩
  | killed hacceptor hkill =>
      rw [hacceptor] at htraced
      rw [(Handoff.sameQueue_kill hkill).waitQueue]
      exact ⟨home, htraced⟩
  | waited hsigwait =>
      rw [(Handoff.sameQueue_sigwait hsigwait).waitQueue]
      exact ⟨home, htraced⟩
  | incremented hincrement =>
      rw [(Handoff.sameQueue_increment hincrement).waitQueue]
      exact ⟨home, htraced⟩
  | selected hpc hready => exact ⟨home, htraced.setReady hpc hready⟩
  | tested hpc =>
      refine ⟨home, ?_⟩
      unfold Server.testFlag
      split
      · exact htraced.turn (by rw [hpc]; rfl) rfl rfl
      · exact htraced.turn (by rw [hpc]; rfl) rfl rfl
  | @drained task process hpc hregister =>
      have htaken : server.process.Traced home (server.handoff.taken ++ server.acceptor.held)
          server.task quit ledger :=
        htraced.perm ((List.reverse_perm _).append_right _)
      obtain ⟨home', hdrained⟩ := htaken.registerAll hpc (hrunning task rfl) hregister
      exact ⟨home', hdrained.turn (by rw [hpc]; rfl) rfl rfl⟩
  | finished hpc => exact ⟨home, htraced.clearReady⟩
  | @dispatched task fd mask events rest h hpc hentry =>
      exact ⟨home, htraced.dispatched hpc (hrunning task rfl) hentry⟩
  | @served task outside h mask rest process pc hpc hserved hafter =>
      simp only [Server.next, hpc] at hnext
      obtain ⟨handler, later, next, hhandler, hplace, hline, hcases, heq⟩ := Server.serve_spec hnext
      have hset := htraced.setHandler (Process.handler?_eq_some.mp hhandler).2 hplace hline
      rw [heq]
      refine ⟨home, hset.goto ?_ ?_ ?_⟩
      · rw [hpc]
        rcases hcases with rfl | rfl <;> exact List.Sublist.refl _
      · rw [hpc]
        rcases hcases with rfl | rfl <;> simp [TaskPc.serves]
      · rw [hpc]
        rcases hcases with rfl | rfl <;> simp [TaskPc.hand]
  | @closed task h rest process hpc hserved =>
      simp only [Server.next, hpc] at hnext
      obtain ⟨handler, later, socket, hhandler, hplace, htcp, hline, heq⟩ :=
        Server.close_spec hnext
      have hheap := (Process.handler?_eq_some.mp hhandler).2
      have hfits : handler.fd < 2 ^ 16 := hbound task rfl h (by rw [hpc]; rfl) handler hheap
      rw [heq, enter_close hpc hheap htcp]
      exact ⟨home, htraced.close hpc hheap hplace htcp hline hfits⟩
  | removed hpc hhandler =>
      refine ⟨home, ?_⟩
      rw [Server.handoff_remove, Server.acceptor_remove]
      exact traced_remove _ htraced hpc

end

theorem hand_of_atTest {pc next : TaskPc} (htest : atTest pc next = true) : next.hand = none := by
  unfold atTest at htest
  split at htest
  · rfl
  · rfl
  · rfl
  · contradiction

theorem traced_serverStep {step : Server.Action 2} (htraced : shutdown.Traced)
    (hcloses : shutdown.ClosesOwn (.server step)) (hstep : shutdown.serverStep step = some after) :
    after.Traced := by
  obtain ⟨home, htraced⟩ := htraced
  obtain ⟨server, hnext, hafter⟩ := Option.bind_eq_some_iff.mp hstep
  have hbound : ∀ task, step = .close task → ∀ h ∈ (shutdown.server.task task).closes,
      ∀ handler ∈ shutdown.server.process.heap[h]?, handler.fd < 2 ^ 16 := by
    rintro task rfl
    exact hcloses
  cases hactor : actor step with
  | none =>
      simp only [hactor, Option.some.injEq] at hafter
      rw [← hafter]
      exact traced_server htraced hbound (by simp [hactor]) hnext
  | some task =>
      simp only [hactor, Option.ite_none_right_eq_some, Option.some.injEq] at hafter
      obtain ⟨hrunning, rfl⟩ := hafter
      obtain ⟨home', hmoved⟩ := traced_server htraced hbound
        (fun other hother => by cases hactor.symm.trans hother; exact hrunning) hnext
      refine ⟨home', hmoved.requit ?_ ?_⟩
      · intro other
        change (Function.update shutdown.quit task _ other).cleared = _
        rw [Function.update_apply]
        split
        · next hsame =>
            rw [hsame, hrunning]
            split <;> rfl
        · rfl
      · intro other h hhand
        change Function.update shutdown.quit task _ other = _
        rw [Function.update_apply]
        split
        · next hsame =>
            -- a task with a handler in hand is not at the test
            subst hsame
            rw [if_neg]
            intro htest
            rw [hand_of_atTest htest] at hhand
            contradiction
        · exact (hmoved.hand other h hhand).2

/-- A step that closes only what is its own keeps the descriptors traced. -/
theorem traced_step (htraced : shutdown.Traced) (hcloses : shutdown.ClosesOwn action)
    (hnext : shutdown.next action = some after) : after.Traced := by
  unfold next at hnext
  obtain ⟨-, hnext⟩ := Option.ite_none_left_eq_some.mp hnext
  cases action with
  | server step => exact traced_serverStep htraced hcloses hnext
  | sigint =>
      obtain ⟨-, heq⟩ := Option.ite_none_right_eq_some.mp hnext
      cases heq
      exact htraced
  | sigusr2 =>
      obtain ⟨-, heq⟩ := Option.ite_none_right_eq_some.mp hnext
      cases heq
      exact htraced
  | testQuit task =>
      obtain ⟨htesting, heq⟩ := Option.ite_none_right_eq_some.mp hnext
      cases heq
      obtain ⟨home, htraced⟩ := htraced
      refine ⟨home, htraced.quits (by simp [htesting]) ?_⟩
      rw [htesting]
      split <;> rfl
  | clear task =>
      obtain ⟨hclearing, heq⟩ := Option.ite_none_right_eq_some.mp hnext
      cases heq
      obtain ⟨home, htraced⟩ := htraced
      exact ⟨home, htraced.quitAndRst hclearing hcloses⟩
  | count task =>
      obtain ⟨hcounting, heq⟩ := Option.ite_none_right_eq_some.mp hnext
      cases heq
      obtain ⟨home, htraced⟩ := htraced
      refine ⟨home, htraced.quits (by simp [hcounting]) ?_⟩
      rw [hcounting]
      split <;> rfl
  | kill task =>
      obtain ⟨hkilling, heq⟩ := Option.ite_none_right_eq_some.mp hnext
      cases heq
      obtain ⟨home, htraced⟩ := htraced
      exact ⟨home, htraced.quits (by simp [hkilling]) (by rw [hkilling]; rfl)⟩

theorem traced_initial : initial.Traced := by
  refine ⟨fun _ => none, ?_⟩
  exact {
    waiting := fun _ _ => rfl
    made := by simp [initial, Server.initial, Handoff.initial, AcceptorPc.held]
    nodup := by simp [initial, Server.initial, Handoff.initial, AcceptorPc.held]
    fresh := fun _ _ => rfl
    homeless := fun _ _ => rfl
    stored := by simp [initial, Server.initial, Process.initial, Process.entry]
    hand := by simp [initial, Server.initial, TaskPc.hand]
    owns := by simp [initial, Server.initial, Process.initial]
    fits.owned := by simp [initial]
    fits.line := by simp [initial, Server.initial, Process.initial]
    settled.owned := by simp [initial]
    settled.once := by simp [initial]
    serves := fun task => {
      watched := by simp [initial, Server.initial, Process.initial, Process.watched]
      ready := by simp [initial, Server.initial, Process.initial, TaskPc.left]
      nodup := Process.nodup_keys _
      serves := by simp [initial, Server.initial, TaskPc.serves]
      hand := by simp [initial, Server.initial, TaskPc.hand] } }

/-! ### The forbidden closes -/

/-- The ledger is never rewritten. -/
theorem closings_grow (hnext : shutdown.next action = some after) :
    shutdown.ledger.closings <+: after.ledger.closings := by
  unfold next at hnext
  obtain ⟨-, hnext⟩ := Option.ite_none_left_eq_some.mp hnext
  cases action with
  | server step =>
      obtain ⟨server, -, hafter⟩ := Option.bind_eq_some_iff.mp hnext
      have henter : shutdown.ledger.closings <+:
          (enter shutdown.server step shutdown.ledger).closings := by
        unfold enter
        split
        · exact List.prefix_rfl
        · exact List.prefix_append _ _
        · exact List.prefix_rfl
      cases hactor : actor step with
      | none =>
          simp only [hactor, Option.some.injEq] at hafter
          rw [← hafter]
          exact henter
      | some task =>
          simp only [hactor, Option.ite_none_right_eq_some, Option.some.injEq] at hafter
          rw [← hafter.2]
          exact henter
  | clear task =>
      obtain ⟨-, heq⟩ := Option.ite_none_right_eq_some.mp hnext
      cases heq
      exact prefix_enterAll _
  | sigint | sigusr2 | testQuit task | count task | kill task =>
      obtain ⟨-, heq⟩ := Option.ite_none_right_eq_some.mp hnext
      cases heq
      exact List.prefix_rfl

/-- A number that does not fit the socket's member is closed in its place. -/
theorem Traced.not_closedOnce_close {task : Fin 2} (htraced : shutdown.Traced)
    (hforeign : ¬ shutdown.ClosesOwn (.server (.close task)))
    (hstep : shutdown.serverStep (.close task) = some after) : ¬ after.ledger.ClosedOnce := by
  obtain ⟨home, htraced⟩ := htraced
  obtain ⟨server, hnext, hafter⟩ := Option.bind_eq_some_iff.mp hstep
  simp only [actor, Option.ite_none_right_eq_some, Option.some.injEq] at hafter
  simp only [ClosesOwn, not_forall, Nat.not_lt] at hforeign
  obtain ⟨h, hcloses, handler, hheap, hbig⟩ := hforeign
  cases hpc : shutdown.server.task task with
  | closing found rest =>
      rw [hpc] at hcloses
      cases hcloses
      simp only [Server.next, hpc] at hnext
      obtain ⟨found, later, socket, hhandler, -, htcp, -, -⟩ := Server.close_spec hnext
      cases hheap.symm.trans (Process.handler?_eq_some.mp hhandler).2
      intro hclosed
      rw [← hafter.2] at hclosed
      change Ledger.ClosedOnce (enter _ _ _) at hclosed
      rw [enter_close hpc hheap htcp] at hclosed
      obtain ⟨other, hbehalf, howner⟩ :=
        hclosed.owned _ (List.mem_append_right _ (List.mem_singleton_self _))
      cases hbehalf
      obtain ⟨-, -, found, hfound, hfd⟩ := htraced.fits.owned socket.fd h howner
      cases hheap.symm.trans hfound
      obtain ⟨connected, hline⟩ := htraced.fits.line h handler hheap
      rw [EpollEventHandler.line, htcp, Option.map_some, Option.some.injEq] at hline
      have hmod : socket.fd = handler.fd % 2 ^ 16 := congrArg Prod.fst hline
      have hsmall : handler.fd < 2 ^ 16 := by
        rw [hfd, hmod]
        exact Nat.mod_lt _ (by decide)
      exact Nat.not_lt.mpr hbig hsmall
  | _ =>
      rw [hpc] at hcloses
      contradiction

/-- A key with a null handler or with a closed one is not the connection's own. -/
theorem Traced.not_closedOnce_clear {task : Fin 2} (htraced : shutdown.Traced)
    (hforeign : ¬ shutdown.ClosesOwn (.clear task))
    (hafter : after.ledger =
      enterAll (shutdown.server.process.fds task).toList shutdown.ledger) :
    ¬ after.ledger.ClosedOnce := by
  obtain ⟨home, htraced⟩ := htraced
  intro hclosed
  rw [hafter] at hclosed
  apply hforeign
  intro entry hmem
  obtain ⟨closing, hclosing, hbehalf, howner⟩ := mem_enterAll hmem shutdown.ledger
  obtain ⟨h, hsome, hown⟩ := hclosed.owned closing hclosing
  exact ⟨h, hbehalf.symm.trans hsome, (htraced.fits.owned _ _ (howner h hown)).2.1⟩

theorem Traced.not_closedOnce (htraced : shutdown.Traced)
    (hforeign : ¬ shutdown.ClosesOwn action) (hnext : shutdown.next action = some after) :
    ¬ after.ledger.ClosedOnce := by
  unfold next at hnext
  obtain ⟨-, hnext⟩ := Option.ite_none_left_eq_some.mp hnext
  cases action with
  | server step =>
      cases step with
      | close task => exact htraced.not_closedOnce_close hforeign hnext
      | _ => exact absurd trivial hforeign
  | clear task =>
      obtain ⟨-, heq⟩ := Option.ite_none_right_eq_some.mp hnext
      cases heq
      exact htraced.not_closedOnce_clear hforeign rfl
  | _ => exact absurd trivial hforeign

/-- In every run each `::close` hits an open descriptor of the connection in
whose name it is called, and none is closed twice, if and only if all its steps
close only their own. -/
theorem closedOnce_iff {actions : List Action} (hrun : system.Run initial actions shutdown) :
    shutdown.ledger.ClosedOnce ↔ (system.restrict ClosesOwn).Run initial actions shutdown := by
  constructor
  · intro hclosed
    rcases hrun.kept_or_lost Traced (fun state => ¬ state.ledger.ClosedOnce)
      (fun _ _ _ => traced_step) (fun _ _ _ => Traced.not_closedOnce)
      (fun _ _ _ hbad hnext hgood => hbad (hgood.of_grown (closings_grow hnext)))
      traced_initial with ⟨hallowed, -⟩ | hlost
    · exact hallowed
    · exact absurd hclosed hlost
  · intro hallowed
    have htraced : shutdown.Traced := by
      refine hallowed.preserves Traced ?_ traced_initial
      rintro state action next hstate ⟨hcloses, hnext⟩
      exact traced_step hstate hcloses hnext
    obtain ⟨home, htraced⟩ := htraced
    exact htraced.settled.closedOnce

instance (shutdown : Shutdown) : (action : Action) → Decidable (shutdown.ClosesOwn action)
  | .server (.close task) =>
      inferInstanceAs (Decidable (∀ h ∈ (shutdown.server.task task).closes,
        ∀ handler ∈ shutdown.server.process.heap[h]?, handler.fd < 2 ^ 16))
  | .clear task =>
      inferInstanceAs (Decidable (∀ entry ∈ (shutdown.server.process.fds task).toList,
        ∃ h ∈ entry.2.2, shutdown.server.process.closed h = false))
  | .server (.accept _) | .server .enqueue | .server .kill | .server .sigwait
  | .server .increment | .server (.select _ _) | .server (.testFlag _) | .server (.drain _)
  | .server (.dispatch _) | .server (.serve _ _) | .server (.remove _)
  | .sigint | .sigusr2 | .testQuit _ | .count _ | .kill _ => isTrue trivial

/-- A connection on `fd`, accepted, queued and counted. -/
def arrives (fd : Fd) : List Action :=
  [.accept (some (fd, ⟨none, none, none⟩, 0)), .enqueue, .kill, .sigwait, .increment].map .server

/-- The task stores what is queued. -/
def stores (task : Fin 2) : List Action :=
  [.testQuit task, .server (.select task []), .server (.testFlag task), .server (.drain task),
    .testQuit task, .server (.dispatch task)]

/-- The peer hangs up, and the task serves and closes the connection. -/
def hangsUp (fd : Fd) (task : Fin 2) : List Action :=
  [.testQuit task, .server (.select task [(fd, epollRdHup)]), .server (.testFlag task),
    .testQuit task, .server (.dispatch task),
    .server (.serve task ⟨.error, .upTo 0, .blank⟩), .server (.close task)]

/-- Task 0 closes a connection whose peer hung up, and task 1 quits with another
one in its table. -/
theorem ownKeys_closedOnce : ∃ shutdown : Shutdown, shutdown.ledger.ClosedOnce ∧
    shutdown.ledger.closings = [⟨some 0, 5, some 0⟩, ⟨some 1, 6, some 1⟩] := by
  obtain ⟨shutdown, ⟨start, actions, rfl, hallowed⟩, hclosings⟩ := Lts.exists_restricted_of_exec
    initial next ClosesOwn
    (fun shutdown => shutdown.ledger.closings = [⟨some 0, 5, some 0⟩, ⟨some 1, 6, some 1⟩])
    (arrives 5 ++ stores 0 ++ hangsUp 5 0 ++ arrives 6 ++ stores 1 ++ [.sigint] ++ stops 1)
    (by decide +kernel)
  exact ⟨shutdown, (closedOnce_iff hallowed.of_restrict).mpr hallowed, hclosings⟩

/-- A removal leaves its key with a null handler. The number is given to another
connection, and `quit_and_rst` closes that one's descriptor. -/
theorem staleKey_closesOther : ∃ shutdown : Shutdown, system.Reachable shutdown ∧
    shutdown.ledger.closings = [⟨some 0, 5, some 0⟩, ⟨none, 5, some 1⟩] ∧
    ¬ shutdown.ledger.ClosedOnce := by
  obtain ⟨shutdown, hreach, hclosings⟩ := Lts.exists_reachable_of_exec initial next
    (fun shutdown => shutdown.ledger.closings = [⟨some 0, 5, some 0⟩, ⟨none, 5, some 1⟩])
    (arrives 5 ++ stores 1 ++ hangsUp 5 1 ++ List.replicate 6 (.server (.remove 1)) ++
      [.server (.dispatch 1)] ++ arrives 5 ++ [.sigint] ++ stops 1) (by decide +kernel)
  refine ⟨shutdown, hreach, hclosings, ?_⟩
  intro hclosed
  obtain ⟨h, hbehalf, -⟩ := hclosed.owned ⟨none, 5, some 1⟩ (by rw [hclosings]; simp)
  contradiction

end Shutdown

end ZtHttp
