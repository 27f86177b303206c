import ZtHttp.Server.Dispatch

/-!
# Closed connections in the table

`handle_event` closes the socket first and asks for the removal afterwards, and
`remove_handler` refuses while `register_flag` is not zero. A connection that is
accepted between the two leaves the closed one in the table.
-/

namespace ZtHttp

open Imperative Transition

/-- The handler whose `handle_event` the task is in, past the serving. -/
def TaskPc.handles : TaskPc → Option HandlerId
  | .closing h _ | .removing _ h _ => some h
  | .selecting | .testing | .registering | .dispatching _ | .serving _ _ _ => none

/-- The handler for which `remove_handler` is about to test `register_flag`. -/
def TaskPc.tests : TaskPc → Option HandlerId
  | .removing .testFlag h _ => some h
  | _ => none

namespace Process

variable {ρ : Type} {process last : Process ρ} {h other : HandlerId}

/-- `disConnected` was called on the handler's socket. -/
def closed (process : Process ρ) (h : HandlerId) : Bool :=
  (process.heap[h]?.bind EpollEventHandler.tcp).any fun socket => !socket.isConnected

theorem lt_of_closed (hclosed : process.closed h = true) : h < process.heap.length := by
  by_contra hle
  rw [closed, List.getElem?_eq_none (Nat.le_of_not_lt hle)] at hclosed
  contradiction

/-- A step that leaves the handler's object alone. -/
theorem closed_congr (hheap : last.heap[h]? = process.heap[h]?) :
    last.closed h = process.closed h := by
  rw [closed, closed, hheap]

theorem closed_newHandler (events : UInt32) (fd : Fd) (reactor : ρ) (memory : Slots)
    (rdyEvents : UInt32)
    (hclosed : (process.newHandler events fd reactor memory rdyEvents).closed h = true) :
    process.closed h = true := by
  rw [closed, heap_newHandler, List.getElem?_append] at hclosed
  split at hclosed
  · exact hclosed
  · cases hnew : h - process.heap.length with
    | zero =>
        rw [hnew] at hclosed
        contradiction
    | succ index =>
        rw [hnew] at hclosed
        contradiction

/-- Every closed handler in the reactor's table is the one in hand. -/
def ClosedInHand (process : Process ρ) (r : ρ) (hand : Option HandlerId) : Prop :=
  ∀ fd events h, process.entry r fd = some (events, some h) → process.closed h = true →
    hand = some h

theorem ClosedInHand.frame {r : ρ} {hand hand' : Option HandlerId}
    (hinhand : process.ClosedInHand r hand)
    (hentry : ∀ fd events h, last.entry r fd = some (events, some h) →
      process.entry r fd = some (events, some h))
    (hclosed : ∀ h, last.closed h = true → process.closed h = true ∨ hand' = some h)
    (hhand : ∀ h, hand = some h → hand' = some h) : last.ClosedInHand r hand' := by
  intro fd events h hstored hlast
  rcases hclosed h hlast with hbefore | hnew
  · exact hhand h (hinhand fd events h (hentry fd events h hstored) hbefore)
  · exact hnew

/-- With nothing in hand no closed handler is in the table. -/
theorem ClosedInHand.idle {r : ρ} (hinhand : process.ClosedInHand r none)
    (hand : Option HandlerId) : process.ClosedInHand r hand :=
  hinhand.frame (fun _ _ _ => id) (fun _ => .inl) fun _ hnone => by contradiction

end Process

namespace Server

/-- The stages of `remove_handler` leave every handler's socket alone. -/
theorem closed_remove {count : Nat} {server : Server count} {task : Fin count} {h : HandlerId}
    {rest : List (Fd × UInt32)} (handler : EpollEventHandler (Fin count)) (stage : RemoveStage)
    (other : HandlerId) : (server.remove task handler h rest stage).process.closed other =
      server.process.closed other :=
  Process.closed_congr (by rw [heap_remove])

variable {server after : Server 1}

/-- Once `handle_event` has closed a handler's socket and returned, no entry of
the table maps to the handler. -/
def NoLeftover (server : Server 1) : Prop :=
  ∀ h, server.process.closed h = true → (server.task 0).handles ≠ some h →
    ∀ fd events, server.process.entry 0 fd ≠ some (events, some h)

/-- Where `remove_handler` tests `register_flag` for a handler whose socket is
closed, the flag is zero. -/
def GrantsClosed (server : Server 1) : Action 1 → Prop
  | .remove task =>
      ∀ h ∈ (server.task task).tests,
        server.process.closed h = true → server.handoff.registerFlag = 0
  | _ => True

/-- The invariant behind `NoLeftover`: the stages fit, no handler that still
waits is closed, and a closed one in the table is in hand. -/
structure Tidy (server : Server 1) : Prop where
  sound : server.Sound
  waiting : ∀ h ∈ server.handoff.waitQueue ++ server.acceptor.held, server.process.closed h = false
  inHand : server.process.ClosedInHand 0 (server.task 0).handles

theorem Tidy.noLeftover (htidy : server.Tidy) : server.NoLeftover := by
  intro h hclosed houtside fd events hstored
  exact houtside (htidy.inHand fd events h hstored hclosed)

/-- There is only one task. -/
theorem goto_task (task : Fin 1) (pc : TaskPc) : (server.goto task pc).task 0 = pc :=
  if_pos (Subsingleton.elim 0 task)

theorem Tidy.idle {task : Fin 1} (htidy : server.Tidy)
    (hidle : (server.task task).handles = none) : server.process.ClosedInHand 0 none := by
  have hsame : server.task 0 = server.task task := congrArg _ (Subsingleton.elim 0 task)
  rw [← hidle, ← hsame]
  exact htidy.inHand

/-- The handler in hand is stored under its own number. -/
theorem Sound.stored_of_holds {task : Fin 1} {h : HandlerId} {handler : EpollEventHandler (Fin 1)}
    (hsound : server.Sound) (hholds : (server.task task).holds = some h)
    (hheap : server.process.heap[h]? = some handler) :
    ∃ events, server.process.entry handler.reactor handler.fd = some (events, some h) := by
  obtain ⟨stage, -, -, htasks⟩ := hsound
  obtain ⟨found, events, hfound, hstored, -⟩ := (htasks task).holds h hholds
  cases hheap.symm.trans hfound
  rw [Subsingleton.elim handler.reactor task]
  exact ⟨events, hstored⟩

/-- With one reactor `remove_handler` erases the entry it was called for. -/
theorem Sound.erasesOwn (hsound : server.Sound) (action : Action 1) :
    server.ErasesOwn action := by
  cases action with
  | remove task =>
      intro h herases handler hheap
      have hholds : (server.task task).holds = some h := by
        cases hpc : server.task task with
        | removing stage other rest =>
            rw [hpc] at herases
            cases stage <;> first | exact herases | contradiction
        | _ =>
            rw [hpc] at herases
            contradiction
      obtain ⟨events, hstored⟩ := hsound.stored_of_holds hholds hheap
      rw [hstored, Option.map_some]
  | _ => trivial

/-- A handler that is stored or being removed does not wait. -/
theorem Sound.not_waiting {task : Fin 1} {h : HandlerId} (hsound : server.Sound)
    (hholds : (server.task task).holds = some h) :
    h ∉ server.handoff.waitQueue ++ server.acceptor.held := by
  obtain ⟨stage, hstaged, hwaiting, htasks⟩ := hsound
  obtain ⟨handler, events, -, hstored, -⟩ := (htasks task).holds h hholds
  apply hwaiting.not_mem
  simp [(hstaged.stored task handler.fd events h hstored).1]

/-- One stage of `remove_handler` on the handler in hand. -/
theorem Tidy.remove_inHand {task : Fin 1} {stage : RemoveStage} {h : HandlerId}
    {rest : List (Fd × UInt32)} {handler : EpollEventHandler (Fin 1)} (htidy : server.Tidy)
    (hgrants : server.GrantsClosed (.remove task))
    (hpc : server.task task = .removing stage h rest)
    (hheap : server.process.heap[h]? = some handler) :
    (server.remove task handler h rest stage).process.ClosedInHand 0
      ((server.remove task handler h rest stage).task 0).handles := by
  have hhand : (server.task 0).handles = some h := by
    rw [Subsingleton.elim 0 task, hpc, TaskPc.handles]
  have hinhand := htidy.inHand
  rw [hhand] at hinhand
  -- the task lets the handler go where no closed one is stored
  have hdrop : (∀ fd events other, server.process.entry 0 fd = some (events, some other) →
      server.process.closed other = true → False) →
      server.process.ClosedInHand 0 ((server.goto task (.dispatching rest)).task 0).handles := by
    intro hnone fd events other hstored hclosed
    exact (hnone fd events other hstored hclosed).elim
  cases stage with
  | testFlag =>
      simp only [remove]
      split
      · next hflag =>
          apply hdrop
          intro fd events other hstored hclosed
          cases hinhand fd events other hstored hclosed
          exact hflag (hgrants h (by rw [hpc]; rfl) hclosed)
      · rw [goto_task]
        exact hinhand
  | find =>
      obtain ⟨events, hstored⟩ := htidy.sound.stored_of_holds (by rw [hpc]; rfl) hheap
      simp only [remove]
      rw [EpollEventHandler.getFd, hstored, if_neg (by simp), goto_task]
      exact hinhand
  | erase =>
      refine hinhand.frame ?_ (fun _ => .inl) (by simp [remove, goto_task, TaskPc.handles])
      intro fd events other hstored
      rw [remove, Process.entry_eraseEntry, Option.ite_none_left_eq_some] at hstored
      exact hstored.2
  | touch =>
      refine hinhand.frame (fun _ _ _ => Process.stored_of_touchEntry) ?_
        (by simp [remove, goto_task, TaskPc.handles])
      intro other hclosed
      have hsame : (server.process.touchEntry handler.reactor handler.getFd).closed other =
          server.process.closed other := Process.closed_congr (by rw [Process.heap_touchEntry])
      exact .inl (hsame.symm.trans hclosed)
  | ctl events =>
      exact hinhand.frame (fun _ _ _ => id) (fun _ => .inl)
        (by simp [remove, goto_task, TaskPc.handles])
  | delete =>
      refine Process.ClosedInHand.frame (hdrop ?_) (fun _ _ _ => id) (fun _ => .inl) (fun _ => id)
      intro fd events other hstored hclosed
      cases hinhand fd events other hstored hclosed
      obtain ⟨stage, hstaged, -, htasks⟩ := htidy.sound
      have hleaving := ((htasks task).drops h (by rw [hpc]; rfl)).1
      rw [(hstaged.stored 0 fd events h hstored).1] at hleaving
      contradiction

/-- The loop of `registerEvents` stores handlers that are not closed. -/
theorem Tidy.registerAll {task : Fin 1} {process : Process (Fin 1)} (htidy : server.Tidy)
    (hhand : (server.task task).handles = none)
    (hcall : Process.registerAll true task server.handoff.taken server.process = .ok () process) :
    process.ClosedInHand 0 none ∧ ∀ h, process.closed h = server.process.closed h := by
  have hwaiting : ∀ h ∈ server.handoff.taken, server.process.closed h = false := by
    intro h hmem
    exact htidy.waiting h (List.mem_append_left _ (List.mem_reverse.mp hmem))
  have hdrained := Process.registerAll_preserves
    (fun rest middle => middle.ClosedInHand 0 none ∧
      (∀ h, middle.closed h = server.process.closed h) ∧
      ∀ h ∈ rest, server.process.closed h = false) ?_
    ⟨htidy.idle hhand, fun _ => rfl, hwaiting⟩ hcall
  · exact ⟨hdrained.1, hdrained.2.1⟩
  · rintro h rest middle handler ⟨hmiddle, hsame, hrest⟩ hhandler
    refine ⟨?_, hsame, fun other hother => hrest other (List.mem_cons_of_mem _ hother)⟩
    intro fd events other hstored hclosed
    rw [Process.entry_register] at hstored
    split at hstored
    · cases hstored
      have hopen := (hsame h).trans (hrest h List.mem_cons_self)
      rw [show middle.closed h = true from hclosed] at hopen
      contradiction
    · exact hmiddle fd events other hstored hclosed

/-- The handlers that wait after the step waited before, and the step closes
none of them. -/
theorem Tidy.waiting_frame (htidy : server.Tidy)
    (hqueue : after.handoff.waitQueue ++ after.acceptor.held ⊆
      server.handoff.waitQueue ++ server.acceptor.held)
    (hclosed : ∀ h ∈ server.handoff.waitQueue ++ server.acceptor.held,
      after.process.closed h = server.process.closed h) :
    ∀ h ∈ after.handoff.waitQueue ++ after.acceptor.held, after.process.closed h = false := by
  intro h hmem
  rw [hclosed h (hqueue hmem)]
  exact htidy.waiting h (hqueue hmem)

/-- A step that changes the handler in hand only, which stays in hand. -/
theorem Tidy.serve {task : Fin 1} {h : HandlerId} {process : Process (Fin 1)} {pc : TaskPc}
    (htidy : server.Tidy) (hholds : (server.task task).holds = some h)
    (hhand : (server.task task).handles = none ∨ (server.task task).handles = some h)
    (hserved : server.process.Served process)
    (hheap : ∀ other, other ≠ h → process.heap[other]? = server.process.heap[other]?)
    (hpc : pc.handles = some h) :
    (∀ other ∈ server.handoff.waitQueue ++ server.acceptor.held, process.closed other = false) ∧
      process.ClosedInHand 0 (({ server with process }.goto task pc).task 0).handles := by
  constructor
  · intro other hmem
    have hne : other ≠ h := by
      rintro rfl
      exact htidy.sound.not_waiting hholds hmem
    rw [Process.closed_congr (hheap other hne)]
    exact htidy.waiting other hmem
  · rw [goto_task, hpc]
    refine htidy.inHand.frame ?_ ?_ ?_
    · intro fd events other hstored
      rwa [hserved.entry] at hstored
    · intro other hclosed
      by_cases hsame : other = h
      · exact .inr (hsame ▸ rfl)
      · rw [Process.closed_congr (hheap other hsame)] at hclosed
        exact .inl hclosed
    · intro other hother
      rw [Subsingleton.elim 0 task] at hother
      rcases hhand with hnone | hsome
      · rw [hnone] at hother
        contradiction
      · rw [← hother, hsome]

theorem tidy_step {action : Action 1} (htidy : server.Tidy) (hgrants : server.GrantsClosed action)
    (hnext : server.next action = some after) : after.Tidy := by
  have hstep := step_of_next hnext
  have hsound := sound_step htidy.sound (htidy.sound.erasesOwn action) hstep
  obtain ⟨hwaiting, hinhand⟩ : (∀ h ∈ after.handoff.waitQueue ++ after.acceptor.held,
      after.process.closed h = false) ∧
      after.process.ClosedInHand 0 (after.task 0).handles := by
    cases hstep with
    | refused => exact ⟨htidy.waiting, htidy.inHand⟩
    | accepted hacceptor hclosed =>
        constructor
        · intro h hmem
          rw [← Bool.not_eq_true]
          intro hnew
          have hold := Process.closed_newHandler _ _ _ _ _ hnew
          rcases List.mem_append.mp hmem with hqueued | hheld
          · have hopen := htidy.waiting h (List.mem_append_left _ hqueued)
            rw [hold] at hopen
            contradiction
          · have hmade := Process.lt_of_closed hold
            rw [List.mem_singleton.mp hheld] at hmade
            exact Nat.lt_irrefl _ hmade
        · exact htidy.inHand.frame (fun _ _ _ => id)
            (fun h hnew => .inl (Process.closed_newHandler _ _ _ _ _ hnew)) fun _ => id
    | discarded hacceptor hfull =>
        refine ⟨htidy.waiting_frame ?_ fun _ _ => rfl, htidy.inHand⟩
        simp [AcceptorPc.held]
    | enqueued hacceptor hroom =>
        refine ⟨htidy.waiting_frame ?_ fun _ _ => rfl, htidy.inHand⟩
        simp [Handoff.enqueue_waitQueue hroom, hacceptor, AcceptorPc.held]
    | killed hacceptor hkill =>
        refine ⟨htidy.waiting_frame ?_ fun _ _ => rfl, htidy.inHand⟩
        simp [(Handoff.sameQueue_kill hkill).waitQueue, hacceptor, AcceptorPc.held]
    | waited hsigwait =>
        refine ⟨htidy.waiting_frame ?_ fun _ _ => rfl, htidy.inHand⟩
        simp [(Handoff.sameQueue_sigwait hsigwait).waitQueue]
    | incremented hincrement =>
        refine ⟨htidy.waiting_frame ?_ fun _ _ => rfl, htidy.inHand⟩
        simp [(Handoff.sameQueue_increment hincrement).waitQueue]
    | selected hpc hready =>
        exact ⟨htidy.waiting, (htidy.idle (by rw [hpc]; rfl)).idle _⟩
    | tested hpc =>
        unfold testFlag
        split
        · exact ⟨htidy.waiting, (htidy.idle (by rw [hpc]; rfl)).idle _⟩
        · exact ⟨htidy.waiting, (htidy.idle (by rw [hpc]; rfl)).idle _⟩
    | @drained task process hpc hregister =>
        obtain ⟨hdrained, hsame⟩ := htidy.registerAll (by rw [hpc]; rfl) hregister
        refine ⟨htidy.waiting_frame ?_ fun h _ => hsame h, ?_⟩
        · simp [handleEvents, goto, Handoff.drain]
        · rw [handleEvents, goto_task]
          exact hdrained
    | finished hpc =>
        exact ⟨htidy.waiting, (htidy.idle (by rw [hpc]; rfl)).idle _⟩
    | dispatched hpc hentry =>
        exact ⟨htidy.waiting, (htidy.idle (by rw [hpc]; rfl)).idle _⟩
    | served hpc hserved hafter =>
        refine htidy.serve (by rw [hpc]; rfl) (.inl (by rw [hpc]; rfl)) hserved ?_ ?_
        · intro other hne
          simp only [next, hpc] at hnext
          obtain ⟨handler, later, pc, -, -, -, -, heq⟩ := serve_spec hnext
          rw [heq]
          exact List.getElem?_set_ne hne.symm
        · rcases hafter with rfl | rfl <;> rfl
    | closed hpc hserved =>
        refine htidy.serve (by rw [hpc]; rfl) (.inr (by rw [hpc]; rfl)) hserved ?_ rfl
        intro other hne
        simp only [next, hpc] at hnext
        obtain ⟨handler, later, socket, -, -, -, -, heq⟩ := close_spec hnext
        rw [heq]
        exact List.getElem?_set_ne hne.symm
    | removed hpc hhandler =>
        refine ⟨?_, htidy.remove_inHand hgrants hpc (Process.handler?_eq_some.mp hhandler).2⟩
        refine htidy.waiting_frame ?_ fun h _ => closed_remove _ _ h
        rw [handoff_remove, acceptor_remove]
        exact List.Subset.refl _
  exact ⟨hsound, hwaiting, hinhand⟩

theorem tidy_initial : (initial : Server 1).Tidy where
  sound := sound_initial
  waiting := by simp [initial, Handoff.initial, AcceptorPc.held]
  inHand := by
    intro fd events h hstored
    simp [initial, Process.initial, Process.entry] at hstored

/-- As long as no removal of a closed handler meets a non-zero `register_flag`,
no closed handler is left in the table, whatever the order of the steps. -/
theorem closed_unmapped (hreach : ((system 1).restrict GrantsClosed).Reachable server) :
    server.NoLeftover := by
  refine (hreach.invariant Tidy ?_ ?_).noLeftover
  · rintro start rfl
    exact tidy_initial
  · rintro first action last htidy ⟨hgrants, hnext⟩
    exact tidy_step htidy hgrants hnext

/-- A refusal leaves the closed handler in the table at once. -/
theorem Tidy.refusal_leaves {task : Fin 1} {h : HandlerId} {rest : List (Fd × UInt32)}
    (htidy : server.Tidy) (hpc : server.task task = .removing .testFlag h rest)
    (hclosed : server.process.closed h = true) (hflag : server.handoff.registerFlag ≠ 0)
    (hnext : server.next (.remove task) = some after) : ¬ after.NoLeftover := by
  simp only [next, hpc] at hnext
  obtain ⟨handler, hhandler, rfl⟩ := Option.map_eq_some_iff.mp hnext
  have hholds : (server.task task).holds = some h := by rw [hpc]; rfl
  obtain ⟨events, hstored⟩ :=
    htidy.sound.stored_of_holds hholds (Process.handler?_eq_some.mp hhandler).2
  rw [Subsingleton.elim handler.reactor 0] at hstored
  intro hnone
  refine hnone h ((closed_remove _ _ h).trans hclosed) ?_ handler.fd events hstored
  simp only [remove, if_pos hflag, goto_task]
  simp [TaskPc.handles]

instance (server : Server 1) : (action : Action 1) → Decidable (server.GrantsClosed action)
  | .remove task =>
      inferInstanceAs (Decidable (∀ h ∈ (server.task task).tests,
        server.process.closed h = true → server.handoff.registerFlag = 0))
  | .accept _ | .enqueue | .kill | .sigwait | .increment | .select _ _ | .testFlag _ | .drain _
  | .dispatch _ | .serve _ _ | .close _ => isTrue trivial

/-- A connection on `fd` is accepted, and the signal thread counts it. -/
def counted (fd : Fd) : List (Action 1) :=
  [.accept (some (fd, ⟨none, none, none⟩, 0)), .enqueue, .kill, .sigwait, .increment]

/-- The task stores it, and then serves and closes it on a hangup of the peer. -/
def storedAndClosed (fd : Fd) : List (Action 1) :=
  [.select 0 [], .testFlag 0, .drain 0, .dispatch 0, .select 0 [(fd, epollRdHup)], .testFlag 0,
    .dispatch 0, .serve 0 ⟨.error, .upTo 0, .blank⟩, .close 0]

/-- No connection arrives while the closed one is removed. -/
theorem quietRemoval_tidy : ∃ server : Server 1, server.NoLeftover ∧
    server.process.closed 0 = true ∧ server.task 0 = .dispatching [] := by
  obtain ⟨server, hreach, hend⟩ := Lts.exists_restricted_of_exec (initial : Server 1) next
    GrantsClosed (fun server => server.process.closed 0 = true ∧ server.task 0 = .dispatching [])
    (counted 5 ++ storedAndClosed 5 ++ List.replicate 6 (.remove 0)) (by decide +kernel)
  exact ⟨server, closed_unmapped hreach, hend⟩

/-- A second connection is counted between the close and the removal, which
refuses: `handle_event` has returned, and the table still maps the first one's
number to its closed handler. -/
theorem countedBetween_leftover : ∃ server : Server 1, (system 1).Reachable server ∧
    server.process.closed 0 = true ∧ server.task 0 = .dispatching [] ∧
    (server.process.entry 0 5).map Prod.snd = some (some 0) ∧ ¬ server.NoLeftover := by
  obtain ⟨server, hreach, hclosed, hpc, hentry⟩ := Lts.exists_reachable_of_exec
    (initial : Server 1) next
    (fun server => server.process.closed 0 = true ∧ server.task 0 = .dispatching [] ∧
      (server.process.entry 0 5).map Prod.snd = some (some 0))
    (counted 5 ++ storedAndClosed 5 ++ counted 6 ++ [.remove 0]) (by decide +kernel)
  refine ⟨server, hreach, hclosed, hpc, hentry, ?_⟩
  intro hnone
  obtain ⟨⟨events, _⟩, hstored, rfl⟩ := Option.map_eq_some_iff.mp hentry
  exact hnone 0 hclosed (by rw [hpc]; simp [TaskPc.handles]) 5 events hstored

end Server

end ZtHttp
