import ZtHttp.Event.Round
import ZtHttp.Server.Laws

/-!
# Home reactors

The accept loop gives a handler its reactor, round robin; the task that drains
the queue gives it a table. The two agree only where the handlers of the queue
happen to be drained by the task of their own reactor. The key in that table is
the handler's own descriptor in any case.
-/

namespace ZtHttp

open Imperative Transition

namespace Process

variable {ρ : Type}

/-- Every handler stored in a reactor's table has that reactor as its own. -/
def Homed (process : Process ρ) : Prop :=
  ∀ r fd events h, process.entry r fd = some (events, some h) →
    ∃ handler, process.heap[h]? = some handler ∧ handler.reactor = r

/-- Every handler that is stored fits the place where it is stored. -/
def Stores (fits : ρ → Fd → EpollEventHandler ρ → Prop) (process : Process ρ) : Prop :=
  ∀ r fd events h, process.entry r fd = some (events, some h) →
    ∃ handler, process.heap[h]? = some handler ∧ fits r fd handler

/-- Whether a handler fits depends on the members that never change. -/
def ByPlace (fits : ρ → Fd → EpollEventHandler ρ → Prop) : Prop :=
  ∀ r fd (before after : EpollEventHandler ρ), before.SamePlace after → fits r fd before →
    fits r fd after

section

variable {fits : ρ → Fd → EpollEventHandler ρ → Prop}

/-- A step that stores no handler and moves none keeps what is stored fitting. -/
theorem Stores.of_places {before after : Process ρ} (hstores : before.Stores fits)
    (hfits : ByPlace fits)
    (hentry : ∀ r fd events h, after.entry r fd = some (events, some h) →
      before.entry r fd = some (events, some h))
    (hplaces : before.Places after) : after.Stores fits := by
  intro r fd events h hstored
  obtain ⟨handler, hhandler, hbefore⟩ := hstores r fd events h (hentry r fd events h hstored)
  obtain ⟨later, hlater, hplace⟩ := hplaces h handler hhandler
  exact ⟨later, hlater, hfits r fd handler later hplace hbefore⟩

theorem Stores.served {before after : Process ρ} (hstores : before.Stores fits)
    (hfits : ByPlace fits) (hserved : before.Served after) : after.Stores fits :=
  hstores.of_places hfits (fun r fd events h hstored => by rwa [hserved.entry] at hstored)
    hserved.places

variable [DecidableEq ρ] {process last : Process ρ}

theorem Stores.register (hstores : process.Stores fits) {r : ρ} {h : HandlerId}
    {handler : EpollEventHandler ρ} (hhandler : process.handler? h = some handler)
    (hnew : fits r handler.fd handler) (granted : Bool) :
    (process.register granted r h handler).Stores fits := by
  intro other fd events found hstored
  rw [heap_register]
  rw [entry_register] at hstored
  -- the entry is the new one, or it was there before
  split at hstored
  · next hkey =>
      obtain ⟨rfl, rfl⟩ := hkey
      cases hstored
      exact ⟨handler, (handler?_eq_some.mp hhandler).2, hnew⟩
  · exact hstores other fd events found hstored

/-- Draining a queue whose handlers all fit keeps the tables fitting. -/
theorem Stores.registerAll {r : ρ} {handlers : List HandlerId} (hstores : process.Stores fits)
    (hhandlers : ∀ h ∈ handlers, ∀ handler ∈ process.heap[h]?, fits r handler.fd handler)
    {granted : Bool} (hcall : Process.registerAll granted r handlers process = .ok () last) :
    last.Stores fits := by
  have hdrained := registerAll_preserves
    (fun (rest : List HandlerId) (process : Process ρ) => process.Stores fits ∧
      ∀ h ∈ rest, ∀ handler ∈ process.heap[h]?, fits r handler.fd handler) ?_
    ⟨hstores, hhandlers⟩ hcall
  · exact hdrained.1
  · rintro h rest process handler ⟨hstores, hrest⟩ hhandler
    have hnew := hrest h List.mem_cons_self handler (handler?_eq_some.mp hhandler).2
    refine ⟨hstores.register hhandler hnew granted, ?_⟩
    intro other hother found hfound
    rw [heap_register] at hfound
    exact hrest other (List.mem_cons_of_mem _ hother) found hfound

end

end Process

namespace Server

variable {count : Nat}

/-- A task drains the queue only when every handler in it is at home in the
task's own reactor. -/
def DrainsHome (server : Server count) : Action count → Prop
  | .drain task =>
      ∀ h ∈ server.handoff.waitQueue, ∀ handler ∈ server.process.heap[h]?, handler.reactor = task
  | _ => True

variable [NeZero count]

theorem stores_step {fits : Fin count → Fd → EpollEventHandler (Fin count) → Prop}
    (hfits : Process.ByPlace fits) {server after : Server count} {action : Action count}
    (hstores : server.process.Stores fits)
    (hdrains : ∀ task, action = .drain task → ∀ h ∈ server.handoff.waitQueue,
      ∀ handler ∈ server.process.heap[h]?, fits task handler.fd handler)
    (hstep : Step server action after) : after.process.Stores fits := by
  cases hstep with
  | refused | discarded | enqueued | killed | waited | incremented => exact hstores
  | selected | finished | dispatched => exact hstores
  | accepted hacceptor hclosed =>
      exact hstores.of_places hfits (fun _ _ _ _ hstored => hstored)
        (Process.places_newHandler _ _ _ _ _ _)
  | tested hpc =>
      rw [testFlag]
      split <;> exact hstores
  | drained hpc hregister =>
      refine hstores.registerAll ?_ hregister
      intro h hmem
      exact hdrains _ rfl h (List.mem_reverse.mp hmem)
  | served hpc hserved hafter => exact hstores.served hfits hserved
  | closed hpc hserved => exact hstores.served hfits hserved
  | removed hpc hhandler =>
      exact hstores.of_places hfits (fun _ _ _ _ => stored_of_remove _ _)
        (.of_heap (heap_remove _ _))

theorem stores_initial (fits : Fin count → Fd → EpollEventHandler (Fin count) → Prop) :
    (initial : Server count).process.Stores fits := by
  intro r fd events h hstored
  simp [initial, Process.initial, Process.entry] at hstored

/-- Whatever happens, every handler is stored under its own descriptor. -/
theorem stored_filed {server : Server count} (hreach : (system count).Reachable server) :
    server.process.Stores fun _ fd handler => handler.fd = fd := by
  have hfits : Process.ByPlace fun (_ : Fin count) fd handler => handler.fd = fd :=
    fun _ _ _ _ hplace => hplace.fd.trans
  refine hreach.invariant (fun server => server.process.Stores fun _ fd handler =>
    handler.fd = fd) ?_ ?_
  · rintro start rfl
    exact stores_initial _
  · intro first action last hstores hnext
    exact stores_step hfits hstores (fun _ _ _ _ _ _ => rfl) (step_of_next hnext)

/-- So what a reactor at home has for a descriptor is hosted there as long as it
lives. -/
theorem hosts_of_stored {server : Server count} (hreach : (system count).Reachable server)
    (hhomed : server.process.Homed) {task : Fin count} {fd : Fd} {events : UInt32}
    {h : HandlerId} {handler : EpollEventHandler (Fin count)}
    (hstored : server.process.entry task fd = some (events, some h))
    (hlive : server.process.handler? h = some handler) :
    server.process.Hosts task fd h handler := by
  have hheap := (Process.handler?_eq_some.mp hlive).2
  obtain ⟨found, hfound, hhome⟩ := hhomed task fd events h hstored
  obtain ⟨filed, hfiled, hfd⟩ := stored_filed hreach task fd events h hstored
  cases hheap.symm.trans hfound
  cases hheap.symm.trans hfiled
  exact ⟨⟨events, hstored⟩, hlive, hfd, hhome⟩

/-- Where every drain finds only handlers of its own reactor, every stored
handler has the reactor that stores it as its own. -/
theorem stored_homed {server : Server count}
    (hreach : ((system count).restrict DrainsHome).Reachable server) : server.process.Homed := by
  refine hreach.invariant (fun server => server.process.Homed) ?_ ?_
  · rintro start rfl
    exact stores_initial fun r _ handler => handler.reactor = r
  · rintro first action last hhomed ⟨hdrains, hnext⟩
    have hfits : Process.ByPlace fun r _ (handler : EpollEventHandler (Fin count)) =>
        handler.reactor = r := fun _ _ _ _ hplace => hplace.reactor.trans
    refine stores_step hfits hhomed ?_ (step_of_next hnext)
    rintro task rfl
    exact hdrains

instance (server : Server count) : (action : Action count) → Decidable (server.DrainsHome action)
  | .drain task =>
      inferInstanceAs (Decidable (∀ h ∈ server.handoff.waitQueue,
        ∀ handler ∈ server.process.heap[h]?, handler.reactor = task))
  | .accept _ | .enqueue | .kill | .sigwait | .increment | .select _ _ | .testFlag _
  | .dispatch _ | .serve _ _ | .close _ | .remove _ => isTrue trivial

/-- A connection on `fd`, queued and counted, with zeroed memory. -/
def arrive (fd : Fd) : List (Action 2) :=
  [.accept (some (fd, ⟨none, none, none⟩, 0)), .enqueue, .kill, .sigwait, .increment]

/-- The first connection belongs to reactor 1, whose task drains it. -/
theorem ownDrain_homed : ∃ server : Server 2, server.process.Homed ∧
    (server.process.entry 1 5).map Prod.snd = some (some 0) := by
  obtain ⟨server, hreach, hstored⟩ := Lts.exists_restricted_of_exec (initial : Server 2) next
    DrainsHome (fun server => (server.process.entry 1 5).map Prod.snd = some (some 0))
    (arrive 5 ++ [.select 1 [], .testFlag 1, .drain 1]) (by decide +kernel)
  exact ⟨server, stored_homed hreach, hstored⟩

/-- The first connection belongs to reactor 1, but task 0 is the first to read
the flag and stores it in the table of reactor 0. -/
theorem firstTask_foreign : ∃ server : Server 2, (system 2).Reachable server ∧
    (server.process.entry 0 5).map Prod.snd = some (some 0) ∧
    server.process.heap.map EpollEventHandler.reactor = [1] :=
  Lts.exists_reachable_of_exec (initial : Server 2) next
    (fun server => (server.process.entry 0 5).map Prod.snd = some (some 0) ∧
      server.process.heap.map EpollEventHandler.reactor = [1])
    (arrive 5 ++ [.select 0 [], .testFlag 0, .drain 0]) (by decide +kernel)

end Server

end ZtHttp
