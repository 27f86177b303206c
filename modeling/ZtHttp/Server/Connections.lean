import ZtHttp.Server.Leftover
import ZtHttp.Server.Ledger

/-!
# Who has which descriptor

Each handler is registered once, with the reactor of the task that took it. As
long as its socket is not closed it owns its descriptor, and the table that
stores it stores it under that number. The task of that reactor is the only one
to watch, to serve and to close it.
-/

namespace ZtHttp

open Imperative

namespace TaskPc

/-- The handler that the task works on. -/
def hand : TaskPc → Option HandlerId
  | .serving h _ _ | .closing h _ | .removing _ h _ => some h
  | .selecting | .testing | .registering | .dispatching _ => none

/-- The handler that the task is about to serve or to close. -/
def serves : TaskPc → Option HandlerId
  | .serving h _ _ | .closing h _ => some h
  | .selecting | .testing | .registering | .dispatching _ | .removing _ _ _ => none

theorem hand_of_serves {pc : TaskPc} {h : HandlerId} (hserves : pc.serves = some h) :
    pc.hand = some h := by
  cases pc <;> first | exact hserves | contradiction

end TaskPc

/-- The open descriptors belong to connections that are not closed. -/
structure Ledger.Fits {ρ : Type} (ledger : Ledger) (process : Process ρ) : Prop where
  owned : ∀ fd h, ledger.owner fd = some h → process.kernel.opened fd = true ∧
    process.closed h = false ∧ ∃ handler, process.heap[h]? = some handler ∧ handler.fd = fd
  line : ∀ (h : HandlerId) (handler : EpollEventHandler ρ), process.heap[h]? = some handler →
    ∃ connected, handler.line = some (handler.fd % 2 ^ 16, connected)

theorem Ledger.Fits.unique {ρ : Type} {ledger : Ledger} {process : Process ρ} {fd other : Fd}
    {h : HandlerId} (hfits : ledger.Fits process) (howner : ledger.owner fd = some h)
    (hother : ledger.owner other = some h) : other = fd := by
  obtain ⟨-, -, handler, hheap, rfl⟩ := hfits.owned fd h howner
  obtain ⟨-, -, found, hfound, rfl⟩ := hfits.owned other h hother
  cases hheap.symm.trans hfound
  rfl

/-- The owner keeps its place where every handler does. -/
theorem Ledger.Fits.owned_of_places {ρ : Type} {ledger : Ledger} {process after : Process ρ}
    {fd : Fd} {h : HandlerId} (hfits : ledger.Fits process) (hplaces : process.Places after)
    (howner : ledger.owner fd = some h) : process.kernel.opened fd = true ∧
      process.closed h = false ∧ ∃ handler, after.heap[h]? = some handler ∧ handler.fd = fd := by
  obtain ⟨hopened, hopen, handler, hheap, hfd⟩ := hfits.owned fd h howner
  obtain ⟨later, hlater, hplace⟩ := hplaces h handler hheap
  exact ⟨hopened, hopen, later, hlater, hplace.fd.trans hfd⟩

namespace Process

variable {ρ : Type} {process after : Process ρ} {h : HandlerId} {task : ρ} {pc pc' : TaskPc}

/-- Each handler's number, its socket's descriptor, and whether the socket is
connected. -/
def lines (process : Process ρ) : List (Fd × Option (Fd × Bool)) :=
  process.heap.map fun handler => (handler.fd, handler.line)

theorem lines_of_heap (hheap : after.heap = process.heap) : after.lines = process.lines := by
  rw [lines, lines, hheap]

theorem getElem?_lines : process.lines[h]? =
    process.heap[h]?.map fun handler => (handler.fd, handler.line) := List.getElem?_map

theorem closed_eq (process : Process ρ) (h : HandlerId) :
    process.closed h = (process.lines[h]?.bind Prod.snd).any fun line => !line.2 := by
  rw [getElem?_lines, closed]
  cases process.heap[h]? with
  | none => rfl
  | some handler => cases htcp : handler.tcp <;> simp [EpollEventHandler.line, TcpSocket.line, htcp]

theorem closed_of_line {handler : EpollEventHandler ρ} {fd : Fd} {connected : Bool}
    (hheap : process.heap[h]? = some handler) (hline : handler.line = some (fd, connected)) :
    process.closed h = !connected := by
  rw [closed_eq, getElem?_lines, hheap, Option.map_some, Option.bind_some, hline, Option.any_some]

theorem lines_setHandler {handler later : EpollEventHandler ρ}
    (hheap : process.heap[h]? = some handler) (hplace : handler.SamePlace later)
    (hline : later.line = handler.line) : (process.setHandler h later).lines = process.lines := by
  apply List.ext_getElem?
  intro other
  rw [getElem?_lines, getElem?_lines, heap_setHandler]
  by_cases hsame : h = other
  · subst hsame
    rw [List.getElem?_set_self (List.getElem?_eq_some_iff.mp hheap).1, hheap, Option.map_some,
      Option.map_some, hplace.fd, hline]
  · rw [List.getElem?_set_ne hsame]

theorem found_of_lines {found : EpollEventHandler ρ} (hlines : after.lines = process.lines)
    (hfound : after.heap[h]? = some found) :
    ∃ before, process.heap[h]? = some before ∧ before.fd = found.fd ∧ before.line = found.line := by
  have hsame : process.heap[h]?.map (fun handler => (handler.fd, handler.line)) =
      some (found.fd, found.line) := by
    rw [← getElem?_lines, ← hlines, getElem?_lines, hfound, Option.map_some]
  obtain ⟨before, hbefore, heq⟩ := Option.map_eq_some_iff.mp hsame
  exact ⟨before, hbefore, congrArg Prod.fst heq, congrArg Prod.snd heq⟩

/-- Whom a task may come to serve: what it watches, what is ready and what it
has in hand is not closed. -/
structure ServesOpen (process : Process ρ) (task : ρ) (pc : TaskPc) : Prop where
  watched : ∀ fd events h, process.watched task fd ≠ none →
    process.entry task fd = some (events, some h) → process.closed h = false
  ready : ∀ event ∈ pc.left (process.rdy task), ∀ events h,
    process.entry task event.1 = some (events, some h) → process.closed h = false
  nodup : ((pc.left (process.rdy task)).map Prod.fst).Nodup
  serves : ∀ h, pc.serves = some h → process.closed h = false
  hand : ∀ h, pc.hand = some h → ∃ handler, process.heap[h]? = some handler ∧
    ∀ event ∈ pc.left (process.rdy task), event.1 ≠ handler.fd

/-- A task that moves on without touching the shared memory. -/
theorem ServesOpen.goto (hserves : process.ServesOpen task pc)
    (hleft : (pc'.left (process.rdy task)).Sublist (pc.left (process.rdy task)))
    (hopen : ∀ h, pc'.serves = some h → pc.serves = some h)
    (hhand : ∀ h, pc'.hand = some h → pc.hand = some h) : process.ServesOpen task pc' where
  watched := hserves.watched
  ready event hevent := hserves.ready event (hleft.subset hevent)
  nodup := hserves.nodup.sublist (hleft.map Prod.fst)
  serves h hpc := hserves.serves h (hopen h hpc)
  hand h hpc := by
    obtain ⟨handler, hheap, hrest⟩ := hserves.hand h (hhand h hpc)
    exact ⟨handler, hheap, fun event hevent => hrest event (hleft.subset hevent)⟩

/-- A step that stores and watches nothing for the task, leaves its ready events
alone and closes none of its handlers. -/
theorem ServesOpen.frame (hserves : process.ServesOpen task pc)
    (hentry : ∀ fd events h, after.entry task fd = some (events, some h) →
      process.entry task fd = some (events, some h))
    (hwatched : ∀ fd, after.watched task fd ≠ none → process.watched task fd ≠ none)
    (hrdy : after.rdy task = process.rdy task) (hplaces : process.Places after)
    (hclosed : ∀ h, (∃ fd events, process.entry task fd = some (events, some h)) ∨
      pc.hand = some h → process.closed h = false → after.closed h = false) :
    after.ServesOpen task pc where
  watched fd events h hfd hstored := by
    have hbefore := hentry fd events h hstored
    exact hclosed h (.inl ⟨fd, events, hbefore⟩)
      (hserves.watched fd events h (hwatched fd hfd) hbefore)
  ready event hevent events h hstored := by
    rw [hrdy] at hevent
    have hbefore := hentry event.1 events h hstored
    exact hclosed h (.inl ⟨event.1, events, hbefore⟩) (hserves.ready event hevent events h hbefore)
  nodup := hrdy ▸ hserves.nodup
  serves h hpc := by
    exact hclosed h (.inr (TaskPc.hand_of_serves hpc)) (hserves.serves h hpc)
  hand h hpc := by
    obtain ⟨handler, hheap, hrest⟩ := hserves.hand h hpc
    obtain ⟨later, hlater, hplace⟩ := hplaces h handler hheap
    refine ⟨later, hlater, ?_⟩
    rw [hplace.fd, hrdy]
    exact hrest

/-- Where each handler was registered, if it was. -/
structure Traced (home : HandlerId → Option ρ) (process : Process ρ)
    (handlers : List HandlerId) (pc : ρ → TaskPc) (quit : ρ → QuitPc) (ledger : Ledger) :
    Prop where
  waiting : ∀ h ∈ handlers, home h = none
  made : ∀ h ∈ handlers, h < process.heap.length
  nodup : handlers.Nodup
  fresh : ∀ h, process.heap.length ≤ h → home h = none
  homeless : ∀ h, home h = none → process.closed h = false
  stored : ∀ r fd events h, process.entry r fd = some (events, some h) →
    home h = some r ∧ (quit r).cleared = false ∧
      ∃ handler, process.heap[h]? = some handler ∧ handler.fd = fd
  hand : ∀ task h, (pc task).hand = some h → home h = some task ∧ quit task = .running
  owns : ∀ h handler, process.heap[h]? = some handler → process.closed h = false →
    (∀ r, home h = some r → (quit r).cleared = false) → ledger.owner handler.fd = some h
  fits : ledger.Fits process
  settled : ledger.Settled process.heap.length
  serves : ∀ task, process.ServesOpen task (pc task)

variable {home : HandlerId → Option ρ} {handlers others : List HandlerId} {pc pc' : ρ → TaskPc}
  {quit quit' : ρ → QuitPc} {ledger : Ledger}

theorem Traced.stored_of_places {r : ρ} {fd : Fd} {events : UInt32}
    (htraced : process.Traced home handlers pc quit ledger) (hplaces : process.Places after)
    (hstored : process.entry r fd = some (events, some h)) :
    home h = some r ∧ (quit r).cleared = false ∧
      ∃ handler, after.heap[h]? = some handler ∧ handler.fd = fd := by
  obtain ⟨hhome, hcleared, handler, hheap, hfd⟩ := htraced.stored r fd events h hstored
  obtain ⟨later, hlater, hplace⟩ := hplaces h handler hheap
  exact ⟨hhome, hcleared, later, hlater, hplace.fd.trans hfd⟩

theorem Traced.perm (htraced : process.Traced home handlers pc quit ledger)
    (hperm : others.Perm handlers) : process.Traced home others pc quit ledger :=
  { htraced with
    waiting := fun h hmem => htraced.waiting h (hperm.mem_iff.mp hmem)
    made := fun h hmem => htraced.made h (hperm.mem_iff.mp hmem)
    nodup := hperm.nodup_iff.mpr htraced.nodup }

theorem Traced.sublist (htraced : process.Traced home handlers pc quit ledger)
    (hsublist : others.Sublist handlers) : process.Traced home others pc quit ledger :=
  { htraced with
    waiting := fun h hmem => htraced.waiting h (hsublist.subset hmem)
    made := fun h hmem => htraced.made h (hsublist.subset hmem)
    nodup := htraced.nodup.sublist hsublist }

/-- A task that goes on with, or comes to, `quit_and_rst`. -/
theorem Traced.requit (htraced : process.Traced home handlers pc quit ledger)
    (hcleared : ∀ r, (quit' r).cleared = (quit r).cleared)
    (hhand : ∀ task h, (pc task).hand = some h → quit' task = .running) :
    process.Traced home handlers pc quit' ledger :=
  { htraced with
    stored := fun r fd events h hstored => by
      rw [hcleared]
      exact htraced.stored r fd events h hstored
    hand := fun task h hpc => ⟨(htraced.hand task h hpc).1, hhand task h hpc⟩
    owns := fun h handler hheap hopen hhome => by
      simp only [hcleared] at hhome
      exact htraced.owns h handler hheap hopen hhome }

/-- A task that is not running goes on with `quit_and_rst`. -/
theorem Traced.quits [DecidableEq ρ] {next : QuitPc}
    (htraced : process.Traced home handlers pc quit ledger) (hquit : quit task ≠ .running)
    (hcleared : next.cleared = (quit task).cleared) :
    process.Traced home handlers pc (Function.update quit task next) ledger := by
  apply htraced.requit
  · intro other
    rw [Function.update_apply]
    split
    · next hsame => rw [hsame, hcleared]
    · rfl
  · intro other h hhand
    have hother := (htraced.hand other h hhand).2
    have hne : other ≠ task := by
      rintro rfl
      exact hquit hother
    rw [Function.update_of_ne hne, hother]

/-- A step that leaves the handlers' lines and the open descriptors alone and
stores nothing. -/
theorem Traced.frame (htraced : process.Traced home handlers pc quit ledger)
    (hlines : after.lines = process.lines)
    (hentry : ∀ r fd events h, after.entry r fd = some (events, some h) →
      process.entry r fd = some (events, some h))
    (hopened : ∀ fd, after.kernel.opened fd = process.kernel.opened fd)
    (hhand : ∀ task h, (pc' task).hand = some h → home h = some task ∧ quit task = .running)
    (hserves : ∀ task, after.ServesOpen task (pc' task)) :
    after.Traced home handlers pc' quit ledger := by
  have hlength : after.heap.length = process.heap.length := by
    have hlengths := congrArg List.length hlines
    rwa [lines, lines, List.length_map, List.length_map] at hlengths
  have hclosed : ∀ h, after.closed h = process.closed h := by
    intro h
    rw [closed_eq, closed_eq, hlines]
  have hkept : ∀ (h : HandlerId) (fd : Fd), (∃ handler, process.heap[h]? = some handler ∧
      handler.fd = fd) → ∃ handler, after.heap[h]? = some handler ∧ handler.fd = fd := by
    rintro h fd ⟨handler, hheap, rfl⟩
    obtain ⟨later, hlater, hfd, -⟩ := found_of_lines hlines.symm hheap
    exact ⟨later, hlater, hfd⟩
  exact {
    waiting := htraced.waiting
    made := by
      rw [hlength]
      exact htraced.made
    nodup := htraced.nodup
    fresh := by
      rw [hlength]
      exact htraced.fresh
    homeless := by
      intro h hhome
      rw [hclosed]
      exact htraced.homeless h hhome
    stored := by
      intro r fd events h hstored
      obtain ⟨hhome, hcleared, hheap⟩ := htraced.stored r fd events h (hentry r fd events h hstored)
      exact ⟨hhome, hcleared, hkept h fd hheap⟩
    hand := hhand
    owns := by
      intro h found hfound hopen hhome
      obtain ⟨before, hbefore, hfd, -⟩ := found_of_lines hlines hfound
      rw [hclosed] at hopen
      rw [← hfd]
      exact htraced.owns h before hbefore hopen hhome
    fits.owned := by
      intro fd h howner
      obtain ⟨hbefore, hopen, hheap⟩ := htraced.fits.owned fd h howner
      rw [hopened, hclosed]
      exact ⟨hbefore, hopen, hkept h fd hheap⟩
    fits.line := by
      intro h found hfound
      obtain ⟨before, hbefore, hfd, hline⟩ := found_of_lines hlines hfound
      rw [← hfd, ← hline]
      exact htraced.fits.line h before hbefore
    settled := by
      rw [hlength]
      exact htraced.settled
    serves := hserves }

/-! ### The steps that close nothing -/

section

variable {fd : Fd} {events : UInt32} {reactor : ρ} {memory : Slots} {rdyEvents : UInt32}

theorem heap_newHandler_cases {handler : EpollEventHandler ρ}
    (hheap : (process.newHandler events fd reactor memory rdyEvents).heap[h]? = some handler) :
    process.heap[h]? = some handler ∨ (h = process.heap.length ∧
      handler = .create events fd reactor (.create fd memory) rdyEvents) := by
  rw [heap_newHandler] at hheap
  rcases Nat.lt_trichotomy h process.heap.length with hlt | rfl | hgt
  · exact .inl ((List.getElem?_append_left hlt).symm.trans hheap)
  · exact .inr ⟨rfl, (Option.some.inj (List.getElem?_concat_length.symm.trans hheap)).symm⟩
  · have hbound := (List.getElem?_eq_some_iff.mp hheap).1
    rw [List.length_append, List.length_singleton] at hbound
    omega

theorem open_newHandler (hopen : process.closed h = false) :
    (process.newHandler events fd reactor memory rdyEvents).closed h = false := by
  rw [← Bool.not_eq_true] at hopen ⊢
  exact fun hnew => hopen (closed_newHandler _ _ _ _ _ hnew)

/-- The new connection owns the descriptor that nobody owned. -/
theorem Traced.fits_accept (htraced : process.Traced home handlers pc quit ledger) :
    (ledger.accept fd process.heap.length).Fits
      (process.newHandler events fd reactor memory rdyEvents) := by
  refine ⟨?_, ?_⟩
  · intro key h howner
    rw [Ledger.owner_accept] at howner
    split at howner
    · next hsame =>
        cases howner
        refine ⟨?_, open_newHandler (htraced.homeless _ (htraced.fresh _ (Nat.le_refl _))), _,
          List.getElem?_concat_length, hsame.symm⟩
        rw [newHandler_opened, if_pos hsame]
    · next hne =>
        obtain ⟨hopened, hbefore, hfound⟩ := htraced.fits.owned_of_places
          (places_newHandler process events fd reactor memory rdyEvents) howner
        refine ⟨?_, open_newHandler hbefore, hfound⟩
        rw [newHandler_opened, if_neg hne, hopened]
  · intro h handler hheap
    rcases heap_newHandler_cases hheap with hold | ⟨-, rfl⟩
    · exact htraced.fits.line h handler hold
    · exact ⟨true, rfl⟩

/-- `accept` hands out a descriptor that nobody owns. -/
theorem Traced.newHandler (htraced : process.Traced home handlers pc quit ledger)
    (hunused : process.kernel.opened fd = false) (events : UInt32) (reactor : ρ) (memory : Slots)
    (rdyEvents : UInt32) :
    (process.newHandler events fd reactor memory rdyEvents).Traced home
      (handlers ++ [process.heap.length]) pc quit (ledger.accept fd process.heap.length) := by
  let last := process.newHandler events fd reactor memory rdyEvents
  have hplaces : process.Places last := places_newHandler process events fd reactor memory rdyEvents
  have hlength : last.heap.length = process.heap.length + 1 := List.length_append
  exact {
    waiting := by
      intro h hmem
      rcases List.mem_append.mp hmem with hold | hnew
      · exact htraced.waiting h hold
      · exact htraced.fresh h (Nat.le_of_eq (List.mem_singleton.mp hnew).symm)
    made := by
      intro h hmem
      change h < last.heap.length
      rw [hlength]
      rcases List.mem_append.mp hmem with hold | hnew
      · exact Nat.lt_succ_of_lt (htraced.made h hold)
      · exact Nat.lt_succ_of_le (Nat.le_of_eq (List.mem_singleton.mp hnew))
    nodup := by
      refine List.nodup_append.mpr ⟨htraced.nodup, by simp, ?_⟩
      intro h hold other hnew hsame
      have hmade := htraced.made h hold
      rw [hsame, List.mem_singleton.mp hnew] at hmade
      exact Nat.lt_irrefl _ hmade
    fresh := by
      intro h hle
      change last.heap.length ≤ h at hle
      exact htraced.fresh h (by omega)
    homeless := fun h hhome => open_newHandler (htraced.homeless h hhome)
    stored := by
      intro r key mask h hstored
      exact htraced.stored_of_places hplaces hstored
    hand := htraced.hand
    owns := by
      intro h handler hheap hclosed hhome
      rw [Ledger.owner_accept]
      rcases heap_newHandler_cases hheap with hold | ⟨rfl, rfl⟩
      · have hbefore : process.closed h = false := by
          rw [← hclosed]
          exact closed_congr (hold.trans hheap.symm)
        have howner := htraced.owns h handler hold hbefore hhome
        have hne : handler.fd ≠ fd := by
          intro hsame
          have hopened := (htraced.fits.owned _ _ howner).1
          rw [hsame, hunused] at hopened
          contradiction
        rw [if_neg hne, howner]
      · exact if_pos rfl
    fits := htraced.fits_accept
    settled := by
      change Ledger.Settled _ last.heap.length
      rw [hlength]
      exact htraced.settled.accept fd
    serves := by
      intro task
      exact (htraced.serves task).frame (fun _ _ _ => id) (fun _ => id) rfl hplaces
        fun h _ => open_newHandler }

end

theorem heap_setHandler_cases {later found : EpollEventHandler ρ} {other : HandlerId}
    (hheap : (process.setHandler h later).heap[other]? = some found) :
    (other = h ∧ found = later) ∨ (other ≠ h ∧ process.heap[other]? = some found) := by
  rw [heap_setHandler] at hheap
  by_cases hsame : other = h
  · subst hsame
    rw [List.getElem?_set_self', Option.map_eq_map, Option.map_eq_some_iff] at hheap
    obtain ⟨_, -, heq⟩ := hheap
    exact .inl ⟨rfl, heq.symm⟩
  · rw [List.getElem?_set_ne (Ne.symm hsame)] at hheap
    exact .inr ⟨hsame, hheap⟩

/-- Serving leaves the handler's descriptor and whether it is closed alone. -/
theorem Traced.setHandler {handler later : EpollEventHandler ρ}
    (htraced : process.Traced home handlers pc quit ledger)
    (hheap : process.heap[h]? = some handler) (hplace : handler.SamePlace later)
    (hline : later.line = handler.line) :
    (process.setHandler h later).Traced home handlers pc quit ledger := by
  have hlines := lines_setHandler hheap hplace hline
  refine htraced.frame hlines (fun _ _ _ _ => id) (fun _ => rfl) htraced.hand ?_
  intro task
  refine (htraced.serves task).frame (fun _ _ _ => id) (fun _ => id) rfl
    (served_setHandler hheap hplace).places ?_
  intro other _ hopen
  rw [closed_eq, hlines, ← closed_eq, hopen]

/-- A handler that is about to be closed owns its descriptor. -/
theorem Traced.owner_of_serves {handler : EpollEventHandler ρ}
    (htraced : process.Traced home handlers pc quit ledger) (hserves : (pc task).serves = some h)
    (hheap : process.heap[h]? = some handler) : ledger.owner handler.fd = some h := by
  obtain ⟨hhome, hquit⟩ := htraced.hand task h (TaskPc.hand_of_serves hserves)
  refine htraced.owns h handler hheap ((htraced.serves task).serves h hserves) ?_
  intro r hr
  cases hhome.symm.trans hr
  rw [hquit]
  rfl

section

variable [DecidableEq ρ] {next : TaskPc}

/-- The handlers in hand where one task comes to another place. -/
theorem Traced.hand_goto (htraced : process.Traced home handlers pc quit ledger)
    (hnext : ∀ h, next.hand = some h → home h = some task ∧ quit task = .running) (other : ρ)
    (h : HandlerId) (hhand : (if other = task then next else pc other).hand = some h) :
    home h = some other ∧ quit other = .running := by
  split at hhand
  · next hsame =>
      rw [hsame]
      exact hnext h hhand
  · exact htraced.hand other h hhand

theorem Traced.goto (htraced : process.Traced home handlers pc quit ledger)
    (hleft : (next.left (process.rdy task)).Sublist ((pc task).left (process.rdy task)))
    (hopen : ∀ h, next.serves = some h → (pc task).serves = some h)
    (hhand : ∀ h, next.hand = some h → (pc task).hand = some h) :
    process.Traced home handlers (fun other => if other = task then next else pc other) quit
      ledger :=
  { htraced with
    hand := htraced.hand_goto fun h hpc => htraced.hand task h (hhand h hpc)
    serves := forall_goto ((htraced.serves task).goto hleft hopen hhand)
      fun other _ => htraced.serves other }

theorem Traced.turn (htraced : process.Traced home handlers pc quit ledger)
    (hleft : next.left (process.rdy task) = (pc task).left (process.rdy task))
    (hopen : next.serves = none) (hhand : next.hand = none) :
    process.Traced home handlers (fun other => if other = task then next else pc other) quit
      ledger :=
  htraced.goto (hleft ▸ List.Sublist.refl _) (by simp [hopen]) (by simp [hhand])

/-- A task that has nothing in hand changes only its own ready events. -/
theorem Traced.ready (htraced : process.Traced home handlers pc quit ledger) (rdy : FdMap UInt32)
    (hsame : after.heap = process.heap ∧ after.fds = process.fds ∧ after.kernel = process.kernel)
    (hrdy : ∀ other, after.rdy other = if other = task then rdy else process.rdy other)
    (hleft : next.left rdy = rdy.toList)
    (hopen : ∀ event ∈ rdy.toList, ∀ events h,
      process.entry task event.1 = some (events, some h) → process.closed h = false)
    (hserves : next.serves = none) (hhand : next.hand = none) :
    after.Traced home handlers (fun other => if other = task then next else pc other) quit
      ledger := by
  obtain ⟨hheap, hfds, hkernel⟩ := hsame
  have hentry : ∀ r fd, after.entry r fd = process.entry r fd := by
    intro r fd
    rw [entry, entry, hfds]
  have hwatched : ∀ r fd, after.watched r fd = process.watched r fd := by
    intro r fd
    rw [watched, watched, hkernel]
  have hclosed : ∀ h, after.closed h = process.closed h := fun h => closed_congr (by rw [hheap])
  refine htraced.frame (lines_of_heap hheap)
    (fun r fd events h hstored => by rwa [hentry] at hstored) (fun fd => by rw [hkernel])
    (htraced.hand_goto (by simp [hhand])) ?_
  · have hown : after.rdy task = rdy := by rw [hrdy, if_pos rfl]
    refine forall_goto ?_ ?_
    · exact {
        watched := by
          intro fd events h hfd hstored
          rw [hwatched] at hfd
          rw [hentry] at hstored
          rw [hclosed]
          exact (htraced.serves task).watched fd events h hfd hstored
        ready := by
          intro event hevent events h hstored
          rw [hown, hleft] at hevent
          rw [hentry] at hstored
          rw [hclosed]
          exact hopen event hevent events h hstored
        nodup := by
          rw [hown, hleft]
          exact nodup_keys rdy
        serves := by simp [hserves]
        hand := by simp [hhand] }
    · intro other hne
      refine (htraced.serves other).frame (fun fd events h hstored => by rwa [hentry] at hstored)
        (fun fd hfd => by rwa [hwatched] at hfd) ?_ (.of_heap hheap)
        fun h _ hbefore => (hclosed h).trans hbefore
      rw [hrdy, if_neg hne]

/-- `select` reports what is watched. -/
theorem Traced.setReady {reported : List (Fd × UInt32)}
    (htraced : process.Traced home handlers pc quit ledger) (hpc : pc task = .selecting)
    (hreported : ∀ event ∈ reported, process.watched task event.1 ≠ none) :
    (process.setReady task reported).Traced home handlers
      (fun other => if other = task then .testing else pc other) quit ledger := by
  have hserves := htraced.serves task
  rw [hpc] at hserves
  refine htraced.ready (reported.foldl (fun rdy event => rdy.insert event.1 event.2)
    (process.rdy task)) ⟨rfl, rfl, rfl⟩ ?_ rfl ?_ rfl rfl
  · intro other
    unfold Process.setReady
    dsimp only
    split
    · next hsame => rw [hsame]
    · rfl
  · intro event hevent events h hstored
    rcases mem_foldl_insert hevent with hnew | hold
    · exact hserves.watched event.1 events h (hreported event hnew) hstored
    · exact hserves.ready event hold events h hstored

theorem Traced.clearReady (htraced : process.Traced home handlers pc quit ledger) :
    (process.clearReady task).Traced home handlers
      (fun other => if other = task then .selecting else pc other) quit ledger := by
  refine htraced.ready ∅ ⟨rfl, rfl, rfl⟩ (fun _ => rfl) rfl ?_ rfl rfl
  simp

/-- The lookup takes a stored handler in hand. -/
theorem Traced.dispatched {fd : Fd} {mask events : UInt32} {rest : List (Fd × UInt32)}
    (htraced : process.Traced home handlers pc quit ledger)
    (hpc : pc task = .dispatching ((fd, mask) :: rest)) (hquit : quit task = .running)
    (hentry : process.entry task fd = some (events, some h)) :
    process.Traced home handlers
      (fun other => if other = task then .serving h mask rest else pc other) quit ledger := by
  have hserves := htraced.serves task
  rw [hpc] at hserves
  obtain ⟨hfresh, hnodup⟩ := List.nodup_cons.mp hserves.nodup
  obtain ⟨hhome, -, handler, hheap, hfd⟩ := htraced.stored task fd events h hentry
  refine { htraced with
    hand := htraced.hand_goto ?_
    serves := forall_goto ⟨hserves.watched, ?_, hnodup, ?_, ?_⟩
      fun other _ => htraced.serves other }
  · intro found hfound
    cases hfound
    exact ⟨hhome, hquit⟩
  · intro event hevent
    exact hserves.ready event (List.mem_cons_of_mem _ hevent)
  · intro found hfound
    cases hfound
    exact hserves.ready (fd, mask) List.mem_cons_self events h hentry
  · intro found hfound
    cases hfound
    refine ⟨handler, hheap, fun event hevent hsame => hfresh ?_⟩
    rw [← hfd, ← hsame]
    exact List.mem_map.mpr ⟨event, hevent, rfl⟩

/-- A handler that is not closed comes into the table of a task that registers. -/
theorem ServesOpen.register {handler : EpollEventHandler ρ} {other : ρ} {place : TaskPc}
    (hserves : process.ServesOpen other place) (hown : other = task → place = .registering)
    (hopen : process.closed h = false) (granted : Bool) :
    (process.register granted task h handler).ServesOpen other place := by
  by_cases hsame : other = task
  · cases hown hsame
    subst hsame
    exact {
      watched := by
        intro fd events found hfd hstored
        rw [entry_register] at hstored
        split at hstored
        · cases hstored
          exact hopen
        · next hkey =>
            rw [watched_register, if_neg fun hboth => hkey hboth.2] at hfd
            exact hserves.watched fd events found hfd hstored
      ready := by
        intro event hevent events found hstored
        rw [entry_register] at hstored
        split at hstored
        · cases hstored
          exact hopen
        · exact hserves.ready event hevent events found hstored
      nodup := hserves.nodup
      serves := by simp [TaskPc.serves]
      hand := by simp [TaskPc.hand] }
  · refine hserves.frame ?_ ?_ rfl (.of_heap rfl) fun _ _ => id
    · intro fd events found hstored
      rwa [entry_register, if_neg fun hkey => hsame hkey.1] at hstored
    · intro fd hfd
      rwa [watched_register, if_neg fun hkey => hsame hkey.2.1] at hfd

/-- A waiting handler comes into a table. -/
theorem Traced.register {handler : EpollEventHandler ρ}
    (htraced : process.Traced home (h :: handlers) pc quit ledger)
    (hpc : pc task = .registering) (hquit : quit task = .running)
    (hheap : process.heap[h]? = some handler) (granted : Bool) :
    (process.register granted task h handler).Traced (Function.update home h (some task)) handlers
      pc quit ledger := by
  have hwaits : home h = none := htraced.waiting h List.mem_cons_self
  obtain ⟨hfresh, hnodup⟩ := List.nodup_cons.mp htraced.nodup
  have hopen : process.closed h = false := htraced.homeless h hwaits
  have hmade : h < process.heap.length := htraced.made h List.mem_cons_self
  have hhome : ∀ other r, home other = some r →
      Function.update home h (some task) other = some r := by
    intro other r hother
    have hne : other ≠ h := by
      rintro rfl
      rw [hwaits] at hother
      contradiction
    rw [Function.update_of_ne hne, hother]
  have hless : ∀ other, Function.update home h (some task) other = none →
      home other = none := by
    intro other hother
    rw [Function.update_apply] at hother
    split at hother
    · contradiction
    · exact hother
  exact {
    waiting := by
      intro other hmem
      have hne : other ≠ h := fun hsame => hfresh (hsame ▸ hmem)
      rw [Function.update_of_ne hne]
      exact htraced.waiting other (List.mem_cons_of_mem _ hmem)
    made := fun other hmem => htraced.made other (List.mem_cons_of_mem _ hmem)
    nodup := hnodup
    fresh := by
      intro other hle
      rw [heap_register] at hle
      have hne : other ≠ h := Ne.symm (Nat.ne_of_lt (Nat.lt_of_lt_of_le hmade hle))
      rw [Function.update_of_ne hne]
      exact htraced.fresh other hle
    homeless := fun other hother => htraced.homeless other (hless other hother)
    stored := by
      intro r fd events other hstored
      rw [entry_register] at hstored
      split at hstored
      · next hkey =>
          cases hstored
          refine ⟨?_, ?_, handler, hheap, hkey.2.symm⟩
          · rw [Function.update_self, hkey.1]
          · rw [hkey.1, hquit]
            rfl
      · obtain ⟨hother, hrest⟩ := htraced.stored r fd events other hstored
        exact ⟨hhome other r hother, hrest⟩
    hand := fun other found hfound => ⟨hhome _ _ (htraced.hand other found hfound).1,
      (htraced.hand other found hfound).2⟩
    owns := by
      intro other found hfound hclosed hcleared
      exact htraced.owns other found hfound hclosed fun r hr => hcleared r (hhome other r hr)
    fits.owned := by
      intro fd other howner
      rw [opened_register]
      exact htraced.fits.owned fd other howner
    fits.line := htraced.fits.line
    settled := htraced.settled
    serves := by
      intro other
      exact (htraced.serves other).register (fun hsame => by rw [hsame, hpc]) hopen granted }

/-- The loop of `registerEvents` stores the handlers it takes. -/
theorem Traced.registerAll {taken : List HandlerId}
    (htraced : process.Traced home (taken ++ handlers) pc quit ledger)
    (hpc : pc task = .registering) (hquit : quit task = .running) {granted : Bool}
    (hcall : Process.registerAll granted task taken process = .ok () after) :
    ∃ home', after.Traced home' handlers pc quit ledger := by
  refine registerAll_preserves
    (fun rest process => ∃ home', process.Traced home' (rest ++ handlers) pc quit ledger) ?_
    ⟨home, htraced⟩ hcall
  rintro h rest process handler ⟨home', hrest⟩ hhandler
  exact ⟨_, hrest.register hpc hquit (handler?_eq_some.mp hhandler).2 granted⟩

end

end Process

end ZtHttp
