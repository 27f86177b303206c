import ZtHttp.Foundation.Transition
import ZtHttp.Event.Serving

/-!
# The table and the kernel

One multiplexer with its own handlers. Registering keeps the table equal to the
interest set. Handling an event ends in a removal that erases the handler's key
and, by reading the mask through `operator[]`, puts it back with no events and
a null handler. The key stays for good: whatever is registered on the number
later finds it and asks the kernel for a `MOD`, which fails.
-/

namespace ZtHttp.Process

open Imperative Transition

/-! ### The runs of one multiplexer -/

/-- What one completed call does: a connection is accepted, a handler is
registered, or a ready handler is called. -/
inductive Op where
  | accept (events : UInt32) (fd : Fd) (memory : Slots) (rdyEvents : UInt32)
  | register (h : HandlerId)
  | handle (h : HandlerId) (mask : UInt32) (outside : Outside)

namespace Op

/-- What has to hold for the call to be made. `accept` hands out a number that
is not open, and a handler is ready when the table holds it and the kernel
watches its descriptor. -/
def Enabled (process : Process Unit) : Op → Prop
  | .accept _ fd _ _ => process.kernel.opened fd = false
  | .register h => ∃ handler, process.handler? h = some handler
  | .handle h _ _ => ∃ handler events, process.handler? h = some handler ∧
      process.entry () handler.fd = some (events, some h) ∧
      (process.watched () handler.fd).isSome = true

/-- The call, with `register_flag` zero and every `epoll_ctl` granted that its
own rules grant. -/
def exec : Op → Method (Process Unit) Unit
  | .accept events fd memory rdyEvents => modify (newHandler events fd () memory rdyEvents)
  | .register h => do let _ ← registerHandler true () h
  | .handle h mask outside => do
      let _ ← onHandler h (EpollEventHandler.setRdyEvents mask)
      let _ ← handleEvent 0 true outside h

/-- The call is a `handle_event`. -/
def isHandle : Op → Bool
  | .handle _ _ _ => true
  | _ => false

end Op

/-- One multiplexer whose handlers all name it as their reactor. -/
def single : Lts (Process Unit) Op where
  init process := process = initial
  step process op last := op.Enabled process ∧ op.exec process = .ok () last

/-- The keys of the table are the descriptors that the kernel watches, with the
same masks. -/
def Agrees (process : Process Unit) : Prop :=
  ∀ fd, (process.entry () fd).map Prod.fst = process.watched () fd

/-! ### What one call does -/

/-- A key that the kernel does not watch. -/
def Stale (process : Process Unit) (fd : Fd) : Prop :=
  process.entry () fd ≠ none ∧ process.watched () fd = none

theorem Stale.not_agrees {process : Process Unit} {fd : Fd} (hstale : process.Stale fd) :
    ¬ process.Agrees := by
  intro hagrees
  have hkey := hagrees fd
  rw [hstale.2, Option.map_eq_none_iff] at hkey
  exact hstale.1 hkey

/-- The call ends in the state that its sections leave one after the other. -/
theorem step_cases {process last : Process Unit} {op : Op} (hstep : single.step process op last) :
    (∃ events fd memory rdyEvents, op.isHandle = false ∧ process.kernel.opened fd = false ∧
      last = process.newHandler events fd () memory rdyEvents) ∨
    (∃ h handler, op.isHandle = false ∧ process.handler? h = some handler ∧
      last = process.register true () h handler) ∨
    (∃ h fd served, op.isHandle = true ∧ process.Served served ∧ process.entry () fd ≠ none ∧
      last = served.remove true () fd h) := by
  obtain ⟨henabled, hexec⟩ := hstep
  cases op with
  | accept events fd memory rdyEvents =>
      cases hexec
      exact .inl ⟨events, fd, memory, rdyEvents, rfl, henabled, rfl⟩
  | register h =>
      obtain ⟨handler, hhandler⟩ := henabled
      simp only [Op.exec] at hexec
      rw [Method.bind_ok (registerHandler_eq hhandler true ())] at hexec
      cases hexec
      exact .inr (.inl ⟨h, handler, rfl, hhandler, rfl⟩)
  | handle h mask outside =>
      obtain ⟨handler, events, hhandler, hentry, -⟩ := henabled
      obtain ⟨_, marked, hmark, hexec⟩ := Method.bind_eq_ok hexec
      obtain ⟨ret, removed, hhandle, hexec⟩ := Method.bind_eq_ok hexec
      cases hexec
      obtain ⟨hmarked, first, hfirst, hplace⟩ :=
        onHandler_served (EpollEventHandler.samePlace_setRdyEvents mask) hhandler hmark
      obtain ⟨found, served, second, ret', hfound, hserved, hsecond, hplace', hremove⟩ :=
        handleEvent_cases hhandle
      cases hfirst.symm.trans hfound
      have hfd : second.fd = handler.fd := (hplace.trans hplace').fd
      have hkey : served.entry () second.fd ≠ none := by
        rw [hfd, (hmarked.trans hserved).entry, hentry]
        exact Option.some_ne_none _
      rw [show first.reactor = () from rfl, removeHandler_found hsecond true hkey] at hremove
      cases hremove
      refine .inr (.inr ⟨h, second.fd, served, rfl, hmarked.trans hserved, ?_, rfl⟩)
      rwa [← (hmarked.trans hserved).entry]

/-- No call makes the kernel watch a closed descriptor. -/
theorem step_watchedOpen {process last : Process Unit} {op : Op} (hopen : process.WatchedOpen)
    (hstep : single.step process op last) : last.WatchedOpen := by
  rcases step_cases hstep with ⟨events, fd, memory, rdyEvents, -, -, rfl⟩ |
    ⟨h, handler, -, -, rfl⟩ | ⟨h, fd, served, -, hserved, -, rfl⟩
  · exact hopen.newHandler _ _ _ _ _
  · exact WatchedOpen.epollCtl hopen _ _ _ _ _
  · exact WatchedOpen.epollCtl (hserved.watchedOpen hopen) _ _ _ _ _

/-- A key that the kernel does not watch stays one. -/
theorem step_stale {process last : Process Unit} {op : Op} {fd : Fd} (hstale : process.Stale fd)
    (hstep : single.step process op last) : last.Stale fd := by
  obtain ⟨hkey, hunwatched⟩ := hstale
  rcases step_cases hstep with ⟨events, new, memory, rdyEvents, -, -, rfl⟩ |
    ⟨h, handler, -, -, rfl⟩ | ⟨h, removed, served, -, hserved, -, rfl⟩
  · exact ⟨hkey, hunwatched⟩
  · constructor
    · rw [entry_register]
      split
      · exact Option.some_ne_none _
      · exact hkey
    · rw [watched_register]
      split
      · next hsame =>
          -- the key is found, so the kernel is asked for a `MOD` of what it does not watch
          have hmod : (process.entry () handler.fd).isNone = false := by
            rw [← hsame.2.2, ← Bool.not_eq_true, Option.isNone_iff_eq_none]
            exact hkey
          rw [hmod, ← hsame.2.2, hunwatched]
          rfl
      · exact hunwatched
  · constructor
    · rw [entry_remove]
      split
      · exact Option.some_ne_none _
      · rw [hserved.entry]
        exact hkey
    · rw [watched_remove]
      split
      · rfl
      · exact hserved.unwatched hunwatched

/-- A `handle_event` leaves its handler's key behind. -/
theorem handle_stale {process last : Process Unit} {op : Op} (hopen : process.WatchedOpen)
    (hstep : single.step process op last) (hhandle : op.isHandle = true) :
    ∃ fd, last.Stale fd := by
  rcases step_cases hstep with ⟨_, _, _, _, hother, _⟩ | ⟨_, _, hother, _⟩ |
    ⟨h, fd, served, -, hserved, -, rfl⟩
  · simp only [hhandle, reduceCtorEq] at hother
  · simp only [hhandle, reduceCtorEq] at hother
  · refine ⟨fd, ?_, ?_⟩
    · rw [entry_remove, if_pos ⟨rfl, rfl⟩]
      exact Option.some_ne_none _
    · rw [remove, watched_delete]
      exact WatchedOpen.unwatched_del (hserved.watchedOpen hopen) () fd 0

/-- Before the first `handle_event` every handler's descriptor is open and the
table agrees with the kernel. -/
structure Untouched (process : Process Unit) : Prop where
  agrees : process.Agrees
  opened : ∀ handler ∈ process.heap, process.kernel.opened handler.fd = true

theorem step_untouched {process last : Process Unit} {op : Op} (huntouched : process.Untouched)
    (hstep : single.step process op last) (hother : op.isHandle = false) : last.Untouched := by
  rcases step_cases hstep with ⟨events, new, memory, rdyEvents, -, -, rfl⟩ |
    ⟨h, handler, -, hhandler, rfl⟩ | ⟨_, _, _, hhandle, _⟩
  · refine ⟨huntouched.agrees, ?_⟩
    intro handler hheap
    rw [newHandler_opened]
    split
    · rfl
    · next hne =>
        rw [heap_newHandler, List.mem_append, List.mem_singleton] at hheap
        cases hheap with
        | inl hold => exact huntouched.opened handler hold
        | inr hnew => exact absurd (hnew ▸ rfl) hne
  · have hopened := huntouched.opened handler
      (List.mem_of_getElem? (handler?_eq_some.mp hhandler).2)
    refine ⟨?_, ?_⟩
    · intro key
      rw [entry_register, watched_register]
      by_cases hkey : key = handler.fd
      · rw [if_pos ⟨rfl, hkey⟩, if_pos ⟨by rw [hopened]; rfl, rfl, hkey⟩,
          ← huntouched.agrees handler.fd]
        cases process.entry () handler.fd with
        | none => rfl
        | some value => rfl
      · rw [if_neg fun hsame => hkey hsame.2, if_neg fun hsame => hkey hsame.2.2]
        exact huntouched.agrees key
    · intro found hheap
      rw [opened_register]
      exact huntouched.opened found hheap
  · simp only [hother, reduceCtorEq] at hhandle

/-! ### What a run does -/

theorem initial_untouched : (initial : Process Unit).Untouched where
  agrees _ := by
    simp only [entry, watched, initial, Std.ExtTreeMap.getElem?_empty, Option.map_none]
  opened handler hheap := by simp [initial] at hheap

theorem initial_watchedOpen : (initial : Process Unit).WatchedOpen := by
  intro r fd events hwatched
  simp [watched, initial] at hwatched

/-- After any run from the initial state: either no `handle_event` has run and
the table agrees with the kernel, or one has and some key is stale for good. -/
theorem run_agrees_or_stale {first last : Process Unit} {ops : List Op}
    (hopen : first.WatchedOpen) (hrun : single.Run first ops last) :
    ((∃ fd, first.Stale fd) → ∃ fd, last.Stale fd) ∧
    (ops.any Op.isHandle = true → ∃ fd, last.Stale fd) ∧
    (first.Untouched → ops.any Op.isHandle = false → last.Untouched) := by
  induction hrun with
  | nil => exact ⟨id, fun hany => by simp at hany, fun huntouched _ => huntouched⟩
  | @cons first middle last op ops hstep _ ih =>
      obtain ⟨hstale, hhandled, huntouched⟩ := ih (step_watchedOpen hopen hstep)
      refine ⟨?_, ?_, ?_⟩
      · rintro ⟨fd, hfd⟩
        exact hstale ⟨fd, step_stale hfd hstep⟩
      · intro hany
        rw [List.any_cons, Bool.or_eq_true] at hany
        cases hany with
        | inl hhandle => exact hstale (handle_stale hopen hstep hhandle)
        | inr hlater => exact hhandled hlater
      · intro hfirst hany
        rw [List.any_cons, Bool.or_eq_false_iff] at hany
        exact huntouched (step_untouched hfirst hstep hany.1) hany.2

/-- The table agrees with the kernel after a run exactly if no `handle_event`
has run. -/
theorem run_agrees_iff {process : Process Unit} {ops : List Op}
    (hrun : single.Run initial ops process) :
    process.Agrees ↔ ∀ op ∈ ops, op.isHandle = false := by
  obtain ⟨-, hhandled, huntouched⟩ := run_agrees_or_stale initial_watchedOpen hrun
  constructor
  · intro hagrees op hop
    by_contra hhandle
    obtain ⟨fd, hstale⟩ := hhandled (List.any_eq_true.mpr ⟨op, hop, by simpa using hhandle⟩)
    exact hstale.not_agrees hagrees
  · intro hnone
    exact (huntouched initial_untouched (List.any_eq_false.mpr fun op hop => by
      simpa using hnone op hop)).agrees

/-- The accept loop's call for a connection, on zeroed memory. -/
def Op.connect (fd : Fd) : Op :=
  .accept (epollOut ||| epollRdHup) fd ⟨none, none, none⟩ 0

/-- Two connections are registered. -/
theorem twoRegistered_agrees : ∃ process,
    single.Run initial [.connect 5, .connect 6, .register 1, .register 0] process ∧
    process.Agrees := by
  have hregistered : ∃ process,
      single.Run initial [.connect 5, .connect 6, .register 1, .register 0] process :=
    ⟨_, .cons ⟨rfl, rfl⟩ (.cons ⟨rfl, rfl⟩ (.cons ⟨⟨_, rfl⟩, rfl⟩
      (.cons ⟨⟨_, rfl⟩, rfl⟩ (.nil _))))⟩
  obtain ⟨process, hrun⟩ := hregistered
  exact ⟨process, hrun, (run_agrees_iff hrun).mpr (by decide)⟩

/-- A peer that hangs up before anything was served. -/
def Op.hangup (h : HandlerId) : Op :=
  .handle h epollRdHup ⟨.error, .upTo 0, .blank⟩

/-- A connection on 5 is closed; the next one on 5 is registered and is not
watched. -/
theorem reusedNumber_unwatched : ∃ process,
    single.Run initial [.connect 5, .register 0, .hangup 0, .connect 5, .register 1] process ∧
    process.entry () 5 = some (epollOut ||| epollRdHup, some 1) ∧
    process.watched () 5 = none :=
  ⟨_, .cons ⟨rfl, rfl⟩ (.cons ⟨⟨_, rfl⟩, rfl⟩ (.cons ⟨⟨_, _, rfl, rfl, rfl⟩, rfl⟩
    (.cons ⟨rfl, rfl⟩ (.cons ⟨⟨_, rfl⟩, rfl⟩ (.nil _))))), rfl, rfl⟩

end ZtHttp.Process
