import ZtHttp.Event.Laws

/-!
# Registering and removing one handler

`register_handler` writes the table before it asks the kernel, and returns 0
whatever the kernel answers. `remove_handler` erases the entry of the handler's
descriptor, whichever handler it maps to, and `epollUpdate` puts the key back
when it reads the mask.
-/

namespace ZtHttp

open Imperative

/-- The operation succeeds on an open descriptor: `ADD` wants one that is not
watched, `MOD` and `DEL` want one that is. -/
def Ctl.fits : Ctl → Option UInt32 → Bool
  | .add, watched => watched.isNone
  | .mod, watched | .del, watched => watched.isSome

/-- An operation that does not fit changes nothing. -/
theorem Ctl.apply_of_not_fits {ctl : Ctl} {watched : Option UInt32}
    (hfits : ctl.fits watched = false) (events : UInt32) : ctl.apply events watched = watched := by
  cases ctl <;> cases watched <;> first | rfl | contradiction

/-- After one that fits, and is no `DEL`, the descriptor is watched. -/
theorem Ctl.apply_of_fits {ctl : Ctl} {watched : Option UInt32} (hfits : ctl.fits watched = true)
    (hdel : ctl ≠ .del) (events : UInt32) : ctl.apply events watched = some events := by
  cases ctl with
  | add => cases watched <;> first | rfl | contradiction
  | mod => cases watched <;> first | rfl | contradiction
  | del => exact absurd rfl hdel

namespace Process

variable {ρ : Type} {process : Process ρ} {r : ρ} {h : HandlerId} {handler : EpollEventHandler ρ}

theorem entry_congr {last : Process ρ} (hfds : last.fds r = process.fds r) (fd : Fd) :
    last.entry r fd = process.entry r fd := by
  rw [entry, entry, hfds]

variable [DecidableEq ρ]

/-- `epoll_ctl` returns 0. -/
def accepts (process : Process ρ) (granted : Bool) (r : ρ) (ctl : Ctl) (fd : Fd) : Bool :=
  granted && process.kernel.opened fd && ctl.fits (process.watched r fd)

/-- The operation with which `register_handler` calls `epoll_ctl`. -/
def registering (process : Process ρ) (r : ρ) (handler : EpollEventHandler ρ) : Ctl :=
  if (process.entry r handler.fd).isNone then .add else .mod

/-! ### Registering -/

/-- What the kernel watches for the handler after a registration. -/
theorem watched_register_self (granted : Bool) :
    (process.register granted r h handler).watched r handler.fd =
      if process.accepts granted r (process.registering r handler) handler.fd then
        some handler.events
      else process.watched r handler.fd := by
  have hdel : process.registering r handler ≠ .del := by
    unfold registering
    split <;> exact Ctl.noConfusion
  rw [watched_register, ← registering, accepts]
  by_cases hasked : (granted && process.kernel.opened handler.fd) = true
  · rw [if_pos ⟨hasked, rfl, rfl⟩, hasked, Bool.true_and]
    cases hfits : (process.registering r handler).fits (process.watched r handler.fd) with
    | true => rw [Ctl.apply_of_fits hfits hdel, if_pos rfl]
    | false => rw [Ctl.apply_of_not_fits hfits, if_neg Bool.false_ne_true]
  · rw [if_neg fun hkey => hasked hkey.1]
    rw [Bool.not_eq_true] at hasked
    rw [hasked, Bool.false_and, if_neg Bool.false_ne_true]

/-- The result is 0 only if the kernel accepted the operation, and otherwise it
is another one and the table is as it was. -/
def RegistersOrFails (process : Process ρ) (granted : Bool) (r : ρ) (h : HandlerId)
    (handler : EpollEventHandler ρ) : Prop :=
  ∃ ret after, registerHandler granted r h process = .ok ret after ∧
    (ret = 0 → process.accepts granted r (process.registering r handler) handler.fd = true) ∧
    (process.accepts granted r (process.registering r handler) handler.fd = false →
      ret ≠ 0 ∧ after.fds r = process.fds r)

/-- A registration is told apart from a failed one only where there is nothing
to tell: if `epoll_ctl` succeeds. -/
theorem registersOrFails_iff (hhandler : process.handler? h = some handler) (granted : Bool) :
    process.RegistersOrFails granted r h handler ↔
      process.accepts granted r (process.registering r handler) handler.fd = true := by
  have hregister := registerHandler_eq hhandler granted r
  constructor
  · rintro ⟨ret, after, hcall, hzero, -⟩
    rw [hregister] at hcall
    cases hcall
    exact hzero rfl
  · intro haccepts
    refine ⟨0, _, hregister, fun _ => haccepts, ?_⟩
    rw [haccepts]
    nofun

/-- One reactor, and a connection that is accepted and not registered yet. -/
def oneAccepted : Process Unit :=
  Process.initial.newHandler (epollOut ||| epollRdHup) 5 () ⟨none, none, none⟩ 0

def oneHandler : EpollEventHandler Unit := .accepted 5 () ⟨none, none, none⟩ 0

theorem oneAccepted_handler : oneAccepted.handler? 0 = some oneHandler := rfl

theorem oneAccepted_registers : oneAccepted.RegistersOrFails true () 0 oneHandler :=
  (registersOrFails_iff oneAccepted_handler true).mpr rfl

/-- The watch quota is full. -/
theorem oneAccepted_refused : ¬ oneAccepted.RegistersOrFails false () 0 oneHandler := by
  rintro ⟨ret, after, hcall, hzero, -⟩
  rw [registerHandler_eq oneAccepted_handler] at hcall
  cases hcall
  have haccepts := hzero rfl
  contradiction

/-! ### Removing -/

/-- Removing a handler undoes its registration: it gives a table without the
descriptor back; it erases the handler's own entry and no other; and it leaves a
table alone that maps the descriptor to another handler. -/
structure RemovalUndoes (process : Process ρ) (r : ρ) (h : HandlerId)
    (handler : EpollEventHandler ρ) : Prop where
  absent : process.entry r handler.fd = none → ∀ granted granted', ∃ ret last,
    (registerHandler granted r h >>= fun _ => removeHandler 0 granted' r h) process =
      .ok ret last ∧ last.fds r = process.fds r
  own : ∀ events, process.entry r handler.fd = some (events, some h) → ∀ granted, ∃ ret last,
    removeHandler 0 granted r h process = .ok ret last ∧ ∀ key, last.entry r key =
      if key = handler.fd then none else process.entry r key
  foreign : ∀ events other, process.entry r handler.fd = some (events, some other) → other ≠ h →
    ∀ granted, ∃ ret last, removeHandler 0 granted r h process = .ok ret last ∧
      last.fds r = process.fds r

/-- A removal that finds an entry leaves a null handler under the key. -/
theorem entry_of_removeHandler (hhandler : process.handler? h = some handler) {granted : Bool}
    (hfound : process.entry r handler.fd ≠ none) {ret : Int} {last : Process ρ}
    (hremove : removeHandler 0 granted r h process = .ok ret last) :
    last.entry r handler.fd = some (0, none) := by
  rw [removeHandler_found hhandler granted hfound] at hremove
  cases hremove
  rw [entry_remove, if_pos ⟨rfl, rfl⟩]

/-- A key that was not there is left behind. -/
theorem RemovalUndoes.found (hundoes : process.RemovalUndoes r h handler)
    (hhandler : process.handler? h = some handler) : process.entry r handler.fd ≠ none := by
  intro hnone
  obtain ⟨ret, last, hboth, hfds⟩ := hundoes.absent hnone true true
  rw [Method.bind_ok (registerHandler_eq hhandler true r)] at hboth
  have hlive : (process.register true r h handler).handler? h = some handler := hhandler
  have hregistered : (process.register true r h handler).entry r handler.fd ≠ none := by
    rw [entry_register, if_pos ⟨rfl, rfl⟩]
    nofun
  have hnull := entry_of_removeHandler hlive hregistered hboth
  rw [entry_congr hfds, hnone] at hnull
  contradiction

/-- The removal undoes the registration only where that says nothing: where the
table maps the descriptor to no handler at all. -/
theorem removalUndoes_iff (hhandler : process.handler? h = some handler) :
    process.RemovalUndoes r h handler ↔
      ∃ events, process.entry r handler.fd = some (events, none) := by
  constructor
  · intro hundoes
    have hfound := hundoes.found hhandler
    cases hentry : process.entry r handler.fd with
    | none => exact absurd hentry hfound
    | some value =>
        obtain ⟨events, pointer⟩ := value
        cases pointer with
        | none => exact ⟨events, rfl⟩
        | some other =>
            by_cases hsame : other = h
            · subst hsame
              obtain ⟨ret, last, hremove, hkeys⟩ := hundoes.own events hentry true
              have hnull := entry_of_removeHandler hhandler hfound hremove
              rw [hkeys, if_pos rfl] at hnull
              contradiction
            · obtain ⟨ret, last, hremove, hfds⟩ :=
                hundoes.foreign events other hentry hsame true
              have hnull := entry_of_removeHandler hhandler hfound hremove
              rw [entry_congr hfds, hentry] at hnull
              cases hnull
  · rintro ⟨events, hentry⟩
    refine ⟨?_, ?_, ?_⟩
    · rw [hentry]
      nofun
    · intro events' hown
      rw [hentry] at hown
      cases hown
    · intro events' other hforeign
      rw [hentry] at hforeign
      cases hforeign

/-- The table as an earlier removal on the same number leaves it. -/
def nullAccepted : Process Unit := oneAccepted.insertEntry () 5 (0, none)

theorem nullAccepted_undone : nullAccepted.RemovalUndoes () 0 oneHandler :=
  (removalUndoes_iff rfl).mpr ⟨0, by rw [nullAccepted, entry_insertEntry]; rfl⟩

/-- The first registration on a descriptor is not undone. -/
theorem oneAccepted_keyLeft : ¬ oneAccepted.RemovalUndoes () 0 oneHandler :=
  fun hundoes => hundoes.found oneAccepted_handler rfl

end Process

end ZtHttp
