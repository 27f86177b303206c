import Mathlib.Data.List.Nodup
import ZtHttp.Foundation.Transition
import ZtHttp.Reactor.Basic

/-!
# The rounds of the pool's reactor

Every `select` appends the waiting handlers to `selectedQueue`, and nothing ever
takes one off it. So a round calls the handlers of all rounds before it as well,
those that have been removed since among them.
-/

namespace ZtHttp

open Imperative Transition

namespace Reactor

variable {Handler : Type}

/-- The calls of the reactor's users. -/
inductive Call (Handler : Type) where
  | register (h : Handler)
  | remove (h : Handler)
  | select

/-- What one `select` found and what it did. -/
structure Round (Handler : Type) where
  waiting : List Handler
  removed : List Handler
  called : List Handler

/-- The reactor with what happened to it: the handlers that were removed and not
registered again, and the rounds. No call reads them. -/
structure History (Handler : Type) where
  reactor : Reactor Handler
  removed : List Handler
  rounds : List (Round Handler)

namespace History

def initial : History Handler := ⟨.initial, [], []⟩

/-- What was selected is waiting still or has been removed. -/
structure Tidy (history : History Handler) : Prop where
  nodup : history.reactor.waitedQueue.Nodup
  gone : ∀ h ∈ history.removed, h ∉ history.reactor.waitedQueue
  selected : ∀ h ∈ history.reactor.selectedQueue,
    h ∈ history.reactor.waitedQueue ∨ h ∈ history.removed

theorem tidy_initial : (initial : History Handler).Tidy :=
  ⟨List.nodup_nil, fun _ hmem => absurd hmem List.not_mem_nil,
    fun _ hmem => absurd hmem List.not_mem_nil⟩

end History

variable [DecidableEq Handler]

/-- Every waiting handler is called exactly once, and no removed one is called. -/
structure Round.Exact (round : Round Handler) : Prop where
  waiting : ∀ h ∈ round.waiting, round.called.count h = 1
  removed : ∀ h ∈ round.removed, h ∉ round.called

namespace History

/-- One call. A removal that moves its iterator past the end has erased the
handler by then, and the vector is taken as it left it. -/
def next (handleEvent : Handler → Int) (history : History Handler) :
    Call Handler → Option (History Handler)
  | .register h =>
      some { history with
        reactor := (registerHandler h).after history.reactor
        removed := history.removed.filter (· ≠ h) }
  | .remove h =>
      some { history with
        reactor := (removeHandler h).after history.reactor
        removed :=
          if h ∈ history.reactor.waitedQueue then h :: history.removed else history.removed }
  | .select =>
      match select handleEvent history.reactor with
      | .ok called reactor =>
          some { history with
            reactor := reactor
            rounds := history.rounds ++
              [⟨history.reactor.waitedQueue, history.removed, called⟩] }
      | .error _ _ => none

def system (handleEvent : Handler → Int) : Lts (History Handler) (Call Handler) :=
  .ofNext initial (next handleEvent)

/-- Distinct handlers are registered: none that is waiting already. -/
def Distinct (history : History Handler) : Call Handler → Prop
  | .register h => h ∉ history.reactor.waitedQueue
  | .remove _ | .select => True

/-- `select` finds `selectedQueue` empty. -/
def StartsEmpty (history : History Handler) : Call Handler → Prop
  | .select => history.reactor.selectedQueue = []
  | .register _ | .remove _ => True

end History

/-- With distinct handlers the removal takes its handler off, wherever it is. -/
theorem after_removeHandler {h : Handler} {reactor : Reactor Handler}
    (hnodup : reactor.waitedQueue.Nodup) :
    (removeHandler h).after reactor = reactor.without h := by
  have hapart : Apart (fun waiting => waiting = h) reactor.waitedQueue := by
    refine List.IsChain.imp ?_ (List.Pairwise.isChain hnodup)
    intro first second hne hfirst
    rw [decide_eq_false_iff_not, ← of_decide_eq_true hfirst]
    exact hne.symm
  have hkept := sweep_apart hapart
  have hremove := removeHandler_eq h reactor
  dsimp only at hremove
  rw [hkept] at hremove
  split at hremove
  · rw [Method.after_error hremove]
    simp [without]
  · rw [Method.after_ok hremove]
    simp [without]

namespace History

variable {handleEvent : Handler → Int} {history last : History Handler} {call : Call Handler}

theorem next_select (history : History Handler) : history.next handleEvent .select =
    some { history with
      reactor := { history.reactor with
        selectedQueue := history.reactor.selectedQueue ++ history.reactor.waitedQueue }
      rounds := history.rounds ++ [⟨history.reactor.waitedQueue, history.removed,
        history.reactor.selectedQueue ++ history.reactor.waitedQueue⟩] } := by
  rw [next, select_eq]

theorem Tidy.register {h : Handler} (htidy : history.Tidy)
    (hfresh : h ∉ history.reactor.waitedQueue)
    (hnext : history.next handleEvent (.register h) = some last) : last.Tidy := by
  cases hnext
  exact {
    nodup := by
      refine List.nodup_append.mpr ⟨htidy.nodup, List.nodup_singleton h, ?_⟩
      intro other hother same hsame
      rw [List.mem_singleton.mp hsame]
      exact ne_of_mem_of_not_mem hother hfresh
    gone := by
      intro other hmem
      obtain ⟨hother, hne⟩ := List.mem_filter.mp hmem
      apply List.not_mem_append (htidy.gone other hother)
      rw [List.mem_singleton]
      exact of_decide_eq_true hne
    selected := by
      intro other hmem
      rcases htidy.selected other hmem with hwaiting | hremoved
      · exact .inl (List.mem_append_left _ hwaiting)
      · by_cases hsame : other = h
        · exact .inl (List.mem_append_right _ (List.mem_singleton.mpr hsame))
        · exact .inr (List.mem_filter.mpr ⟨hremoved, decide_eq_true hsame⟩) }

theorem Tidy.remove {h : Handler} (htidy : history.Tidy)
    (hnext : history.next handleEvent (.remove h) = some last) : last.Tidy := by
  cases hnext
  have hremoved : ∀ other, (other ∈ if h ∈ history.reactor.waitedQueue then
      h :: history.removed else history.removed) ↔
        other ∈ history.removed ∨ (other = h ∧ h ∈ history.reactor.waitedQueue) := by
    intro other
    split <;> simp [*, or_comm]
  exact {
    nodup := by
      rw [after_removeHandler htidy.nodup]
      exact htidy.nodup.filter _
    gone := by
      intro other hmem
      rw [after_removeHandler htidy.nodup]
      intro hwaiting
      obtain ⟨hstill, hne⟩ := List.mem_filter.mp hwaiting
      rcases (hremoved other).mp hmem with hbefore | ⟨hsame, -⟩
      · exact htidy.gone other hbefore hstill
      · exact of_decide_eq_true hne hsame
    selected := by
      intro other hmem
      rw [after_removeHandler htidy.nodup] at hmem ⊢
      rw [hremoved]
      rcases htidy.selected other hmem with hwaiting | hbefore
      · by_cases hsame : other = h
        · exact .inr (.inr ⟨hsame, hsame ▸ hwaiting⟩)
        · exact .inl (List.mem_filter.mpr ⟨hwaiting, decide_eq_true hsame⟩)
      · exact .inr (.inl hbefore) }

theorem Tidy.select (htidy : history.Tidy)
    (hnext : history.next handleEvent .select = some last) : last.Tidy := by
  rw [next_select] at hnext
  cases hnext
  refine ⟨htidy.nodup, htidy.gone, ?_⟩
  intro other hmem
  rcases List.mem_append.mp hmem with hselected | hwaiting
  · exact htidy.selected other hselected
  · exact .inl hwaiting

theorem tidy_next (htidy : history.Tidy) (hdistinct : history.Distinct call)
    (hnext : history.next handleEvent call = some last) : last.Tidy := by
  cases call with
  | register h => exact htidy.register hdistinct hnext
  | remove h => exact htidy.remove hnext
  | select => exact htidy.select hnext

/-- A round is exact if it starts with nothing selected, and only then: what is
selected already is called a second time if it is waiting, and called although
it was removed otherwise. -/
theorem Tidy.exact_iff (htidy : history.Tidy) :
    Round.Exact ⟨history.reactor.waitedQueue, history.removed,
      history.reactor.selectedQueue ++ history.reactor.waitedQueue⟩ ↔
        history.reactor.selectedQueue = [] := by
  constructor
  · intro hexact
    rw [List.eq_nil_iff_forall_not_mem]
    intro h hselected
    rcases htidy.selected h hselected with hwaiting | hremoved
    · have honce := hexact.waiting h hwaiting
      have hfirst := List.count_pos_iff.mpr hselected
      have hsecond := List.count_pos_iff.mpr hwaiting
      rw [List.count_append] at honce
      omega
    · exact hexact.removed h hremoved (List.mem_append_left _ hselected)
  · intro hempty
    rw [hempty, List.nil_append]
    exact ⟨fun h hwaiting => List.count_eq_one_of_mem htidy.nodup hwaiting, htidy.gone⟩

/-- All rounds so far were exact. -/
def AllExact (history : History Handler) : Prop := ∀ round ∈ history.rounds, round.Exact

/-- A call adds a round only if it is a `select`. -/
theorem allExact_next (htidy : history.Tidy)
    (hnext : history.next handleEvent call = some last) :
    last.AllExact ↔ history.AllExact ∧ history.StartsEmpty call := by
  cases call with
  | register h =>
      cases hnext
      exact (and_iff_left trivial).symm
  | remove h =>
      cases hnext
      exact (and_iff_left trivial).symm
  | select =>
      rw [next_select] at hnext
      cases hnext
      simp only [AllExact, List.forall_mem_append, List.forall_mem_singleton, htidy.exact_iff,
        StartsEmpty]

/-- In a run of calls that register distinct handlers, every round calls each
waiting handler once and no removed one, exactly if each `select` finds
`selectedQueue` empty. -/
theorem run_exact_iff (handleEvent : Handler → Int) {calls : List (Call Handler)}
    (hrun : ((system handleEvent).restrict Distinct).Run initial calls last) :
    (∀ round ∈ last.rounds, round.Exact) ↔
      (((system handleEvent).restrict Distinct).restrict StartsEmpty).Run initial calls last := by
  have hinitial : (initial : History Handler).AllExact := fun _ hmem =>
    absurd hmem List.not_mem_nil
  have hkept : ∀ (history : History Handler) call after, history.Tidy ∧ history.AllExact →
      history.StartsEmpty call → ((system handleEvent).restrict Distinct).step history call after →
      after.Tidy ∧ after.AllExact := by
    rintro history call after ⟨htidy, hexact⟩ hstarts ⟨hdistinct, hnext⟩
    exact ⟨tidy_next htidy hdistinct hnext, (allExact_next htidy hnext).mpr ⟨hexact, hstarts⟩⟩
  constructor
  · intro hexact
    have hcases := hrun.kept_or_lost (fun history => history.Tidy ∧ history.AllExact)
      (fun history => history.Tidy ∧ ¬ history.AllExact) hkept
      (by
        rintro history call after ⟨htidy, -⟩ hstarts ⟨hdistinct, hnext⟩
        exact ⟨tidy_next htidy hdistinct hnext, fun hexact =>
          hstarts ((allExact_next htidy hnext).mp hexact).2⟩)
      (by
        rintro history call after ⟨htidy, hlost⟩ ⟨hdistinct, hnext⟩
        exact ⟨tidy_next htidy hdistinct hnext, fun hexact =>
          hlost ((allExact_next htidy hnext).mp hexact).1⟩)
      ⟨tidy_initial, hinitial⟩
    rcases hcases with ⟨hallowed, -⟩ | ⟨-, hlost⟩
    · exact hallowed
    · exact absurd hexact hlost
  · intro hallowed
    refine (hallowed.preserves (fun history => history.Tidy ∧ history.AllExact) ?_
      ⟨tidy_initial, hinitial⟩).2
    rintro history call after hboth ⟨hstarts, hstep⟩
    exact hkept history call after hboth hstarts hstep

instance (history : History Handler) : (call : Call Handler) → Decidable (history.Distinct call)
  | .register h => inferInstanceAs (Decidable (h ∉ history.reactor.waitedQueue))
  | .remove _ | .select => isTrue trivial

/-- The calls are a run that registers distinct handlers. -/
theorem run_of_exec {calls : List (Call Handler)}
    (hexec : Lts.exec (Lts.guarded (next handleEvent) Distinct) initial calls = some last) :
    ((system handleEvent).restrict Distinct).Run initial calls last :=
  Lts.restrict_run_of_guarded (Lts.run_of_exec hexec)

/-- Two handlers, and one round. -/
theorem oneRound_exact : ∃ last : History Nat, last.rounds = [⟨[1, 2], [], [1, 2]⟩] ∧
    ((∀ round ∈ last.rounds, round.Exact) ↔
      (((system fun _ => 0).restrict Distinct).restrict StartsEmpty).Run initial
        [.register 1, .register 2, .select] last) :=
  ⟨_, rfl, run_exact_iff (fun _ => 0) (run_of_exec rfl)⟩

/-- The second round calls the handler twice. -/
theorem secondRound_repeats : ∃ last : History Nat,
    ((system fun _ => 0).restrict Distinct).Run initial [.register 1, .select, .select] last ∧
      ¬ ∀ round ∈ last.rounds, round.Exact := by
  refine ⟨_, run_of_exec rfl, ?_⟩
  intro hexact
  have hsecond : Round.Exact ⟨[1], [], [1, 1]⟩ :=
    hexact _ (List.mem_append_right _ (List.mem_singleton_self _))
  exact absurd (hsecond.waiting 1 (List.mem_singleton_self 1)) (by decide)

end History

end Reactor

end ZtHttp
