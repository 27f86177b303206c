import ZtHttp.Foundation.Transition

/-!
# Schedules

The labels of a schedule are offered one after the other, and one whose step is
not enabled lets its turn pass. Where every step lowers a measure, a schedule of
as many rounds as the measure counts ends where no step is enabled.
-/

namespace Transition.Lts

universe u v

variable {State : Type u} {Label : Type v} {next : State → Label → Option State}

/-- Offer the labels in order. -/
def play (next : State → Label → Option State) : List Label → State → State
  | [], state => state
  | label :: rest, state => play next rest ((next state label).getD state)

/-- Each step that is taken when the labels are offered in order is allowed where it is
taken. -/
def PlaysAllowed (next : State → Label → Option State) (allowed : State → Label → Prop) :
    List Label → State → Prop
  | [], _ => True
  | label :: rest, state =>
      ((next state label).isSome → allowed state label) ∧
        PlaysAllowed next allowed rest ((next state label).getD state)

instance decidablePlaysAllowed {allowed : State → Label → Prop}
    [∀ state label, Decidable (allowed state label)] :
    (labels : List Label) → (state : State) → Decidable (PlaysAllowed next allowed labels state)
  | [], _ => isTrue trivial
  | label :: rest, state =>
      have : Decidable (PlaysAllowed next allowed rest ((next state label).getD state)) :=
        decidablePlaysAllowed rest _
      inferInstanceAs (Decidable (((next state label).isSome → allowed state label) ∧ _))

/-- No step is enabled. -/
def Stuck (next : State → Label → Option State) (state : State) : Prop :=
  ∀ label, next state label = none

/-- A schedule with so many rounds, each of which offers every label. -/
inductive Rounds : Nat → List Label → Prop
  | zero (labels : List Label) : Rounds 0 labels
  | succ {count : Nat} {round rest : List Label} :
      (∀ label, label ∈ round) → Rounds count rest → Rounds (count + 1) (round ++ rest)

theorem rounds_replicate {round : List Label} (hall : ∀ label, label ∈ round) (count : Nat) :
    Rounds count (List.replicate count round).flatten := by
  induction count with
  | zero => exact .zero _
  | succ count ih =>
      rw [List.replicate_succ, List.flatten_cons]
      exact .succ hall ih

/-- Turns before the rounds leave the rounds. -/
theorem Rounds.behind {count : Nat} {rest : List Label} (hrounds : Rounds count rest)
    (front : List Label) : Rounds count (front ++ rest) := by
  cases hrounds with
  | zero => exact .zero _
  | succ hall hrest =>
      rw [← List.append_assoc]
      exact .succ (fun label => List.mem_append_right front (hall label)) hrest

theorem play_append (front rest : List Label) (state : State) :
    play next (front ++ rest) state = play next rest (play next front state) := by
  induction front generalizing state with
  | nil => rfl
  | cons label front ih => exact ih _

/-- What is played is a run. -/
theorem run_of_play (start : State) (labels : List Label) (state : State) :
    ∃ taken, (ofNext start next).Run state taken (play next labels state) := by
  induction labels generalizing state with
  | nil => exact ⟨[], .nil state⟩
  | cons label labels ih =>
      obtain ⟨taken, hrun⟩ := ih ((next state label).getD state)
      rw [play]
      cases hnext : next state label with
      | none =>
          rw [hnext, Option.getD_none] at hrun
          exact ⟨taken, hrun⟩
      | some middle =>
          rw [hnext, Option.getD_some] at hrun
          exact ⟨label :: taken, .cons hnext hrun⟩

/-- What one step preserves, a schedule preserves. -/
theorem play_preserves (invariant : State → Prop)
    (hkept : ∀ state label after, invariant state → next state label = some after →
      invariant after)
    (labels : List Label) {state : State} (hstate : invariant state) :
    invariant (play next labels state) := by
  obtain ⟨taken, hrun⟩ := @run_of_play _ _ next state labels state
  exact hrun.preserves invariant hkept hstate

/-- Where a property is lost for good by the steps that are not allowed and by no others,
a schedule keeps the property exactly if it takes allowed steps only. -/
theorem play_iff {allowed : State → Label → Prop} (good : State → Prop)
    (hstep : ∀ state label after, next state label = some after →
      (good after ↔ good state ∧ allowed state label))
    (labels : List Label) (state : State) :
    good (play next labels state) ↔ good state ∧ PlaysAllowed next allowed labels state := by
  induction labels generalizing state with
  | nil => exact (and_iff_left trivial).symm
  | cons label labels ih =>
      rw [play, PlaysAllowed, ih]
      cases hnext : next state label with
      | none => simp
      | some after =>
          have hafter := hstep state label after hnext
          simp only [Option.getD_some, hafter, Option.isSome_some, true_implies, and_assoc]

/-- Where no label of a schedule is enabled, it changes nothing. -/
theorem play_of_none {labels : List Label} {state : State}
    (hnone : ∀ label ∈ labels, next state label = none) : play next labels state = state := by
  induction labels with
  | nil => rfl
  | cons label labels ih =>
      obtain ⟨hlabel, hrest⟩ := List.forall_mem_cons.mp hnone
      rw [play, hlabel, Option.getD_none, ih hrest]

section

variable {invariant : State → Prop} {measure : State → Nat}
  (hkept : ∀ state label after, invariant state → next state label = some after → invariant after)
  (hless : ∀ state label after, invariant state → next state label = some after →
    measure after < measure state)

include hkept hless

/-- A schedule lowers the measure, unless none of its labels is enabled. -/
theorem play_measure (labels : List Label) {state : State} (hstate : invariant state) :
    measure (play next labels state) < measure state ∨
      ∀ label ∈ labels, next state label = none := by
  induction labels generalizing state with
  | nil => exact .inr (List.forall_mem_nil _)
  | cons label labels ih =>
      rw [play]
      cases hnext : next state label with
      | none => exact (ih hstate).imp id fun hnone => List.forall_mem_cons.mpr ⟨hnext, hnone⟩
      | some middle =>
          have hlower := hless _ _ _ hstate hnext
          rw [Option.getD_some]
          rcases ih (hkept _ _ _ hstate hnext) with hmore | hnone
          · exact .inl (Nat.lt_trans hmore hlower)
          · rw [play_of_none hnone]
            exact .inl hlower

/-- Behind enough rounds no step is enabled. -/
theorem stuck_of_rounds {count : Nat} {labels : List Label} (hrounds : Rounds count labels)
    {state : State} (hstate : invariant state) (hcount : measure state ≤ count) :
    Stuck next (play next labels state) := by
  induction hrounds generalizing state with
  | zero labels =>
      have hstuck : Stuck next state := fun label => by
        cases hnext : next state label with
        | none => rfl
        | some after => exact absurd (hless _ _ _ hstate hnext) (by omega)
      rwa [play_of_none fun label _ => hstuck label]
  | @succ count round rest hall _ ih =>
      rw [play_append]
      rcases play_measure hkept hless round hstate with hlower | hnone
      · exact ih (play_preserves invariant hkept round hstate) (by omega)
      · have hstuck : Stuck next state := fun label => hnone label (hall label)
        rwa [play_of_none hnone, play_of_none fun label _ => hstuck label]

end

/-- Where it takes a step that lowers the measure to come nearer to a goal, some
schedule leads there. -/
theorem exists_play (invariant goal : State → Prop) (measure : State → Nat)
    (hnearer : ∀ state, invariant state → goal state ∨ ∃ label after,
      next state label = some after ∧ invariant after ∧ measure after < measure state)
    {state : State} (hstate : invariant state) :
    ∃ labels, invariant (play next labels state) ∧ goal (play next labels state) := by
  induction hcount : measure state using Nat.strongRecOn generalizing state with
  | ind count ih =>
      rcases hnearer state hstate with hgoal | ⟨label, after, hnext, hafter, hless⟩
      · exact ⟨[], hstate, hgoal⟩
      · obtain ⟨labels, hlabels⟩ := ih _ (hcount ▸ hless) hafter rfl
        refine ⟨label :: labels, ?_⟩
        rwa [play, hnext, Option.getD_some]

/-! ### Helpful turns -/

/-- A goal that is kept once it is reached. Until then no step raises the measure, and
the step of the helpful label is enabled and lowers it. -/
structure Helps (next : State → Label → Option State) (invariant goal : State → Prop)
    (measure : State → Nat) (helpful : State → Label) : Prop where
  kept : ∀ state label after, invariant state → next state label = some after → invariant after
  stays : ∀ state label after, invariant state ∧ goal state → next state label = some after →
    goal after
  enabled : ∀ state, invariant state → ¬ goal state → next state (helpful state) ≠ none
  nearer : ∀ state label after, invariant state → ¬ goal state → next state label = some after →
    goal after ∨ measure after < measure state ∨
      measure after = measure state ∧ helpful after = helpful state ∧ label ≠ helpful state

namespace Helps

variable {invariant goal : State → Prop} {measure : State → Nat} {helpful : State → Label}

theorem goal_play (hhelps : Helps next invariant goal measure helpful) (labels : List Label)
    {state : State} (hstate : invariant state) (hgoal : goal state) :
    goal (play next labels state) :=
  (play_preserves (fun state => invariant state ∧ goal state)
    (fun _ _ _ hboth hnext => ⟨hhelps.kept _ _ _ hboth.1 hnext, hhelps.stays _ _ _ hboth hnext⟩)
    labels ⟨hstate, hgoal⟩).2

theorem play_le (hhelps : Helps next invariant goal measure helpful) (labels : List Label)
    {state : State} (hstate : invariant state) :
    goal (play next labels state) ∨ measure (play next labels state) ≤ measure state := by
  induction labels generalizing state with
  | nil => exact .inr (Nat.le_refl _)
  | cons label labels ih =>
      by_cases hgoal : goal state
      · exact .inl (hhelps.goal_play _ hstate hgoal)
      · rw [play]
        cases hnext : next state label with
        | none => exact ih hstate
        | some middle =>
            have hmiddle := hhelps.kept _ _ _ hstate hnext
            rcases hhelps.nearer _ _ _ hstate hgoal hnext with hreached | hless | ⟨hsame, -⟩
            · exact .inl (hhelps.goal_play _ hmiddle hreached)
            · exact (ih hmiddle).imp_right fun hle => Nat.le_trans hle (Nat.le_of_lt hless)
            · exact (ih hmiddle).imp_right fun hle => Nat.le_trans hle (Nat.le_of_eq hsame)

/-- Turns that include the helpful one reach the goal or lower the measure. -/
theorem play_lt (hhelps : Helps next invariant goal measure helpful) {labels : List Label}
    {state : State} (hstate : invariant state) (hmem : helpful state ∈ labels) :
    goal (play next labels state) ∨ measure (play next labels state) < measure state := by
  induction labels generalizing state with
  | nil => exact absurd hmem List.not_mem_nil
  | cons label labels ih =>
      by_cases hgoal : goal state
      · exact .inl (hhelps.goal_play _ hstate hgoal)
      · have henabled := hhelps.enabled _ hstate hgoal
        rw [play]
        cases hnext : next state label with
        | none =>
            have hne : helpful state ≠ label := fun hsame => henabled (hsame ▸ hnext)
            exact ih hstate (List.mem_of_ne_of_mem hne hmem)
        | some middle =>
            have hmiddle := hhelps.kept _ _ _ hstate hnext
            rcases hhelps.nearer _ _ _ hstate hgoal hnext with
              hreached | hless | ⟨hsame, hhelpful, hother⟩
            · exact .inl (hhelps.goal_play _ hmiddle hreached)
            · have hrest := hhelps.play_le labels hmiddle
              exact hrest.imp_right fun hle => Nat.lt_of_le_of_lt hle hless
            · have hlater : helpful middle ∈ labels :=
                hhelpful ▸ List.mem_of_ne_of_mem (Ne.symm hother) hmem
              exact hsame ▸ ih hmiddle hlater

/-- More rounds than the measure counts reach the goal. -/
theorem goal_of_rounds (hhelps : Helps next invariant goal measure helpful) {count : Nat}
    {labels : List Label} (hrounds : Rounds count labels) {state : State}
    (hstate : invariant state) (hcount : measure state < count) :
    goal (play next labels state) := by
  induction hrounds generalizing state with
  | zero labels => exact absurd hcount (Nat.not_lt_zero _)
  | @succ count round rest hall _ ih =>
      rw [play_append]
      have hmiddle := play_preserves invariant hhelps.kept round hstate
      rcases hhelps.play_lt hstate (hall (helpful state)) with hreached | hless
      · exact hhelps.goal_play _ hmiddle hreached
      · exact ih hmiddle (by omega)

end Helps

end Transition.Lts
