import Mathlib.Data.List.Basic

/-!
# Labelled transition systems

A system is given by its initial states and its labelled steps. A condition on
steps is not a hypothesis on single states: `restrict` keeps only the steps
that meet it, so that "every run whose steps all meet the condition" is again
the run of a system and every invariant is proved by the same rule.
-/

namespace Transition

universe u v w

/-- A labelled transition system. -/
structure Lts (State : Type u) (Label : Type v) where
  init : State → Prop
  step : State → Label → State → Prop

namespace Lts

variable {State : Type u} {Label : Type v}

/-- A finite run, with the labels of its steps in order. -/
inductive Run (sys : Lts State Label) : State → List Label → State → Prop
  | nil (state : State) : Run sys state [] state
  | cons {first middle last : State} {label : Label} {labels : List Label} :
      sys.step first label middle → Run sys middle labels last →
      Run sys first (label :: labels) last

/-- The states that some run reaches from an initial state. -/
def Reachable (sys : Lts State Label) (state : State) : Prop :=
  ∃ start labels, sys.init start ∧ sys.Run start labels state

/-- The system that takes only the steps meeting a condition on the state
before the step and on its label. -/
def restrict (sys : Lts State Label) (allowed : State → Label → Prop) : Lts State Label where
  init := sys.init
  step first label next := allowed first label ∧ sys.step first label next

/-- The system of an executable step function; `none` means not enabled. -/
def ofNext (start : State) (next : State → Label → Option State) : Lts State Label where
  init state := state = start
  step first label last := next first label = some last

/-- Execute a list of labels. -/
def exec (next : State → Label → Option State) : State → List Label → Option State
  | state, [] => some state
  | state, label :: rest => (next state label).bind fun middle => exec next middle rest

theorem Run.trans {sys : Lts State Label} {first middle last : State}
    {left right : List Label} (hleft : sys.Run first left middle)
    (hright : sys.Run middle right last) : sys.Run first (left ++ right) last := by
  induction hleft with
  | nil => exact hright
  | cons hstep _ ih => exact .cons hstep (ih hright)

/-- What one step preserves, a run preserves. -/
theorem Run.preserves {sys : Lts State Label} (invariant : State → Prop)
    (hstep : ∀ state label next, invariant state → sys.step state label next → invariant next)
    {first last : State} {labels : List Label} (hrun : sys.Run first labels last)
    (hfirst : invariant first) : invariant last := by
  induction hrun with
  | nil => exact hfirst
  | cons hhead _ ih => exact ih (hstep _ _ _ hfirst hhead)

/-- The invariant rule: what holds initially and is kept by every step holds
in every reachable state. -/
theorem Reachable.invariant {sys : Lts State Label} (invariant : State → Prop)
    (hinit : ∀ state, sys.init state → invariant state)
    (hstep : ∀ state label next, invariant state → sys.step state label next → invariant next)
    {state : State} (hreach : sys.Reachable state) : invariant state := by
  obtain ⟨start, labels, hstart, hrun⟩ := hreach
  exact hrun.preserves invariant hstep (hinit start hstart)

/-- A run of allowed steps is a run. -/
theorem Run.of_restrict {sys : Lts State Label} {allowed : State → Label → Prop}
    {first last : State} {labels : List Label}
    (hrun : (sys.restrict allowed).Run first labels last) : sys.Run first labels last := by
  induction hrun with
  | nil => exact .nil _
  | cons hhead _ ih => exact .cons hhead.2 ih

/-- Where a property is lost for good by the steps that a condition forbids and
by no others, a run keeps the property exactly if all its steps are allowed. -/
theorem Run.restrict_iff {sys : Lts State Label} {allowed : State → Label → Prop}
    (good : State → Prop)
    (hstep : ∀ state label next, sys.step state label next →
      (good next ↔ good state ∧ allowed state label))
    {first last : State} {labels : List Label} (hrun : sys.Run first labels last)
    (hfirst : good first) : good last ↔ (sys.restrict allowed).Run first labels last := by
  constructor
  · intro hlast
    induction hrun with
    | nil => exact .nil _
    | @cons first middle last label labels hhead hrest ih =>
        have hmiddle : good middle := by
          by_contra hlost
          exact hrest.preserves (fun state => ¬ good state)
            (fun _ _ _ hbad hnext hgood => hbad ((hstep _ _ _ hnext).mp hgood).1) hlost hlast
        exact .cons ⟨((hstep _ _ _ hhead).mp hmiddle).2, hhead⟩ (ih hmiddle hlast)
  · intro hallowed
    refine hallowed.preserves good ?_ hfirst
    rintro state label next hgood ⟨hallow, hnext⟩
    exact (hstep state label next hnext).mpr ⟨hgood, hallow⟩

/-- Where the allowed steps keep an invariant and any other step leads to a
state from which nothing leads back, a run takes allowed steps only or ends in
such a state. -/
theorem Run.kept_or_lost {sys : Lts State Label} {allowed : State → Label → Prop}
    (kept lost : State → Prop)
    (hkept : ∀ state label next, kept state → allowed state label → sys.step state label next →
      kept next)
    (hlost : ∀ state label next, kept state → ¬ allowed state label → sys.step state label next →
      lost next)
    (hstays : ∀ state label next, lost state → sys.step state label next → lost next)
    {first last : State} {labels : List Label} (hrun : sys.Run first labels last)
    (hfirst : kept first) :
    ((sys.restrict allowed).Run first labels last ∧ kept last) ∨ lost last := by
  induction hrun with
  | nil => exact .inl ⟨.nil _, hfirst⟩
  | @cons first middle last label labels hhead hrest ih =>
      by_cases hallowed : allowed first label
      · rcases ih (hkept _ _ _ hfirst hallowed hhead) with ⟨hrun, hlast⟩ | hlast
        · exact .inl ⟨.cons ⟨hallowed, hhead⟩ hrun, hlast⟩
        · exact .inr hlast
      · exact .inr (hrest.preserves lost hstays (hlost _ _ _ hfirst hallowed hhead))

/-- Where every step lowers a measure, it bounds the length of the runs. -/
theorem Run.length_le {sys : Lts State Label} (invariant : State → Prop) (measure : State → Nat)
    (hkept : ∀ state label next, invariant state → sys.step state label next → invariant next)
    (hless : ∀ state label next, invariant state → sys.step state label next →
      measure next < measure state)
    {first last : State} {labels : List Label} (hrun : sys.Run first labels last)
    (hfirst : invariant first) : labels.length + measure last ≤ measure first := by
  induction hrun with
  | nil => simp
  | cons hhead _ ih =>
      have hrest := ih (hkept _ _ _ hfirst hhead)
      have hlower := hless _ _ _ hfirst hhead
      rw [List.length_cons]
      omega

/-- An executed list of labels is a run. -/
theorem run_of_exec {start : State} {next : State → Label → Option State}
    {first last : State} {labels : List Label} (hexec : exec next first labels = some last) :
    (ofNext start next).Run first labels last := by
  induction labels generalizing first with
  | nil =>
      cases hexec
      exact .nil _
  | cons label rest ih =>
      obtain ⟨middle, hstep, hrest⟩ := Option.bind_eq_some_iff.mp hexec
      exact .cons hstep (ih hrest)

/-- A state that an executed list of labels ends in is reachable. -/
theorem reachable_of_exec {start : State} {next : State → Label → Option State}
    {last : State} {labels : List Label} (hexec : exec next start labels = some last) :
    (ofNext start next).Reachable last :=
  ⟨start, labels, rfl, run_of_exec hexec⟩

/-- The step function that refuses the steps the condition does not allow. -/
def guarded (next : State → Label → Option State) (allowed : State → Label → Prop)
    [∀ state label, Decidable (allowed state label)] (state : State) (label : Label) :
    Option State :=
  if allowed state label then next state label else none

theorem restrict_run_of_guarded {start : State} {next : State → Label → Option State}
    {allowed : State → Label → Prop} [∀ state label, Decidable (allowed state label)]
    {first last : State} {labels : List Label}
    (hrun : (ofNext start (guarded next allowed)).Run first labels last) :
    ((ofNext start next).restrict allowed).Run first labels last := by
  induction hrun with
  | nil => exact .nil _
  | cons hstep _ ih => exact .cons (Option.ite_none_right_eq_some.mp hstep) ih

/-- A test that an executed list of labels ends in is met by a reachable state. -/
theorem exists_reachable_of_exec (start : State) (next : State → Label → Option State)
    (test : State → Prop) [DecidablePred test] (labels : List Label)
    (hexec : (exec next start labels).any (fun state => test state) = true) :
    ∃ state, (ofNext start next).Reachable state ∧ test state := by
  cases hlast : exec next start labels with
  | none => simp [hlast] at hexec
  | some last =>
      rw [hlast] at hexec
      exact ⟨last, reachable_of_exec hlast, of_decide_eq_true hexec⟩

/-- The same for the steps that a condition allows. -/
theorem exists_restricted_of_exec (start : State) (next : State → Label → Option State)
    (allowed : State → Label → Prop) [∀ state label, Decidable (allowed state label)]
    (test : State → Prop) [DecidablePred test] (labels : List Label)
    (hexec : (exec (guarded next allowed) start labels).any (fun state => test state) = true) :
    ∃ state, ((ofNext start next).restrict allowed).Reachable state ∧ test state := by
  cases hlast : exec (guarded next allowed) start labels with
  | none => simp [hlast] at hexec
  | some last =>
      rw [hlast] at hexec
      exact ⟨last, ⟨start, labels, rfl, restrict_run_of_guarded (run_of_exec hlast)⟩,
        of_decide_eq_true hexec⟩

end Lts

end Transition
