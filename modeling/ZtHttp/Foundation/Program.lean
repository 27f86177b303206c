import Mathlib.Data.List.Basic

/-!
# Programs behind pipes

A program is known by the system call that it makes next in each of its states.
It reads its input and writes its output one item at a time. Between it and its
environment lie two pipes of bounded capacity, one on either side.
-/

namespace Processes

/-- A system call, with the state behind it. A read that finds the end of the
input gives `none`. -/
inductive Call (α σ : Type) where
  | read (next : Option α → σ)
  | write (item : α) (next : σ)
  | exit

/-- The next system call in each state. -/
abbrev Program (α σ : Type) := σ → Call α σ

namespace Program

variable {α σ : Type} {program : Program α σ}

/-- What the program reads and writes on its way between two states, short of
the end of its input. -/
inductive Runs (program : Program α σ) : σ → List α → List α → σ → Prop
  | nil (state : σ) : Runs program state [] [] state
  | read {state last : σ} {next : Option α → σ} {item : α} {input output : List α} :
      program state = .read next → Runs program (next (some item)) input output last →
      Runs program state (item :: input) output last
  | write {state last next : σ} {item : α} {input output : List α} :
      program state = .write item next → Runs program next input output last →
      Runs program state input (item :: output) last

/-- The program exits when it has read exactly `input`, and has written `output`. -/
def Exits (program : Program α σ) (state : σ) (input output : List α) : Prop :=
  ∃ last, Runs program state input output last ∧ program last = .exit

theorem Runs.trans {first middle last : σ} {input more output rest : List α}
    (hleft : Runs program first input output middle)
    (hright : Runs program middle more rest last) :
    Runs program first (input ++ more) (output ++ rest) last := by
  induction hleft with
  | nil => exact hright
  | read hcall _ ih => exact .read hcall (ih hright)
  | write hcall _ ih => exact .write hcall (ih hright)

theorem Runs.read_behind {first last : σ} {input output : List α}
    (hruns : Runs program first input output last) {next : Option α → σ}
    (hcall : program last = .read next) (item : α) :
    Runs program first (input ++ [item]) output (next (some item)) := by
  have hstep : Runs program last [item] [] (next (some item)) := .read hcall (.nil _)
  simpa using hruns.trans hstep

theorem Runs.write_behind {first last next : σ} {input output : List α} {item : α}
    (hruns : Runs program first input output last) (hcall : program last = .write item next) :
    Runs program first input (output ++ [item]) next := by
  have hstep : Runs program last [] [item] next := .write hcall (.nil _)
  simpa using hruns.trans hstep

/-- A run on the beginning of an input on which the program exits is the
beginning of that execution. -/
theorem Runs.continues {first middle : σ} {input read output written : List α}
    (hruns : Runs program first read written middle)
    (hexits : Exits program first input output) (hwithin : read <+: input) :
    ∃ more rest, input = read ++ more ∧ output = written ++ rest ∧
      Exits program middle more rest := by
  induction hruns generalizing input output with
  | nil state => exact ⟨input, output, rfl, rfl, hexits⟩
  | read hcall _ ih =>
      obtain ⟨last, hrun, hexit⟩ := hexits
      obtain ⟨more, rfl⟩ := hwithin
      cases hrun with
      | read hsame hrest =>
          cases hcall.symm.trans hsame
          obtain ⟨more', rest, hinput, houtput, hend⟩ :=
            ih ⟨last, hrest, hexit⟩ (List.prefix_append _ more)
          cases List.append_cancel_left hinput
          exact ⟨more, rest, rfl, houtput, hend⟩
      | write hother => cases hcall.symm.trans hother
  | write hcall _ ih =>
      obtain ⟨last, hrun, hexit⟩ := hexits
      cases hrun with
      | nil => cases hcall.symm.trans hexit
      | read hother => cases hcall.symm.trans hother
      | write hsame hrest =>
          cases hcall.symm.trans hsame
          obtain ⟨more, rest, hinput, houtput, hend⟩ := ih ⟨last, hrest, hexit⟩ hwithin
          exact ⟨more, rest, hinput, congrArg _ houtput, hend⟩

theorem exits_exit {state : σ} (hcall : program state = .exit) {input output : List α} :
    Exits program state input output ↔ input = [] ∧ output = [] := by
  constructor
  · rintro ⟨last, hrun, -⟩
    cases hrun with
    | nil => exact ⟨rfl, rfl⟩
    | read hother => cases hcall.symm.trans hother
    | write hother => cases hcall.symm.trans hother
  · rintro ⟨rfl, rfl⟩
    exact ⟨state, .nil state, hcall⟩

theorem exits_write {state next : σ} {item : α} (hcall : program state = .write item next)
    {input output : List α} : Exits program state input output ↔
      ∃ rest, output = item :: rest ∧ Exits program next input rest := by
  constructor
  · intro hexits
    have hstep : Runs program state [] [item] next := .write hcall (.nil next)
    obtain ⟨more, rest, rfl, rfl, hend⟩ := hstep.continues hexits (List.nil_prefix)
    exact ⟨rest, rfl, hend⟩
  · rintro ⟨rest, rfl, last, hrun, hexit⟩
    exact ⟨last, .write hcall hrun, hexit⟩

theorem exits_read {state : σ} {next : Option α → σ} (hcall : program state = .read next)
    {input output : List α} : Exits program state input output ↔
      ∃ item rest, input = item :: rest ∧ Exits program (next (some item)) rest output := by
  constructor
  · rintro ⟨last, hrun, hexit⟩
    cases hrun with
    | nil => cases hcall.symm.trans hexit
    | read hsame hrest =>
        cases hcall.symm.trans hsame
        exact ⟨_, _, rfl, last, hrest, hexit⟩
    | write hother => cases hcall.symm.trans hother
  · rintro ⟨item, rest, rfl, last, hrun, hexit⟩
    exact ⟨last, .read hcall hrun, hexit⟩

end Program

/-! ### Pipes -/

/-- A program with its two pipes. Behind its exit there is no state, and the
environment may have closed its end of the input. -/
structure Piped (α σ : Type) where
  input : List α
  output : List α
  child : Option σ
  closed : Bool

namespace Piped

variable {α σ : Type} {program : Program α σ} {start : σ} {capacity : Nat}

/-- A program that starts with empty pipes. -/
def opened (start : σ) : Piped α σ := ⟨[], [], some start, false⟩

/-- The next system call of the program, unless it has to wait. -/
def turn (program : Program α σ) (capacity : Nat) (piped : Piped α σ) : Option (Piped α σ) :=
  match piped.child with
  | none => none
  | some state =>
      match program state with
      | .read next =>
          match piped.input with
          | item :: rest => some { piped with input := rest, child := some (next (some item)) }
          | [] => if piped.closed then some { piped with child := some (next none) } else none
      | .write item next =>
          if piped.output.length < capacity then
            some { piped with output := piped.output ++ [item], child := some next }
          else none
      | .exit => some { piped with child := none }

/-- Put an item into the input pipe. -/
def feed (item : α) (piped : Piped α σ) : Piped α σ :=
  { piped with input := piped.input ++ [item] }

/-- What the program has read and written, given what was put into its input
pipe and taken from its output pipe. -/
structure Carries (program : Program α σ) (start : σ) (fed taken : List α)
    (piped : Piped α σ) (read written : List α) : Prop where
  fed_eq : fed = read ++ piped.input
  written_eq : written = taken ++ piped.output
  running : ∀ state, piped.child = some state → Program.Runs program start read written state
  exited : piped.child = none → Program.Exits program start read written

variable {fed taken read written : List α} {piped after : Piped α σ}

theorem carries_opened (program : Program α σ) (start : σ) :
    Carries program start [] [] (opened start) [] [] where
  fed_eq := rfl
  written_eq := rfl
  running _ hchild := by
    cases hchild
    exact .nil start
  exited := nofun

theorem Carries.feed (hcarries : Carries program start fed taken piped read written) (item : α) :
    Carries program start (fed ++ [item]) taken (piped.feed item) read written where
  fed_eq := by rw [hcarries.fed_eq, List.append_assoc, Piped.feed]
  written_eq := hcarries.written_eq
  running := hcarries.running
  exited := hcarries.exited

/-- The first item in the output pipe is taken. -/
theorem Carries.take {item : α} {rest : List α}
    (hcarries : Carries program start fed taken piped read written)
    (houtput : piped.output = item :: rest) :
    Carries program start fed (taken ++ [item]) { piped with output := rest } read written where
  fed_eq := hcarries.fed_eq
  written_eq := by rw [hcarries.written_eq, houtput, List.append_assoc, List.singleton_append]
  running := hcarries.running
  exited := hcarries.exited

/-- A turn of a program whose input is open. -/
theorem Carries.turn (hcarries : Carries program start fed taken piped read written)
    (hopen : piped.closed = false) (hturn : piped.turn program capacity = some after) :
    ∃ more rest, Carries program start fed taken after (read ++ more) (written ++ rest) ∧
      after.closed = false := by
  unfold Piped.turn at hturn
  cases hchild : piped.child with
  | none =>
      rw [hchild] at hturn
      contradiction
  | some state =>
      have hruns := hcarries.running state hchild
      simp only [hchild] at hturn
      cases hcall : program state with
      | exit =>
          simp only [hcall, Option.some.injEq] at hturn
          subst hturn
          refine ⟨[], [], ?_, hopen⟩
          rw [List.append_nil, List.append_nil]
          exact ⟨hcarries.fed_eq, hcarries.written_eq, nofun, fun _ => ⟨state, hruns, hcall⟩⟩
      | write item next =>
          simp only [hcall, Option.ite_none_right_eq_some, Option.some.injEq] at hturn
          obtain ⟨-, rfl⟩ := hturn
          refine ⟨[], [item], ?_, hopen⟩
          rw [List.append_nil]
          refine ⟨hcarries.fed_eq, ?_, ?_, nofun⟩
          · rw [hcarries.written_eq, List.append_assoc]
          · rintro _ ⟨⟩
            exact hruns.write_behind hcall
      | read next =>
          simp only [hcall, hopen] at hturn
          cases hinput : piped.input with
          | nil =>
              rw [hinput] at hturn
              contradiction
          | cons item rest =>
              simp only [hinput, Option.some.injEq] at hturn
              subst hturn
              refine ⟨[item], [], ?_, rfl⟩
              rw [List.append_nil]
              refine ⟨?_, hcarries.written_eq, ?_, nofun⟩
              · rw [hcarries.fed_eq, hinput, List.append_assoc, List.singleton_append]
              · rintro _ ⟨⟩
                exact hruns.read_behind hcall item

/-- The turn does not lengthen the output pipe beyond its capacity. -/
theorem output_length_turn (hlength : piped.output.length ≤ capacity)
    (hturn : piped.turn program capacity = some after) : after.output.length ≤ capacity := by
  unfold Piped.turn at hturn
  split at hturn
  · contradiction
  · split at hturn
    · split at hturn
      · cases hturn
        exact hlength
      · obtain ⟨-, heq⟩ := Option.ite_none_right_eq_some.mp hturn
        cases heq
        exact hlength
    · obtain ⟨hroom, heq⟩ := Option.ite_none_right_eq_some.mp hturn
      cases heq
      rw [List.length_append, List.length_singleton]
      exact hroom
    · cases hturn
      exact hlength

end Piped

end Processes
