/-!
# Methods of C++ objects

A method reads and updates its object and either returns or is stopped by a
fault: an exception that nothing catches or undefined behaviour. The object
as the fault left it is kept, so that a statement about a failed call can say
what the call has already changed.
-/

namespace Imperative

/-- What stops a C++ method. -/
inductive Fault where
  /-- The end position of a container is dereferenced. -/
  | pastEnd
  /-- `at` is called outside the container. -/
  | outOfRange
  /-- A container is built from a range of negative length. -/
  | lengthError
  /-- An array is read or written outside its bounds. -/
  | outOfBounds
  /-- A null pointer is handed to a function that dereferences it. -/
  | nullPointer
  /-- A pointer that was never initialised is dereferenced. -/
  | wildPointer
  /-- A loop does not end, or not within the iterations granted to it. -/
  | diverges
  deriving DecidableEq, Repr

/-- A method of an object of type `σ`. -/
abbrev Method (σ α : Type) := EStateM Fault σ α

namespace Method

variable {σ τ α β : Type}

/-- Run a method of a part of the object. -/
def zoom (part : σ → τ) (update : τ → σ → σ) (method : Method τ α) : Method σ α := fun object =>
  match method (part object) with
  | .ok value new => .ok value (update new object)
  | .error fault new => .error fault (update new object)

/-- A computation on local variables only. -/
def ofExcept (result : Except Fault α) : Method σ α := fun object =>
  match result with
  | .ok value => .ok value object
  | .error fault => .error fault object

theorem bind_ok {method : Method σ α} {rest : α → Method σ β} {object middle : σ} {value : α}
    (hmethod : method object = .ok value middle) :
    (method >>= rest) object = rest value middle := by
  simp only [bind, EStateM.bind, hmethod]

theorem bind_error {method : Method σ α} {rest : α → Method σ β} {object middle : σ}
    {fault : Fault} (hmethod : method object = .error fault middle) :
    (method >>= rest) object = .error fault middle := by
  simp only [bind, EStateM.bind, hmethod]

/-- A sequence that returns has a first part that returns. -/
theorem bind_eq_ok {method : Method σ α} {rest : α → Method σ β} {object last : σ} {value : β}
    (hbind : (method >>= rest) object = .ok value last) :
    ∃ first middle, method object = .ok first middle ∧ rest first middle = .ok value last := by
  cases hmethod : method object with
  | ok first middle => exact ⟨first, middle, rfl, (bind_ok hmethod).symm.trans hbind⟩
  | error fault middle =>
      rw [bind_error hmethod] at hbind
      contradiction

@[simp] theorem pure_apply (value : α) (object : σ) :
    (pure value : Method σ α) object = .ok value object := rfl

@[simp] theorem modify_apply (update : σ → σ) (object : σ) :
    (modify update : Method σ PUnit) object = .ok ⟨⟩ (update object) := rfl

@[simp] theorem get_apply (object : σ) : (get : Method σ σ) object = .ok object object := rfl

theorem ofExcept_ok {result : Except Fault α} {value : α} (hresult : result = .ok value)
    (object : σ) : ofExcept result object = .ok value object := by
  rw [hresult, ofExcept]

theorem ofExcept_error {result : Except Fault α} {fault : Fault} (hresult : result = .error fault)
    (object : σ) : ofExcept result object = .error fault object := by
  rw [hresult, ofExcept]

/-- A computation on local variables can be taken in steps. -/
theorem ofExcept_bind (first : Except Fault α) (rest : α → Except Fault β) :
    (ofExcept (first >>= rest) : Method σ β) =
      ofExcept first >>= fun value => ofExcept (rest value) := by
  cases first <;> rfl

theorem ofExcept_pure (value : α) : (ofExcept (pure value) : Method σ α) = pure value := rfl

theorem zoom_ok {part : σ → τ} {update : τ → σ → σ} {method : Method τ α} {object : σ}
    {value : α} {new : τ} (hmethod : method (part object) = .ok value new) :
    zoom part update method object = .ok value (update new object) := by
  simp only [zoom, hmethod]

theorem zoom_error {part : σ → τ} {update : τ → σ → σ} {method : Method τ α} {object : σ}
    {fault : Fault} {new : τ} (hmethod : method (part object) = .error fault new) :
    zoom part update method object = .error fault (update new object) := by
  simp only [zoom, hmethod]

/-- The object as the method leaves it, whether it returned or was stopped. -/
def after (method : Method σ α) (object : σ) : σ :=
  match method object with
  | .ok _ new => new
  | .error _ new => new

theorem after_ok {method : Method σ α} {object new : σ} {value : α}
    (hmethod : method object = .ok value new) : method.after object = new := by
  simp only [after, hmethod]

theorem after_error {method : Method σ α} {object new : σ} {fault : Fault}
    (hmethod : method object = .error fault new) : method.after object = new := by
  simp only [after, hmethod]

theorem after_bind_ok {method : Method σ α} {rest : α → Method σ β} {object middle : σ} {value : α}
    (hmethod : method object = .ok value middle) :
    (method >>= rest).after object = (rest value).after middle := by
  rw [after, bind_ok hmethod, after]

/-- The method returns, and the property holds of what it returns and leaves. No
property holds of a method that is stopped. -/
def Returns (method : Method σ α) (property : α → σ → Prop) (object : σ) : Prop :=
  match method object with
  | .ok value new => property value new
  | .error _ _ => False

section

variable {method : Method σ α} {property : α → σ → Prop} {object new : σ}

theorem returns_ok {value : α} (hmethod : method object = .ok value new) :
    method.Returns property object ↔ property value new := by
  rw [Returns, hmethod]

theorem not_returns {fault : Fault} (hmethod : method object = .error fault new) :
    ¬ method.Returns property object := by
  rw [Returns, hmethod]
  exact id

theorem Returns.exists (hreturns : method.Returns property object) :
    ∃ value new, method object = .ok value new ∧ property value new := by
  cases hmethod : method object with
  | ok value new => exact ⟨value, new, rfl, (returns_ok hmethod).mp hreturns⟩
  | error fault new => exact absurd hreturns (not_returns hmethod)

/-- A sequence returns if its first part does and the rest does behind it. -/
theorem returns_bind {rest : α → Method σ β} {property : β → σ → Prop} :
    (method >>= rest).Returns property object ↔
      method.Returns (fun value => (rest value).Returns property) object := by
  cases hmethod : method object with
  | ok value middle => rw [returns_ok hmethod, Returns, bind_ok hmethod, Returns]
  | error fault middle =>
      exact iff_of_false (not_returns (bind_error hmethod)) (not_returns hmethod)

end

/-- A method takes every object to one related to it. -/
def Respects (rel : σ → σ → Prop) (method : Method σ α) : Prop :=
  ∀ object, rel object (method.after object)

namespace Respects

variable {rel : σ → σ → Prop}

/-- A sequence respects a transitive relation that its parts respect, wherever
it is stopped. -/
theorem bind (htrans : ∀ first middle last, rel first middle → rel middle last → rel first last)
    {method : Method σ α} {rest : α → Method σ β} (hmethod : Respects rel method)
    (hrest : ∀ value, Respects rel (rest value)) : Respects rel (method >>= rest) := by
  intro object
  have hfirst := hmethod object
  cases hresult : method object with
  | ok value middle =>
      rw [after_ok hresult] at hfirst
      rw [after_bind_ok hresult]
      exact htrans _ _ _ hfirst (hrest value middle)
  | error fault middle =>
      rw [after_error hresult] at hfirst
      rw [after_error (bind_error hresult)]
      exact hfirst

/-- A method of a part respects what every change of that part respects. -/
theorem zoom {part : σ → τ} {update : τ → σ → σ} {method : Method τ α}
    (hupdate : ∀ new object, rel object (update new object)) :
    Respects rel (zoom part update method) := by
  intro object
  cases hresult : method (part object) with
  | ok value new =>
      rw [after_ok (zoom_ok hresult)]
      exact hupdate new object
  | error fault new =>
      rw [after_error (zoom_error hresult)]
      exact hupdate new object

end Respects

variable {ε : Type}

/-- Whatever stops the method, it takes nothing out of a record in the object. -/
def Grows (record : σ → List ε) (method : Method σ α) : Prop :=
  Respects (fun before after => record before <+: record after) method

namespace Grows

variable {record : σ → List ε}

theorem of_same {method : Method σ α}
    (hsame : ∀ object, record (method.after object) = record object) :
    Grows record method := fun object => by
  simp only [hsame]
  exact List.prefix_rfl

theorem bind {method : Method σ α} {rest : α → Method σ β} (hmethod : Grows record method)
    (hrest : ∀ value, Grows record (rest value)) : Grows record (method >>= rest) :=
  Respects.bind (fun _ _ _ hleft hright => hleft.trans hright) hmethod hrest

theorem of_pure (value : α) : Grows record (pure value) := of_same fun _ => rfl

theorem of_get : Grows record (get : Method σ σ) := of_same fun _ => rfl

/-- What the first part of a sequence has recorded stays. -/
theorem first {method : Method σ α} {rest : α → Method σ β}
    (hrest : ∀ value, Grows record (rest value)) (object : σ) :
    record (method.after object) <+: record ((method >>= rest).after object) := by
  cases hresult : method object with
  | ok value middle =>
      rw [after_bind_ok hresult, after_ok hresult]
      exact hrest value middle
  | error fault middle =>
      simp only [after_error (bind_error hresult), after_error hresult]
      exact List.prefix_rfl

/-- A method of a part that the record is no part of. -/
theorem zoom {part : σ → τ} {update : τ → σ → σ} {method : Method τ α}
    (hupdate : ∀ new object, record (update new object) = record object) :
    Grows record (Method.zoom part update method) :=
  Respects.zoom fun new object => by
    simp only [hupdate]
    exact List.prefix_rfl

end Grows

end Method

end Imperative
