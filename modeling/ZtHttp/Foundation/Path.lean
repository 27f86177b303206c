import Mathlib.Data.List.Induction

/-!
# Paths taken lexically

A relative path names a place by going down through names and up through `..`,
starting at the current directory. Where it leads is decided by its components
alone, as if no name were a link.
-/

namespace Lexical

/-- One step of a path. -/
inductive Component (ν : Type) where
  | here
  | up
  | name (value : ν)
  deriving DecidableEq

/-- A place below the directory that lies `ups` above the current one. The names
lead there from it, the last one first. -/
structure Place (ν : Type) where
  ups : Nat
  names : List ν

variable {ν : Type}

namespace Component

/-- Take one step. Going up undoes the last name, if there is one. -/
def follow (place : Place ν) : Component ν → Place ν
  | here => place
  | up =>
      match place.names with
      | [] => { place with ups := place.ups + 1 }
      | _ :: names => { place with names }
  | name value => { place with names := value :: place.names }

/-- The depth behind one step, if it does not go above the start. -/
def deepen : Nat → Component ν → Option Nat
  | depth, here => some depth
  | 0, up => none
  | depth + 1, up => some depth
  | depth, name _ => some (depth + 1)

end Component

/-- Where the components lead from the current directory. -/
def resolve (components : List (Component ν)) : Place ν :=
  components.foldl Component.follow ⟨0, []⟩

/-- The depth behind the components, if none of them goes above the start. -/
def depth (start : Nat) (components : List (Component ν)) : Option Nat :=
  components.foldlM Component.deepen start

/-- The place is the directory, or lies in it. -/
def LiesIn (directory : ν) (place : Place ν) : Prop :=
  place.ups = 0 ∧ place.names.getLast? = some directory

instance [DecidableEq ν] (directory : ν) (place : Place ν) : Decidable (LiesIn directory place) :=
  inferInstanceAs (Decidable (_ ∧ _))

/-- The components come to the directory from the current one, and do not leave
it again. -/
def Enters (directory : ν) (components : List (Component ν)) : Prop :=
  ∃ front back, components = front ++ .name directory :: back ∧ depth 0 front = some 0 ∧
    (depth 0 back).isSome

theorem resolve_concat (components : List (Component ν)) (last : Component ν) :
    resolve (components ++ [last]) = Component.follow (resolve components) last := by
  rw [resolve, List.foldl_append, List.foldl_cons, List.foldl_nil, resolve]

theorem depth_concat {start middle : Nat} {components : List (Component ν)}
    (hdepth : depth start components = some middle) (last : Component ν) :
    depth start (components ++ [last]) = Component.deepen middle last := by
  rw [depth] at hdepth
  rw [depth, List.foldlM_append, hdepth]
  exact bind_pure (m := Option) _

/-- A step that does not go above the start changes only the names behind it. -/
theorem Component.follow_deepen {middle : Nat} {component : Component ν} {above : List ν}
    (hstep : component.deepen above.length = some middle) (ups : Nat) (base : List ν) :
    ∃ names, follow ⟨ups, above ++ base⟩ component = ⟨ups, names ++ base⟩ ∧
      names.length = middle := by
  cases component with
  | here =>
      cases hstep
      exact ⟨above, rfl, rfl⟩
  | up =>
      cases above with
      | nil => contradiction
      | cons last above =>
          cases hstep
          exact ⟨above, rfl, rfl⟩
  | name value =>
      cases above <;> cases hstep
      · exact ⟨[value], rfl, rfl⟩
      · exact ⟨_ :: _ :: _, rfl, rfl⟩

/-- Components that do not go above the start change only the names behind it. -/
theorem foldl_follow {final : Nat} {components : List (Component ν)} {above : List ν}
    (hdepth : depth above.length components = some final) (ups : Nat) (base : List ν) :
    ∃ names, components.foldl Component.follow ⟨ups, above ++ base⟩ = ⟨ups, names ++ base⟩ ∧
      names.length = final := by
  induction components generalizing above with
  | nil =>
      cases hdepth
      exact ⟨above, rfl, rfl⟩
  | cons first components ih =>
      rw [depth, List.foldlM_cons] at hdepth
      obtain ⟨middle, hfirst, hrest⟩ := Option.bind_eq_some_iff.mp hdepth
      obtain ⟨names, hfollow, rfl⟩ := Component.follow_deepen hfirst ups base
      rw [List.foldl_cons, hfollow]
      exact ih hrest

theorem Component.ups_le_follow (place : Place ν) (component : Component ν) :
    place.ups ≤ (follow place component).ups := by
  cases component with
  | here => exact Nat.le_refl _
  | up =>
      unfold follow
      dsimp only
      split
      · exact Nat.le_succ _
      · exact Nat.le_refl _
  | name value => exact Nat.le_refl _

/-- Components that lead below the current directory do not leave it. -/
theorem depth_of_resolve {components : List (Component ν)} (hbelow : (resolve components).ups = 0) :
    depth 0 components = some (resolve components).names.length := by
  induction components using List.reverseRecOn with
  | nil => rfl
  | append_singleton components last ih =>
      rw [resolve_concat] at hbelow ⊢
      have hups : (resolve components).ups = 0 := by
        have hle := Component.ups_le_follow (resolve components) last
        omega
      rw [depth_concat (ih hups)]
      cases last with
      | here => rfl
      | up =>
          unfold Component.follow at hbelow ⊢
          dsimp only at hbelow ⊢
          cases hnames : (resolve components).names with
          | nil =>
              rw [hnames] at hbelow
              contradiction
          | cons value names => rfl
      | name value =>
          cases hnames : (resolve components).names with
          | nil =>
              rw [Component.follow, hnames]
              rfl
          | cons last names =>
              rw [Component.follow, hnames]
              rfl

/-- Where components lead that come to the directory and stay. -/
theorem resolve_of_depth (directory : ν) {front back : List (Component ν)} {final : Nat}
    (hfront : depth 0 front = some 0) (hback : depth 0 back = some final) :
    ∃ names, resolve (front ++ .name directory :: back) = ⟨0, names ++ [directory]⟩ ∧
      names.length = final := by
  obtain ⟨names, hreach, hempty⟩ := @foldl_follow ν _ _ [] hfront 0 []
  obtain ⟨names', hstay, hlength⟩ := @foldl_follow ν _ _ [] hback 0 [directory]
  rw [List.length_eq_zero_iff.mp hempty] at hreach
  refine ⟨names', ?_, hlength⟩
  rw [resolve, List.foldl_append, List.foldl_cons]
  exact (congrArg (fun place => back.foldl Component.follow
    (Component.follow place (.name directory))) hreach).trans hstay

/-- A step into the directory starts from inside, or goes down into it. -/
theorem LiesIn.of_follow {directory : ν} {place : Place ν} {last : Component ν}
    (hlies : LiesIn directory (Component.follow place last)) :
    LiesIn directory place ∨ (place = ⟨0, []⟩ ∧ last = .name directory) := by
  obtain ⟨ups, names⟩ := place
  obtain ⟨hups, hlast⟩ := hlies
  cases last with
  | here => exact .inl ⟨hups, hlast⟩
  | up =>
      cases names with
      | nil => contradiction
      | cons value names =>
          refine .inl ⟨hups, ?_⟩
          dsimp only [Component.follow] at hlast ⊢
          rw [List.getLast?_cons, hlast, Option.getD_some]
  | name value =>
      dsimp only [Component.follow] at hups hlast
      cases names with
      | nil =>
          refine .inr ⟨by rw [hups], ?_⟩
          rw [List.getLast?_singleton] at hlast
          rw [Option.some.inj hlast]
      | cons last names => exact .inl ⟨hups, by rwa [List.getLast?_cons_cons] at hlast⟩

/-- Components that enter the directory are those that lead into it. -/
theorem liesIn_iff (directory : ν) (components : List (Component ν)) :
    LiesIn directory (resolve components) ↔ Enters directory components := by
  constructor
  · intro hlies
    induction components using List.reverseRecOn with
    | nil => exact absurd hlies.2 (by simp [resolve])
    | append_singleton components last ih =>
        rw [resolve_concat] at hlies
        rcases hlies.of_follow with hbefore | ⟨hstart, rfl⟩
        · obtain ⟨front, back, rfl, hfront, hback⟩ := ih hbefore
          obtain ⟨final, hfinal⟩ := Option.isSome_iff_exists.mp hback
          refine ⟨front, back ++ [last], by simp, hfront, ?_⟩
          rw [depth_concat hfinal]
          obtain ⟨names, hplace, hlength⟩ := resolve_of_depth directory hfront hfinal
          rw [hplace] at hlies
          cases last with
          | here => rfl
          | up =>
              -- the directory itself is not left
              cases names with
              | nil => exact absurd hlies.2 (by simp [Component.follow])
              | cons value names =>
                  rw [← hlength]
                  rfl
          | name value => cases final <;> rfl
        · have hbelow : depth 0 components = some (resolve components).names.length :=
            depth_of_resolve (by rw [hstart])
          rw [hstart] at hbelow
          exact ⟨components, [], rfl, hbelow, rfl⟩
  · rintro ⟨front, back, rfl, hfront, hback⟩
    obtain ⟨final, hfinal⟩ := Option.isSome_iff_exists.mp hback
    obtain ⟨names, hplace, -⟩ := resolve_of_depth directory hfront hfinal
    rw [hplace]
    exact ⟨rfl, List.getLast?_concat⟩

/-- Going down by another name makes no difference. -/
theorem liesIn_concat {directory value : ν} (hvalue : value ≠ directory)
    (components : List (Component ν)) :
    LiesIn directory (resolve (components ++ [.name value])) ↔
      LiesIn directory (resolve components) := by
  rw [resolve_concat]
  constructor
  · intro hlies
    rcases hlies.of_follow with hbefore | ⟨-, hname⟩
    · exact hbefore
    · exact absurd (Component.name.inj hname) hvalue
  · rintro ⟨hups, hlast⟩
    refine ⟨hups, ?_⟩
    rw [Component.follow, List.getLast?_cons, hlast, Option.getD_some]

/-! ### Texts of paths -/

def separator : UInt8 := 47
def dot : UInt8 := 46

/-- What stands between two separators. -/
def component (text : List UInt8) : Component (List UInt8) :=
  if text = [] ∨ text = [dot] then .here
  else if text = [dot, dot] then .up
  else .name text

def components (path : List UInt8) : List (Component (List UInt8)) :=
  (path.splitOn separator).map component

theorem components_append (front rest : List UInt8) :
    components (front ++ separator :: rest) = components front ++ components rest := by
  rw [components, List.splitOn_append_cons_self, List.map_append, components, components]

theorem components_of_not_mem {text : List UInt8} (htext : separator ∉ text) :
    components text = [component text] := by
  rw [components, List.splitOn_eq_singleton htext, List.map_singleton]

end Lexical
