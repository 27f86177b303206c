import ZtHttp.IOBuffer.Laws

/-!
# Reached buffers

A buffer is reached when calls that return lead to it from an empty one. Its
`_size` is the number of its bytes modulo 2^32, whatever was appended, and that
is enough for the merge in `pullDown` to end inside the list.
-/

namespace ZtHttp.IOBuffer

open Imperative

/-- The buffers that calls of the operations, each of which returns, make of an
empty one. -/
inductive Reached : IOBuffer → Prop
  | fresh : Reached empty
  | append {buffer next : IOBuffer} {result : Bool} (hreached : Reached buffer)
      (sizeofT : UInt64) (memory : List Byte) (num : UInt32)
      (hcall : append sizeofT memory num buffer = .ok result next) : Reached next
  | appendChunk {buffer next : IOBuffer} {chunk : ChunkPtr} {result : Bool}
      (hreached : Reached buffer) (hother : ∀ other, chunk = .other other → Reached other)
      (hcall : appendChunk chunk buffer = .ok result next) : Reached next
  | pullDown {buffer next : IOBuffer} {pointer : Option Chunk} (hreached : Reached buffer)
      (num : UInt32) (hcall : pullDown num buffer = .ok pointer next) : Reached next
  | consume {buffer next : IOBuffer} {result : Bool} (hreached : Reached buffer) (num : UInt32)
      (hcall : consume num buffer = .ok result next) : Reached next

/-- `_size` is the number of bytes modulo 2^32. -/
def Tallied (buffer : IOBuffer) : Prop := buffer.size = UInt32.ofNat buffer.content.length

variable {buffer next : IOBuffer} {num : UInt32}

theorem Tallied.counted (htallied : buffer.Tallied) (hbound : buffer.content.length < 2 ^ 31) :
    buffer.Counted where
  size_eq := by
    rw [htallied]
    exact toNat_ofNat_length buffer.content hbound
  bound := hbound

theorem Tallied.push (htallied : buffer.Tallied) (data : Chunk) : (buffer.push data).Tallied := by
  unfold Tallied
  rw [content_push, List.length_append, UInt32.ofNat_add, ← htallied]
  rfl

theorem Tallied.concat {other : IOBuffer} (htallied : buffer.Tallied) (hother : other.Tallied) :
    (buffer.concat other).Tallied := by
  unfold Tallied
  rw [content_concat, List.length_append, UInt32.ofNat_add, ← htallied, ← hother]
  rfl

/-! ### What a call that returns leaves -/

/-- An `append` that returns has added one chunk. -/
theorem append_returns {sizeofT : UInt64} {memory : List Byte} {result : Bool}
    (hcall : append sizeofT memory num buffer = .ok result next) :
    ∃ data, next = buffer.push data := by
  unfold append at hcall
  dsimp only at hcall
  split at hcall
  · contradiction
  · split at hcall
    · contradiction
    · next hlength =>
        obtain ⟨-, rfl⟩ := EStateM.Result.ok.inj hcall
        refine ⟨memory.take (sizeofT * num.toUInt64).toUInt32.toNat, ?_⟩
        rw [IOBuffer.push, List.length_take, Nat.min_eq_left (Nat.le_of_not_lt hlength),
          UInt32.ofNat_toNat]

/-- Any number of pushes on a list that is walked gives no end. -/
theorem pushChunks_self {fuel : Nat} {walked target chunks : List Chunk}
    (hends : pushChunks true fuel walked target = .ok chunks) : walked = [] := by
  induction fuel generalizing walked target with
  | zero =>
      cases walked with
      | nil => rfl
      | cons tmp rest => contradiction
  | succ fuel ih =>
      cases walked with
      | nil => rfl
      | cons tmp rest =>
          have hgrown := ih hends
          simp at hgrown

/-- An `appendChunk` that returns has changed nothing, or added the chunks of
another buffer, or it was an empty list that was appended to itself. -/
theorem appendChunk_returns {chunk : ChunkPtr} {result : Bool}
    (hcall : appendChunk chunk buffer = .ok result next) :
    next = buffer ∨ (∃ other, chunk = .other other ∧ next = buffer.concat other) ∨
      (buffer.chunks = [] ∧ next = ⟨[], buffer.size + buffer.size⟩) := by
  cases chunk with
  | null =>
      obtain ⟨-, rfl⟩ := EStateM.Result.ok.inj hcall
      exact .inl rfl
  | other other =>
      rw [appendChunk_other] at hcall
      obtain ⟨-, rfl⟩ := EStateM.Result.ok.inj hcall
      exact .inr (.inl ⟨other, rfl, rfl⟩)
  | self =>
      simp only [appendChunk] at hcall
      split at hcall
      · next chunks hpush =>
          have hnil := pushChunks_self hpush
          rw [hnil] at hpush
          cases hpush
          obtain ⟨-, rfl⟩ := EStateM.Result.ok.inj hcall
          exact .inr (.inr ⟨hnil, rfl⟩)
      · contradiction

/-- A `pullDown` that returns a pointer has merged chunks and nothing else. -/
theorem pullDown_returns {pointer : Option Chunk}
    (hcall : pullDown num buffer = .ok pointer next) :
    (pointer = none ∧ next = buffer) ∨ ∃ front rest, pointer = some front ∧
      next = ⟨front :: rest, buffer.size⟩ ∧ front ++ rest.flatten = buffer.content := by
  unfold pullDown at hcall
  split at hcall
  · obtain ⟨rfl, rfl⟩ := EStateM.Result.ok.inj hcall
    exact .inl ⟨rfl, rfl⟩
  · split at hcall
    · contradiction
    · next front rest hchunks =>
        split at hcall
        · contradiction
        · next chunks hloop =>
            obtain ⟨front', rest', rfl, hbytes, -⟩ := mergeLoop_ok hloop
            cases front' with
            | nil => contradiction
            | cons byte bytes =>
                obtain ⟨rfl, rfl⟩ := EStateM.Result.ok.inj hcall
                refine .inr ⟨byte :: bytes, rest', rfl, rfl, ?_⟩
                rw [hbytes, content, hchunks, List.flatten_cons]

/-- A `consume` that returns true has removed the bytes asked for. -/
theorem consume_returns {result : Bool} (hcall : consume num buffer = .ok result next) :
    (result = false ∧ next = buffer) ∨ (result = true ∧ next.size = buffer.size - num ∧
      ∃ gone, num = UInt32.ofNat gone.length ∧ buffer.content = gone ++ next.content) := by
  unfold consume at hcall
  split at hcall
  · contradiction
  · next front rest hchunks =>
      have hcontent : buffer.content = front ++ rest.flatten := by
        rw [content, hchunks, List.flatten_cons]
      dsimp only at hcall
      split at hcall
      · obtain ⟨rfl, rfl⟩ := EStateM.Result.ok.inj hcall
        exact .inl ⟨rfl, rfl⟩
      · next hgranted =>
          rw [not_or, UInt32.not_lt] at hgranted
          split at hcall
          · next hwhole =>
              obtain ⟨rfl, rfl⟩ := EStateM.Result.ok.inj hcall
              exact .inr ⟨rfl, rfl, front, hwhole.symm, hcontent⟩
          · obtain ⟨rfl, rfl⟩ := EStateM.Result.ok.inj hcall
            refine .inr ⟨rfl, rfl, front.take num.toNat, ?_, ?_⟩
            · have hfits := (UInt32.le_iff_toNat_le.mp hgranted.1).trans (toNat_ofNat_le _)
              rw [List.length_take, Nat.min_eq_left hfits, UInt32.ofNat_toNat]
            · rw [hcontent, content_mk, List.flatten_cons, ← List.append_assoc,
                List.take_append_drop]

theorem Reached.tallied (hreached : buffer.Reached) : buffer.Tallied := by
  induction hreached with
  | fresh => rfl
  | append hreached sizeofT memory num hcall ih =>
      obtain ⟨data, rfl⟩ := append_returns hcall
      exact ih.push data
  | appendChunk hreached hother hcall ih ihother =>
      rcases appendChunk_returns hcall with rfl | ⟨other, heq, rfl⟩ | ⟨hnil, rfl⟩
      · exact ih
      · exact ih.concat (ihother other heq)
      · have hzero : _ = UInt32.ofNat _ := ih
        rw [content, hnil] at hzero
        rw [hzero]
        rfl
  | pullDown hreached num hcall ih =>
      rcases pullDown_returns hcall with ⟨-, rfl⟩ | ⟨front, rest, -, rfl, hbytes⟩
      · exact ih
      · unfold Tallied
        rw [content_mk, List.flatten_cons, hbytes]
        exact ih
  | consume hreached num hcall ih =>
      rcases consume_returns hcall with ⟨-, rfl⟩ | ⟨-, hsize, gone, hnum, hcontent⟩
      · exact ih
      · unfold Tallied at ih ⊢
        rw [hsize, ih, hcontent, List.length_append, UInt32.ofNat_add, hnum, UInt32.add_comm,
          UInt32.add_sub_cancel]

/-! ### Pulling down, then consuming -/

/-- What a caller of `pullDown` relies on: it returns null and changes nothing
if there are fewer bytes, and else the front chunk starts with the bytes asked
for, any number of which can be consumed next. -/
structure PullsDown (buffer : IOBuffer) (num : UInt32) : Prop where
  served : 1 ≤ num → num ≤ buffer.size → ∃ front rest,
    pullDown num buffer = .ok (some front) ⟨front :: rest, buffer.size⟩ ∧
      num.toNat ≤ front.length ∧ front.take num.toNat = buffer.content.take num.toNat ∧
      ∀ part ≤ num, ∃ last, consume part ⟨front :: rest, buffer.size⟩ = .ok true last ∧
        last.content = buffer.content.drop part.toNat
  refused : buffer.size < num ∨ buffer.size = 0 → pullDown num buffer = .ok none buffer

/-- The protocol of `pullDown` and `consume` holds in every reached buffer of
fewer than 2^31 bytes. -/
theorem reached_pullsDown (hreached : buffer.Reached) (hbound : buffer.content.length < 2 ^ 31)
    (num : UInt32) : buffer.PullsDown num := by
  have hcounted := hreached.tallied.counted hbound
  refine ⟨?_, pullDown_refused⟩
  intro hpos hfits
  have hpos' : 1 ≤ num.toNat := UInt32.le_iff_toNat_le.mp hpos
  have hsize := hcounted.size_eq
  have hfits' := UInt32.le_iff_toNat_le.mp hfits
  have hne : buffer.size ≠ 0 := by
    intro hzero
    rw [hzero] at hfits'
    exact absurd (hpos'.trans hfits') (by decide)
  obtain ⟨front, rest, hpull, hbytes, hreach⟩ := pullDown_served hcounted num hne (by omega)
    fun hzero => by rw [hzero] at hpos'; exact absurd hpos' (by decide)
  refine ⟨front, rest, hpull, hreach, ?_, ?_⟩
  · rw [← hbytes, List.take_append_of_le_length hreach]
  · intro part hpart
    have hsame : content ⟨front :: rest, buffer.size⟩ = buffer.content := by simpa using hbytes
    have hpart' := (UInt32.le_iff_toNat_le.mp hpart).trans hreach
    obtain ⟨last, hconsume, -, hleft⟩ := consume_granted (hcounted.rechunk hsame) part hpart'
      (List.ne_nil_of_length_pos (hpos'.trans hreach))
    refine ⟨last, hconsume, ?_⟩
    rw [hsame] at hleft
    exact (List.append_cancel_left (hleft.symm.trans (List.take_append_drop _ _).symm))

/-- Two chunks of three bytes. -/
def twoChunks : IOBuffer := ⟨[[97, 98], [99]], 3⟩

theorem twoChunks_reached : Reached twoChunks := by
  have hfirst : Reached ⟨[[97, 98]], 2⟩ := .append .fresh 1 [97, 98] 2 rfl
  exact .append hfirst 1 [99] 1 rfl

theorem twoChunks_pullsDown : twoChunks.PullsDown 3 :=
  reached_pullsDown twoChunks_reached (by decide) 3

/-! ### Where the operations are defined -/

/-- Neither operation looks past the end of the list or into an empty chunk,
and a request that is refused changes nothing. `pullDown` refuses more than the
count and any request on a count of 0, `consume` more than the front chunk and any
request on an empty one. -/
structure Defined (buffer : IOBuffer) (num : UInt32) : Prop where
  pullDown : ∃ pointer next, IOBuffer.pullDown num buffer = .ok pointer next ∧
    (buffer.size < num ∨ buffer.size = 0 → pointer = none) ∧ (pointer = none → next = buffer)
  consume : ∃ result next, IOBuffer.consume num buffer = .ok result next ∧
    (UInt32.ofNat buffer.front.length < num ∨ UInt32.ofNat buffer.front.length = 0 →
      result = false) ∧ (result = false → next = buffer)

/-- Some of the chunks, from the front on, hold `num` bytes modulo 2^32; and the
front chunk is not empty if no byte is asked for. -/
def Reaches (buffer : IOBuffer) (num : UInt32) : Prop :=
  (num = 0 → buffer.front ≠ []) ∧
    ∃ taken, taken ≠ [] ∧ taken <+: buffer.chunks ∧ num ≤ UInt32.ofNat taken.flatten.length

theorem consume_returns_iff :
    (∃ result next, consume num buffer = .ok result next) ↔ buffer.chunks ≠ [] := by
  unfold consume
  constructor
  · rintro ⟨result, next, hcall⟩ hnil
    rw [hnil] at hcall
    contradiction
  · intro hchunks
    obtain ⟨front, rest, heq⟩ := List.exists_cons_of_ne_nil hchunks
    rw [heq]
    dsimp only
    split
    · exact ⟨_, _, rfl⟩
    · split <;> exact ⟨_, _, rfl⟩

/-- The merge reaches the number of bytes, and then the front chunk has a first
byte. -/
theorem pullDown_returns_iff : (∃ pointer next, pullDown num buffer = .ok pointer next) ↔
    buffer.size < num ∨ buffer.size = 0 ∨ buffer.Reaches num := by
  by_cases hrefused : buffer.size < num ∨ buffer.size = 0
  · exact iff_of_true ⟨_, _, pullDown_refused hrefused⟩ (or_assoc.mp (.inl hrefused))
  · rw [← or_assoc, or_iff_right hrefused]
    unfold pullDown
    rw [if_neg hrefused]
    cases hchunks : buffer.chunks with
    | nil =>
        refine iff_of_false ?_ ?_
        · rintro ⟨pointer, next, hcall⟩
          contradiction
        · rintro ⟨-, taken, hne, hprefix, -⟩
          rw [hchunks, List.prefix_nil] at hprefix
          exact hne hprefix
    | cons front rest =>
        have hfront : buffer.front = front := by rw [IOBuffer.front, hchunks, List.headD_cons]
        dsimp only
        constructor
        · rintro ⟨pointer, next, hcall⟩
          split at hcall
          · contradiction
          · next chunks hloop =>
              obtain ⟨taken, hprefix, hreach⟩ :=
                (mergeLoop_returns_iff num front rest).mp ⟨chunks, hloop⟩
              obtain ⟨front', rest', rfl, -, -, -, hsame⟩ := mergeLoop_ok hloop
              refine ⟨?_, front :: taken, List.cons_ne_nil _ _, ?_, hreach⟩
              · intro hzero hnil
                rw [hsame hzero, ← hfront, hnil] at hcall
                contradiction
              · rw [hchunks]
                exact List.cons_prefix_cons.mpr ⟨rfl, hprefix⟩
        · rintro ⟨hzero, taken, hne, hprefix, hreach⟩
          obtain ⟨first, taken, rfl⟩ := List.exists_cons_of_ne_nil hne
          rw [hchunks] at hprefix
          obtain ⟨rfl, htail⟩ := List.cons_prefix_cons.mp hprefix
          obtain ⟨chunks, hloop⟩ :=
            (mergeLoop_returns_iff num first rest).mpr ⟨taken, htail, hreach⟩
          obtain ⟨front', rest', rfl, -, hreach', -, hsame⟩ := mergeLoop_ok hloop
          have hbyte : front' ≠ [] := by
            rintro rfl
            have hnum : num = 0 := UInt32.le_zero_iff.mp hreach'
            exact hzero hnum (hfront.trans (hsame hnum).symm)
          obtain ⟨byte, bytes, rfl⟩ := List.exists_cons_of_ne_nil hbyte
          rw [hloop]
          exact ⟨_, _, rfl⟩

/-- `consume` serves no request that the front chunk does not hold. -/
theorem consume_beyond {result : Bool} {next : IOBuffer}
    (hcall : consume num buffer = .ok result next)
    (hrefused : UInt32.ofNat buffer.front.length < num ∨ UInt32.ofNat buffer.front.length = 0) :
    result = false := by
  unfold consume at hcall
  split at hcall
  · contradiction
  · next front rest hchunks =>
      rw [IOBuffer.front, hchunks, List.headD_cons] at hrefused
      simp only [hrefused, if_true] at hcall
      cases hcall
      rfl

theorem defined_of_returns (hpull : ∃ pointer next, pullDown num buffer = .ok pointer next)
    (hconsume : ∃ result next, consume num buffer = .ok result next) : buffer.Defined num := by
  obtain ⟨pointer, pulled, hpull⟩ := hpull
  obtain ⟨result, consumed, hconsume⟩ := hconsume
  refine ⟨⟨pointer, pulled, hpull, ?_, ?_⟩, result, consumed, hconsume, ?_, ?_⟩
  · intro hrefused
    rw [pullDown_refused hrefused] at hpull
    exact (EStateM.Result.ok.inj hpull).1.symm
  · rintro rfl
    rcases pullDown_returns hpull with ⟨-, heq⟩ | ⟨front, rest, hsome, -⟩
    · exact heq
    · contradiction
  · exact consume_beyond hconsume
  · rintro rfl
    rcases consume_returns hconsume with ⟨-, heq⟩ | ⟨htrue, -⟩
    · exact heq
    · contradiction

theorem Defined.returns (hdefined : buffer.Defined num) :
    (∃ pointer next, IOBuffer.pullDown num buffer = .ok pointer next) ∧
      ∃ result next, IOBuffer.consume num buffer = .ok result next := by
  obtain ⟨⟨pointer, pulled, hpull, -⟩, result, consumed, hconsume, -⟩ := hdefined
  exact ⟨⟨pointer, pulled, hpull⟩, result, consumed, hconsume⟩

/-- Both operations are defined exactly where there is a chunk and `pullDown`
refuses or the chunks hold what is asked for. -/
theorem operations_defined_iff (buffer : IOBuffer) (num : UInt32) : buffer.Defined num ↔
    buffer.chunks ≠ [] ∧ (buffer.size < num ∨ buffer.size = 0 ∨ buffer.Reaches num) := by
  constructor
  · intro hdefined
    exact ⟨consume_returns_iff.mp hdefined.returns.2, pullDown_returns_iff.mp hdefined.returns.1⟩
  · rintro ⟨hchunks, hpull⟩
    exact defined_of_returns (pullDown_returns_iff.mpr hpull) (consume_returns_iff.mpr hchunks)

/-- Where the count is right, the whole list holds what `pullDown` grants. -/
theorem Tallied.reaches_iff (htallied : buffer.Tallied) (hchunks : buffer.chunks ≠ [])
    (hfits : num ≤ buffer.size) : buffer.Reaches num ↔ (num = 0 → buffer.front ≠ []) := by
  refine and_iff_left ⟨buffer.chunks, hchunks, List.prefix_rfl, ?_⟩
  rw [← content, ← htallied]
  exact hfits

/-- In a reached buffer only a list without chunks, and a request for no byte
with an empty chunk in front of others, are left undefined. -/
theorem Reached.defined_iff_permitted (hreached : buffer.Reached) (num : UInt32) :
    buffer.Defined num ↔
      buffer.chunks ≠ [] ∧ (num = 0 → buffer.front ≠ [] ∨ buffer.size = 0) := by
  constructor
  · intro hdefined
    refine ⟨consume_returns_iff.mp hdefined.returns.2, ?_⟩
    rintro rfl
    rcases pullDown_returns_iff.mp hdefined.returns.1 with hless | hzero | hreaches
    · exact absurd hless (UInt32.not_lt.mpr (UInt32.le_iff_toNat_le.mpr (Nat.zero_le _)))
    · exact .inr hzero
    · exact .inl (hreaches.1 rfl)
  · rintro ⟨hchunks, hpermitted⟩
    refine defined_of_returns (pullDown_returns_iff.mpr ?_) (consume_returns_iff.mpr hchunks)
    by_cases hfits : num ≤ buffer.size
    · by_cases hzero : buffer.size = 0
      · exact .inr (.inl hzero)
      · refine .inr (.inr ((hreached.tallied.reaches_iff hchunks hfits).mpr ?_))
        intro hnone
        exact (hpermitted hnone).resolve_right hzero
    · exact .inl (UInt32.not_le.mp hfits)

/-- `consume(size())` of an empty buffer looks at the front of an empty list. -/
theorem emptyBuffer_undefined : Reached empty ∧ consume empty.size empty = .error .pastEnd empty ∧
    ¬ empty.Defined 0 := by
  refine ⟨.fresh, rfl, ?_⟩
  intro hdefined
  obtain ⟨-, result, next, hconsume⟩ := hdefined.returns
  contradiction

end ZtHttp.IOBuffer
