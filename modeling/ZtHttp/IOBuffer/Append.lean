import ZtHttp.IOBuffer.Reach

/-!
# When an append is exact

`append` computes the number of bytes in an `int`, raises `_size` by it and
copies the bytes last. It goes wrong where the number does not fit, where the
copy throws, where `_size` wraps, and where the source of the chunks is the
buffer itself.
-/

namespace ZtHttp.IOBuffer

open Imperative

/-- An append of `bytes` to the buffer has returned true, added exactly these
and left `_size` the number of all bytes; or it has failed and changed
nothing. -/
def ExactOrNone (buffer : IOBuffer) (bytes : List Byte) : EStateM.Result Fault IOBuffer Bool → Prop
  | .ok true last => last.content = buffer.content ++ bytes ∧
      last.size.toNat = last.content.length
  | .ok false last | .error _ last => last = buffer

variable {buffer : IOBuffer}

/-- The `int` that `append` computes. -/
theorem toNat_len (sizeofT : UInt64) (num : UInt32) :
    (sizeofT * num.toUInt64).toUInt32.toNat = sizeofT.toNat * num.toNat % 2 ^ 32 := by
  rw [UInt64.toNat_toUInt32, UInt64.toNat_mul, UInt32.toNat_toUInt64]
  exact Nat.mod_mod_of_dvd _ (by decide)

/-- The count after an append, against the number of bytes. -/
theorem count_exact_iff (size num : UInt32) (bytes : Nat) :
    (size + num).toNat = bytes + num.toNat ↔ size.toNat = bytes ∧ bytes + num.toNat < 2 ^ 32 := by
  have hsize := size.toNat_lt
  have hnum := num.toNat_lt
  rw [UInt32.toNat_add]
  omega

/-- What `append` makes of a length that is not negative as an `int`. -/
theorem append_granted {sizeofT : UInt64} {memory : List Byte} {num : UInt32}
    (hshort : sizeofT.toNat * num.toNat % 2 ^ 32 < 2 ^ 31)
    (hmemory : sizeofT.toNat * num.toNat ≤ memory.length) :
    append sizeofT memory num buffer = .ok true
      (buffer.push (memory.take (sizeofT.toNat * num.toNat % 2 ^ 32))) := by
  have hlen := toNat_len sizeofT num
  have hfits : sizeofT.toNat * num.toNat % 2 ^ 32 ≤ memory.length :=
    (Nat.mod_le _ _).trans hmemory
  unfold append
  dsimp only
  rw [if_neg (by omega), if_neg (by omega), hlen, push, List.length_take, Nat.min_eq_left hfits,
    ← hlen, UInt32.ofNat_toNat]

/-- A negative length has raised the count when the vector's constructor
throws. -/
theorem append_throws {sizeofT : UInt64} {memory : List Byte} {num : UInt32}
    (hlong : 2 ^ 31 ≤ sizeofT.toNat * num.toNat % 2 ^ 32) :
    append sizeofT memory num buffer = .error .lengthError
      ⟨buffer.chunks, buffer.size + (sizeofT * num.toUInt64).toUInt32⟩ := by
  unfold append
  dsimp only
  rw [if_pos]
  rw [toNat_len]
  exact hlong

/-- A chunk of bytes that are there is exact if nothing was cut off and all
bytes fit the count. -/
theorem push_exact_iff {memory : List Byte} {wanted taken : Nat} (hwanted : wanted ≤ memory.length)
    (hless : taken ≤ wanted) (hshort : taken < 2 ^ 31) :
    ExactOrNone buffer (memory.take wanted) (.ok true (buffer.push (memory.take taken))) ↔
      taken = wanted ∧ buffer.size.toNat = buffer.content.length ∧
        buffer.content.length + wanted < 2 ^ 32 := by
  have hlength : (memory.take taken).length = taken :=
    List.length_take_of_le (hless.trans hwanted)
  have hcount : (UInt32.ofNat taken).toNat = taken :=
    UInt32.toNat_ofNat_of_lt (hshort.trans (by decide))
  have hsame : memory.take taken = memory.take wanted ↔ taken = wanted := by
    constructor
    · intro heq
      rw [← hlength, heq, List.length_take_of_le hwanted]
    · rintro rfl
      rfl
  simp only [ExactOrNone, content_push, List.append_cancel_left_eq, hsame, List.length_append,
    hlength]
  rw [push, hlength]
  refine and_congr_right ?_
  rintro rfl
  have hexact := count_exact_iff buffer.size (UInt32.ofNat taken) buffer.content.length
  rwa [hcount] at hexact

/-- An append of objects is exact or has no effect exactly if their size fits an
`int` and all bytes fit `_size`, which counts them before; one of another
buffer, if the two counts make the number of bytes in both. -/
theorem append_exact_iff (buffer : IOBuffer) :
    (∀ (sizeofT : UInt64) (memory : List Byte) (num : UInt32),
      sizeofT.toNat * num.toNat ≤ memory.length →
      (ExactOrNone buffer (memory.take (sizeofT.toNat * num.toNat))
          (append sizeofT memory num buffer) ↔
        sizeofT.toNat * num.toNat < 2 ^ 31 ∧ buffer.size.toNat = buffer.content.length ∧
          buffer.content.length + sizeofT.toNat * num.toNat < 2 ^ 32)) ∧
    ∀ other : IOBuffer,
      ExactOrNone buffer other.content (appendChunk (.other other) buffer) ↔
        (buffer.size.toNat + other.size.toNat) % 2 ^ 32 =
          buffer.content.length + other.content.length := by
  refine ⟨?_, ?_⟩
  · intro sizeofT memory num hmemory
    by_cases hlong : 2 ^ 31 ≤ sizeofT.toNat * num.toNat % 2 ^ 32
    · rw [append_throws hlong]
      refine iff_of_false ?_ (by omega)
      intro hsame
      have hsize := congrArg (fun last => last.size.toNat) hsame
      simp only [UInt32.toNat_add, toNat_len] at hsize
      have hbound := buffer.size.toNat_lt
      omega
    · rw [append_granted (by omega) hmemory,
        push_exact_iff hmemory (Nat.mod_le _ _) (Nat.lt_of_not_le hlong)]
      refine and_congr_left fun _ => ?_
      omega
  · intro other
    rw [appendChunk_other]
    simp only [ExactOrNone, content_concat, true_and, List.length_append]
    rw [concat, UInt32.toNat_add]

/-- Appends to an empty buffer, of three bytes and of a buffer of three. -/
theorem threeBytes_exact :
    ExactOrNone empty [97, 98, 99] (append 1 [97, 98, 99] 3 empty) ∧
      ExactOrNone empty twoChunks.content (appendChunk (.other twoChunks) empty) :=
  ⟨((append_exact_iff empty).1 1 [97, 98, 99] 3 (by decide)).mpr (by decide),
    ((append_exact_iff empty).2 twoChunks).mpr (by decide)⟩

/-- 2^31 bytes are a negative `int`: the vector's constructor throws, and the
empty buffer counts them. -/
theorem halfRange_counted :
    append 1 (List.replicate (2 ^ 31) 0) 0x80000000 empty = .error .lengthError ⟨[], 0x80000000⟩ ∧
      ¬ ExactOrNone empty ((List.replicate (2 ^ 31) 0).take (2 ^ 31))
        (append 1 (List.replicate (2 ^ 31) 0) 0x80000000 empty) := by
  have hthrows : append 1 (List.replicate (2 ^ 31) 0) 0x80000000 empty =
      .error .lengthError ⟨[], 0x80000000⟩ := append_throws (by decide)
  refine ⟨hthrows, ?_⟩
  rw [hthrows]
  intro hsame
  exact absurd (congrArg IOBuffer.size hsame) (by decide)

/-! ### The buffer itself as the source -/

/-- Appending the buffer to itself ends, in some number of iterations, and
leaves the old content twice over and `_size` doubled. -/
structure DoublesItself (buffer : IOBuffer) : Prop where
  ends : ∃ fuel chunks, pushChunks true fuel buffer.chunks buffer.chunks = .ok chunks
  doubles : ∃ last, appendChunk .self buffer = .ok true last ∧
    last.content = buffer.content ++ buffer.content ∧ last.size = buffer.size + buffer.size

/-- Every iteration puts one chunk behind the ones that are still to be
walked, so that the walk ends only where there is nothing to walk. -/
theorem doublesItself_iff (buffer : IOBuffer) : buffer.DoublesItself ↔ buffer.chunks = [] := by
  constructor
  · rintro ⟨⟨fuel, chunks, hends⟩, -⟩
    exact pushChunks_self hends
  · intro hnil
    have hpush : pushChunks true 0 buffer.chunks buffer.chunks = .ok [] := by rw [hnil, pushChunks]
    refine ⟨⟨0, [], hpush⟩, ⟨[], buffer.size + buffer.size⟩, ?_, ?_, rfl⟩
    · simp only [appendChunk, hnil, List.length_nil, pushChunks]
    · rw [content, content, hnil]
      rfl

/-- A buffer with one byte, walked for as long as one likes. -/
theorem oneByte_walksOn : (∀ fuel, ¬ ∃ chunks, pushChunks true fuel [[97]] [[97]] = .ok chunks) ∧
    ¬ DoublesItself ⟨[[97]], 1⟩ := by
  refine ⟨?_, ?_⟩
  · rintro fuel ⟨chunks, hends⟩
    exact absurd (pushChunks_self hends) (List.cons_ne_nil _ _)
  · rintro ⟨⟨fuel, chunks, hends⟩, -⟩
    exact absurd (pushChunks_self hends) (List.cons_ne_nil _ _)

end ZtHttp.IOBuffer
