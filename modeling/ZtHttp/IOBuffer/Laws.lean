import ZtHttp.IOBuffer.Basic

/-!
# What each buffer operation does

A buffer is `Counted` when `_size` is the number of bytes in its chunks and
that number fits an `int`. On a counted buffer every operation has one
equation, and the content is all that it depends on.
-/

namespace ZtHttp.IOBuffer

open Imperative

/-- `_size` counts the bytes, and no count has wrapped. -/
structure Counted (buffer : IOBuffer) : Prop where
  size_eq : buffer.size.toNat = buffer.content.length
  bound : buffer.content.length < 2 ^ 31

theorem counted_empty : empty.Counted := ⟨rfl, by decide⟩

@[simp] theorem content_empty : empty.content = [] := rfl

@[simp] theorem content_mk (chunks : List Chunk) (size : UInt32) :
    content ⟨chunks, size⟩ = chunks.flatten := rfl

theorem toNat_ofNat_length (data : List Byte) (hdata : data.length < 2 ^ 31) :
    (UInt32.ofNat data.length).toNat = data.length := by
  simp only [UInt32.toNat_ofNat']
  omega

/-- The buffer with one more chunk behind. -/
def push (buffer : IOBuffer) (data : Chunk) : IOBuffer :=
  ⟨buffer.chunks ++ [data], buffer.size + UInt32.ofNat data.length⟩

/-- The buffer with the chunks of another one behind. -/
def concat (buffer other : IOBuffer) : IOBuffer :=
  ⟨buffer.chunks ++ other.chunks, buffer.size + other.size⟩

@[simp] theorem content_push (buffer : IOBuffer) (data : Chunk) :
    (buffer.push data).content = buffer.content ++ data := by
  simp [push, content]

@[simp] theorem content_concat (buffer other : IOBuffer) :
    (buffer.concat other).content = buffer.content ++ other.content := by
  simp [concat, content]

theorem Counted.push {buffer : IOBuffer} (hcounted : buffer.Counted) {data : Chunk}
    (hbound : buffer.content.length + data.length < 2 ^ 31) : (buffer.push data).Counted := by
  refine ⟨?_, by simpa using hbound⟩
  have hdata := toNat_ofNat_length data (by omega)
  simp only [content_push, List.length_append]
  simp only [IOBuffer.push, UInt32.toNat_add, hcounted.size_eq, hdata]
  omega

theorem Counted.concat {buffer other : IOBuffer} (hcounted : buffer.Counted)
    (hother : other.Counted)
    (hbound : buffer.content.length + other.content.length < 2 ^ 31) :
    (buffer.concat other).Counted := by
  refine ⟨?_, by simpa using hbound⟩
  simp only [content_concat, List.length_append]
  simp only [IOBuffer.concat, UInt32.toNat_add, hcounted.size_eq, hother.size_eq]
  omega

/-- Appending bytes adds exactly one chunk. -/
theorem appendBytes_eq (buffer : IOBuffer) (data : List Byte) (hdata : data.length < 2 ^ 31) :
    appendBytes data buffer = .ok true (buffer.push data) := by
  have hlen : ((1 : UInt64) * (UInt32.ofNat data.length).toUInt64).toUInt32 =
      UInt32.ofNat data.length := by simp
  have hnat := toNat_ofNat_length data hdata
  simp only [appendBytes, append, hlen, hnat, push, List.take_length, Nat.lt_irrefl, if_false]
  rw [if_neg (by omega)]

theorem pushChunks_distinct (source target : List Chunk) :
    pushChunks false source.length source target = .ok (target ++ source) := by
  induction source generalizing target with
  | nil => simp [pushChunks]
  | cons tmp rest ih => simp [pushChunks, ih]

/-- Appending a distinct buffer copies its chunks. -/
theorem appendChunk_other (buffer other : IOBuffer) :
    appendChunk (.other other) buffer = .ok true (buffer.concat other) := by
  simp only [appendChunk, pushChunks_distinct, concat]

/-- The merge ends inside the list where the front and some chunks behind it
reach the length asked for, modulo 2^32. The induction is on the chunks behind
the front. -/
theorem mergeLoop_returns_iff (num : UInt32) (front : Chunk) (rest : List Chunk) :
    (∃ chunks, mergeLoop num (UInt32.ofNat front.length) front rest = .ok chunks) ↔
      ∃ taken, taken <+: rest ∧ num ≤ UInt32.ofNat (front ++ taken.flatten).length := by
  induction rest generalizing front with
  | nil =>
      simp only [mergeLoop, List.prefix_nil, exists_eq_left, List.flatten_nil, List.append_nil]
      by_cases hshort : UInt32.ofNat front.length < num
      · simp only [if_pos hshort, reduceCtorEq, exists_false, false_iff]
        exact UInt32.not_le.mpr hshort
      · rw [if_neg hshort]
        exact iff_of_true ⟨_, rfl⟩ (UInt32.not_lt.mp hshort)
  | cons chunk rest ih =>
      by_cases hshort : UInt32.ofNat front.length < num
      · have hsum : UInt32.ofNat front.length + UInt32.ofNat chunk.length =
            UInt32.ofNat (front ++ chunk).length := by simp
        rw [mergeLoop, if_pos hshort, hsum, ih (front ++ chunk)]
        constructor
        · rintro ⟨taken, hprefix, hreach⟩
          refine ⟨chunk :: taken, List.cons_prefix_cons.mpr ⟨rfl, hprefix⟩, ?_⟩
          rwa [List.flatten_cons, ← List.append_assoc]
        · rintro ⟨taken, hprefix, hreach⟩
          cases taken with
          | nil =>
              rw [List.flatten_nil, List.append_nil] at hreach
              exact absurd hreach (UInt32.not_le.mpr hshort)
          | cons first taken =>
              obtain ⟨rfl, htail⟩ := List.cons_prefix_cons.mp hprefix
              refine ⟨taken, htail, ?_⟩
              rwa [List.append_assoc, ← List.flatten_cons]
      · rw [mergeLoop, if_neg hshort]
        refine iff_of_true ⟨_, rfl⟩ ⟨[], List.nil_prefix, ?_⟩
        rw [List.flatten_nil, List.append_nil]
        exact UInt32.not_lt.mp hshort

/-- The merge keeps the bytes, reaches the length asked for and only grows the
front chunk, which it leaves as it is when nothing is asked for. -/
theorem mergeLoop_ok {num : UInt32} {front : Chunk} {rest chunks : List Chunk}
    (hloop : mergeLoop num (UInt32.ofNat front.length) front rest = .ok chunks) :
    ∃ front' rest', chunks = front' :: rest' ∧
      front' ++ rest'.flatten = front ++ rest.flatten ∧ num ≤ UInt32.ofNat front'.length ∧
      front.length ≤ front'.length ∧ (num = 0 → front' = front) := by
  induction rest generalizing front with
  | nil =>
      rw [mergeLoop] at hloop
      split at hloop
      · contradiction
      · next hshort =>
          cases hloop
          exact ⟨front, [], rfl, rfl, UInt32.not_lt.mp hshort, Nat.le_refl _, fun _ => rfl⟩
  | cons chunk rest ih =>
      rw [mergeLoop] at hloop
      split at hloop
      · next hshort =>
          have hsum : UInt32.ofNat front.length + UInt32.ofNat chunk.length =
              UInt32.ofNat (front ++ chunk).length := by simp
          rw [hsum] at hloop
          obtain ⟨front', rest', heq, hbytes, hreach, hgrow, -⟩ := ih hloop
          refine ⟨front', rest', heq, by simpa using hbytes, hreach, ?_, ?_⟩
          · rw [List.length_append] at hgrow
            omega
          · rintro rfl
            exact absurd hshort (UInt32.not_lt.mpr (UInt32.le_iff_toNat_le.mpr (Nat.zero_le _)))
      · next hshort =>
          -- the front already reaches the length, and the loop ends
          cases hloop
          exact ⟨front, chunk :: rest, rfl, rfl, UInt32.not_lt.mp hshort, Nat.le_refl _,
            fun _ => rfl⟩

theorem toNat_ofNat_le (length : Nat) : (UInt32.ofNat length).toNat ≤ length := by
  rw [UInt32.toNat_ofNat']
  exact Nat.mod_le _ _

/-- The merge of chunks that hold the bytes asked for. -/
theorem mergeLoop_spec (num : UInt32) (front : Chunk) (rest : List Chunk)
    (hbound : (front ++ rest.flatten).length < 2 ^ 31)
    (hnum : num.toNat ≤ (front ++ rest.flatten).length) :
    ∃ front' rest', mergeLoop num (UInt32.ofNat front.length) front rest = .ok (front' :: rest') ∧
      front' ++ rest'.flatten = front ++ rest.flatten ∧
      num.toNat ≤ front'.length ∧ front.length ≤ front'.length := by
  have hreach : num ≤ UInt32.ofNat (front ++ rest.flatten).length := by
    rw [UInt32.le_iff_toNat_le, toNat_ofNat_length _ hbound]
    exact hnum
  obtain ⟨chunks, hloop⟩ :=
    (mergeLoop_returns_iff num front rest).mpr ⟨rest, List.prefix_rfl, hreach⟩
  obtain ⟨front', rest', rfl, hbytes, hreach', hgrow, -⟩ := mergeLoop_ok hloop
  refine ⟨front', rest', hloop, hbytes, ?_, hgrow⟩
  exact (UInt32.le_iff_toNat_le.mp hreach').trans (toNat_ofNat_le _)

/-- `pullDown` of more than there is, or from an empty buffer. -/
theorem pullDown_refused {buffer : IOBuffer} {num : UInt32}
    (hrefused : buffer.size < num ∨ buffer.size = 0) :
    pullDown num buffer = .ok none buffer := by
  simp only [pullDown, if_pos hrefused]

theorem Counted.content_eq_nil {buffer : IOBuffer} (hcounted : buffer.Counted)
    (hsize : buffer.size = 0) : buffer.content = [] := by
  have hzero := hcounted.size_eq
  rw [hsize] at hzero
  exact List.length_eq_zero_iff.mp hzero.symm

/-- Other chunks with the same stream have the same count. -/
theorem Counted.rechunk {buffer : IOBuffer} (hcounted : buffer.Counted) {chunks : List Chunk}
    (hsame : content ⟨chunks, buffer.size⟩ = buffer.content) : Counted ⟨chunks, buffer.size⟩ := by
  constructor
  · rw [hsame]
    exact hcounted.size_eq
  · rw [hsame]
    exact hcounted.bound

theorem Counted.size_eq_zero {buffer : IOBuffer} (hcounted : buffer.Counted)
    (hnil : buffer.content = []) : buffer.size = 0 := by
  have hzero := hcounted.size_eq
  rw [hnil] at hzero
  exact UInt32.toNat_inj.mp hzero

theorem Counted.content_ne_nil {buffer : IOBuffer} (hcounted : buffer.Counted)
    (hsize : buffer.size ≠ 0) : buffer.content ≠ [] :=
  fun hnil => hsize (hcounted.size_eq_zero hnil)

/-- The front chunk, empty when there is none. -/
def front (buffer : IOBuffer) : Chunk := buffer.chunks.headD []

theorem Counted.front_length {buffer : IOBuffer} (hcounted : buffer.Counted) :
    buffer.front.length < 2 ^ 31 := by
  have hbound := hcounted.bound
  cases hchunks : buffer.chunks with
  | nil => simp [front, hchunks]
  | cons first rest =>
      simp only [content, hchunks, List.flatten_cons, List.length_append] at hbound
      simp only [front, hchunks, List.headD_cons]
      omega

/-- A `pullDown` that can be served returns a front chunk of at least `num`
bytes and keeps the stream and its count. -/
theorem pullDown_served {buffer : IOBuffer} (hcounted : buffer.Counted) (num : UInt32)
    (hsize : buffer.size ≠ 0) (hnum : num.toNat ≤ buffer.content.length)
    (hfront : num = 0 → buffer.front ≠ []) :
    ∃ front' rest', pullDown num buffer = .ok (some front') ⟨front' :: rest', buffer.size⟩ ∧
      front' ++ rest'.flatten = buffer.content ∧ num.toNat ≤ front'.length := by
  have hserved : ¬ (buffer.size < num ∨ buffer.size = 0) := by
    rw [UInt32.lt_iff_toNat_lt, hcounted.size_eq]
    simp only [hsize, or_false]
    omega
  cases hchunks : buffer.chunks with
  | nil => exact absurd (by simp [content, hchunks]) (hcounted.content_ne_nil hsize)
  | cons front rest =>
      have hcontent : buffer.content = front ++ rest.flatten := by simp [content, hchunks]
      have hbound := hcounted.bound
      rw [hcontent] at hbound hnum
      obtain ⟨front', rest', hloop, hbytes, hreach, hgrow⟩ :=
        mergeLoop_spec num front rest hbound hnum
      -- `front.begin()` of an empty chunk is undefined; the request for 0 bytes is
      -- the only one that the merge could answer with one
      have hne : front' ≠ [] := by
        intro hnil
        subst hnil
        have hzero : num = 0 := UInt32.toNat_inj.mp (Nat.le_zero.mp hreach)
        apply hfront hzero
        simpa [IOBuffer.front, hchunks] using Nat.le_zero.mp hgrow
      obtain ⟨byte, bytes, rfl⟩ := List.exists_cons_of_ne_nil hne
      refine ⟨byte :: bytes, rest', ?_, hbytes.trans hcontent.symm, hreach⟩
      simp only [pullDown, if_neg hserved, hchunks, hloop]

/-- `consume` that is refused leaves the buffer alone. -/
theorem consume_refused {buffer : IOBuffer} (hcounted : buffer.Counted) {num : UInt32}
    (hchunks : buffer.chunks ≠ [])
    (hrefused : buffer.front.length < num.toNat ∨ buffer.front = []) :
    consume num buffer = .ok false buffer := by
  cases hlist : buffer.chunks with
  | nil => exact absurd hlist hchunks
  | cons front rest =>
      have hlength := hcounted.front_length
      simp only [IOBuffer.front, hlist, List.headD_cons] at hlength
      have hsiz := toNat_ofNat_length front hlength
      simp only [IOBuffer.front, hlist, List.headD_cons] at hrefused
      simp only [consume, hlist]
      rw [if_pos]
      rw [UInt32.lt_iff_toNat_lt, hsiz, ← UInt32.toNat_inj, hsiz]
      exact hrefused.imp id fun hnil => by simp [hnil]

/-- `consume` that is granted removes the first `num` bytes of the stream. -/
theorem consume_granted {buffer : IOBuffer} (hcounted : buffer.Counted) (num : UInt32)
    (hnum : num.toNat ≤ buffer.front.length) (hfront : buffer.front ≠ []) :
    ∃ buffer', consume num buffer = .ok true buffer' ∧ buffer'.Counted ∧
      buffer.content = buffer.content.take num.toNat ++ buffer'.content := by
  cases hlist : buffer.chunks with
  | nil => exact absurd (by simp [IOBuffer.front, hlist]) hfront
  | cons front rest =>
      simp only [IOBuffer.front, hlist, List.headD_cons] at hnum hfront
      have hcontent : buffer.content = front ++ rest.flatten := by simp [content, hlist]
      have hbound := hcounted.bound
      have hsize := hcounted.size_eq
      rw [hcontent, List.length_append] at hbound hsize
      have hsiz := toNat_ofNat_length front (by omega)
      have hgranted : ¬ (UInt32.ofNat front.length < num ∨ UInt32.ofNat front.length = 0) := by
        rw [UInt32.lt_iff_toNat_lt, hsiz, ← UInt32.toNat_inj, hsiz]
        simpa [hfront] using hnum
      have hleft : (buffer.size - num).toNat = buffer.size.toNat - num.toNat :=
        UInt32.toNat_sub_of_le _ _ (by rw [UInt32.le_iff_toNat_le]; omega)
      have htake : buffer.content.take num.toNat = front.take num.toNat := by
        rw [hcontent, List.take_append_of_le_length hnum]
      -- a chunk that is taken whole leaves the list, any other keeps its tail
      by_cases hwhole : UInt32.ofNat front.length = num
      · have hall : num.toNat = front.length := by rw [← hwhole, hsiz]
        refine ⟨⟨rest, buffer.size - num⟩, ?_, ⟨?_, ?_⟩, ?_⟩
        · simp only [consume, hlist, if_neg hgranted, if_pos hwhole]
        · simp only [content_mk, hleft]
          omega
        · simp only [content_mk]
          omega
        · rw [htake, hall, List.take_length]
          exact hcontent
      · refine ⟨⟨front.drop num.toNat :: rest, buffer.size - num⟩, ?_, ⟨?_, ?_⟩, ?_⟩
        · simp only [consume, hlist, if_neg hgranted, if_neg hwhole]
        · simp only [content_mk, hleft, List.flatten_cons, List.length_append, List.length_drop]
          omega
        · simp only [content_mk, List.flatten_cons, List.length_append, List.length_drop]
          omega
        · rw [htake, hcontent]
          simp only [content_mk, List.flatten_cons, ← List.append_assoc, List.take_append_drop]

end ZtHttp.IOBuffer
