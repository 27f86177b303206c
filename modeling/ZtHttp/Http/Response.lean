import ZtHttp.Http.Request
import ZtHttp.IOBuffer.Laws

/-!
# What the handler does to its buffers

`get_line` never advances its index: it returns 0 and leaves a string of at
most one character. No such string is `GET` or `POST`, so `Http::write` answers
every request with the page for unimplemented methods, whatever the stack and
the file system hold. Only `write_eq` depends on that; the modules above use
`response` and `write_appends`.
-/

namespace ZtHttp.Http

open Imperative

/-- The line loop keeps its index, and stays within any array. -/
theorem getLineLoop_eq {n : Nat} (hn : 0 < n) (size : Nat) (input : List Byte) (buf : CharArray n) :
    ∃ buf', getLineLoop size input buf 0 = .ok (buf', 0) := by
  induction input generalizing buf with
  | nil => exact ⟨buf, rfl⟩
  | cons char rest ih =>
      simp only [getLineLoop]
      split
      · split
        · exact ⟨buf, rfl⟩
        · rw [CharArray.store_eq buf char hn]
          exact ih _
      · exact ⟨buf, rfl⟩

/-- `get_line` returns 0 and terminates the array behind its first character. -/
theorem getLine_eq {n : Nat} (hn : 1 < n) (http : Http) (buf : CharArray n) (size : Nat) :
    ∃ buf' : CharArray n, getLine http buf size = .ok (buf', 0) ∧ buf'[1] = 0 := by
  obtain ⟨buf', hloop⟩ := getLineLoop_eq (by omega) size http.inBuffer buf
  refine ⟨buf'.set 1 0, ?_, by simp⟩
  simp only [getLine, hloop, bind, Except.bind]
  rw [CharArray.store_eq buf' 0 hn]
  rfl

/-- A line with a terminator behind its first character names a method of one
character at most. -/
theorem methodText_length {buf : CharArray 1024} (hbuf : buf[1] = 0) :
    (methodText buf).length ≤ 1 := by
  have hlength : 1 < buf.toList.length := by
    rw [Vector.length_toList]
    decide
  obtain ⟨first, rest, heq⟩ := List.exists_cons_of_length_pos (Nat.zero_lt_of_lt hlength)
  rw [heq, List.length_cons] at hlength
  obtain ⟨second, rest, rfl⟩ := List.exists_cons_of_length_pos (Nat.lt_of_succ_lt_succ hlength)
  have hsecond : second = 0 := by
    rw [← hbuf, ← Vector.getElem_toList (by simp)]
    simp only [heq, List.getElem_cons_succ, List.getElem_cons_zero]
  rw [methodText, CharArray.span, heq, hsecond, List.drop_zero, List.takeWhile_cons]
  split
  · rw [List.takeWhile_cons_of_pos (by decide), List.take_succ_cons, List.take_succ_cons,
      List.takeWhile_cons]
    split
    · rw [List.takeWhile_cons_of_neg (by decide)]
      exact Nat.le_refl 1
    · exact Nat.zero_le 1
  · exact Nat.zero_le 1

theorem unimplementedPage_length : unimplementedPage.length = 206 := by
  -- the literals are evaluated one by one, which the kernel does faster than the whole page
  rw [unimplementedPage, ascii, List.length_map, String.toList_append, String.toList_append,
    String.toList_append, List.length_append, List.length_append, List.length_append]
  simp only [String.reduceToList, List.length_cons, List.length_nil]

/-- A page that is not too long for `append` is appended. -/
theorem appendPage_eq {page : List Byte} (hpage : page.length < 2 ^ 31) (buffer : IOBuffer) :
    appendPage page buffer = .ok () (buffer.push page) :=
  (Method.bind_ok (IOBuffer.appendBytes_eq buffer page hpage)).trans rfl

theorem unimplemented_eq (buffer : IOBuffer) :
    unimplemented buffer = .ok () (buffer.push unimplementedPage) :=
  appendPage_eq (by rw [unimplementedPage_length]; decide) buffer

/-- Every request is answered with the page for unimplemented methods. -/
theorem write_eq (env : HttpEnv) (http : Http) (buffer : IOBuffer) :
    write env http buffer = .ok (-1) (buffer.push unimplementedPage) := by
  obtain ⟨buf, hline, hterminated⟩ := getLine_eq (by decide) http env.stack.buf 1024
  have hshort := methodText_length hterminated
  have hother : ¬ ImplementedMethod (methodText buf) := fun hmethod => by
    have hlength := hmethod.length
    omega
  have hrequest := requestPath_spec env.stack buf (Nat.zero_le 1023)
  rw [if_neg hother] at hrequest
  rw [write_eq_requestPath, Method.bind_ok (Method.ofExcept_ok hline _)]
  dsimp only
  rw [Method.bind_ok (Method.ofExcept_ok hrequest _)]
  dsimp only
  rw [Method.bind_ok (unimplemented_eq buffer)]
  rfl

/-- The response to what the input buffer holds: what `write` appends. -/
def response (env : HttpEnv) (http : Http) : List Byte :=
  match write env http .empty with
  | .ok _ buffer => buffer.content
  | .error _ buffer => buffer.content

theorem response_eq (env : HttpEnv) (http : Http) : response env http = unimplementedPage := by
  simp [response, write_eq, IOBuffer.push, IOBuffer.empty]

theorem response_length (env : HttpEnv) (http : Http) : (response env http).length = 206 := by
  rw [response_eq, unimplementedPage_length]

/-- `write` returns, and puts the response behind what the buffer holds. -/
theorem write_appends (env : HttpEnv) (http : Http) {buffer : IOBuffer} (hcounted : buffer.Counted)
    (hbound : buffer.content.length + (response env http).length < 2 ^ 31) :
    ∃ result buffer', write env http buffer = .ok result buffer' ∧ buffer'.Counted ∧
      buffer'.content = buffer.content ++ response env http := by
  rw [response_eq] at hbound ⊢
  exact ⟨-1, _, write_eq env http buffer, hcounted.push hbound, by simp⟩

/-! ### Taking the request over -/

/-- Every chunk of an empty stream is empty. -/
theorem front_of_content_nil {buffer : IOBuffer} (hchunks : buffer.chunks ≠ [])
    (hnil : buffer.content = []) : buffer.front = [] := by
  cases hlist : buffer.chunks with
  | nil => exact absurd hlist hchunks
  | cons front rest =>
      rw [IOBuffer.content, hlist, List.flatten_cons, List.append_eq_nil_iff] at hnil
      simp [IOBuffer.front, hlist, hnil.1]

/-- `read` of an empty stream in chunks: `pullDown` and `consume` are refused. -/
theorem read_empty (http : Http) {buffer : IOBuffer} (hcounted : buffer.Counted)
    (hchunks : buffer.chunks ≠ []) (hempty : buffer.size = 0) :
    read http buffer = .ok ⟨buffer.content⟩ buffer := by
  have hnil := hcounted.content_eq_nil hempty
  have hfront := front_of_content_nil hchunks hnil
  rw [read, Method.bind_ok (Method.get_apply _),
    Method.bind_ok (IOBuffer.pullDown_refused (.inr hempty)), Method.bind_ok (Method.get_apply _)]
  dsimp only
  rw [if_pos hempty, Method.bind_ok (Method.ofExcept_ok rfl _),
    Method.bind_ok (Method.get_apply _),
    Method.bind_ok (IOBuffer.consume_refused hcounted hchunks (.inr hfront)), hnil,
    Method.pure_apply]

/-- `read` of a stream that is not empty: `pullDown` merges it into one chunk, which
`consume` takes off. -/
theorem read_whole (http : Http) {buffer : IOBuffer} (hcounted : buffer.Counted)
    (hfull : buffer.size ≠ 0) :
    ∃ drained, read http buffer = .ok ⟨buffer.content⟩ drained ∧ drained.Counted ∧
      drained.content = [] := by
  have hsize := hcounted.size_eq
  obtain ⟨front, rest, hpull, hbytes, hreach⟩ := IOBuffer.pullDown_served hcounted
    buffer.size hfull (by omega) fun hzero => absurd hzero hfull
  have hlengths := congrArg List.length hbytes
  rw [List.length_append] at hlengths
  have hsame : IOBuffer.content ⟨front :: rest, buffer.size⟩ = buffer.content := by
    simpa using hbytes
  have hmerged := hcounted.rechunk hsame
  -- the pull asks for the whole stream, which therefore lies in the front chunk
  have hall : front.take buffer.size.toNat = buffer.content := by
    have htail : rest.flatten = [] := List.length_eq_zero_iff.mp (by omega)
    rw [htail, List.append_nil] at hbytes
    rw [hbytes, hsize, List.take_length]
  have hfront : IOBuffer.front ⟨front :: rest, buffer.size⟩ ≠ [] := by
    intro hnil
    simp only [IOBuffer.front, List.headD_cons] at hnil
    rw [hnil, List.take_nil] at hall
    exact hcounted.content_ne_nil hfull hall.symm
  obtain ⟨drained, hconsume, hdrained, hleft⟩ := IOBuffer.consume_granted hmerged
    buffer.size (by simpa [IOBuffer.front] using hreach) hfront
  refine ⟨drained, ?_, hdrained, ?_⟩
  · rw [read, Method.bind_ok (Method.get_apply _), Method.bind_ok hpull,
      Method.bind_ok (Method.get_apply _)]
    dsimp only
    rw [if_neg (by omega), Method.bind_ok (Method.ofExcept_ok rfl _),
      Method.bind_ok (Method.get_apply _), Method.bind_ok hconsume, hall, Method.pure_apply]
  · rw [hsame, hsize, List.take_length] at hleft
    exact List.append_right_eq_self.mp hleft.symm

/-- `read` of a buffer with chunks takes the whole stream and leaves none. -/
theorem read_spec (http : Http) {buffer : IOBuffer} (hcounted : buffer.Counted)
    (hchunks : buffer.chunks ≠ []) :
    ∃ drained, read http buffer = .ok ⟨buffer.content⟩ drained ∧ drained.Counted ∧
      drained.content = [] := by
  by_cases hempty : buffer.size = 0
  · exact ⟨buffer, read_empty http hcounted hchunks hempty, hcounted,
      hcounted.content_eq_nil hempty⟩
  · exact read_whole http hcounted hempty

/-- `read` of a buffer without chunks has `consume` look at the front of an
empty list. -/
theorem read_fault (http : Http) {buffer : IOBuffer} (hcounted : buffer.Counted)
    (hchunks : buffer.chunks = []) : read http buffer = .error .pastEnd buffer := by
  have hempty : buffer.size = 0 := by
    have hsize := hcounted.size_eq
    rw [IOBuffer.content, hchunks] at hsize
    exact UInt32.toNat_inj.mp hsize
  have hconsume : IOBuffer.consume buffer.size buffer = .error .pastEnd buffer := by
    simp only [IOBuffer.consume, hchunks]
  rw [read, Method.bind_ok (Method.get_apply _),
    Method.bind_ok (IOBuffer.pullDown_refused (.inr hempty)), Method.bind_ok (Method.get_apply _)]
  dsimp only
  rw [if_pos hempty, Method.bind_ok (Method.ofExcept_ok rfl _), Method.bind_ok (Method.get_apply _),
    Method.bind_error hconsume]

end ZtHttp.Http
