import ZtHttp.SimHttp.Headers

/-!
# The length of a body

The loop of a POST compares the first 15 characters of each line with the name
of the header, and reads a number behind the 16th, which it has overwritten. The
last line that has the name decides, and no other.
-/

namespace ZtHttp.SimHttp

open Imperative
open Http (newline)

/-- What a line gives to `content_length`, if anything. -/
def lineLength (line : List Byte) : Option Int :=
  if ((line.take 15).takeWhile (· != 0)).map tolower = (ascii "Content-Length:").map tolower
  then
    some (atoi ((line.drop 16).takeWhile (· != 0)))
  else none

/-- What `content_length` is behind these lines. -/
def contentLength (lines : List (List Byte)) (found : Int) : Int :=
  lines.foldl (fun found line => (lineLength line).getD found) found

/-- No line is the name and nothing else, so that what follows it in the array is
memory that the line has not reached. -/
def Reaches (lines : List (List Byte)) : Prop :=
  ∀ line ∈ lines, line.length = 15 → lineLength line = none

instance (lines : List (List Byte)) : Decidable (Reaches lines) :=
  inferInstanceAs (Decidable (∀ line ∈ lines, _))

/-! ### One line -/

/-- A line up to a place in the array, cut at a NUL. -/
theorem take_takeWhile_memory (line rest : List Byte) (count : Nat) :
    ((line ++ 0 :: rest).take count).takeWhile (· != 0) =
      (line.take count).takeWhile (· != 0) := by
  rw [List.take_append]
  rcases Nat.eq_zero_or_pos (count - line.length) with hnone | hpos
  · rw [hnone, List.take_zero, List.append_nil]
  · obtain ⟨more, hmore⟩ : ∃ more, count - line.length = more + 1 :=
      ⟨count - line.length - 1, by omega⟩
    rw [hmore, List.take_succ_cons, takeWhile_append_cons (by decide)]

variable {input : List Byte} {buf : CharArray 1024}

/-- The array behind `buf[15] = '\0'`. -/
theorem Received.cut (hbuf : Received input buf) : ∃ name, buf.store 15 0 = .ok name ∧
    name.string = .ok (((nextLine 1023 input).1.take 15).takeWhile (· != 0)) ∧
    ((nextLine 1023 input).1.length ≠ 15 → 15 ≤ (nextLine 1023 input).1.length →
      readString (name.toList.drop 16) =
        .ok (((nextLine 1023 input).1.drop 16).takeWhile (· != 0))) := by
  obtain ⟨rest, hmemory⟩ := hbuf.memory
  generalize (nextLine 1023 input).1 = line at hmemory ⊢
  refine ⟨buf.set 15 0, CharArray.store_eq buf 0 (by decide), ?_, ?_⟩
  · have hlength : 15 < buf.toList.length := by simp
    rw [CharArray.string, Vector.toList_set, List.set_eq_take_append_cons_drop, if_pos hlength,
      readString_eq, hmemory, take_takeWhile_memory]
  · intro hother hlong
    rw [Vector.toList_set, List.drop_set_of_lt (by decide), hmemory,
      List.drop_append_of_le_length (by omega), readString_eq]

/-- A line that has the name is as long as it. -/
theorem length_of_lineLength {line : List Byte} {length : Int}
    (hline : lineLength line = some length) : 15 ≤ line.length := by
  rw [lineLength, Option.ite_none_right_eq_some] at hline
  have hname := congrArg List.length hline.1
  have hcut := (List.takeWhile_prefix (l := line.take 15) (· != 0)).length_le
  rw [List.length_map, List.length_map,
    show (ascii "Content-Length:").length = 15 by decide] at hname
  rw [List.length_take] at hcut
  omega

/-- What a turn finds of a line: it is not compared equal, or its number is read. -/
theorem Received.compare (hbuf : Received input buf)
    (hreach : (nextLine 1023 input).1.length = 15 → lineLength (nextLine 1023 input).1 = none) :
    ∃ name, buf.store 15 0 = .ok name ∧
      ((lineLength (nextLine 1023 input).1 = none ∧
          name.strcasecmpEq (ascii "Content-Length:") = .ok false) ∨
        ∃ number, lineLength (nextLine 1023 input).1 = some (atoi number) ∧
          name.strcasecmpEq (ascii "Content-Length:") = .ok true ∧
          readString (name.toList.drop 16) = .ok number) := by
  obtain ⟨name, hstore, hstring, hvalue⟩ := hbuf.cut
  refine ⟨name, hstore, ?_⟩
  rw [CharArray.strcasecmpEq_eq hstring (by decide)]
  cases hline : lineLength (nextLine 1023 input).1 with
  | none =>
      refine .inl ⟨rfl, congrArg Except.ok (decide_eq_false fun hname => ?_)⟩
      rw [lineLength, if_pos hname] at hline
      contradiction
  | some length =>
      have hlong := length_of_lineLength hline
      have hother : (nextLine 1023 input).1.length ≠ 15 := fun hshort => by
        rw [hreach hshort] at hline
        contradiction
      rw [lineLength, Option.ite_none_right_eq_some] at hline
      exact .inr ⟨_, hline.2.symm, congrArg Except.ok (decide_eq_true hline.1),
        hvalue hother hlong⟩

/-! ### The loop -/

/-- The loop behind a line. -/
theorem readLength_received {fuel : Nat} (hbuf : Received input buf)
    (hreach : Reaches (headerLines input).1) (hfuel : input.length < fuel) (found : Int)
    (sent : List Byte) (closes : Nat) :
    readLength fuel buf (nextLine 1023 input).1.length found
        ⟨(nextLine 1023 input).2, sent, closes⟩ =
      .ok (contentLength (headerLines input).1 found) ⟨(headerLines input).2, sent, closes⟩ := by
  induction fuel generalizing input buf found with
  | zero => omega
  | succ fuel ih =>
      rw [readLength]
      by_cases hnil : (nextLine 1023 input).1 = []
      · rw [headerLines_blank (.inl hnil), hnil]
        rfl
      · rw [if_neg (by rwa [List.length_eq_zero_iff])]
        rw [Method.bind_ok (Method.ofExcept_ok hbuf.strcmpEq _)]
        by_cases hblank : (nextLine 1023 input).1 = [newline]
        · rw [headerLines_blank (.inr hblank), if_pos (decide_eq_true hblank)]
          rfl
        · have hsome : input ≠ [] := by
            rintro rfl
            exact hnil rfl
          have hless := @nextLine_less 1022 _ hsome
          rw [headerLines_cons hnil hblank] at hreach ⊢
          obtain ⟨hfirst, hrest⟩ := List.forall_mem_cons.mp hreach
          obtain ⟨name, hstore, hcompare⟩ := hbuf.compare hfirst
          obtain ⟨next, hread, hnext⟩ :=
            getClientLine_eq name ⟨(nextLine 1023 input).2, sent, closes⟩
          have hlater := fun found =>
            ih hnext hrest (Nat.lt_of_lt_of_le hless (Nat.le_of_lt_succ hfuel)) found
          rw [if_neg (by simpa using hblank), Method.bind_ok (Method.ofExcept_ok hstore _)]
          rcases hcompare with ⟨hother, hname⟩ | ⟨number, hline, hname, hnumber⟩
          · rw [Method.bind_ok (Method.ofExcept_ok hname _), if_neg (by decide)]
            dsimp only [pure_bind]
            rw [contentLength, List.foldl_cons, hother]
            exact (Method.bind_ok hread).trans (hlater found)
          · rw [Method.bind_ok (Method.ofExcept_ok hname _), if_pos rfl, hnumber,
              contentLength, List.foldl_cons, hline]
            exact (Method.bind_ok hread).trans (hlater (atoi number))

/-- The branch of a POST up to the test of `content_length`. -/
theorem readLength_eq {fuel : Nat} (buf : CharArray 1024) (client : Client)
    (hreach : Reaches (headerLines client.input).1) (hfuel : client.input.length < fuel) :
    (do
        let (buf, numchars) ← getClientLine buf
        readLength fuel buf numchars (-1) : Method Client Int) client =
      .ok (contentLength (headerLines client.input).1 (-1))
        { client with input := (headerLines client.input).2 } := by
  obtain ⟨next, hread, hnext⟩ := getClientLine_eq buf client
  rw [Method.bind_ok hread]
  exact readLength_received hnext hreach hfuel (-1) client.sent client.closes

/-! ### Headers as they are written -/

/-- A line that ends with a line feed is not the name. -/
theorem reaches_lines (lines : List (List Byte)) : Reaches (lines.map (· ++ [newline])) := by
  intro line hline hlength
  obtain ⟨front, -, rfl⟩ := List.mem_map.mp hline
  rw [lineLength, if_neg]
  intro hname
  rw [List.take_of_length_le (Nat.le_of_eq hlength)] at hname
  have hcut : ((front ++ [newline]).takeWhile (· != 0)).length = (front ++ [newline]).length := by
    rw [← List.length_map tolower, hname, hlength]
    decide
  rw [(List.takeWhile_prefix _).eq_of_length hcut] at hname
  have hmem : tolower newline ∈ (front ++ [newline]).map tolower :=
    List.mem_map_of_mem (List.mem_append_right _ List.mem_cons_self)
  rw [hname] at hmem
  exact absurd hmem (by decide)

/-- Lines behind the last one with the name change nothing. -/
theorem contentLength_append {later : List (List Byte)}
    (hlater : ∀ line ∈ later, lineLength line = none) (before : List (List Byte)) (line : List Byte)
    {length : Int} (hline : lineLength line = some length) (found : Int) :
    contentLength (before ++ line :: later) found = length := by
  rw [contentLength, List.foldl_append, List.foldl_cons, hline]
  generalize length = found
  clear hline
  induction later with
  | nil => rfl
  | cons other later ih =>
      rw [List.foldl_cons, hlater other List.mem_cons_self]
      exact ih fun line hline => hlater line (List.mem_cons_of_mem _ hline)

/-- A number of 32 bits behind the name and one more character, whichever it is. -/
theorem lineLength_formatInt {name : List Byte}
    (hname : name.map tolower = (ascii "Content-Length:").map tolower) (separator : Byte)
    {number : Int} (hlow : -2 ^ 31 ≤ number) (hhigh : number < 2 ^ 31) :
    lineLength (name ++ separator :: formatInt number ++ [newline]) = some number := by
  have hlength : name.length = 15 := by
    rw [← List.length_map tolower, hname]
    decide
  have hzero : 0 ∉ name := by
    intro hmem
    have hmap := List.mem_map_of_mem (f := tolower) hmem
    rw [hname] at hmap
    exact absurd hmap (by decide)
  have hline : name ++ separator :: formatInt number ++ [newline] =
      name ++ separator :: (formatInt number ++ [newline]) := by
    rw [List.append_assoc, List.cons_append]
  have hdrop : (name ++ separator :: (formatInt number ++ [newline])).drop 16 =
      formatInt number ++ [newline] := by
    rw [show 16 = name.length + 1 by rw [hlength], ← List.drop_drop, List.drop_left]
    rfl
  have hvalue : 0 ∉ formatInt number ++ [newline] :=
    List.not_mem_append (zero_not_mem_formatInt number) (by decide)
  rw [hline, lineLength, List.take_left' hlength, takeWhile_ne_eq_self_iff.mpr hzero, if_pos hname,
    hdrop, takeWhile_ne_eq_self_iff.mpr hvalue, atoi_formatInt hlow hhigh (by decide)]

/-- The lines of a header that a client writes for a body of some length. -/
structure Announces (lines : List (List Byte)) (number : Int) : Prop where
  written : ∀ line ∈ lines, Plain line ∧ line ≠ [] ∧ line.length < 1023
  range : -2 ^ 31 ≤ number ∧ number < 2 ^ 31
  last : ∃ before name separator later,
    lines = before ++ (name ++ separator :: formatInt number) :: later ∧
    name.map tolower = (ascii "Content-Length:").map tolower ∧
    ∀ line ∈ later, lineLength (line ++ [newline]) = none

theorem Announces.contentLength_eq {lines : List (List Byte)} {number : Int}
    (hlines : Announces lines number) (found : Int) :
    contentLength (lines.map (· ++ [newline])) found = number := by
  obtain ⟨-, ⟨hlow, hhigh⟩, before, name, separator, later, rfl, hname, hlater⟩ := hlines
  have hline := lineLength_formatInt hname separator hlow hhigh
  rw [List.map_append, List.map_cons, contentLength_append (by simpa using hlater) _ _ hline]

/-- The length that a header announces is read from it, whatever other lines it
has, and the body stays on the socket. -/
theorem length_read {fuel : Nat} {lines : List (List Byte)} {number : Int}
    (hlines : Announces lines number) (buf : CharArray 1024) (body sent : List Byte)
    (closes : Nat) (hfuel : (header lines ++ body).length < fuel) :
    (do
        let (buf, numchars) ← getClientLine buf
        readLength fuel buf numchars (-1) : Method Client Int)
        ⟨header lines ++ body, sent, closes⟩ = .ok number ⟨body, sent, closes⟩ := by
  have hheader := headerLines_header hlines.written body
  rw [readLength_eq buf _ (by rw [hheader]; exact reaches_lines _) hfuel, hheader,
    hlines.contentLength_eq]

/-- `content-length: 5`, behind another line. -/
theorem fiveHeader_announces : Announces [ascii "Host: a", ascii "content-length: 5"] 5 where
  written := by decide
  range := by decide
  last := ⟨[ascii "Host: a"], ascii "content-length:", 32, [], by decide, by decide, nofun⟩

theorem fiveHeader_read :
    (do
        let (buf, numchars) ← getClientLine (.replicate 1024 0)
        readLength 40 buf numchars (-1) : Method Client Int)
        ⟨header [ascii "Host: a", ascii "content-length: 5"] ++ ascii "hello", [], 0⟩ =
      .ok 5 ⟨ascii "hello", [], 0⟩ :=
  length_read fiveHeader_announces _ _ _ _ (by decide)

end ZtHttp.SimHttp
