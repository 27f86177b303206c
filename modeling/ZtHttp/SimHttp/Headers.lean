import ZtHttp.SimHttp.Basic

/-!
# The header of a request

The loops over the header take lines off the socket up to the first that is a
line feed, or to the end. Each line is cut behind 1023 characters, so that a
line whose length is a multiple of that leaves its end as a line of its own.
-/

namespace ZtHttp.SimHttp

open Imperative
open Http (newline)

/-! ### Lines -/

/-- What is behind a line is the end of what there was. -/
theorem nextLine_suffix (room : Nat) (input : List Byte) : (nextLine room input).2 <:+ input := by
  fun_induction nextLine room input with
  | case1 input => exact List.suffix_rfl
  | case2 room => exact List.suffix_rfl
  | case3 room rest =>
      split_ifs
      · exact (List.tail_suffix rest).trans (List.suffix_cons _ _)
      · exact List.suffix_cons _ _
  | case4 room rest => exact List.suffix_cons _ _
  | case5 room char rest _ _ line behind hline ih =>
      rw [hline] at ih
      exact ih.trans (List.suffix_cons _ _)

/-- A line takes something off an input that there is. -/
theorem nextLine_less {room : Nat} {input : List Byte} (hinput : input ≠ []) :
    (nextLine (room + 1) input).2.length < input.length := by
  obtain ⟨char, rest, rfl⟩ := List.exists_cons_of_ne_nil hinput
  apply Nat.lt_succ_of_le
  rw [nextLine]
  split_ifs with hreturn hpair hfeed
  · exact (List.tail_suffix rest).length_le
  · exact Nat.le_refl _
  · exact Nat.le_refl _
  · exact (nextLine_suffix room rest).length_le

/-- What follows a line feed in a line is nothing. -/
theorem nextLine_newline {room : Nat} {input rest : List Byte}
    (hline : (nextLine room input).1 = newline :: rest) : rest = [] := by
  cases room with
  | zero => contradiction
  | succ room =>
      cases input with
      | nil => contradiction
      | cons char behind =>
          rw [nextLine] at hline
          split_ifs at hline with hreturn hpair hfeed
          · exact (List.cons.inj hline).2.symm
          · exact (List.cons.inj hline).2.symm
          · exact (List.cons.inj hline).2.symm
          · exact absurd (List.cons.inj hline).1 hfeed

/-- The lines in front of the first that is empty or a line feed, and what is
behind it. -/
def headerLines (input : List Byte) : List (List Byte) × List Byte :=
  let line := (nextLine 1023 input).1
  let rest := (nextLine 1023 input).2
  if line = [] ∨ line = [newline] then ([], rest)
  else (line :: (headerLines rest).1, (headerLines rest).2)
termination_by input.length
decreasing_by
  all_goals
    apply nextLine_less
    rintro rfl
    rename_i hline
    exact hline (.inl rfl)

theorem headerLines_blank {input : List Byte}
    (hline : (nextLine 1023 input).1 = [] ∨ (nextLine 1023 input).1 = [newline]) :
    headerLines input = ([], (nextLine 1023 input).2) := by
  rw [headerLines]
  exact if_pos hline

theorem headerLines_cons {input : List Byte} (hnil : (nextLine 1023 input).1 ≠ [])
    (hother : (nextLine 1023 input).1 ≠ [newline]) :
    headerLines input = ((nextLine 1023 input).1 :: (headerLines (nextLine 1023 input).2).1,
      (headerLines (nextLine 1023 input).2).2) := by
  rw [headerLines]
  exact if_neg (not_or.mpr ⟨hnil, hother⟩)

/-! ### The loops -/

/-- What the array holds behind `get_line`: the line and a terminator. -/
structure Received (input : List Byte) (buf : CharArray 1024) : Prop where
  memory : ∃ rest, buf.toList = (nextLine 1023 input).1 ++ 0 :: rest

theorem Received.string {input : List Byte} {buf : CharArray 1024} (hbuf : Received input buf) :
    buf.string = .ok ((nextLine 1023 input).1.takeWhile (· != 0)) := by
  obtain ⟨rest, hmemory⟩ := hbuf.memory
  rw [CharArray.string, hmemory, readString_eq]

/-- `get_line` takes the next line off the socket. -/
theorem getClientLine_eq (buf : CharArray 1024) (client : Client) : ∃ next,
    getClientLine buf client = .ok (next, (nextLine 1023 client.input).1.length)
        { client with input := (nextLine 1023 client.input).2 } ∧
      Received client.input next := by
  have hlength := nextLine_length 1023 client.input
  obtain ⟨next, rest, hstore, hmemory⟩ :=
    buf.storeString_eq 0 (nextLine 1023 client.input).1 (by omega)
  refine ⟨next, ?_, ⟨rest, by simpa using hmemory⟩⟩
  rw [getClientLine, getLine_eq, hstore]
  rfl

/-- The test of the loops finds the line that is a line feed. -/
theorem Received.strcmpEq {input : List Byte} {buf : CharArray 1024} (hbuf : Received input buf) :
    buf.strcmpEq [newline] = .ok (decide ((nextLine 1023 input).1 = [newline])) := by
  rw [CharArray.strcmpEq_eq hbuf.string (by decide)]
  refine congrArg Except.ok (decide_eq_decide.mpr ⟨?_, ?_⟩)
  · intro hcut
    obtain ⟨rest, hline⟩ : ∃ rest, (nextLine 1023 input).1 = newline :: rest := by
      obtain ⟨rest, hrest⟩ := (List.takeWhile_prefix (l := (nextLine 1023 input).1) (· != 0))
      rw [hcut] at hrest
      exact ⟨rest, hrest.symm⟩
    rw [hline, nextLine_newline hline]
  · intro hline
    rw [hline]
    rfl

variable {fuel : Nat} {buf : CharArray 1024} {client : Client}

/-- The loop behind a line. -/
theorem discardHeaders_received {input : List Byte} (hbuf : Received input buf)
    (hfuel : input.length < fuel) (sent : List Byte) (closes : Nat) :
    discardHeaders fuel buf (nextLine 1023 input).1.length
        ⟨(nextLine 1023 input).2, sent, closes⟩ =
      .ok () ⟨(headerLines input).2, sent, closes⟩ := by
  induction fuel generalizing input buf with
  | zero => omega
  | succ fuel ih =>
      rw [discardHeaders]
      by_cases hnil : (nextLine 1023 input).1 = []
      · rw [headerLines_blank (.inl hnil), hnil]
        rfl
      · rw [if_neg (by rwa [List.length_eq_zero_iff])]
        rw [Method.bind_ok (Method.ofExcept_ok hbuf.strcmpEq _)]
        by_cases hblank : (nextLine 1023 input).1 = [newline]
        · rw [headerLines_blank (.inr hblank), if_pos (decide_eq_true hblank)]
          rfl
        · rw [if_neg (by simpa using hblank), headerLines_cons hnil hblank]
          obtain ⟨next, hread, hnext⟩ :=
            getClientLine_eq buf ⟨(nextLine 1023 input).2, sent, closes⟩
          rw [Method.bind_ok hread]
          dsimp only at hnext ⊢
          have hsome : input ≠ [] := by
            rintro rfl
            exact hnil rfl
          have hless := @nextLine_less 1022 _ hsome
          exact ih hnext (Nat.lt_of_lt_of_le hless (Nat.le_of_lt_succ hfuel))

/-- `buf[0] = 'A'; buf[1] = '\0';` writes a string. -/
theorem startLine_eq (array : CharArray 1024) :
    ∃ buf, startLine array = .ok buf ∧ buf.string = .ok [65] := by
  obtain ⟨buf, hstore, hstring⟩ :=
    array.storeString_string (show [(65 : Byte)].length < 1024 by decide)
  refine ⟨buf, ?_, hstring⟩
  rw [CharArray.storeString_eq_bind, CharArray.storeAll] at hstore
  rw [startLine, ← hstore]
  cases array.store 0 65 <;> rfl

/-- The loop from the letter on. -/
theorem discardHeaders_letter (hstring : buf.string = .ok [65])
    (hfuel : client.input.length + 1 < fuel) :
    discardHeaders fuel buf 1 client =
      .ok () { client with input := (headerLines client.input).2 } := by
  obtain ⟨fuel, rfl⟩ : ∃ more, fuel = more + 1 := ⟨fuel - 1, by omega⟩
  obtain ⟨next, hread, hnext⟩ := getClientLine_eq buf client
  rw [discardHeaders, if_neg (by decide),
    Method.bind_ok (Method.ofExcept_ok (CharArray.strcmpEq_eq hstring (by decide)) _),
    if_neg (by decide), Method.bind_ok hread]
  exact discardHeaders_received hnext (Nat.lt_of_succ_lt_succ hfuel) client.sent client.closes

/-! ### Headers as they are written -/

def crlf : List Byte := [carriageReturn, newline]

/-- The characters of a line as a client writes it. -/
def Plain (line : List Byte) : Prop := carriageReturn ∉ line ∧ newline ∉ line

instance (line : List Byte) : Decidable (Plain line) := inferInstanceAs (Decidable (_ ∧ _))

theorem Plain.tail {char : Byte} {line : List Byte} (hline : Plain (char :: line)) : Plain line :=
  hline.imp List.not_mem_of_not_mem_cons List.not_mem_of_not_mem_cons

theorem Plain.drop {line : List Byte} (hline : Plain line) (count : Nat) :
    Plain (line.drop count) :=
  hline.imp (mt List.mem_of_mem_drop) (mt List.mem_of_mem_drop)

/-- A line that has room ends with a line feed. -/
theorem nextLine_short {line : List Byte} (hline : Plain line) {room : Nat}
    (hroom : line.length < room) (rest : List Byte) :
    nextLine room (line ++ crlf ++ rest) = (line ++ [newline], rest) := by
  induction line generalizing room with
  | nil =>
      obtain ⟨room, rfl⟩ : ∃ more, room = more + 1 := ⟨room - 1, by omega⟩
      rfl
  | cons char line ih =>
      obtain ⟨room, rfl⟩ : ∃ more, room = more + 1 := ⟨room - 1, by omega⟩
      have hreturn : char ≠ carriageReturn := (List.ne_of_not_mem_cons hline.1).symm
      have hfeed : char ≠ newline := (List.ne_of_not_mem_cons hline.2).symm
      rw [List.cons_append, List.cons_append, nextLine, if_neg hreturn, if_neg hfeed,
        ih hline.tail (Nat.lt_of_succ_lt_succ hroom)]
      rfl

/-- A line that has none is cut, and the rest of it stays. -/
theorem nextLine_long {line : List Byte} (hline : Plain line) {room : Nat}
    (hroom : room ≤ line.length) (rest : List Byte) :
    nextLine room (line ++ rest) = (line.take room, line.drop room ++ rest) := by
  induction line generalizing room with
  | nil =>
      rw [Nat.le_zero.mp hroom]
      rfl
  | cons char line ih =>
      cases room with
      | zero => rfl
      | succ room =>
          have hreturn : char ≠ carriageReturn := (List.ne_of_not_mem_cons hline.1).symm
          have hfeed : char ≠ newline := (List.ne_of_not_mem_cons hline.2).symm
          rw [List.cons_append, nextLine, if_neg hreturn, if_neg hfeed,
            ih hline.tail (Nat.le_of_succ_le_succ hroom)]
          rfl

/-- The pieces in which a line is read, and whether its end is one of its own. -/
theorem headerLines_line {line : List Byte} (hline : Plain line) (rest : List Byte) :
    (headerLines (line ++ crlf ++ rest)).2 =
      if 1023 ∣ line.length then rest else (headerLines rest).2 := by
  induction hlength : line.length using Nat.strong_induction_on generalizing line with
  | h length ih =>
      by_cases hroom : line.length < 1023
      · have hread := nextLine_short hline hroom rest
        by_cases hnil : line = []
        · subst hnil
          rw [headerLines_blank (.inr (by rw [hread]; rfl)), hread, ← hlength, List.length_nil,
            if_pos (Nat.dvd_zero 1023)]
        · have hpos := List.length_pos_iff.mpr hnil
          have hfirst : line ++ [newline] ≠ [newline] := fun heq =>
            hnil (List.append_cancel_right heq)
          rw [headerLines_cons (by rw [hread]; exact List.concat_ne_nil _ _)
            (by rw [hread]; exact hfirst), hread, ← hlength,
            if_neg (Nat.not_dvd_of_pos_of_lt hpos hroom)]
      · have hread := nextLine_long hline (Nat.le_of_not_lt hroom) (crlf ++ rest)
        rw [← List.append_assoc] at hread
        have htake : (line.take 1023).length = 1023 :=
          List.length_take_of_le (Nat.le_of_not_lt hroom)
        have hpiece : (nextLine 1023 (line ++ crlf ++ rest)).1.length = 1023 := by
          rw [hread]
          exact htake
        have hrest : (line.drop 1023).length = length - 1023 := by
          rw [List.length_drop, hlength]
        rw [headerLines_cons (by rintro hnil; rw [hnil] at hpiece; contradiction)
          (by rintro hnil; rw [hnil] at hpiece; contradiction), hread, ← List.append_assoc]
        dsimp only
        rw [ih (length - 1023) (by omega) (hline.drop 1023) hrest]
        have hsame : 1023 ∣ length - 1023 ↔ 1023 ∣ length := by omega
        simp only [hsame]

/-- A header with its blank line. -/
def header : List (List Byte) → List Byte
  | [] => crlf
  | line :: lines => line ++ crlf ++ header lines

/-- The loops leave what is behind the header if they find its end, and not
earlier the end of a line that was cut into whole pieces. -/
theorem headerLines_header_iff {lines : List (List Byte)} (hlines : ∀ line ∈ lines, Plain line)
    (body : List Byte) :
    (headerLines (header lines ++ body)).2 = body ↔ ∀ line ∈ lines, ¬ 1023 ∣ line.length := by
  induction lines with
  | nil => exact iff_of_true (headerLines_line (show Plain [] by decide) body) nofun
  | cons line lines ih =>
      rw [header, List.append_assoc, headerLines_line (hlines line List.mem_cons_self),
        List.forall_mem_cons]
      split
      · next hwhole =>
          refine iff_of_false (fun hbody => ?_) fun hnone => hnone.1 hwhole
          have hheader := List.append_left_eq_self.mp hbody
          cases lines <;> simp [header, crlf] at hheader
      · next hother =>
          rw [ih fun line hline => hlines line (List.mem_cons_of_mem _ hline)]
          exact (and_iff_right hother).symm

/-- A header of lines that have room is read line by line. -/
theorem headerLines_header {lines : List (List Byte)}
    (hlines : ∀ line ∈ lines, Plain line ∧ line ≠ [] ∧ line.length < 1023) (body : List Byte) :
    headerLines (header lines ++ body) = (lines.map (· ++ [newline]), body) := by
  induction lines with
  | nil => exact headerLines_blank (.inr rfl)
  | cons line lines ih =>
      obtain ⟨hplain, hnil, hroom⟩ := hlines line List.mem_cons_self
      have hread := nextLine_short hplain hroom (header lines ++ body)
      rw [← List.append_assoc] at hread
      rw [header, headerLines_cons (by rw [hread]; exact List.concat_ne_nil _ _)
        (by rw [hread]; exact fun heq => hnil (List.append_cancel_right heq)), hread,
        ih fun line hline => hlines line (List.mem_cons_of_mem _ hline)]
      rfl

/-- Behind the first line that is read in whole pieces its end is taken for the end of
the header. -/
theorem headerLines_whole {front back : List (List Byte)} {line : List Byte}
    (hfront : ∀ line ∈ front, Plain line ∧ ¬ 1023 ∣ line.length) (hline : Plain line)
    (hwhole : 1023 ∣ line.length) (body : List Byte) :
    (headerLines (header (front ++ line :: back) ++ body)).2 = header back ++ body := by
  induction front with
  | nil =>
      rw [List.nil_append, header, List.append_assoc, headerLines_line hline, if_pos hwhole]
  | cons first front ih =>
      obtain ⟨⟨hplain, hpiece⟩, hothers⟩ := List.forall_mem_cons.mp hfront
      rw [List.cons_append, header, List.append_assoc, headerLines_line hplain, if_neg hpiece]
      exact ih hothers

/-- The loops of `serve_file` and of a GET in `execute_cgi` take exactly the
header off the socket if no line of it fills the array a whole number of times.
Otherwise they leave there what comes behind the first line that does. -/
theorem header_discarded_iff {lines : List (List Byte)} (hlines : ∀ line ∈ lines, Plain line)
    (array : CharArray 1024) (body sent : List Byte) (closes : Nat)
    (hfuel : (header lines ++ body).length + 1 < fuel) :
    ((do discardHeaders fuel (← Method.ofExcept (startLine array)) 1 : Method Client Unit)
        ⟨header lines ++ body, sent, closes⟩ = .ok () ⟨body, sent, closes⟩ ↔
      ∀ line ∈ lines, ¬ 1023 ∣ line.length) ∧
    ∀ front line back, lines = front ++ line :: back →
      (∀ line ∈ front, ¬ 1023 ∣ line.length) → 1023 ∣ line.length →
      (do discardHeaders fuel (← Method.ofExcept (startLine array)) 1 : Method Client Unit)
        ⟨header lines ++ body, sent, closes⟩ = .ok () ⟨header back ++ body, sent, closes⟩ := by
  obtain ⟨buf, hstart, hstring⟩ := startLine_eq array
  rw [Method.bind_ok (Method.ofExcept_ok hstart _), discardHeaders_letter hstring hfuel]
  constructor
  · rw [← headerLines_header_iff hlines body]
    simp
  · rintro front line back rfl hfront hwhole
    obtain ⟨hplain, hrest⟩ := List.forall_mem_append.mp hlines
    have hline := hrest line List.mem_cons_self
    rw [headerLines_whole (fun line hmem => ⟨hplain line hmem, hfront line hmem⟩) hline hwhole]

/-- A header of one line, with a body behind it. -/
theorem hostHeader_discarded :
    (do discardHeaders 20 (← Method.ofExcept (startLine (.replicate 1024 0))) 1 :
        Method Client Unit) ⟨header [ascii "Host: a"] ++ ascii "body", [], 0⟩ =
      .ok () ⟨ascii "body", [], 0⟩ :=
  (header_discarded_iff (by decide) _ _ _ _ (by decide)).1.mpr (by decide)

end ZtHttp.SimHttp
