import Mathlib.Data.List.DropRight
import ZtHttp.Http.Response

/-!
# Copying a file

`cat` reads a line, and as long as that has not met the end of the file it
appends the line and reads the next. The first line may have 1023 characters,
the others 7, because `sizeof(buf)` is the size of a pointer there. A line that
meets the end is not appended, and a line is appended up to its first NUL.
-/

namespace ZtHttp.Http

open Imperative Imperative.InputStream

/-- What stands behind the last line feed. -/
def lastLine (content : List Byte) : List Byte := content.rtakeWhile (· != lineFeed)

theorem lastLine_of_not_mem {content : List Byte} (hfeed : lineFeed ∉ content) :
    lastLine content = content := by
  rw [lastLine, List.rtakeWhile_eq_self_iff]
  intro char hchar
  exact bne_iff_ne.mpr (ne_of_mem_of_not_mem hchar hfeed)

theorem lastLine_append (front rest : List Byte) : lastLine (front ++ rest) =
    if lineFeed ∈ rest then lastLine rest else lastLine front ++ rest := by
  have hwhole : (rest.reverse.takeWhile (· != lineFeed)).length = rest.reverse.length ↔
      lineFeed ∉ rest := by
    rw [(List.takeWhile_prefix _).sublist.length_eq, takeWhile_ne_eq_self_iff, List.mem_reverse]
  unfold lastLine List.rtakeWhile
  rw [List.reverse_append, List.takeWhile_append]
  by_cases hfeed : lineFeed ∈ rest
  · rw [if_pos hfeed, if_neg (by rw [hwhole]; exact not_not_intro hfeed)]
  · rw [if_neg hfeed, if_pos (hwhole.mpr hfeed), List.reverse_append, List.reverse_reverse]

/-- A line feed at the end leaves nothing behind. -/
theorem lastLine_concat (body : List Byte) : lastLine (body ++ [lineFeed]) = [] := by
  rw [lastLine, List.rtakeWhile_concat_neg _ _ _ (by simp)]

/-- Nothing is lost of the file: it has no NUL, and the line behind its last
line feed is cut into pieces that fill the room for them. -/
def CopiedWhole (content : List Byte) : Prop :=
  0 ∉ content ∧
    if lineFeed ∈ content then 7 ∣ (lastLine content).length
    else content = [] ∨ 1023 ≤ content.length ∧ 7 ∣ content.length - 1023

instance (content : List Byte) : Decidable (CopiedWhole content) :=
  inferInstanceAs (Decidable (_ ∧ _))

/-! ### One turn of the loop -/

variable {abuf : CharArray 1024} {resource : InputStream} {buffer : IOBuffer}

theorem catLoop_eof (fuel : Nat) (abuf : CharArray 1024) (hend : resource.eof = true)
    (buffer : IOBuffer) : catLoop (fuel + 1) abuf resource buffer = .ok () buffer := by
  rw [catLoop, if_pos hend, Method.pure_apply]

/-- A turn appends the line that was read and reads the next. -/
theorem catLoop_turn {line : List Byte} {abuf' : CharArray 1024} {last : InputStream} (fuel : Nat)
    (hopen : resource.eof = false) (hline : abuf.string = .ok line)
    (hnext : resource.fgets abuf 8 = .ok (abuf', last)) :
    catLoop (fuel + 1) abuf resource buffer = catLoop fuel abuf' last (buffer.push line) := by
  have hlength := CharArray.string_length hline
  have happend := IOBuffer.appendBytes_eq buffer line (by omega)
  rw [catLoop, if_neg (by simp [hopen]), Method.bind_ok (Method.ofExcept_ok hline _),
    Method.bind_ok happend, Method.bind_ok (Method.ofExcept_ok hnext _)]

/-! ### Files that can be read -/

/-- What is copied of two parts is both, if it is so of each. -/
theorem append_eq_iff {first second front rest : List Byte} (hfirst : first.length ≤ front.length)
    (hsecond : second.length ≤ rest.length) :
    first ++ second = front ++ rest ↔ first = front ∧ second = rest := by
  constructor
  · intro heq
    have hlengths := congrArg List.length heq
    rw [List.length_append, List.length_append] at hlengths
    exact List.append_inj heq (by omega)
  · rintro ⟨rfl, rfl⟩
    rfl

/-- The pieces that fill the room do not count for the last line. -/
theorem lastLine_complete {line : List Byte} (hline : Complete 7 line)
    (rest : List Byte) :
    7 ∣ (lastLine (line ++ rest)).length ↔ 7 ∣ (lastLine rest).length := by
  rw [lastLine_append]
  split
  · rfl
  · next hfeed =>
      rw [lastLine_of_not_mem hfeed, List.length_append]
      rcases hline with ⟨body, rfl, -⟩ | ⟨hnone, hlength⟩
      · rw [lastLine_concat, List.length_nil, Nat.zero_add]
      · rw [lastLine_of_not_mem hnone, hlength]
        omega

variable {spoil : (n : Nat) → CharArray n → CharArray n}

/-- The loop copies the line that was read and some of the rest of the file,
all of it if the rest is cut into full pieces. -/
theorem catLoop_ofList (fuel : Nat) {line rest : List Byte} (hline : abuf.string = .ok line)
    (hfuel : rest.length + 2 ≤ fuel) (buffer : IOBuffer) :
    ∃ last copied, catLoop fuel abuf (opened (ofList rest) spoil) buffer = .ok () last ∧
      last.content = buffer.content ++ line ++ copied ∧ copied.length ≤ rest.length ∧
      (copied = rest ↔ 0 ∉ rest ∧ 7 ∣ (lastLine rest).length) := by
  induction fuel generalizing abuf line rest buffer with
  | zero => omega
  | succ fuel ih =>
      rcases exists_complete 7 rest with ⟨piece, behind, rfl, hpiece⟩ | ⟨hfeed, hshort⟩
      · obtain ⟨abuf', hnext, hstring⟩ := fgets_complete abuf
          (show 8 ≤ 1024 by decide) (by decide) hpiece behind
        have hpos : piece ≠ [] := by
          rintro rfl
          exact not_complete_nil 6 hpiece
        have hlength := List.length_pos_iff.mpr hpos
        rw [List.length_append] at hfuel
        obtain ⟨last, copied, hloop, hcontent, hcopied, hwhole⟩ :=
          ih hstring (show behind.length + 2 ≤ fuel by omega) (buffer.push line)
        have hcut := (List.takeWhile_prefix (· != 0) : piece.takeWhile (· != 0) <+: piece).length_le
        refine ⟨last, piece.takeWhile (· != 0) ++ copied, ?_, ?_, ?_, ?_⟩
        · rw [catLoop_turn fuel rfl hline hnext, hloop]
        · rw [hcontent, IOBuffer.content_push]
          simp only [List.append_assoc]
        · rw [List.length_append, List.length_append]
          omega
        · rw [append_eq_iff hcut hcopied, takeWhile_ne_eq_self_iff, hwhole, List.mem_append, not_or,
            lastLine_complete hpiece, and_assoc]
      · obtain ⟨abuf', last, hnext, hend⟩ := fgets_rest abuf
          (show 8 ≤ 1024 by decide) hfeed hshort
        obtain ⟨fuel, rfl⟩ : ∃ more, fuel = more + 1 := ⟨fuel - 1, by omega⟩
        refine ⟨buffer.push line, [], ?_, by simp, Nat.zero_le _, ?_⟩
        · rw [catLoop_turn (fuel + 1) rfl hline hnext, catLoop_eof fuel abuf' hend]
        · rw [lastLine_of_not_mem hfeed]
          constructor
          · rintro rfl
            exact ⟨List.not_mem_nil, by simp⟩
          · rintro ⟨-, hseven⟩
            exact (List.length_eq_zero_iff.mp (by omega)).symm

/-- The first line may be longer than the others. -/
theorem copiedWhole_append {line : List Byte} (hline : Complete 1023 line) (rest : List Byte) :
    CopiedWhole (line ++ rest) ↔ 0 ∉ line ∧ 0 ∉ rest ∧ 7 ∣ (lastLine rest).length := by
  rw [CopiedWhole, List.mem_append, not_or, and_assoc, lastLine_append]
  refine and_congr_right fun _ => and_congr_right fun _ => ?_
  by_cases hrest : lineFeed ∈ rest
  · rw [if_pos (List.mem_append_right line hrest), if_pos hrest]
  · rw [if_neg hrest, lastLine_of_not_mem hrest]
    rcases hline with ⟨body, rfl, -⟩ | ⟨hnone, hlength⟩
    · rw [if_pos (by simp), lastLine_concat, List.nil_append]
    · have hne : line ≠ [] := by
        rintro rfl
        contradiction
      rw [if_neg (by simp [hnone, hrest]), List.length_append, hlength]
      simp [hne]

/-- `cat` ends, and copies some of the file. -/
theorem cat_ofList (env : HttpEnv) {content : List Byte} (hfuel : content.length < env.fuel)
    (buffer : IOBuffer) :
    ∃ last copied, cat env (opened (ofList content) spoil) buffer = .ok () last ∧
      last.content = buffer.content ++ copied ∧ (copied = content ↔ CopiedWhole content) := by
  rcases exists_complete 1023 content with ⟨line, rest, rfl, hline⟩ | ⟨hfeed, hshort⟩
  · obtain ⟨abuf, hfirst, hstring⟩ := @fgets_complete spoil _ _ env.stack.fileBuf
      (Nat.le_refl 1024) (by decide) _ hline rest
    have hpos : line ≠ [] := by
      rintro rfl
      exact not_complete_nil 1022 hline
    have hlength := List.length_pos_iff.mpr hpos
    rw [List.length_append] at hfuel
    obtain ⟨last, copied, hloop, hcontent, hcopied, hwhole⟩ :=
      @catLoop_ofList abuf spoil env.fuel _ rest hstring (by omega) buffer
    have hcut := (List.takeWhile_prefix (· != 0) : line.takeWhile (· != 0) <+: line).length_le
    refine ⟨last, line.takeWhile (· != 0) ++ copied, ?_, ?_, ?_⟩
    · rw [cat, Method.bind_ok (Method.ofExcept_ok hfirst _)]
      exact hloop
    · rw [hcontent, List.append_assoc]
    · rw [append_eq_iff hcut hcopied, takeWhile_ne_eq_self_iff, hwhole, copiedWhole_append hline]
  · obtain ⟨abuf, last, hfirst, hend⟩ := @fgets_rest spoil _ _ env.stack.fileBuf
      (Nat.le_refl 1024) _ hfeed hshort
    obtain ⟨fuel, hmore⟩ : ∃ fuel, env.fuel = fuel + 1 := ⟨env.fuel - 1, by omega⟩
    refine ⟨buffer, [], ?_, by simp, ?_⟩
    · rw [cat, Method.bind_ok (Method.ofExcept_ok hfirst _)]
      dsimp only
      rw [hmore, catLoop_eof fuel abuf hend]
    · rw [CopiedWhole, if_neg hfeed]
      constructor
      · rintro rfl
        exact ⟨List.not_mem_nil, .inl rfl⟩
      · rintro ⟨-, hnil | ⟨hlong, -⟩⟩
        · exact hnil.symm
        · exact absurd hlong (by omega)

/-- After enough turns `cat` has ended, and has appended the file and nothing
else. -/
def Copies (env : HttpEnv) (content : List Byte) (spoil : (n : Nat) → CharArray n → CharArray n)
    (buffer : IOBuffer) : Prop :=
  ∃ turns, ∀ fuel, turns ≤ fuel → ∃ last,
    cat { env with fuel } (opened (ofList content) spoil) buffer = .ok () last ∧
      last.content = buffer.content ++ content

theorem copiedWhole_of_copies {env : HttpEnv} {content : List Byte} {buffer : IOBuffer}
    (hcopies : Copies env content spoil buffer) : CopiedWhole content := by
  obtain ⟨turns, hcopies⟩ := hcopies
  obtain ⟨last, hcat, hcontent⟩ := hcopies (turns + content.length + 1) (by omega)
  obtain ⟨last', copied, hcat', hcontent', hwhole⟩ := @cat_ofList spoil
    { env with fuel := turns + content.length + 1 } content
    (show content.length < turns + content.length + 1 by omega) buffer
  obtain ⟨-, rfl⟩ := EStateM.Result.ok.inj (hcat.symm.trans hcat')
  rw [hcontent] at hcontent'
  exact hwhole.mp (List.append_cancel_left hcontent').symm

/-- `cat` copies exactly the files that have no NUL and whose last line is cut
into full pieces. -/
theorem copies_iff (env : HttpEnv) (content : List Byte)
    (spoil : (n : Nat) → CharArray n → CharArray n) (buffer : IOBuffer) :
    Copies env content spoil buffer ↔ CopiedWhole content := by
  constructor
  · exact copiedWhole_of_copies
  · intro hwhole
    refine ⟨content.length + 1, ?_⟩
    intro fuel hfuel
    obtain ⟨last, copied, hcat, hcontent, hcopied⟩ :=
      @cat_ofList spoil { env with fuel } content hfuel buffer
    rw [hcopied.mpr hwhole] at hcontent
    exact ⟨last, hcat, hcontent⟩

/-- A file of two bytes without a line feed. -/
theorem unendedLine_lost : cat .blank (opened (ofList [104, 105]) fun _ array => array) .empty =
      .ok () .empty ∧
    ¬ Copies .blank [104, 105] (fun _ array => array) .empty := by
  refine ⟨rfl, ?_⟩
  intro hcopies
  exact absurd (copiedWhole_of_copies hcopies) (by decide)

/-! ### Streams of any kind -/

/-- After some number of turns the loop of `cat` is not running any more. -/
def Stops (env : HttpEnv) (resource : InputStream) (buffer : IOBuffer) : Prop :=
  ∃ turns, ∀ fuel, turns ≤ fuel → ∀ last,
    cat { env with fuel } resource buffer ≠ .error .diverges last

/-- The turns that are left until the loop finds the indicator set. -/
def EndsWithin (resource : InputStream) (fuel : Nat) : Prop :=
  (resource.eof = true ∧ 1 ≤ fuel) ∨
    (resource.eof = false ∧ ∃ index, resource.reads index = .eof ∧ index + 2 ≤ fuel)

/-- Behind one line that is read the end is one turn nearer. -/
theorem EndsWithin.readLine {fuel count : Nat} (hopen : resource.eof = false) {index : Nat}
    (hend : resource.reads index = .eof) (hfuel : index + 1 ≤ fuel) :
    EndsWithin (resource.readLine (count + 1)).2.2 fuel := by
  have hindicator := readLine_eof (count + 1) resource hopen
  rcases readLine_nears_eof (count + 1) hend with hmet | ⟨nearer, hnearer, hless⟩
  · rw [hmet] at hindicator
    exact .inl ⟨hindicator, by omega⟩
  · cases heof : (resource.readLine (count + 1)).2.2.eof with
    | true => exact .inl ⟨heof, by omega⟩
    | false => exact .inr ⟨heof, nearer, hnearer, by omega⟩

theorem catLoop_stops {fuel : Nat} (hends : EndsWithin resource fuel) (abuf : CharArray 1024)
    (buffer last : IOBuffer) : catLoop fuel abuf resource buffer ≠ .error .diverges last := by
  induction fuel generalizing abuf resource buffer with
  | zero => rcases hends with ⟨-, hfuel⟩ | ⟨-, index, -, hfuel⟩ <;> omega
  | succ fuel ih =>
      rcases hends with ⟨hend, -⟩ | ⟨hopen, index, hend, hfuel⟩
      · rw [catLoop_eof fuel abuf hend]
        nofun
      · cases hstring : abuf.string with
        | error fault =>
            rw [catLoop, if_neg (by simp [hopen]),
              Method.bind_error (Method.ofExcept_error hstring _), readString_error hstring]
            nofun
        | ok line =>
            obtain ⟨abuf', hnext, -⟩ :=
              fgets_returns abuf hopen (show 8 ≤ 1024 by decide) (by decide)
            rw [catLoop_turn fuel hopen hstring hnext]
            exact ih (EndsWithin.readLine hopen hend (by omega)) abuf' _

theorem cat_stops {env : HttpEnv} {reads : Nat → Getc} {index : Nat} (hend : reads index = .eof)
    (spoil : (n : Nat) → CharArray n → CharArray n) (buffer : IOBuffer) :
    Stops env (opened reads spoil) buffer := by
  refine ⟨index + 1, ?_⟩
  intro fuel hfuel last
  obtain ⟨abuf, hfirst, -⟩ := @fgets_returns 1024 1024 env.stack.fileBuf
    (opened reads spoil) rfl (Nat.le_refl 1024) (by decide)
  rw [cat, Method.bind_ok (Method.ofExcept_ok hfirst _)]
  exact catLoop_stops (EndsWithin.readLine rfl hend hfuel) abuf buffer last

/-- A stream without end keeps the loop running. -/
theorem catLoop_endless (fuel : Nat) (hendless : Endless 1024 resource) {line : List Byte}
    (hline : abuf.string = .ok line) (buffer : IOBuffer) :
    ∃ last, catLoop fuel abuf resource buffer = .error .diverges last := by
  induction fuel generalizing abuf resource line buffer with
  | zero => exact ⟨buffer, rfl⟩
  | succ fuel ih =>
      obtain ⟨abuf', after, hnext, ⟨string, hstring⟩, hafter⟩ :=
        fgets_endless abuf hendless (show 8 ≤ 1024 by decide) (by decide)
      rw [catLoop_turn fuel hendless.eof hline hnext]
      exact ih hafter hstring (buffer.push line)

theorem cat_endless (env : HttpEnv) (hendless : Endless 1024 resource) (buffer : IOBuffer) :
    ¬ Stops env resource buffer := by
  rintro ⟨turns, hstops⟩
  obtain ⟨abuf, after, hfirst, ⟨string, hstring⟩, hafter⟩ :=
    fgets_endless env.stack.fileBuf hendless (Nat.le_refl 1024) (by decide)
  obtain ⟨last, hloop⟩ := catLoop_endless turns hafter hstring buffer
  refine hstops turns (Nat.le_refl turns) last ?_
  rw [cat, Method.bind_ok (Method.ofExcept_ok hfirst _)]
  exact hloop

/-- An array of zeros is a string. -/
theorem endless_zeros {reads : Nat → Getc} (hendless : ∀ index, reads index ≠ .eof) :
    Endless 1024 (opened reads fun n _ => Vector.replicate n 0) :=
  ⟨rfl, hendless, fun _ => ⟨[], rfl⟩⟩

/-- Whatever a failed read leaves in the array, `cat` ends, exactly if some
read meets the end of the file. -/
theorem stops_iff (env : HttpEnv) (reads : Nat → Getc) (buffer : IOBuffer) :
    (∀ spoil, Stops env (opened reads spoil) buffer) ↔ ∃ index, reads index = .eof := by
  constructor
  · intro hstops
    by_contra hnone
    rw [not_exists] at hnone
    exact cat_endless env (endless_zeros hnone) buffer (hstops _)
  · rintro ⟨index, hend⟩ spoil
    exact cat_stops hend spoil buffer

/-- The reads of a directory fail, and do not end. -/
theorem directory_endless :
    ¬ Stops .blank (opened (fun _ => .error) fun n _ => Vector.replicate n 0) .empty := by
  apply cat_endless
  apply endless_zeros
  nofun

end ZtHttp.Http
