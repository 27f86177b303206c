import ZtHttp.Http.File
import ZtHttp.SimHttp.Basic

/-!
# What is sent

The pages are sent up to the terminator of each text, but for `bad_request`,
which sends its whole array with each. `cat` sends a file line by line, without
a last line that meets the end of the file.
-/

namespace ZtHttp.SimHttp

open Imperative Imperative.InputStream
open Http (lastLine lastLine_append lastLine_concat lastLine_of_not_mem append_eq_iff)

/-! ### Pages -/

/-- The texts of a page are sent one behind the other. -/
theorem sendPage_string {texts : List (List Byte)}
    (htexts : ∀ text ∈ texts, 0 ∉ text ∧ text.length < 1024) (buf : CharArray 1024)
    (client : Client) :
    sendPage CharArray.string texts buf client =
      .ok () { client with sent := client.sent ++ texts.flatten } := by
  induction texts generalizing buf client with
  | nil => rw [sendPage, List.flatten_nil, List.append_nil, Method.pure_apply]
  | cons text texts ih =>
      obtain ⟨⟨hzero, hlength⟩, hrest⟩ := List.forall_mem_cons.mp htexts
      obtain ⟨next, hstore, hstring⟩ := buf.storeString_string hlength
      rw [takeWhile_ne_eq_self_iff.mpr hzero] at hstring
      rw [sendPage, Method.bind_ok (Method.ofExcept_ok hstore _),
        Method.bind_ok (Method.ofExcept_ok hstring _)]
      refine (Method.bind_ok (Method.modify_apply _ _)).trans ?_
      rw [ih hrest, List.flatten_cons, List.append_assoc]

section

variable (locals : Locals) (client : Client)

theorem unimplemented_eq : unimplemented locals client =
    .ok () { client with sent := client.sent ++ unimplementedTexts.flatten } :=
  sendPage_string (by decide +kernel) _ client

theorem notFound_eq : notFound locals client =
    .ok () { client with sent := client.sent ++ notFoundTexts.flatten } :=
  sendPage_string (by decide +kernel) _ client

theorem headers_eq : headers locals client =
    .ok () { client with sent := client.sent ++ headersTexts.flatten } :=
  sendPage_string (by decide +kernel) _ client

theorem cannotExecute_eq : cannotExecute locals client =
    .ok () { client with sent := client.sent ++ cannotExecuteTexts.flatten } :=
  sendPage_string (by decide +kernel) _ client

end

/-! ### Whole arrays -/

/-- The memory of the array behind `sprintf` of a text. -/
def printed (text memory : List Byte) : List Byte := text ++ 0 :: memory.drop (text.length + 1)

/-- The array behind each of the texts. -/
def wholePage : List (List Byte) → List Byte → List Byte
  | [], _ => []
  | text :: texts, memory => printed text memory ++ wholePage texts (printed text memory)

theorem storeString_printed (buf : CharArray 1024) {text : List Byte}
    (htext : text.length < 1024) :
    ∃ next, buf.storeString 0 text = .ok next ∧ next.toList = printed text buf.toList := by
  obtain ⟨next, hstore, hnext⟩ := CharArray.storeAll_eq (text ++ [0]) 0 buf (by
    rw [List.length_append, List.length_singleton]
    omega)
  refine ⟨next, hstore, ?_⟩
  rw [hnext, printed, List.take_zero, Nat.zero_add, List.length_append, List.length_singleton,
    List.nil_append, List.append_assoc, List.singleton_append]

theorem sendPage_whole {texts : List (List Byte)} (htexts : ∀ text ∈ texts, text.length < 1024)
    (buf : CharArray 1024) (client : Client) :
    sendPage wholeArray texts buf client =
      .ok () { client with sent := client.sent ++ wholePage texts buf.toList } := by
  induction texts generalizing buf client with
  | nil => rw [sendPage, wholePage, List.append_nil, Method.pure_apply]
  | cons text texts ih =>
      obtain ⟨hlength, hrest⟩ := List.forall_mem_cons.mp htexts
      obtain ⟨next, hstore, hnext⟩ := storeString_printed buf hlength
      rw [sendPage, Method.bind_ok (Method.ofExcept_ok hstore _), wholeArray,
        Method.bind_ok (Method.ofExcept_ok rfl _)]
      refine (Method.bind_ok (Method.modify_apply _ _)).trans ?_
      rw [ih hrest, hnext, wholePage, List.append_assoc]

theorem length_printed {text memory : List Byte} (htext : text.length < memory.length) :
    (printed text memory).length = memory.length := by
  rw [printed, List.length_append, List.length_cons, List.length_drop]
  omega

theorem length_wholePage {texts : List (List Byte)} {memory : List Byte}
    (htexts : ∀ text ∈ texts, text.length < memory.length) :
    (wholePage texts memory).length = texts.length * memory.length := by
  induction texts generalizing memory with
  | nil => exact (Nat.zero_mul _).symm
  | cons text texts ih =>
      obtain ⟨hlength, hrest⟩ := List.forall_mem_cons.mp htexts
      have hprinted := length_printed hlength
      rw [wholePage, List.length_append, hprinted, ih (by rwa [hprinted]), hprinted,
        List.length_cons, Nat.succ_mul, Nat.add_comm]

/-- A page shows of the memory what its first text leaves. -/
theorem wholePage_eq_iff (text : List Byte) (texts : List (List Byte)) {memory memory' : List Byte}
    (hlength : memory.length = memory'.length) :
    wholePage (text :: texts) memory = wholePage (text :: texts) memory' ↔
      memory.drop (text.length + 1) = memory'.drop (text.length + 1) := by
  constructor
  · intro heq
    have hprinted : (printed text memory).length = (printed text memory').length := by
      simp only [printed, List.length_append, List.length_cons, List.length_drop, hlength]
    have hfirst := (List.append_inj heq hprinted).1
    exact (List.cons.inj (List.append_cancel_left hfirst)).2
  · intro hrest
    have hprinted : printed text memory = printed text memory' := by rw [printed, hrest, printed]
    rw [wholePage, wholePage, hprinted]

theorem badRequest_eq (locals : Locals) (client : Client) : badRequest locals client =
    .ok () { client with
      sent := client.sent ++ wholePage badRequestTexts locals.pageBuf.toList } :=
  sendPage_whole (by decide +kernel) _ client

/-- `bad_request` sends five whole arrays. What it shows the client of the memory
is all that is behind the first of its texts, and no more. -/
theorem badRequest_shows (locals : Locals) (client : Client) : ∃ page,
    badRequest locals client = .ok () { client with sent := client.sent ++ page } ∧
      page.length = 5 * 1024 ∧
      ∀ locals', badRequest locals' client = badRequest locals client ↔
        locals'.pageBuf.toList.drop 27 = locals.pageBuf.toList.drop 27 := by
  refine ⟨_, badRequest_eq locals client, ?_, fun locals' => ?_⟩
  · rw [length_wholePage (by simp only [Vector.length_toList]; decide +kernel)]
    simp only [Vector.length_toList]
    rfl
  · rw [badRequest_eq, badRequest_eq]
    have hpages := @wholePage_eq_iff (ascii "HTTP/1.0 400 BAD REQUEST\r\n") badRequestTexts.tail
      locals'.pageBuf.toList locals.pageBuf.toList (by simp)
    rw [show (ascii "HTTP/1.0 400 BAD REQUEST\r\n").length = 26 by decide] at hpages
    rw [← hpages]
    simp [badRequestTexts]

/-! ### Files -/

/-- What `cat` sends of a file: whole lines, each up to a NUL, and not the rest
behind them. -/
inductive Copied : List Byte → List Byte → Prop where
  | rest {content : List Byte} (hfeed : lineFeed ∉ content) (hshort : content.length < 1023) :
      Copied content []
  | line {line rest copied : List Byte} (hline : Complete 1023 line) (hrest : Copied rest copied) :
      Copied (line ++ rest) (line.takeWhile (· != 0) ++ copied)

theorem Complete.length_pos {line : List Byte} (hline : Complete 1023 line) : 0 < line.length := by
  apply List.length_pos_iff.mpr
  rintro rfl
  exact not_complete_nil 1022 hline

/-- Something is sent of every file. -/
theorem copied_exists (content : List Byte) : ∃ copied, Copied content copied := by
  induction hlength : content.length using Nat.strong_induction_on generalizing content with
  | h length ih =>
      rcases exists_complete 1023 content with ⟨line, rest, rfl, hline⟩ | ⟨hfeed, hshort⟩
      · have hpos := Complete.length_pos hline
        rw [List.length_append] at hlength
        obtain ⟨copied, hrest⟩ := ih rest.length (by omega) rest rfl
        exact ⟨_, .line hline hrest⟩
      · exact ⟨[], .rest hfeed hshort⟩

theorem Copied.length_le {content copied : List Byte} (hcopied : Copied content copied) :
    copied.length ≤ content.length := by
  induction hcopied with
  | rest => exact Nat.zero_le _
  | @line line rest copied hline hrest ih =>
      have hcut := (List.takeWhile_prefix (l := line) (· != 0)).length_le
      rw [List.length_append, List.length_append]
      omega

/-- The pieces that fill the array do not count for the last line. -/
theorem lastLine_whole {line : List Byte} (hline : Complete 1023 line) (rest : List Byte) :
    1023 ∣ (lastLine (line ++ rest)).length ↔ 1023 ∣ (lastLine rest).length := by
  rw [lastLine_append]
  split
  · rfl
  · next hfeed =>
      rw [lastLine_of_not_mem hfeed, List.length_append]
      rcases hline with ⟨body, rfl, -⟩ | ⟨hnone, hlength⟩
      · rw [lastLine_concat, List.length_nil, Nat.zero_add]
      · rw [lastLine_of_not_mem hnone, hlength]
        omega

/-- Nothing is lost of a file that has no NUL, and whose last line without a line
feed is cut into full pieces. -/
theorem Copied.whole_iff {content copied : List Byte} (hcopied : Copied content copied) :
    copied = content ↔ 0 ∉ content ∧ 1023 ∣ (lastLine content).length := by
  induction hcopied with
  | @rest content hfeed hshort =>
      rw [lastLine_of_not_mem hfeed]
      constructor
      · rintro rfl
        exact ⟨List.not_mem_nil, Nat.dvd_zero 1023⟩
      · rintro ⟨-, hpieces⟩
        exact (List.length_eq_zero_iff.mp (Nat.eq_zero_of_dvd_of_lt hpieces hshort)).symm
  | @line line rest copied hline hrest ih =>
      have hcut := (List.takeWhile_prefix (l := line) (· != 0)).length_le
      rw [append_eq_iff hcut hrest.length_le, takeWhile_ne_eq_self_iff, ih, List.mem_append, not_or,
        lastLine_whole hline, and_assoc]

variable {σ : Type} {buf : CharArray 1024} {resource : InputStream} {client : Client}

theorem catLoop_eof (fuel : Nat) (buf : CharArray 1024) (hend : resource.eof = true)
    (client : Client) : catLoop (fuel + 1) buf resource client = .ok () client := by
  rw [catLoop, if_pos hend, Method.pure_apply]

/-- A turn sends the line that was read and reads the next. -/
theorem catLoop_turn {line : List Byte} {next : CharArray 1024} {last : InputStream} (fuel : Nat)
    (hopen : resource.eof = false) (hline : buf.string = .ok line)
    (hnext : resource.fgets buf 1024 = .ok (next, last)) :
    catLoop (fuel + 1) buf resource client =
      catLoop fuel next last { client with sent := client.sent ++ line } := by
  rw [catLoop, if_neg (by simp [hopen]), Method.bind_ok (Method.ofExcept_ok hline _)]
  refine (Method.bind_ok (Method.modify_apply _ _)).trans ?_
  rw [Method.bind_ok (Method.ofExcept_ok hnext _)]

/-- Reading a line and going on with the loop. -/
theorem catLoop_copied {spoil : (n : Nat) → CharArray n → CharArray n} {content copied : List Byte}
    (hcopied : Copied content copied) {fuel : Nat} (hfuel : content.length < fuel)
    (buf : CharArray 1024) (client : Client) : ∃ next last,
      (opened (ofList content) spoil).fgets buf 1024 = .ok (next, last) ∧
        catLoop fuel next last client = .ok () { client with sent := client.sent ++ copied } := by
  obtain ⟨fuel, rfl⟩ : ∃ more, fuel = more + 1 := ⟨fuel - 1, by omega⟩
  induction hcopied generalizing fuel buf client with
  | rest hfeed hshort =>
      obtain ⟨next, last, hread, hend⟩ :=
        @fgets_rest spoil _ _ buf (Nat.le_refl 1024) _ hfeed hshort
      refine ⟨next, last, hread, ?_⟩
      rw [catLoop_eof fuel next hend, List.append_nil]
  | @line line rest copied hline hrest ih =>
      have hpos := Complete.length_pos hline
      rw [List.length_append] at hfuel
      obtain ⟨next, hread, hstring⟩ :=
        @fgets_complete spoil _ _ buf (Nat.le_refl 1024) (by decide) _ hline rest
      obtain ⟨fuel, rfl⟩ : ∃ more, fuel = more + 1 := ⟨fuel - 1, by omega⟩
      obtain ⟨after, last, hlater, hloop⟩ := ih next
        { client with sent := client.sent ++ line.takeWhile (· != 0) } fuel (by omega)
      refine ⟨next, opened (ofList rest) spoil, hread, ?_⟩
      have hopen : (opened (ofList rest) spoil).eof = false := rfl
      rw [catLoop_turn (fuel + 1) hopen hstring hlater, hloop, List.append_assoc]

/-- `cat` sends what it copies, whatever its array held. -/
theorem cat_eq {env : Env σ} {spoil : (n : Nat) → CharArray n → CharArray n}
    {content copied : List Byte} (hcopied : Copied content copied)
    (hfuel : content.length < env.fuel) (client : Client) :
    cat env (opened (ofList content) spoil) client =
      .ok () { client with sent := client.sent ++ copied } := by
  obtain ⟨next, last, hread, hloop⟩ :=
    @catLoop_copied spoil _ _ hcopied _ hfuel env.locals.fileBuf client
  rw [cat, Method.bind_ok (Method.ofExcept_ok hread _)]
  exact hloop

end ZtHttp.SimHttp
