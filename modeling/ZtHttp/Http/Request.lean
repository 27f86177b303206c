import ZtHttp.Http.Basic

/-!
# Parsing a request line

Each loop of the parser takes a run of characters off the line, as long as its
array has room and the line goes on. What it stores is that run.
-/

namespace ZtHttp.Http

open Imperative

/-- What `!ISspace` holds of. -/
def nonspace (char : Byte) : Bool := !isspace char

/-! ### The loops -/

/-- The method loop stores the run from `i` on, up to the last place but one. -/
theorem copyMethod_eq (buf : CharArray 1024) {room fuel i : Nat} (hroom : i + room = 254)
    (hfuel : room < fuel) (method : CharArray 255) :
    copyMethod buf fuel method i = (method.storeAll (buf.span nonspace i room) i).map fun last =>
      (last, i + (buf.span nonspace i room).length) := by
  obtain ⟨fuel, rfl⟩ : ∃ more, fuel = more + 1 := ⟨fuel - 1, by omega⟩
  induction room generalizing i fuel method with
  | zero =>
      simp only [copyMethod, CharArray.load_eq buf (show i < 1024 by omega), bind, Except.bind,
        show ¬ i < 254 by omega, decide_false, Bool.and_false, Bool.false_eq_true, if_false]
      rfl
  | succ room ih =>
      rw [CharArray.span_succ _ _ (show i < 1024 by omega)]
      simp only [copyMethod, CharArray.load_eq buf (show i < 1024 by omega), bind, Except.bind,
        show i < 254 by omega, decide_true, Bool.and_true]
      by_cases hspace : isspace buf[i] = true
      · rw [if_neg (by simp [hspace]), if_neg (by simp [nonspace, hspace])]
        rfl
      · rw [if_pos (by simp [hspace]), if_pos (by simp [nonspace, hspace]), CharArray.storeAll]
        cases hstore : method.store i buf[i] with
        | error fault => rfl
        | ok last =>
            obtain ⟨fuel, rfl⟩ : ∃ more, fuel = more + 1 := ⟨fuel - 1, by omega⟩
            apply (ih (by omega) last fuel (by omega)).trans
            simp only [List.length_cons, Nat.add_assoc, Nat.add_comm 1]
            rfl

/-- The loop over the spaces stops at `numchars` at the latest, if it starts
before it. -/
theorem skipSpaces_eq (buf : CharArray 1024) {numchars room fuel j : Nat}
    (hroom : numchars - j = room) (hnumchars : numchars ≤ 1023) (hj : j ≤ 1023)
    (hfuel : room < fuel) :
    skipSpaces buf numchars fuel j = .ok (j + (buf.span isspace j room).length) := by
  obtain ⟨fuel, rfl⟩ : ∃ more, fuel = more + 1 := ⟨fuel - 1, by omega⟩
  induction room generalizing j fuel with
  | zero =>
      simp only [skipSpaces, CharArray.load_eq buf (show j < 1024 by omega), bind, Except.bind,
        show ¬ j < numchars by omega, decide_false, Bool.and_false, Bool.false_eq_true, if_false]
      rfl
  | succ room ih =>
      rw [CharArray.span_succ _ _ (show j < 1024 by omega)]
      simp only [skipSpaces, CharArray.load_eq buf (show j < 1024 by omega), bind, Except.bind,
        show j < numchars by omega, decide_true, Bool.and_true]
      split
      · obtain ⟨fuel, rfl⟩ : ∃ more, fuel = more + 1 := ⟨fuel - 1, by omega⟩
        rw [ih (by omega) (by omega) fuel (by omega), List.length_cons, Nat.add_right_comm]
        rfl
      · rfl

/-- The URL loop stores the run from `j` on, as far as the array and the line
go. -/
theorem copyUrl_eq (buf : CharArray 1024) {numchars room fuel i j : Nat}
    (hroom : min (254 - i) (numchars - j) = room) (hnumchars : numchars ≤ 1023) (hj : j ≤ 1023)
    (hfuel : room < fuel) (url : CharArray 255) :
    copyUrl buf numchars fuel url i j = (url.storeAll (buf.span nonspace j room) i).map fun last =>
      (last, i + (buf.span nonspace j room).length, j + (buf.span nonspace j room).length) := by
  obtain ⟨fuel, rfl⟩ : ∃ more, fuel = more + 1 := ⟨fuel - 1, by omega⟩
  induction room generalizing i j fuel url with
  | zero =>
      have hstop : ¬ (i < 254 ∧ j < numchars) := by omega
      simp only [copyUrl, CharArray.load_eq buf (show j < 1024 by omega), bind, Except.bind,
        Bool.and_assoc, ← Bool.decide_and, hstop, decide_false, Bool.and_false,
        Bool.false_eq_true, if_false]
      rfl
  | succ room ih =>
      rw [CharArray.span_succ _ _ (show j < 1024 by omega)]
      simp only [copyUrl, CharArray.load_eq buf (show j < 1024 by omega), bind, Except.bind,
        show i < 254 by omega, show j < numchars by omega, decide_true, Bool.and_true]
      by_cases hspace : isspace buf[j] = true
      · rw [if_neg (by simp [hspace]), if_neg (by simp [nonspace, hspace])]
        rfl
      · rw [if_pos (by simp [hspace]), if_pos (by simp [nonspace, hspace]), CharArray.storeAll]
        cases hstore : url.store i buf[j] with
        | error fault => rfl
        | ok last =>
            obtain ⟨fuel, rfl⟩ : ∃ more, fuel = more + 1 := ⟨fuel - 1, by omega⟩
            apply (ih (by omega) (by omega) last fuel (by omega)).trans
            simp only [List.length_cons, Nat.add_assoc, Nat.add_comm 1]
            rfl

/-- The scan for the query stops at the first question mark, or at the
terminator. -/
theorem findQuery_eq {url : CharArray 255} {string rest : List Byte} {query fuel : Nat}
    (hdrop : url.toList.drop query = string ++ 0 :: rest) (hstring : 0 ∉ string)
    (hfuel : string.length < fuel) :
    findQuery url fuel query = .ok (query + (string.takeWhile (· != questionMark)).length) := by
  obtain ⟨fuel, rfl⟩ : ∃ more, fuel = more + 1 := ⟨fuel - 1, by omega⟩
  induction string generalizing query fuel with
  | nil =>
      obtain ⟨hload, -⟩ := CharArray.load_of_drop hdrop
      simp only [findQuery, hload, bind, Except.bind]
      rfl
  | cons char string ih =>
      obtain ⟨hload, hbehind⟩ := CharArray.load_of_drop hdrop
      have hchar : (char != 0) = true := bne_iff_ne.mpr (List.ne_of_not_mem_cons hstring).symm
      rw [List.length_cons] at hfuel
      simp only [findQuery, hload, bind, Except.bind, hchar, Bool.and_true, List.takeWhile_cons]
      split
      · obtain ⟨fuel, rfl⟩ : ∃ more, fuel = more + 1 := ⟨fuel - 1, by omega⟩
        rw [ih hbehind (List.not_mem_of_not_mem_cons hstring) fuel (by omega), List.length_cons,
          Nat.add_right_comm, Nat.add_assoc]
      · rfl

/-! ### The parts of the line -/

/-- A run that fits is stored in front of its terminator. -/
theorem storeAll_then_store {n : Nat} (array : CharArray n) {chars : List Byte}
    (hfits : chars.length < n) :
    ∃ middle last, array.storeAll chars 0 = .ok middle ∧
      middle.store chars.length 0 = .ok last ∧ last.string = .ok (chars.takeWhile (· != 0)) := by
  obtain ⟨last, hstore, hstring⟩ := array.storeString_string hfits
  rw [CharArray.storeString_eq_bind, Nat.zero_add] at hstore
  cases hmiddle : array.storeAll chars 0 with
  | error fault =>
      rw [hmiddle] at hstore
      contradiction
  | ok middle =>
      rw [hmiddle] at hstore
      exact ⟨middle, last, rfl, hstore, hstring⟩

/-- The method is the first run without white space, and `j` is behind it. -/
theorem parseMethod_spec (stack : Stack) (buf : CharArray 1024) :
    ∃ method, parseMethod stack buf = .ok (method, (buf.span nonspace 0 254).length) ∧
      method.string = .ok ((buf.span nonspace 0 254).takeWhile (· != 0)) := by
  have hlength := buf.span_length nonspace 0 254
  obtain ⟨middle, method, hcopy, hstore, hstring⟩ :=
    storeAll_then_store stack.method (show (buf.span nonspace 0 254).length < 255 by omega)
  refine ⟨method, ?_, hstring⟩
  rw [parseMethod, copyMethod_eq buf (show 0 + 254 = 254 from rfl) (by decide), hcopy]
  simp only [Except.map, bind, Except.bind, Nat.zero_add, hstore]
  rfl

/-- Where the URL starts: behind the white space from `j` on. -/
def urlStart (buf : CharArray 1024) (numchars j : Nat) : Nat :=
  j + (buf.span isspace j (numchars - j)).length

/-- The URL is the run without white space that follows. -/
theorem parseUrl_spec (stack : Stack) (buf : CharArray 1024) {numchars j : Nat}
    (hnumchars : numchars ≤ 1023) (hj : j ≤ 254) :
    ∃ url, parseUrl stack buf numchars j = .ok url ∧
      url.string = .ok ((buf.span nonspace (urlStart buf numchars j)
        (min 254 (numchars - urlStart buf numchars j))).takeWhile (· != 0)) := by
  have hskip := buf.span_length isspace j (numchars - j)
  have hstart : urlStart buf numchars j ≤ 1023 := by
    rw [urlStart]
    omega
  have hlength := buf.span_length nonspace (urlStart buf numchars j)
    (min 254 (numchars - urlStart buf numchars j))
  obtain ⟨middle, url, hcopy, hstore, hstring⟩ := storeAll_then_store stack.url
    (show (buf.span nonspace (urlStart buf numchars j)
      (min 254 (numchars - urlStart buf numchars j))).length < 255 by omega)
  refine ⟨url, ?_, hstring⟩
  rw [parseUrl, skipSpaces_eq buf rfl hnumchars (by omega) (by omega)]
  simp only [bind, Except.bind]
  rw [← urlStart, copyUrl_eq buf rfl hnumchars hstart (by omega), hcopy]
  simp only [Except.map, Nat.zero_add]
  exact hstore

/-- A string is cut behind what stands before its first question mark. -/
theorem cut_cases (string : List Byte) :
    (string.takeWhile (· != questionMark) = string ∧ string.dropWhile (· != questionMark) = []) ∨
      ∃ query, string.dropWhile (· != questionMark) = questionMark :: query := by
  cases hback : string.dropWhile (· != questionMark) with
  | nil =>
      refine .inl ⟨?_, rfl⟩
      have hwhole := List.takeWhile_append_dropWhile (p := (· != questionMark)) (l := string)
      rwa [hback, List.append_nil] at hwhole
  | cons char query =>
      have hhead := List.head?_dropWhile_not (· != questionMark) string
      rw [hback] at hhead
      have hchar : char = questionMark := by simpa using hhead
      exact .inr ⟨query, by rw [hchar]⟩

/-- The cut at the first question mark. The index that is left is that of the
query, or of the terminator if there is none. -/
theorem splitQuery_spec {url : CharArray 255} {string : List Byte}
    (hstring : url.string = .ok string) :
    ∃ last query cgi, splitQuery url = .ok (last, query, cgi) ∧ query < 255 ∧
      last.string = .ok (string.takeWhile (· != questionMark)) ∧
      readString (last.toList.drop query) = .ok (string.dropWhile (· != questionMark)).tail := by
  obtain ⟨hchars, rest, heq⟩ := readString_eq_ok hstring
  have hlength := CharArray.string_length hstring
  have hquery : findQuery url 256 0 = .ok (0 + (string.takeWhile (· != questionMark)).length) :=
    findQuery_eq heq hchars (by omega)
  rw [Nat.zero_add] at hquery
  simp only [splitQuery, hquery, bind, Except.bind]
  rcases cut_cases string with ⟨hwhole, hnone⟩ | ⟨query, hback⟩
  · rw [hwhole, hnone]
    have hdrop : url.toList.drop string.length = 0 :: rest := by rw [heq, List.drop_left]
    obtain ⟨hload, -⟩ := CharArray.load_of_drop hdrop
    refine ⟨url, string.length, false, ?_, hlength, hstring, ?_⟩
    · rw [hload]
      rfl
    · rw [hdrop]
      rfl
  · have hparts := List.takeWhile_append_dropWhile (p := (· != questionMark)) (l := string)
    generalize string.takeWhile (· != questionMark) = front at hparts ⊢
    rw [hback] at hparts ⊢
    subst hparts
    rw [List.length_append, List.length_cons] at hlength
    rw [List.append_assoc, List.cons_append] at heq
    have hdrop : url.toList.drop front.length = questionMark :: (query ++ 0 :: rest) := by
      rw [heq, List.drop_left]
    obtain ⟨hload, -⟩ := CharArray.load_of_drop hdrop
    have hset : (url.set front.length 0).toList = front ++ 0 :: (query ++ 0 :: rest) := by
      rw [Vector.toList_set, heq, List.set_append_right _ _ (Nat.le_refl _), Nat.sub_self]
      rfl
    refine ⟨url.set front.length 0, front.length + 1, true, ?_, by omega, ?_, ?_⟩
    · simp only [hload, if_true, CharArray.store_eq url 0 (show front.length < 255 by omega)]
      rfl
    · rw [CharArray.string, hset]
      exact readString_of_not_mem (fun hmem => hchars (List.mem_append_left _ hmem)) _
    · have hbehind : (url.set front.length 0).toList.drop (front.length + 1) =
          query ++ 0 :: rest := by
        rw [hset, ← List.drop_drop, List.drop_left, List.drop_one, List.tail_cons]
      rw [hbehind]
      refine readString_of_not_mem (fun hmem => hchars ?_) rest
      exact List.mem_append_right front (List.mem_cons_of_mem _ hmem)

/-! ### The path -/

def root : List Byte := ascii "htdocs"

/-- The index file of a path that ends with a slash. -/
def withIndex (path : List Byte) : List Byte :=
  if path.getLast? = some slash then path ++ ascii "index.html" else path

theorem withIndex_length (path : List Byte) : (withIndex path).length ≤ path.length + 10 := by
  have hindex : (ascii "index.html").length = 10 := by decide
  rw [withIndex]
  split
  · rw [List.length_append, hindex]
  · omega

/-- The last character of the path is looked at, which there is. -/
theorem resourcePath_spec (stack : Stack) {url : CharArray 255} {string : List Byte}
    (hstring : url.string = .ok string) :
    ∃ path, resourcePath stack url = .ok path ∧
      path.string = .ok (withIndex (root ++ string)) := by
  obtain ⟨hchars, -⟩ := readString_eq_ok hstring
  have hlength := CharArray.string_length hstring
  have hroot : root.length = 6 := by decide
  have hnul : 0 ∉ root ++ string := List.not_mem_append (by decide) hchars
  have hfits : (root ++ string).length + 10 < 512 := by
    rw [List.length_append]
    omega
  obtain ⟨path, hsprintf, hpath⟩ :=
    stack.path.storeString_string (show (root ++ string).length < 512 by omega)
  rw [takeWhile_ne_eq_self_iff.mpr hnul] at hpath
  obtain ⟨-, rest, hlist⟩ := readString_eq_ok hpath
  have hindex : (ascii "index.html").length = 10 := by decide
  rcases List.eq_nil_or_concat (root ++ string) with hnil | ⟨front, char, hconcat⟩
  · exact absurd (List.append_eq_nil_iff.mp hnil).1 (by decide)
  · rw [List.concat_eq_append] at hconcat
    have hlast : path.toList.drop ((root ++ string).length - 1) = char :: 0 :: rest := by
      rw [hlist, hconcat]
      simp
    obtain ⟨hload, -⟩ := CharArray.load_of_drop hlast
    have hslash : (root ++ string).getLast? = some slash ↔ char = slash := by
      rw [hconcat, List.getLast?_concat, Option.some_inj]
    have hsprintf : stack.path.storeString 0 (ascii "htdocs" ++ string) = .ok path := hsprintf
    simp only [resourcePath, hstring, bind, Except.bind, hsprintf, hpath, hload]
    rw [withIndex]
    by_cases hchar : char = slash
    · obtain ⟨last, hstrcat, hwhole⟩ := CharArray.strcat_eq (ascii "index.html") hpath
        (by omega) (by decide)
      refine ⟨last, ?_, ?_⟩
      · rw [if_pos hchar]
        exact hstrcat
      · rw [if_pos (hslash.mpr hchar)]
        exact hwhole
    · refine ⟨path, ?_, ?_⟩
      · rw [if_neg hchar]
        rfl
      · rw [if_neg (hchar ∘ hslash.mp)]
        exact hpath

/-- `write` from the request line to `stat`; `none` is a method that is not
implemented. -/
def requestPath (stack : Stack) (buf : CharArray 1024) (numchars : Nat) :
    Except Fault (Option (CharArray 512)) := do
  let (method, j) ← parseMethod stack buf
  let isGet ← method.strcasecmpEq (ascii "GET")
  let isPost ← method.strcasecmpEq (ascii "POST")
  if !isGet && !isPost then return none
  let url ← parseUrl stack buf numchars j
  let (url, _, _) ← (if isGet then splitQuery url else .ok (url, 0, false))
  return some (← resourcePath stack url)

/-- The path of the file that is served if `stat` gives `mode`. -/
def servedPath (path : CharArray 512) (mode : UInt32) : Except Fault (CharArray 512) :=
  if isDirectory mode then path.strcat (ascii "/index.html") else .ok path

/-- `write` hands the path of the request to `stat`, and the path that is served
to `serve_file`. -/
theorem write_eq_requestPath (env : HttpEnv) (http : Http) : write env http = (do
    let (buf, numchars) ← Method.ofExcept (getLine http env.stack.buf 1024)
    match ← Method.ofExcept (requestPath env.stack buf numchars) with
    | none =>
        unimplemented
        return -1
    | some path =>
        match env.files.stat (← Method.ofExcept path.string) with
        | none =>
            Method.ofExcept (discardHeaders http env.fuel buf numchars)
            notFound
        | some mode =>
            let served ← Method.ofExcept (servedPath path mode)
            serveFile env http (← Method.ofExcept served.string)
        return 1) := by
  unfold write
  refine bind_congr fun line => ?_
  obtain ⟨buf, numchars⟩ := line
  simp only [requestPath, servedPath, Method.ofExcept_bind, bind_assoc]
  refine bind_congr fun parsed => ?_
  obtain ⟨method, j⟩ := parsed
  dsimp only
  refine bind_congr fun isGet => bind_congr fun isPost => ?_
  by_cases hother : (!isGet && !isPost) = true
  · simp only [hother, if_true, Method.ofExcept_pure, pure_bind]
  · simp only [hother, if_false, Method.ofExcept_bind, Method.ofExcept_pure, bind_assoc, pure_bind,
      Bool.false_eq_true]
    refine bind_congr fun url => bind_congr fun cut => ?_
    refine bind_congr fun path => bind_congr fun name => ?_
    cases env.files.stat name with
    | none => rfl
    | some mode =>
        dsimp only
        refine bind_congr fun served => ?_
        -- both branches serve the file
        rw [ite_self]

/-! ### The request -/

/-- The method that a line names. -/
def methodText (buf : CharArray 1024) : List Byte :=
  (buf.span nonspace 0 254).takeWhile (· != 0)

/-- The second token of a line, as far as the URL has room for it. -/
def tokenText (buf : CharArray 1024) (numchars : Nat) : List Byte :=
  let start := urlStart buf numchars (buf.span nonspace 0 254).length
  (buf.span nonspace start (min 254 (numchars - start))).takeWhile (· != 0)

/-- The two name the same method, without regard to case. -/
def SameMethod (method literal : List Byte) : Prop := method.map tolower = literal.map tolower

instance (method literal : List Byte) : Decidable (SameMethod method literal) :=
  inferInstanceAs (Decidable (_ = _))

theorem SameMethod.length_eq {method literal : List Byte} (hsame : SameMethod method literal) :
    method.length = literal.length := by
  simpa only [List.length_map] using congrArg List.length hsame

/-- The two methods that `write` goes on with. -/
def ImplementedMethod (method : List Byte) : Prop :=
  SameMethod method (ascii "GET") ∨ SameMethod method (ascii "POST")

instance (method : List Byte) : Decidable (ImplementedMethod method) :=
  inferInstanceAs (Decidable (_ ∨ _))

theorem ImplementedMethod.length {method : List Byte} (hmethod : ImplementedMethod method) :
    method.length = 3 ∨ method.length = 4 :=
  hmethod.imp SameMethod.length_eq SameMethod.length_eq

/-- The token of a GET is cut at its first question mark. -/
def urlText (method token : List Byte) : List Byte :=
  if SameMethod method (ascii "GET") then token.takeWhile (· != questionMark) else token

theorem cutUrl_spec (method : List Byte) {url : CharArray 255} {token : List Byte}
    (htoken : url.string = .ok token) :
    ∃ last query cgi, (if decide (SameMethod method (ascii "GET")) then splitQuery url
        else .ok (url, 0, false)) = .ok (last, query, cgi) ∧
      last.string = .ok (urlText method token) := by
  by_cases hget : SameMethod method (ascii "GET")
  · obtain ⟨last, query, cgi, hsplit, -, hlast, -⟩ := splitQuery_spec htoken
    refine ⟨last, query, cgi, ?_, ?_⟩
    · rwa [if_pos (decide_eq_true hget)]
    · rwa [urlText, if_pos hget]
  · refine ⟨url, 0, false, ?_, ?_⟩
    · rw [if_neg (by simpa using hget)]
    · rwa [urlText, if_neg hget]

/-- A line is parsed without fault. Its path is the root, the URL and the index
file of a trailing slash. -/
theorem requestPath_spec (stack : Stack) (buf : CharArray 1024) {numchars : Nat}
    (hnumchars : numchars ≤ 1023) :
    if ImplementedMethod (methodText buf) then
      ∃ path, requestPath stack buf numchars = .ok (some path) ∧
        path.string = .ok (withIndex (root ++ urlText (methodText buf) (tokenText buf numchars)))
    else requestPath stack buf numchars = .ok none := by
  obtain ⟨method, hparse, hmethod⟩ := parseMethod_spec stack buf
  have hget : method.strcasecmpEq (ascii "GET") =
      .ok (decide (SameMethod (methodText buf) (ascii "GET"))) :=
    CharArray.strcasecmpEq_eq hmethod (by decide)
  have hpost : method.strcasecmpEq (ascii "POST") =
      .ok (decide (SameMethod (methodText buf) (ascii "POST"))) :=
    CharArray.strcasecmpEq_eq hmethod (by decide)
  split
  · next himplemented =>
      obtain ⟨url, hurl, htoken⟩ := parseUrl_spec stack buf hnumchars
        (buf.span_length nonspace 0 254)
      obtain ⟨last, query, cgi, hcut, hlast⟩ := cutUrl_spec (methodText buf) htoken
      obtain ⟨path, hpath, hstring⟩ := resourcePath_spec stack hlast
      refine ⟨path, ?_, hstring⟩
      have hother : ¬ (!decide (SameMethod (methodText buf) (ascii "GET")) &&
          !decide (SameMethod (methodText buf) (ascii "POST"))) = true := by
        simpa [ImplementedMethod, ← not_or] using himplemented
      simp only [requestPath, hparse, hget, hpost, bind, Except.bind]
      rw [if_neg hother]
      simp only [hurl, hcut, hpath]
      rfl
  · next hother =>
      rw [ImplementedMethod, not_or] at hother
      simp only [requestPath, hparse, hget, hpost, bind, Except.bind, decide_eq_false hother.1,
        decide_eq_false hother.2]
      rfl

/-! ### Staying within the arrays -/

/-- The path of the file that is served, and the path itself, have room for
both suffixes. -/
theorem servedPath_spec {path : CharArray 512} {string : List Byte}
    (hstring : path.string = .ok string) (hlength : string.length ≤ 270) (mode : UInt32) :
    ∃ served, servedPath path mode = .ok served ∧ served.string =
      .ok (if isDirectory mode then string ++ ascii "/index.html" else string) := by
  have hindex : (ascii "/index.html").length = 11 := by decide
  rw [servedPath]
  split
  · exact CharArray.strcat_eq _ hstring (by omega) (by decide)
  · exact ⟨path, rfl, hstring⟩

theorem tokenText_length (buf : CharArray 1024) (numchars : Nat) :
    (tokenText buf numchars).length ≤ 254 := by
  apply (List.takeWhile_prefix _).length_le.trans
  exact (buf.span_length nonspace _ _).trans (Nat.min_le_left _ _)

theorem urlText_length (method token : List Byte) :
    (urlText method token).length ≤ token.length := by
  rw [urlText]
  split
  · exact (List.takeWhile_prefix _).length_le
  · exact Nat.le_refl _

/-- A path is the root and more, and 270 characters at most. -/
theorem withIndex_root {url : List Byte} (hurl : url.length ≤ 254) :
    root <+: withIndex (root ++ url) ∧ (withIndex (root ++ url)).length ≤ 270 := by
  have hroot : root.length = 6 := by decide
  have hlength := withIndex_length (root ++ url)
  rw [List.length_append] at hlength
  refine ⟨?_, by omega⟩
  rw [withIndex]
  split
  · rw [List.append_assoc]
    exact List.prefix_append _ _
  · exact List.prefix_append _ _

/-- Whatever the line holds, the parser and the construction of the path stay
within their arrays: no access is out of bounds, there is a last character of
the path to look at, and both suffixes fit. -/
theorem requestPath_within (stack : Stack) (buf : CharArray 1024) {numchars : Nat}
    (hnumchars : numchars ≤ 1023) :
    ∃ request, requestPath stack buf numchars = .ok request ∧
      ∀ path, request = some path → ∃ string, path.string = .ok string ∧ root <+: string ∧
        ∀ mode, ∃ served full, servedPath path mode = .ok served ∧
          served.string = .ok full ∧ full.length < 512 := by
  have hspec := requestPath_spec stack buf hnumchars
  split at hspec
  · obtain ⟨path, hpath, hstring⟩ := hspec
    refine ⟨some path, hpath, ?_⟩
    rintro path' ⟨⟩
    obtain ⟨hroot, hlength⟩ := withIndex_root
      ((urlText_length (methodText buf) _).trans (tokenText_length buf numchars))
    refine ⟨_, hstring, hroot, ?_⟩
    intro mode
    obtain ⟨served, hserved, hfull⟩ := servedPath_spec hstring hlength mode
    exact ⟨served, _, hserved, hfull, CharArray.string_length hfull⟩
  · refine ⟨none, hspec, ?_⟩
    nofun

/-- An array with a line and zeros behind it. -/
def arrayOf (line : List Byte) (hlength : line.length ≤ 1023) : CharArray 1024 :=
  ⟨(line ++ 0 :: List.replicate (1023 - line.length) 0).toArray, by simp; omega⟩

/-- A line that gets a file. -/
theorem plainRequest_within :
    ∃ request, requestPath HttpEnv.blank.stack (arrayOf (ascii "GET /a") (by decide)) 6 =
        .ok request ∧
      ∀ path, request = some path → ∃ string, path.string = .ok string ∧ root <+: string ∧
        ∀ mode, ∃ served full, servedPath path mode = .ok served ∧
          served.string = .ok full ∧ full.length < 512 :=
  requestPath_within HttpEnv.blank.stack (arrayOf (ascii "GET /a") (by decide)) (by decide)

end ZtHttp.Http
