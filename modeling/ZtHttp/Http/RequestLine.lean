import ZtHttp.Http.Request

/-!
# Request lines with a terminator

Of a line that ends with a NUL and has `numchars` characters in front of it the
parser takes the first two tokens. The URL is cut where its array is full.
-/

namespace ZtHttp.Http

open Imperative

/-- The array holds a line and its terminator. -/
def Holds (buf : CharArray 1024) (line : List Byte) : Prop :=
  0 ∉ line ∧ ∃ rest, buf.toList = line ++ 0 :: rest

/-- What stands behind the first token. -/
def behindMethod (line : List Byte) : List Byte := line.dropWhile nonspace

/-- The second token of a line. -/
def secondToken (line : List Byte) : List Byte :=
  ((behindMethod line).dropWhile isspace).takeWhile nonspace

variable {buf : CharArray 1024} {line : List Byte}

theorem Holds.length_le (hline : Holds buf line) : line.length ≤ 1023 := by
  obtain ⟨-, rest, heq⟩ := hline
  have hlength := congrArg List.length heq
  rw [Vector.length_toList, List.length_append, List.length_cons] at hlength
  omega

theorem Holds.string_eq (hline : Holds buf line) : buf.string = .ok line := by
  obtain ⟨hnul, rest, heq⟩ := hline
  rw [CharArray.string, heq]
  exact readString_of_not_mem hnul rest

/-- A run in the array, up to a NUL, is a run in the line. -/
theorem Holds.span_text (hline : Holds buf line) (keep : Byte → Bool) {index room : Nat}
    (hindex : room = 0 ∨ index ≤ line.length) :
    (buf.span keep index room).takeWhile (· != 0) =
      ((line.drop index).takeWhile keep).take room := by
  obtain ⟨hnul, rest, heq⟩ := hline
  rcases hindex with rfl | hindex
  · rw [CharArray.span_zero, List.take_zero, List.takeWhile_nil]
  · have hbehind : (line.drop index).takeWhile (· != 0) = line.drop index :=
      takeWhile_ne_eq_self_iff.mpr fun hmem => hnul (List.mem_of_mem_drop hmem)
    rw [CharArray.span, heq, List.drop_append_of_le_length hindex, ← List.take_takeWhile,
      takeWhile_comm, takeWhile_append_cons (by decide), hbehind]

/-- A run of white space stops at the terminator. -/
theorem Holds.span_isspace (hline : Holds buf line) (j : Nat) :
    buf.span isspace j (line.length - j) = (line.drop j).takeWhile isspace := by
  obtain ⟨-, rest, heq⟩ := hline
  by_cases hj : j ≤ line.length
  · have hlength := (List.takeWhile_prefix (l := line.drop j) isspace).length_le
    rw [List.length_drop] at hlength
    rw [CharArray.span, heq, List.drop_append_of_le_length hj, takeWhile_append_cons (by decide),
      List.take_of_length_le hlength]
  · rw [Nat.sub_eq_zero_of_le (by omega), CharArray.span_zero, List.drop_eq_nil_of_le (by omega),
      List.takeWhile_nil]

/-- The method of the line is its first token. -/
theorem Holds.methodText_eq (hline : Holds buf line) :
    methodText buf = (line.takeWhile nonspace).take 254 :=
  hline.span_text nonspace (.inr (Nat.zero_le _))

/-- The method loop stops behind the first token, or in the rest of the array if
the line has no other. -/
theorem Holds.drop_method (hline : Holds buf line)
    (hshort : (line.takeWhile nonspace).length ≤ 254) :
    line.drop (buf.span nonspace 0 254).length = behindMethod line := by
  obtain ⟨-, rest, heq⟩ := hline
  rw [CharArray.span, heq, List.drop_zero, List.takeWhile_append]
  split
  · next hall =>
      have hwhole := (List.takeWhile_prefix (l := line) nonspace).eq_of_length hall
      have hnone := drop_takeWhile nonspace line
      rw [hwhole, List.drop_length] at hnone
      rw [behindMethod, ← hnone]
      apply List.drop_eq_nil_of_le
      rw [List.length_take, List.length_append]
      omega
  · rw [List.take_of_length_le hshort, drop_takeWhile, behindMethod]

/-- The token that is parsed is the second of the line, as far as the URL has
room for it. -/
theorem Holds.tokenText_eq (hline : Holds buf line)
    (hshort : (line.takeWhile nonspace).length ≤ 254) :
    tokenText buf line.length = (secondToken line).take 254 := by
  have hstart : line.drop (urlStart buf line.length (buf.span nonspace 0 254).length) =
      (behindMethod line).dropWhile isspace := by
    rw [urlStart, ← List.drop_drop, hline.span_isspace, hline.drop_method hshort, drop_takeWhile]
  rw [tokenText]
  generalize urlStart buf line.length (buf.span nonspace 0 254).length = start at hstart ⊢
  have hroom : min 254 (line.length - start) = 0 ∨ start ≤ line.length := by omega
  have hlength := (List.takeWhile_prefix (l := line.drop start) nonspace).length_le
  rw [List.length_drop] at hlength
  rw [hline.span_text nonspace hroom, ← List.take_take, List.take_of_length_le hlength, hstart,
    secondToken]

/-! ### Lines that get something -/

/-- `GET`, white space, the token of the URL, white space and whatever else. -/
structure GetLine where
  method : List Byte
  spaces : List Byte
  token : List Byte
  white : Byte
  behind : List Byte
  isGet : SameMethod method (ascii "GET")
  spaces_ne_nil : spaces ≠ []
  spaces_isspace : spaces.all isspace = true
  token_ne_nil : token ≠ []
  token_nonspace : token.all nonspace = true
  white_isspace : isspace white = true

def GetLine.chars (line : GetLine) : List Byte :=
  line.method ++ line.spaces ++ line.token ++ line.white :: line.behind

/-- The loops of the parser yield the method, the URL and the query. -/
def Parses (stack : Stack) (buf : CharArray 1024) (numchars : Nat) (method url query : List Byte) :
    Prop :=
  ∃ methodArray j urlArray cut index cgi,
    parseMethod stack buf = .ok (methodArray, j) ∧ methodArray.string = .ok method ∧
    parseUrl stack buf numchars j = .ok urlArray ∧ splitQuery urlArray = .ok (cut, index, cgi) ∧
    cut.string = .ok url ∧ readString (cut.toList.drop index) = .ok query

/-- A line with a terminator is parsed into its first two tokens. -/
theorem Holds.parses (hline : Holds buf line) (hshort : (line.takeWhile nonspace).length ≤ 254)
    (stack : Stack) :
    Parses stack buf line.length (line.takeWhile nonspace)
      (((secondToken line).take 254).takeWhile (· != questionMark))
      (((secondToken line).take 254).dropWhile (· != questionMark)).tail := by
  obtain ⟨methodArray, hparse, hmethod⟩ := parseMethod_spec stack buf
  obtain ⟨urlArray, hurl, htoken⟩ := parseUrl_spec stack buf hline.length_le
    (buf.span_length nonspace 0 254)
  have hsecond := hline.tokenText_eq hshort
  rw [tokenText] at hsecond
  rw [hsecond] at htoken
  obtain ⟨cut, index, cgi, hcut, -, hlast, hquery⟩ := splitQuery_spec htoken
  refine ⟨methodArray, _, urlArray, cut, index, cgi, hparse, ?_, hurl, hcut, hlast, hquery⟩
  rw [hmethod, ← methodText, hline.methodText_eq, List.take_of_length_le hshort]

/-- The letters of a method are not white space. -/
theorem SameMethod.nonspace {method literal : List Byte} (hmethod : SameMethod method literal)
    (hliteral : (literal.map tolower).all Http.nonspace = true) :
    ∀ char ∈ method, Http.nonspace char = true := by
  intro char hchar
  rw [Http.nonspace, Bool.not_eq_true', Bool.eq_false_iff]
  intro hspace
  have hmem : tolower char ∈ literal.map tolower := by
    rw [← hmethod]
    exact List.mem_map_of_mem hchar
  rw [tolower_of_isspace hspace] at hmem
  have hletter := List.all_eq_true.mp hliteral char hmem
  rw [Http.nonspace, hspace] at hletter
  contradiction

namespace GetLine

variable (get : GetLine)

/-- The method is the first token, and the URL's the second. -/
theorem tokens : get.chars.takeWhile nonspace = get.method ∧ secondToken get.chars = get.token := by
  have hmethod := get.isGet.nonspace (by decide)
  obtain ⟨space, spaces, hspaces⟩ := List.exists_cons_of_ne_nil get.spaces_ne_nil
  obtain ⟨first, token, htoken⟩ := List.exists_cons_of_ne_nil get.token_ne_nil
  have hspaces_isspace : ∀ char ∈ space :: spaces, isspace char = true := by
    rw [← hspaces]
    exact List.all_eq_true.mp get.spaces_isspace
  have htoken_nonspace : ∀ char ∈ first :: token, nonspace char = true := by
    rw [← htoken]
    exact List.all_eq_true.mp get.token_nonspace
  have hspace : nonspace space = false := by
    rw [nonspace, hspaces_isspace space List.mem_cons_self]
    rfl
  have hfirst : isspace first = false := by
    have hfirst := htoken_nonspace first List.mem_cons_self
    rwa [nonspace, Bool.not_eq_true'] at hfirst
  have hwhite : nonspace get.white = false := by
    rw [nonspace, get.white_isspace]
    rfl
  have hchars : get.chars = get.method ++ space ::
      (spaces ++ (first :: token) ++ get.white :: get.behind) := by
    rw [chars, hspaces, htoken]
    simp only [List.append_assoc, List.cons_append]
  constructor
  · rw [hchars, takeWhile_append_of_neg hmethod hspace]
  · have hbehind : behindMethod get.chars =
        (space :: spaces) ++ first :: (token ++ get.white :: get.behind) := by
      rw [behindMethod, hchars, dropWhile_append_of_neg hmethod hspace]
      simp only [List.append_assoc, List.cons_append]
    rw [secondToken, hbehind, dropWhile_append_of_neg hspaces_isspace hfirst, ← List.cons_append,
      takeWhile_append_of_neg htoken_nonspace hwhite, htoken]

/-- The parsing loops yield the method, and the URL and the query as far as the
first 254 characters of the token hold them. -/
theorem parses_cut (hline : Holds buf get.chars) (stack : Stack) :
    Parses stack buf get.chars.length get.method
      ((get.token.take 254).takeWhile (· != questionMark))
      ((get.token.take 254).dropWhile (· != questionMark)).tail := by
  obtain ⟨hmethod, htoken⟩ := get.tokens
  have hlength : get.method.length = 3 := get.isGet.length_eq
  have hparses := hline.parses (by rw [hmethod]; omega) stack
  rwa [hmethod, htoken] at hparses

end GetLine

theorem holds_arrayOf {line : List Byte} (hlength : line.length ≤ 1023) (hline : 0 ∉ line) :
    Holds (arrayOf line hlength) line := ⟨hline, _, rfl⟩

/-- `get /a?b `, followed by nothing. -/
def queryLine : GetLine where
  method := ascii "get"
  spaces := ascii " "
  token := ascii "/a?b"
  white := 32
  behind := []
  isGet := by decide
  spaces_ne_nil := by decide
  spaces_isspace := by decide
  token_ne_nil := by decide
  token_nonspace := by decide
  white_isspace := by decide

theorem queryLine_parses :
    Parses HttpEnv.blank.stack (arrayOf queryLine.chars (by decide)) queryLine.chars.length
      (ascii "get") (ascii "/a") (ascii "b") :=
  queryLine.parses_cut (holds_arrayOf _ (by decide)) HttpEnv.blank.stack

/-- A line with a token of 300 letters. -/
def longLine : GetLine where
  method := ascii "GET"
  spaces := ascii " "
  token := List.replicate 300 97
  white := 32
  behind := []
  isGet := by decide
  spaces_ne_nil := by decide
  spaces_isspace := by decide
  token_ne_nil := by decide
  token_nonspace := by
    rw [List.all_replicate]
    decide
  white_isspace := by decide

theorem longLine_chars :
    longLine.chars = ascii "GET" ++ ascii " " ++ List.replicate 300 97 ++ [32] := by
  rw [GetLine.chars, longLine]

theorem longLine_length : longLine.chars.length ≤ 1023 := by
  rw [longLine_chars, List.length_append, List.length_append, List.length_append,
    List.length_replicate]
  decide

/-- The array of the URL has no room for 300 letters. -/
theorem longLine_cut :
    Holds (arrayOf longLine.chars longLine_length) longLine.chars ∧
      ¬ Parses HttpEnv.blank.stack (arrayOf longLine.chars longLine_length)
        longLine.chars.length longLine.method
        (longLine.token.takeWhile (· != questionMark))
        (longLine.token.dropWhile (· != questionMark)).tail := by
  constructor
  · apply holds_arrayOf
    rw [longLine_chars]
    refine List.not_mem_append (List.not_mem_append (by decide) ?_) (by decide)
    exact fun hmem => absurd (List.eq_of_mem_replicate hmem) (by decide)
  · rintro ⟨methodArray, j, urlArray, cut, index, cgi, -, -, -, -, hurl, -⟩
    have hlength := CharArray.string_length hurl
    have hwhole : longLine.token.takeWhile (· != questionMark) = longLine.token :=
      takeWhile_ne_eq_self_iff.mpr fun hmem => absurd (List.eq_of_mem_replicate hmem) (by decide)
    rw [hwhole, longLine, List.length_replicate] at hlength
    exact absurd hlength (by decide)

end ZtHttp.Http
