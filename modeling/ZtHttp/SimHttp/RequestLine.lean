import ZtHttp.Http.RequestLine
import ZtHttp.SimHttp.Headers

/-!
# The request line off the socket

The line may be any, with NULs in it and with nothing behind the method. The
array behind its terminator is looked at by the loop over the method, and yet
what the parser takes off the line depends on the line alone.
-/

namespace ZtHttp.SimHttp

open Imperative
open Http (nonspace questionMark methodText tokenText urlStart SameMethod splitQuery parseMethod
  parseUrl ImplementedMethod withIndex root)

/-- The method of a line, as its array holds it. -/
def lineMethod (line : List Byte) : List Byte :=
  ((line.takeWhile nonspace).take 254).takeWhile (· != 0)

/-- The token of the URL, as its array holds it. -/
def lineToken (line : List Byte) : List Byte :=
  let behind := line.drop ((line.takeWhile nonspace).take 254).length
  (((behind.dropWhile isspace).takeWhile nonspace).take 254).takeWhile (· != 0)

/-- What a line asks for. The query is that of a GET with a question mark. -/
structure Request where
  method : List Byte
  url : List Byte
  query : Option (List Byte)

/-- The request of a line, if its method is implemented. -/
def parseLine (line : List Byte) : Option Request :=
  let method := lineMethod line
  let token := lineToken line
  if SameMethod method (ascii "GET") then
    some ⟨method, token.takeWhile (· != questionMark),
      if questionMark ∈ token then some (token.dropWhile (· != questionMark)).tail else none⟩
  else if SameMethod method (ascii "POST") then some ⟨method, token, none⟩
  else none

/-- The path that `stat` is asked for. -/
def Request.name (request : Request) : List Byte := withIndex (root ++ request.url)

/-! ### Runs in an array -/

variable {buf : CharArray 1024} {line rest : List Byte}

/-- A cut at a NUL can be made before a run is taken. -/
theorem takeWhile_take_takeWhile (keep : Byte → Bool) (room : Nat) (list : List Byte) :
    ((list.takeWhile keep).take room).takeWhile (· != 0) =
      ((list.takeWhile (· != 0)).takeWhile keep).take room := by
  rw [← List.take_takeWhile, takeWhile_comm]

/-- A run that starts in the line is known up to a NUL. -/
theorem span_line (hmemory : buf.toList = line ++ 0 :: rest) (keep : Byte → Bool)
    {index : Nat} (hindex : index ≤ line.length) (room : Nat) :
    (buf.span keep index room).takeWhile (· != 0) =
      (((line.drop index).takeWhile keep).take room).takeWhile (· != 0) := by
  rw [CharArray.span, hmemory, List.drop_append_of_le_length hindex, takeWhile_take_takeWhile,
    takeWhile_take_takeWhile, takeWhile_append_cons (by decide)]

theorem methodText_eq (hmemory : buf.toList = line ++ 0 :: rest) :
    methodText buf = lineMethod line := by
  rw [methodText, span_line hmemory nonspace (Nat.zero_le _), List.drop_zero, lineMethod]

/-- A run of white space ends with the line. -/
theorem span_isspace (hmemory : buf.toList = line ++ 0 :: rest) {j : Nat}
    (hj : j ≤ line.length) :
    buf.span isspace j (line.length - j) = (line.drop j).takeWhile isspace := by
  have hlength := (List.takeWhile_prefix (l := line.drop j) isspace).length_le
  rw [List.length_drop] at hlength
  rw [CharArray.span, hmemory, List.drop_append_of_le_length hj, takeWhile_append_cons (by decide),
    List.take_of_length_le hlength]

/-- Behind a method that ends in the line the token is that of the line. -/
theorem tokenText_within (hmemory : buf.toList = line ++ 0 :: rest)
    (hj : (buf.span nonspace 0 254).length = ((line.takeWhile nonspace).take 254).length) :
    tokenText buf line.length = lineToken line := by
  have hle : ((line.takeWhile nonspace).take 254).length ≤ line.length :=
    ((List.take_prefix _ _).trans (List.takeWhile_prefix _)).length_le
  rw [tokenText, urlStart, hj, span_isspace hmemory hle, lineToken]
  generalize ((line.takeWhile nonspace).take 254).length = j at hle ⊢
  have hspace := (List.takeWhile_prefix (l := line.drop j) isspace).length_le
  have htoken := (List.takeWhile_prefix (l := (line.drop j).dropWhile isspace) nonspace).length_le
  rw [List.length_drop] at hspace
  have hbehind : line.drop (j + ((line.drop j).takeWhile isspace).length) =
      (line.drop j).dropWhile isspace := by
    rw [← List.drop_drop, drop_takeWhile]
  have hlength := congrArg List.length hbehind
  rw [List.length_drop] at hlength
  rw [span_line hmemory nonspace (by omega), hbehind, ← List.take_take,
    @List.take_of_length_le _ (line.length - _) _ (by omega)]

/-- The loop over the method goes on behind a line that is all method. Nothing is
left of the line then. -/
theorem tokenText_behind (hmemory : buf.toList = line ++ 0 :: rest)
    (hall : line.takeWhile nonspace = line) (hshort : line.length ≤ 254) :
    tokenText buf line.length = lineToken line := by
  have hj : line.length ≤ (buf.span nonspace 0 254).length := by
    rw [CharArray.span, hmemory, List.drop_zero, List.takeWhile_append, if_pos (by rw [hall]),
      List.length_take, List.length_append]
    omega
  have hstart : urlStart buf line.length (buf.span nonspace 0 254).length =
      (buf.span nonspace 0 254).length := by
    rw [urlStart, Nat.sub_eq_zero_of_le hj, CharArray.span_zero, List.length_nil, Nat.add_zero]
  rw [tokenText, hstart, Nat.sub_eq_zero_of_le hj, Nat.min_zero, CharArray.span_zero, lineToken,
    hall, List.take_of_length_le hshort, List.drop_length]
  rfl

theorem tokenText_eq (hmemory : buf.toList = line ++ 0 :: rest) :
    tokenText buf line.length = lineToken line := by
  by_cases hall : line.takeWhile nonspace = line
  · rcases Nat.lt_or_ge 254 line.length with hlong | hshort
    · apply tokenText_within hmemory
      rw [CharArray.span, hmemory, List.drop_zero, List.takeWhile_append, if_pos (by rw [hall]),
        hall, List.length_take, List.length_take, List.length_append]
      omega
    · exact tokenText_behind hmemory hall hshort
  · apply tokenText_within hmemory
    have hless : (line.takeWhile nonspace).length ≠ line.length := fun hlength =>
      hall ((List.takeWhile_prefix nonspace).eq_of_length hlength)
    rw [CharArray.span, hmemory, List.drop_zero, List.takeWhile_append, if_neg hless]

/-! ### The parser -/

/-- The cut of a URL says whether there is a question mark. -/
theorem splitQuery_flag {url last : CharArray 255} {string : List Byte} {query : Nat} {cgi : Bool}
    (hstring : url.string = .ok string) (hsplit : splitQuery url = .ok (last, query, cgi)) :
    cgi = decide (questionMark ∈ string) := by
  obtain ⟨hchars, behind, heq⟩ := readString_eq_ok hstring
  have hlength := CharArray.string_length hstring
  have hquery : Http.findQuery url 256 0 =
      .ok (0 + (string.takeWhile (· != questionMark)).length) :=
    Http.findQuery_eq heq hchars (by omega)
  have hdrop : url.toList.drop (string.takeWhile (· != questionMark)).length =
      string.dropWhile (· != questionMark) ++ 0 :: behind := by
    rw [heq, List.drop_append_of_le_length (List.takeWhile_prefix _).length_le, drop_takeWhile]
  rw [splitQuery, hquery, Nat.zero_add] at hsplit
  simp only [bind, Except.bind] at hsplit
  rcases Http.cut_cases string with ⟨hwhole, hnone⟩ | ⟨rest, hback⟩
  · rw [hnone] at hdrop
    rw [(CharArray.load_of_drop hdrop).1] at hsplit
    cases hsplit
    exact (decide_eq_false (takeWhile_ne_eq_self_iff.mp hwhole)).symm
  · rw [hback] at hdrop
    have hmem : questionMark ∈ string := by
      apply (List.dropWhile_suffix (l := string) (· != questionMark)).subset
      rw [hback]
      exact List.mem_cons_self
    rw [(CharArray.load_of_drop hdrop).1] at hsplit
    simp only [if_true] at hsplit
    cases hstore : url.store (string.takeWhile (· != questionMark)).length 0 with
    | error fault =>
        rw [hstore] at hsplit
        contradiction
    | ok cut =>
        rw [hstore] at hsplit
        cases hsplit
        exact (decide_eq_true hmem).symm

/-- What the parser has found behind the method. -/
def Parsed (stack : Stack) (buf : CharArray 1024) (line : List Byte) (j : Nat)
    (request : Request) : Prop :=
  ∃ url cut query hasQuery path, parseUrl stack buf line.length j = .ok url ∧
    (if decide (SameMethod request.method (ascii "GET")) then splitQuery url
      else .ok (url, 0, false)) = .ok (cut, query, hasQuery) ∧
    Http.resourcePath stack cut = .ok path ∧ path.string = .ok request.name ∧
    hasQuery = request.query.isSome ∧
    (SameMethod request.method (ascii "GET") →
      readString (cut.toList.drop query) = .ok (request.query.getD []))

/-- Every line is parsed without fault. -/
theorem parse_line (stack : Stack) (hmemory : buf.toList = line ++ 0 :: rest) :
    ∃ method j, parseMethod stack buf = .ok (method, j) ∧
      method.string = .ok (lineMethod line) ∧
      ∀ request, parseLine line = some request → Parsed stack buf line j request := by
  have hlength : line.length ≤ 1023 := by
    have heq := congrArg List.length hmemory
    rw [Vector.length_toList, List.length_append, List.length_cons] at heq
    omega
  obtain ⟨method, hparse, hmethod⟩ := Http.parseMethod_spec stack buf
  obtain ⟨url, hurl, htoken⟩ := Http.parseUrl_spec stack buf hlength
    (buf.span_length nonspace 0 254)
  rw [← methodText, methodText_eq hmemory] at hmethod
  rw [← tokenText, tokenText_eq hmemory] at htoken
  refine ⟨method, _, hparse, hmethod, fun request hrequest => ?_⟩
  rw [parseLine] at hrequest
  by_cases hget : SameMethod (lineMethod line) (ascii "GET")
  · rw [if_pos hget, Option.some_inj] at hrequest
    subst hrequest
    obtain ⟨cut, query, cgi, hsplit, -, hcut, hquery⟩ := Http.splitQuery_spec htoken
    obtain ⟨path, hpath, hname⟩ := Http.resourcePath_spec stack hcut
    refine ⟨url, cut, query, cgi, path, hurl, ?_, hpath, hname, ?_, fun _ => ?_⟩
    · rwa [if_pos (decide_eq_true hget)]
    · rw [splitQuery_flag htoken hsplit]
      by_cases hmark : questionMark ∈ lineToken line
      · rw [if_pos hmark, decide_eq_true hmark]
        rfl
      · rw [if_neg hmark, decide_eq_false hmark]
        rfl
    · rw [hquery]
      by_cases hmark : questionMark ∈ lineToken line
      · rw [if_pos hmark]
        rfl
      · rw [if_neg hmark, List.dropWhile_eq_nil_iff.mpr]
        · rfl
        · intro char hchar
          exact bne_iff_ne.mpr (ne_of_mem_of_not_mem hchar hmark)
  · rw [if_neg hget, Option.ite_none_right_eq_some] at hrequest
    obtain ⟨hpost, heq⟩ := hrequest
    cases heq
    obtain ⟨path, hpath, hname⟩ := Http.resourcePath_spec stack htoken
    refine ⟨url, url, 0, false, path, hurl, ?_, hpath, hname, rfl, fun hother => ?_⟩
    · rw [if_neg (by simpa using hget)]
    · exact absurd hother hget

/-- The methods that are implemented. -/
theorem parseLine_method {request : Request} (hrequest : parseLine line = some request) :
    request.method = lineMethod line ∧ ImplementedMethod request.method := by
  rw [parseLine] at hrequest
  split at hrequest
  · next hget =>
      cases hrequest
      exact ⟨rfl, .inl hget⟩
  · next hget =>
      obtain ⟨hpost, heq⟩ := Option.ite_none_right_eq_some.mp hrequest
      cases heq
      exact ⟨rfl, .inr hpost⟩

theorem parseLine_none (hrequest : parseLine line = none) :
    ¬ SameMethod (lineMethod line) (ascii "GET") ∧
      ¬ SameMethod (lineMethod line) (ascii "POST") := by
  rw [parseLine] at hrequest
  split at hrequest
  · contradiction
  · next hget =>
      split at hrequest
      · contradiction
      · next hpost => exact ⟨hget, hpost⟩

/-- The path of a request has room for the index file of a directory. -/
theorem name_length {request : Request} (hrequest : parseLine line = some request) :
    request.name.length ≤ 270 := by
  have htoken : (lineToken line).length ≤ 254 :=
    (List.takeWhile_prefix _).length_le.trans (List.length_take_le _ _)
  have hurl : request.url.length ≤ 254 := by
    rw [parseLine] at hrequest
    split at hrequest
    · cases hrequest
      exact (List.takeWhile_prefix _).length_le.trans htoken
    · obtain ⟨-, heq⟩ := Option.ite_none_right_eq_some.mp hrequest
      cases heq
      exact htoken
  exact (Http.withIndex_root hurl).2

end ZtHttp.SimHttp
