import ZtHttp.Foundation.Path
import ZtHttp.Http.RequestLine

/-!
# The document root

The path of a request is `htdocs` with the URL behind it. Nothing is checked, so
that the URL decides whether the path stays in that directory.
-/

namespace ZtHttp.Http

open Imperative Lexical

/-- The path, taken lexically, lies in the document root. -/
def UnderRoot (path : List Byte) : Prop := LiesIn root (resolve (components path))

/-- The URL of a line: its second token, as far as there is room, and for a GET
as far as the first question mark. -/
def lineUrl (line : List Byte) : List Byte :=
  urlText (line.takeWhile nonspace) ((secondToken line).take 254)

/-- A name behind a separator, other than the root's, makes no difference. -/
theorem underRoot_append (front name : List Byte) (hname : separator ∉ name)
    (hcomponent : component name = .name name) (hroot : name ≠ root) :
    UnderRoot (front ++ separator :: name) ↔ UnderRoot front := by
  rw [UnderRoot, components_append, components_of_not_mem hname, hcomponent, liesIn_concat hroot,
    UnderRoot]

theorem underRoot_slash (front : List Byte) :
    UnderRoot (front ++ [separator]) ↔ UnderRoot front := by
  rw [UnderRoot, components_append, components_of_not_mem List.not_mem_nil, resolve_concat]
  rfl

theorem underRoot_served (path : List Byte) (mode : UInt32) :
    UnderRoot (if isDirectory mode then path ++ ascii "/index.html" else path) ↔
      UnderRoot path := by
  split
  · exact underRoot_append path (ascii "index.html") (by decide) (by decide) (by decide)
  · rfl

theorem underRoot_withIndex (path : List Byte) : UnderRoot (withIndex path) ↔ UnderRoot path := by
  rw [withIndex]
  split
  · next hslash =>
      obtain ⟨front, rfl⟩ := List.getLast?_eq_some_iff.mp hslash
      have hindex := underRoot_append front (ascii "index.html") (by decide) (by decide)
        (by decide)
      rw [show front ++ [slash] ++ ascii "index.html" = front ++ separator :: ascii "index.html" by
        simp [slash, separator], hindex]
      exact (underRoot_slash front).symm
  · rfl

/-- A URL that starts with a slash, and in which no initial part has more `..`
than names, stays in the root. -/
theorem underRoot_of_depth {url : List Byte} (hdepth : (depth 0 (components url)).isSome) :
    UnderRoot (root ++ separator :: url) := by
  have hroot : components root = [.name root] := by
    rw [components_of_not_mem (by decide)]
    decide
  rw [UnderRoot, liesIn_iff, components_append, hroot]
  exact ⟨[], components url, rfl, rfl, hdepth⟩

variable {buf : CharArray 1024} {line : List Byte}

/-- The path of a line with an implemented method. -/
theorem Holds.requestPath_eq (hline : Holds buf line)
    (hmethod : ImplementedMethod (line.takeWhile nonspace)) (stack : Stack) :
    ∃ path, requestPath stack buf line.length = .ok (some path) ∧
      path.string = .ok (withIndex (root ++ lineUrl line)) := by
  have hshort : (line.takeWhile nonspace).length ≤ 254 := by
    have hlength := hmethod.length
    omega
  have hspec := requestPath_spec stack buf hline.length_le
  rw [hline.methodText_eq, List.take_of_length_le hshort, hline.tokenText_eq hshort,
    if_pos hmethod] at hspec
  exact hspec

theorem lineUrl_path_length (line : List Byte) :
    (withIndex (root ++ lineUrl line)).length ≤ 270 :=
  (withIndex_root ((urlText_length _ _).trans (List.length_take_le _ _))).2

/-- The path that `stat` is asked for lies in the document root, and so does the
path of the file that is served, whatever `stat` answers. -/
def ServesUnderRoot (stack : Stack) (buf : CharArray 1024) (numchars : Nat) : Prop :=
  ∃ path string, requestPath stack buf numchars = .ok (some path) ∧ path.string = .ok string ∧
    UnderRoot string ∧
    ∀ mode, ∃ served full, servedPath path mode = .ok served ∧ served.string = .ok full ∧
      UnderRoot full

/-- Whether it does is decided by the path in front of the suffixes. -/
theorem Holds.servesUnderRoot_iff (hline : Holds buf line)
    (hmethod : ImplementedMethod (line.takeWhile nonspace)) (stack : Stack) :
    ServesUnderRoot stack buf line.length ↔ UnderRoot (root ++ lineUrl line) := by
  obtain ⟨path, hpath, hstring⟩ := hline.requestPath_eq hmethod stack
  constructor
  · rintro ⟨path', string, hpath', hstring', hunder, -⟩
    cases hpath.symm.trans hpath'
    cases hstring.symm.trans hstring'
    exact (underRoot_withIndex _).mp hunder
  · intro hunder
    have hwith := (underRoot_withIndex _).mpr hunder
    refine ⟨path, _, hpath, hstring, hwith, ?_⟩
    intro mode
    obtain ⟨served, hserved, hfull⟩ := servedPath_spec hstring (lineUrl_path_length line) mode
    exact ⟨served, _, hserved, hfull, (underRoot_served _ mode).mpr hwith⟩

/-- The paths of a line with an implemented method lie in the document root
exactly if the components of the root and the URL enter it and do not leave it
again. -/
theorem servesUnderRoot_iff_enters (hline : Holds buf line)
    (hmethod : ImplementedMethod (line.takeWhile nonspace)) (stack : Stack) :
    ServesUnderRoot stack buf line.length ↔
      Enters root (components (root ++ lineUrl line)) := by
  rw [hline.servesUnderRoot_iff hmethod, UnderRoot, liesIn_iff]

/-- `GET / HTTP/1.0` -/
def plainLine : List Byte := ascii "GET / HTTP/1.0"

theorem plainLine_underRoot :
    ServesUnderRoot HttpEnv.blank.stack (arrayOf plainLine (by decide)) plainLine.length ↔
      Enters root (components (root ++ lineUrl plainLine)) :=
  servesUnderRoot_iff_enters (holds_arrayOf _ (by decide)) (by decide) HttpEnv.blank.stack

/-- `GET /../x HTTP/1.0` -/
def climbingLine : List Byte := ascii "GET /../x HTTP/1.0"

/-- The line is parsed into the path `htdocs/../x`. -/
theorem climbingLine_escapes :
    ImplementedMethod (climbingLine.takeWhile nonspace) ∧
      ¬ ServesUnderRoot HttpEnv.blank.stack (arrayOf climbingLine (by decide))
        climbingLine.length := by
  have hmethod : ImplementedMethod (climbingLine.takeWhile nonspace) := by decide
  refine ⟨hmethod, ?_⟩
  rw [(holds_arrayOf _ (by decide)).servesUnderRoot_iff hmethod]
  have hpath : root ++ lineUrl climbingLine =
      root ++ separator :: (ascii ".." ++ separator :: ascii "x") := by decide
  rw [UnderRoot, hpath, components_append, components_append, components_of_not_mem (by decide),
    components_of_not_mem (by decide), components_of_not_mem (by decide)]
  decide

end ZtHttp.Http
