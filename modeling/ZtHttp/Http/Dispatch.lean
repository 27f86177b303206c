import ZtHttp.Http.Response

/-!
# Which method a request names

A request names its method with the first token of its first line. `Http::write`
compares what `get_line` left of that line, which is never more than one
character, so the method that a request names makes no difference.
-/

namespace ZtHttp.Http

open Imperative

/-- The first line of the request, without its newline. -/
def firstLine (http : Http) : List Byte := http.inBuffer.takeWhile (· != newline)

/-- The first token of the first line that white space delimits. -/
def methodToken (http : Http) : List Byte :=
  (http.firstLine.dropWhile isspace).takeWhile fun char => !isspace char

/-- The request names `GET` or `POST`, without regard to case. -/
def Implemented (http : Http) : Prop :=
  http.methodToken.map tolower = (ascii "GET").map tolower ∨
    http.methodToken.map tolower = (ascii "POST").map tolower

instance (http : Http) : Decidable http.Implemented :=
  inferInstanceAs (Decidable (_ ∨ _))

/-- `write` answers with the page for unimplemented methods and -1 exactly the
requests that name no implemented method, and returns 1 for the others. -/
structure DispatchesByMethod (env : HttpEnv) (http : Http) (buffer : IOBuffer) : Prop where
  unimplemented : write env http buffer = .ok (-1) (buffer.push unimplementedPage) ↔
    ¬ http.Implemented
  implemented : http.Implemented → ∃ last, write env http buffer = .ok 1 last

/-- `write` dispatches a request by its method exactly when the request names
neither of the two. -/
theorem write_dispatches_iff (env : HttpEnv) (http : Http) (buffer : IOBuffer) :
    DispatchesByMethod env http buffer ↔ ¬ http.Implemented := by
  constructor
  · intro hdispatches
    exact hdispatches.unimplemented.mp (write_eq env http buffer)
  · intro hother
    constructor
    · exact iff_of_true (write_eq env http buffer) hother
    · intro himplemented
      exact absurd himplemented hother

/-- A request for the root page. -/
def getRequest : Http := ⟨ascii "GET / HTTP/1.0\r\n\r\n"⟩

/-- `GET / HTTP/1.0` is answered as if it named no implemented method. -/
theorem getRequest_unimplemented :
    getRequest.Implemented ∧
      write .blank getRequest .empty = .ok (-1) (IOBuffer.empty.push unimplementedPage) ∧
      ¬ DispatchesByMethod .blank getRequest .empty := by
  have himplemented : getRequest.Implemented := by decide
  have hwrite := write_eq .blank getRequest .empty
  refine ⟨himplemented, hwrite, ?_⟩
  intro hdispatches
  exact hdispatches.unimplemented.mp hwrite himplemented

end ZtHttp.Http
