import ZtHttp.Foundation.Stdio
import ZtHttp.IOBuffer.Basic

/-!
# The request handler

`Http::write` reads the request line from `_in_buffer`, looks the resource up
and appends the response to a buffer. Its local arrays start with whatever the
stack holds, the file system answers `stat` and `fopen`, and the loops whose
end the code does not bound are granted a number of iterations.
-/

namespace ZtHttp

open Imperative

/-- `stat` (`none` is -1, `some` gives `st_mode`) and `fopen(path, "r")`. -/
structure FileSystem where
  stat : List Byte → Option UInt32
  fopen : List Byte → Option InputStream

/-- The local arrays of `Http::write`, of `serve_file` and of `cat`, before
they are written. -/
structure Stack where
  buf : CharArray 1024
  method : CharArray 255
  url : CharArray 255
  path : CharArray 512
  headerBuf : CharArray 1024
  fileBuf : CharArray 1024

/-- What one call of `Http::write` finds outside its arguments. -/
structure HttpEnv where
  stack : Stack
  files : FileSystem
  fuel : Nat

/-- Zeroed arrays, and a file system without files. -/
def HttpEnv.blank : HttpEnv where
  stack := ⟨.replicate _ 0, .replicate _ 0, .replicate _ 0, .replicate _ 0, .replicate _ 0,
    .replicate _ 0⟩
  files := ⟨fun _ => none, fun _ => none⟩
  fuel := 10

/-- `Http`: `_in_buffer`. -/
structure Http where
  inBuffer : List Byte
  deriving DecidableEq, Repr

namespace Http

def newline : Byte := 10
def questionMark : Byte := 63
def slash : Byte := 47

/-! ### Responses -/

def unimplementedPage : List Byte := ascii <|
  "HTTP/1.0 200 OK\r\nServer: jdbhttpd/0.1.0\r\nContent-Type:" ++
  "         text/html\r\n\r\n<HTML><HEAD><TITLE>Method Not Implemented\r\n" ++
  "</TITLE></HEAD>\r\n<BODY>" ++
  "         <P>HTTP request method not supported.\r\n</BODY></HTML>\r\n"

def notFoundPage : List Byte := ascii <|
  "HTTP/1.0 200 OK\r\nServer: jdbhttpd/0.1.0\r\nContent-Type: text/html\r\n" ++
  "        \r\n<HTML><TITLE>Not Found</TITLE>\r\n<BODY><P>The server could not fulfill\r\n" ++
  "        your request because the resource specified\r\nis unavailable or nonexistent.\r\n" ++
  "</BODY></HTML>\r\n"

def headerPage : List Byte := ascii <|
  "HTTP/1.0 200 OK\r\nServer: jdbhttpd/0.1.0\r\nContent-Type: text/html\r\n\r\n"

/-- `p_buf->append(msg, strlen(msg))` -/
def appendPage (page : List Byte) : Method IOBuffer Unit := do
  let _ ← IOBuffer.appendBytes page

def unimplemented : Method IOBuffer Unit := appendPage unimplementedPage

def notFound : Method IOBuffer Unit := appendPage notFoundPage

def headers : Method IOBuffer Unit := appendPage headerPage

/-! ### Reading lines -/

/-- The loop of `get_line`, which advances the iterator and not `i`. -/
def getLineLoop {n : Nat} (size : Nat) :
    List Byte → CharArray n → Nat → Except Fault (CharArray n × Nat)
  | [], buf, i => .ok (buf, i)
  | char :: rest, buf, i =>
      if i < size then
        if char = newline then .ok (buf, i)
        else do getLineLoop size rest (← buf.store i char) i
      else .ok (buf, i)

/-- `get_line(buf, size)`: the array it leaves and its result. -/
def getLine {n : Nat} (http : Http) (buf : CharArray n) (size : Nat) :
    Except Fault (CharArray n × Nat) := do
  let (buf, i) ← getLineLoop size http.inBuffer buf 0
  let i := i + 1
  let buf ← buf.store i 0
  let i := i - 1
  return (buf, i)

/-- `while ((numchars > 0) && strcmp("\n", buf)) numchars = get_line(buf, sizeof(buf));` -/
def discardHeaders (http : Http) : Nat → CharArray 1024 → Nat → Except Fault Unit
  | 0, _, _ => .error .diverges
  | fuel + 1, buf, numchars =>
      if numchars = 0 then .ok ()
      else do
        if ← buf.strcmpEq [newline] then return ()
        else
          let (buf, numchars) ← getLine http buf 1024
          discardHeaders http fuel buf numchars

/-- `while (!feof(resource)) { append; fgets; }`, where `sizeof(buf)` is the
size of a pointer. -/
def catLoop : Nat → CharArray 1024 → InputStream → Method IOBuffer Unit
  | 0, _, _ => Method.ofExcept (.error .diverges)
  | fuel + 1, abuf, resource =>
      if resource.eof then pure ()
      else do
        let line ← Method.ofExcept abuf.string
        let _ ← IOBuffer.appendBytes line
        let (abuf, resource) ← Method.ofExcept (resource.fgets abuf 8)
        catLoop fuel abuf resource

def cat (env : HttpEnv) (resource : InputStream) : Method IOBuffer Unit := do
  let (abuf, resource) ← Method.ofExcept (resource.fgets env.stack.fileBuf 1024)
  catLoop env.fuel abuf resource

/-- `serve_file(filename, abuf)`. The stream is closed whether it was opened
or not. -/
def serveFile (env : HttpEnv) (http : Http) (filename : List Byte) : Method IOBuffer Unit := do
  let buf ← Method.ofExcept (env.stack.headerBuf.store 0 65)
  let buf ← Method.ofExcept (CharArray.store buf 1 0)
  Method.ofExcept (discardHeaders http env.fuel buf 1)
  match env.files.fopen filename with
  | none =>
      notFound
      Method.ofExcept (.error .nullPointer)
  | some resource =>
      headers
      cat env resource

/-! ### The request line -/

/-- `while (!ISspace(buf[i]) && (i < sizeof(method) - 1)) { method[i] = buf[i]; i++; }` -/
def copyMethod (buf : CharArray 1024) :
    Nat → CharArray 255 → Nat → Except Fault (CharArray 255 × Nat)
  | 0, _, _ => .error .diverges
  | fuel + 1, method, i => do
      let char ← buf.load i
      if !isspace char && i < 254 then copyMethod buf fuel (← method.store i char) (i + 1)
      else return (method, i)

/-- `while (ISspace(buf[j]) && (j < numchars)) j++;` -/
def skipSpaces (buf : CharArray 1024) (numchars : Nat) : Nat → Nat → Except Fault Nat
  | 0, _ => .error .diverges
  | fuel + 1, j => do
      if isspace (← buf.load j) && j < numchars then skipSpaces buf numchars fuel (j + 1)
      else return j

/-- `while (!ISspace(buf[j]) && (i < sizeof(url) - 1) && (j < numchars))
{ url[i] = buf[j]; i++; j++; }` -/
def copyUrl (buf : CharArray 1024) (numchars : Nat) :
    Nat → CharArray 255 → Nat → Nat → Except Fault (CharArray 255 × Nat × Nat)
  | 0, _, _, _ => .error .diverges
  | fuel + 1, url, i, j => do
      let char ← buf.load j
      if !isspace char && i < 254 && j < numchars then
        copyUrl buf numchars fuel (← url.store i char) (i + 1) (j + 1)
      else return (url, i, j)

/-- `while ((*query_string != '?') && (*query_string != '\0')) query_string++;` -/
def findQuery (url : CharArray 255) : Nat → Nat → Except Fault Nat
  | 0, _ => .error .diverges
  | fuel + 1, query => do
      let char ← url.load query
      if char != questionMark && char != 0 then findQuery url fuel (query + 1)
      else return query

/-- The method token: the array with its terminator and the index behind it. -/
def parseMethod (stack : Stack) (buf : CharArray 1024) : Except Fault (CharArray 255 × Nat) := do
  let (method, i) ← copyMethod buf 255 stack.method 0
  return (← method.store i 0, i)

/-- The URL token behind index `j`. -/
def parseUrl (stack : Stack) (buf : CharArray 1024) (numchars j : Nat) :
    Except Fault (CharArray 255) := do
  let j ← skipSpaces buf numchars 1025 j
  let (url, i, _) ← copyUrl buf numchars 255 stack.url 0 j
  url.store i 0

/-- Cut the URL of a GET at its first question mark; the index is that of
`query_string` and the flag what the cut does to `cgi`. -/
def splitQuery (url : CharArray 255) : Except Fault (CharArray 255 × Nat × Bool) := do
  let query ← findQuery url 256 0
  if (← url.load query) = questionMark then return (← url.store query 0, query + 1, true)
  else return (url, query, false)

/-- `sprintf(path, "htdocs%s", url)` and the index file of a trailing slash. -/
def resourcePath (stack : Stack) (url : CharArray 255) : Except Fault (CharArray 512) := do
  let path ← stack.path.storeString 0 (ascii "htdocs" ++ (← url.string))
  let length := (← path.string).length
  if (← path.load (length - 1)) = slash then path.strcat (ascii "index.html") else return path

def isDirectory (mode : UInt32) : Bool := mode &&& 0o170000 == 0o040000

def isExecutable (mode : UInt32) : Bool :=
  mode &&& 0o100 != 0 || mode &&& 0o010 != 0 || mode &&& 0o001 != 0

/-- `Http::write(abuf)`; the buffer is the object of the method. -/
def write (env : HttpEnv) (http : Http) : Method IOBuffer Int := do
  let (buf, numchars) ← Method.ofExcept (getLine http env.stack.buf 1024)
  let (method, j) ← Method.ofExcept (parseMethod env.stack buf)
  let isGet ← Method.ofExcept (method.strcasecmpEq (ascii "GET"))
  let isPost ← Method.ofExcept (method.strcasecmpEq (ascii "POST"))
  if !isGet && !isPost then
    unimplemented
    return -1
  let url ← Method.ofExcept (parseUrl env.stack buf numchars j)
  let (url, _, hasQuery) ← Method.ofExcept (if isGet then splitQuery url else .ok (url, 0, false))
  let path ← Method.ofExcept (resourcePath env.stack url)
  match env.files.stat (← Method.ofExcept path.string) with
  | none =>
      Method.ofExcept (discardHeaders http env.fuel buf numchars)
      notFound
  | some mode =>
      let path ← Method.ofExcept
        (if isDirectory mode then path.strcat (ascii "/index.html") else .ok path)
      let cgi := isPost || hasQuery || isExecutable mode
      -- execute_cgi is commented out, so both branches serve the file
      if !cgi then serveFile env http (← Method.ofExcept path.string)
      else serveFile env http (← Method.ofExcept path.string)
  return 1

/-- `Http::read(buf)`: the whole buffer replaces `_in_buffer`. -/
def read (http : Http) : Method IOBuffer Http := do
  let sta ← IOBuffer.pullDown (← get).size
  let size := (← get).size
  let tmp ← Method.ofExcept <|
    match sta with
    | some front =>
        if front.length < size.toNat then .error .outOfBounds else .ok (front.take size.toNat)
    | none => if size = 0 then .ok [] else .error .nullPointer
  let _ ← IOBuffer.consume (← get).size
  return { http with inBuffer := tmp }

end Http

end ZtHttp
