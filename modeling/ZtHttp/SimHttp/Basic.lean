import ZtHttp.Foundation.Decimal
import ZtHttp.Foundation.Schedule
import ZtHttp.Http.Line
import ZtHttp.Http.Request
import ZtHttp.SimHttp.Exchange

/-!
# The server that the handler was taken from

`accept_request` of simHttp serves one client from its request line to `close`.
It parses the line as `Http::write` does, but takes it off the socket, sends its
pages piece by piece and runs CGI programs. A request that cannot go on, because
the process is killed or waits, is told from one that returns.
-/

namespace ZtHttp.SimHttp

open Imperative Processes
open Transition.Lts (play)

/-- The client's socket: what `recv` still has to give, what was sent, and how
often it was closed. -/
structure Client where
  input : List Byte
  sent : List Byte
  closes : Nat
  deriving DecidableEq

/-- The local arrays of `accept_request` and of the functions that it calls, and
the `c` of `execute_cgi`, before they are written. `pageBuf` is the `buf` of the
functions that send a page. -/
structure Locals extends Stack where
  pageBuf : CharArray 1024
  cgiBuf : CharArray 1024
  c : Byte
  methEnv : CharArray 255
  queryEnv : CharArray 255
  lengthEnv : CharArray 255

/-- What the child behind `fork` has become: the program that `execl` started, or a
process in `exit`, which has still to write what was left in the buffer of its
standard output. -/
inductive Forked (σ : Type) where
  | program (state : σ)
  | exiting (unwritten : List Byte)
  deriving DecidableEq

/-- What `execute_cgi` finds in the system: whether the two `pipe` and the `fork`
succeed, what `execl` starts for a path and an environment (`none` if it fails),
and the order in which the two processes take their steps, where one that has to
wait lets its turn pass. The child has the server's buffer of standard output,
with what was not written yet. `overflown` is what becomes of a child that has
written past the end of an array. -/
structure Cgi (σ : Type) where
  pipeOutput : Bool
  pipeInput : Bool
  fork : Bool
  execl : List Byte → List (List Byte) → Option σ
  unwritten : List Byte
  overflown : Forked σ
  program : Program Byte σ
  capacity : Nat
  schedule : List Mover

/-- What one request finds outside its client. -/
structure Env (σ : Type) where
  locals : Locals
  files : FileSystem
  cgi : Cgi σ
  fuel : Nat

/-- How a request ends: `accept_request` returns, `SIGPIPE` kills the server, or
the parent of a CGI program waits. -/
inductive Ending where
  | returned
  | killed
  | waiting
  deriving DecidableEq

variable {σ : Type}

/-! ### Pages -/

def send (bytes : List Byte) : Method Client Unit :=
  modify fun client => { client with sent := client.sent ++ bytes }

def close : Method Client Unit :=
  modify fun client => { client with closes := client.closes + 1 }

/-- `sprintf(buf, text); send(client, buf, length, 0);` for each text, where
`part` gives the characters that the length covers. -/
def sendPage (part : CharArray 1024 → Except Fault (List Byte)) :
    List (List Byte) → CharArray 1024 → Method Client Unit
  | [], _ => pure ()
  | text :: rest, buf => do
      let buf ← Method.ofExcept (buf.storeString 0 text)
      send (← Method.ofExcept (part buf))
      sendPage part rest buf

/-- `sizeof(buf)` -/
def wholeArray (buf : CharArray 1024) : Except Fault (List Byte) := .ok buf.toList

def serverString : List Byte := ascii "Server: jdbhttpd/0.1.0\r\n"

def unimplementedTexts : List (List Byte) :=
  [ascii "HTTP/1.0 501 Method Not Implemented\r\n", serverString,
    ascii "Content-Type: text/html\r\n", ascii "\r\n",
    ascii "<HTML><HEAD><TITLE>Method Not Implemented\r\n", ascii "</TITLE></HEAD>\r\n",
    ascii "<BODY><P>HTTP request method not supported.\r\n", ascii "</BODY></HTML>\r\n"]

def notFoundTexts : List (List Byte) :=
  [ascii "HTTP/1.0 404 NOT FOUND\r\n", serverString, ascii "Content-Type: text/html\r\n",
    ascii "\r\n", ascii "<HTML><TITLE>Not Found</TITLE>\r\n",
    ascii "<BODY><P>The server could not fulfill\r\n",
    ascii "your request because the resource specified\r\n",
    ascii "is unavailable or nonexistent.\r\n", ascii "</BODY></HTML>\r\n"]

def headersTexts : List (List Byte) :=
  [ascii "HTTP/1.0 200 OK\r\n", serverString, ascii "Content-Type: text/html\r\n", ascii "\r\n"]

def cannotExecuteTexts : List (List Byte) :=
  [ascii "HTTP/1.0 500 Internal Server Error\r\n", ascii "Content-type: text/html\r\n",
    ascii "\r\n", ascii "<P>Error prohibited CGI execution.\r\n"]

def badRequestTexts : List (List Byte) :=
  [ascii "HTTP/1.0 400 BAD REQUEST\r\n", ascii "Content-type: text/html\r\n", ascii "\r\n",
    ascii "<P>Your browser sent a bad request, ",
    ascii "such as a POST without a Content-Length.\r\n"]

def unimplemented (locals : Locals) : Method Client Unit :=
  sendPage CharArray.string unimplementedTexts locals.pageBuf

def notFound (locals : Locals) : Method Client Unit :=
  sendPage CharArray.string notFoundTexts locals.pageBuf

def headers (locals : Locals) : Method Client Unit :=
  sendPage CharArray.string headersTexts locals.pageBuf

def cannotExecute (locals : Locals) : Method Client Unit :=
  sendPage CharArray.string cannotExecuteTexts locals.pageBuf

/-- The sends of `bad_request` have the size of the array. -/
def badRequest (locals : Locals) : Method Client Unit :=
  sendPage wholeArray badRequestTexts locals.pageBuf

/-! ### Files -/

/-- `get_line(client, buf, sizeof(buf))` -/
def getClientLine (buf : CharArray 1024) : Method Client (CharArray 1024 × Nat) := fun client =>
  match getLine 1024 1024 client.input buf with
  | .ok (line, input) => .ok line { client with input }
  | .error fault => .error fault client

/-- `while ((numchars > 0) && strcmp("\n", buf)) numchars = get_line(...);` -/
def discardHeaders : Nat → CharArray 1024 → Nat → Method Client Unit
  | 0, _, _ => Method.ofExcept (.error .diverges)
  | fuel + 1, buf, numchars =>
      if numchars = 0 then pure ()
      else do
        if ← Method.ofExcept (buf.strcmpEq [Http.newline]) then return ()
        else
          let (buf, numchars) ← getClientLine buf
          discardHeaders fuel buf numchars

/-- `buf[0] = 'A'; buf[1] = '\0';` -/
def startLine (buf : CharArray 1024) : Except Fault (CharArray 1024) := do
  CharArray.store (← buf.store 0 65) 1 0

/-- `while (!feof(resource)) { send; fgets; }` -/
def catLoop : Nat → CharArray 1024 → InputStream → Method Client Unit
  | 0, _, _ => Method.ofExcept (.error .diverges)
  | fuel + 1, buf, resource =>
      if resource.eof then pure ()
      else do
        send (← Method.ofExcept buf.string)
        let (buf, resource) ← Method.ofExcept (resource.fgets buf 1024)
        catLoop fuel buf resource

def cat (env : Env σ) (resource : InputStream) : Method Client Unit := do
  let (buf, resource) ← Method.ofExcept (resource.fgets env.locals.fileBuf 1024)
  catLoop env.fuel buf resource

/-- `serve_file(client, filename)`. The stream is closed whether it was opened or
not. -/
def serveFile (env : Env σ) (filename : List Byte) : Method Client Unit := do
  let buf ← Method.ofExcept (startLine env.locals.headerBuf)
  discardHeaders env.fuel buf 1
  match env.files.fopen filename with
  | none =>
      notFound env.locals
      Method.ofExcept (.error .nullPointer)
  | some resource =>
      headers env.locals
      cat env resource

/-! ### Programs -/

/-- `while ((numchars > 0) && strcmp("\n", buf)) { ... }` of a POST -/
def readLength : Nat → CharArray 1024 → Nat → Int → Method Client Int
  | 0, _, _, _ => Method.ofExcept (.error .diverges)
  | fuel + 1, buf, numchars, contentLength =>
      if numchars = 0 then pure contentLength
      else do
        if ← Method.ofExcept (buf.strcmpEq [Http.newline]) then return contentLength
        else
          let buf ← Method.ofExcept (buf.store 15 0)
          let contentLength ←
            if ← Method.ofExcept (buf.strcasecmpEq (ascii "Content-Length:")) then
              (atoi <$> Method.ofExcept (readString (buf.toList.drop 16)))
            else pure contentLength
          let (buf, numchars) ← getClientLine buf
          readLength fuel buf numchars contentLength

/-- `sprintf(array, text)` into an array of the child, which gives a variable of
its environment. -/
def sprintfEnv (array : CharArray 255) (text : List Byte) : Except Fault (List Byte) := do
  (← array.storeString 0 text).string

/-- The environment that the child puts together. -/
def childEnv (locals : Locals) (isGet : Bool) (method url : CharArray 255) (query : Nat)
    (contentLength : Int) : Except Fault (List (List Byte)) := do
  let methEnv ← sprintfEnv locals.methEnv (ascii "REQUEST_METHOD=" ++ (← method.string))
  if isGet then
    let query ← readString (url.toList.drop query)
    return [methEnv, ← sprintfEnv locals.queryEnv (ascii "QUERY_STRING=" ++ query)]
  else
    return [methEnv,
      ← sprintfEnv locals.lengthEnv (ascii "CONTENT_LENGTH=" ++ formatInt contentLength)]

/-- The child behind its status line. -/
def forked (program : Program Byte σ) : Program Byte (Forked σ)
  | .program state =>
      match program state with
      | .read next => .read fun item => .program (next item)
      | .write item next => .write item (.program next)
      | .exit => .exit
  | .exiting [] => .exit
  | .exiting (item :: rest) => .write item (.exiting rest)

/-- `execl(path, NULL); exit(0);` -/
def Cgi.execOrExit (cgi : Cgi σ) (path : List Byte) (environment : List (List Byte)) : Forked σ :=
  match cgi.execl path environment with
  | some state => .program state
  | none => .exiting cgi.unwritten

/-- The child from its arrays on. -/
def childStart (env : Env σ) (path : CharArray 512) (isGet : Bool) (method url : CharArray 255)
    (query : Nat) (contentLength : Int) : Forked σ :=
  match childEnv env.locals isGet method url query contentLength, path.string with
  | .ok environment, .ok path => env.cgi.execOrExit path environment
  | _, _ => env.cgi.overflown

def ParentPc.ending : ParentPc → Ending
  | .finished => .returned
  | .killed _ => .killed
  | .announcing _ | .receiving _ | .feeding _ | .relaying => .waiting

/-- `execute_cgi` behind `fork`. The body is passed on for a POST. -/
def exchange (env : Env σ) (isPost : Bool) (contentLength : Int) (start : Forked σ) :
    Method Client Ending := fun client =>
  let length := if isPost then contentLength.toNat else 0
  let last := play (Exchange.next (forked env.cgi.program) env.cgi.capacity) env.cgi.schedule
    (.opened length env.locals.c client.input start)
  .ok last.parent.ending
    { client with input := last.socket, sent := client.sent ++ last.sent }

/-- `execute_cgi(client, path, method, query_string)`. An index takes the place of
the pointer `query_string` into the URL. -/
def executeCgi (env : Env σ) (path : CharArray 512) (method url : CharArray 255) (query : Nat) :
    Method Client Ending := do
  let buf ← Method.ofExcept (startLine env.locals.cgiBuf)
  let isGet ← Method.ofExcept (method.strcasecmpEq (ascii "GET"))
  let isPost ← Method.ofExcept (method.strcasecmpEq (ascii "POST"))
  let contentLength ←
    if isGet then do
      discardHeaders env.fuel buf 1
      pure (-1)
    else if isPost then do
      let (buf, numchars) ← getClientLine buf
      readLength env.fuel buf numchars (-1)
    else pure (-1)
  if !isGet && isPost && contentLength = -1 then
    badRequest env.locals
    return .returned
  else if !env.cgi.pipeOutput || !env.cgi.pipeInput || !env.cgi.fork then
    cannotExecute env.locals
    return .returned
  else
    exchange env isPost contentLength
      (childStart env path isGet method url query contentLength)

/-! ### Requests -/

/-- `accept_request(arg)` -/
def acceptRequest (env : Env σ) : Method Client Ending := do
  let (buf, numchars) ← getClientLine env.locals.buf
  let (method, j) ← Method.ofExcept (Http.parseMethod env.locals.toStack buf)
  let isGet ← Method.ofExcept (method.strcasecmpEq (ascii "GET"))
  let isPost ← Method.ofExcept (method.strcasecmpEq (ascii "POST"))
  if !isGet && !isPost then
    unimplemented env.locals
    return .returned
  let url ← Method.ofExcept (Http.parseUrl env.locals.toStack buf numchars j)
  let (url, query, hasQuery) ←
    Method.ofExcept (if isGet then Http.splitQuery url else .ok (url, 0, false))
  let path ← Method.ofExcept (Http.resourcePath env.locals.toStack url)
  let ending ←
    match env.files.stat (← Method.ofExcept path.string) with
    | none => do
        discardHeaders env.fuel buf numchars
        notFound env.locals
        pure .returned
    | some mode => do
        let path ← Method.ofExcept
          (if Http.isDirectory mode then path.strcat (ascii "/index.html") else .ok path)
        let cgi := isPost || hasQuery || Http.isExecutable mode
        if !cgi then
          serveFile env (← Method.ofExcept path.string)
          pure .returned
        else executeCgi env path method url query
  if ending = .returned then close
  return ending

end ZtHttp.SimHttp
