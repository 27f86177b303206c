import Mathlib.Algebra.Order.Ring.Nat
import ZtHttp.Foundation.Method

/-!
# The chunked byte buffer

`IOBuffer` holds a stream of bytes in a list of chunks and counts the bytes
apart, in `_size`. An `int` that the code compares or adds as an `unsigned` is
kept as its 32-bit pattern.
-/

namespace ZtHttp

open Imperative

abbrev Byte := UInt8

/-- One `vector<char>` of the buffer. -/
abbrev Chunk := List Byte

/-- `IOBuffer`: `_chunks` and `_size`. -/
structure IOBuffer where
  chunks : List Chunk
  size : UInt32
  deriving DecidableEq, Repr

namespace IOBuffer

/-- The buffer that the default constructor builds. -/
def empty : IOBuffer := ⟨[], 0⟩

/-- The bytes of the stream, in order. -/
def content (buffer : IOBuffer) : List Byte := buffer.chunks.flatten

/-- The `IOBufferAbstractClass*` handed to `append`: null, the target itself,
or a buffer distinct from it. -/
inductive ChunkPtr where
  | null
  | self
  | other (buffer : IOBuffer)
  deriving DecidableEq, Repr

/-- `for(auto tmp:echunk->_chunks) _chunks.push_back(tmp);`. When the source is
the target, every chunk pushed is also one more chunk to walk. -/
def pushChunks (aliased : Bool) : Nat → List Chunk → List Chunk → Except Fault (List Chunk)
  | _, [], target => .ok target
  | 0, _ :: _, _ => .error .diverges
  | fuel + 1, tmp :: rest, target =>
      pushChunks aliased fuel (if aliased then rest ++ [tmp] else rest) (target ++ [tmp])

/-- `append(IOBufferAbstractClass*)`. The walk is granted as many iterations as
the source has chunks at the start: all that a walk over a distinct buffer
takes, and none of the walks over the target itself ends in any number. -/
def appendChunk (chunk : ChunkPtr) : Method IOBuffer Bool := fun buffer =>
  match chunk with
  | .null => .ok true buffer
  | .other echunk =>
      match pushChunks false echunk.chunks.length echunk.chunks buffer.chunks with
      | .ok chunks => .ok true ⟨chunks, buffer.size + echunk.size⟩
      | .error fault => .error fault buffer
  | .self =>
      match pushChunks true buffer.chunks.length buffer.chunks buffer.chunks with
      | .ok chunks => .ok true ⟨chunks, buffer.size + buffer.size⟩
      | .error fault => .error fault buffer

/-- `append(const T* pT, unsigned num)`, where `memory` is what lies at `pT`.
The product is a `size_t`, `len` its lower half read as an `int`, and the count
is raised before the vector is built. -/
def append (sizeofT : UInt64) (memory : List Byte) (num : UInt32) : Method IOBuffer Bool :=
  fun buffer =>
    let len := (sizeofT * num.toUInt64).toUInt32
    let counted : IOBuffer := { buffer with size := buffer.size + len }
    -- a negative `len` puts `cpT+len` before `cpT`
    if 2 ^ 31 ≤ len.toNat then .error .lengthError counted
    else if memory.length < len.toNat then .error .outOfBounds counted
    else .ok true { counted with chunks := buffer.chunks ++ [memory.take len.toNat] }

/-- `append(data, len)` of a `char` array handed over with its length. -/
def appendBytes (data : List Byte) : Method IOBuffer Bool :=
  append 1 data (UInt32.ofNat data.length)

/-- The loop of `pullDown`: the chunk behind the front is merged into it while
`len` is below `num`. -/
def mergeLoop (num : UInt32) : UInt32 → Chunk → List Chunk → Except Fault (List Chunk)
  | len, front, [] => if len < num then .error .pastEnd else .ok [front]
  | len, front, chunk :: rest =>
      if len < num then
        mergeLoop num (len + UInt32.ofNat chunk.length) (front ++ chunk) rest
      else .ok (front :: chunk :: rest)

/-- `pullDown(unsigned num)`. The pointer returned is to the first byte of the
front chunk, which stands for it here; null is `none`. -/
def pullDown (num : UInt32) : Method IOBuffer (Option Chunk) := fun buffer =>
  if buffer.size < num ∨ buffer.size = 0 then .ok none buffer
  else
    match buffer.chunks with
    | [] => .error .pastEnd buffer
    | front :: rest =>
        match mergeLoop num (UInt32.ofNat front.length) front rest with
        | .error fault => .error fault buffer
        | .ok chunks =>
            match chunks with
            | (byte :: bytes) :: _ => .ok (some (byte :: bytes)) { buffer with chunks }
            | _ => .error .outOfRange { buffer with chunks }

/-- `consume(unsigned num)`, which looks at the front chunk only. -/
def consume (num : UInt32) : Method IOBuffer Bool := fun buffer =>
  match buffer.chunks with
  | [] => .error .pastEnd buffer
  | front :: rest =>
      let siz := UInt32.ofNat front.length
      if siz < num ∨ siz = 0 then .ok false buffer
      else if siz = num then .ok true ⟨rest, buffer.size - num⟩
      else .ok true ⟨front.drop num.toNat :: rest, buffer.size - num⟩

end IOBuffer

end ZtHttp
