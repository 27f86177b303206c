import Mathlib.Data.List.Basic
import ZtHttp.Tcp.Laws

/-!
# Requests in pieces

`Http::read` swaps what it is handed into `_in_buffer` and drops what was
there. A request that the kernel delivers in one piece survives; of a longer
series of pieces only the last one does.
-/

namespace ZtHttp.TcpSocket

open Imperative

/-- One call of `read` for each piece that `::recv` delivers. -/
def runReads : List Piece → Method TcpSocket Unit
  | [] => pure ()
  | piece :: rest => do
      let _ ← read (.data piece)
      runReads rest

/-- One `read` on a socket without a receive callback: what was buffered and
the new piece replace the input of the `Http` object. -/
theorem read_piece {socket : TcpSocket} (hconnected : socket.isConnected = true)
    (hcall : socket.slots.recvCall = none) (hcounted : socket.recvBuffer.Counted)
    (hbound : socket.recvBuffer.content.length + 1024 < 2 ^ 31) (piece : Piece) :
    ∃ ret after, read (.data piece) socket = .ok ret after ∧ after.isConnected = true ∧
      after.slots.recvCall = none ∧ after.recvBuffer.Counted ∧ after.recvBuffer.content = [] ∧
      after.http.inBuffer = socket.recvBuffer.content ++ piece.1 := by
  have hhanded : socket.handed (.data piece) none =
      socket.recvBuffer.concat (IOBuffer.empty.push piece.1) := rfl
  have hchunks : (socket.handed (.data piece) none).chunks ≠ [] := by
    simp [hhanded, IOBuffer.concat, IOBuffer.push]
  obtain ⟨status, drained, called, hread, hdrained, hnil, _⟩ :=
    read_spec hconnected hcounted hbound (.data piece) none hcall hchunks
  refine ⟨_, _, hread, hconnected, rfl, hdrained, hnil, ?_⟩
  simp [hhanded]

/-- What a series of reads leaves in the input of the `Http` object: nothing
but the last piece, with what was buffered before the first one. -/
def survivor (socket : TcpSocket) : List Piece → List Byte
  | [] => socket.http.inBuffer
  | [piece] => socket.recvBuffer.content ++ piece.1
  | _ :: second :: rest => (second :: rest).getLast (List.cons_ne_nil _ _)

/-- The series of reads returns and leaves the survivor. The induction is on
the pieces, each read emptying the receive buffer for the next. -/
theorem runReads_survivor {socket : TcpSocket} (hconnected : socket.isConnected = true)
    (hcall : socket.slots.recvCall = none) (hcounted : socket.recvBuffer.Counted)
    (hbound : socket.recvBuffer.content.length + 1024 < 2 ^ 31) (pieces : List Piece) :
    ∃ after, runReads pieces socket = .ok () after ∧
      after.http.inBuffer = socket.survivor pieces := by
  induction pieces generalizing socket with
  | nil => exact ⟨socket, rfl, rfl⟩
  | cons piece rest ih =>
      obtain ⟨ret, middle, hread, hconnected', hcall', hcounted', hnil, hinput⟩ :=
        read_piece hconnected hcall hcounted hbound piece
      obtain ⟨after, hrest, hsurvivor⟩ :=
        ih hconnected' hcall' hcounted' (by rw [hnil]; decide)
      refine ⟨after, by rw [runReads, Method.bind_ok hread, hrest], ?_⟩
      rw [hsurvivor]
      -- only a piece that is the last one is still in the input at the end
      match rest with
      | [] => exact hinput
      | [second] => simp [survivor, hnil]
      | second :: third :: rest => simp [survivor]

/-- The input after one read per piece is the whole request exactly when there
was at most one piece and nothing was buffered before. -/
theorem runReads_whole_iff {socket : TcpSocket} (hconnected : socket.isConnected = true)
    (hcall : socket.slots.recvCall = none) (hcounted : socket.recvBuffer.Counted)
    (hbound : socket.recvBuffer.content.length + 1024 < 2 ^ 31) (pieces : List Piece) :
    (∃ after, runReads pieces socket = .ok () after ∧
        after.http.inBuffer = pieces.flatMap Subtype.val) ↔
      (pieces = [] ∧ socket.http.inBuffer = []) ∨
        (pieces.length = 1 ∧ socket.recvBuffer.content = []) := by
  obtain ⟨after, hrun, hsurvivor⟩ := runReads_survivor hconnected hcall hcounted hbound pieces
  have hwhole : (∃ after, runReads pieces socket = .ok () after ∧
      after.http.inBuffer = pieces.flatMap Subtype.val) ↔
      socket.survivor pieces = pieces.flatMap Subtype.val := by
    rw [← hsurvivor, hrun]
    constructor
    · rintro ⟨other, hother, hinput⟩
      cases hother
      exact hinput
    · exact fun hinput => ⟨after, rfl, hinput⟩
  rw [hwhole]
  match pieces with
  | [] => simp [survivor]
  | [piece] => simp [survivor]
  | first :: second :: rest =>
      -- the pieces before the last one are not empty, so the last is shorter
      refine iff_of_false ?_ (by simp)
      intro hlast
      have hsplit := congrArg (List.flatMap Subtype.val)
        (List.dropLast_append_getLast (List.cons_ne_nil second rest))
      have hlengths := congrArg List.length hsplit
      have hlength := congrArg List.length hlast
      have hfirst := List.length_pos_iff.mpr first.2.1
      rw [survivor, List.flatMap_cons, List.length_append] at hlength
      rw [List.flatMap_append, List.length_append, List.flatMap_singleton] at hlengths
      omega

def pieceG : Piece := ⟨[71], by decide⟩
def pieceET : Piece := ⟨[69, 84], by decide⟩

theorem onePiece_whole_iff :
    (∃ after, runReads [pieceG] fresh = .ok () after ∧
        after.http.inBuffer = [pieceG].flatMap Subtype.val) ↔
      ([pieceG] = [] ∧ fresh.http.inBuffer = []) ∨
        ([pieceG].length = 1 ∧ fresh.recvBuffer.content = []) :=
  runReads_whole_iff rfl rfl IOBuffer.counted_empty (by decide) [pieceG]

/-- `GET` in two pieces: the first one is lost. -/
theorem twoPieces_lost :
    ∃ after, runReads [pieceG, pieceET] fresh = .ok () after ∧
      after.http.inBuffer = [69, 84] ∧
      after.http.inBuffer ≠ [pieceG, pieceET].flatMap Subtype.val :=
  ⟨_, rfl, rfl, by decide⟩

end ZtHttp.TcpSocket
