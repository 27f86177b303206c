import ZtHttp.Foundation.Fifo
import ZtHttp.IOBuffer.Laws

/-!
# The buffer is a queue of bytes

Callers see a buffer through its five operations. Every run of permitted calls
is a run of a first-in first-out queue whose state is the content alone: the
shape of the chunk list, which `pullDown` and `consume` change, shows in no
reply beyond the pointer.
-/

namespace ZtHttp.IOBuffer

open Imperative Transition

/-- A call of a public operation. -/
inductive Call where
  | append (data : List Byte)
  | appendBuffer (other : IOBuffer)
  | pullDown (num : UInt32)
  | consume (num : UInt32)
  | size
  deriving DecidableEq, Repr

/-- What the caller gets back. -/
inductive Reply where
  | done (result : Bool)
  | pointer (front : Option Chunk)
  | count (size : UInt32)
  deriving DecidableEq, Repr

def Call.exec : Call → Method IOBuffer Reply
  | .append data => Reply.done <$> appendBytes data
  | .appendBuffer other => Reply.done <$> appendChunk (.other other)
  | .pullDown num => Reply.pointer <$> IOBuffer.pullDown num
  | .consume num => Reply.done <$> IOBuffer.consume num
  | .size => (fun buffer => .count buffer.size) <$> get

/-- The bytes that a call appends. -/
def Call.bytes : Call → Nat
  | .append data => data.length
  | .appendBuffer other => other.content.length
  | _ => 0

/-- What the caller of `consume` and of `pullDown(0)` has to make sure of. -/
def Call.Permitted (buffer : IOBuffer) : Call → Prop
  | .consume _ => buffer.chunks ≠ []
  | .pullDown num => num = 0 → buffer.front ≠ [] ∨ buffer.size = 0
  | _ => True

instance (buffer : IOBuffer) : DecidablePred (Call.Permitted buffer)
  | .append _ | .appendBuffer _ | .size => isTrue trivial
  | .consume _ => inferInstanceAs (Decidable (_ ≠ _))
  | .pullDown _ => inferInstanceAs (Decidable (_ → _))

/-- The bytes appended in the course of a trace. -/
def appended (trace : List (Call × Reply)) : Nat :=
  (trace.map fun entry => entry.1.bytes).sum

/-- The finite sequences of permitted calls on a fresh buffer, with the buffer
they end in. A buffer appended to another comes from such a sequence itself. -/
inductive Run : List (Call × Reply) → IOBuffer → Prop
  | fresh : Run [] empty
  | call {trace : List (Call × Reply)} {buffer next : IOBuffer} {call : Call} {reply : Reply}
      (hrun : Run trace buffer) (hown : ∀ other, call ≠ .appendBuffer other)
      (hpermitted : call.Permitted buffer) (hbound : appended trace + call.bytes < 2 ^ 31)
      (hexec : call.exec buffer = .ok reply next) : Run (trace ++ [(call, reply)]) next
  | appendBuffer {trace built : List (Call × Reply)} {buffer other next : IOBuffer}
      {reply : Reply} (hrun : Run trace buffer) (hother : Run built other)
      (hbound : appended trace + other.content.length < 2 ^ 31)
      (hexec : (Call.appendBuffer other).exec buffer = .ok reply next) :
      Run (trace ++ [(.appendBuffer other, reply)]) next

/-- What a call with its reply means for the queue that holds `content`. -/
def queueEvent (content : List Byte) : Call × Reply → Option (Fifo.Event Byte)
  | (.append data, .done true) => some (.push data)
  | (.appendBuffer other, .done true) => some (.push other.content)
  | (.pullDown _, .pointer _) => some .idle
  | (.consume num, .done true) =>
      if num.toNat ≤ content.length then some (.pop (content.take num.toNat)) else none
  | (.consume _, .done false) => some .idle
  | (.size, .count size) => if size.toNat = content.length then some .idle else none
  | _ => none

/-- The abstract byte queue, under the calls and replies of the buffer. -/
def byteQueue : Lts (List Byte) (Call × Reply) where
  init content := content = []
  step content entry next :=
    ∃ event, queueEvent content entry = some event ∧ Fifo.Step content event next

theorem map_ok {σ α β : Type} {method : Method σ α} {f : α → β} {object next : σ} {value : α}
    (hmethod : method object = .ok value next) : (f <$> method) object = .ok (f value) next := by
  simp only [Functor.map, EStateM.map, hmethod]

/-- One permitted call on a counted buffer: it returns, it is a step of the
queue, and it keeps the count. -/
theorem exec_spec {buffer : IOBuffer} (hcounted : buffer.Counted) (call : Call)
    (hother : ∀ other, call = .appendBuffer other → other.Counted)
    (hpermitted : call.Permitted buffer)
    (hbound : buffer.content.length + call.bytes < 2 ^ 31) :
    ∃ reply next, call.exec buffer = .ok reply next ∧ next.Counted ∧
      byteQueue.step buffer.content (call, reply) next.content ∧
      next.content.length ≤ buffer.content.length + call.bytes := by
  cases call with
  | append data =>
      simp only [Call.bytes] at hbound
      refine ⟨_, _, map_ok (appendBytes_eq buffer data (by omega)), hcounted.push hbound,
        ⟨_, rfl, ?_⟩, by simp [Call.bytes]⟩
      rw [content_push]
      exact .push _ _
  | appendBuffer other =>
      refine ⟨_, _, map_ok (appendChunk_other buffer other),
        hcounted.concat (hother other rfl) hbound, ⟨_, rfl, ?_⟩, by simp [Call.bytes]⟩
      rw [content_concat]
      exact .push _ _
  | pullDown num =>
      by_cases hrefused : buffer.size < num ∨ buffer.size = 0
      · exact ⟨_, _, map_ok (pullDown_refused hrefused), hcounted, ⟨_, rfl, .idle _⟩,
          Nat.le_add_right _ _⟩
      · simp only [not_or, UInt32.not_lt] at hrefused
        have hnum := UInt32.le_iff_toNat_le.mp hrefused.1
        rw [hcounted.size_eq] at hnum
        obtain ⟨front, rest, hpull, hbytes, _⟩ := pullDown_served hcounted num hrefused.2 hnum
          fun hzero => (hpermitted hzero).resolve_right hrefused.2
        have hsame : content ⟨front :: rest, buffer.size⟩ = buffer.content := by simpa using hbytes
        refine ⟨_, _, map_ok hpull, hcounted.rechunk hsame, ⟨_, rfl, ?_⟩, ?_⟩
        · rw [hsame]
          exact .idle _
        · simp only [hsame]
          exact Nat.le_add_right _ _
  | consume num =>
      by_cases hrefused : buffer.front.length < num.toNat ∨ buffer.front = []
      · exact ⟨_, _, map_ok (consume_refused hcounted hpermitted hrefused), hcounted,
          ⟨_, rfl, .idle _⟩, Nat.le_add_right _ _⟩
      · simp only [not_or, Nat.not_lt] at hrefused
        obtain ⟨next, hconsume, hnext, hbytes⟩ := consume_granted hcounted num hrefused.1 hrefused.2
        have hfits : num.toNat ≤ buffer.content.length := by
          cases hchunks : buffer.chunks with
          | nil => exact absurd hchunks hpermitted
          | cons front rest =>
              simp only [IOBuffer.front, hchunks, List.headD_cons] at hrefused
              simp only [content, hchunks, List.flatten_cons, List.length_append]
              omega
        refine ⟨_, _, map_ok hconsume, hnext, ⟨_, if_pos hfits, ?_⟩, ?_⟩
        · have hstep := Fifo.Step.pop next.content (buffer.content.take num.toNat)
          rwa [← hbytes] at hstep
        · have hlength := congrArg List.length hbytes
          rw [List.length_append] at hlength
          omega
  | size =>
      exact ⟨_, _, map_ok rfl, hcounted, ⟨_, if_pos hcounted.size_eq, .idle _⟩,
        Nat.le_add_right _ _⟩

theorem appended_append (trace : List (Call × Reply)) (call : Call) (reply : Reply) :
    appended (trace ++ [(call, reply)]) = appended trace + call.bytes := by
  simp [appended]

/-- Every buffer that a run ends in is counted, and holds no more than was
appended; its trace is a run of the queue. -/
theorem Run.sound {trace : List (Call × Reply)} {buffer : IOBuffer} (hrun : Run trace buffer) :
    buffer.Counted ∧ buffer.content.length ≤ appended trace ∧
      byteQueue.Run [] trace buffer.content := by
  induction hrun with
  | fresh => exact ⟨counted_empty, Nat.le_refl 0, .nil _⟩
  | @call trace buffer next call reply hrun hown hpermitted hbound hexec ih =>
      obtain ⟨hcounted, hlength, hqueue⟩ := ih
      obtain ⟨reply', next', hexec', hnext, hstep, hgrow⟩ := exec_spec hcounted call
        (fun other heq => absurd heq (hown other)) hpermitted (by omega)
      -- the call is a function: the run's reply and buffer are the ones just found
      obtain ⟨rfl, rfl⟩ := EStateM.Result.ok.inj (hexec.symm.trans hexec')
      rw [appended_append]
      exact ⟨hnext, by omega, hqueue.trans (.cons hstep (.nil _))⟩
  | @appendBuffer trace built buffer other next reply hrun hother hbound hexec ih ihother =>
      obtain ⟨hcounted, hlength, hqueue⟩ := ih
      have hbytes : (Call.appendBuffer other).bytes = other.content.length := rfl
      obtain ⟨reply', next', hexec', hnext, hstep, hgrow⟩ := exec_spec hcounted
        (.appendBuffer other) (fun _ heq => Call.appendBuffer.inj heq ▸ ihother.1) trivial
        (by omega)
      obtain ⟨rfl, rfl⟩ := EStateM.Result.ok.inj (hexec.symm.trans hexec')
      rw [appended_append]
      exact ⟨hnext, by omega, hqueue.trans (.cons hstep (.nil _))⟩

/-- The buffer refines the queue: the trace of every run is one of the queue,
`size()` is the length of the content, and every further permitted call returns
and is a step of the queue again. -/
theorem run_refines_byteQueue {trace : List (Call × Reply)} {buffer : IOBuffer}
    (hrun : Run trace buffer) :
    byteQueue.Run [] trace buffer.content ∧ buffer.size.toNat = buffer.content.length ∧
      ∀ call : Call, call.Permitted buffer →
        (∀ other, call = .appendBuffer other → ∃ built, Run built other) →
        appended trace + call.bytes < 2 ^ 31 →
        ∃ reply next, call.exec buffer = .ok reply next ∧
          byteQueue.step buffer.content (call, reply) next.content ∧
          next.size.toNat = next.content.length := by
  obtain ⟨hcounted, hlength, hqueue⟩ := hrun.sound
  refine ⟨hqueue, hcounted.size_eq, ?_⟩
  intro call hpermitted hother hbound
  obtain ⟨reply, next, hexec, hnext, hstep, _⟩ := exec_spec hcounted call
    (fun other heq => (hother other heq).elim fun _ hbuilt => hbuilt.sound.1) hpermitted (by omega)
  exact ⟨reply, next, hexec, hstep, hnext.size_eq⟩

/-- The unit test: `"test1"`, a buffer with `"test2"`, `"test3"` with its NUL,
then six bytes pulled down and consumed. -/
def unitTestTrace : List (Call × Reply) :=
  [(.append [116, 101, 115, 116, 49], .done true),
    (.appendBuffer ⟨[[116, 101, 115, 116, 50]], 5⟩, .done true),
    (.append [116, 101, 115, 116, 51, 0], .done true),
    (.pullDown 6, .pointer (some [116, 101, 115, 116, 49, 116, 101, 115, 116, 50])),
    (.consume 6, .done true)]

def unitTestBuffer : IOBuffer := ⟨[[101, 115, 116, 50], [116, 101, 115, 116, 51, 0]], 10⟩

theorem unitTest_run : Run unitTestTrace unitTestBuffer := by
  have hother : Run [(.append [116, 101, 115, 116, 50], .done true)]
      ⟨[[116, 101, 115, 116, 50]], 5⟩ :=
    .call .fresh nofun (by decide) (by decide) rfl
  have h1 : Run (unitTestTrace.take 1) ⟨[[116, 101, 115, 116, 49]], 5⟩ :=
    .call .fresh nofun (by decide) (by decide) rfl
  have h2 : Run (unitTestTrace.take 2)
      ⟨[[116, 101, 115, 116, 49], [116, 101, 115, 116, 50]], 10⟩ :=
    .appendBuffer h1 hother (by decide) rfl
  have h3 : Run (unitTestTrace.take 3)
      ⟨[[116, 101, 115, 116, 49], [116, 101, 115, 116, 50], [116, 101, 115, 116, 51, 0]], 16⟩ :=
    .call h2 nofun (by decide) (by decide) rfl
  have h4 : Run (unitTestTrace.take 4)
      ⟨[[116, 101, 115, 116, 49, 116, 101, 115, 116, 50], [116, 101, 115, 116, 51, 0]], 16⟩ :=
    .call h3 nofun (by decide) (by decide) rfl
  exact .call h4 nofun (by decide) (by decide) rfl

theorem unitTest_refines_byteQueue :
    byteQueue.Run [] unitTestTrace unitTestBuffer.content ∧
      unitTestBuffer.size.toNat = unitTestBuffer.content.length :=
  ⟨(run_refines_byteQueue unitTest_run).1, (run_refines_byteQueue unitTest_run).2.1⟩

end ZtHttp.IOBuffer
