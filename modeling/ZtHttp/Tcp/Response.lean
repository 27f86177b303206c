import ZtHttp.Tcp.Laws

/-!
# One request and its responses

`write` both generates the response and sends a window of it. A second `write`
that is to resume a partial send generates the response once more.
-/

namespace ZtHttp.TcpSocket

open Imperative

/-- The bytes that a series of `write(nullptr)` appends to `_sendBuffer`: for
each call what `collect` put behind the content that it found, up to a call
that does not return. -/
def appended : List (HttpEnv × SendResult) → TcpSocket → List Byte
  | [], _ => []
  | (env, kernel) :: rest, socket =>
      ((collect env .null).after socket).sendBuffer.content.drop
          socket.sendBuffer.content.length ++
        match write env kernel .null socket with
        | .ok _ after => appended rest after
        | .error _ _ => []

/-- A call without a send callback appends the response to what `_in_buffer`
holds, and returns with the same `_in_buffer`. -/
theorem appended_cons {socket : TcpSocket} (hconnected : socket.isConnected = true)
    (hslot : socket.slots.sendCall = none) (hcounted : socket.sendBuffer.Counted) (env : HttpEnv)
    (kernel : SendResult) (hbound : socket.sendBuffer.content.length + 206 < 2 ^ 31)
    (rest : List (HttpEnv × SendResult)) :
    ∃ after, appended ((env, kernel) :: rest) socket =
        socket.http.response env ++ appended rest after ∧
      after.isConnected = true ∧ after.slots.sendCall = none ∧ after.http = socket.http ∧
      after.sendBuffer.Counted ∧
      after.sendBuffer.content.length ≤ socket.sendBuffer.content.length + 206 := by
  have hsupply : supply env .null none socket.http = socket.http.response env := rfl
  have hlength := Http.response_length env socket.http
  have hproper : IOBuffer.ChunkPtr.null.Proper := trivial
  obtain ⟨full, called, hcollect, hfull, hcontent, -⟩ := collect_spec socket hcounted env
    hproper none hslot (by rw [hsupply]; omega)
  obtain ⟨ret, buffer, status, called', hwrite, hbuffer, hbytes, -⟩ :=
    write_spec hconnected hcounted env kernel hproper none hslot rfl
      (by rw [List.length_append, hsupply]; omega)
  obtain ⟨after, hreturns, hopen, hempty, hhttp, hsame⟩ : ∃ after,
      write env kernel .null socket = .ok ret after ∧ after.isConnected = true ∧
        after.slots.sendCall = none ∧ after.http = socket.http ∧ after.sendBuffer = buffer :=
    ⟨_, hwrite, hconnected, rfl, rfl, rfl⟩
  refine ⟨after, ?_, hopen, hempty, hhttp, hsame ▸ hbuffer, ?_⟩
  · rw [appended, Method.after_ok hcollect, hcontent, List.drop_left, hsupply, hreturns]
  · have hlengths := congrArg List.length hbytes
    rw [List.length_append, List.length_append, hsupply] at hlengths
    rw [hsame]
    omega

/-- A series of `write(nullptr)` on one request appends its response exactly
once if and only if it is a single call, whatever the sends leave over. -/
theorem appended_once_iff {socket : TcpSocket} (hconnected : socket.isConnected = true)
    (hslot : socket.slots.sendCall = none) (hcounted : socket.sendBuffer.Counted)
    (hbound : socket.sendBuffer.content.length + 2 * 206 < 2 ^ 31) (env : HttpEnv)
    (kernel : SendResult) (rest : List (HttpEnv × SendResult)) :
    appended ((env, kernel) :: rest) socket = socket.http.response env ↔ rest = [] := by
  obtain ⟨after, happended, hopen, hempty, hhttp, hafter, hgrows⟩ :=
    appended_cons hconnected hslot hcounted env kernel (by omega) rest
  rw [happended]
  constructor
  · intro honce
    have hnone := List.append_right_eq_self.mp honce
    cases rest with
    | nil => rfl
    | cons second rest =>
        -- the second call finds the same request and answers it again
        obtain ⟨last, hsecond, -⟩ :=
          appended_cons hopen hempty hafter second.1 second.2 (by omega) rest
        have hlength := congrArg List.length (hsecond.symm.trans hnone)
        rw [List.length_append, Http.response_length, List.length_nil] at hlength
        omega
  · intro hsingle
    rw [hsingle, appended, List.append_nil]

/-- A fresh socket that has read the line `GET /`. -/
def asked : TcpSocket :=
  (read (.data ⟨[71, 69, 84, 32, 47, 10], by decide⟩)).after fresh

theorem asked_counted : asked.sendBuffer.Counted := IOBuffer.counted_empty

/-- The kernel takes one byte of the only window. -/
theorem singleWrite_once :
    appended [(.blank, .upTo 1)] asked = asked.http.response .blank :=
  (appended_once_iff rfl rfl asked_counted (by decide) .blank (.upTo 1) []).mpr rfl

/-- The second call, made because the first left 205 bytes over, appends the
response again. -/
theorem resumedWrite_twice :
    asked.http.inBuffer = [71, 69, 84, 32, 47, 10] ∧
      appended [(.blank, .upTo 1), (.blank, .upTo 1)] asked =
        asked.http.response .blank ++ asked.http.response .blank ∧
      appended [(.blank, .upTo 1), (.blank, .upTo 1)] asked ≠ asked.http.response .blank := by
  obtain ⟨after, hfirst, hopen, hempty, hhttp, hafter, hgrows⟩ :=
    appended_cons rfl rfl asked_counted .blank (.upTo 1) (by decide) [(.blank, .upTo 1)]
  have hlength : asked.sendBuffer.content.length = 0 := rfl
  obtain ⟨last, hsecond, -⟩ := appended_cons hopen hempty hafter .blank (.upTo 1) (by omega) []
  rw [hsecond, hhttp, appended, List.append_nil] at hfirst
  refine ⟨rfl, hfirst, ?_⟩
  rw [hfirst]
  intro honce
  have hlengths := congrArg List.length honce
  rw [List.length_append, Http.response_length] at hlengths
  omega

end ZtHttp.TcpSocket
