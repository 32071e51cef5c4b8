import AnythingTool.Library.CString

/-!
# Writing a response to a socket

`anything_transport_write_response` writes until the whole response is taken. A call of
`write` may take a part of what it is given, or nothing; when the other side has closed the
connection it does not return at all, for the process does not handle the signal that comes
with it. What has been sent is always a beginning of the response, and all of it when no call
has failed, however the calls have cut it.
-/

namespace AnythingTool

open CText

/-- How a call of `write` ends. Behind a closed connection the process is killed. -/
inductive WriteResult
  | taken (n : ℕ)
  | interrupted
  | failed
  | brokenPipe
deriving DecidableEq

/-- How the write loop ends. -/
inductive WriteEnd
  | complete
  | failed
  | killed
deriving DecidableEq

/-- The bytes that were taken, and how the loop has ended. -/
structure Sent where
  bytes : Bytes
  ending : WriteEnd
deriving DecidableEq

/-- The loop of `anything_transport_write_response` in front of what is still to be written.
Behind the calls everything is taken. -/
def anythingTransportWriteResponse (response : Bytes) : List WriteResult → Sent
  | [] => ⟨response, .complete⟩
  | call :: calls =>
      if response = [] then ⟨[], .complete⟩
      else
        match call with
        | .interrupted => anythingTransportWriteResponse response calls
        | .failed => ⟨[], .failed⟩
        | .brokenPipe => ⟨[], .killed⟩
        | .taken n =>
            let rest := anythingTransportWriteResponse (response.drop n) calls
            ⟨response.take n ++ rest.bytes, rest.ending⟩

/-- No call fails, and none meets a closed connection. -/
def WriteResult.Succeeds : WriteResult → Prop
  | .taken _ => True
  | .interrupted => True
  | _ => False

section Sending

variable (response : Bytes) (calls : List WriteResult)

/-- What has been sent, and what is left, are the response. The loop is complete exactly when
nothing is left. -/
theorem writeResponse_split : ∃ rest,
    response = (anythingTransportWriteResponse response calls).bytes ++ rest ∧
      ((anythingTransportWriteResponse response calls).ending = .complete ↔ rest = []) := by
  induction calls generalizing response with
  | nil => exact ⟨[], by simp [anythingTransportWriteResponse]⟩
  | cons call calls ih =>
      rw [anythingTransportWriteResponse.eq_def]
      by_cases hempty : response = []
      · simp only [if_pos hempty]
        exact ⟨[], by simp [hempty]⟩
      simp only [if_neg hempty]
      cases call with
      | interrupted => exact ih response
      | failed => exact ⟨response, by simp [hempty]⟩
      | brokenPipe => exact ⟨response, by simp [hempty]⟩
      | taken n =>
          obtain ⟨rest, hrest, hend⟩ := ih (response.drop n)
          refine ⟨rest, ?_, hend⟩
          rw [List.append_assoc, ← hrest, List.take_append_drop]

theorem writeResponse_isPrefix :
    (anythingTransportWriteResponse response calls).bytes <+: response := by
  obtain ⟨rest, hrest, -⟩ := writeResponse_split response calls
  exact ⟨rest, hrest.symm⟩

theorem writeResponse_complete_iff :
    (anythingTransportWriteResponse response calls).ending = .complete ↔
      (anythingTransportWriteResponse response calls).bytes = response := by
  obtain ⟨rest, hrest, hend⟩ := writeResponse_split response calls
  rw [hend]
  constructor
  · intro hnil
    rw [hnil, List.append_nil] at hrest
    exact hrest.symm
  · intro hall
    rw [hall] at hrest
    exact List.self_eq_append_right.mp hrest

theorem writeResponse_of_succeeds (h : ∀ call ∈ calls, call.Succeeds) :
    anythingTransportWriteResponse response calls = ⟨response, .complete⟩ := by
  induction calls generalizing response with
  | nil => rfl
  | cons call calls ih =>
      have hcalls : ∀ call ∈ calls, call.Succeeds :=
        fun call hcall => h call (List.mem_cons_of_mem _ hcall)
      have hcall := h call List.mem_cons_self
      rw [anythingTransportWriteResponse.eq_def]
      by_cases hempty : response = []
      · simp only [hempty, if_true]
      simp only [if_neg hempty]
      cases call with
      | interrupted => exact ih response hcalls
      | failed => cases hcall
      | brokenPipe => cases hcall
      | taken n => simp only [ih _ hcalls, List.take_append_drop]

end Sending

end AnythingTool
