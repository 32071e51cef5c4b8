import AnythingTool.Rpc.Parse
import AnythingTool.Rpc.Lines

/-!
# The strings of an accepted request

The scanners refuse control characters and decode only the one-letter escapes, so a
string they return never needs the six-byte escape when it is printed again. With the
sizes of the request fields this bounds what any of them escapes into.
-/

namespace AnythingTool

open CText JsonText

/-- A text without the control characters that need a six-byte escape. -/
def ShortText (text : Bytes) : Prop := ∀ c ∈ text, ShortlyEscaped c

instance (text : Bytes) : Decidable (ShortText text) :=
  inferInstanceAs (Decidable (∀ c ∈ text, ShortlyEscaped c))

theorem shortText_of_stringBody {raw dec : Bytes} (h : StringBody raw dec) : ShortText dec := by
  induction h with
  | nil =>
      intro c hc
      cases hc
  | plain hc _ ih => exact List.forall_mem_cons.mpr ⟨.inl hc.1, ih⟩
  | escape he _ ih =>
      refine List.forall_mem_cons.mpr ⟨?_, ih⟩
      unfold shortEscape at he
      split_ifs at he
      all_goals
        obtain rfl := Option.some.inj he
        decide

theorem shortText_of_parse {n : ℕ} {out : CString n} {p r : Bytes}
    (h : parseJsonString n p = some (out, r)) : ShortText out.bytes := by
  obtain ⟨raw, hbody, -⟩ := parseJsonString_eq_some.mp h
  exact shortText_of_stringBody hbody

theorem shortText_of_extract {n : ℕ} {params key : Bytes} {out : CString n}
    (h : anythingRpcExtractParamString n params key = some out) : ShortText out.bytes := by
  have hloop : ∀ p, extractLoop n key p = some out → ShortText out.bytes := by
    intro p hp
    fun_induction extractLoop n key p with
    | case3 p hend foundKey v hk hkey =>
        obtain ⟨⟨out', r⟩, hparse, rfl⟩ := Option.map_eq_some_iff.mp hp
        exact shortText_of_parse hparse
    | case6 p hend foundKey v hk hkey r hv c q hr ih => exact ih hp
    | _ => cases hp
  unfold anythingRpcExtractParamString at h
  split at h
  · cases h
  · split_ifs at h
    exact hloop _ h

/-- The strings of a request print shortly. -/
structure ShortStrings (request : RpcRequest) : Prop where
  id : ShortText request.id.bytes
  method : ShortText request.method.bytes
  sessionId : ShortText request.sessionId.bytes

/-- Reading a member keeps the strings read so far. -/
theorem RpcMemberStep.shortStrings {st st' : RpcLoop} (h : RpcMemberStep st st')
    (hst : ShortStrings st.request) : ShortStrings st'.request := by
  cases h with
  | jsonrpc hscan hkey hseen hparse hversion => exact hst
  | id hscan hkey hseen hparse => exact ⟨shortText_of_parse hparse, hst.method, hst.sessionId⟩
  | method hscan hkey hseen hparse => exact ⟨hst.id, shortText_of_parse hparse, hst.sessionId⟩
  | params hscan hkey hseen hcopy => exact ⟨hst.id, hst.method, hst.sessionId⟩
  | unknown hscan hkey hskip => exact hst

theorem shortStrings_of_rpcFinish {st : RpcLoop} {request : RpcRequest}
    (h : rpcFinish st = .ok request) (hst : ShortStrings st.request) : ShortStrings request := by
  unfold rpcFinish at h
  simp only at h
  split_ifs at h
  all_goals
    obtain rfl := Except.ok.inj h
    refine ⟨hst.id, hst.method, ?_⟩
    simp only
    split
    · rename_i sessionId hsession
      exact shortText_of_extract hsession
    · decide

/-- Whatever the parser accepts has strings that print shortly. -/
theorem shortStrings_of_parse {json : Bytes} {request : RpcRequest}
    (h : anythingRpcParse json = .ok request) : ShortStrings request := by
  obtain ⟨st, hstart, h⟩ := bind_eq_ok.mp h
  obtain ⟨stf, hloop, hfinish⟩ := bind_eq_ok.mp h
  apply shortStrings_of_rpcFinish hfinish
  apply rpcLoop_invariant (P := fun _ request => ShortStrings request)
    (fun _ _ hstep hst => hstep.shortStrings hst) hloop
  have hzero : st.request = .zero := by
    unfold rpcStart at hstart
    split_ifs at hstart
    split at hstart
    · cases hstart
    · split_ifs at hstart
      obtain rfl := Except.ok.inj hstart
      rfl
  rw [hzero]
  exact ⟨by decide, by decide, by decide⟩

/-- A short string of a `char[64]` fits the buffer it is escaped into. -/
theorem length_escaped_lt {s : CString 64} (h : ShortText s.bytes) :
    (escaped s.bytes).length < 128 := by
  have hlen := length_escaped_le h
  have hfits := s.fits
  omega

end AnythingTool
