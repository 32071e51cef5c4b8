import AnythingTool.Library.PrefixCode
import AnythingTool.Daemon.Binding
import AnythingTool.Rpc.Values

/-!
# What a request hash is computed from

`anything_rpc_hash_request` runs over the method, the parameters and the session with a
bar between them, and a bar may stand in any of the three. The method is fixed by the
policy, and the parameters are a text that the bracket loop stops behind, so neither of
them can be continued into the next part: the bytes hashed determine all three.
-/

namespace AnythingTool

open CText JsonText PrefixCode

/-- The bytes the loop of `anything_rpc_hash_request` runs over. -/
def hashInput (method params sessionId : Bytes) : Bytes :=
  [method, ascii "|", params, ascii "|", sessionId].flatMap cstr

/-- The texts the bracket loop stops behind, whatever follows them. -/
def objectTexts : Set Bytes := {t | ∀ r, scanToClose lbrace rbrace 0 (t ++ r) = some r}

theorem anythingRpcHashRequest_eq (method params sessionId : Bytes) :
    anythingRpcHashRequest method params sessionId =
      (hashInput method params sessionId).foldl hashByte 1469598103934665603 := by
  rw [hashInput, List.foldl_flatMap]
  rfl

theorem hashInput_bytes {k l m : ℕ} (method : CString k) (params : CString l)
    (sessionId : CString m) :
    hashInput method.bytes params.bytes sessionId.bytes =
      method.bytes ++ (ascii "|" ++ (params.bytes ++ (ascii "|" ++ sessionId.bytes))) := by
  have hbar : cstr (ascii "|") = ascii "|" := by decide
  simp only [hashInput, List.flatMap_cons, List.flatMap_nil, List.append_nil, hbar,
    cstr_of_notMem method.noNul, cstr_of_notMem params.noNul, cstr_of_notMem sessionId.noNul]

/-! ## The text of the parameters -/

theorem prefixFree_objectTexts : PrefixFree objectTexts :=
  prefixFree_of_scan (scanToClose lbrace rbrace 0)

theorem mem_objectTexts_of_copy {n : ℕ} {out : CString n} {p r : Bytes}
    (h : copyJsonObjectRaw n p = some (out, r)) : out.bytes ∈ objectTexts := by
  obtain ⟨-, hscan, hp⟩ := copyJsonObjectRaw_eq_some.mp h
  obtain ⟨t, ht, hlocal⟩ := scanToClose_local hscan
  obtain rfl : out.bytes = t := List.append_cancel_right (hp.symm.trans ht)
  exact hlocal

theorem params_mem_objectTexts {json : Bytes} {request : RpcRequest}
    (h : anythingRpcParse json = .ok request) : request.params.bytes ∈ objectTexts :=
  params_of_parse (fun _ _ _ hcopy => mem_objectTexts_of_copy hcopy)
    (fun r => scanToClose_whole (.inl ⟨rfl, rfl⟩) .nil r) h

/-! ## Both ways to get at a hash -/

/-- Requests with the same method and the same hash input are the same. -/
theorem hashInput_inj {method method' : CString 64} {params params' : CString 1024}
    {sessionId sessionId' : CString 64} (hmethod : method.bytes = method'.bytes)
    (hparams : params.bytes ∈ objectTexts) (hparams' : params'.bytes ∈ objectTexts)
    (h : hashInput method.bytes params.bytes sessionId.bytes =
      hashInput method'.bytes params'.bytes sessionId'.bytes) :
    method = method' ∧ params = params' ∧ sessionId = sessionId' := by
  rw [hashInput_bytes, hashInput_bytes, hmethod] at h
  have hrest := List.append_cancel_left (List.append_cancel_left h)
  obtain ⟨hsame, hrest⟩ := prefixFree_objectTexts.append_inj hparams hparams' hrest
  exact ⟨CString.ext hmethod, CString.ext hsame,
    CString.ext (List.append_cancel_left hrest)⟩

/-- The method and the parameters of a stored request. -/
theorem Bound.hashed {config : Config} {history : List DaemonRecord} {slot : ℕ}
    {e : PendingRequest} (h : Bound config history slot e) :
    e.method.bytes = ascii "sys.info" ∧ e.params.bytes ∈ objectTexts := by
  obtain ⟨r, -, -, request, hto⟩ := h
  rw [hto.method, hto.params]
  exact ⟨(anythingPolicyPreflight_ne_deny.mp hto.allowed).1, params_mem_objectTexts hto.parse⟩

/-- The bytes that are hashed identify the request: two requests that the policy does not
deny, and two stored requests, with the same bytes have the same method, parameters and
session. -/
theorem hashInput_identifies (config : Config) :
    (∀ method params sessionId, anythingRpcHashRequest method params sessionId =
      (hashInput method params sessionId).foldl hashByte 1469598103934665603) ∧
    (∀ body body' request request', anythingRpcParse body = .ok request →
      anythingRpcParse body' = .ok request' →
      (anythingPolicyPreflight config request).decision ≠ .deny →
      (anythingPolicyPreflight config request').decision ≠ .deny →
      hashInput request.method.bytes request.params.bytes request.sessionId.bytes =
        hashInput request'.method.bytes request'.params.bytes request'.sessionId.bytes →
      request.method = request'.method ∧ request.params = request'.params ∧
        request.sessionId = request'.sessionId) ∧
      ∀ (is : List Input) (slot slot' : ℕ) (e e' : PendingRequest),
        ((daemon config).run is).approvals.pending[slot]? = some e →
        ((daemon config).run is).approvals.pending[slot']? = some e' →
        hashInput e.method.bytes e.params.bytes e.sessionId.bytes =
          hashInput e'.method.bytes e'.params.bytes e'.sessionId.bytes →
        e.method = e'.method ∧ e.params = e'.params ∧ e.sessionId = e'.sessionId := by
  refine ⟨anythingRpcHashRequest_eq, ?_, ?_⟩
  · intro body body' request request' hparse hparse' hpolicy hpolicy' h
    have hmethod := (anythingPolicyPreflight_ne_deny.mp hpolicy).1
    have hmethod' := (anythingPolicyPreflight_ne_deny.mp hpolicy').1
    exact hashInput_inj (hmethod.trans hmethod'.symm) (params_mem_objectTexts hparse)
      (params_mem_objectTexts hparse') h
  · intro is slot slot' e e' he he' h
    obtain ⟨hmethod, hparams⟩ := (bound_run config is slot e he).hashed
    obtain ⟨hmethod', hparams'⟩ := (bound_run config is slot' e' he').hashed
    exact hashInput_inj (hmethod.trans hmethod'.symm) hparams hparams' h

/-- Bars inside of the parameters and of the session. -/
def barsSample (id : String) : Bytes :=
  ascii "\x7b\"jsonrpc\":\"2.0\",\"id\":\"" ++ ascii id ++
    ascii "\",\"method\":\"sys.info\",\"params\":\x7b\"session_id\":\"a|\x7d|b\"\x7d\x7d"

theorem hashInput_identifies_sample :
    ∃ request request', anythingRpcParse (barsSample "1") = .ok request ∧
      anythingRpcParse (barsSample "2") = .ok request' ∧ request.id ≠ request'.id ∧
      request.params = request'.params := by
  obtain ⟨request, hparse⟩ := exists_ok_of_isSome
    (by decide +kernel : (anythingRpcParse (barsSample "1")).toOption.isSome = true)
  obtain ⟨request', hparse'⟩ := exists_ok_of_isSome
    (by decide +kernel : (anythingRpcParse (barsSample "2")).toOption.isSome = true)
  have hpolicy : ∀ request, anythingRpcParse (barsSample "1") = .ok request →
      (anythingPolicyPreflight Sample.config request).decision ≠ .deny := by decide +kernel
  have hpolicy' : ∀ request, anythingRpcParse (barsSample "2") = .ok request →
      (anythingPolicyPreflight Sample.config request).decision ≠ .deny := by decide +kernel
  have hsame : ∀ request, anythingRpcParse (barsSample "1") = .ok request →
      ∀ request', anythingRpcParse (barsSample "2") = .ok request' →
      request.id ≠ request'.id ∧
      hashInput request.method.bytes request.params.bytes request.sessionId.bytes =
        hashInput request'.method.bytes request'.params.bytes request'.sessionId.bytes := by
    decide +kernel
  obtain ⟨hid, hinput⟩ := hsame request hparse request' hparse'
  exact ⟨request, request', hparse, hparse', hid, ((hashInput_identifies Sample.config).2.1 _ _
    request request' hparse hparse' (hpolicy request hparse) (hpolicy' request' hparse')
    hinput).2.1⟩

end AnythingTool
