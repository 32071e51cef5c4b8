import AnythingTool.Rpc.Complete

/-!
# The first parameter of a request

Once the method and the parameters of a request have been read, no later member changes
them. The parameters are copied as text, and the copy reaches beyond the first string in
them, so the first parameter can be extracted from the copy: its value is the text up to
the first quote that is not escaped, decoded, when that fits.
-/

namespace AnythingTool

open CText JsonText

variable {n : ℕ} {method : CString 64} {params : CString 1024}

/-! ## What is settled -/

/-- The method and the parameters have been read. -/
structure Settled (method : CString 64) (params : CString 1024) (st : RpcLoop) : Prop where
  seenMethod : st.scan.seenMethod = true
  seenParams : st.scan.seenParams = true
  method : st.request.method = method
  params : st.request.params = params

theorem RpcMemberStep.settled {st st' : RpcLoop} (h : RpcMemberStep st st')
    (hst : Settled method params st) : Settled method params st' := by
  cases h with
  | jsonrpc => exact ⟨hst.seenMethod, hst.seenParams, hst.method, hst.params⟩
  | id => exact ⟨hst.seenMethod, hst.seenParams, hst.method, hst.params⟩
  | method hscan hkey hseen =>
      rw [hst.seenMethod] at hseen
      cases hseen
  | params hscan hkey hseen =>
      rw [hst.seenParams] at hseen
      cases hseen
  | unknown => exact ⟨hst.seenMethod, hst.seenParams, hst.method, hst.params⟩

theorem rpcLoop_settled {st stf : RpcLoop} (h : rpcLoop st = .ok stf)
    (hst : Settled method params st) : Settled method params stf := by
  fun_induction rpcLoop st with
  | case1 st hend =>
      obtain rfl := Except.ok.inj h
      exact hst
  | case2 => cases h
  | case3 => cases h
  | case4 st hd st' hm p hs ih =>
      have hst' := (rpcMember_eq_ok.mp hm).settled hst
      exact ih h ⟨hst'.seenMethod, hst'.seenParams, hst'.method, hst'.params⟩
  | case5 st hd st' hm p hs =>
      obtain rfl := Except.ok.inj h
      have hst' := (rpcMember_eq_ok.mp hm).settled hst
      exact ⟨hst'.seenMethod, hst'.seenParams, hst'.method, hst'.params⟩

/-- The request takes over what is settled, and the session from the parameters. -/
theorem Settled.finish {st : RpcLoop} {request : RpcRequest} (hst : Settled method params st)
    (h : rpcFinish st = .ok request) :
    request.method = method ∧ request.params = params ∧
      request.sessionId =
        (anythingRpcExtractParamString 64 params.bytes (ascii "session_id")).getD
          (.snprintf 64 (ascii "default")) := by
  unfold rpcFinish at h
  simp only [hst.seenParams, if_true, hst.params] at h
  split_ifs at h
  obtain rfl := Except.ok.inj h
  refine ⟨hst.method, rfl, ?_⟩
  cases anythingRpcExtractParamString 64 params.bytes (ascii "session_id")
  · rfl
  · rfl

/-! ## Members in front of the parameters -/

/-- Members with a comma behind each, in front of a text. -/
def leading (ms : List Member) (r : Bytes) : Bytes :=
  ms.foldr (fun m r => m.text ++ comma :: r) r

/-- A member the loop gets past, whatever stands behind it. -/
structure Leads (m : Member) : Prop where
  lexes : m.Lexes
  value : IsValue m.value
  keyFits : m.key.length ≤ 63
  readable : Readable m

/-- The loop goes over leading members, and gathers them. -/
theorem rpcLoop_leading (r : Bytes) (rest : List Member) {done : List Member}
    {scan : RpcScan} {request : RpcRequest} (honce : TakenOnce (done ++ rest))
    (hleads : ∀ m ∈ rest, Leads m) (hdone : Collected done scan request) :
    ∃ scan' request', Collected (done ++ rest) scan' request' ∧
      rpcLoop ⟨skipWs (leading rest r), scan, request⟩ =
        rpcLoop ⟨skipWs r, scan', request'⟩ := by
  induction rest generalizing done scan request with
  | nil =>
      rw [List.append_nil]
      exact ⟨scan, request, hdone, rfl⟩
  | cons m rest ih =>
      obtain ⟨hm, hrest⟩ := List.forall_mem_cons.mp hleads
      obtain ⟨st', hmember, hp, hst'⟩ := rpcMember_collects honce hm.lexes hm.value hm.keyFits
        hm.readable hdone (.inl rfl) (leading rest r)
      rw [List.append_cons] at honce
      obtain ⟨scan', request', hall, hloop⟩ := ih honce hrest hst'
      refine ⟨scan', request', by rwa [List.append_cons], ?_⟩
      have hstart : skipWs (leading (m :: rest) r) = m.fromKey ++ comma :: leading rest r :=
        skipWs_text_append hm.lexes _
      rw [hstart, ← hloop]
      exact rpcLoop_another (deref_fromKey_ne (by decide) m _) hmember
        (rpcSeparator_another.mpr ⟨_, hp, rfl⟩)

/-- A loop that succeeds has read the member it starts at. -/
theorem rpcMember_of_rpcLoop {st stf : RpcLoop} (h0 : deref st.p ≠ 0)
    (h : rpcLoop st = .ok stf) :
    ∃ st', RpcMemberStep st st' ∧ ∀ {method params}, Settled method params st' →
      Settled method params stf := by
  cases hmember : rpcMember st with
  | error e =>
      rw [rpcLoop, if_neg h0] at h
      split at h
      · cases h
      · rename_i st' hm
        rw [hmember] at hm
        cases hm
  | ok st' =>
      refine ⟨st', rpcMember_eq_ok.mp hmember, ?_⟩
      intro method params hst'
      rw [rpcLoop_eq h0 hmember] at h
      split at h
      · cases h
      · exact rpcLoop_settled h ⟨hst'.seenMethod, hst'.seenParams, hst'.method, hst'.params⟩
      · obtain rfl := Except.ok.inj h
        exact ⟨hst'.seenMethod, hst'.seenParams, hst'.method, hst'.params⟩

/-- A key without escapes is scanned up to its value. -/
theorem scanKey_literal {key v : Bytes} (hkey : ∀ c ∈ key, Unescaped c)
    (hfits : key.length < 64) (hv : skipWs v = v) :
    ∃ found : CString 64, found.bytes = key ∧
      scanKey (literal key ++ colon :: v) = .ok (found, v) := by
  have hbody : StringBody key key := .of_unescaped hkey
  refine ⟨⟨key, hbody.zero_notMem.2, hfits⟩, rfl, scanKey_eq_ok.mpr ?_⟩
  exact ⟨key, colon :: v, v, hbody, rfl, skipWs_cons (by decide), hv⟩

/-- At the key of the parameters the loop copies them. -/
theorem RpcMemberStep.copies {st st' : RpcLoop} {v : Bytes} (h : RpcMemberStep st st')
    (hp : st.p = literal (ascii "params") ++ colon :: v) (hv : skipWs v = v) :
    ∃ params q, copyJsonObjectRaw 1024 v = some (params, q) ∧
      st' = ⟨q, { st.scan with seenParams := true }, { st.request with params := params }⟩ := by
  have hkey : ∀ c ∈ ascii "params", Unescaped c := by decide
  obtain ⟨found, hfound, hparams⟩ := scanKey_literal hkey (by decide) hv
  rw [← hp] at hparams
  have hother : ∀ {key : CString 64} {w k : Bytes}, scanKey st.p = .ok (key, w) →
      key.bytes = k → k = ascii "params" := by
    intro key w k hscan hkey
    obtain ⟨rfl, -⟩ := Prod.mk.inj (Except.ok.inj (hparams.symm.trans hscan))
    rw [← hkey, hfound]
  cases h with
  | jsonrpc hscan hkey => exact absurd (hother hscan hkey) (by decide)
  | id hscan hkey => exact absurd (hother hscan hkey) (by decide)
  | method hscan hkey => exact absurd (hother hscan hkey) (by decide)
  | params hscan hkey hseen hcopy =>
      obtain ⟨-, rfl⟩ := Prod.mk.inj (Except.ok.inj (hparams.symm.trans hscan))
      exact ⟨_, _, hcopy, rfl⟩
  | unknown hscan hkey =>
      rw [hother hscan rfl] at hkey
      exact absurd hkey (by decide)

/-! ## The first string of an object -/

/-- A string in front of the loop is read whole. -/
theorem scanToClose_quote {op cl : UInt8} {depth : ℤ} {p r : Bytes}
    (h : scanToClose op cl depth (quote :: p) = some r) :
    ∃ raw dec rest, StringBody raw dec ∧ p = raw ++ quote :: rest ∧
      scanToClose op cl depth rest = some r := by
  rw [scanToClose_cons_quote] at h
  obtain ⟨rest, hskip, h⟩ := Option.bind_eq_some_iff.mp h
  obtain ⟨raw, dec, hbody, heq⟩ := skipJsonString_eq_some.mp hskip
  refine ⟨raw, dec, rest, hbody, ?_, h⟩
  simpa [literal] using heq

theorem firstString_of_copy {key tail q : Bytes} (hkey : ∀ c ∈ key, Unescaped c)
    (h : copyJsonObjectRaw 1024 (lbrace :: (literal key ++ colon :: quote :: tail)) =
      some (params, q)) :
    ∃ raw dec rest t, StringBody raw dec ∧ tail = raw ++ quote :: rest ∧
      params.bytes = lbrace :: (literal key ++ colon :: (literal raw ++ t)) := by
  have hcolon : colon ≠ 0 ∧ colon ≠ quote ∧ colon ≠ lbrace ∧ colon ≠ rbrace := by decide
  obtain ⟨-, hscan, htext⟩ := copyJsonObjectRaw_eq_some.mp h
  rw [scanToClose_open (.inl ⟨rfl, rfl⟩), scanToClose_literal _ (.of_unescaped hkey),
    scanToClose_other _ hcolon] at hscan
  obtain ⟨raw, dec, rest, hbody, rfl, hrest⟩ := scanToClose_quote hscan
  obtain ⟨t, rfl, -, -⟩ := scanToClose_split hrest
  refine ⟨raw, dec, t ++ q, t, hbody, rfl, ?_⟩
  have hwhole : params.bytes ++ q =
      lbrace :: (literal key ++ colon :: (literal raw ++ t)) ++ q := by
    rw [← htext]
    simp [literal]
  exact List.append_cancel_right hwhole

/-- The value of the first parameter, when its key is the one that is asked for. -/
theorem extract_first {key raw t : Bytes} (hkey : ∀ c ∈ key, Unescaped c)
    (hfits : key.length < 64) :
    anythingRpcExtractParamString n (lbrace :: (literal key ++ colon :: (literal raw ++ t))) key =
      (parseJsonString n (literal raw ++ t)).map Prod.fst := by
  obtain ⟨found, hfound, hscan⟩ := scanKey_literal (v := literal raw ++ t) hkey hfits
    (skipWs_cons (by decide))
  have hquote : ¬ (deref (literal key ++ colon :: (literal raw ++ t)) = 0 ∨
      deref (literal key ++ colon :: (literal raw ++ t)) = rbrace) := by
    rintro (h | h)
    · exact absurd (show quote = 0 from h) (by decide)
    · exact absurd (show quote = rbrace from h) (by decide)
  have hskip : skipWs (literal key ++ colon :: (literal raw ++ t)) =
      literal key ++ colon :: (literal raw ++ t) := skipWs_cons (by decide)
  rw [anythingRpcExtractParamString, skipWs_cons (by decide)]
  simp only [if_true, hskip]
  exact extractLoop_match hquote hscan hfound

/-- A literal is decoded when the decoded text fits. -/
theorem parseJsonString_literal {raw dec t : Bytes} (h : StringBody raw dec) :
    (∀ out : CString n, (parseJsonString n (literal raw ++ t)).map Prod.fst = some out →
      out.bytes = dec) ∧
      ((parseJsonString n (literal raw ++ t)).map Prod.fst = none ↔ n ≤ dec.length) := by
  have hsame : ∀ out r, parseJsonString n (literal raw ++ t) = some (out, r) →
      out.bytes = dec := by
    intro out r hparse
    obtain ⟨raw', hbody, heq⟩ := parseJsonString_eq_some.mp hparse
    exact ((literal_append_inj h hbody heq).1).symm
  refine ⟨?_, ?_⟩
  · intro out hout
    obtain ⟨⟨out', r⟩, hparse, rfl⟩ := Option.map_eq_some_iff.mp hout
    exact hsame _ _ hparse
  · rw [Option.map_eq_none_iff]
    constructor
    · intro hnone
      by_contra hlt
      obtain ⟨out, -, hparse⟩ := exists_parseJsonString (n := n) ⟨raw, h, rfl⟩
        (not_le.mp hlt) t
      rw [hparse] at hnone
      cases hnone
    · intro hle
      cases hparse : parseJsonString n (literal raw ++ t) with
      | none => rfl
      | some result =>
          have hout := hsame result.1 result.2 hparse
          have hfits := result.1.fits
          rw [hout] at hfits
          omega

/-- A loop that is entered starts behind the brace with nothing gathered. -/
theorem rpcStart_brace {p : Bytes} {st : RpcLoop} (h : rpcStart (lbrace :: p) = .ok st) :
    st = ⟨skipWs p, .zero, .zero⟩ := by
  have hlen : (lbrace :: p).length ≠ 0 := Nat.succ_ne_zero p.length
  rw [rpcStart, if_neg hlen, skipWs_cons (by decide)] at h
  simp only [ne_eq, not_true_eq_false, if_false] at h
  split_ifs at h
  exact (Except.ok.inj h).symm

/-- A request whose parameters come behind leading members and start with a string: the
method is that of the members, and the first parameter is the string. -/
theorem accepted_first {ms : List Member} {method' key tail : Bytes} {request : RpcRequest}
    (hleads : ∀ m ∈ ms, Leads m) (honce : TakenOnce ms)
    (hmethod : StringField ms (ascii "method") method')
    (hkey : ∀ c ∈ key, Unescaped c) (hfits : key.length < 64)
    (h : anythingRpcParse (lbrace :: leading ms (literal (ascii "params") ++
      colon :: lbrace :: (literal key ++ colon :: quote :: tail))) = .ok request) :
    ∃ raw dec rest, StringBody raw dec ∧ tail = raw ++ quote :: rest ∧
      request.method.bytes = method' ∧
      ∃ t, (∀ n, anythingRpcExtractParamString n request.params.bytes key =
        (parseJsonString n (literal raw ++ t)).map Prod.fst) ∧
      request.sessionId = (anythingRpcExtractParamString 64 request.params.bytes
        (ascii "session_id")).getD (.snprintf 64 (ascii "default")) := by
  obtain ⟨st, hstart, h⟩ := bind_eq_ok.mp h
  obtain ⟨stf, hloop, hfinish⟩ := bind_eq_ok.mp h
  obtain rfl := (rpcStart_brace hstart).symm
  have honce' : TakenOnce ([] ++ ms) := honce
  obtain ⟨scan, collected, hcollected, hleading⟩ := rpcLoop_leading
    (literal (ascii "params") ++ colon :: lbrace :: (literal key ++ colon :: quote :: tail)) ms
    honce' hleads collected_nil
  rw [hleading] at hloop
  rw [List.nil_append] at hcollected
  obtain ⟨st', hstep, hsettled⟩ := rpcMember_of_rpcLoop
    (by rw [skipWs_literal]; exact (by decide : quote ≠ 0)) hloop
  obtain ⟨params, q, hcopy, rfl⟩ := hstep.copies (skipWs_literal _ _) (skipWs_cons (by decide))
  obtain ⟨m, hone, hvalue⟩ := hmethod
  have hseen : scan.seenMethod = true := hcollected.method.flagged.mpr (by simp [hone])
  have hstored := hcollected.method.stored m (by simp [hone])
  obtain ⟨hfinal, hparams, hsession⟩ := (hsettled ⟨hseen, rfl, rfl, rfl⟩).finish hfinish
  obtain ⟨raw, dec, rest, t, hbody, htail, hbytes⟩ := firstString_of_copy hkey hcopy
  refine ⟨raw, dec, rest, hbody, htail, ?_, t, ?_, ?_⟩
  · rw [hfinal]
    exact stringValue_functional hstored hvalue
  · intro n
    rw [hparams, hbytes]
    exact extract_first hkey hfits
  · rw [hsession, hparams]

end AnythingTool
