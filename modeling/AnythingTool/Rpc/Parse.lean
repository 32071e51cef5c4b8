import AnythingTool.Rpc.Scan

/-!
# The RPC request parser

`anything_rpc_parse` on a message body. The body is the list of its `len` bytes;
the transport puts a NUL behind them, and the scanners never look at `len`
again, so a NUL inside the body ends the text for them.

The main loop is split where the source has its three stages: `rpcMember` reads
one member, `rpcSeparator` what follows it, and `rpcLoop` repeats both from a
loop state that carries the cursor, the flags of the keys already seen and the
request filled so far.
-/

namespace AnythingTool

open CText

/-- The errors of `anything_rpc_parse`. -/
inductive RpcParseError
  | invalidJson
  | invalidJsonObject
  | invalidRequest
  | invalidTopLevelKey
  | invalidRequestShape
  | duplicateTopLevelKey
  | invalidVersion
  | invalidId
  | invalidMethod
  | nonObjectParams
  | invalidParams
  | invalidValue
  | invalidRequestTerminator
  | trailingData
  | missingRequiredField
deriving DecidableEq, Repr

/-- The text written to the error buffer. -/
def RpcParseError.message : RpcParseError → Bytes
  | .invalidJson => ascii "invalid JSON"
  | .invalidJsonObject => ascii "invalid JSON object"
  | .invalidRequest => ascii "invalid JSON-RPC request"
  | .invalidTopLevelKey => ascii "invalid top-level key"
  | .invalidRequestShape => ascii "invalid request shape"
  | .duplicateTopLevelKey => ascii "duplicate top-level key"
  | .invalidVersion => ascii "invalid JSON-RPC version"
  | .invalidId => ascii "invalid id"
  | .invalidMethod => ascii "invalid method"
  | .nonObjectParams => ascii "non-object params"
  | .invalidParams => ascii "invalid params"
  | .invalidValue => ascii "invalid value"
  | .invalidRequestTerminator => ascii "invalid request terminator"
  | .trailingData => ascii "trailing data"
  | .missingRequiredField => ascii "missing required JSON-RPC field"

/-- `anything_rpc_request` -/
@[ext] structure RpcRequest where
  id : CString 64
  method : CString 64
  sessionId : CString 64
  params : CString 1024
  requestHash : UInt64
deriving DecidableEq

/-- The request after `memset`. -/
def RpcRequest.zero : RpcRequest := ⟨.empty, .empty, .empty, .empty, 0⟩

/-- `rpc_scan` -/
structure RpcScan where
  seenJsonrpc : Bool
  seenId : Bool
  seenMethod : Bool
  seenParams : Bool
deriving DecidableEq

def RpcScan.zero : RpcScan := ⟨false, false, false, false⟩

/-- What the main loop carries from one iteration to the next. -/
structure RpcLoop where
  p : Bytes
  scan : RpcScan
  request : RpcRequest
deriving DecidableEq

/-- `mark_seen` -/
def markSeen (seen : Bool) : Except RpcParseError Bool :=
  if seen then .error .duplicateTopLevelKey else .ok true

/-- One FNV-1a round. -/
def hashByte (hash : UInt64) (s : UInt8) : UInt64 :=
  (hash ^^^ s.toUInt64) * 1099511628211

/-- `anything_rpc_hash_request` -/
def anythingRpcHashRequest (method params sessionId : Bytes) : UInt64 :=
  [method, ascii "|", params, ascii "|", sessionId].foldl
    (fun hash part => (cstr part).foldl hashByte hash) 1469598103934665603

/-- The body of the main loop up to the value's end: key, colon, value. -/
def rpcMember (st : RpcLoop) : Except RpcParseError RpcLoop :=
  match scanKey st.p with
  | .error .badKey => .error .invalidTopLevelKey
  | .error .noColon => .error .invalidRequestShape
  | .ok (key, p) =>
      if key.bytes = ascii "jsonrpc" then do
        let seen ← markSeen st.scan.seenJsonrpc
        match parseJsonString 16 p with
        | none => .error .invalidVersion
        | some (version, p) =>
            if version.bytes ≠ ascii "2.0" then .error .invalidVersion
            else .ok { st with p := p, scan := { st.scan with seenJsonrpc := seen } }
      else if key.bytes = ascii "id" then do
        let seen ← markSeen st.scan.seenId
        match parseJsonString 64 p with
        | none => .error .invalidId
        | some (id, p) =>
            .ok ⟨p, { st.scan with seenId := seen }, { st.request with id := id }⟩
      else if key.bytes = ascii "method" then do
        let seen ← markSeen st.scan.seenMethod
        match parseJsonString 64 p with
        | none => .error .invalidMethod
        | some (method, p) =>
            .ok ⟨p, { st.scan with seenMethod := seen },
              { st.request with method := method }⟩
      else if key.bytes = ascii "params" then do
        let seen ← markSeen st.scan.seenParams
        if deref p ≠ lbrace then .error .nonObjectParams
        else
          match copyJsonObjectRaw 1024 p with
          | none => .error .invalidParams
          | some (params, p) =>
              .ok ⟨p, { st.scan with seenParams := seen },
                { st.request with params := params }⟩
      else
        match skipJsonValue p with
        | none => .error .invalidValue
        | some p => .ok { st with p := p }

/-- How an iteration ends. -/
inductive RpcNext
  | another (p : Bytes)
  | close (p : Bytes)
deriving DecidableEq

/-- The end of the loop body: a comma goes on, a closing brace leaves the loop. -/
def rpcSeparator (p : Bytes) : Except RpcParseError RpcNext :=
  match skipWs p with
  | [] => .error .invalidRequestTerminator
  | c :: p =>
      if c = comma then .ok (.another (skipWs p))
      else if c = rbrace then .ok (.close p)
      else .error .invalidRequestTerminator

theorem rpcSeparator_another {p q : Bytes} :
    rpcSeparator p = .ok (.another q) ↔ ∃ r, skipWs p = comma :: r ∧ skipWs r = q := by
  unfold rpcSeparator
  split
  · rename_i h
    simp [h]
  · rename_i c r h
    rw [h]
    split_ifs with hc hb
    · subst hc
      simp
    · simp [hc]
    · simp [hc]

theorem rpcSeparator_close {p q : Bytes} :
    rpcSeparator p = .ok (.close q) ↔ skipWs p = rbrace :: q := by
  unfold rpcSeparator
  split
  · rename_i h
    simp [h]
  · rename_i c r h
    rw [h]
    split_ifs with hc hb
    · subst hc
      simp [comma, rbrace]
    · subst hb
      simp
    · simp [hb]

/-- The keys the main loop takes; the value of any other one is skipped. -/
def takenKeys : List Bytes :=
  [ascii "jsonrpc", ascii "id", ascii "method", ascii "params"]

/-- What reading one member can do, with everything the code checked on the way. -/
inductive RpcMemberStep (st : RpcLoop) : RpcLoop → Prop
  | jsonrpc {key : CString 64} {v q : Bytes} {version : CString 16}
      (hscan : scanKey st.p = .ok (key, v)) (hkey : key.bytes = ascii "jsonrpc")
      (hseen : st.scan.seenJsonrpc = false)
      (hparse : parseJsonString 16 v = some (version, q))
      (hversion : version.bytes = ascii "2.0") :
      RpcMemberStep st ⟨q, { st.scan with seenJsonrpc := true }, st.request⟩
  | id {key : CString 64} {v q : Bytes} {id : CString 64}
      (hscan : scanKey st.p = .ok (key, v)) (hkey : key.bytes = ascii "id")
      (hseen : st.scan.seenId = false) (hparse : parseJsonString 64 v = some (id, q)) :
      RpcMemberStep st
        ⟨q, { st.scan with seenId := true }, { st.request with id := id }⟩
  | method {key : CString 64} {v q : Bytes} {method : CString 64}
      (hscan : scanKey st.p = .ok (key, v)) (hkey : key.bytes = ascii "method")
      (hseen : st.scan.seenMethod = false)
      (hparse : parseJsonString 64 v = some (method, q)) :
      RpcMemberStep st
        ⟨q, { st.scan with seenMethod := true }, { st.request with method := method }⟩
  | params {key : CString 64} {v q : Bytes} {params : CString 1024}
      (hscan : scanKey st.p = .ok (key, v)) (hkey : key.bytes = ascii "params")
      (hseen : st.scan.seenParams = false)
      (hcopy : copyJsonObjectRaw 1024 v = some (params, q)) :
      RpcMemberStep st
        ⟨q, { st.scan with seenParams := true }, { st.request with params := params }⟩
  | unknown {key : CString 64} {v q : Bytes}
      (hscan : scanKey st.p = .ok (key, v)) (hkey : key.bytes ∉ takenKeys)
      (hskip : skipJsonValue v = some q) : RpcMemberStep st ⟨q, st.scan, st.request⟩

theorem markSeen_eq_ok {seen seen' : Bool} :
    markSeen seen = .ok seen' ↔ seen = false ∧ seen' = true := by
  cases seen <;> simp [markSeen, eq_comm]

theorem bind_eq_ok {ε α β : Type} {x : Except ε α} {f : α → Except ε β} {b : β} :
    (x >>= f) = .ok b ↔ ∃ a, x = .ok a ∧ f a = .ok b := by
  cases x with
  | error e => simp [bind, Except.bind]
  | ok a => simp [bind, Except.bind]

theorem exists_ok_of_isSome {ε α : Type} {x : Except ε α} (h : x.toOption.isSome = true) :
    ∃ a, x = .ok a := by
  cases x with
  | error e => cases h
  | ok a => exact ⟨a, rfl⟩

theorem toOption_eq_some {ε α : Type} {x : Except ε α} {a : α} :
    x.toOption = some a ↔ x = .ok a := by
  cases x with
  | error e => simp [Except.toOption]
  | ok b => simp [Except.toOption]

/-- What holds of the result of a call that returned one can be evaluated. -/
instance decidableOfOk {ε α : Type} (x : Except ε α) (P : α → Prop) [DecidablePred P] :
    Decidable (∀ a, x = .ok a → P a) :=
  match x with
  | .error _ => isTrue fun _ h => nomatch h
  | .ok a => decidable_of_iff (P a)
      ⟨fun h _ heq => Except.ok.inj heq ▸ h, fun h => h a rfl⟩

theorem RpcMemberStep.of_rpcMember {st st' : RpcLoop} (h : rpcMember st = .ok st') :
    RpcMemberStep st st' := by
  unfold rpcMember at h
  split at h
  · cases h
  · cases h
  · rename_i key v hscan
    by_cases hj : key.bytes = ascii "jsonrpc"
    · rw [if_pos hj] at h
      obtain ⟨seen, hseen, h⟩ := bind_eq_ok.mp h
      obtain ⟨hfresh, rfl⟩ := markSeen_eq_ok.mp hseen
      split at h
      · cases h
      · rename_i version q hparse
        split_ifs at h with hversion
        obtain rfl := Except.ok.inj h
        exact .jsonrpc hscan hj hfresh hparse (not_not.mp hversion)
    rw [if_neg hj] at h
    by_cases hi : key.bytes = ascii "id"
    · rw [if_pos hi] at h
      obtain ⟨seen, hseen, h⟩ := bind_eq_ok.mp h
      obtain ⟨hfresh, rfl⟩ := markSeen_eq_ok.mp hseen
      split at h
      · cases h
      · rename_i id q hparse
        obtain rfl := Except.ok.inj h
        exact .id hscan hi hfresh hparse
    rw [if_neg hi] at h
    by_cases hm : key.bytes = ascii "method"
    · rw [if_pos hm] at h
      obtain ⟨seen, hseen, h⟩ := bind_eq_ok.mp h
      obtain ⟨hfresh, rfl⟩ := markSeen_eq_ok.mp hseen
      split at h
      · cases h
      · rename_i method q hparse
        obtain rfl := Except.ok.inj h
        exact .method hscan hm hfresh hparse
    rw [if_neg hm] at h
    by_cases hp : key.bytes = ascii "params"
    · rw [if_pos hp] at h
      obtain ⟨seen, hseen, h⟩ := bind_eq_ok.mp h
      obtain ⟨hfresh, rfl⟩ := markSeen_eq_ok.mp hseen
      split_ifs at h
      split at h
      · cases h
      · rename_i params q hcopy
        obtain rfl := Except.ok.inj h
        exact .params hscan hp hfresh hcopy
    rw [if_neg hp] at h
    split at h
    · cases h
    · rename_i q hskip
      obtain rfl := Except.ok.inj h
      exact .unknown hscan (by simp [takenKeys, hj, hi, hm, hp]) hskip

theorem RpcMemberStep.rpcMember {st st' : RpcLoop} (h : RpcMemberStep st st') :
    rpcMember st = .ok st' := by
  cases h with
  | jsonrpc hscan hkey hseen hparse hversion =>
      simp [AnythingTool.rpcMember, hscan, hkey, hseen, hparse, hversion, markSeen,
        bind, Except.bind]
  | id hscan hkey hseen hparse =>
      have hne : ascii "id" ≠ ascii "jsonrpc" := by decide
      simp [AnythingTool.rpcMember, hscan, hkey, hseen, hparse, markSeen, hne,
        bind, Except.bind]
  | method hscan hkey hseen hparse =>
      have hne : ascii "method" ≠ ascii "jsonrpc" ∧ ascii "method" ≠ ascii "id" := by
        decide
      simp [AnythingTool.rpcMember, hscan, hkey, hseen, hparse, markSeen, hne,
        bind, Except.bind]
  | params hscan hkey hseen hcopy =>
      have hne : ascii "params" ≠ ascii "jsonrpc" ∧ ascii "params" ≠ ascii "id" ∧
          ascii "params" ≠ ascii "method" := by decide
      have hbrace := (copyJsonObjectRaw_eq_some.mp hcopy).1
      simp [AnythingTool.rpcMember, hscan, hkey, hseen, hcopy, markSeen, hne, hbrace,
        bind, Except.bind]
  | unknown hscan hkey hskip =>
      simp only [takenKeys, List.mem_cons, List.not_mem_nil, or_false, not_or] at hkey
      simp [AnythingTool.rpcMember, hscan, hkey, hskip]

theorem rpcMember_eq_ok {st st' : RpcLoop} :
    rpcMember st = .ok st' ↔ RpcMemberStep st st' :=
  ⟨.of_rpcMember, RpcMemberStep.rpcMember⟩

theorem RpcMemberStep.length {st st' : RpcLoop} (h : RpcMemberStep st st') :
    st'.p.length < st.p.length := by
  cases h with
  | jsonrpc hscan _ _ hparse _ =>
      exact (parseJsonString_length hparse).trans (scanKey_length hscan)
  | id hscan _ _ hparse => exact (parseJsonString_length hparse).trans (scanKey_length hscan)
  | method hscan _ _ hparse =>
      exact (parseJsonString_length hparse).trans (scanKey_length hscan)
  | params hscan _ _ hcopy =>
      exact (copyJsonObjectRaw_length hcopy).trans (scanKey_length hscan)
  | unknown hscan _ hskip =>
      exact (skipJsonValue_length hskip).trans_lt (scanKey_length hscan)

/-- The main loop, from the cursor at a key. -/
def rpcLoop (st : RpcLoop) : Except RpcParseError RpcLoop :=
  if deref st.p = 0 then .ok st
  else
    match _hm : rpcMember st with
    | .error e => .error e
    | .ok st' =>
        match _hs : rpcSeparator st'.p with
        | .error e => .error e
        | .ok (.another p) => rpcLoop { st' with p := p }
        | .ok (.close p) => .ok { st' with p := p }
termination_by st.p.length
decreasing_by
  have hm := (rpcMember_eq_ok.mp _hm).length
  obtain ⟨r, hr, rfl⟩ := rpcSeparator_another.mp _hs
  have hr' := (skipWs_suffix st'.p).length_le
  have hq := (skipWs_suffix r).length_le
  rw [hr, List.length_cons] at hr'
  omega

/-- One round of the loop, when its member was read. -/
theorem rpcLoop_eq {st st' : RpcLoop} (h0 : deref st.p ≠ 0) (hmember : rpcMember st = .ok st') :
    rpcLoop st =
      match rpcSeparator st'.p with
      | .error e => .error e
      | .ok (.another p) => rpcLoop { st' with p := p }
      | .ok (.close p) => .ok { st' with p := p } := by
  rw [rpcLoop, if_neg h0]
  split
  · rename_i hm
    rw [hmember] at hm
    cases hm
  · rename_i st₁ hm
    obtain rfl := Except.ok.inj (hmember.symm.trans hm)
    split
    all_goals
      rename_i hs
      rw [hs]

/-- What reading a member preserves, the main loop preserves. -/
theorem rpcLoop_invariant {P : RpcScan → RpcRequest → Prop}
    (hstep : ∀ st st', RpcMemberStep st st' → P st.scan st.request → P st'.scan st'.request)
    {st stf : RpcLoop} (h : rpcLoop st = .ok stf) (hst : P st.scan st.request) :
    P stf.scan stf.request := by
  fun_induction rpcLoop st with
  | case1 st hend =>
      obtain rfl := Except.ok.inj h
      exact hst
  | case2 => cases h
  | case3 => cases h
  | case4 st hd st' hm p hs ih => exact ih h (hstep st st' (rpcMember_eq_ok.mp hm) hst)
  | case5 st hd st' hm p hs =>
      obtain rfl := Except.ok.inj h
      exact hstep st st' (rpcMember_eq_ok.mp hm) hst

/-- What follows the main loop: the rest of the body and the collected fields. -/
def rpcFinish (st : RpcLoop) : Except RpcParseError RpcRequest :=
  let p := skipWs st.p
  if deref p ≠ 0 ∧ deref p ≠ newline then .error .trailingData
  else if !st.scan.seenJsonrpc || !st.scan.seenId || !st.scan.seenMethod then
    .error .missingRequiredField
  else
    let params :=
      if st.scan.seenParams then st.request.params
      else .snprintf 1024 (ascii "\x7b\x7d")
    let sessionId :=
      match anythingRpcExtractParamString 64 params.bytes (ascii "session_id") with
      | some sessionId => sessionId
      | none => .snprintf 64 (ascii "default")
    .ok { st.request with
      params := params
      sessionId := sessionId
      requestHash :=
        anythingRpcHashRequest st.request.method.bytes params.bytes sessionId.bytes }

/-- The loop state the main loop starts from: the cursor at the first key. -/
def rpcStart (json : Bytes) : Except RpcParseError RpcLoop :=
  if json.length = 0 then .error .invalidJson
  else
    match skipWs json with
    | [] => .error .invalidJsonObject
    | c :: p =>
        if c ≠ lbrace then .error .invalidJsonObject
        else if deref (skipWs p) = rbrace then .error .invalidRequest
        else .ok ⟨skipWs p, .zero, .zero⟩

theorem rpcStart_scan {json : Bytes} {st : RpcLoop} (h : rpcStart json = .ok st) :
    st.scan = .zero := by
  unfold rpcStart at h
  split_ifs at h
  split at h
  · cases h
  · split_ifs at h
    obtain rfl := Except.ok.inj h
    rfl

/-- `anything_rpc_parse` -/
def anythingRpcParse (json : Bytes) : Except RpcParseError RpcRequest := do
  let st ← rpcStart json
  let st ← rpcLoop st
  rpcFinish st

/-! ## What holds of an accepted request -/

/-- The parameters are an object that was copied, or the text `{}`. -/
theorem params_of_parse {P : Bytes → Prop}
    (hcopy : ∀ p (out : CString 1024) r, copyJsonObjectRaw 1024 p = some (out, r) → P out.bytes)
    (hempty : P (ascii "\x7b\x7d")) {json : Bytes} {request : RpcRequest}
    (h : anythingRpcParse json = .ok request) : P request.params.bytes := by
  obtain ⟨st, hstart, h⟩ := bind_eq_ok.mp h
  obtain ⟨stf, hloop, hfinish⟩ := bind_eq_ok.mp h
  have hread : stf.scan.seenParams = true → P stf.request.params.bytes := by
    apply rpcLoop_invariant (P := fun scan request => scan.seenParams = true →
      P request.params.bytes) ?_ hloop
    · intro hseen
      rw [rpcStart_scan hstart] at hseen
      cases hseen
    · intro st st' hstep hst
      cases hstep with
      | jsonrpc => exact hst
      | id => exact hst
      | method => exact hst
      | params hscan hkey hseen hcopied => exact fun _ => hcopy _ _ _ hcopied
      | unknown => exact hst
  unfold rpcFinish at hfinish
  simp only at hfinish
  split_ifs at hfinish with hend hmissing hseen
  · obtain rfl := Except.ok.inj hfinish
    exact hread hseen
  · obtain rfl := Except.ok.inj hfinish
    exact hempty

/-- The session of an accepted request comes from its parameters. -/
theorem sessionId_of_parse {json : Bytes} {request : RpcRequest}
    (h : anythingRpcParse json = .ok request) :
    request.sessionId =
      (anythingRpcExtractParamString 64 request.params.bytes (ascii "session_id")).getD
        (.snprintf 64 (ascii "default")) := by
  obtain ⟨st, -, h⟩ := bind_eq_ok.mp h
  obtain ⟨stf, -, hfinish⟩ := bind_eq_ok.mp h
  unfold rpcFinish at hfinish
  simp only at hfinish
  split_ifs at hfinish with hend hmissing hparams
  all_goals
    obtain rfl := Except.ok.inj hfinish
    split
    all_goals
      rename_i hextract
      rw [hextract]
      rfl

/-- A parsed request carries the hash of its own fields. -/
theorem anythingRpcParse_requestHash {json : Bytes} {request : RpcRequest}
    (h : anythingRpcParse json = .ok request) :
    request.requestHash = anythingRpcHashRequest request.method.bytes request.params.bytes
      request.sessionId.bytes := by
  obtain ⟨st, -, h⟩ := bind_eq_ok.mp h
  obtain ⟨st', -, h⟩ := bind_eq_ok.mp h
  unfold rpcFinish at h
  simp only at h
  split_ifs at h
  all_goals
    obtain rfl := Except.ok.inj h
    rfl

end AnythingTool
