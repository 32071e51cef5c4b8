import AnythingTool.Rpc.Extract

/-!
# Well-formed requests are accepted

A request that is a JSON object with the required fields, each once, is parsed, and
the parser's fields are those of the text, whatever the order of its members, the
blanks between tokens and the members the parser does not know. `Collected` says
what the main loop has gathered from the members it has read; one member preserves it
(`rpcMember_collects`) and so does the whole loop (`rpcLoop_collects`).
-/

namespace AnythingTool

open CText JsonText

/-! ## Requests as lists of members -/

/-- There is exactly one member with this key, and its value is a string. -/
def StringField (ms : List Member) (key dec : Bytes) : Prop :=
  ∃ m, membersAt ms key = [m] ∧ StringValue m.value dec

/-- The members of the parameters and their text, which is `{}` when there are none. -/
inductive ParamsField (ms : List Member) : List Member → Bytes → Prop
  | absent (h : membersAt ms (ascii "params") = []) :
      ParamsField ms [] (ascii "\x7b\x7d")
  | present {m : Member} {ps : List Member} (h : membersAt ms (ascii "params") = [m])
      (hobject : IsObject ps m.value) (hfits : m.value.length < 1024) :
      ParamsField ms ps m.value

/-- A well-formed request with members `ms`. -/
structure WellFormed (ms : List Member) (id method : Bytes) (ps : List Member)
    (params : Bytes) : Prop where
  keysFit : ∀ m ∈ ms, m.key.length ≤ 63
  jsonrpcField : StringField ms (ascii "jsonrpc") (ascii "2.0")
  idField : StringField ms (ascii "id") id
  idFits : id.length ≤ 63
  methodField : StringField ms (ascii "method") method
  methodFits : method.length ≤ 63
  paramsField : ParamsField ms ps params
  unknown : ∀ m ∈ ms, m.key ∉ takenKeys → m.value.head? = some lbrace →
    m.value.length < 1024

/-- What the main loop needs of a member to get past it. -/
inductive Readable (m : Member) : Prop
  | jsonrpc (hkey : m.key = ascii "jsonrpc") (hv : StringValue m.value (ascii "2.0"))
  | id {dec : Bytes} (hkey : m.key = ascii "id") (hv : StringValue m.value dec)
      (hfits : dec.length < 64)
  | method {dec : Bytes} (hkey : m.key = ascii "method") (hv : StringValue m.value dec)
      (hfits : dec.length < 64)
  | params {ps : List Member} (hkey : m.key = ascii "params")
      (hobject : IsObject ps m.value) (hfits : m.value.length < 1024)
  | unknown (hkey : m.key ∉ takenKeys)
      (hfits : m.value.head? = some lbrace → m.value.length < 1024)

/-- The member with the key of a string field is the field. -/
theorem StringField.stringValue {ms : List Member} {key dec : Bytes}
    (h : StringField ms key dec) {m : Member} (hm : m ∈ ms) (hkey : m.key = key) :
    StringValue m.value dec := by
  obtain ⟨m', hfield, hv⟩ := h
  have hmem : m ∈ membersAt ms key := mem_membersAt.mpr ⟨hm, hkey⟩
  rw [hfield, List.mem_singleton] at hmem
  rw [hmem]
  exact hv

theorem WellFormed.readable {ms ps : List Member} {id method params : Bytes}
    (h : WellFormed ms id method ps params) {m : Member} (hm : m ∈ ms) : Readable m := by
  have hid := h.idFits
  have hmethod := h.methodFits
  by_cases hkey : m.key ∈ takenKeys
  · simp only [takenKeys, List.mem_cons, List.not_mem_nil, or_false] at hkey
    rcases hkey with hkey | hkey | hkey | hkey
    · exact .jsonrpc hkey (h.jsonrpcField.stringValue hm hkey)
    · exact .id hkey (h.idField.stringValue hm hkey) (by omega)
    · exact .method hkey (h.methodField.stringValue hm hkey) (by omega)
    · have hmem : m ∈ membersAt ms (ascii "params") := mem_membersAt.mpr ⟨hm, hkey⟩
      cases h.paramsField with
      | absent hnone =>
          rw [hnone] at hmem
          cases hmem
      | present hone hobject hfits =>
          rw [hone, List.mem_singleton] at hmem
          rw [← hmem] at hobject hfits
          exact .params hkey hobject hfits
  · exact .unknown hkey (h.unknown m hm hkey)

/-- No key the loop takes comes twice. -/
def TakenOnce (ms : List Member) : Prop :=
  ∀ key ∈ takenKeys, (membersAt ms key).length ≤ 1

theorem WellFormed.takenOnce {ms ps : List Member} {id method params : Bytes}
    (h : WellFormed ms id method ps params) : TakenOnce ms := by
  have hfield : ∀ {key dec}, StringField ms key dec → (membersAt ms key).length ≤ 1 := by
    rintro key dec ⟨m, hone, -⟩
    rw [hone]
    exact le_rfl
  intro key hkey
  simp only [takenKeys, List.mem_cons, List.not_mem_nil, or_false] at hkey
  rcases hkey with rfl | rfl | rfl | rfl
  · exact hfield h.jsonrpcField
  · exact hfield h.idField
  · exact hfield h.methodField
  · cases h.paramsField with
    | absent hnone => rw [hnone]; exact Nat.zero_le 1
    | present hone _ _ => rw [hone]; exact le_rfl

/-- Before a member with a taken key there is none with that key. -/
theorem TakenOnce.fresh {done rest : List Member} {m : Member}
    (h : TakenOnce (done ++ m :: rest)) (hkey : m.key ∈ takenKeys) :
    membersAt done m.key = [] := by
  have hlen := h m.key hkey
  rw [List.append_cons, membersAt_append, membersAt_snoc_self done rfl, List.length_append,
    List.length_append, List.length_singleton] at hlen
  exact List.length_eq_zero_iff.mp (by omega)

/-! ## The main loop -/

/-- What the loop has of a key it takes when it has read the members `done`: the flag
tells whether the key was there, and what was stored fits each member with the key. -/
structure Taken (done : List Member) (key : Bytes) (seen : Bool) (Stored : Member → Prop) :
    Prop where
  flagged : seen = true ↔ membersAt done key ≠ []
  stored : ∀ m ∈ membersAt done key, Stored m

/-- What the main loop has gathered when it has read the members `done`. -/
structure Collected (done : List Member) (scan : RpcScan) (request : RpcRequest) :
    Prop where
  jsonrpc : Taken done (ascii "jsonrpc") scan.seenJsonrpc
    fun m => StringValue m.value (ascii "2.0")
  id : Taken done (ascii "id") scan.seenId fun m => StringValue m.value request.id.bytes
  method : Taken done (ascii "method") scan.seenMethod
    fun m => StringValue m.value request.method.bytes
  params : Taken done (ascii "params") scan.seenParams
    fun m => m.value = request.params.bytes

section Snoc

variable {done : List Member} {m : Member} {key : Bytes} {Stored : Member → Prop}

theorem Taken.nil : Taken [] key false Stored :=
  ⟨by simp [membersAt], by simp [membersAt]⟩

/-- The first member with the key is stored. -/
theorem Taken.self (h : m.key = key) (hfresh : membersAt done key = []) (hm : Stored m) :
    Taken (done ++ [m]) key true Stored := by
  have hone : membersAt (done ++ [m]) key = [m] := by
    rw [membersAt_snoc_self done h, hfresh, List.nil_append]
  constructor
  · simp [hone]
  · simpa [hone] using hm

/-- A member with another key changes nothing. -/
theorem Taken.other {seen : Bool} (hdone : Taken done key seen Stored) (h : m.key ≠ key) :
    Taken (done ++ [m]) key seen Stored := by
  have hsame := membersAt_snoc_other done h
  constructor
  · rw [hsame]
    exact hdone.flagged
  · rw [hsame]
    exact hdone.stored

theorem Taken.fresh {seen : Bool} (hdone : Taken done key seen Stored)
    (h : membersAt done key = []) : seen = false := by
  rw [← Bool.not_eq_true]
  intro htrue
  exact hdone.flagged.mp htrue h

end Snoc

theorem collected_nil : Collected [] .zero .zero := ⟨.nil, .nil, .nil, .nil⟩

/-- One member is read up to the byte that ends it, and is gathered. -/
theorem rpcMember_collects {done rest : List Member} {m : Member} {scan : RpcScan}
    {request : RpcRequest} (honce : TakenOnce (done ++ m :: rest)) (hl : m.Lexes)
    (hv : IsValue m.value) (hkeyFits : m.key.length ≤ 63) (hread : Readable m)
    (hdone : Collected done scan request) {c : UInt8} (hc : c = comma ∨ c = rbrace)
    (r : Bytes) :
    ∃ st', rpcMember ⟨m.fromKey ++ c :: r, scan, request⟩ = .ok st' ∧
      skipWs st'.p = c :: r ∧ Collected (done ++ [m]) st'.scan st'.request := by
  obtain ⟨key, hkey, hscan⟩ := exists_scanKey hl hv hkeyFits (c :: r)
  have hspace : ¬ isspace c := by
    rcases hc with rfl | rfl
    all_goals decide
  have hrest : skipWs (m.blank₃ ++ c :: r) = c :: r := by
    rw [skipWs_blank hl.blank₃, skipWs_cons hspace]
  have hfresh : ∀ {k : Bytes}, m.key = k → k ∈ takenKeys → membersAt done k = [] := by
    rintro k rfl hk
    exact honce.fresh hk
  have hother : ∀ {k k' : Bytes}, m.key = k → k ≠ k' → m.key ≠ k' := by
    rintro k k' rfl hne
    exact hne
  cases hread with
  | jsonrpc hk hstring =>
      obtain ⟨version, hversion, hparse⟩ := exists_parseJsonString (n := 16) hstring
        (by decide) (m.blank₃ ++ c :: r)
      have hnone := hfresh hk (by decide)
      have hseen := hdone.jsonrpc.fresh hnone
      refine ⟨_, (RpcMemberStep.jsonrpc hscan (hkey.trans hk) hseen hparse hversion).rpcMember,
        hrest, ?_⟩
      exact {
        jsonrpc := .self hk hnone hstring
        id := hdone.id.other (hother hk (by decide))
        method := hdone.method.other (hother hk (by decide))
        params := hdone.params.other (hother hk (by decide)) }
  | id hk hstring hfits =>
      obtain ⟨id, rfl, hparse⟩ := exists_parseJsonString hstring hfits (m.blank₃ ++ c :: r)
      have hnone := hfresh hk (by decide)
      have hseen := hdone.id.fresh hnone
      refine ⟨_, (RpcMemberStep.id hscan (hkey.trans hk) hseen hparse).rpcMember, hrest, ?_⟩
      exact {
        jsonrpc := hdone.jsonrpc.other (hother hk (by decide))
        id := .self hk hnone hstring
        method := hdone.method.other (hother hk (by decide))
        params := hdone.params.other (hother hk (by decide)) }
  | method hk hstring hfits =>
      obtain ⟨method, rfl, hparse⟩ := exists_parseJsonString hstring hfits (m.blank₃ ++ c :: r)
      have hnone := hfresh hk (by decide)
      have hseen := hdone.method.fresh hnone
      refine ⟨_, (RpcMemberStep.method hscan (hkey.trans hk) hseen hparse).rpcMember, hrest, ?_⟩
      exact {
        jsonrpc := hdone.jsonrpc.other (hother hk (by decide))
        id := hdone.id.other (hother hk (by decide))
        method := .self hk hnone hstring
        params := hdone.params.other (hother hk (by decide)) }
  | params hk hobject hfits =>
      obtain ⟨s, hs, hvalue⟩ := hobject.braces
      rw [hvalue] at hfits hscan
      obtain ⟨params, hparams, hcopy⟩ := copyJsonObjectRaw_whole hs hfits (m.blank₃ ++ c :: r)
      have hnone := hfresh hk (by decide)
      have hseen := hdone.params.fresh hnone
      refine ⟨_, (RpcMemberStep.params hscan (hkey.trans hk) hseen hcopy).rpcMember, hrest, ?_⟩
      exact {
        jsonrpc := hdone.jsonrpc.other (hother hk (by decide))
        id := hdone.id.other (hother hk (by decide))
        method := hdone.method.other (hother hk (by decide))
        params := .self hk hnone (hvalue.trans hparams.symm) }
  | unknown hk hfits =>
      have hends : EndsBare c := by
        rcases hc with rfl | rfl
        · exact .inr (.inl rfl)
        · exact .inr (.inr (.inl rfl))
      obtain ⟨q, hskip, hq⟩ := skipJsonValue_value hv hfits hl.blank₃ hends hspace r
      have hne : ∀ {k : Bytes}, k ∈ takenKeys → m.key ≠ k := by
        rintro k hmem rfl
        exact hk hmem
      refine ⟨_, (RpcMemberStep.unknown hscan (hkey ▸ hk) hskip).rpcMember, hq, ?_⟩
      exact {
        jsonrpc := hdone.jsonrpc.other (hne (by decide))
        id := hdone.id.other (hne (by decide))
        method := hdone.method.other (hne (by decide))
        params := hdone.params.other (hne (by decide)) }

theorem rpcLoop_another {st st' : RpcLoop} {q : Bytes} (h0 : deref st.p ≠ 0)
    (hmember : rpcMember st = .ok st') (hnext : rpcSeparator st'.p = .ok (.another q)) :
    rpcLoop st = rpcLoop { st' with p := q } := by
  rw [rpcLoop_eq h0 hmember, hnext]

theorem rpcLoop_close {st st' : RpcLoop} {q : Bytes} (h0 : deref st.p ≠ 0)
    (hmember : rpcMember st = .ok st') (hnext : rpcSeparator st'.p = .ok (.close q)) :
    rpcLoop st = .ok { st' with p := q } := by
  rw [rpcLoop_eq h0 hmember, hnext]

/-- The members from one on are read to the end of the object, and are gathered. -/
theorem rpcLoop_collects {ms : List Member} (honce : TakenOnce ms)
    (hlexes : ∀ m ∈ ms, m.Lexes) (hvalues : ∀ m ∈ ms, IsValue m.value)
    (hkeys : ∀ m ∈ ms, m.key.length ≤ 63) (hread : ∀ m ∈ ms, Readable m) (r : Bytes)
    (rest : List Member) {done : List Member} {m : Member} {scan : RpcScan}
    {request : RpcRequest} (hms : ms = done ++ m :: rest)
    (hdone : Collected done scan request) :
    ∃ st', rpcLoop ⟨m.fromKey ++ (afterMember rest ++ r), scan, request⟩ = .ok st' ∧
      st'.p = r ∧ Collected ms st'.scan st'.request := by
  induction rest generalizing done m scan request with
  | nil =>
      have hm : m ∈ ms := by simp [hms]
      obtain ⟨st', hmember, hp, hst'⟩ := rpcMember_collects (hms ▸ honce) (hlexes m hm)
        (hvalues m hm) (hkeys m hm) (hread m hm) hdone (.inr rfl) r
      refine ⟨_, rpcLoop_close (deref_fromKey_ne (by decide) m _) hmember
        (rpcSeparator_close.mpr hp), rfl, ?_⟩
      rw [hms]
      exact hst'
  | cons m' rest ih =>
      have hm : m ∈ ms := by simp [hms]
      have hm' : m' ∈ ms := by simp [hms]
      obtain ⟨st', hmember, hp, hst'⟩ := rpcMember_collects (hms ▸ honce) (hlexes m hm)
        (hvalues m hm) (hkeys m hm) (hread m hm) hdone (.inl rfl)
        (m'.text ++ afterMember rest ++ r)
      have hnext : rpcSeparator st'.p =
          .ok (.another (m'.fromKey ++ (afterMember rest ++ r))) := by
        refine rpcSeparator_another.mpr ⟨_, hp, ?_⟩
        rw [List.append_assoc, skipWs_text_append (hlexes m' hm')]
      have hms' : ms = done ++ [m] ++ m' :: rest := by rw [hms, List.append_cons]
      have hloop := rpcLoop_another (deref_fromKey_ne (by decide) m _) hmember hnext
      rw [afterMember, List.cons_append, hloop]
      exact ih hms' hst'

/-! ## Whole requests -/

/-- The loop starts at the first member of the object. -/
theorem rpcStart_objectText {w₀ : Bytes} (hw₀ : Blank w₀) {m : Member} (hl : m.Lexes)
    (rest : List Member) (w₁ : Bytes) :
    rpcStart (w₀ ++ (objectText (m :: rest) ++ w₁)) =
      .ok ⟨m.fromKey ++ (afterMember rest ++ w₁), .zero, .zero⟩ := by
  have hws : skipWs (w₀ ++ (objectText (m :: rest) ++ w₁)) =
      lbrace :: (m.text ++ (afterMember rest ++ w₁)) := by
    rw [skipWs_blank hw₀, objectText_cons, List.cons_append, skipWs_cons (by decide),
      List.append_assoc]
  have hlen : (w₀ ++ (objectText (m :: rest) ++ w₁)).length ≠ 0 := by
    rw [objectText_cons]
    simp
  have hfirst := deref_fromKey_ne (by decide : quote ≠ rbrace) m (afterMember rest ++ w₁)
  rw [rpcStart, if_neg hlen, hws]
  simp only [ne_eq, not_true_eq_false, if_false, skipWs_text_append hl, hfirst]

/-- The required fields and the text of the parameters, once all members are read. -/
theorem Collected.fields {ms ps : List Member} {id method params : Bytes} {scan : RpcScan}
    {request : RpcRequest} (hc : Collected ms scan request)
    (h : WellFormed ms id method ps params) :
    (scan.seenJsonrpc = true ∧ scan.seenId = true ∧ scan.seenMethod = true) ∧
      request.id.bytes = id ∧ request.method.bytes = method ∧
      (if scan.seenParams then request.params
        else .snprintf 1024 (ascii "\x7b\x7d")).bytes = params := by
  have hseen : ∀ {key dec seen Stored}, StringField ms key dec → Taken ms key seen Stored →
      seen = true := by
    rintro key dec seen Stored ⟨m, hone, -⟩ htaken
    exact htaken.flagged.mpr (by rw [hone]; exact List.cons_ne_nil m [])
  have hfield : ∀ {key dec out}, StringField ms key dec →
      (∀ m ∈ membersAt ms key, StringValue m.value out) → out = dec := by
    rintro key dec out ⟨m, hone, hv⟩ hout
    exact stringValue_functional (hout m (by rw [hone]; exact List.mem_singleton_self m)) hv
  refine ⟨⟨hseen h.jsonrpcField hc.jsonrpc, hseen h.idField hc.id,
    hseen h.methodField hc.method⟩, hfield h.idField hc.id.stored,
    hfield h.methodField hc.method.stored, ?_⟩
  cases h.paramsField with
  | absent hnone =>
      rw [hc.params.fresh hnone, if_neg Bool.false_ne_true]
      decide
  | present hone hobject hfits =>
      have hflag : scan.seenParams = true :=
        hc.params.flagged.mpr (by rw [hone]; exact List.cons_ne_nil _ [])
      rw [hflag, if_pos rfl]
      exact (hc.params.stored _ (by rw [hone]; exact List.mem_singleton_self _)).symm

theorem ParamsField.isObject {ms ps : List Member} {params : Bytes}
    (h : ParamsField ms ps params) : IsObject ps params ∧ params.length < 1024 := by
  cases h with
  | absent hnone =>
      have hempty : IsObject [] (lbrace :: [] ++ [rbrace]) := .empty (by simp [Blank])
      exact ⟨hempty, by decide⟩
  | present hone hobject hfits => exact ⟨hobject, hfits⟩

/-- When nothing follows the object and no required field is missing, the request is
completed. -/
theorem rpcFinish_eq {st : RpcLoop} (hp : deref (skipWs st.p) = 0)
    (hseen : st.scan.seenJsonrpc = true ∧ st.scan.seenId = true ∧ st.scan.seenMethod = true)
    {params : CString 1024}
    (hparams : (if st.scan.seenParams then st.request.params
      else .snprintf 1024 (ascii "\x7b\x7d")) = params)
    {sessionId : CString 64}
    (hsession : (anythingRpcExtractParamString 64 params.bytes (ascii "session_id")).getD
      (.snprintf 64 (ascii "default")) = sessionId) :
    rpcFinish st = .ok ⟨st.request.id, st.request.method, sessionId, params,
      anythingRpcHashRequest st.request.method.bytes params.bytes sessionId.bytes⟩ := by
  obtain ⟨hj, hi, hm⟩ := hseen
  rw [rpcFinish]
  simp only [hp, ne_eq, not_true_eq_false, false_and, if_false, hj, hi, hm, Bool.not_true,
    Bool.or_false, Bool.false_eq_true, hparams]
  rw [← hsession]
  cases anythingRpcExtractParamString 64 params.bytes (ascii "session_id") with
  | none => rfl
  | some s => rfl

/-- A well-formed request is accepted with the fields of the text. -/
theorem exists_parse_of_wellFormed {ms ps : List Member} {text id method params : Bytes}
    {w₀ w₁ : Bytes} (hobject : IsObject ms text) (hw₀ : Blank w₀) (hw₁ : Blank w₁)
    (h : WellFormed ms id method ps params) :
    ∃ request, anythingRpcParse (w₀ ++ (text ++ w₁)) = .ok request ∧
      request.id.bytes = id ∧ request.method.bytes = method ∧
      request.params.bytes = params := by
  cases hobject with
  | empty hw =>
      obtain ⟨m, hone, -⟩ := h.jsonrpcField
      cases hone
  | members hne hl hv =>
      obtain ⟨m, rest, rfl⟩ := List.exists_cons_of_ne_nil hne
      have hstart := rpcStart_objectText hw₀ (hl m List.mem_cons_self) rest w₁
      obtain ⟨st, hloop, hp, hcollected⟩ := rpcLoop_collects h.takenOnce hl hv h.keysFit
        (fun m hm => h.readable hm) w₁ rest rfl collected_nil
      obtain ⟨hseen, hid, hmethod, hparams⟩ := hcollected.fields h
      have hend : deref (skipWs st.p) = 0 := by
        rw [hp, ← List.append_nil w₁, skipWs_blank hw₁]
        rfl
      exact ⟨_, bind_eq_ok.mpr ⟨_, hstart, bind_eq_ok.mpr ⟨_, hloop,
        rpcFinish_eq hend hseen rfl rfl⟩⟩, hid, hmethod, hparams⟩

/-- A well-formed request is accepted, and the parser's fields are those of the text. -/
theorem anythingRpcParse_wellFormed {ms ps : List Member} {text id method params : Bytes}
    {w₀ w₁ : Bytes} (hobject : IsObject ms text) (hw₀ : Blank w₀) (hw₁ : Blank w₁)
    (h : WellFormed ms id method ps params) :
    ∃ request, anythingRpcParse (w₀ ++ (text ++ w₁)) = .ok request ∧
      request.id.bytes = id ∧ request.method.bytes = method ∧
      request.params.bytes = params ∧
      (membersAt ps (ascii "session_id") = [] →
        request.sessionId.bytes = ascii "default") ∧
      (∀ s later dec, membersAt ps (ascii "session_id") = s :: later →
        StringValue s.value dec → dec.length ≤ 63 → (∀ p ∈ ps, p.key.length ≤ 63) →
        request.sessionId.bytes = dec) ∧
      request.requestHash = anythingRpcHashRequest method params request.sessionId.bytes := by
  obtain ⟨request, hparse, hid, hmethod, hparams⟩ :=
    exists_parse_of_wellFormed hobject hw₀ hw₁ h
  obtain ⟨hps, hfits⟩ := h.paramsField.isObject
  have hsession := sessionId_of_parse hparse
  rw [hparams] at hsession
  refine ⟨request, hparse, hid, hmethod, hparams, ?_, ?_, ?_⟩
  · intro hnone
    have hextract : anythingRpcExtractParamString 64 params (ascii "session_id") = none := by
      rw [Option.eq_none_iff_forall_ne_some]
      intro out hout
      obtain ⟨s, later, hfirst, -⟩ := ((extract_params_eq_some hps hfits).mp hout).membersAt
      rw [hnone] at hfirst
      cases hfirst
    rw [hsession, hextract]
    exact CString.snprintf_bytes_of_fits (by decide) (by decide)
  · intro s later dec hfirst hv hdec hkeys
    let out : CString 64 := ⟨dec, hv.zero_notMem, by omega⟩
    have hextract : anythingRpcExtractParamString 64 params (ascii "session_id") = some out :=
      (extract_params_eq_some hps hfits).mpr (.of_membersAt hkeys hfirst hv)
    rw [hsession, hextract]
    rfl
  · rw [anythingRpcParse_requestHash hparse, hmethod, hparams]

namespace Sample

/-- A request with an unknown member first and the version last. -/
def members : List Member :=
  [member "x" (arrayText [⟨[], objectText [member "a" (ascii "1")], []⟩]),
    member "method" (literal (ascii "fs.list")), member "id" (literal (ascii "7")),
    member "params" (objectText params), member "jsonrpc" (literal (ascii "2.0"))]

theorem members_isObject : IsObject members (objectText members) := by
  have hone : IsValue (ascii "1") :=
    .scalar (.inl ⟨[], ascii "1", [], [], .inl rfl, ⟨⟨by decide, by decide⟩, by decide⟩,
      .inl rfl, .inl rfl, rfl⟩)
  have hnested : IsValue (objectText [member "a" (ascii "1")]) := by
    refine .object (by decide) ?_ ?_
    · intro m hm
      obtain rfl := List.mem_singleton.mp hm
      exact member_lexes (by decide) _
    · intro m hm
      obtain rfl := List.mem_singleton.mp hm
      exact hone
  have harray : IsValue (arrayText [⟨[], objectText [member "a" (ascii "1")], []⟩]) := by
    refine .array (by decide) ?_ ?_
    · intro e he
      obtain rfl := List.mem_singleton.mp he
      exact ⟨by decide, by decide⟩
    · intro e he
      obtain rfl := List.mem_singleton.mp he
      exact hnested
  refine .members (by decide) ?_ ?_
  · intro m hm
    simp only [members, List.mem_cons, List.not_mem_nil, or_false] at hm
    rcases hm with rfl | rfl | rfl | rfl | rfl
    all_goals exact member_lexes (by decide) _
  · intro m hm
    simp only [members, List.mem_cons, List.not_mem_nil, or_false] at hm
    rcases hm with rfl | rfl | rfl | rfl | rfl
    · exact harray
    · exact isValue (by decide)
    · exact isValue (by decide)
    · exact .object (by decide) params_isObject.lexes params_isObject.value
    · exact isValue (by decide)

theorem wellFormed :
    WellFormed members (ascii "7") (ascii "fs.list") params (objectText params) where
  keysFit := by decide
  jsonrpcField := ⟨_, rfl, stringValue (by decide)⟩
  idField := ⟨_, rfl, stringValue (by decide)⟩
  idFits := by decide
  methodField := ⟨_, rfl, stringValue (by decide)⟩
  methodFits := by decide
  paramsField :=
    .present (m := member "params" (objectText params)) rfl params_isObject (by decide)
  unknown := by decide

end Sample

theorem anythingRpcParse_wellFormed_sample :
    ∃ request, anythingRpcParse ([0x20] ++ (objectText Sample.members ++ [newline])) =
        .ok request ∧
      request.id.bytes = ascii "7" ∧ request.method.bytes = ascii "fs.list" ∧
      request.params.bytes = objectText Sample.params ∧
      request.sessionId.bytes = ascii "s1" := by
  have hw₀ : Blank [0x20] := by decide
  have hw₁ : Blank [newline] := by decide
  obtain ⟨request, hparse, hid, hmethod, hparams, -, hsession, -⟩ :=
    anythingRpcParse_wellFormed Sample.members_isObject hw₀ hw₁ Sample.wellFormed
  exact ⟨request, hparse, hid, hmethod, hparams,
    hsession _ [] _ rfl (Sample.stringValue (by decide)) (by decide) (by decide)⟩

end AnythingTool
