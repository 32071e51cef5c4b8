import AnythingTool.Rpc.FirstField
import AnythingTool.Rpc.Framing

/-!
# Accepted requests are well formed

The converse of `exists_parse_of_wellFormed`: an object that is accepted is a well-formed
request (`wellFormed_of_parse`). So what the parser returns for an object is settled by
`WellFormed`, and of an unknown member this asks for two things only: its key has to fit,
and its value must not be `TooBig`, an object that does not fit the buffer it is copied to
while it is skipped.
-/

namespace AnythingTool

open CText JsonText

/-- An object that does not fit `char[ANYTHING_RPC_MAX_PARAMS]`. -/
def TooBig (v : Bytes) : Prop := v.head? = some lbrace ∧ 1024 ≤ v.length

instance (v : Bytes) : Decidable (TooBig v) :=
  inferInstanceAs (Decidable (v.head? = some lbrace ∧ 1024 ≤ v.length))

/-! ## One member -/

/-- A value that starts with a brace is an object. -/
theorem exists_isObject {v : Bytes} (hv : IsValue v) (hhead : v.head? = some lbrace) :
    ∃ ps, IsObject ps v := by
  cases hv with
  | string h => exact absurd hhead (by decide : some quote ≠ some lbrace)
  | scalar h =>
      obtain ⟨hne, hbytes⟩ := h.scalarByte
      obtain ⟨c, t, rfl⟩ := List.exists_cons_of_ne_nil hne
      exact absurd (Option.some.inj hhead) (hbytes c List.mem_cons_self).plain.2.2.1
  | emptyArray h => exact absurd hhead (by decide : some lbracket ≠ some lbrace)
  | array hne hl hv => exact absurd hhead (by decide : some lbracket ≠ some lbrace)
  | emptyObject h => exact ⟨[], .empty h⟩
  | object hne hl hv => exact ⟨_, .members hne hl hv⟩

/-- What is copied of an object is the whole of it. -/
theorem copy_value {n : ℕ} {v r q : Bytes} (hv : IsValue v) {out : CString n}
    (h : copyJsonObjectRaw n (v ++ r) = some (out, q)) :
    v.head? = some lbrace ∧ v.length < n := by
  obtain ⟨hd, hscan, htext⟩ := copyJsonObjectRaw_eq_some.mp h
  obtain ⟨c, t, rfl, -⟩ := exists_cons_of_isValue hv
  obtain rfl : c = lbrace := hd
  obtain ⟨ps, hobject⟩ := exists_isObject hv rfl
  obtain ⟨s, hs, hbraces⟩ := hobject.braces
  refine ⟨rfl, ?_⟩
  rw [hbraces] at hscan htext ⊢
  rw [scanToClose_whole (.inl ⟨rfl, rfl⟩) hs] at hscan
  obtain rfl := Option.some.inj hscan
  rw [List.append_cancel_right htext]
  exact out.fits

theorem fits_of_skipJsonValue {v r q : Bytes} (hv : IsValue v)
    (h : skipJsonValue (v ++ r) = some q) : ¬ TooBig v := by
  rintro ⟨hhead, hbig⟩
  have hd : deref (v ++ r) = lbrace := by
    obtain ⟨c, t, rfl, -⟩ := exists_cons_of_isValue hv
    exact Option.some.inj hhead
  rw [skipJsonValue, skipWs_value hv, hd, if_neg (by decide), if_pos rfl] at h
  obtain ⟨⟨out, r'⟩, hcopy, -⟩ := Option.map_eq_some_iff.mp h
  have hfits := (copy_value hv hcopy).2
  omega

theorem stringValue_of_parse {n : ℕ} {v r q : Bytes} (hv : IsValue v) {out : CString n}
    (h : parseJsonString n (v ++ r) = some (out, q)) : StringValue v out.bytes := by
  have hmap : (parseJsonString n (v ++ r)).map Prod.fst = some out := by rw [h, Option.map_some]
  exact (parseJsonString_value hv).mp hmap

/-- One more member, whose key is new if it is a taken one. -/
theorem TakenOnce.snoc {done : List Member} {m : Member} (h : TakenOnce done)
    (hfresh : m.key ∈ takenKeys → membersAt done m.key = []) : TakenOnce (done ++ [m]) := by
  intro key hkey
  by_cases hm : m.key = key
  · rw [membersAt_snoc_self done hm, ← hm, hfresh (hm ▸ hkey)]
    exact le_rfl
  · rw [membersAt_snoc_other done hm]
    exact h key hkey

theorem Taken.nil_of_unseen {done : List Member} {key : Bytes} {seen : Bool}
    {Stored : Member → Prop} (h : Taken done key seen Stored) (hseen : seen = false) :
    membersAt done key = [] := by
  by_contra hne
  rw [h.flagged.mpr hne] at hseen
  cases hseen

/-- A member that was read could be read. -/
theorem readable_of_rpcMember {done : List Member} {m : Member} {scan : RpcScan}
    {request : RpcRequest} (hl : m.Lexes) (hv : IsValue m.value)
    (hdone : Collected done scan request) {r : Bytes} {st' : RpcLoop}
    (h : RpcMemberStep ⟨m.fromKey ++ r, scan, request⟩ st') :
    m.key.length ≤ 63 ∧ Readable m ∧ (m.key ∈ takenKeys → membersAt done m.key = []) := by
  have hscanned : ∀ {key : CString 64} {v : Bytes}, scanKey (m.fromKey ++ r) = .ok (key, v) →
      m.key.length ≤ 63 ∧ key.bytes = m.key ∧ v = m.value ++ (m.blank₃ ++ r) := by
    intro key v hscan
    obtain ⟨hkey, hvalue⟩ := (scanKey_fromKey hl hv).mp hscan
    have hfits := key.fits
    rw [hkey] at hfits
    exact ⟨by omega, hkey, hvalue⟩
  cases h with
  | @jsonrpc _ _ _ version hscan hkey hseen hparse hversion =>
      obtain ⟨hfits, hbytes, rfl⟩ := hscanned hscan
      rw [hbytes] at hkey
      have hstring := stringValue_of_parse hv hparse
      rw [hversion] at hstring
      refine ⟨hfits, .jsonrpc hkey hstring, fun _ => ?_⟩
      rw [hkey]
      exact hdone.jsonrpc.nil_of_unseen hseen
  | @id _ _ _ id hscan hkey hseen hparse =>
      obtain ⟨hfits, hbytes, rfl⟩ := hscanned hscan
      rw [hbytes] at hkey
      refine ⟨hfits, .id hkey (stringValue_of_parse hv hparse) id.fits, fun _ => ?_⟩
      rw [hkey]
      exact hdone.id.nil_of_unseen hseen
  | @method _ _ _ method hscan hkey hseen hparse =>
      obtain ⟨hfits, hbytes, rfl⟩ := hscanned hscan
      rw [hbytes] at hkey
      refine ⟨hfits, .method hkey (stringValue_of_parse hv hparse) method.fits, fun _ => ?_⟩
      rw [hkey]
      exact hdone.method.nil_of_unseen hseen
  | @params _ _ _ params hscan hkey hseen hcopy =>
      obtain ⟨hfits, hbytes, rfl⟩ := hscanned hscan
      rw [hbytes] at hkey
      obtain ⟨hhead, hlen⟩ := copy_value hv hcopy
      obtain ⟨ps, hobject⟩ := exists_isObject hv hhead
      refine ⟨hfits, .params hkey hobject hlen, fun _ => ?_⟩
      rw [hkey]
      exact hdone.params.nil_of_unseen hseen
  | unknown hscan hkey hskip =>
      obtain ⟨hfits, hbytes, rfl⟩ := hscanned hscan
      rw [hbytes] at hkey
      have hsmall := fits_of_skipJsonValue hv hskip
      refine ⟨hfits, .unknown hkey ?_, fun hmem => absurd hmem hkey⟩
      intro hhead
      by_contra hbig
      exact hsmall ⟨hhead, not_lt.mp hbig⟩

/-! ## All members -/

/-- When the loop succeeds, all members could be read, and no taken key came twice. -/
theorem readable_of_rpcLoop (r : Bytes) (rest : List Member) {done : List Member} {m : Member}
    {scan : RpcScan} {request : RpcRequest} {stf : RpcLoop} (honce : TakenOnce done)
    (hlexes : ∀ x ∈ m :: rest, x.Lexes) (hvalues : ∀ x ∈ m :: rest, IsValue x.value)
    (hdone : Collected done scan request)
    (h : rpcLoop ⟨m.fromKey ++ (afterMember rest ++ r), scan, request⟩ = .ok stf) :
    (∀ x ∈ m :: rest, x.key.length ≤ 63 ∧ Readable x) ∧ TakenOnce (done ++ m :: rest) := by
  induction rest generalizing done m scan request with
  | nil =>
      have hl := hlexes m List.mem_cons_self
      have hv := hvalues m List.mem_cons_self
      obtain ⟨st', hstep, -⟩ := rpcMember_of_rpcLoop (deref_fromKey_ne (by decide) m _) h
      obtain ⟨hfits, hread, hfresh⟩ := readable_of_rpcMember hl hv hdone hstep
      exact ⟨List.forall_mem_singleton.mpr ⟨hfits, hread⟩, honce.snoc hfresh⟩
  | cons m' rest ih =>
      obtain ⟨hl, hlexes'⟩ := List.forall_mem_cons.mp hlexes
      obtain ⟨hv, hvalues'⟩ := List.forall_mem_cons.mp hvalues
      have h0 := deref_fromKey_ne (by decide : quote ≠ 0) m (afterMember (m' :: rest) ++ r)
      obtain ⟨st', hstep, -⟩ := rpcMember_of_rpcLoop h0 h
      obtain ⟨hfits, hread, hfresh⟩ := readable_of_rpcMember hl hv hdone hstep
      have honce' := honce.snoc hfresh
      obtain ⟨st₁, hmember, hp, hst₁⟩ := rpcMember_collects honce' hl hv hfits hread hdone
        (.inl rfl) (m'.text ++ afterMember rest ++ r)
      have hnext : rpcSeparator st₁.p =
          .ok (.another (m'.fromKey ++ (afterMember rest ++ r))) := by
        refine rpcSeparator_another.mpr ⟨_, hp, ?_⟩
        rw [List.append_assoc, skipWs_text_append (hlexes' m' List.mem_cons_self)]
      rw [afterMember, List.cons_append, rpcLoop_another h0 hmember hnext] at h
      obtain ⟨hall, hwhole⟩ := ih honce' hlexes' hvalues' hst₁ h
      refine ⟨List.forall_mem_cons.mpr ⟨⟨hfits, hread⟩, hall⟩, ?_⟩
      rwa [List.append_cons]

/-- A taken key that was seen is the key of exactly one member. -/
theorem Taken.exists_unique {ms : List Member} {key : Bytes} {seen : Bool}
    {Stored : Member → Prop} (h : Taken ms key seen Stored) (honce : TakenOnce ms)
    (hkey : key ∈ takenKeys) (hseen : seen = true) :
    ∃ m, membersAt ms key = [m] ∧ Stored m := by
  obtain ⟨m, later, hfirst⟩ := List.exists_cons_of_ne_nil (h.flagged.mp hseen)
  have hlen := honce key hkey
  rw [hfirst, List.length_cons] at hlen
  obtain rfl := List.length_eq_zero_iff.mp (by omega : later.length = 0)
  exact ⟨m, hfirst, h.stored m (by rw [hfirst]; exact List.mem_singleton_self m)⟩

theorem Collected.wellFormed {ms : List Member} {scan : RpcScan} {request : RpcRequest}
    (h : Collected ms scan request) (honce : TakenOnce ms)
    (hread : ∀ m ∈ ms, m.key.length ≤ 63 ∧ Readable m)
    (hseen : scan.seenJsonrpc = true ∧ scan.seenId = true ∧ scan.seenMethod = true) :
    ∃ ps params, WellFormed ms request.id.bytes request.method.bytes ps params := by
  have hid := request.id.fits
  have hmethod := request.method.fits
  have hparams : ∃ ps params, ParamsField ms ps params := by
    by_cases hnone : membersAt ms (ascii "params") = []
    · exact ⟨_, _, .absent hnone⟩
    · obtain ⟨m, hone, -⟩ := h.params.exists_unique honce (by decide) (h.params.flagged.mpr hnone)
      obtain ⟨hm, hkey⟩ := mem_membersAt.mp (hone ▸ List.mem_singleton_self m)
      cases (hread m hm).2 with
      | jsonrpc hother _ => exact absurd (hkey.symm.trans hother) (by decide)
      | id hother _ _ => exact absurd (hkey.symm.trans hother) (by decide)
      | method hother _ _ => exact absurd (hkey.symm.trans hother) (by decide)
      | params _ hobject hfits => exact ⟨_, _, .present hone hobject hfits⟩
      | unknown hother _ => exact absurd (hkey ▸ (by decide)) hother
  obtain ⟨ps, params, hfield⟩ := hparams
  refine ⟨ps, params, ?_⟩
  exact {
    keysFit := fun m hm => (hread m hm).1
    jsonrpcField := h.jsonrpc.exists_unique honce (by decide) hseen.1
    idField := h.id.exists_unique honce (by decide) hseen.2.1
    idFits := by omega
    methodField := h.method.exists_unique honce (by decide) hseen.2.2
    methodFits := by omega
    paramsField := hfield
    unknown := by
      intro m hm hkey hhead
      cases (hread m hm).2 with
      | jsonrpc hother _ => exact absurd (hother ▸ (by decide)) hkey
      | id hother _ _ => exact absurd (hother ▸ (by decide)) hkey
      | method hother _ _ => exact absurd (hother ▸ (by decide)) hkey
      | params hother _ _ => exact absurd (hother ▸ (by decide)) hkey
      | unknown _ hfits => exact hfits hhead }

/-- An object that is accepted is a well-formed request. -/
theorem exists_wellFormed_of_parse {ms : List Member} {text w₀ w₁ : Bytes}
    {request : RpcRequest} (hobject : IsObject ms text) (hw₀ : Blank w₀)
    (h : anythingRpcParse (w₀ ++ (text ++ w₁)) = .ok request) :
    ∃ id method ps params, WellFormed ms id method ps params := by
  obtain ⟨st, hstart, h⟩ := bind_eq_ok.mp h
  obtain ⟨stf, hloop, hfinish⟩ := bind_eq_ok.mp h
  obtain ⟨-, hseen⟩ := rpcFinish_checks hfinish
  cases hobject with
  | @empty w hw =>
      have hempty : skipWs (w₀ ++ (lbrace :: w ++ [rbrace] ++ w₁)) =
          lbrace :: (w ++ (rbrace :: w₁)) := by
        rw [skipWs_blank hw₀, List.append_assoc, List.cons_append, skipWs_cons (by decide)]
        rfl
      have hclose : skipWs (w ++ rbrace :: w₁) = rbrace :: w₁ := by
        rw [skipWs_blank hw, skipWs_cons (by decide)]
      rw [rpcStart, if_neg (by simp), hempty] at hstart
      simp [hclose] at hstart
  | members hne hl hv =>
      obtain ⟨m, rest, rfl⟩ := List.exists_cons_of_ne_nil hne
      rw [rpcStart_objectText hw₀ (hl m List.mem_cons_self)] at hstart
      obtain rfl := Except.ok.inj hstart
      have hnone : TakenOnce [] := fun _ _ => Nat.zero_le 1
      obtain ⟨hread, honce⟩ := readable_of_rpcLoop w₁ rest hnone hl hv collected_nil hloop
      obtain ⟨st', hloop', -, hcollected⟩ := rpcLoop_collects honce hl hv
        (fun x hx => (hread x hx).1) (fun x hx => (hread x hx).2) w₁ rest rfl collected_nil
      obtain rfl := Except.ok.inj (hloop.symm.trans hloop')
      obtain ⟨ps, params, hwell⟩ := hcollected.wellFormed honce hread hseen
      exact ⟨_, _, ps, params, hwell⟩

theorem request_ext {json json' : Bytes} {request request' : RpcRequest}
    (h : anythingRpcParse json = .ok request) (h' : anythingRpcParse json' = .ok request')
    (hid : request.id.bytes = request'.id.bytes)
    (hmethod : request.method.bytes = request'.method.bytes)
    (hparams : request.params.bytes = request'.params.bytes) : request = request' := by
  have hsession : request.sessionId = request'.sessionId := by
    rw [sessionId_of_parse h, sessionId_of_parse h', hparams]
  apply RpcRequest.ext
  · exact CString.ext hid
  · exact CString.ext hmethod
  · exact hsession
  · exact CString.ext hparams
  · rw [anythingRpcParse_requestHash h, anythingRpcParse_requestHash h', hmethod, hparams,
      hsession]

/-! ## Unknown members -/

section Unknown

variable {ms₁ ms₂ : List Member} {m : Member} {v' w₀ w₁ : Bytes}

/-- A well-formed request with these members. -/
def Acceptable (ms : List Member) : Prop :=
  ∃ id method ps params, WellFormed ms id method ps params

/-- The text of a request with one of its members given. -/
def requestText (w₀ : Bytes) (ms₁ : List Member) (m : Member) (ms₂ : List Member)
    (w₁ : Bytes) : Bytes :=
  w₀ ++ (objectText (ms₁ ++ m :: ms₂) ++ w₁)

theorem membersAt_unknown (hkey : m.key ∉ takenKeys) {key : Bytes} (h : key ∈ takenKeys) :
    membersAt (ms₁ ++ m :: ms₂) key = membersAt (ms₁ ++ ms₂) key := by
  have hne : m.key ≠ key := by
    rintro rfl
    exact hkey h
  rw [membersAt_append, membersAt_cons_other ms₂ hne, ← membersAt_append]

theorem StringField.congr {ms ms' : List Member} {key dec : Bytes}
    (heq : membersAt ms key = membersAt ms' key) (h : StringField ms key dec) :
    StringField ms' key dec := by
  obtain ⟨m, hone, hv⟩ := h
  exact ⟨m, heq ▸ hone, hv⟩

theorem ParamsField.congr {ms ms' ps : List Member} {params : Bytes}
    (heq : membersAt ms (ascii "params") = membersAt ms' (ascii "params"))
    (h : ParamsField ms ps params) : ParamsField ms' ps params := by
  cases h with
  | absent hnone => exact .absent (heq ▸ hnone)
  | present hone hobject hfits => exact .present (heq ▸ hone) hobject hfits

/-- An unknown member has to fit, and nothing else. -/
theorem wellFormed_unknown_iff (hkey : m.key ∉ takenKeys) {ps : List Member}
    {id method params : Bytes} :
    WellFormed (ms₁ ++ m :: ms₂) id method ps params ↔
      WellFormed (ms₁ ++ ms₂) id method ps params ∧ m.key.length ≤ 63 ∧ ¬ TooBig m.value := by
  have hsame : ∀ {key}, key ∈ takenKeys →
      membersAt (ms₁ ++ m :: ms₂) key = membersAt (ms₁ ++ ms₂) key :=
    membersAt_unknown hkey
  have hmem : ∀ x, x ∈ ms₁ ++ m :: ms₂ ↔ x = m ∨ x ∈ ms₁ ++ ms₂ := by
    intro x
    simp only [List.mem_append, List.mem_cons]
    tauto
  constructor
  · intro h
    have hm := (hmem m).mpr (.inl rfl)
    refine ⟨?_, h.keysFit m hm, ?_⟩
    · exact {
        keysFit := fun x hx => h.keysFit x ((hmem x).mpr (.inr hx))
        jsonrpcField := h.jsonrpcField.congr (hsame (by decide))
        idField := h.idField.congr (hsame (by decide))
        idFits := h.idFits
        methodField := h.methodField.congr (hsame (by decide))
        methodFits := h.methodFits
        paramsField := h.paramsField.congr (hsame (by decide))
        unknown := fun x hx => h.unknown x ((hmem x).mpr (.inr hx)) }
    · rintro ⟨hhead, hbig⟩
      have hfits := h.unknown m hm hkey hhead
      omega
  · rintro ⟨h, hfits, hsmall⟩
    exact {
      keysFit := by
        intro x hx
        rcases (hmem x).mp hx with rfl | hx
        · exact hfits
        · exact h.keysFit x hx
      jsonrpcField := h.jsonrpcField.congr (hsame (by decide)).symm
      idField := h.idField.congr (hsame (by decide)).symm
      idFits := h.idFits
      methodField := h.methodField.congr (hsame (by decide)).symm
      methodFits := h.methodFits
      paramsField := h.paramsField.congr (hsame (by decide)).symm
      unknown := by
        intro x hx hx' hhead
        rcases (hmem x).mp hx with rfl | hx
        · by_contra hbig
          exact hsmall ⟨hhead, not_lt.mp hbig⟩
        · exact h.unknown x hx hx' hhead }

/-- A request with an unknown member is accepted when it would be without the member and
the member fits; then the fields are those of the other members. -/
theorem parse_unknown (hkey : m.key ∉ takenKeys) (hl : ∀ x ∈ ms₁ ++ m :: ms₂, x.Lexes)
    (hv : ∀ x ∈ ms₁ ++ m :: ms₂, IsValue x.value) (hw₀ : Blank w₀) (hw₁ : Blank w₁) :
    ((∃ request, anythingRpcParse (requestText w₀ ms₁ m ms₂ w₁) = .ok request) ↔
      Acceptable (ms₁ ++ ms₂) ∧ m.key.length ≤ 63 ∧ ¬ TooBig m.value) ∧
      ∀ request id method ps params, WellFormed (ms₁ ++ ms₂) id method ps params →
        anythingRpcParse (requestText w₀ ms₁ m ms₂ w₁) = .ok request →
        request.id.bytes = id ∧ request.method.bytes = method ∧
          request.params.bytes = params := by
  have hobject : IsObject (ms₁ ++ m :: ms₂) (objectText (ms₁ ++ m :: ms₂)) :=
    .members (by simp) hl hv
  have hfields : ∀ {id method ps params}, WellFormed (ms₁ ++ m :: ms₂) id method ps params →
      ∃ request, anythingRpcParse (requestText w₀ ms₁ m ms₂ w₁) = .ok request ∧
        request.id.bytes = id ∧ request.method.bytes = method ∧
        request.params.bytes = params := by
    intro id method ps params hwell
    obtain ⟨request, hparse, hid, hmethod, hparams⟩ :=
      exists_parse_of_wellFormed hobject hw₀ hw₁ hwell
    exact ⟨request, hparse, hid, hmethod, hparams⟩
  have hfits : ∀ {request}, anythingRpcParse (requestText w₀ ms₁ m ms₂ w₁) = .ok request →
      Acceptable (ms₁ ++ ms₂) ∧ m.key.length ≤ 63 ∧ ¬ TooBig m.value := by
    intro request h
    obtain ⟨id, method, ps, params, hwell⟩ := exists_wellFormed_of_parse hobject hw₀ h
    obtain ⟨hrest, hmember⟩ := (wellFormed_unknown_iff hkey).mp hwell
    exact ⟨⟨id, method, ps, params, hrest⟩, hmember⟩
  refine ⟨⟨?_, ?_⟩, ?_⟩
  · rintro ⟨request, h⟩
    exact hfits h
  · rintro ⟨⟨id, method, ps, params, hwell⟩, hmember⟩
    obtain ⟨request, hparse, -⟩ := hfields ((wellFormed_unknown_iff hkey).mpr ⟨hwell, hmember⟩)
    exact ⟨request, hparse⟩
  · intro request id method ps params hwell h
    obtain ⟨request', hparse, hrest⟩ :=
      hfields ((wellFormed_unknown_iff hkey).mpr ⟨hwell, (hfits h).2⟩)
    obtain rfl := Except.ok.inj (h.symm.trans hparse)
    exact hrest

theorem replaced_lexes (hl : ∀ x ∈ ms₁ ++ m :: ms₂, x.Lexes) :
    ∀ x ∈ ms₁ ++ { m with value := v' } :: ms₂, x.Lexes := by
  simp only [List.forall_mem_append, List.forall_mem_cons] at hl ⊢
  obtain ⟨h₁, hm, h₂⟩ := hl
  exact ⟨h₁, ⟨hm.blank₀, hm.key, hm.blank₁, hm.blank₂, hm.blank₃⟩, h₂⟩

theorem replaced_values (hv : ∀ x ∈ ms₁ ++ m :: ms₂, IsValue x.value) (hv' : IsValue v') :
    ∀ x ∈ ms₁ ++ { m with value := v' } :: ms₂, IsValue x.value := by
  simp only [List.forall_mem_append, List.forall_mem_cons] at hv ⊢
  obtain ⟨h₁, -, h₂⟩ := hv
  exact ⟨h₁, hv', h₂⟩

/-- The value of an unknown member does not matter for the outcome, except that an object
that does not fit the scratch buffer is refused. -/
theorem parse_replace_iff (hkey : m.key ∉ takenKeys) (hl : ∀ x ∈ ms₁ ++ m :: ms₂, x.Lexes)
    (hv : ∀ x ∈ ms₁ ++ m :: ms₂, IsValue x.value) (hv' : IsValue v') (hw₀ : Blank w₀)
    (hw₁ : Blank w₁) :
    (anythingRpcParse (requestText w₀ ms₁ m ms₂ w₁)).toOption =
        (anythingRpcParse (requestText w₀ ms₁ { m with value := v' } ms₂ w₁)).toOption ↔
      (TooBig m.value ↔ TooBig v') ∨ ¬ Acceptable (ms₁ ++ ms₂) ∨ 63 < m.key.length := by
  obtain ⟨haccepts, hfields⟩ := parse_unknown hkey hl hv hw₀ hw₁
  obtain ⟨haccepts', hfields'⟩ := parse_unknown (m := { m with value := v' }) hkey
    (replaced_lexes hl) (replaced_values hv hv') hw₀ hw₁
  constructor
  · intro heq
    by_cases hrest : Acceptable (ms₁ ++ ms₂) ∧ m.key.length ≤ 63
    · left
      have hsame : (∃ request, anythingRpcParse (requestText w₀ ms₁ m ms₂ w₁) = .ok request) ↔
          ∃ request, anythingRpcParse (requestText w₀ ms₁ { m with value := v' } ms₂ w₁) =
            .ok request := by
        simp only [← toOption_eq_some, heq]
      rw [haccepts, haccepts'] at hsame
      have hsmall : ¬ TooBig m.value ↔ ¬ TooBig v' :=
        ⟨fun h => (hsame.mp ⟨hrest.1, hrest.2, h⟩).2.2,
          fun h => (hsame.mpr ⟨hrest.1, hrest.2, h⟩).2.2⟩
      exact not_iff_not.mp hsmall
    · right
      rw [not_and_or, not_le] at hrest
      exact hrest
  · intro hcondition
    have hsame : (∃ request, anythingRpcParse (requestText w₀ ms₁ m ms₂ w₁) = .ok request) ↔
        ∃ request, anythingRpcParse (requestText w₀ ms₁ { m with value := v' } ms₂ w₁) =
          .ok request := by
      rw [haccepts, haccepts']
      rcases hcondition with hbig | hrest | hlong
      · simp only [hbig]
      · exact iff_of_false (fun h => hrest h.1) (fun h => hrest h.1)
      · exact iff_of_false (fun h => not_lt.mpr h.2.1 hlong) (fun h => not_lt.mpr h.2.1 hlong)
    cases hparse : anythingRpcParse (requestText w₀ ms₁ m ms₂ w₁) with
    | ok request =>
        obtain ⟨request', hparse'⟩ := hsame.mp ⟨request, hparse⟩
        obtain ⟨⟨id, method, ps, params, hwell⟩, -⟩ := haccepts.mp ⟨request, hparse⟩
        obtain ⟨hid, hmethod, hparams⟩ := hfields request _ _ _ _ hwell hparse
        obtain ⟨hid', hmethod', hparams'⟩ := hfields' request' _ _ _ _ hwell hparse'
        rw [hparse', request_ext hparse hparse' (hid.trans hid'.symm)
          (hmethod.trans hmethod'.symm) (hparams.trans hparams'.symm)]
    | error e =>
        cases hparse' : anythingRpcParse (requestText w₀ ms₁ { m with value := v' } ms₂ w₁) with
        | ok request' =>
            obtain ⟨request, hok⟩ := hsame.mpr ⟨request', hparse'⟩
            rw [hparse] at hok
            cases hok
        | error e' => rfl

end Unknown

namespace Sample

/-- The members of the sample request behind its unknown one. -/
def knownMembers : List Member := members.tail

/-- An object without members, with `k` blanks in it. -/
def blankObject (k : ℕ) : Bytes := lbrace :: List.replicate k 0x20 ++ [rbrace]

theorem isValue_blankObject (k : ℕ) : IsValue (blankObject k) := by
  apply IsValue.emptyObject
  intro c hc
  rw [List.eq_of_mem_replicate hc]
  decide

theorem tooBig_blankObject {k : ℕ} (h : 1022 ≤ k) : TooBig (blankObject k) := by
  refine ⟨rfl, ?_⟩
  rw [blankObject, List.length_append, List.length_cons, List.length_replicate,
    List.length_singleton]
  omega

end Sample

theorem parse_replace_sample :
    (anythingRpcParse (requestText [] [] (Sample.member "x" (literal (ascii "a")))
        Sample.knownMembers [])).toOption =
      (anythingRpcParse (requestText [] [] (Sample.member "x" (literal (ascii "bc")))
        Sample.knownMembers [])).toOption := by
  have hsample := Sample.members_isObject
  have hl : ∀ x ∈ [] ++ Sample.member "x" (literal (ascii "a")) :: Sample.knownMembers,
      x.Lexes := replaced_lexes (m := Sample.members.head (by decide)) hsample.lexes
  have hv : ∀ x ∈ [] ++ Sample.member "x" (literal (ascii "a")) :: Sample.knownMembers,
      IsValue x.value := replaced_values (m := Sample.members.head (by decide)) hsample.value
        (Sample.isValue (by decide))
  exact (parse_replace_iff (by decide) hl hv (Sample.isValue (by decide)) blank_nil
    blank_nil).mpr (.inl (by decide))

/-- With an object of 1024 bytes for the value of an unknown member a request is refused. -/
theorem not_parse_replace :
    ¬ ∀ (ms₁ ms₂ : List Member) (m : Member) (v' : Bytes), m.key ∉ takenKeys →
      (∀ x ∈ ms₁ ++ m :: ms₂, x.Lexes) → (∀ x ∈ ms₁ ++ m :: ms₂, IsValue x.value) →
      IsValue v' →
      (anythingRpcParse (requestText [] ms₁ m ms₂ [])).toOption =
        (anythingRpcParse (requestText [] ms₁ { m with value := v' } ms₂ [])).toOption := by
  intro h
  have hsample := Sample.members_isObject
  have hbig := Sample.isValue_blankObject 1022
  have heq := h [] Sample.knownMembers (Sample.members.head (by decide))
    (Sample.blankObject 1022) (by decide) hsample.lexes hsample.value hbig
  obtain ⟨request, hparse, -⟩ :=
    exists_parse_of_wellFormed hsample blank_nil blank_nil Sample.wellFormed
  have hparse' : anythingRpcParse (requestText [] [] (Sample.members.head (by decide))
      Sample.knownMembers []) = .ok request := hparse
  rw [toOption_eq_some.mpr hparse'] at heq
  obtain ⟨-, -, hfits⟩ := (parse_unknown (m := { Sample.members.head (by decide) with
    value := Sample.blankObject 1022 }) (by decide) (replaced_lexes hsample.lexes)
    (replaced_values hsample.value hbig) blank_nil blank_nil).1.mp
    ⟨request, toOption_eq_some.mp heq.symm⟩
  exact hfits (Sample.tooBig_blankObject (by decide))

end AnythingTool
