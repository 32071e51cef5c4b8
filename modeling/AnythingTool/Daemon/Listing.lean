import AnythingTool.Daemon.Binding
import AnythingTool.Rpc.Lines

/-!
# The list of stored requests

`listObject` is the list as an object: an array with an object for every stored
request, in the order of the slots. `anything_approval_list_json` prints it whole or
refuses (`anythingApprovalListJson_eq_some`).

Every stored request has the same method, risk and summary and an id of one or two
digits, so the length of the list is a function of the number of stored requests. The
list buffer holds thirty-two of them.
-/

namespace AnythingTool

open CText JsonText

variable {n : ℕ}

/-! ## What is printed -/

/-- A stored request as an object of the list. -/
def entryObject (p : PendingRequest) : Bytes :=
  objectText (fields [("request_id", stringValue p.requestId.bytes),
    ("method", stringValue p.method.bytes), ("risk", stringValue p.risk.bytes),
    ("status", formatInt p.status.code), ("summary", stringValue p.summary.bytes)])

def listObject (ps : List PendingRequest) : Bytes :=
  objectText (fields [("pending", bareArray (ps.map entryObject))])

/-- The fields of an entry fit the buffers they are escaped into. -/
structure EntryFits (p : PendingRequest) : Prop where
  requestId : (escaped p.requestId.bytes).length < 128
  method : (escaped p.method.bytes).length < 128
  risk : (escaped p.risk.bytes).length < 64
  summary : (escaped p.summary.bytes).length < 512

/-- The entries, with a comma before all of them or before all but the first. -/
def listItems (first : Bool) : List PendingRequest → Bytes
  | [] => []
  | p :: ps => (if first then [] else [comma]) ++ entryObject p ++ listItems false ps

theorem listItems_true (ps : List PendingRequest) :
    listItems true ps = commaSep (ps.map entryObject) := by
  have htail : ∀ (ps : List PendingRequest) (p : PendingRequest),
      entryObject p ++ listItems false ps = commaSep ((p :: ps).map entryObject) := by
    intro ps
    induction ps with
    | nil =>
        intro p
        rw [listItems, List.append_nil]
        rfl
    | cons q ps ih =>
        intro p
        rw [listItems, List.append_assoc, ih q]
        rfl
  cases ps with
  | nil => rfl
  | cons p ps => exact htail ps p

theorem listObject_eq (ps : List PendingRequest) :
    listObject ps = ascii "\x7b\"pending\":[" ++ listItems true ps ++ ascii "]\x7d" := by
  have hbare : ps.map (Element.text ∘ bareElement ∘ entryObject) = ps.map entryObject := by
    apply List.map_congr_left
    intro p _
    simp [Element.text, bareElement]
  simp only [listObject, objectText_fields_cons, moreFields, field_text, bareArray, arrayText,
    List.map_map, hbare, ← listItems_true, List.flatMap_nil, List.append_assoc,
    List.cons_append, List.nil_append]
  rfl

theorem listEntryText_eq (first : Bool) {p : PendingRequest} {requestId method : CString 128}
    {risk : CString 64} {summary : CString 512}
    (hid : requestId.bytes = escaped p.requestId.bytes)
    (hmethod : method.bytes = escaped p.method.bytes)
    (hrisk : risk.bytes = escaped p.risk.bytes)
    (hsummary : summary.bytes = escaped p.summary.bytes) :
    listEntryText first p requestId method risk summary =
      (if first then [] else [comma]) ++ entryObject p := by
  cases first
  all_goals
    simp only [listEntryText, hid, hmethod, hrisk, hsummary, entryObject,
      objectText_fields_cons, moreFields, field_text, stringValue, literal, List.flatMap_cons,
      List.flatMap_nil, List.append_assoc, List.cons_append, List.nil_append]
    rfl

theorem inline_entryObject (p : PendingRequest) : Inline (entryObject p) := by
  apply Inline.object (by simp)
  · simp only [PlainKeys, List.forall_mem_cons]
    decide
  · simp only [List.forall_mem_cons]
    exact ⟨inline_stringValue _, inline_stringValue _, inline_stringValue _, .number _,
      inline_stringValue _, by simp⟩

theorem inline_listObject (ps : List PendingRequest) : Inline (listObject ps) := by
  apply Inline.object (by simp)
  · simp only [PlainKeys, List.forall_mem_cons]
    decide
  · simp only [List.forall_mem_cons]
    refine ⟨.array ?_, by simp⟩
    intro v hv
    obtain ⟨p, -, rfl⟩ := List.mem_map.mp hv
    exact inline_entryObject p

theorem listLoop_eq_some {out out' : CString n} {first : Bool} {ps : List PendingRequest}
    (hfits : ∀ p ∈ ps, EntryFits p) :
    listLoop out first ps = some out' ↔ out'.bytes = out.bytes ++ listItems first ps := by
  induction ps generalizing out first with
  | nil =>
      rw [listLoop, listItems, List.append_nil, Option.some.injEq, CString.ext_iff]
      exact eq_comm
  | cons p ps ih =>
      obtain ⟨hp, hps⟩ := List.forall_mem_cons.mp hfits
      obtain ⟨requestId, hid⟩ :=
        (exists_anythingJsonEscapeString_iff p.requestId.noNul).mpr hp.requestId
      obtain ⟨method, hmethod⟩ :=
        (exists_anythingJsonEscapeString_iff p.method.noNul).mpr hp.method
      obtain ⟨risk, hrisk⟩ := (exists_anythingJsonEscapeString_iff p.risk.noNul).mpr hp.risk
      obtain ⟨summary, hsummary⟩ :=
        (exists_anythingJsonEscapeString_iff p.summary.noNul).mpr hp.summary
      have htext := listEntryText_eq first
        ((anythingJsonEscapeString_eq_some p.requestId.noNul).mp hid)
        ((anythingJsonEscapeString_eq_some p.method.noNul).mp hmethod)
        ((anythingJsonEscapeString_eq_some p.risk.noNul).mp hrisk)
        ((anythingJsonEscapeString_eq_some p.summary.noNul).mp hsummary)
      have h0 : (0 : UInt8) ∉ (if first then [] else [comma]) ++ entryObject p := by
        have hp0 := (inline_entryObject p).zero_notMem
        cases first
        · simpa [comma] using hp0
        · simpa using hp0
      rw [listLoop]
      simp only [hid, hmethod, hrisk, hsummary, htext]
      cases hprint : out.snprintfAt ((if first then [] else [comma]) ++ entryObject p) with
      | none =>
          simp only [reduceCtorEq, false_iff]
          intro hb
          rw [listItems, ← List.append_assoc] at hb
          obtain ⟨out₁, hout₁⟩ := CString.exists_prefix hb
          rw [(CString.snprintfAt_eq_some h0).mpr hout₁] at hprint
          cases hprint
      | some out₁ =>
          simp only [ih hps, (CString.snprintfAt_eq_some h0).mp hprint, listItems,
            List.append_assoc]

/-- The list is printed whole, when it fits. -/
theorem anythingApprovalListJson_eq_some [HasRoom n] {store : ApprovalStore} {out : CString n}
    (hfits : ∀ p ∈ store.pending, EntryFits p) :
    anythingApprovalListJson n store = some out ↔ out.bytes = listObject store.pending := by
  have hopen : (0 : UInt8) ∉ ascii "\x7b\"pending\":[" := by decide
  have hclose : (0 : UInt8) ∉ ascii "]\x7d" := by decide
  rw [listObject_eq]
  unfold anythingApprovalListJson
  constructor
  · intro h
    obtain ⟨out₁, hout₁, h⟩ := Option.bind_eq_some_iff.mp h
    obtain ⟨out₂, hout₂, h⟩ := Option.bind_eq_some_iff.mp h
    rw [(CString.snprintfAt_eq_some hclose).mp h, (listLoop_eq_some hfits).mp hout₂,
      (CString.snprintfAt_eq_some hopen).mp hout₁, CString.empty_bytes, List.nil_append]
  · intro h
    obtain ⟨out₂, hout₂⟩ := CString.exists_prefix h
    obtain ⟨out₁, hout₁⟩ := CString.exists_prefix hout₂
    have h₁ : (CString.empty : CString n).snprintfAt (ascii "\x7b\"pending\":[") = some out₁ :=
      (CString.snprintfAt_eq_some hopen).mpr hout₁
    have h₂ : listLoop out₁ true store.pending = some out₂ :=
      (listLoop_eq_some hfits).mpr (by rw [hout₂, hout₁])
    have h₃ : out₂.snprintfAt (ascii "]\x7d") = some out :=
      (CString.snprintfAt_eq_some hclose).mpr (by rw [h, hout₂])
    simp only [h₁, h₂, h₃, bind, Option.bind]

/-! ## How long it is -/

/-- The fields that every stored request has in common, and its id. -/
structure Standard (slot : ℕ) (p : PendingRequest) : Prop where
  requestId : p.requestId.bytes = ascii "req_" ++ formatNat (slot + 1)
  method : p.method.bytes = ascii "sys.info"
  risk : p.risk.bytes = ascii "low"
  summary : p.summary.bytes = ascii "Read Linux system information with sys.info"

theorem Bound.standard {config : Config} {history : List DaemonRecord} {slot : ℕ}
    {p : PendingRequest} (h : Bound config history slot p) : Standard slot p := by
  obtain ⟨r, -, -, request, hto⟩ := h
  have hmethod := (anythingPolicyPreflight_ne_deny.mp hto.allowed).1
  have hpolicy := allowed_policy hto.allowed
  exact ⟨hto.requestId, hto.method ▸ hmethod, hto.risk ▸ hpolicy.1, hto.summary ▸ hpolicy.2⟩

/-- All entries of a store are standard, each for its slot. -/
def StandardStore (ps : List PendingRequest) : Prop :=
  ∀ slot p, ps[slot]? = some p → Standard slot p

theorem standardStore_run (config : Config) (is : List Input) :
    StandardStore ((daemon config).run is).approvals.pending :=
  fun slot p hstored => (bound_run config is slot p hstored).standard

theorem unescaped_requestId (k : ℕ) : ∀ c ∈ ascii "req_" ++ formatNat k, Unescaped c := by
  intro c hc
  rcases List.mem_append.mp hc with hc | hc
  · have hprefix : ∀ c ∈ ascii "req_", Unescaped c := by decide
    exact hprefix c hc
  · have hdigit := (intPart_formatNat k).1.2 c hc
    refine ⟨UInt8.le_trans (by decide) hdigit.1, ?_, ?_⟩
    · rintro rfl
      exact absurd hdigit.1 (by decide)
    · rintro rfl
      exact absurd hdigit.2 (by decide)

theorem escaped_requestId (k : ℕ) :
    escaped (ascii "req_" ++ formatNat k) = ascii "req_" ++ formatNat k :=
  escaped_of_unescaped (unescaped_requestId k)

theorem length_formatNat {k : ℕ} (h : k ≤ 65) :
    (formatNat k).length = if k < 10 then 1 else 2 := by
  have hsmall : ∀ k < 66, (formatNat k).length = if k < 10 then 1 else 2 := by decide
  exact hsmall k (by omega)

theorem Standard.fits {slot : ℕ} {p : PendingRequest} (h : Standard slot p) (hslot : slot < 64) :
    EntryFits p := by
  have hlen := length_formatNat (k := slot + 1) (by omega)
  constructor
  · rw [h.requestId, escaped_requestId, List.length_append, hlen]
    have hprefix : (ascii "req_").length = 4 := by decide
    split_ifs
    · omega
    · omega
  · rw [h.method]
    decide
  · rw [h.risk]
    decide
  · rw [h.summary]
    decide

theorem length_statusCode (status : ApprovalStatus) : (formatInt status.code).length = 1 := by
  cases status
  all_goals decide

theorem Standard.length_entryObject {slot : ℕ} {p : PendingRequest} (h : Standard slot p)
    (hslot : slot < 64) :
    (entryObject p).length = if slot < 9 then 122 else 123 := by
  have hlen := length_formatNat (k := slot + 1) (by omega)
  have hkeys : (ascii "request_id").length = 10 ∧ (ascii "method").length = 6 ∧
      (ascii "risk").length = 4 ∧ (ascii "status").length = 6 ∧
      (ascii "summary").length = 7 ∧ (ascii "req_").length = 4 := by decide
  have hmethod : (escaped (ascii "sys.info")).length = 8 := by decide
  have hrisk : (escaped (ascii "low")).length = 3 := by decide
  have hsummary :
      (escaped (ascii "Read Linux system information with sys.info")).length = 43 := by decide
  rw [entryObject, h.requestId, h.method, h.risk, h.summary]
  simp only [objectText_fields_cons, moreFields, field_text, stringValue, literal,
    escaped_requestId, List.flatMap_cons, List.flatMap_nil, List.length_append,
    List.length_cons, List.length_nil, length_statusCode, hkeys, hmethod, hrisk, hsummary, hlen]
  split_ifs
  · omega
  · omega
  · omega
  · omega

theorem listItems_append (first : Bool) (ps : List PendingRequest) (p : PendingRequest) :
    listItems first (ps ++ [p]) = listItems first ps ++ listItems (first && ps.isEmpty) [p] := by
  induction ps generalizing first with
  | nil => cases first <;> rfl
  | cons q ps ih => simp [listItems, ih]

/-- The length of the items, as a function of their number. -/
theorem length_listItems {ps : List PendingRequest} (h : StandardStore ps)
    (hcount : ps.length ≤ 64) :
    (listItems true ps).length = 123 * ps.length + (ps.length - 9) - 1 := by
  induction ps using List.reverseRecOn with
  | nil => rfl
  | append_singleton ps p ih =>
      rw [List.length_append, List.length_singleton] at hcount ⊢
      have hps : StandardStore ps := by
        intro slot q hstored
        apply h slot q
        rw [List.getElem?_append_left (List.getElem?_eq_some_iff.mp hstored).1, hstored]
      have hp := (h ps.length p List.getElem?_concat_length).length_entryObject (by omega)
      rw [listItems_append, List.length_append, ih hps (by omega)]
      cases ps with
      | nil => simpa [listItems] using hp
      | cons q ps =>
          simp only [listItems, List.isEmpty_cons, Bool.and_false, Bool.false_eq_true, if_false,
            List.append_nil, List.length_append, List.length_cons, List.length_nil, hp] at hp ⊢
          split_ifs
          · omega
          · omega

theorem StandardStore.fits {ps : List PendingRequest} (h : StandardStore ps)
    (hcount : ps.length ≤ 64) : ∀ p ∈ ps, EntryFits p := by
  intro p hp
  obtain ⟨slot, hstored⟩ := List.mem_iff_getElem?.mp hp
  have hslot := (List.getElem?_eq_some_iff.mp hstored).1
  exact (h slot p hstored).fits (lt_of_lt_of_le hslot hcount)

theorem length_listObject {ps : List PendingRequest} (h : StandardStore ps)
    (hcount : ps.length ≤ 64) :
    (listObject ps).length = 14 + (123 * ps.length + (ps.length - 9) - 1) := by
  have hopen : (ascii "\x7b\"pending\":[").length = 12 := by decide
  have hclose : (ascii "]\x7d").length = 2 := by decide
  rw [listObject_eq, List.length_append, List.length_append, length_listItems h hcount, hopen,
    hclose]
  omega

/-- The list buffer holds thirty-two entries. -/
theorem exists_list_iff {store : ApprovalStore} (h : StandardStore store.pending)
    (hcount : store.count ≤ 64) :
    (∃ list, anythingApprovalListJson 4096 store = some list) ↔ store.count ≤ 32 := by
  have hfits := h.fits hcount
  have hlength := length_listObject h hcount
  rw [← ApprovalStore.count] at hlength
  constructor
  · rintro ⟨list, hlist⟩
    have hbytes := (anythingApprovalListJson_eq_some hfits).mp hlist
    have hroom := list.fits
    rw [hbytes, hlength] at hroom
    omega
  · intro hfew
    refine ⟨⟨listObject store.pending, (inline_listObject _).zero_notMem, ?_⟩, ?_⟩
    · rw [hlength]
      omega
    · exact (anythingApprovalListJson_eq_some hfits).mpr rfl

/-! ## Stores of every size -/

namespace Sample

/-- An admin's request for the list, with these bytes between the quotes of its id. -/
def askForList (rawId : Bytes) : Input :=
  ⟨.admin, operator, ascii "\x7b\"jsonrpc\":\"2.0\",\"id\":\"" ++ rawId ++
    ascii "\",\"method\":\"approval.list\"\x7d\n", env written⟩

theorem admits_ask {approvals : ApprovalStore} (hroom : approvals.count < approvalMaxPending) :
    ∃ request, Admits config approvals (ask written) request := by
  obtain ⟨request, hparse⟩ := exists_ok_of_isSome
    (by decide +kernel : (anythingRpcParse (ask written).body).toOption.isSome = true)
  have hfacts : ∀ request, anythingRpcParse (ask written).body = .ok request →
      (auditWrite written (receivedEvent request agent)).ok = true ∧
        request.method.bytes = ascii "sys.info" := by decide +kernel
  obtain ⟨hreceived, hmethod⟩ := hfacts request hparse
  exact ⟨request, rfl, hparse, hreceived, hmethod, rfl, hroom⟩

theorem count_asks {k : ℕ} (hk : k ≤ approvalMaxPending) :
    ((daemon config).run (List.replicate k (ask written))).approvals.count = k := by
  induction k with
  | zero => rfl
  | succ k ih =>
      have hcount := ih (Nat.le_of_succ_le hk)
      have hroom : ((daemon config).run (List.replicate k (ask written))).approvals.count <
          approvalMaxPending := by
        rw [hcount]
        exact hk
      obtain ⟨request, hadmits⟩ := admits_ask hroom
      rw [List.replicate_succ', Transition.Machine.run_append_singleton, daemon_step_approvals,
        hadmits.handled, count_push, hcount]

end Sample

end AnythingTool
