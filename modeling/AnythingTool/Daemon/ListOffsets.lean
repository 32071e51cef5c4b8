import AnythingTool.Daemon.Listing

/-!
# The offset of the list printer

The loop of `anything_approval_list_json` keeps the offset behind the text printed so far
in `used` and computes the room that is left as `out_len - used`, on `size_t`. Here the
offset is a number of its own and the subtraction wraps around. `listLoopAt_refines` says
that the offset is always the length of the text, so below `out_len`, and that the loop is
the one on buffers that carry their size.
-/

namespace AnythingTool

open CText JsonText

variable {n : ℕ}

/-- `a - b` on `size_t`. -/
def sizeSub (a b : ℕ) : ℕ := (2 ^ 64 + a - b) % 2 ^ 64

/-- The text in `out` before its NUL, and `used`. -/
structure OutAt where
  text : Bytes
  used : ℕ
deriving DecidableEq

/-- `wrote = snprintf(out + used, out_len - used, ...)`, the check of `wrote`, and
`used += wrote`. -/
def printAt (outLen : ℕ) (o : OutAt) (text : Bytes) : Option OutAt :=
  if text.length ≥ sizeSub outLen o.used then none
  else some ⟨o.text.take o.used ++ cstr text, o.used + text.length⟩

/-- The loop of `anything_approval_list_json` with its offset: what it ends with, and the
offset at the start of every iteration and behind the last one. -/
def listLoopAt (outLen : ℕ) (o : OutAt) (first : Bool) :
    List PendingRequest → Option OutAt × List ℕ
  | [] => (some o, [o.used])
  | p :: ps =>
      match anythingJsonEscapeString 128 p.requestId.bytes,
          anythingJsonEscapeString 128 p.method.bytes,
          anythingJsonEscapeString 64 p.risk.bytes,
          anythingJsonEscapeString 512 p.summary.bytes with
      | some requestId, some method, some risk, some summary =>
          match printAt outLen o (listEntryText first p requestId method risk summary) with
          | none => (none, [o.used])
          | some o' =>
              let rest := listLoopAt outLen o' false ps
              (rest.1, o.used :: rest.2)
      | _, _, _, _ => (none, [o.used])

/-- `anything_approval_list_json` with its offset: the text when it returns `0`, and the
offset before every call of `snprintf`. -/
def listJsonAt (outLen : ℕ) (store : ApprovalStore) : Option Bytes × List ℕ :=
  match printAt outLen ⟨[], 0⟩ (ascii "\x7b\"pending\":[") with
  | none => (none, [0])
  | some o =>
      let rest := listLoopAt outLen o true store.pending
      (rest.1.bind fun o => (printAt outLen o (ascii "]\x7d")).map OutAt.text, 0 :: rest.2)

/-! ## The buffer behind the offset -/

/-- The offset is at the end of the text in the buffer. -/
structure AtEnd (out : CString n) (o : OutAt) : Prop where
  text : o.text = out.bytes
  used : o.used = out.bytes.length

theorem sizeSub_eq {a b : ℕ} (hle : b ≤ a) (hsize : a < 2 ^ 64) : sizeSub a b = a - b := by
  have hsum : 2 ^ 64 + a - b = 2 ^ 64 + (a - b) := by omega
  rw [sizeSub, hsum, Nat.add_mod_left, Nat.mod_eq_of_lt (by omega)]

theorem AtEnd.used_lt {out : CString n} {o : OutAt} (h : AtEnd out o) : o.used < n := by
  rw [h.used]
  exact out.fits

/-- One call prints what the buffer takes, and moves the offset behind it. -/
theorem AtEnd.print {out : CString n} {o : OutAt} (h : AtEnd out o) (hsize : n < 2 ^ 64)
    {text : Bytes} (h0 : (0 : UInt8) ∉ text) :
    (printAt n o text = none ∧ out.snprintfAt text = none) ∨
      ∃ o' out', printAt n o text = some o' ∧ out.snprintfAt text = some out' ∧
        AtEnd out' o' := by
  have hroom : sizeSub n o.used = n - out.bytes.length := by
    rw [h.used, sizeSub_eq out.fits.le hsize]
  rw [printAt, hroom]
  unfold CString.snprintfAt
  split_ifs with hlong
  · exact .inl ⟨rfl, rfl⟩
  · refine .inr ⟨_, _, rfl, rfl, ?_, ?_⟩
    · rw [h.text, h.used, List.take_length]
    · have hlen : (out.bytes ++ cstr text).length = out.bytes.length + text.length := by
        rw [cstr_of_notMem h0, List.length_append]
      rw [h.used]
      exact hlen.symm

theorem zero_notMem_listEntryText (first : Bool) (p : PendingRequest)
    (requestId method : CString 128) (risk : CString 64) (summary : CString 512) :
    (0 : UInt8) ∉ listEntryText first p requestId method risk summary := by
  have hstatus : (0 : UInt8) ∉ formatInt p.status.code := by
    cases p.status
    all_goals decide
  have htexts : (0 : UInt8) ∉ ascii "\x7b\"request_id\":\"" ∧
      (0 : UInt8) ∉ ascii "\",\"method\":\"" ∧ (0 : UInt8) ∉ ascii "\",\"risk\":\"" ∧
      (0 : UInt8) ∉ ascii "\",\"status\":" ∧ (0 : UInt8) ∉ ascii ",\"summary\":\"" ∧
      (0 : UInt8) ∉ ascii "\"\x7d" ∧ (0 : UInt8) ∉ ascii "," := by decide
  cases first
  all_goals
    simp [listEntryText, hstatus, htexts, requestId.noNul, method.noNul, risk.noNul,
      summary.noNul]

/-- The loop with the offset does what the loop on buffers does, and the offset stays
inside of the buffer. -/
theorem listLoopAt_refines (hsize : n < 2 ^ 64) (ps : List PendingRequest) {first : Bool}
    {out : CString n} {o : OutAt} (h : AtEnd out o) :
    (((listLoopAt n o first ps).1 = none ∧ listLoop out first ps = none) ∨
      ∃ o' out', (listLoopAt n o first ps).1 = some o' ∧ listLoop out first ps = some out' ∧
        AtEnd out' o') ∧
      ∀ used ∈ (listLoopAt n o first ps).2, used < n := by
  have hstart := h.used_lt
  induction ps generalizing first out o with
  | nil =>
      refine ⟨.inr ⟨o, out, rfl, rfl, h⟩, ?_⟩
      simpa [listLoopAt] using hstart
  | cons p ps ih =>
      rw [listLoopAt]
      split
      · rename_i requestId method risk summary hid hmethod hrisk hsummary
        rw [listLoop]
        have h0 := zero_notMem_listEntryText first p requestId method risk summary
        simp only [hid, hmethod, hrisk, hsummary]
        rcases h.print hsize h0 with ⟨hat, hprint⟩ | ⟨o', out', hat, hprint, h'⟩
        · simp only [hat, hprint]
          exact ⟨.inl ⟨trivial, trivial⟩, by simpa using hstart⟩
        · simp only [hat, hprint]
          obtain ⟨hresult, hoffsets⟩ := @ih false _ _ h' h'.used_lt
          exact ⟨hresult, List.forall_mem_cons.mpr ⟨hstart, hoffsets⟩⟩
      · rename_i hescape
        have hloop : listLoop out first (p :: ps) = none := by
          rw [listLoop]
          split
          · rename_i requestId method risk summary hid hmethod hrisk hsummary
            exact absurd hsummary (hescape _ _ _ _ hid hmethod hrisk)
          · rfl
        rw [hloop]
        exact ⟨.inl ⟨rfl, rfl⟩, by simpa using hstart⟩

theorem listJsonAt_refines [HasRoom n] (hsize : n < 2 ^ 64) (store : ApprovalStore) :
    (listJsonAt n store).1 = (anythingApprovalListJson n store).map CString.bytes ∧
      ∀ used ∈ (listJsonAt n store).2, used < n := by
  have hpos : 0 < n := HasRoom.pos
  have hopen : (0 : UInt8) ∉ ascii "\x7b\"pending\":[" := by decide
  have hclose : (0 : UInt8) ∉ ascii "]\x7d" := by decide
  have hempty : AtEnd (CString.empty : CString n) ⟨[], 0⟩ := ⟨rfl, rfl⟩
  unfold listJsonAt anythingApprovalListJson
  simp only [bind]
  rcases hempty.print hsize hopen with ⟨hat, hprint⟩ | ⟨o, out, hat, hprint, h⟩
  · simp only [hat, hprint, Option.bind_none, Option.map_none, true_and]
    simpa using hpos
  · obtain ⟨hresult, hoffsets⟩ := @listLoopAt_refines n hsize store.pending true _ _ h
    simp only [hat, hprint, Option.bind_some]
    refine ⟨?_, List.forall_mem_cons.mpr ⟨hpos, hoffsets⟩⟩
    rcases hresult with ⟨hnone, hloop⟩ | ⟨o', out', hsome, hloop, h'⟩
    · simp only [hnone, hloop, Option.bind_none, Option.map_none]
    · simp only [hsome, hloop, Option.bind_some]
      rcases h'.print hsize hclose with ⟨hat', hprint'⟩ | ⟨o₂, out₂, hat', hprint', h₂⟩
      · simp only [hat', hprint', Option.map_none]
      · simp only [hat', hprint', Option.map_some, h₂.text]

/-! ## What the code prints -/

theorem entryFits_of_listLoop {ps : List PendingRequest} {out out' : CString n} {first : Bool}
    (h : listLoop out first ps = some out') : ∀ p ∈ ps, EntryFits p := by
  induction ps generalizing out first with
  | nil => exact List.forall_mem_nil _
  | cons p ps ih =>
      rw [listLoop] at h
      split at h
      · rename_i requestId method risk summary hid hmethod hrisk hsummary
        split at h
        · cases h
        · refine List.forall_mem_cons.mpr ⟨⟨?_, ?_, ?_, ?_⟩, ih h⟩
          · exact (exists_anythingJsonEscapeString_iff p.requestId.noNul).mp ⟨_, hid⟩
          · exact (exists_anythingJsonEscapeString_iff p.method.noNul).mp ⟨_, hmethod⟩
          · exact (exists_anythingJsonEscapeString_iff p.risk.noNul).mp ⟨_, hrisk⟩
          · exact (exists_anythingJsonEscapeString_iff p.summary.noNul).mp ⟨_, hsummary⟩
      · cases h

theorem entryFits_of_list [HasRoom n] {store : ApprovalStore} {out : CString n}
    (h : anythingApprovalListJson n store = some out) : ∀ p ∈ store.pending, EntryFits p := by
  unfold anythingApprovalListJson at h
  obtain ⟨out₁, -, h⟩ := Option.bind_eq_some_iff.mp h
  obtain ⟨out₂, hloop, -⟩ := Option.bind_eq_some_iff.mp h
  exact entryFits_of_listLoop hloop

theorem exists_anythingApprovalListJson_iff [HasRoom n] (store : ApprovalStore) :
    (∃ out, anythingApprovalListJson n store = some out) ↔
      (∀ p ∈ store.pending, EntryFits p) ∧ (listObject store.pending).length < n := by
  constructor
  · rintro ⟨out, hout⟩
    have hfits := entryFits_of_list hout
    rw [← (anythingApprovalListJson_eq_some hfits).mp hout]
    exact ⟨hfits, out.fits⟩
  · rintro ⟨hfits, hlen⟩
    exact ⟨⟨listObject store.pending, (inline_listObject _).zero_notMem, hlen⟩,
      (anythingApprovalListJson_eq_some hfits).mpr rfl⟩

/-- The list is printed exactly when every entry fits its buffers and the whole fits `out`,
what is printed is the object with all entries in order, and the offset never leaves
`out`. -/
theorem list_exact {outLen : ℕ} (hpos : 0 < outLen) (hsize : outLen < 2 ^ 64)
    (store : ApprovalStore) :
    ((∃ text, (listJsonAt outLen store).1 = some text) ↔
      (∀ p ∈ store.pending, EntryFits p) ∧ (listObject store.pending).length < outLen) ∧
      (∀ text, (listJsonAt outLen store).1 = some text →
        text = ascii "\x7b\"pending\":[" ++ commaSep (store.pending.map entryObject) ++
          ascii "]\x7d") ∧
      ∀ used ∈ (listJsonAt outLen store).2, used ≤ outLen - 1 := by
  have : HasRoom outLen := ⟨hpos⟩
  obtain ⟨hresult, hoffsets⟩ := listJsonAt_refines hsize store
  refine ⟨?_, ?_, ?_⟩
  · rw [hresult, ← exists_anythingApprovalListJson_iff]
    simp only [Option.map_eq_some_iff]
    constructor
    · rintro ⟨text, out, hout, -⟩
      exact ⟨out, hout⟩
    · rintro ⟨out, hout⟩
      exact ⟨_, out, hout, rfl⟩
  · intro text htext
    rw [hresult] at htext
    obtain ⟨out, hout, rfl⟩ := Option.map_eq_some_iff.mp htext
    rw [(anythingApprovalListJson_eq_some (entryFits_of_list hout)).mp hout, listObject_eq,
      listItems_true]
  · intro used hused
    exact Nat.le_sub_one_of_lt (hoffsets used hused)

/-- A store with two requests. -/
def twoPending : ApprovalStore :=
  ((daemon Sample.config).run [Sample.ask Sample.written, Sample.ask Sample.written]).approvals

theorem list_exact_sample : ∃ text, (listJsonAt 4096 twoPending).1 = some text := by
  have hstandard : StandardStore twoPending.pending := standardStore_run _ _
  have hcount : twoPending.pending.length = 2 := by decide +kernel
  have hlength := length_listObject hstandard (by omega)
  exact (list_exact (by decide) (by decide) twoPending).1.mpr
    ⟨hstandard.fits (by omega), by omega⟩

end AnythingTool
