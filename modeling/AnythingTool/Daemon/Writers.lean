import AnythingTool.Config.IdList
import AnythingTool.Daemon.ListOffsets
import AnythingTool.Library.CheckedWrites
import AnythingTool.Rpc.RoundTrip
import AnythingTool.Rpc.Transport

/-!
# The writers in memory

The functions that fill a caller's buffer once more, now with a write for each byte, on a
buffer of `out_len` bytes with anything in it. Each of them does what it does on `CString`
and never writes outside of the buffer, whatever it is given and however small the buffer is
(`writers_inside`); a call that fails behind its first write leaves a string. The reader of
requests has a byte more than its limit, and needs it only for the NUL
(`readRequest_inside`).
-/

namespace AnythingTool

open CText CheckedWrites

/-- `anything_approval_list_json` with its `out_len`. -/
def anythingApprovalListJsonSized (n : ℕ) (store : ApprovalStore) : Option (CString n) :=
  if hn : n = 0 then none
  else
    haveI : HasRoom n := ⟨Nat.pos_of_ne_zero hn⟩
    anythingApprovalListJson n store

/-- `parse_quoted` with its `out_len`. -/
def parseQuotedSized (n : ℕ) (value : Bytes) : Option (CString n) :=
  if hn : n = 0 then none
  else
    haveI : HasRoom n := ⟨Nat.pos_of_ne_zero hn⟩
    parseQuoted n value

section Writers

variable (n : ℕ)

/-- `append_char`, with `*used` behind it. -/
def appendCharTo (used : ℕ) (c : UInt8) : Run (Option ℕ) :=
  if used + 1 ≥ n then pure none
  else do
    store used c
    store (used + 1) 0
    pure (some (used + 1))

/-- `append_decoded` -/
def appendDecodedTo (used : ℕ) (c : UInt8) : Run (Option ℕ) := appendCharTo n used c

/-- `append_text` -/
def appendTextTo : ℕ → Bytes → Run (Option ℕ)
  | used, [] => pure (some used)
  | used, c :: text =>
      if c = 0 then pure (some used)
      else do
        match ← appendCharTo n used c with
        | none => pure none
        | some used => appendTextTo used text

/-- `snprintf(out + used, out_len - used, ...)`, and the check of what it returns. -/
def printTo (used : ℕ) (text : Bytes) : Run (Option ℕ) := do
  let wrote ← snprintf used (n - used) text
  if wrote ≥ n - used then pure none else pure (some (used + wrote))

/-- The `switch` of `anything_json_escape_string` on one byte. -/
def escapeCharTo (used : ℕ) (c : UInt8) : Run (Option ℕ) :=
  if c = quote then appendTextTo n used [backslash, quote]
  else if c = backslash then appendTextTo n used [backslash, backslash]
  else if c = 0x0A then appendTextTo n used [backslash, 0x6E]
  else if c = 0x0D then appendTextTo n used [backslash, 0x72]
  else if c = 0x09 then appendTextTo n used [backslash, 0x74]
  else if c < 0x20 then printTo n used (unicodeEscape c)
  else appendCharTo n used c

def escapeLoopTo : ℕ → Bytes → Run (Option ℕ)
  | used, [] => pure (some used)
  | used, c :: p =>
      if c = 0 then pure (some used)
      else do
        match ← escapeCharTo n used c with
        | none => pure none
        | some used => escapeLoopTo used p

/-- `anything_json_escape_string` -/
def anythingJsonEscapeStringTo (input : Bytes) : Run (Option ℕ) :=
  if n = 0 then pure none
  else do
    store 0 0
    escapeLoopTo n 0 input

/-- The loop of `parse_json_string`, after the opening quote. -/
def parseJsonStringLoopTo : ℕ → Bytes → Run (Option (ℕ × Bytes))
  | _, [] => pure none
  | used, c :: p =>
      if c = 0 then pure none
      else if c = quote then pure (some (used, p))
      else if c < 0x20 then pure none
      else if c = backslash then
        match p with
        | [] => pure none
        | e :: q =>
            match unescape e with
            | none => pure none
            | some d => do
                match ← appendDecodedTo n used d with
                | none => pure none
                | some used => parseJsonStringLoopTo used q
      else do
        match ← appendDecodedTo n used c with
        | none => pure none
        | some used => parseJsonStringLoopTo used p

/-- `parse_json_string` -/
def parseJsonStringTo (p : Bytes) : Run (Option (ℕ × Bytes)) :=
  if deref p ≠ quote ∨ n = 0 then pure none
  else do
    store 0 0
    parseJsonStringLoopTo n 0 p.tail

/-- `copy_json_object_raw` -/
def copyJsonObjectRawTo (start : Bytes) : Run (Option (ℕ × Bytes)) :=
  if deref start ≠ lbrace then pure none
  else
    match scanToClose lbrace rbrace 0 start with
    | none => pure none
    | some p =>
        let len := start.length - p.length
        if len ≥ n then pure none
        else do
          storeText 0 (start.take len)
          pure (some (len, p))

/-- `parse_quoted` -/
def parseQuotedTo (value : Bytes) : Run (Option ℕ) :=
  match strchr quote value with
  | none => pure none
  | some start =>
      match strchr quote start.tail with
      | none => pure none
      | some stop =>
          let len := start.tail.length - stop.length
          if len ≥ n then pure none
          else do
            storeText 0 (start.tail.take len)
            pure (some len)

/-- The loop of `anything_approval_list_json`. -/
def listLoopTo : ℕ → Bool → List PendingRequest → Run (Option ℕ)
  | used, _, [] => pure (some used)
  | used, first, p :: ps =>
      match anythingJsonEscapeString 128 p.requestId.bytes,
          anythingJsonEscapeString 128 p.method.bytes,
          anythingJsonEscapeString 64 p.risk.bytes,
          anythingJsonEscapeString 512 p.summary.bytes with
      | some requestId, some method, some risk, some summary => do
          match ← printTo n used (listEntryText first p requestId method risk summary) with
          | none => pure none
          | some used => listLoopTo used false ps
      | _, _, _, _ => pure none

/-- `anything_approval_list_json` -/
def anythingApprovalListJsonTo (store : ApprovalStore) : Run (Option ℕ) := do
  match ← printTo n 0 (ascii "\x7b\"pending\":[") with
  | none => pure none
  | some used =>
      match ← listLoopTo n used true store.pending with
      | none => pure none
      | some used => printTo n used (ascii "]\x7d")

end Writers

/-! ## One write after another -/

section Appending

variable {n : ℕ} {memory : Bytes} {out : CString n}

theorem done_leaves (hlen : memory.length = n) (htext : Text out.bytes memory) :
    Leaves (pure (some out.bytes.length)) memory (some out) id fun out => out.bytes.length :=
  .pure id (fun out => out.bytes.length) out hlen htext

/-- The buffer has room for one byte more, and the NUL behind it. -/
theorem appendCharTo_leaves (hlen : memory.length = n) (htext : Text out.bytes memory)
    {c : UInt8} (hc : c ≠ 0) :
    Leaves (appendCharTo n out.bytes.length c) memory (appendChar out c hc) id
      fun out => out.bytes.length := by
  unfold appendCharTo appendChar
  by_cases hfull : out.bytes.length + 1 ≥ n
  · rw [if_pos hfull, CString.push_eq_none.mpr hfull]
    exact .fail hlen htext
  rw [if_neg hfull]
  obtain ⟨rest, rfl⟩ := htext
  obtain ⟨out', hpush⟩ := CString.exists_push hc (by omega : out.bytes.length + 1 < n)
  have hbytes := CString.push_eq_some.mp hpush
  cases rest with
  | nil =>
      rw [List.length_append, List.length_singleton] at hlen
      omega
  | cons b rest =>
      have hsecond : store (out.bytes.length + 1) 0 (out.bytes ++ c :: b :: rest) =
          .ok ((), out'.bytes ++ 0 :: rest) := by
        have hstore := @store_run (out.bytes ++ [c]) rest 0 b
        rw [List.length_append, List.length_singleton, List.append_assoc] at hstore
        rw [hbytes]
        exact hstore
      rw [hpush]
      refine ⟨out'.bytes ++ 0 :: rest, out', ?_, ?_, ⟨rest, rfl⟩, ?_⟩
      · rw [bind_run (store_run 0), bind_run hsecond, pure_run, Option.map_some, hbytes,
          List.length_append, List.length_singleton]
      · rw [hbytes]
        simpa using hlen
      · intro b hb
        exact Option.some.inj hb

theorem appendTextTo_leaves {text : Bytes} (hlen : memory.length = n)
    (htext : Text out.bytes memory) :
    Leaves (appendTextTo n out.bytes.length text) memory (appendText out text) id
      fun out => out.bytes.length := by
  fun_induction appendText out text generalizing memory with
  | case1 out => exact done_leaves hlen htext
  | case2 out text => exact done_leaves hlen htext
  | case3 out c text hc hfull =>
      rw [appendTextTo, if_neg hc]
      exact (hfull ▸ appendCharTo_leaves hlen htext hc).stop rfl
  | case4 out c text hc out' hroom ih =>
      rw [appendTextTo, if_neg hc]
      exact (hroom ▸ appendCharTo_leaves hlen htext hc).next fun memory' => ih

/-- What does not fit is cut, and has a NUL behind it as well. No NUL need be there before. -/
theorem printTo_leaves {text d : Bytes} (hlen : (out.bytes ++ d).length = n)
    (h0 : (0 : UInt8) ∉ text) :
    Leaves (printTo n out.bytes.length text) (out.bytes ++ d) (out.snprintfAt text) id
      fun out => out.bytes.length := by
  have hsize : d.length = n - out.bytes.length := by
    have hsum := hlen
    rw [List.length_append] at hsum
    omega
  have hne : d ≠ [] := by
    have hfits := out.fits
    exact List.ne_nil_of_length_pos (by omega)
  obtain ⟨memory', hprint, hlen', htext'⟩ := snprintf_run (s := out.bytes) (t := text) hne
  rw [hsize] at hprint htext'
  have hcut : (0 : UInt8) ∉ out.bytes ++ text.take (n - out.bytes.length - 1) := by
    rw [List.mem_append, not_or]
    exact ⟨out.noNul, fun hmem => h0 (List.mem_of_mem_take hmem)⟩
  have hfits := htext'.length_lt
  rw [hlen', hlen] at hfits
  refine ⟨memory', ⟨_, hcut, hfits⟩, ?_, hlen'.trans hlen, htext', ?_⟩
  · rw [printTo, bind_run hprint]
    cases hfit : out.snprintfAt text with
    | none =>
        have hlong : text.length ≥ n - out.bytes.length := by
          unfold CString.snprintfAt at hfit
          split at hfit
          · assumption
          · cases hfit
        rw [if_pos hlong]
        rfl
    | some out' =>
        have hbytes := (CString.snprintfAt_eq_some h0).mp hfit
        have hroom := out'.fits
        rw [hbytes, List.length_append] at hroom
        have hshort : ¬ text.length ≥ n - out.bytes.length := by omega
        rw [if_neg hshort, Option.map_some, hbytes, List.length_append]
        rfl
  · intro out' hfit
    have hbytes := (CString.snprintfAt_eq_some h0).mp hfit
    have hroom := out'.fits
    rw [hbytes, List.length_append] at hroom
    apply CString.ext
    change out.bytes ++ text.take _ = out'.bytes
    rw [hbytes, List.take_of_length_le (by omega)]

theorem escapeCharTo_leaves (hlen : memory.length = n) (htext : Text out.bytes memory)
    {c : UInt8} (hc : c ≠ 0) :
    Leaves (escapeCharTo n out.bytes.length c) memory (escapeChar out c hc) id
      fun out => out.bytes.length := by
  unfold escapeCharTo escapeChar
  split_ifs with h₁ h₂ h₃ h₄ h₅ hcontrol
  · exact appendTextTo_leaves hlen htext
  · exact appendTextTo_leaves hlen htext
  · exact appendTextTo_leaves hlen htext
  · exact appendTextTo_leaves hlen htext
  · exact appendTextTo_leaves hlen htext
  · obtain ⟨rest, rfl⟩ := htext
    refine printTo_leaves hlen ?_
    have hbyte := zero_notMem_escapedByte hc
    rwa [escapedByte, if_neg h₁, if_neg h₂, if_neg h₃, if_neg h₄, if_neg h₅, if_pos hcontrol]
      at hbyte
  · exact appendCharTo_leaves hlen htext hc

theorem escapeLoopTo_leaves {input : Bytes} (hlen : memory.length = n)
    (htext : Text out.bytes memory) :
    Leaves (escapeLoopTo n out.bytes.length input) memory (escapeLoop out input) id
      fun out => out.bytes.length := by
  fun_induction escapeLoop out input generalizing memory with
  | case1 out => exact done_leaves hlen htext
  | case2 out p => exact done_leaves hlen htext
  | case3 out c p hc hfull =>
      rw [escapeLoopTo, if_neg hc]
      exact (hfull ▸ escapeCharTo_leaves hlen htext hc).stop rfl
  | case4 out c p hc out' hroom ih =>
      rw [escapeLoopTo, if_neg hc]
      exact (hroom ▸ escapeCharTo_leaves hlen htext hc).next fun memory' => ih

theorem appendDecodedTo_leaves (hlen : memory.length = n) (htext : Text out.bytes memory)
    {c : UInt8} (hc : c ≠ 0) :
    Leaves (appendDecodedTo n out.bytes.length c) memory (appendDecoded out c hc) id
      fun out => out.bytes.length :=
  appendCharTo_leaves hlen htext hc

theorem parseJsonStringLoopTo_leaves {p : Bytes} (hlen : memory.length = n)
    (htext : Text out.bytes memory) :
    Leaves (parseJsonStringLoopTo n out.bytes.length p) memory (parseJsonStringLoop out p)
      Prod.fst fun r => (r.1.bytes.length, r.2) := by
  fun_induction parseJsonStringLoop out p generalizing memory with
  | case1 out => exact .fail hlen htext
  | case2 out p =>
      rw [parseJsonStringLoopTo.eq_def]
      exact .fail hlen htext
  | case3 out p hzero =>
      rw [parseJsonStringLoopTo.eq_def]
      simp only [if_neg hzero]
      exact .pure Prod.fst (fun r : CString n × Bytes => (r.1.bytes.length, r.2)) (out, p) hlen htext
  | case4 out c p hzero hquote hcontrol =>
      rw [parseJsonStringLoopTo.eq_def]
      simp only [if_neg hzero, if_neg hquote, if_pos hcontrol]
      exact .fail hlen htext
  | case5 out hzero hquote hcontrol =>
      rw [parseJsonStringLoopTo, if_neg hzero, if_neg hquote, if_neg hcontrol, if_pos rfl]
      exact .fail hlen htext
  | case6 out e q he hzero hquote hcontrol =>
      rw [parseJsonStringLoopTo, if_neg hzero, if_neg hquote, if_neg hcontrol, if_pos rfl, he]
      exact .fail hlen htext
  | case7 out e q d he hfull hzero hquote hcontrol =>
      rw [parseJsonStringLoopTo, if_neg hzero, if_neg hquote, if_neg hcontrol, if_pos rfl, he]
      exact (hfull ▸ appendDecodedTo_leaves hlen htext (unescape_ne_zero he)).stop rfl
  | case8 out e q d he out' hroom hzero hquote hcontrol ih =>
      rw [parseJsonStringLoopTo, if_neg hzero, if_neg hquote, if_neg hcontrol, if_pos rfl, he]
      exact (hroom ▸ appendDecodedTo_leaves hlen htext (unescape_ne_zero he)).next fun memory' => ih
  | case9 out c p hzero hquote hcontrol hslash hfull =>
      rw [parseJsonStringLoopTo.eq_def]
      simp only [if_neg hzero, if_neg hquote, if_neg hcontrol, if_neg hslash]
      exact (hfull ▸ appendDecodedTo_leaves hlen htext hzero).stop rfl
  | case10 out c p hzero hquote hcontrol hslash out' hroom ih =>
      rw [parseJsonStringLoopTo.eq_def]
      simp only [if_neg hzero, if_neg hquote, if_neg hcontrol, if_neg hslash]
      exact (hroom ▸ appendDecodedTo_leaves hlen htext hzero).next fun memory' => ih

theorem listLoopTo_leaves {first : Bool} {ps : List PendingRequest} (hlen : memory.length = n)
    (htext : Text out.bytes memory) :
    Leaves (listLoopTo n out.bytes.length first ps) memory (listLoop out first ps) id
      fun out => out.bytes.length := by
  fun_induction listLoop out first ps generalizing memory with
  | case1 out first => exact done_leaves hlen htext
  | case2 out first p ps requestId method risk summary hid hmethod hrisk hsummary hfull =>
      obtain ⟨rest, rfl⟩ := htext
      have h0 := zero_notMem_listEntryText first p requestId method risk summary
      rw [listLoopTo, hid, hmethod, hrisk, hsummary]
      exact (hfull ▸ printTo_leaves hlen h0).stop rfl
  | case3 out first p ps requestId method risk summary hid hmethod hrisk hsummary out' hroom ih =>
      obtain ⟨rest, rfl⟩ := htext
      have h0 := zero_notMem_listEntryText first p requestId method risk summary
      rw [listLoopTo, hid, hmethod, hrisk, hsummary]
      exact (hroom ▸ printTo_leaves hlen h0).next fun memory' => ih
  | case4 out first p ps hnone =>
      rw [listLoopTo]
      split
      · rename_i hid hmethod hrisk hsummary
        exact (hnone _ _ _ _ hid hmethod hrisk hsummary).elim
      · exact .fail hlen htext

end Appending

/-! ## The writers -/

section Calls

variable {memory : Bytes}

/-- A writer makes the buffer the empty string first. -/
theorem afterStore {β γ : Type} {run : Run (Option γ)} {result : Option β}
    [HasRoom memory.length] {text : β → CString memory.length} {answer : β → γ}
    (hrun : ∀ memory', memory'.length = memory.length →
      Text (CString.empty : CString memory.length).bytes memory' →
        Leaves run memory' result text answer) :
    Leaves (do store 0 0; run) memory result text answer := by
  have hpos : 0 < memory.length := HasRoom.pos
  obtain ⟨b, rest, hmemory⟩ := List.exists_cons_of_length_pos hpos
  have hstore : store 0 0 memory = .ok ((), 0 :: rest) := by
    rw [hmemory]
    exact store_run (s := []) b
  have hlen : (0 :: rest).length = memory.length := by
    rw [hmemory, List.length_cons, List.length_cons]
  obtain ⟨memory', s, hall, hleft⟩ := hrun (0 :: rest) hlen ⟨rest, rfl⟩
  exact ⟨memory', s, (bind_run hstore).trans hall, hleft⟩

theorem anythingJsonEscapeStringTo_writes (input : Bytes) :
    Writes (anythingJsonEscapeStringTo memory.length input) memory
      (anythingJsonEscapeStringSized memory.length input) id fun out => out.bytes.length := by
  unfold anythingJsonEscapeStringTo anythingJsonEscapeStringSized
  by_cases hn : memory.length = 0
  · rw [if_pos hn, dif_pos hn]
    exact .inl ⟨rfl, rfl⟩
  · rw [if_neg hn, dif_neg hn]
    have : HasRoom memory.length := ⟨Nat.pos_of_ne_zero hn⟩
    exact .inr (afterStore fun memory' => escapeLoopTo_leaves)

theorem parseJsonStringTo_writes (p : Bytes) :
    Writes (parseJsonStringTo memory.length p) memory (parseJsonString memory.length p)
      Prod.fst fun r => (r.1.bytes.length, r.2) := by
  unfold parseJsonStringTo parseJsonString
  by_cases hn : memory.length = 0
  · rw [if_pos (.inr hn), dif_pos hn]
    exact .inl ⟨rfl, rfl⟩
  rw [dif_neg hn]
  cases p with
  | nil => exact .inl ⟨rfl, rfl⟩
  | cons c p =>
      by_cases hc : c = quote
      · have : HasRoom memory.length := ⟨Nat.pos_of_ne_zero hn⟩
        rw [if_neg (by simp [hc, hn])]
        simp only [if_pos hc]
        exact .inr (afterStore fun memory' => parseJsonStringLoopTo_leaves)
      · rw [if_pos (.inl hc)]
        simp only [if_neg hc]
        exact .inl ⟨rfl, rfl⟩

/-- A text of known length is copied in front of a NUL. -/
theorem storeText_leaves {β γ : Type} {b : β} {text : β → CString memory.length} {answer : β → γ}
    {s : Bytes} {a : γ} (hs : (text b).bytes = s) (ha : answer b = a) :
    Leaves (do storeText 0 s; pure (some a)) memory (some b) text answer := by
  have hfits := (text b).fits
  rw [hs] at hfits
  obtain ⟨rest, hstore, hlen⟩ := storeText_run (s := []) hfits
  rw [← hs] at hstore hlen
  refine ⟨_, text b, ?_, hlen, ⟨rest, rfl⟩, fun b' hb' => by rw [Option.some.inj hb']⟩
  rw [← hs, ← ha]
  exact bind_run hstore

/-- Nothing is written before the object is known to fit. -/
theorem copyJsonObjectRawTo_writes (p : Bytes) :
    Writes (copyJsonObjectRawTo memory.length p) memory (copyJsonObjectRaw memory.length p)
      Prod.fst fun r => (r.1.bytes.length, r.2) := by
  unfold copyJsonObjectRawTo
  by_cases hbrace : deref p = lbrace
  swap
  · rw [if_pos hbrace, copyJsonObjectRaw, if_pos hbrace]
    exact .inl ⟨rfl, rfl⟩
  rw [if_neg (not_not.mpr hbrace)]
  cases hscan : scanToClose lbrace rbrace 0 p with
  | none =>
      refine .inl ⟨rfl, Option.eq_none_iff_forall_ne_some.mpr fun r hcopy => ?_⟩
      rw [(copyJsonObjectRaw_eq_some.mp hcopy).2.1] at hscan
      cases hscan
  | some q =>
      obtain ⟨t, rfl, -, h0⟩ := scanToClose_split hscan
      have hlen : (t ++ q).length - q.length = t.length := by
        rw [List.length_append, Nat.add_sub_cancel]
      simp only [hlen, List.take_left]
      by_cases hfull : t.length ≥ memory.length
      · rw [if_pos hfull]
        refine .inl ⟨rfl, Option.eq_none_iff_forall_ne_some.mpr fun r hcopy => ?_⟩
        obtain ⟨-, hscan', heq⟩ := copyJsonObjectRaw_eq_some.mp hcopy
        obtain rfl := Option.some.inj (hscan.symm.trans hscan')
        have hfits := r.1.fits
        rw [← List.append_cancel_right heq] at hfits
        omega
      · rw [if_neg hfull]
        let out : CString memory.length := ⟨t, h0, not_le.mp hfull⟩
        have hcopy : copyJsonObjectRaw memory.length (t ++ q) = some (out, q) :=
          copyJsonObjectRaw_eq_some.mpr ⟨hbrace, hscan, rfl⟩
        rw [hcopy]
        exact .inr (storeText_leaves rfl rfl)

theorem parseQuotedTo_writes {k : ℕ} (value : CString k) :
    Writes (parseQuotedTo memory.length value.bytes) memory
      (parseQuotedSized memory.length value.bytes) id fun out => out.bytes.length := by
  unfold parseQuotedTo parseQuotedSized
  by_cases hn : memory.length = 0
  · rw [dif_pos hn]
    refine .inl ⟨?_, rfl⟩
    cases hstart : strchr quote value.bytes with
    | none => rfl
    | some start =>
        cases hstop : strchr quote start.tail with
        | none =>
            simp only [hstop]
            rfl
        | some stop =>
            simp only [hstop]
            rw [if_pos (by omega)]
            rfl
  have : HasRoom memory.length := ⟨Nat.pos_of_ne_zero hn⟩
  rw [dif_neg hn, parseQuoted.eq_def]
  cases hstart : strchr quote value.bytes with
  | none => exact .inl ⟨rfl, rfl⟩
  | some start =>
      cases hstop : strchr quote start.tail with
      | none =>
          simp only [hstop]
          exact .inl ⟨rfl, rfl⟩
      | some stop =>
          simp only [hstop]
          generalize hlen : start.tail.length - stop.length = len
          by_cases hfull : len ≥ memory.length
          · rw [if_pos hfull, if_pos hfull]
            exact .inl ⟨rfl, rfl⟩
          · rw [if_neg hfull, if_neg hfull]
            have hzero : (0 : UInt8) ∉ start.tail.take len := by
              obtain ⟨before, rest, -, hvalue, rfl⟩ := strchr_eq_some.mp hstart
              have h0 := value.noNul
              rw [hvalue, List.mem_append, List.mem_cons, not_or, not_or] at h0
              exact fun hmem => h0.2.2 (List.mem_of_mem_take hmem)
            have hfits : (start.tail.take len).length < memory.length := by
              rw [List.length_take]
              omega
            have htext := CString.snprintf_bytes_of_fits hzero hfits
            have hlast : (start.tail.take len).length = len := by
              rw [List.length_take, ← hlen]
              omega
            exact .inr (storeText_leaves htext ((congrArg List.length htext).trans hlast))

theorem anythingApprovalListJsonTo_writes (store : ApprovalStore) :
    Writes (anythingApprovalListJsonTo memory.length store) memory
      (anythingApprovalListJsonSized memory.length store) id fun out => out.bytes.length := by
  unfold anythingApprovalListJsonTo anythingApprovalListJsonSized
  by_cases hn : memory.length = 0
  · rw [hn, dif_pos rfl]
    exact .inl ⟨rfl, rfl⟩
  rw [dif_neg hn]
  have : HasRoom memory.length := ⟨Nat.pos_of_ne_zero hn⟩
  have hopen : (0 : UInt8) ∉ ascii "\x7b\"pending\":[" := by decide
  have hclose : (0 : UInt8) ∉ ascii "]\x7d" := by decide
  have hstart : Leaves (printTo memory.length 0 (ascii "\x7b\"pending\":[")) memory
      ((CString.empty : CString memory.length).snprintfAt (ascii "\x7b\"pending\":[")) id
      fun out => out.bytes.length :=
    @printTo_leaves memory.length .empty _ memory rfl hopen
  unfold anythingApprovalListJson
  right
  cases hout : (CString.empty : CString memory.length).snprintfAt (ascii "\x7b\"pending\":[") with
  | none => exact (hout ▸ hstart).stop rfl
  | some out =>
      refine (hout ▸ hstart).next fun memory' hlen htext => ?_
      have hitems : Leaves (listLoopTo memory.length out.bytes.length true store.pending) memory'
          (listLoop out true store.pending) id fun out => out.bytes.length :=
        listLoopTo_leaves hlen htext
      change Leaves (listLoopTo memory.length out.bytes.length true store.pending >>= _) memory'
        ((listLoop out true store.pending).bind _) id _
      cases hlist : listLoop out true store.pending with
      | none => exact (hlist ▸ hitems).stop rfl
      | some out =>
          refine (hlist ▸ hitems).next fun memory' hlen htext => ?_
          obtain ⟨rest, rfl⟩ := htext
          exact printTo_leaves hlen hclose

end Calls

/-- Whatever a writer is given and whatever is in the buffer. -/
theorem writers_inside {k : ℕ} (memory input p : Bytes) (value : CString k)
    (store : ApprovalStore) :
    Writes (anythingJsonEscapeStringTo memory.length input) memory
        (anythingJsonEscapeStringSized memory.length input) id (fun out => out.bytes.length) ∧
      Writes (parseJsonStringTo memory.length p) memory (parseJsonString memory.length p)
        Prod.fst (fun r => (r.1.bytes.length, r.2)) ∧
      Writes (copyJsonObjectRawTo memory.length p) memory (copyJsonObjectRaw memory.length p)
        Prod.fst (fun r => (r.1.bytes.length, r.2)) ∧
      Writes (parseQuotedTo memory.length value.bytes) memory
        (parseQuotedSized memory.length value.bytes) id (fun out => out.bytes.length) ∧
      Writes (anythingApprovalListJsonTo memory.length store) memory
        (anythingApprovalListJsonSized memory.length store) id fun out => out.bytes.length :=
  ⟨anythingJsonEscapeStringTo_writes input, parseJsonStringTo_writes p,
    copyJsonObjectRawTo_writes p, parseQuotedTo_writes value,
    anythingApprovalListJsonTo_writes store⟩

/-! ## The reader -/

section Reader

variable (maxBytes : ℕ) (deadlineMs : ℤ)

/-- The loop of `anything_transport_read_request`; `memchr` looks at what has been read. -/
def readLoopTo : ℕ → List ReadCall → Run (Except ReadError ℕ)
  | total, [] => pure (.ok total)
  | total, call :: calls =>
      if total < maxBytes then
        if call.elapsedMs > deadlineMs then pure (.error .deadlineExceeded)
        else
          match call.result with
          | .interrupted => readLoopTo total calls
          | .failed errno => pure (.error (.readFailed errno))
          | .bytes chunk =>
              let chunk := chunk.take (maxBytes - total)
              if chunk = [] then pure (.ok total)
              else do
                storeBytes total chunk
                let memory ← get
                let total := total + chunk.length
                if newline ∈ memory.take total then pure (.ok total)
                else readLoopTo total calls
      else pure (.ok total)

/-- `anything_transport_read_request` -/
def anythingTransportReadRequestTo (calls : List ReadCall) (elapsedMs : ℤ) :
    Run (Except ReadError ℕ) := do
  match ← readLoopTo maxBytes deadlineMs 0 calls with
  | .error e => pure (.error e)
  | .ok total =>
      if elapsedMs > deadlineMs then pure (.error .deadlineExceeded)
      else if total ≥ maxBytes then pure (.error .tooLarge)
      else do
        store total 0
        pure (.ok total)

end Reader

/-- A run reports a result, with the bytes of what was read at the start of the buffer. -/
def Receives (n : ℕ) (run : Run (Except ReadError ℕ)) (memory : Bytes)
    (result : Except ReadError Bytes) : Prop :=
  ∃ memory', run memory = .ok (result.map List.length, memory') ∧ memory'.length = n ∧
    ∀ body, result = .ok body → ∃ rest, memory' = body ++ rest

section Receiving

variable {n maxBytes : ℕ} {deadlineMs : ℤ} {memory buffer rest : Bytes}

theorem receives_ok (hlen : (buffer ++ rest).length = n) :
    Receives n (pure (.ok buffer.length)) (buffer ++ rest) (.ok buffer) :=
  ⟨_, rfl, hlen, fun body h => ⟨rest, by rw [Except.ok.inj h]⟩⟩

theorem receives_error (hlen : memory.length = n) (e : ReadError) :
    Receives n (pure (.error e)) memory (.error e) :=
  ⟨_, rfl, hlen, fun body h => by cases h⟩

/-- What `read` returns stands behind what was read before. -/
theorem receives_chunk {chunk : Bytes} {next : Run (Except ReadError ℕ)}
    {result : Except ReadError Bytes} (hfits : chunk.length ≤ rest.length)
    (hnext : Receives n next (buffer ++ chunk ++ rest.drop chunk.length) result) :
    Receives n (do storeBytes buffer.length chunk; next) (buffer ++ rest) result := by
  obtain ⟨memory', hrun, hleft⟩ := hnext
  exact ⟨memory', (bind_run (storeBytes_over hfits)).trans hrun, hleft⟩

/-- The byte behind the limit is never written by the loop. -/
theorem readLoopTo_receives {calls : List ReadCall}
    (hlen : (buffer ++ rest).length = maxBytes + 1) :
    Receives (maxBytes + 1) (readLoopTo maxBytes deadlineMs buffer.length calls)
      (buffer ++ rest) (readLoop maxBytes deadlineMs buffer calls) := by
  induction calls generalizing buffer rest with
  | nil => exact receives_ok hlen
  | cons call calls ih =>
      rw [readLoopTo.eq_def, readLoop.eq_def]
      simp only
      split_ifs with hroom hlate
      · exact receives_error hlen _
      · cases call.result with
        | interrupted => exact ih hlen
        | failed errno => exact receives_error hlen _
        | bytes chunk =>
            simp only
            generalize hchunk : chunk.take (maxBytes - buffer.length) = read
            by_cases hempty : read = []
            · rw [if_pos hempty, if_pos hempty]
              exact receives_ok hlen
            rw [if_neg hempty, if_neg hempty]
            have hfits : read.length ≤ rest.length := by
              rw [List.length_append] at hlen
              rw [← hchunk, List.length_take]
              omega
            have htake : (buffer ++ read ++ rest.drop read.length).take
                (buffer.length + read.length) = buffer ++ read := by
              rw [← List.length_append, List.take_left]
            have hnext : (buffer ++ read ++ rest.drop read.length).length = maxBytes + 1 := by
              rw [← hlen]
              simp only [List.length_append, List.length_drop]
              omega
            refine receives_chunk hfits ?_
            change Receives _ (if newline ∈ (buffer ++ read ++ rest.drop read.length).take
                (buffer.length + read.length) then _ else _) _ _
            rw [htake, ← List.length_append]
            split_ifs with hline
            · exact receives_ok hnext
            · exact ih hnext
      · exact receives_ok hlen

end Receiving

/-- However the bytes of a request arrive, they are written into the buffer, with a NUL behind
a request that is accepted, in a buffer of one byte more than the limit. -/
theorem readRequest_inside (memory : Bytes) (last : UInt8) (deadlineMs elapsedMs : ℤ)
    (calls : List ReadCall) :
    ∃ memory', anythingTransportReadRequestTo memory.length deadlineMs calls elapsedMs
        (memory ++ [last]) =
        .ok ((anythingTransportReadRequest memory.length deadlineMs calls elapsedMs).map
          List.length, memory') ∧
      memory'.length = memory.length + 1 ∧
      ∀ body, anythingTransportReadRequest memory.length deadlineMs calls elapsedMs = .ok body →
        Text body memory' := by
  have hlen : ([] ++ (memory ++ [last])).length = memory.length + 1 := by simp
  obtain ⟨memory', hloop, hlen', hread⟩ : Receives _ (readLoopTo memory.length deadlineMs 0 calls)
      (memory ++ [last]) (readLoop memory.length deadlineMs [] calls) := readLoopTo_receives hlen
  rw [anythingTransportReadRequestTo, bind_run hloop, anythingTransportReadRequest]
  cases hresult : readLoop memory.length deadlineMs [] calls with
  | error e => exact ⟨memory', rfl, hlen', fun body h => by cases h⟩
  | ok buffer =>
      obtain ⟨rest, rfl⟩ := hread buffer hresult
      have hok : (Except.ok buffer : Except ReadError Bytes).map List.length = .ok buffer.length :=
        rfl
      have hbind : ∀ f : Bytes → Except ReadError Bytes, (Except.ok buffer >>= f) = f buffer :=
        fun f => rfl
      rw [hok, hbind]
      simp only
      by_cases hlate : elapsedMs > deadlineMs
      · rw [if_pos hlate, if_pos hlate]
        exact ⟨_, rfl, hlen', fun body h => by cases h⟩
      rw [if_neg hlate, if_neg hlate]
      by_cases hfull : buffer.length ≥ memory.length
      · rw [if_pos hfull, if_pos hfull]
        exact ⟨_, rfl, hlen', fun body h => by cases h⟩
      rw [if_neg hfull, if_neg hfull]
      cases rest with
      | nil =>
          rw [List.append_nil] at hlen'
          omega
      | cons b rest =>
          have hend : (buffer ++ 0 :: rest).length = memory.length + 1 := by
            rw [← hlen', List.length_append, List.length_append]
            rfl
          exact ⟨_, bind_run (store_run b), hend, fun body h => ⟨rest, by rw [Except.ok.inj h]⟩⟩

end AnythingTool
