import AnythingTool.Rpc.Cursors
import AnythingTool.Rpc.Parse

/-!
# The member loops in memory

`anything_rpc_extract_param_string` and `anything_rpc_parse` on a text in memory. A round
of either loop follows one member on bytes, and the whole parser returns what the parser
on the bytes returns (`anythingRpcParseAt_eq`): it reads nothing behind the NUL, and the
number of rounds any of its loops takes is bounded by the length of the body.
-/

namespace AnythingTool

open CText CheckedReads

section Loops

variable (text : Bytes) (rounds : ℕ)

/-- A round of the loop of `anything_rpc_extract_param_string`. -/
def extractRound (n : ℕ) (key : Bytes) (p : ℕ) : Run (Round ℕ (Option (CString n))) := do
  let c ← load text p
  if c = 0 ∨ c = rbrace then pure (.done none)
  else
    match ← scanKeyAt text rounds p with
    | .error _ => pure (.done none)
    | .ok (foundKey, p) =>
        if foundKey.bytes = key then do
          let call ← parseJsonStringAt text rounds n p
          pure (.done call.answer)
        else do
          let call ← skipJsonValueAt text rounds p
          match call.answer with
          | none => pure (.done none)
          | some () => do
              let p ← skipWsAt text rounds call.cursor
              let c ← load text p
              if c = comma then do
                let p ← skipWsAt text rounds (p + 1)
                pure (.next p)
              else pure (.next p)

/-- `anything_rpc_extract_param_string` -/
def anythingRpcExtractParamStringAt (n params : ℕ) (key : Bytes) : Run (Option (CString n)) := do
  let p ← skipWsAt text rounds params
  let c ← load text p
  if c ≠ lbrace then pure none
  else do
    let p ← skipWsAt text rounds (p + 1)
    repeatRounds (extractRound text rounds n key) rounds p

/-- What the main loop carries from one iteration to the next, with a position. -/
structure RpcLoopAt where
  p : ℕ
  scan : RpcScan
  request : RpcRequest
deriving DecidableEq

/-- The body of the main loop up to the end of the value. -/
def rpcMemberAt (st : RpcLoopAt) : Run (Except RpcParseError RpcLoopAt) := do
  match ← scanKeyAt text rounds st.p with
  | .error .badKey => pure (.error .invalidTopLevelKey)
  | .error .noColon => pure (.error .invalidRequestShape)
  | .ok (key, p) =>
      if key.bytes = ascii "jsonrpc" then
        match markSeen st.scan.seenJsonrpc with
        | .error e => pure (.error e)
        | .ok seen => do
            let call ← parseJsonStringAt text rounds 16 p
            match call.answer with
            | none => pure (.error .invalidVersion)
            | some version =>
                if version.bytes ≠ ascii "2.0" then pure (.error .invalidVersion)
                else
                  pure (.ok
                    { st with p := call.cursor, scan := { st.scan with seenJsonrpc := seen } })
      else if key.bytes = ascii "id" then
        match markSeen st.scan.seenId with
        | .error e => pure (.error e)
        | .ok seen => do
            let call ← parseJsonStringAt text rounds 64 p
            match call.answer with
            | none => pure (.error .invalidId)
            | some id =>
                pure (.ok ⟨call.cursor, { st.scan with seenId := seen },
                  { st.request with id := id }⟩)
      else if key.bytes = ascii "method" then
        match markSeen st.scan.seenMethod with
        | .error e => pure (.error e)
        | .ok seen => do
            let call ← parseJsonStringAt text rounds 64 p
            match call.answer with
            | none => pure (.error .invalidMethod)
            | some method =>
                pure (.ok ⟨call.cursor, { st.scan with seenMethod := seen },
                  { st.request with method := method }⟩)
      else if key.bytes = ascii "params" then
        match markSeen st.scan.seenParams with
        | .error e => pure (.error e)
        | .ok seen => do
            let c ← load text p
            if c ≠ lbrace then pure (.error .nonObjectParams)
            else do
              let call ← copyJsonObjectRawAt text rounds 1024 p
              match call.answer with
              | none => pure (.error .invalidParams)
              | some params =>
                  pure (.ok ⟨call.cursor, { st.scan with seenParams := seen },
                    { st.request with params := params }⟩)
      else do
        let call ← skipJsonValueAt text rounds p
        match call.answer with
        | none => pure (.error .invalidValue)
        | some () => pure (.ok { st with p := call.cursor })

/-- A round of the main loop. -/
def rpcRound (st : RpcLoopAt) : Run (Round RpcLoopAt (Except RpcParseError RpcLoopAt)) := do
  let c ← load text st.p
  if c = 0 then pure (.done (.ok st))
  else
    match ← rpcMemberAt text rounds st with
    | .error e => pure (.done (.error e))
    | .ok st => do
        let p ← skipWsAt text rounds st.p
        let c ← load text p
        if c = comma then do
          let p ← skipWsAt text rounds (p + 1)
          pure (.next { st with p := p })
        else if c = rbrace then pure (.done (.ok { st with p := p + 1 }))
        else pure (.done (.error .invalidRequestTerminator))

/-- The main loop of `anything_rpc_parse`. -/
def rpcLoopAt (st : RpcLoopAt) : Run (Except RpcParseError RpcLoopAt) :=
  repeatRounds (rpcRound text rounds) rounds st

/-- The beginning of `anything_rpc_parse`, up to the first key. -/
def rpcStartAt : Run (Except RpcParseError RpcLoopAt) :=
  if text.length = 0 then pure (.error .invalidJson)
  else do
    let p ← skipWsAt text rounds 0
    let c ← load text p
    if c ≠ lbrace then pure (.error .invalidJsonObject)
    else do
      let p ← skipWsAt text rounds (p + 1)
      let c ← load text p
      if c = rbrace then pure (.error .invalidRequest)
      else pure (.ok ⟨p, .zero, .zero⟩)

/-- The end of `anything_rpc_parse`; the parameters are a text of their own. -/
def rpcFinishAt (st : RpcLoopAt) : Run (Except RpcParseError RpcRequest) := do
  let p ← skipWsAt text rounds st.p
  let c ← load text p
  if c ≠ 0 ∧ c ≠ newline then pure (.error .trailingData)
  else if !st.scan.seenJsonrpc || !st.scan.seenId || !st.scan.seenMethod then
    pure (.error .missingRequiredField)
  else do
    let params :=
      if st.scan.seenParams then st.request.params
      else .snprintf 1024 (ascii "\x7b\x7d")
    let found ←
      anythingRpcExtractParamStringAt params.bytes rounds 64 0 (ascii "session_id")
    let sessionId :=
      match found with
      | some sessionId => sessionId
      | none => .snprintf 64 (ascii "default")
    pure (.ok { st.request with
      params := params
      sessionId := sessionId
      requestHash :=
        anythingRpcHashRequest st.request.method.bytes params.bytes sessionId.bytes })

/-- `anything_rpc_parse` -/
def anythingRpcParseAt : Run (Except RpcParseError RpcRequest) := do
  match ← rpcStartAt text rounds with
  | .error e => pure (.error e)
  | .ok st =>
      match ← rpcLoopAt text rounds st with
      | .error e => pure (.error e)
      | .ok st => rpcFinishAt text rounds st

end Loops

/-! ## Parameters -/

section Extract

variable {text t : Bytes} {rounds p n : ℕ} {key : Bytes}

theorem extractRound_follows (hrounds : text.length < rounds) (h : At text p t) :
    Follows (At text) (fun t answer => extractLoop n key t = answer) List.length t
      (extractRound text rounds n key p) := by
  rw [extractRound, h.load, ok_bind]
  by_cases hend : deref t = 0 ∨ deref t = rbrace
  · rw [if_pos hend]
    exact .done (by rw [extractLoop, if_pos hend])
  rw [if_neg hend]
  have hloop : extractLoop n key t = _ := extractLoop_eq hend
  obtain ⟨found, hrun, hkey⟩ := scanKeyAt_reads h hrounds
  rw [hrun, ok_bind]
  cases hscan : scanKey t with
  | error e =>
      rw [hscan] at hkey hloop
      cases hkey
      exact .done hloop
  | ok kv =>
      rw [hscan] at hkey hloop
      cases hkey with
      | @moved foundKey v p hat =>
          simp only at hloop ⊢
          by_cases hfound : foundKey.bytes = key
          · obtain ⟨call, hparse, hcall⟩ := parseJsonStringAt_answers hat hrounds n
            rw [if_pos hfound] at hloop ⊢
            rw [hparse, ok_bind]
            exact .done (hloop.trans hcall.answer.symm)
          rw [if_neg hfound] at hloop ⊢
          obtain ⟨call, hskip, hcall⟩ := skipJsonValueAt_answers hat hrounds
          rw [hskip, ok_bind]
          obtain ⟨hv, rfl⟩ | ⟨r, q, hv, rfl, hat⟩ := hcall.skipped_cases
          · rw [hv] at hloop
            exact .done hloop
          · rw [hv] at hloop
            have hshort : (skipWs r).length < t.length :=
              ((skipWs_suffix r).length_le.trans (skipJsonValue_length hv)).trans_lt
                (scanKey_length hscan)
            obtain ⟨p, hws, hat⟩ := skipWsAt_eq hat hrounds
            simp only [hws, ok_bind, hat.load] at hloop ⊢
            cases hr : skipWs r with
            | nil =>
                rw [hr] at hloop hat hshort
                have hnil : extractLoop n key [] = none := by
                  rw [extractLoop, if_pos (.inl rfl)]
                exact .next [] hat hshort fun _ h => hloop.trans (hnil.symm.trans h)
            | cons c u =>
                rw [hr] at hloop hat hshort
                simp only at hloop
                rw [deref_cons]
                by_cases hc : c = comma
                · subst hc
                  obtain ⟨p, hws, hat⟩ := skipWsAt_eq (hat.next (by decide)) hrounds
                  have hle := (skipWs_suffix u).length_le
                  rw [if_pos rfl] at hloop
                  rw [if_pos rfl, hws, ok_bind]
                  refine .next (skipWs u) hat (by rw [List.length_cons] at hshort; omega) ?_
                  exact fun _ h => hloop.trans h
                · rw [if_neg hc] at hloop ⊢
                  exact .next (c :: u) hat hshort fun _ h => hloop.trans h

theorem anythingRpcExtractParamStringAt_eq (h : At text p t) (hrounds : text.length < rounds) :
    anythingRpcExtractParamStringAt text rounds n p key =
      .ok (anythingRpcExtractParamString n t key) := by
  obtain ⟨q, hws, hat⟩ := skipWsAt_eq h hrounds
  rw [anythingRpcExtractParamStringAt, hws, ok_bind, hat.load, ok_bind,
    anythingRpcExtractParamString]
  cases hopen : skipWs t with
  | nil => rfl
  | cons c u =>
      rw [hopen] at hat
      rw [deref_cons]
      by_cases hc : c = lbrace
      · subst hc
        obtain ⟨q, hws', hat'⟩ := skipWsAt_eq (hat.next (by decide)) hrounds
        obtain ⟨answer, hrun, hanswer⟩ :=
          repeatRounds_spec (fun _ _ => extractRound_follows hrounds) hat'
            (hat'.lt_rounds hrounds)
        rw [if_neg (not_not.mpr rfl), hws', ok_bind, hrun]
        exact congrArg Except.ok hanswer.symm
      · rw [if_pos hc]
        simp only [hc, if_false]
        rfl

end Extract

/-! ## The request -/

/-- The loop stands at the same place, and has collected the same. -/
structure LoopStands (text : Bytes) (s : RpcLoopAt) (t : RpcLoop) : Prop where
  at_p : At text s.p t.p
  scan : s.scan = t.scan
  request : s.request = t.request

/-- The main loop, or a part of it, ends as on bytes. -/
inductive LoopEnds (text : Bytes) :
    Except RpcParseError RpcLoop → Except RpcParseError RpcLoopAt → Prop
  | failed (e : RpcParseError) : LoopEnds text (.error e) (.error e)
  | moved {t : RpcLoop} {s : RpcLoopAt} (h : LoopStands text s t) : LoopEnds text (.ok t) (.ok s)

section Request

variable {text : Bytes} {rounds : ℕ} {s : RpcLoopAt} {t : RpcLoop}

theorem rpcMemberAt_ends (h : LoopStands text s t) (hrounds : text.length < rounds) :
    ∃ r, rpcMemberAt text rounds s = .ok r ∧ LoopEnds text (rpcMember t) r := by
  obtain ⟨p, scan, request⟩ := s
  obtain ⟨u, _, _⟩ := t
  obtain ⟨h, rfl, rfl⟩ := h
  simp only at h ⊢
  obtain ⟨found, hrun, hkey⟩ := scanKeyAt_reads h hrounds
  rw [rpcMemberAt, hrun, ok_bind, rpcMember]
  simp only
  cases hscan : scanKey u with
  | error e =>
      rw [hscan] at hkey
      cases hkey
      cases e with
      | badKey => exact ⟨_, rfl, .failed _⟩
      | noColon => exact ⟨_, rfl, .failed _⟩
  | ok kv =>
      rw [hscan] at hkey
      cases hkey with
      | @moved key v p hat =>
          simp only
          by_cases hjsonrpc : key.bytes = ascii "jsonrpc"
          · rw [if_pos hjsonrpc, if_pos hjsonrpc]
            cases markSeen scan.seenJsonrpc with
            | error e => exact ⟨_, rfl, .failed e⟩
            | ok seen =>
                obtain ⟨call, hparse, hcall⟩ := parseJsonStringAt_answers hat hrounds 16
                simp only [hparse, ok_bind]
                generalize parseJsonString 16 v = o at hcall ⊢
                cases hcall with
                | failed => exact ⟨_, rfl, .failed _⟩
                | @moved version r q hat =>
                    simp only
                    by_cases hversion : version.bytes ≠ ascii "2.0"
                    · rw [if_pos hversion, if_pos hversion]
                      exact ⟨_, rfl, .failed _⟩
                    · rw [if_neg hversion, if_neg hversion]
                      exact ⟨_, rfl, .moved ⟨hat, rfl, rfl⟩⟩
          rw [if_neg hjsonrpc, if_neg hjsonrpc]
          by_cases hid : key.bytes = ascii "id"
          · rw [if_pos hid, if_pos hid]
            cases markSeen scan.seenId with
            | error e => exact ⟨_, rfl, .failed e⟩
            | ok seen =>
                obtain ⟨call, hparse, hcall⟩ := parseJsonStringAt_answers hat hrounds 64
                simp only [hparse, ok_bind]
                generalize parseJsonString 64 v = o at hcall ⊢
                cases hcall with
                | failed => exact ⟨_, rfl, .failed _⟩
                | moved hat => exact ⟨_, rfl, .moved ⟨hat, rfl, rfl⟩⟩
          rw [if_neg hid, if_neg hid]
          by_cases hmethod : key.bytes = ascii "method"
          · rw [if_pos hmethod, if_pos hmethod]
            cases markSeen scan.seenMethod with
            | error e => exact ⟨_, rfl, .failed e⟩
            | ok seen =>
                obtain ⟨call, hparse, hcall⟩ := parseJsonStringAt_answers hat hrounds 64
                simp only [hparse, ok_bind]
                generalize parseJsonString 64 v = o at hcall ⊢
                cases hcall with
                | failed => exact ⟨_, rfl, .failed _⟩
                | moved hat => exact ⟨_, rfl, .moved ⟨hat, rfl, rfl⟩⟩
          rw [if_neg hmethod, if_neg hmethod]
          by_cases hparams : key.bytes = ascii "params"
          · rw [if_pos hparams, if_pos hparams]
            cases markSeen scan.seenParams with
            | error e => exact ⟨_, rfl, .failed e⟩
            | ok seen =>
                simp only [hat.load, ok_bind]
                by_cases hbrace : deref v ≠ lbrace
                · rw [if_pos hbrace, if_pos hbrace]
                  exact ⟨_, rfl, .failed _⟩
                obtain ⟨call, hcopy, hcall⟩ := copyJsonObjectRawAt_answers hat hrounds 1024
                rw [if_neg hbrace, if_neg hbrace, hcopy, ok_bind]
                generalize copyJsonObjectRaw 1024 v = o at hcall ⊢
                cases hcall with
                | failed => exact ⟨_, rfl, .failed _⟩
                | moved hat => exact ⟨_, rfl, .moved ⟨hat, rfl, rfl⟩⟩
          rw [if_neg hparams, if_neg hparams]
          obtain ⟨call, hskip, hcall⟩ := skipJsonValueAt_answers hat hrounds
          simp only [hskip, ok_bind]
          obtain ⟨hv, rfl⟩ | ⟨r, q, hv, rfl, hat⟩ := hcall.skipped_cases
          · rw [hv]
            exact ⟨_, rfl, .failed _⟩
          · rw [hv]
            exact ⟨_, rfl, .moved ⟨hat, rfl, rfl⟩⟩

theorem rpcLoop_of_error {e : RpcParseError} (h0 : deref t.p ≠ 0) (h : rpcMember t = .error e) :
    rpcLoop t = .error e := by
  rw [rpcLoop, if_neg h0]
  split
  · rename_i e' he
    rw [h] at he
    rw [Except.error.inj he]
  · rename_i t' ht
    rw [h] at ht
    cases ht

theorem rpcRound_follows (hrounds : text.length < rounds) (h : LoopStands text s t) :
    Follows (LoopStands text) (fun t => LoopEnds text (rpcLoop t)) (fun t => t.p.length) t
      (rpcRound text rounds s) := by
  rw [rpcRound, h.at_p.load, ok_bind]
  by_cases h0 : deref t.p = 0
  · rw [if_pos h0]
    exact .done (by rw [rpcLoop, if_pos h0]; exact .moved h)
  rw [if_neg h0]
  obtain ⟨r, hmember, hr⟩ := rpcMemberAt_ends h hrounds
  rw [hmember, ok_bind]
  cases hread : rpcMember t with
  | error e =>
      rw [hread] at hr
      cases hr
      exact .done (by rw [rpcLoop_of_error h0 hread]; exact .failed e)
  | ok t' =>
      rw [hread] at hr
      cases hr with
      | @moved _ s' h' =>
          have hloop := rpcLoop_eq h0 hread
          have hshort : (skipWs t'.p).length < t.p.length :=
            (skipWs_suffix t'.p).length_le.trans_lt (rpcMember_eq_ok.mp hread).length
          obtain ⟨p, hws, hat⟩ := skipWsAt_eq h'.at_p hrounds
          simp only [hws, ok_bind, hat.load]
          rw [rpcSeparator] at hloop
          cases hsep : skipWs t'.p with
          | nil =>
              rw [hsep] at hloop
              exact .done (by rw [hloop]; exact .failed _)
          | cons c u =>
              rw [hsep] at hloop hat hshort
              simp only at hloop
              rw [deref_cons]
              by_cases hc : c = comma
              · subst hc
                obtain ⟨p, hws, hat⟩ := skipWsAt_eq (hat.next (by decide)) hrounds
                have hle := (skipWs_suffix u).length_le
                rw [if_pos rfl] at hloop
                rw [if_pos rfl, hws, ok_bind]
                refine .next { t' with p := skipWs u } ⟨hat, h'.scan, h'.request⟩
                  (by rw [List.length_cons] at hshort; simp only; omega) ?_
                rw [hloop]
                exact fun _ h => h
              rw [if_neg hc] at hloop ⊢
              by_cases hb : c = rbrace
              · subst hb
                rw [if_pos rfl] at hloop ⊢
                exact .done (by
                  rw [hloop]; exact .moved ⟨hat.next (by decide), h'.scan, h'.request⟩)
              · rw [if_neg hb] at hloop ⊢
                exact .done (by rw [hloop]; exact .failed _)

theorem rpcLoopAt_ends (h : LoopStands text s t) (hrounds : text.length < rounds) :
    ∃ r, rpcLoopAt text rounds s = .ok r ∧ LoopEnds text (rpcLoop t) r :=
  repeatRounds_spec (fun _ _ => rpcRound_follows hrounds) h (h.at_p.lt_rounds hrounds)

theorem rpcStartAt_ends (hrounds : text.length < rounds) :
    ∃ r, rpcStartAt text rounds = .ok r ∧ LoopEnds text (rpcStart text) r := by
  rw [rpcStartAt, rpcStart]
  by_cases hlen : text.length = 0
  · rw [if_pos hlen, if_pos hlen]
    exact ⟨_, rfl, .failed _⟩
  rw [if_neg hlen, if_neg hlen]
  obtain ⟨p, hws, hat⟩ := skipWsAt_eq (at_start text) hrounds
  simp only [hws, ok_bind, hat.load]
  cases hopen : skipWs text with
  | nil => exact ⟨_, rfl, .failed _⟩
  | cons c u =>
      rw [hopen] at hat
      rw [deref_cons]
      by_cases hc : c = lbrace
      · subst hc
        obtain ⟨p, hws, hat⟩ := skipWsAt_eq (hat.next (by decide)) hrounds
        simp only [ne_eq, not_true_eq_false, if_false, hws, ok_bind, hat.load]
        by_cases hclose : deref (skipWs u) = rbrace
        · rw [if_pos hclose, if_pos hclose]
          exact ⟨_, rfl, .failed _⟩
        · rw [if_neg hclose, if_neg hclose]
          exact ⟨_, rfl, .moved ⟨hat, rfl, rfl⟩⟩
      · rw [if_pos hc]
        simp only [ne_eq, hc, not_false_eq_true, if_true]
        exact ⟨_, rfl, .failed _⟩

theorem rpcFinishAt_eq (h : LoopStands text s t) (hrounds : text.length < rounds)
    (hparams : 1024 ≤ rounds) : rpcFinishAt text rounds s = .ok (rpcFinish t) := by
  obtain ⟨p, hws, hat⟩ := skipWsAt_eq h.at_p hrounds
  rw [rpcFinishAt, hws, ok_bind, hat.load, ok_bind, rpcFinish, h.scan, h.request]
  simp only
  split_ifs with hend hmissing hseen
  · rfl
  · rfl
  all_goals
    rw [anythingRpcExtractParamStringAt_eq (at_start _) ((CString.fits _).trans_le hparams),
      ok_bind]
    rfl

/-- The parser in memory is the parser on bytes: none of its reads is behind the NUL, and
none of its loops takes more rounds than the longer one of the body and the parameters has
bytes, and one more. -/
theorem anythingRpcParseAt_eq (hrounds : text.length < rounds) (hparams : 1024 ≤ rounds) :
    anythingRpcParseAt text rounds = .ok (anythingRpcParse text) := by
  obtain ⟨r, hstart, hr⟩ := rpcStartAt_ends hrounds
  rw [anythingRpcParseAt, hstart, ok_bind, anythingRpcParse]
  cases hbegin : rpcStart text with
  | error e =>
      rw [hbegin] at hr
      cases hr
      rfl
  | ok t =>
      rw [hbegin] at hr
      cases hr with
      | moved h =>
          obtain ⟨r, hloop, hr⟩ := rpcLoopAt_ends h hrounds
          simp only [hloop, ok_bind]
          cases hend : rpcLoop t with
          | error e =>
              rw [hend] at hr
              cases hr
              rfl
          | ok t' =>
              rw [hend] at hr
              cases hr with
              | moved h => exact rpcFinishAt_eq h hrounds hparams

end Request

/-! ## Termination inside of the text -/

/-- The call ends and reads nothing behind the NUL, with the same result for any number of
rounds above the length of the text, and leaves the caller's cursor between where it was
and the NUL. -/
def EndsInside {α : Type} (text : Bytes) (p : ℕ) (run : ℕ → Run (Call α)) : Prop :=
  ∃ call, (∀ rounds, text.length < rounds → run rounds = .ok call) ∧
    p ≤ call.cursor ∧ call.cursor ≤ (cstr text).length

/-- The round ends and reads nothing behind the NUL, and when the loop goes on the cursor
has moved. -/
def Consumes {σ α : Type} (text : Bytes) (p : ℕ) (position : σ → ℕ)
    (r : Run (Round σ α)) : Prop :=
  ∃ round, r = .ok round ∧
    ∀ s, round = .next s → p < position s ∧ position s ≤ (cstr text).length

section Termination

variable {text t : Bytes} {p : ℕ}

theorem Answers.unique {α : Type} {o : Option (α × Bytes)} {call call' : Call α}
    (h : Answers text p o call) (h' : Answers text p o call') : call = call' := by
  cases h with
  | failed =>
      cases h'
      rfl
  | moved hat =>
      cases h' with
      | moved hat' => rw [hat.unique hat']

theorem endsInside_of_answers {α : Type} {o : Option (α × Bytes)} {run : ℕ → Run (Call α)}
    (h : At text p t) (hlen : ∀ a r, o = some (a, r) → r.length ≤ t.length)
    (hrun : ∀ rounds, text.length < rounds →
      ∃ call, run rounds = .ok call ∧ Answers text p o call) : EndsInside text p run := by
  obtain ⟨call, -, hcall⟩ := hrun (text.length + 1) (Nat.lt_succ_self _)
  refine ⟨call, ?_, ?_⟩
  · intro rounds hrounds
    obtain ⟨call', hrun', hcall'⟩ := hrun rounds hrounds
    rw [hrun', hcall'.unique hcall]
  · cases hcall with
    | failed => exact ⟨le_rfl, h.inside⟩
    | moved hat => exact ⟨h.le hat (hlen _ _ rfl), hat.inside⟩

theorem consumes_of_follows {σ τ α : Type} {P : σ → τ → Prop} {R : τ → α → Prop}
    (rest : τ → Bytes) {position : σ → ℕ} {t : τ} {r : Run (Round σ α)}
    (hP : ∀ s t, P s t → At text (position s) (rest t)) (h : At text p (rest t))
    (hr : Follows P R (fun t => (rest t).length) t r) : Consumes text p position r := by
  cases hr with
  | done ha =>
      refine ⟨_, rfl, ?_⟩
      intro s hs
      cases hs
  | @next s t' hs hμ hback =>
      refine ⟨_, rfl, ?_⟩
      rintro _ ⟨⟩
      exact ⟨h.lt (hP s t' hs) hμ, (hP s t' hs).inside⟩

theorem rpcSeparator_length {p q : Bytes}
    (h : rpcSeparator p = .ok (.another q) ∨ rpcSeparator p = .ok (.close q)) :
    q.length < p.length := by
  have hws := (skipWs_suffix p).length_le
  rcases h with h | h
  · obtain ⟨r, hr, rfl⟩ := rpcSeparator_another.mp h
    have hle := (skipWs_suffix r).length_le
    rw [hr, List.length_cons] at hws
    omega
  · rw [rpcSeparator_close.mp h, List.length_cons] at hws
    omega

/-- The main loop goes forward, and leaves a cursor at the NUL only where it is. -/
theorem rpcLoop_length {t t' : RpcLoop} (h : rpcLoop t = .ok t') :
    t'.p.length ≤ t.p.length ∧ (deref t.p ≠ 0 → t'.p.length < t.p.length) := by
  fun_induction rpcLoop t with
  | case1 t hend =>
      obtain rfl := Except.ok.inj h
      exact ⟨le_rfl, fun h0 => absurd hend h0⟩
  | case2 => cases h
  | case3 => cases h
  | case4 t h0 t₁ hm p hs ih =>
      have hlt := ((ih h).1.trans_lt (rpcSeparator_length (.inl hs))).trans
        (rpcMember_eq_ok.mp hm).length
      exact ⟨hlt.le, fun _ => hlt⟩
  | case5 t h0 t₁ hm p hs =>
      obtain rfl := Except.ok.inj h
      have hlt := (rpcSeparator_length (.inr hs)).trans (rpcMember_eq_ok.mp hm).length
      exact ⟨hlt.le, fun _ => hlt⟩

theorem LoopEnds.unique {o : Except RpcParseError RpcLoop} {r r' : Except RpcParseError RpcLoopAt}
    (h : LoopEnds text o r) (h' : LoopEnds text o r') : r = r' := by
  cases h with
  | failed e =>
      cases h'
      rfl
  | @moved t s hs =>
      cases h' with
      | @moved _ s' hs' =>
          have hp : s.p = s'.p := hs.at_p.unique hs'.at_p
          have hscan : s.scan = s'.scan := hs.scan.trans hs'.scan.symm
          have hrequest : s.request = s'.request := hs.request.trans hs'.request.symm
          cases s
          cases s'
          simp_all

theorem parseJsonStringAt_endsInside (h : At text p t) (n : ℕ) :
    EndsInside text p fun rounds => parseJsonStringAt text rounds n p :=
  endsInside_of_answers h (fun _ _ hparse => (parseJsonString_length hparse).le)
    fun _ hrounds => parseJsonStringAt_answers h hrounds n

theorem skipJsonStringAt_endsInside (h : At text p t) :
    EndsInside text p fun rounds => skipJsonStringAt text rounds p :=
  endsInside_of_answers h
    (fun _ _ hskip => (skipJsonString_length (skipped_eq_some.mp hskip)).le)
    fun _ hrounds => skipJsonStringAt_answers h hrounds

theorem copyJsonObjectRawAt_endsInside (h : At text p t) (n : ℕ) :
    EndsInside text p fun rounds => copyJsonObjectRawAt text rounds n p :=
  endsInside_of_answers h (fun _ _ hcopy => (copyJsonObjectRaw_length hcopy).le)
    fun _ hrounds => copyJsonObjectRawAt_answers h hrounds n

theorem skipJsonValueAt_endsInside (h : At text p t) :
    EndsInside text p fun rounds => skipJsonValueAt text rounds p :=
  endsInside_of_answers h (fun _ _ hskip => skipJsonValue_length (skipped_eq_some.mp hskip))
    fun _ hrounds => skipJsonValueAt_answers h hrounds

variable {rounds : ℕ} {s : RpcLoopAt} {u : RpcLoop}

theorem extractRound_consumes (h : At text p t) (hrounds : text.length < rounds) (n : ℕ)
    (key : Bytes) : Consumes text p id (extractRound text rounds n key p) :=
  consumes_of_follows id (fun _ _ hat => hat) h (extractRound_follows hrounds h)

theorem rpcRound_consumes (h : LoopStands text s u) (hrounds : text.length < rounds) :
    Consumes text s.p RpcLoopAt.p (rpcRound text rounds s) :=
  consumes_of_follows RpcLoop.p (fun _ _ hs => hs.at_p) h.at_p
    (rpcRound_follows hrounds h)

/-- A round that leaves the main loop, behind a brace, has moved the cursor. -/
theorem rpcRound_leaves (h : LoopStands text s u) (hrounds : text.length < rounds) {s' : RpcLoopAt}
    (hround : rpcRound text rounds s = .ok (.done (.ok s'))) (h0 : deref u.p ≠ 0) :
    s.p < s'.p ∧ s'.p ≤ (cstr text).length := by
  have hfollows := rpcRound_follows hrounds h
  rw [hround] at hfollows
  cases hfollows with
  | done hend =>
      generalize hloop : rpcLoop u = o at hend
      cases hend with
      | moved hs => exact ⟨h.at_p.lt hs.at_p ((rpcLoop_length hloop).2 h0), hs.at_p.inside⟩

theorem rpcLoopAt_endsInside (h : LoopStands text s u) :
    ∃ r, (∀ rounds, text.length < rounds → rpcLoopAt text rounds s = .ok r) ∧
      ∀ s', r = .ok s' → s.p ≤ s'.p ∧ s'.p ≤ (cstr text).length := by
  obtain ⟨r, -, hend⟩ := rpcLoopAt_ends h (Nat.lt_succ_self _)
  refine ⟨r, ?_, ?_⟩
  · intro rounds hrounds
    obtain ⟨r', hrun, hend'⟩ := rpcLoopAt_ends h hrounds
    rw [hrun, hend'.unique hend]
  · rintro s' rfl
    generalize hloop : rpcLoop u = o at hend
    cases hend with
    | moved hs => exact ⟨h.at_p.le hs.at_p (rpcLoop_length hloop).1, hs.at_p.inside⟩

/-- The scanners end inside of the text, for every text and from every position in it: the
cursor of the caller stays between where it was and the NUL, and each round of the two
member loops that goes on, or leaves the main loop behind a brace, takes a byte at least. -/
theorem scanners_endInside (text : Bytes) (p : ℕ) (hp : p ≤ (cstr text).length) :
    (∀ n, EndsInside text p fun rounds => parseJsonStringAt text rounds n p) ∧
    EndsInside text p (fun rounds => skipJsonStringAt text rounds p) ∧
    (∀ n, EndsInside text p fun rounds => copyJsonObjectRawAt text rounds n p) ∧
    EndsInside text p (fun rounds => skipJsonValueAt text rounds p) ∧
    (∀ n key, (∃ answer, ∀ rounds, text.length < rounds →
        anythingRpcExtractParamStringAt text rounds n p key = .ok answer) ∧
      ∀ rounds, text.length < rounds →
        Consumes text p id (extractRound text rounds n key p)) ∧
    ∀ scan request,
      (∃ r, (∀ rounds, text.length < rounds → rpcLoopAt text rounds ⟨p, scan, request⟩ = .ok r) ∧
        ∀ st, r = .ok st → p ≤ st.p ∧ st.p ≤ (cstr text).length) ∧
      ∀ rounds, text.length < rounds →
        Consumes text p RpcLoopAt.p (rpcRound text rounds ⟨p, scan, request⟩) ∧
        ∀ st, rpcRound text rounds ⟨p, scan, request⟩ = .ok (.done (.ok st)) →
          deref (text.drop p) ≠ 0 → p < st.p ∧ st.p ≤ (cstr text).length := by
  have h := at_drop hp
  refine ⟨parseJsonStringAt_endsInside h, skipJsonStringAt_endsInside h,
    copyJsonObjectRawAt_endsInside h, skipJsonValueAt_endsInside h, ?_, ?_⟩
  · intro n key
    exact ⟨⟨_, fun _ hrounds => anythingRpcExtractParamStringAt_eq h hrounds⟩,
      fun _ hrounds => extractRound_consumes h hrounds n key⟩
  · intro scan request
    have hstands : LoopStands text ⟨p, scan, request⟩ ⟨text.drop p, scan, request⟩ := ⟨h, rfl, rfl⟩
    refine ⟨rpcLoopAt_endsInside hstands, ?_⟩
    intro rounds hrounds
    exact ⟨rpcRound_consumes hstands hrounds,
      fun _ hround h0 => rpcRound_leaves hstands hrounds hround h0⟩

/-- A request that is cut behind a backslash. -/
def cutSample : Bytes := ascii "\x7b\"id\":\"a\\"

theorem scanners_endInside_sample :
    ∃ call, skipJsonStringAt cutSample 100 6 = .ok call ∧ 6 ≤ call.cursor ∧ call.cursor ≤ 9 := by
  obtain ⟨call, hrun, hle, hinside⟩ := (scanners_endInside cutSample 6 (by decide)).2.1
  exact ⟨call, hrun 100 (by decide), hle, hinside⟩

end Termination

end AnythingTool
