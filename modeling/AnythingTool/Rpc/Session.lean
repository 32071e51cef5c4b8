import AnythingTool.Library.JsonLines
import AnythingTool.Rpc.FirstField

/-!
# The session of a request

The session is the parameter `session_id`, or `default` when the extraction of that
parameter fails, for whatever reason it fails. An accepted request has parameters that were
copied whole, so the strings in them use the escapes the scanners know
(`exists_isObject_of_copied`); what remains are values that are no string, values that do
not fit, and keys in front of the session that do not fit.
-/

namespace AnythingTool

open CText JsonText

/-! ## What the copy of an object has passed over -/

/-- Inside of braces, the bracket loop passes over a text only if `P` holds. -/
def Passes (P : Prop) (t : Bytes) : Prop :=
  ∀ d : ℤ, 1 ≤ d → ∀ r q, scanToClose lbrace rbrace d (t ++ r) = some q →
    P ∧ scanToClose lbrace rbrace d r = some q

namespace Passes

theorem of_balanced {t : Bytes} (h : Balanced t) : Passes True t := by
  intro d hd r q hscan
  rw [scanToClose_balanced (.inl ⟨rfl, rfl⟩) h hd] at hscan
  exact ⟨trivial, hscan⟩

theorem mono {P Q : Prop} {t : Bytes} (h : Passes P t) (himp : P → Q) : Passes Q t := by
  intro d hd r q hscan
  obtain ⟨hP, hrest⟩ := h d hd r q hscan
  exact ⟨himp hP, hrest⟩

theorem append {P Q : Prop} {s t : Bytes} (hs : Passes P s) (ht : Passes Q t) :
    Passes (P ∧ Q) (s ++ t) := by
  intro d hd r q hscan
  rw [List.append_assoc] at hscan
  obtain ⟨hP, hscan⟩ := hs d hd (t ++ r) q hscan
  obtain ⟨hQ, hscan⟩ := ht d hd r q hscan
  exact ⟨⟨hP, hQ⟩, hscan⟩

/-- A string that is passed over uses the escapes the scanners know. -/
theorem literal {raw : Bytes} (h : StringText raw) :
    Passes (∃ dec, StringBody raw dec) (literal raw) := by
  intro d hd r q hscan
  have htext : JsonText.literal raw ++ r = quote :: (raw ++ quote :: r) := by
    simp [JsonText.literal]
  rw [htext] at hscan
  obtain ⟨raw', dec, rest, hbody, heq, hrest⟩ := scanToClose_quote hscan
  obtain ⟨rfl, rfl⟩ := h.quote_inj hbody.text heq
  exact ⟨⟨dec, hbody⟩, hrest⟩

theorem braces {P : Prop} {s : Bytes} (h : Passes P s) :
    Passes P (lbrace :: s ++ [rbrace]) := by
  intro d hd r q hscan
  have htext : lbrace :: s ++ [rbrace] ++ r = lbrace :: (s ++ rbrace :: r) := by simp
  rw [htext, scanToClose_open (.inl ⟨rfl, rfl⟩)] at hscan
  obtain ⟨hP, hscan⟩ := h (d + 1) (by omega) _ q hscan
  rw [scanToClose_close (.inl ⟨rfl, rfl⟩), if_neg (by omega), add_sub_cancel_right] at hscan
  exact ⟨hP, hscan⟩

theorem brackets {P : Prop} {s : Bytes} (h : Passes P s) :
    Passes P (lbracket :: s ++ [rbracket]) := by
  intro d hd r q hscan
  have htext : lbracket :: s ++ [rbracket] ++ r = lbracket :: (s ++ rbracket :: r) := by simp
  rw [htext, scanToClose_other d (by decide)] at hscan
  obtain ⟨hP, hscan⟩ := h d hd _ q hscan
  rw [scanToClose_other d (by decide)] at hscan
  exact ⟨hP, hscan⟩

theorem commaSep {α : Type} {P : α → Prop} {text : α → Bytes} {xs : List α}
    (h : ∀ x ∈ xs, Passes (P x) (text x)) :
    Passes (∀ x ∈ xs, P x) (commaSep (xs.map text)) := by
  induction xs with
  | nil => exact (of_balanced .nil).mono fun _ => List.forall_mem_nil _
  | cons x xs ih =>
      obtain ⟨hx, hxs⟩ := List.forall_mem_cons.mp h
      cases xs with
      | nil => exact hx.mono List.forall_mem_singleton.mpr
      | cons y ys =>
          have hcomma : Passes True [comma] := of_balanced (.plain (by decide))
          exact (hx.append (hcomma.append (ih hxs))).mono fun hall =>
            List.forall_mem_cons.mpr ⟨hall.1, hall.2.2⟩

end Passes

/-- What the bracket loop needs of a member to pass over it. -/
def Supported (m : Member) : Prop := (∃ key, StringBody m.rawKey key) ∧ IsValue m.value

theorem passes_member {m : Member} (hm : m.Spells) (hv : Passes (IsValue m.value) m.value) :
    Passes (Supported m) m.text := by
  have hblank : ∀ {w : Bytes}, Blank w → Passes True w := fun h => .of_balanced h.balanced
  have hcolon : Passes True [colon] := .of_balanced (.plain (by decide))
  have htext := (hblank hm.blank₀).append ((Passes.literal hm.key).append
    ((hblank hm.blank₁).append (hcolon.append ((hblank hm.blank₂).append
      (hv.append (hblank hm.blank₃))))))
  exact htext.mono fun h => ⟨h.2.1, h.2.2.2.2.2.1⟩

/-- The members of an object with supported escapes, with their keys decoded. -/
theorem exists_decoded {ms : List Member} (hspells : ∀ m ∈ ms, m.Spells)
    (hsupported : ∀ m ∈ ms, Supported m) :
    ∃ ms' : List Member, ms'.map Member.text = ms.map Member.text ∧ (∀ m ∈ ms', m.Lexes) ∧
      ∀ m ∈ ms', IsValue m.value := by
  induction ms with
  | nil => exact ⟨[], rfl, List.forall_mem_nil _, List.forall_mem_nil _⟩
  | cons m ms ih =>
      obtain ⟨hm, hms⟩ := List.forall_mem_cons.mp hspells
      obtain ⟨⟨⟨key, hkey⟩, hv⟩, hrest⟩ := List.forall_mem_cons.mp hsupported
      obtain ⟨ms', htext, hl, hv'⟩ := ih hms hrest
      refine ⟨{ m with key := key } :: ms', ?_, ?_, ?_⟩
      · rw [List.map_cons, List.map_cons, htext]
        rfl
      · exact List.forall_mem_cons.mpr
          ⟨⟨hm.blank₀, hkey, hm.blank₁, hm.blank₂, hm.blank₃⟩, hl⟩
      · exact List.forall_mem_cons.mpr ⟨hv, hv'⟩

theorem exists_isObject_of_supported {ms : List Member} (hne : ms ≠ [])
    (hspells : ∀ m ∈ ms, m.Spells) (hsupported : ∀ m ∈ ms, Supported m) :
    ∃ ps : List Member, ps ≠ [] ∧ (∀ p ∈ ps, p.Lexes) ∧ (∀ p ∈ ps, IsValue p.value) ∧
      objectText ps = objectText ms := by
  obtain ⟨ps, htext, hl, hv⟩ := exists_decoded hspells hsupported
  refine ⟨ps, ?_, hl, hv, ?_⟩
  · rintro rfl
    exact hne (List.map_eq_nil_iff.mp htext.symm)
  · rw [objectText, objectText, htext]

/-- A value of the full grammar that the bracket loop passes over is one with supported
escapes. -/
theorem passes_of_isJson {v : Bytes} (h : IsJson v) : Passes (IsValue v) v := by
  induction h with
  | string h => exact (Passes.literal h).mono fun ⟨_, hbody⟩ => .string hbody
  | scalar h => exact (Passes.of_balanced (IsValue.scalar h).balanced).mono fun _ => .scalar h
  | emptyArray h =>
      exact (Passes.of_balanced (IsValue.emptyArray h).balanced).mono fun _ => .emptyArray h
  | @array es hne hl _ ih =>
      have helement : ∀ e ∈ es, Passes (IsValue e.value) e.text := by
        intro e he
        have htext := ((Passes.of_balanced (hl e he).blank₀.balanced).append (ih e he)).append
          (.of_balanced (hl e he).blank₁.balanced)
        exact htext.mono fun h => h.1.2
      exact (Passes.commaSep helement).brackets.mono fun hv => .array hne hl hv
  | emptyObject h =>
      exact (Passes.of_balanced (IsValue.emptyObject h).balanced).mono fun _ => .emptyObject h
  | @object ms hne hl _ ih =>
      have hmember : ∀ m ∈ ms, Passes (Supported m) m.text :=
        fun m hm => passes_member (hl m hm) (ih m hm)
      refine (Passes.commaSep hmember).braces.mono fun hsupported => ?_
      obtain ⟨ps, hps, hlexes, hvalues, htext⟩ :=
        exists_isObject_of_supported hne hl hsupported
      have hvalue : IsValue (objectText ps) := .object hps hlexes hvalues
      rw [htext] at hvalue
      exact hvalue

/-- An object that was copied whole has supported escapes only. -/
theorem exists_isObject_of_copied {t r : Bytes} (h : IsJson t) (hd : deref (t ++ r) = lbrace)
    (hscan : scanToClose lbrace rbrace 0 (t ++ r) = some r) : ∃ ps, IsObject ps t := by
  cases h with
  | string h => exact absurd hd (by decide : quote ≠ lbrace)
  | scalar h =>
      obtain ⟨hne, hbytes⟩ := h.scalarByte
      obtain ⟨c, t, rfl⟩ := List.exists_cons_of_ne_nil hne
      exact absurd hd (hbytes c List.mem_cons_self).plain.2.2.1
  | emptyArray h => exact absurd hd (by decide : lbracket ≠ lbrace)
  | array hne hl hv => exact absurd hd (by decide : lbracket ≠ lbrace)
  | emptyObject h => exact ⟨[], .empty h⟩
  | @object ms hne hl hv =>
      have hmember : ∀ m ∈ ms, Passes (Supported m) m.text :=
        fun m hm => passes_member (hl m hm) (passes_of_isJson (hv m hm))
      have htext : objectText ms ++ r =
          lbrace :: (commaSep (ms.map Member.text) ++ rbrace :: r) := by simp [objectText]
      rw [htext, scanToClose_open (.inl ⟨rfl, rfl⟩)] at hscan
      obtain ⟨hsupported, -⟩ := Passes.commaSep hmember 1 le_rfl _ r hscan
      obtain ⟨ps, hps, hlexes, hvalues, heq⟩ := exists_isObject_of_supported hne hl hsupported
      have hobject : IsObject ps (objectText ps) := .members hps hlexes hvalues
      exact ⟨ps, heq ▸ hobject⟩

/-! ## The session -/

/-- The members in front of the session have keys that fit. -/
def ReachesSession (ps : List Member) : Prop :=
  ∀ p ∈ ps.takeWhile fun p => p.key ≠ ascii "session_id", p.key.length ≤ 63

theorem finds_session {ps : List Member} {dec : Bytes} :
    Finds (ascii "session_id") dec ps ↔
      (∃ s later, membersAt ps (ascii "session_id") = s :: later ∧ StringValue s.value dec) ∧
        ReachesSession ps := by
  induction ps with
  | nil => exact ⟨nofun, nofun⟩
  | cons p ps ih =>
      by_cases hkey : p.key = ascii "session_id"
      · have hfits : p.key.length ≤ 63 := by
          rw [hkey]
          decide
        have hreaches : ReachesSession (p :: ps) := by
          simp [ReachesSession, hkey]
        rw [finds_here hfits hkey, membersAt_cons_self ps hkey]
        simp [hreaches]
      · have hreaches : ReachesSession (p :: ps) ↔ p.key.length ≤ 63 ∧ ReachesSession ps := by
          simp [ReachesSession, hkey]
        rw [membersAt_cons_other ps hkey, hreaches]
        by_cases hfits : p.key.length ≤ 63
        · simp only [finds_later hfits hkey, ih, hfits, true_and]
        · refine ⟨fun h => absurd h.keyFits hfits, fun h => absurd h.2.1 hfits⟩

/-- The session is the parameter `session_id`, and `default` only without one. -/
def SessionKept (ps : List Member) (session : Bytes) : Prop :=
  (membersAt ps (ascii "session_id") = [] → session = ascii "default") ∧
    ∀ s ∈ membersAt ps (ascii "session_id"), StringValue s.value session

/-- The parameter `session_id` is absent, or it is a string that fits its buffer, as do the
keys in front of it. Nothing has to fit when it spells out the default. -/
def SessionFits (ps : List Member) : Prop :=
  membersAt ps (ascii "session_id") = [] ∨
    ∃ dec, (∀ s ∈ membersAt ps (ascii "session_id"), StringValue s.value dec) ∧
      (dec = ascii "default" ∨ dec.length ≤ 63 ∧ ReachesSession ps)

/-- The session is kept exactly when it is absent or fits. -/
theorem sessionKept_extract {ps : List Member} {params : Bytes} (hobject : IsObject ps params)
    (hfits : params.length < 1024) :
    SessionKept ps ((anythingRpcExtractParamString 64 params (ascii "session_id")).getD
        (.snprintf 64 (ascii "default"))).bytes ↔ SessionFits ps := by
  have hdefault : (CString.snprintf 64 (ascii "default")).bytes = ascii "default" :=
    CString.snprintf_bytes_of_fits (by decide) (by decide)
  cases hextract : anythingRpcExtractParamString 64 params (ascii "session_id") with
  | none =>
      have hnone : ∀ out : CString 64, ¬ Finds (ascii "session_id") out.bytes ps := by
        intro out hfinds
        rw [(extract_params_eq_some hobject hfits).mpr hfinds] at hextract
        cases hextract
      rw [Option.getD_none, hdefault]
      constructor
      · rintro ⟨-, hkept⟩
        exact .inr ⟨_, hkept, .inl rfl⟩
      · rintro (habsent | ⟨dec, hdec, rfl | ⟨hlength, hreaches⟩⟩)
        · simp [SessionKept, habsent]
        · exact ⟨fun _ => rfl, hdec⟩
        · refine ⟨fun _ => rfl, ?_⟩
          intro s hs
          -- a session that fits and is reached would have been found
          obtain ⟨first, later, hfirst⟩ := List.exists_cons_of_ne_nil (List.ne_nil_of_mem hs)
          have hv := hdec first (hfirst ▸ List.mem_cons_self)
          exact absurd (finds_session.mpr ⟨⟨first, later, hfirst, hv⟩, hreaches⟩)
            (hnone ⟨dec, hv.zero_notMem, by omega⟩)
  | some out =>
      obtain ⟨⟨first, later, hfirst, hv⟩, hreaches⟩ :=
        finds_session.mp ((extract_params_eq_some hobject hfits).mp hextract)
      rw [Option.getD_some]
      constructor
      · rintro ⟨-, hkept⟩
        have hlength := out.fits
        exact .inr ⟨_, hkept, .inr ⟨by omega, hreaches⟩⟩
      · rintro (habsent | ⟨dec, hdec, -⟩)
        · rw [habsent] at hfirst
          cases hfirst
        · have hsame : dec = out.bytes :=
            stringValue_functional (hdec first (hfirst ▸ List.mem_cons_self)) hv
          rw [← hsame]
          refine ⟨?_, hdec⟩
          intro habsent
          rw [habsent] at hfirst
          cases hfirst

/-- An accepted request has an object for its parameters whose escapes are supported, and its
session is that of the parameters exactly when it is absent or fits. -/
theorem sessionKept_iff {json : Bytes} {request : RpcRequest}
    (hparse : anythingRpcParse json = .ok request) (hjson : IsJson request.params.bytes) :
    (∃ ps, IsObject ps request.params.bytes) ∧
      ∀ ps, IsObject ps request.params.bytes →
        (SessionKept ps request.sessionId.bytes ↔ SessionFits ps) := by
  have hcopied : ∃ r, deref (request.params.bytes ++ r) = lbrace ∧
      scanToClose lbrace rbrace 0 (request.params.bytes ++ r) = some r := by
    refine params_of_parse (P := fun t => ∃ r, deref (t ++ r) = lbrace ∧
      scanToClose lbrace rbrace 0 (t ++ r) = some r) ?_ ?_ hparse
    · intro p out r hcopy
      obtain ⟨hbrace, hscan, rfl⟩ := copyJsonObjectRaw_eq_some.mp hcopy
      exact ⟨r, hbrace, hscan⟩
    · exact ⟨[], rfl, scanToClose_whole (.inl ⟨rfl, rfl⟩) .nil []⟩
  obtain ⟨r, hbrace, hscan⟩ := hcopied
  refine ⟨exists_isObject_of_copied hjson hbrace hscan, ?_⟩
  intro ps hobject
  rw [sessionId_of_parse hparse]
  exact sessionKept_extract hobject request.params.fits

namespace Sample

/-- A request with one parameter, named `session_id`. -/
def sessionRequest (value : Bytes) : Bytes :=
  objectText (fields [("jsonrpc", literal (ascii "2.0")), ("id", literal (ascii "1")),
    ("method", literal (ascii "sys.info")),
    ("params", objectText (fields [("session_id", value)]))])

def sessionFields (json : Bytes) : Option (Bytes × Bytes) :=
  (anythingRpcParse json).toOption.map fun request =>
    (request.params.bytes, request.sessionId.bytes)

/-- A request with one parameter, as it is parsed. -/
theorem exists_sessionRequest {value session : Bytes} (hv : IsValue value)
    (hinline : Inline value)
    (h : sessionFields (sessionRequest value) =
      some (objectText (fields [("session_id", value)]), session)) :
    ∃ request, anythingRpcParse (sessionRequest value) = .ok request ∧
      IsJson request.params.bytes ∧
      IsObject (fields [("session_id", value)]) request.params.bytes := by
  obtain ⟨request, hparse, heq⟩ := Option.map_eq_some_iff.mp h
  have hname : ∀ c ∈ ascii "session_id", Unescaped c := by decide
  have hkey : PlainKeys [("session_id", value)] := List.forall_mem_singleton.mpr hname
  refine ⟨request, toOption_eq_some.mp hparse, ?_⟩
  rw [(Prod.mk.inj heq).1]
  exact ⟨(Inline.object (by simp) hkey (List.forall_mem_singleton.mpr hinline)).json,
    isObject_fields (by simp) hkey (List.forall_mem_singleton.mpr hv)⟩

end Sample

theorem sessionKept_sample :
    ∃ request, anythingRpcParse (Sample.sessionRequest (literal (ascii "s1"))) = .ok request ∧
      SessionKept (fields [("session_id", literal (ascii "s1"))]) request.sessionId.bytes := by
  have hs1 : ∀ c ∈ ascii "s1", Unescaped c := by decide
  have heval : Sample.sessionFields (Sample.sessionRequest (literal (ascii "s1"))) =
      some (objectText (fields [("session_id", literal (ascii "s1"))]), ascii "s1") := by
    decide +kernel
  obtain ⟨request, hparse, hjson, hobject⟩ :=
    Sample.exists_sessionRequest (Sample.isValue hs1) (.string (.of_unescaped hs1)) heval
  have hreaches : ReachesSession (fields [("session_id", literal (ascii "s1"))]) := by
    unfold ReachesSession
    decide
  refine ⟨request, hparse, ((sessionKept_iff hparse hjson).2 _ hobject).mpr ?_⟩
  refine .inr ⟨ascii "s1", ?_, .inr ⟨by decide, hreaches⟩⟩
  exact List.forall_mem_singleton.mpr (Sample.stringValue hs1)

/-- A request with a number for its session is filed under `default`. -/
theorem not_sessionKept :
    ¬ ∀ json request, anythingRpcParse json = .ok request → IsJson request.params.bytes →
      ∀ ps, IsObject ps request.params.bytes → SessionKept ps request.sessionId.bytes := by
  intro h
  have hfive : IsScalar (ascii "5") := .inl (isNumber_formatInt 5)
  have heval : Sample.sessionFields (Sample.sessionRequest (ascii "5")) =
      some (objectText (fields [("session_id", ascii "5")]), ascii "default") := by
    decide +kernel
  obtain ⟨request, hparse, hjson, hobject⟩ :=
    Sample.exists_sessionRequest (.scalar hfive) (.scalar hfive) heval
  obtain ⟨raw, -, hraw⟩ := (h _ request hparse hjson _ hobject).2 _ (List.mem_singleton_self _)
  cases hraw

end AnythingTool
