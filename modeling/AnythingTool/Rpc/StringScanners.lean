import AnythingTool.Rpc.Cursors

/-!
# The two string scanners

`skip_json_string` and `parse_json_string` are two copies of one lexer. In memory they
accept the same literals and leave the cursor behind the same byte; the decoding one also
needs room for the decoded string and its NUL.
-/

namespace AnythingTool

open CText JsonText CheckedReads

variable {text : Bytes} {p q rounds : ℕ}

/-- The text between two positions is a string literal. -/
theorem skipJsonStringAt_eq_some (hp : p ≤ (cstr text).length) (hrounds : text.length < rounds) :
    skipJsonStringAt text rounds p = .ok ⟨some (), q⟩ ↔
      ∃ raw dec r, StringBody raw dec ∧ At text p (literal raw ++ r) ∧ At text q r := by
  obtain ⟨call, hrun, hcall⟩ := skipJsonStringAt_answers (at_drop hp) hrounds
  rw [hrun, Except.ok.injEq, hcall.eq_some_iff]
  constructor
  · rintro ⟨r, hskip, hat⟩
    obtain ⟨raw, dec, hbody, hdrop⟩ := skipJsonString_eq_some.mp (skipped_eq_some.mp hskip)
    exact ⟨raw, dec, r, hbody, ⟨hp, hdrop⟩, hat⟩
  · rintro ⟨raw, dec, r, hbody, hat, hat'⟩
    exact ⟨r, skipped_eq_some.mpr (skipJsonString_eq_some.mpr ⟨raw, dec, hbody, hat.drop⟩), hat'⟩

theorem parseJsonStringAt_eq_some (hp : p ≤ (cstr text).length) (hrounds : text.length < rounds)
    {n : ℕ} {out : CString n} :
    parseJsonStringAt text rounds n p = .ok ⟨some out, q⟩ ↔
      ∃ raw r, StringBody raw out.bytes ∧ At text p (literal raw ++ r) ∧ At text q r := by
  obtain ⟨call, hrun, hcall⟩ := parseJsonStringAt_answers (at_drop hp) hrounds n
  rw [hrun, Except.ok.injEq, hcall.eq_some_iff]
  constructor
  · rintro ⟨r, hparse, hat⟩
    obtain ⟨raw, hbody, hdrop⟩ := parseJsonString_eq_some.mp hparse
    exact ⟨raw, r, hbody, ⟨hp, hdrop⟩, hat⟩
  · rintro ⟨raw, r, hbody, hat, hat'⟩
    exact ⟨r, parseJsonString_eq_some.mpr ⟨raw, hbody, hat.drop⟩, hat'⟩

/-- A decoded string, in a buffer that has room for it. -/
theorem exists_buffer {raw dec : Bytes} (h : StringBody raw dec) {n : ℕ} (hn : dec.length < n) :
    ∃ out : CString n, out.bytes = dec :=
  ⟨⟨dec, h.zero_notMem.2, hn⟩, rfl⟩

/-- The scanners agree: skipping is decoding into a buffer that is large enough, decoding
into a buffer of `n` bytes is skipping a literal whose decoded text leaves room for the
NUL, and a failing call leaves the cursor of its caller. -/
theorem stringScanners_agree (text : Bytes) (p : ℕ) (hp : p ≤ (cstr text).length) (rounds : ℕ)
    (hrounds : text.length < rounds) :
    (∀ q, skipJsonStringAt text rounds p = .ok ⟨some (), q⟩ ↔
      ∃ k, ∀ n, k ≤ n → ∃ out, parseJsonStringAt text rounds n p = .ok ⟨some out, q⟩) ∧
    (∀ n, 0 < n → ∀ q, (∃ out, parseJsonStringAt text rounds n p = .ok ⟨some out, q⟩) ↔
      skipJsonStringAt text rounds p = .ok ⟨some (), q⟩ ∧
        ∃ dec, StringValue ((text.drop p).take (q - p)) dec ∧ dec.length ≤ n - 1) ∧
    (∀ n out q, parseJsonStringAt text rounds n p = .ok ⟨some out, q⟩ →
      StringValue ((text.drop p).take (q - p)) out.bytes) ∧
    ((∀ q, skipJsonStringAt text rounds p ≠ .ok ⟨some (), q⟩) →
      skipJsonStringAt text rounds p = .ok ⟨none, p⟩) ∧
    ∀ n, (∀ out q, parseJsonStringAt text rounds n p ≠ .ok ⟨some out, q⟩) →
      parseJsonStringAt text rounds n p = .ok ⟨none, p⟩ := by
  refine ⟨?_, ?_, ?_, ?_, ?_⟩
  · intro q
    constructor
    · intro h
      obtain ⟨raw, dec, r, hbody, hat, hat'⟩ := (skipJsonStringAt_eq_some hp hrounds).mp h
      refine ⟨dec.length + 1, ?_⟩
      intro n hn
      obtain ⟨out, rfl⟩ := exists_buffer hbody hn
      exact ⟨out, (parseJsonStringAt_eq_some hp hrounds).mpr ⟨raw, r, hbody, hat, hat'⟩⟩
    · rintro ⟨k, h⟩
      obtain ⟨out, hparse⟩ := h k le_rfl
      obtain ⟨raw, r, hbody, hat, hat'⟩ := (parseJsonStringAt_eq_some hp hrounds).mp hparse
      exact (skipJsonStringAt_eq_some hp hrounds).mpr ⟨raw, _, r, hbody, hat, hat'⟩
  · intro n hn q
    constructor
    · rintro ⟨out, hparse⟩
      obtain ⟨raw, r, hbody, hat, hat'⟩ := (parseJsonStringAt_eq_some hp hrounds).mp hparse
      refine ⟨(skipJsonStringAt_eq_some hp hrounds).mpr ⟨raw, _, r, hbody, hat, hat'⟩,
        out.bytes, ⟨raw, hbody, hat.between hat'⟩, Nat.le_pred_of_lt out.fits⟩
    · rintro ⟨hskip, dec, ⟨raw, hbody, hliteral⟩, hlen⟩
      obtain ⟨raw', dec', r, -, hat, hat'⟩ := (skipJsonStringAt_eq_some hp hrounds).mp hskip
      rw [hat.between hat'] at hliteral
      rw [hliteral] at hat
      obtain ⟨out, rfl⟩ := exists_buffer hbody (by omega : dec.length < n)
      exact ⟨out, (parseJsonStringAt_eq_some hp hrounds).mpr ⟨raw, r, hbody, hat, hat'⟩⟩
  · intro n out q hparse
    obtain ⟨raw, r, hbody, hat, hat'⟩ := (parseJsonStringAt_eq_some hp hrounds).mp hparse
    exact ⟨raw, hbody, hat.between hat'⟩
  · intro h
    obtain ⟨call, hrun, hcall⟩ := skipJsonStringAt_answers (at_drop hp) hrounds
    rw [hrun] at h ⊢
    rw [hcall.eq_none_iff.mpr fun _ q heq => h q (congrArg Except.ok heq)]
  · intro n h
    obtain ⟨call, hrun, hcall⟩ := parseJsonStringAt_answers (at_drop hp) hrounds n
    rw [hrun] at h ⊢
    rw [hcall.eq_none_iff.mpr fun out q heq => h out q (congrArg Except.ok heq)]

/-- A literal with an escape, between other bytes. -/
def escapeSample : Bytes := ascii "[\"a\\n\"]"

theorem stringScanners_agree_sample :
    ∃ k, ∀ n, k ≤ n → ∃ out, parseJsonStringAt escapeSample 8 n 1 = .ok ⟨some out, 6⟩ :=
  ((stringScanners_agree escapeSample 1 (by decide) 8 (by decide)).1 6).mp (by decide +kernel)

end AnythingTool
