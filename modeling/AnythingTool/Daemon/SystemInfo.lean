import AnythingTool.Daemon.Replies
import AnythingTool.Rpc.FirstField
import AnythingTool.Rpc.RoundTrip

/-!
# The result of the tool

`anything_sys_info_json` prints five readings of the system as an object of strings. Nothing
but a reading whose escapes are too long for their buffer, or `uname`, makes it fail: the
object always fits its own buffer. `anything_rpc_extract_param_string` reads a reading back
from the object exactly when neither it nor a reading before it has a control character that
the parser has no escape for.
-/

namespace AnythingTool

open CText JsonText

/-! ## Objects of strings -/

section Strings

variable {n : ℕ} {key : Bytes} {f : String × Bytes} {out : CString n}

/-- The members that print these texts under these keys. -/
def stringFields (fs : List (String × Bytes)) : List Member :=
  fields (fs.map fun f => (f.1, stringValue f.2))

/-- The key is printed and scanned as it is. -/
structure Scanned (f : String × Bytes) : Prop where
  plain : ∀ c ∈ ascii f.1, Unescaped c
  fits : (ascii f.1).length < 64

theorem stringField_append (f : String × Bytes) (q : Bytes) :
    (field f.1 (stringValue f.2)).text ++ q =
      literal (ascii f.1) ++ colon :: (literal (escaped f.2) ++ q) := by
  rw [field_text]
  simp [literal, stringValue]

theorem scanKey_stringField (hf : Scanned f) (q : Bytes) :
    ∃ found : CString 64, found.bytes = ascii f.1 ∧
      scanKey (literal (ascii f.1) ++ colon :: (literal (escaped f.2) ++ q)) =
        .ok (found, literal (escaped f.2) ++ q) :=
  scanKey_literal hf.plain hf.fits (skipWs_literal (escaped f.2) q)

theorem literal_not_end (raw q : Bytes) :
    ¬ (deref (literal raw ++ q) = 0 ∨ deref (literal raw ++ q) = rbrace) := by
  have hquote : deref (literal raw ++ q) = quote := rfl
  rw [hquote]
  decide

/-- The text under the key is decoded, when it has no other control character. -/
theorem extractLoop_here (hf : Scanned f) (q : Bytes) :
    extractLoop n (ascii f.1) ((field f.1 (stringValue f.2)).text ++ q) = some out ↔
      ShortText f.2 ∧ out.bytes = f.2 := by
  obtain ⟨found, hfound, hscan⟩ := scanKey_stringField hf q
  rw [stringField_append, extractLoop_match (literal_not_end _ _) hscan hfound]
  by_cases hshort : ShortText f.2
  · simp only [hshort, true_and]
    constructor
    · intro h
      obtain ⟨⟨out', r⟩, hparse, rfl⟩ := Option.map_eq_some_iff.mp h
      obtain ⟨raw, hraw, heq⟩ := parseJsonString_eq_some.mp hparse
      exact (literal_append_inj hraw (stringBody_escaped hshort) heq.symm).1
    · intro h
      have hfits := out.fits
      rw [h] at hfits
      obtain ⟨out', hout, hparse⟩ := parse_escaped hshort hfits q
      rw [hparse, Option.map_some, CString.ext (hout.trans h.symm)]
  · rw [parse_escaped_eq_none hshort]
    simp [hshort]

theorem skip_escaped_eq_none {s : Bytes} (h : ¬ ShortText s) (q : Bytes) :
    skipJsonString (literal (escaped s) ++ q) = none := by
  refine Option.eq_none_iff_forall_ne_some.mpr fun r hskip => ?_
  obtain ⟨raw, dec, hbody, heq⟩ := skipJsonString_eq_some.mp hskip
  obtain ⟨out, -, hparse⟩ := exists_parseJsonString ⟨raw, hbody, rfl⟩ dec.length.lt_succ_self r
  rw [← heq, parse_escaped_eq_none h] at hparse
  cases hparse

/-- A text under another key is skipped, when it has no other control character. -/
theorem extractLoop_next (hf : Scanned f) (hkey : ascii f.1 ≠ key) (q : Bytes) :
    extractLoop n key ((field f.1 (stringValue f.2)).text ++ comma :: q) =
      if ShortText f.2 then extractLoop n key (skipWs q) else none := by
  obtain ⟨found, hfound, hscan⟩ := scanKey_stringField hf (comma :: q)
  have hskip : skipJsonValue (literal (escaped f.2) ++ comma :: q) =
      skipJsonString (literal (escaped f.2) ++ comma :: q) := by
    rw [skipJsonValue, skipWs_literal]
    exact if_pos rfl
  rw [stringField_append]
  by_cases hshort : ShortText f.2
  · have hskipped : skipJsonValue (literal (escaped f.2) ++ comma :: q) = some (comma :: q) := by
      rw [hskip]
      exact skipJsonString_eq_some.mpr ⟨_, _, stringBody_escaped hshort, rfl⟩
    rw [if_pos hshort, extractLoop_pass (literal_not_end _ _) hscan (hfound ▸ hkey) hskipped
      (skipWs_cons (by decide)), if_pos rfl]
  · rw [if_neg hshort, extractLoop_eq (literal_not_end _ _), hscan]
    have hfailed : skipJsonValue (literal (escaped f.2) ++ comma :: q) = none := by
      rw [hskip]
      exact skip_escaped_eq_none hshort _
    simp only [hfound, hkey, if_false, hfailed]

/-- The text of the members starts with the first of them. -/
theorem exists_strings_append (f : String × Bytes) (fs : List (String × Bytes)) (r : Bytes) :
    ∃ q, commaSep ((stringFields (f :: fs)).map Member.text) ++ r =
      (field f.1 (stringValue f.2)).text ++ q := by
  cases fs with
  | nil => exact ⟨r, rfl⟩
  | cons g fs =>
      refine ⟨comma :: (commaSep ((stringFields (g :: fs)).map Member.text) ++ r), ?_⟩
      rw [← List.cons_append, ← List.append_assoc]
      rfl

theorem strings_cons_append (g : String × Bytes) {fs : List (String × Bytes)} (hne : fs ≠ [])
    (r : Bytes) :
    commaSep ((stringFields (g :: fs)).map Member.text) ++ r =
      (field g.1 (stringValue g.2)).text ++
        comma :: (commaSep ((stringFields fs).map Member.text) ++ r) := by
  obtain ⟨f, fs, rfl⟩ := List.exists_cons_of_ne_nil hne
  rw [← List.cons_append, ← List.append_assoc]
  rfl

theorem skipWs_strings {fs : List (String × Bytes)} (hne : fs ≠ []) (r : Bytes) :
    skipWs (commaSep ((stringFields fs).map Member.text) ++ r) =
      commaSep ((stringFields fs).map Member.text) ++ r := by
  obtain ⟨f, fs, rfl⟩ := List.exists_cons_of_ne_nil hne
  obtain ⟨q, hq⟩ := exists_strings_append f fs r
  rw [hq, stringField_append, skipWs_literal]

/-- A text is read back from the object exactly when it and what stands before it can be
decoded. -/
theorem extractLoop_strings {before later : List (String × Bytes)}
    (hscanned : ∀ g ∈ before ++ [f], Scanned g) (hkeys : ∀ g ∈ before, ascii g.1 ≠ ascii f.1)
    (r : Bytes) :
    extractLoop n (ascii f.1)
        (commaSep ((stringFields (before ++ f :: later)).map Member.text) ++ r) = some out ↔
      (∀ g ∈ before ++ [f], ShortText g.2) ∧ out.bytes = f.2 := by
  induction before with
  | nil =>
      have hf := hscanned f (by simp)
      obtain ⟨q, hq⟩ := exists_strings_append f later r
      rw [List.nil_append, hq, extractLoop_here hf]
      simp
  | cons g before ih =>
      obtain ⟨hg, hscanned⟩ := List.forall_mem_cons.mp hscanned
      obtain ⟨hkey, hkeys⟩ := List.forall_mem_cons.mp hkeys
      have hne : before ++ f :: later ≠ [] := by simp
      rw [List.cons_append, strings_cons_append g hne, extractLoop_next hg hkey,
        skipWs_strings hne]
      by_cases hshort : ShortText g.2
      · rw [if_pos hshort, ih hscanned hkeys, List.cons_append, List.forall_mem_cons]
        simp [hshort]
      · rw [if_neg hshort, List.cons_append, List.forall_mem_cons]
        simp [hshort]

/-- The same for the whole object. -/
theorem extract_strings {before later : List (String × Bytes)}
    (hscanned : ∀ g ∈ before ++ [f], Scanned g) (hkeys : ∀ g ∈ before, ascii g.1 ≠ ascii f.1) :
    anythingRpcExtractParamString n (objectText (stringFields (before ++ f :: later)))
        (ascii f.1) = some out ↔
      (∀ g ∈ before ++ [f], ShortText g.2) ∧ out.bytes = f.2 := by
  have hne : before ++ f :: later ≠ [] := by simp
  rw [anythingRpcExtractParamString, objectText, List.cons_append, skipWs_cons (by decide)]
  simp only [if_true]
  rw [skipWs_strings hne]
  exact extractLoop_strings hscanned hkeys [rbrace]

end Strings

/-! ## The readings -/

/-- What the system says, the key it is printed under, and the buffer it is escaped into. -/
structure Reading where
  key : String
  text : Bytes
  room : ℕ

def readings (os : OsReading) (uts : Utsname) : List Reading :=
  [⟨"hostname", uts.nodename.bytes, 256⟩, ⟨"kernel_version", uts.release.bytes, 256⟩,
    ⟨"os_release", (readFirstLine 256 os.osRelease).bytes, 512⟩,
    ⟨"uptime", (readFirstLine 64 os.procUptime).bytes, 128⟩,
    ⟨"architecture", uts.machine.bytes, 128⟩]

/-- The strings of the result. -/
def resultFields (os : OsReading) (uts : Utsname) : List (String × Bytes) :=
  ("version", ascii "v0.1.1") :: (readings os uts).map fun f => (f.key, f.text)

section Result

variable {os : OsReading} {uts : Utsname}

theorem length_sysInfoText (hostname kernel osRelease uptime arch : Bytes) :
    (sysInfoText hostname kernel osRelease uptime arch).length =
      (sysInfoText [] [] [] [] []).length + hostname.length + kernel.length + osRelease.length +
        uptime.length + arch.length := by
  simp only [sysInfoText, List.length_append, List.length_nil]
  omega

theorem sysInfoText_fields (os : OsReading) (uts : Utsname) :
    sysInfoText (escaped uts.nodename.bytes) (escaped uts.release.bytes)
        (escaped (readFirstLine 256 os.osRelease).bytes)
        (escaped (readFirstLine 64 os.procUptime).bytes) (escaped uts.machine.bytes) =
      objectText (stringFields (resultFields os uts)) := by
  have hversion : stringValue (ascii "v0.1.1") = literal (ascii "v0.1.1") := by decide
  rw [sysInfoText_eq, ← hversion]
  rfl

/-- Readings that fit their buffers fit the result. -/
theorem anythingSysInfoJson_of_fits (huname : os.uname = some uts)
    (hfits : ∀ f ∈ readings os uts, (escaped f.text).length < f.room) :
    ∃ text, anythingSysInfoJson os = .ok text ∧
      text.bytes = objectText (stringFields (resultFields os uts)) := by
  simp only [readings, List.forall_mem_cons] at hfits
  obtain ⟨hhostname, hkernel, hrelease, huptime, harch, -⟩ := hfits
  obtain ⟨hostname, hhost⟩ := (exists_anythingJsonEscapeString_iff uts.nodename.noNul).mpr hhostname
  obtain ⟨kernel, hkern⟩ := (exists_anythingJsonEscapeString_iff uts.release.noNul).mpr hkernel
  obtain ⟨osRelease, hrel⟩ := (exists_anythingJsonEscapeString_iff (CString.noNul _)).mpr hrelease
  obtain ⟨uptime, hup⟩ := (exists_anythingJsonEscapeString_iff (CString.noNul _)).mpr huptime
  obtain ⟨arch, hmachine⟩ := (exists_anythingJsonEscapeString_iff uts.machine.noNul).mpr harch
  have htext := sysInfoText_fields os uts
  have hinline := inline_sysInfoText uts.nodename.bytes uts.release.bytes
    (readFirstLine 256 os.osRelease).bytes (readFirstLine 64 os.procUptime).bytes uts.machine.bytes
  have hlen := length_sysInfoText (escaped uts.nodename.bytes) (escaped uts.release.bytes)
    (escaped (readFirstLine 256 os.osRelease).bytes)
    (escaped (readFirstLine 64 os.procUptime).bytes) (escaped uts.machine.bytes)
  have hempty : (sysInfoText [] [] [] [] []).length < 200 := by decide
  rw [← (anythingJsonEscapeString_eq_some (CString.noNul _)).mp hhost,
    ← (anythingJsonEscapeString_eq_some (CString.noNul _)).mp hkern,
    ← (anythingJsonEscapeString_eq_some (CString.noNul _)).mp hrel,
    ← (anythingJsonEscapeString_eq_some (CString.noNul _)).mp hup,
    ← (anythingJsonEscapeString_eq_some (CString.noNul _)).mp hmachine] at htext hinline hlen
  have hroom : (sysInfoText hostname.bytes kernel.bytes osRelease.bytes uptime.bytes
      arch.bytes).length < 2048 := by
    have h₁ := hostname.fits
    have h₂ := kernel.fits
    have h₃ := osRelease.fits
    have h₄ := uptime.fits
    have h₅ := arch.fits
    omega
  refine ⟨.snprintf 2048 (sysInfoText hostname.bytes kernel.bytes osRelease.bytes uptime.bytes
    arch.bytes), ?_, ?_⟩
  · simp only [anythingSysInfoJson, huname, hhost, hkern, hrel, hup, hmachine]
    exact if_neg (not_le.mpr hroom)
  · rw [CString.snprintf_bytes_of_fits hinline.zero_notMem hroom, htext]

theorem anythingSysInfoJson_of_long (huname : os.uname = some uts)
    (hlong : ∃ f ∈ readings os uts, f.room ≤ (escaped f.text).length) :
    anythingSysInfoJson os = .error (.snprintf 128 (ascii "sys.info JSON escaping failed")) := by
  simp only [anythingSysInfoJson, huname]
  split
  · rename_i hostname kernel osRelease uptime arch hhost hkern hrel hup hmachine
    have hfits : ∀ f ∈ readings os uts, (escaped f.text).length < f.room := by
      simp only [readings, List.forall_mem_cons]
      exact ⟨(exists_anythingJsonEscapeString_iff (CString.noNul _)).mp ⟨_, hhost⟩,
        (exists_anythingJsonEscapeString_iff (CString.noNul _)).mp ⟨_, hkern⟩,
        (exists_anythingJsonEscapeString_iff (CString.noNul _)).mp ⟨_, hrel⟩,
        (exists_anythingJsonEscapeString_iff (CString.noNul _)).mp ⟨_, hup⟩,
        (exists_anythingJsonEscapeString_iff (CString.noNul _)).mp ⟨_, hmachine⟩, by simp⟩
    obtain ⟨f, hf, hle⟩ := hlong
    exact absurd (hfits f hf) (not_lt.mpr hle)
  · rfl

/-- Readings without other control characters fit, but for a name of a machine that fills its
field. -/
theorem readings_fit (hshort : ∀ f ∈ readings os uts, ShortText f.text)
    (hmachine : uts.machine.bytes.length < 64) :
    ∀ f ∈ readings os uts, (escaped f.text).length < f.room := by
  have h₁ := uts.nodename.fits
  have h₂ := uts.release.fits
  have h₃ := (readFirstLine 256 os.osRelease).fits
  have h₄ := (readFirstLine 64 os.procUptime).fits
  intro f hf
  have hle := length_escaped_le (hshort f hf)
  simp only [readings, List.mem_cons, List.not_mem_nil, or_false] at hf
  rcases hf with rfl | rfl | rfl | rfl | rfl
  all_goals
    simp only at hle ⊢
    omega

/-- The keys need no escapes and differ from one another. -/
theorem resultFields_keys :
    (∀ g ∈ resultFields os uts, Scanned g) ∧
      (resultFields os uts).Pairwise fun g f => ascii g.1 ≠ ascii f.1 := by
  have hkeys : (resultFields os uts).map Prod.fst = ["version", "hostname", "kernel_version",
      "os_release", "uptime", "architecture"] := rfl
  have hplain : ∀ key ∈ ["version", "hostname", "kernel_version", "os_release", "uptime",
      "architecture"], (∀ c ∈ ascii key, Unescaped c) ∧ (ascii key).length < 64 := by decide
  have hother : ["version", "hostname", "kernel_version", "os_release", "uptime",
      "architecture"].Pairwise fun key key' => ascii key ≠ ascii key' := by decide
  rw [← hkeys] at hplain hother
  rw [List.pairwise_map] at hother
  refine ⟨fun g hg => ?_, hother⟩
  obtain ⟨hc, hfits⟩ := hplain g.1 (List.mem_map_of_mem hg)
  exact ⟨hc, hfits⟩

theorem extract_reading {before later : List Reading} {f : Reading} {n : ℕ} {out : CString n}
    (hsplit : readings os uts = before ++ f :: later) :
    anythingRpcExtractParamString n (objectText (stringFields (resultFields os uts)))
        (ascii f.key) = some out ↔
      (∀ g ∈ before ++ [f], ShortText g.text) ∧ out.bytes = f.text := by
  have hfields : resultFields os uts =
      (("version", ascii "v0.1.1") :: before.map fun f => (f.key, f.text)) ++
        (f.key, f.text) :: later.map fun f => (f.key, f.text) := by
    rw [resultFields, hsplit, List.map_append, List.map_cons, List.cons_append]
  obtain ⟨hscanned, hother⟩ := @resultFields_keys os uts
  rw [hfields] at hscanned hother ⊢
  have hversion : ShortText (ascii "v0.1.1") := by decide
  rw [List.pairwise_append] at hother
  rw [extract_strings (fun g hg => hscanned g (by
      rw [List.append_cons]
      exact List.mem_append_left _ hg))
    fun g hg => hother.2.2 g hg _ List.mem_cons_self]
  simp [hversion, or_imp, forall_and]

end Result

/-- When the tool succeeds, what it fails with, and what can be read of its result. -/
theorem sysInfo_exact (os : OsReading) (uts : Utsname) (huname : os.uname = some uts) :
    ((∃ text, anythingSysInfoJson os = .ok text) ↔
        ∀ f ∈ readings os uts, (escaped f.text).length < f.room) ∧
      (∀ e, anythingSysInfoJson os = .error e →
        e.bytes = ascii "sys.info JSON escaping failed") ∧
      ((∀ f ∈ readings os uts, ShortText f.text) → uts.machine.bytes.length < 64 →
        ∃ text, anythingSysInfoJson os = .ok text) ∧
      ∀ text, anythingSysInfoJson os = .ok text →
        ∀ before f later, readings os uts = before ++ f :: later →
          ∀ n (out : CString n),
            anythingRpcExtractParamString n text.bytes (ascii f.key) = some out ↔
              (∀ g ∈ before ++ [f], ShortText g.text) ∧ out.bytes = f.text := by
  have hcases : (∃ f ∈ readings os uts, f.room ≤ (escaped f.text).length) ∨
      ∀ f ∈ readings os uts, (escaped f.text).length < f.room := by
    by_cases hall : ∀ f ∈ readings os uts, (escaped f.text).length < f.room
    · exact .inr hall
    · simp only [not_forall, not_lt, exists_prop] at hall
      exact .inl hall
  have hexact : (∃ text, anythingSysInfoJson os = .ok text) ↔
      ∀ f ∈ readings os uts, (escaped f.text).length < f.room := by
    constructor
    · rintro ⟨text, htext⟩
      rcases hcases with hlong | hfits
      · rw [anythingSysInfoJson_of_long huname hlong] at htext
        cases htext
      · exact hfits
    · intro hfits
      obtain ⟨text, htext, -⟩ := anythingSysInfoJson_of_fits huname hfits
      exact ⟨text, htext⟩
  refine ⟨hexact, ?_, ?_, ?_⟩
  · intro e he
    rcases hcases with hlong | hfits
    · rw [anythingSysInfoJson_of_long huname hlong] at he
      rw [← Except.error.inj he]
      decide
    · obtain ⟨text, htext⟩ := hexact.mpr hfits
      rw [htext] at he
      cases he
  · intro hshort hmachine
    exact hexact.mpr (readings_fit hshort hmachine)
  · intro text htext before f later hsplit n out
    obtain ⟨text', htext', hbytes⟩ :=
      anythingSysInfoJson_of_fits huname (hexact.mp ⟨text, htext⟩)
    obtain rfl := Except.ok.inj (htext'.symm.trans htext)
    rw [hbytes]
    exact extract_reading hsplit

theorem sysInfo_exact_sample : ∃ uts text, Sample.os.uname = some uts ∧
    anythingSysInfoJson Sample.os = .ok text ∧
      ∀ out : CString 64, anythingRpcExtractParamString 64 text.bytes (ascii "hostname") = some out →
        out.bytes = uts.nodename.bytes := by
  obtain ⟨uts, huts⟩ := Option.isSome_iff_exists.mp (by decide : Sample.os.uname.isSome = true)
  have hfits : ∀ uts ∈ Sample.os.uname, ∀ f ∈ readings Sample.os uts,
      (escaped f.text).length < f.room := by decide +kernel
  obtain ⟨hexact, -, -, hreads⟩ := sysInfo_exact Sample.os uts huts
  obtain ⟨text, htext⟩ := hexact.mpr (hfits uts huts)
  exact ⟨uts, text, huts, htext, fun out hout => ((hreads text htext [] _ _ rfl 64 out).mp hout).2⟩

end AnythingTool
