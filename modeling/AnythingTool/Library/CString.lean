import Mathlib.Data.List.Basic
import Mathlib.Data.List.TakeWhile
import Mathlib.Data.Nat.Digits.Defs
import Mathlib.Tactic.SplitIfs

/-!
# C strings in fixed-size buffers

A cursor into memory is the list of bytes from the cursor on; past the last
byte stands the terminating NUL, so `deref` reads `0` there. `CString n` is the
content of a `char[n]` buffer that holds a NUL-terminated string: the bytes
before the NUL, with the two facts that make the buffer valid carried as
fields. The writers below are the ones C code uses on such a buffer: one byte
with a room check, a whole formatted text with truncation, and a formatted text
appended at a running offset. `fgets` cuts a stream into the lines a `char[size]`
buffer receives.
-/

namespace CText

abbrev Bytes := List UInt8

/-- What all bytes of a text satisfy is decided along the text, not over all bytes. -/
instance (priority := high) decidableBytes {P : UInt8 → Prop} [DecidablePred P] (s : Bytes) :
    Decidable (∀ c ∈ s, P c) :=
  List.decidableBAll P s

/-- The bytes of an ASCII text constant. -/
def ascii (s : String) : Bytes := s.toList.map fun c => UInt8.ofNat c.toNat

abbrev quote : UInt8 := 0x22

abbrev backslash : UInt8 := 0x5C

abbrev comma : UInt8 := 0x2C

abbrev colon : UInt8 := 0x3A

abbrev lbrace : UInt8 := 0x7B

abbrev rbrace : UInt8 := 0x7D

abbrev lbracket : UInt8 := 0x5B

abbrev rbracket : UInt8 := 0x5D

abbrev newline : UInt8 := 0x0A

abbrev slash : UInt8 := 0x2F

/-- The byte under a cursor. -/
def deref : Bytes → UInt8
  | [] => 0
  | c :: _ => c

/-- The string that starts at a cursor: the bytes before the first NUL. -/
def cstr (p : Bytes) : Bytes := p.takeWhile (· ≠ 0)

@[simp] theorem deref_nil : deref [] = 0 := rfl

@[simp] theorem deref_cons (c : UInt8) (p : Bytes) : deref (c :: p) = c := rfl

theorem zero_notMem_cstr (p : Bytes) : (0 : UInt8) ∉ cstr p := by
  intro h
  simpa using List.mem_takeWhile_imp h

theorem cstr_of_notMem {p : Bytes} (h : (0 : UInt8) ∉ p) : cstr p = p := by
  refine List.takeWhile_eq_self_iff.mpr ?_
  intro c hc
  have hne : c ≠ 0 := fun h0 => h (h0 ▸ hc)
  simpa using hne

/-- A text is cut in one way at the first of its bytes that is `c`. -/
theorem first_inj {c : UInt8} {s s' r r' : Bytes} (hs : c ∉ s) (hs' : c ∉ s')
    (h : s ++ c :: r = s' ++ c :: r') : s = s' ∧ r = r' := by
  induction s generalizing s' with
  | nil =>
      cases s' with
      | nil => exact ⟨rfl, (List.cons.inj h).2⟩
      | cons b s' => exact absurd ((List.cons.inj h).1 ▸ List.mem_cons_self) hs'
  | cons a s ih =>
      cases s' with
      | nil => exact absurd ((List.cons.inj h).1 ▸ List.mem_cons_self) hs
      | cons b s' =>
          obtain ⟨rfl, hrest⟩ := List.cons.inj h
          obtain ⟨rfl, rfl⟩ := ih (fun hmem => hs (List.mem_cons_of_mem a hmem))
            (fun hmem => hs' (List.mem_cons_of_mem a hmem)) hrest
          exact ⟨rfl, rfl⟩

/-- `strncmp(a, b, k) == 0` on strings without NUL. -/
def strncmpEq (a b : Bytes) (k : ℕ) : Bool := a.take k == b.take k

/-- The content of a `char[n]` buffer holding a NUL-terminated string. -/
@[ext] structure CString (n : ℕ) where
  bytes : Bytes
  noNul : (0 : UInt8) ∉ bytes
  fits : bytes.length < n
deriving DecidableEq

/-- A buffer size with room for the NUL. It is data, so that no proof is left in the
definitions that name a size. -/
class HasRoom (n : ℕ) : Type where
  pos : 0 < n

instance hasRoomSucc (k : ℕ) : HasRoom (k + 1) := ⟨Nat.succ_pos k⟩

namespace CString

variable {n : ℕ}

/-- The buffer after `memset(buf, 0, n)`, or after `buf[0] = 0`. -/
def empty [HasRoom n] : CString n := ⟨[], by simp, HasRoom.pos⟩

/-- One byte appended before the NUL, refused when it would not leave room. -/
def push (out : CString n) (c : UInt8) (hc : c ≠ 0) : Option (CString n) :=
  if h : out.bytes.length + 1 ≥ n then
    none
  else
    some ⟨out.bytes ++ [c], by simpa [out.noNul] using hc.symm, by simpa using h⟩

/-- `snprintf(buf, n, ...)` of a formatted text: what does not fit is cut. -/
def snprintf (n : ℕ) [HasRoom n] (text : Bytes) : CString n :=
  ⟨(cstr text).take (n - 1),
    fun h => zero_notMem_cstr text (List.mem_of_mem_take h),
    by have hpos : 0 < n := HasRoom.pos; rw [List.length_take]; omega⟩

/-- `snprintf(buf + used, n - used, ...)` followed by the check that nothing was
cut, where `used` is the length of the string already in the buffer. -/
def snprintfAt (out : CString n) (text : Bytes) : Option (CString n) :=
  if h : text.length ≥ n - out.bytes.length then
    none
  else
    some ⟨out.bytes ++ cstr text,
      by simp [out.noNul, zero_notMem_cstr],
      by
        have hlen : (cstr text).length ≤ text.length :=
          (List.takeWhile_prefix _).length_le
        rw [List.length_append]; omega⟩

@[simp] theorem empty_bytes [HasRoom n] : (empty : CString n).bytes = [] := rfl

/-- A buffer that holds a text could hold its beginning. -/
theorem exists_prefix {out : CString n} {s t : Bytes} (h : out.bytes = s ++ t) :
    ∃ out' : CString n, out'.bytes = s := by
  have h0 := out.noNul
  have hfits := out.fits
  rw [h] at h0 hfits
  rw [List.length_append] at hfits
  exact ⟨⟨s, fun hmem => h0 (List.mem_append_left t hmem), by omega⟩, rfl⟩

theorem push_eq_some {out out' : CString n} {c : UInt8} {hc : c ≠ 0} :
    out.push c hc = some out' ↔ out'.bytes = out.bytes ++ [c] := by
  unfold push
  split
  · rename_i h
    simp only [reduceCtorEq, false_iff]
    intro hb
    have hfit := out'.fits
    rw [hb, List.length_append, List.length_singleton] at hfit
    omega
  · rw [Option.some.injEq, CString.ext_iff]
    exact eq_comm

theorem push_eq_none {out : CString n} {c : UInt8} {hc : c ≠ 0} :
    out.push c hc = none ↔ n ≤ out.bytes.length + 1 := by
  simp [push]

theorem exists_push {out : CString n} {c : UInt8} (hc : c ≠ 0)
    (h : out.bytes.length + 1 < n) : ∃ out', out.push c hc = some out' := by
  rw [← Option.isSome_iff_exists, ← Option.ne_none_iff_isSome, Ne, push_eq_none]
  omega

theorem snprintf_bytes [HasRoom n] (text : Bytes) :
    (snprintf n text).bytes = (cstr text).take (n - 1) := rfl

/-- Nothing is cut when the text has no NUL and leaves room for one. -/
theorem snprintf_bytes_of_fits [HasRoom n] {text : Bytes}
    (h0 : (0 : UInt8) ∉ text) (h : text.length < n) :
    (snprintf n text).bytes = text := by
  rw [snprintf_bytes, cstr_of_notMem h0, List.take_of_length_le (by omega)]

/-- Copying a buffer with `"%s"` into one at least as large is lossless. -/
theorem snprintf_bytes_of_le [HasRoom n] {m : ℕ} (s : CString m) (h : m ≤ n) :
    (snprintf n s.bytes).bytes = s.bytes :=
  snprintf_bytes_of_fits s.noNul (lt_of_lt_of_le s.fits h)

/-- A text without NUL is appended whole or not at all. -/
theorem snprintfAt_eq_some {out out' : CString n} {text : Bytes} (h0 : (0 : UInt8) ∉ text) :
    out.snprintfAt text = some out' ↔ out'.bytes = out.bytes ++ text := by
  have hout := out.fits
  unfold snprintfAt
  split
  · rename_i h
    simp only [reduceCtorEq, false_iff]
    intro hb
    have hfit := out'.fits
    rw [hb, List.length_append] at hfit
    omega
  · rw [Option.some.injEq, CString.ext_iff]
    simp only [cstr_of_notMem h0]
    exact eq_comm

@[simp] theorem snprintf_self [HasRoom n] (s : CString n) : snprintf n s.bytes = s :=
  CString.ext (snprintf_bytes_of_le s le_rfl)

end CString

/-! ## Lines of a stream -/

/-- At most `k` bytes of a stream, up to and including its first newline, and the
rest of the stream. -/
def takeLine : ℕ → Bytes → Bytes × Bytes
  | 0, file => ([], file)
  | _ + 1, [] => ([], [])
  | k + 1, c :: file =>
      if c = newline then ([c], file)
      else
        let (line, rest) := takeLine k file
        (c :: line, rest)

/-- `fgets` into a `char[size]`; `none` at the end of the file. -/
def fgets (size : ℕ) (file : Bytes) : Option (Bytes × Bytes) :=
  if file = [] then none else some (takeLine (size - 1) file)

theorem takeLine_append (k : ℕ) (file : Bytes) :
    (takeLine k file).1 ++ (takeLine k file).2 = file := by
  fun_induction takeLine k file with
  | case1 => rfl
  | case2 => rfl
  | case3 => rfl
  | case4 k c file hc line rest heq ih => simpa [heq] using ih

theorem fgets_eq_none {size : ℕ} {file : Bytes} : fgets size file = none ↔ file = [] := by
  simp [fgets]

theorem fgets_eq_some {size : ℕ} {file line rest : Bytes} :
    fgets size file = some (line, rest) ↔ file ≠ [] ∧ takeLine (size - 1) file = (line, rest) := by
  by_cases hfile : file = []
  · simp [fgets, hfile]
  · simp [fgets, hfile]

theorem fgets_length {size : ℕ} (hsize : 2 ≤ size) {file line rest : Bytes}
    (h : fgets size file = some (line, rest)) : rest.length < file.length := by
  unfold fgets at h
  split_ifs at h with hne
  obtain ⟨c, file, rfl⟩ := List.exists_cons_of_ne_nil hne
  obtain ⟨k, hk⟩ : ∃ k, size - 1 = k + 1 := ⟨size - 2, by omega⟩
  rw [hk, takeLine] at h
  split_ifs at h
  · obtain ⟨-, rfl⟩ := Prod.mk.inj (Option.some.inj h)
    simp
  · obtain ⟨-, rfl⟩ := Prod.mk.inj (Option.some.inj h)
    have happ := congrArg List.length (takeLine_append k file)
    rw [List.length_append] at happ
    simp only [List.length_cons]
    omega

/-! ## Decimal conversions -/

/-- `%lu` -/
def formatNat (k : ℕ) : Bytes := (Nat.toDigits 10 k).map fun c => UInt8.ofNat c.toNat

/-- `%ld` -/
def formatInt (k : ℤ) : Bytes :=
  if k < 0 then ascii "-" ++ formatNat k.natAbs else formatNat k.natAbs

theorem digit_toNat_le {k : ℕ} {c : Char} (h : c ∈ Nat.toDigits 10 k) :
    48 ≤ c.toNat ∧ c.toNat ≤ 57 := by
  have hd := Nat.isDigit_of_mem_toDigits (b := 10) (by decide) (by decide) h
  simp only [Char.isDigit, ge_iff_le, Bool.and_eq_true, decide_eq_true_eq] at hd
  exact ⟨hd.1, hd.2⟩

theorem zero_notMem_formatNat (k : ℕ) : (0 : UInt8) ∉ formatNat k := by
  intro h
  obtain ⟨c, hc, h0⟩ := List.mem_map.mp h
  have hle := digit_toNat_le hc
  have hn : c.toNat % 256 = 0 := by simpa using congrArg UInt8.toNat h0
  omega

/-- A digit character survives the trip through its byte. -/
theorem formatNat_chars (k : ℕ) :
    (formatNat k).map (fun b => Char.ofNat b.toNat) = Nat.toDigits 10 k := by
  rw [formatNat, List.map_map]
  conv_rhs => rw [← List.map_id (Nat.toDigits 10 k)]
  refine List.map_congr_left ?_
  intro c hc
  have hle := digit_toNat_le hc
  have hbyte : (UInt8.ofNat c.toNat).toNat = c.toNat := by
    rw [UInt8.toNat_ofNat', Nat.mod_eq_of_lt (by omega)]
  simp only [Function.comp_apply, id_eq, hbyte, Char.ofNat_toNat]

theorem formatNat_injective : Function.Injective formatNat := by
  intro a b hab
  have hchars : Nat.toDigits 10 a = Nat.toDigits 10 b := by
    rw [← formatNat_chars a, hab, formatNat_chars b]
  rw [← Nat.ofDigitChars_ten_toDigits (n := a), hchars, Nat.ofDigitChars_ten_toDigits]

end CText
