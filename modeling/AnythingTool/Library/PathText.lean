import AnythingTool.Library.CString

/-!
# Paths as texts and as lists of components

`components` splits a path at its slashes and drops the empty and the `.`
components, so different spellings of a path have the same components. `spell`
writes a list of components as an absolute path, with one slash before each.
Between spelled paths the prefix relation on bytes, cut at a slash, is the prefix
relation on components (`spell_prefix_iff`).
-/

namespace PathText

open CText

/-- The component that stands for the directory itself. -/
abbrev dot : Bytes := [0x2E]

/-- The components of a path. -/
def components (path : Bytes) : List Bytes :=
  (path.splitOn slash).filter fun c => c ≠ [] ∧ c ≠ dot

/-- The absolute path with these components. -/
def spell (cs : List Bytes) : Bytes := cs.flatMap (slash :: ·)

/-- The canonical spelling of an absolute path. -/
def canonical (path : Bytes) : Bytes := spell (components path)

/-- The end of a path, or a slash. -/
def AtBoundary (rest : Bytes) : Prop := rest = [] ∨ ∃ t, rest = slash :: t

@[simp] theorem spell_nil : spell [] = [] := rfl

@[simp] theorem spell_cons (c : Bytes) (cs : List Bytes) :
    spell (c :: cs) = slash :: (c ++ spell cs) := rfl

theorem spell_append (cs ds : List Bytes) : spell (cs ++ ds) = spell cs ++ spell ds :=
  List.flatMap_append

theorem spell_atBoundary (cs : List Bytes) : AtBoundary (spell cs) := by
  cases cs with
  | nil => exact .inl rfl
  | cons c cs => exact .inr ⟨c ++ spell cs, rfl⟩

/-- A piece is made of bytes of the path other than the slash. -/
theorem mem_splitOn {path c : Bytes} (h : c ∈ path.splitOn slash) :
    ∀ b ∈ c, b ∈ path ∧ b ≠ slash := by
  induction path generalizing c with
  | nil =>
      rw [List.splitOn_nil, List.mem_singleton] at h
      rw [h]
      exact fun b hb => absurd hb List.not_mem_nil
  | cons a path ih =>
      rw [List.splitOn, List.splitOnP_cons_eq_if_modifyHead, ← List.splitOn] at h
      by_cases ha : (a == slash) = true
      · rw [if_pos ha] at h
        rcases List.mem_cons.mp h with rfl | h
        · exact fun b hb => absurd hb List.not_mem_nil
        · intro b hb
          exact ⟨List.mem_cons_of_mem a (ih h b hb).1, (ih h b hb).2⟩
      · rw [if_neg ha] at h
        cases hpieces : path.splitOn slash with
        | nil =>
            rw [hpieces] at h
            exact absurd h List.not_mem_nil
        | cons d ds =>
            rw [hpieces, List.modifyHead_cons] at h
            rw [hpieces] at ih
            rcases List.mem_cons.mp h with rfl | h
            · intro b hb
              rcases List.mem_cons.mp hb with rfl | hb
              · exact ⟨List.mem_cons_self, by simpa using ha⟩
              · have hb' := ih List.mem_cons_self b hb
                exact ⟨List.mem_cons_of_mem a hb'.1, hb'.2⟩
            · intro b hb
              have hb' := ih (List.mem_cons_of_mem d h) b hb
              exact ⟨List.mem_cons_of_mem a hb'.1, hb'.2⟩

theorem mem_components {path c : Bytes} (h : c ∈ components path) :
    ∀ b ∈ c, b ∈ path ∧ b ≠ slash :=
  mem_splitOn (List.mem_of_mem_filter h)

/-- Of two texts with the same beginning up to a boundary, the beginnings agree. -/
theorem append_boundary_inj {c d s t : Bytes} (hc : slash ∉ c) (hd : slash ∉ d)
    (hs : AtBoundary s) (ht : AtBoundary t) (h : c ++ s = d ++ t) : c = d ∧ s = t := by
  induction c generalizing d with
  | nil =>
      cases d with
      | nil => exact ⟨rfl, h⟩
      | cons b d =>
          rcases hs with rfl | ⟨u, rfl⟩
          · cases h
          · rw [List.nil_append, List.cons_append, List.cons.injEq] at h
            exact absurd (h.1 ▸ List.mem_cons_self) hd
  | cons a c ih =>
      cases d with
      | nil =>
          rcases ht with rfl | ⟨u, rfl⟩
          · cases h
          · rw [List.nil_append, List.cons_append, List.cons.injEq] at h
            exact absurd (h.1 ▸ List.mem_cons_self) hc
      | cons b d =>
          rw [List.cons_append, List.cons_append, List.cons.injEq] at h
          obtain ⟨hcd, hst⟩ := ih (fun hmem => hc (List.mem_cons_of_mem a hmem))
            (fun hmem => hd (List.mem_cons_of_mem b hmem)) h.2
          exact ⟨by rw [h.1, hcd], hst⟩

/-- Between spelled paths, a beginning that ends at a boundary is a beginning in
components. -/
theorem spell_prefix_iff {cs ds : List Bytes} (hcs : ∀ c ∈ cs, slash ∉ c)
    (hds : ∀ d ∈ ds, slash ∉ d) :
    (∃ rest, spell ds = spell cs ++ rest ∧ AtBoundary rest) ↔ cs <+: ds := by
  constructor
  · rintro ⟨rest, h, hrest⟩
    induction cs generalizing ds with
    | nil => exact List.nil_prefix
    | cons c cs ih =>
        cases ds with
        | nil => cases h
        | cons d ds =>
            rw [spell_cons, spell_cons, List.cons_append, List.cons.injEq,
              List.append_assoc] at h
            have hboundary : AtBoundary (spell cs ++ rest) := by
              rcases spell_atBoundary cs with hnil | ⟨t, ht⟩
              · rw [hnil]
                exact hrest
              · exact .inr ⟨t ++ rest, by rw [ht, List.cons_append]⟩
            obtain ⟨hcd, htail⟩ := append_boundary_inj (hds d List.mem_cons_self)
              (hcs c List.mem_cons_self) (spell_atBoundary ds) hboundary h.2
            rw [hcd, List.cons_prefix_cons]
            exact ⟨rfl, ih (fun c' hc' => hcs c' (List.mem_cons_of_mem c hc'))
              (fun d' hd' => hds d' (List.mem_cons_of_mem d hd')) htail⟩
  · rintro ⟨es, rfl⟩
    exact ⟨spell es, spell_append cs es, spell_atBoundary es⟩

theorem spell_eq_nil {cs : List Bytes} : spell cs = [] ↔ cs = [] := by
  cases cs with
  | nil => simp
  | cons c cs => simp

theorem zero_notMem_canonical {path : Bytes} (h : (0 : UInt8) ∉ path) :
    (0 : UInt8) ∉ canonical path := by
  intro hmem
  obtain ⟨c, hc, h0⟩ := List.mem_flatMap.mp hmem
  rcases List.mem_cons.mp h0 with h0 | h0
  · exact absurd h0 (by decide)
  · exact h (mem_components hc 0 h0).1

end PathText
