import AnythingTool.Library.Machine

/-!
# Dual control

A workflow in which nothing is done on the word of one person. A person files a ticket with a
deadline, another one who may decide approves it in time, and then it may be run. Whoever may
decide can also decline a ticket of somebody else, whatever has become of it. The machine
says of each event whether the rules permit it, and a list of events is legal when they
permit all of them.

`Legal.run_story` is what the rules are for: before a ticket is run, it was filed, and after
that approved by somebody else, in time, and it was neither declined since nor done before.
-/

namespace DualControl

open Transition

variable {P T : Type*}

inductive Status (P : Type*)
  | waiting
  | approved (person : P)
  | declined (person : P)
  | done

structure Ticket (P T : Type*) where
  owner : P
  deadline : T
  status : Status P

/-- What may happen. Tickets are numbered in the order in which they are filed. -/
inductive Event (P T : Type*)
  | file (owner : P) (deadline : T)
  | approve (n : ℕ) (person : P) (time : T)
  | decline (n : ℕ) (person : P)
  | run (n : ℕ) (person : P) (time : T) (success : Bool)
deriving DecidableEq

/-- Who may decide, and how many tickets may be filed. -/
structure Rules (P : Type*) where
  decides : P → Prop
  capacity : ℕ

section Workflow

variable [LE T] (rules : Rules P)

/-- What the rules permit. -/
def Permitted (tickets : List (Ticket P T)) : Event P T → Prop
  | .file _ _ => tickets.length < rules.capacity
  | .approve n person time => ∃ k, tickets[n]? = some k ∧ k.status = .waiting ∧
      rules.decides person ∧ person ≠ k.owner ∧ time ≤ k.deadline
  | .decline n person => ∃ k, tickets[n]? = some k ∧ rules.decides person ∧ person ≠ k.owner
  | .run n person time _ => ∃ k, tickets[n]? = some k ∧ (∃ a, k.status = .approved a) ∧
      rules.decides person ∧ time ≤ k.deadline

/-- The tickets with another status for one of them. -/
def mark (tickets : List (Ticket P T)) (n : ℕ) (status : Status P) : List (Ticket P T) :=
  tickets.modify n fun k => { k with status := status }

/-- What becomes of the tickets. -/
def happen (tickets : List (Ticket P T)) : Event P T → List (Ticket P T)
  | .file owner deadline => tickets ++ [⟨owner, deadline, .waiting⟩]
  | .approve n person _ => mark tickets n (.approved person)
  | .decline n person => mark tickets n (.declined person)
  | .run n _ _ success => if success then mark tickets n .done else tickets

open Classical in
/-- The workflow. What is not permitted does not happen. -/
noncomputable def workflow : Machine (List (Ticket P T)) (Event P T) Bool where
  init := []
  step tickets e := if Permitted rules tickets e then (happen tickets e, true) else (tickets, false)

/-- The rules permit every event of the list in its turn. -/
def Legal (es : List (Event P T)) : Prop :=
  ∀ out ∈ ((workflow rules).history es).map Record.output, out = true

variable {rules}

theorem step_of_permitted {tickets : List (Ticket P T)} {e : Event P T}
    (h : Permitted rules tickets e) :
    (workflow rules).step tickets e = (happen tickets e, true) :=
  if_pos h

theorem step_output {tickets : List (Ticket P T)} {e : Event P T} :
    ((workflow rules).step tickets e).2 = true ↔ Permitted rules tickets e := by
  by_cases h : Permitted rules tickets e
  · rw [step_of_permitted h]
    exact iff_of_true rfl h
  · rw [workflow]
    simp only [h, if_false, Bool.false_eq_true]

theorem legal_append_singleton {es : List (Event P T)} {e : Event P T} :
    Legal rules (es ++ [e]) ↔ Legal rules es ∧ Permitted rules ((workflow rules).run es) e := by
  have hlast : ((workflow rules).record ((workflow rules).run es) e).output = true ↔
      Permitted rules ((workflow rules).run es) e := step_output
  simp only [Legal, Machine.history_append_singleton, List.map_append, List.map_cons,
    List.map_nil, List.mem_append, List.mem_singleton, or_imp, forall_and, forall_eq, hlast]

theorem Legal.of_append {es : List (Event P T)} (fs : List (Event P T)) (h : Legal rules (es ++ fs)) :
    Legal rules es := by
  intro out hout
  apply h
  rw [Machine.history, Machine.historyFrom_append, List.map_append]
  exact List.mem_append_left _ hout

theorem run_append_of_permitted {es : List (Event P T)} {e : Event P T}
    (h : Permitted rules ((workflow rules).run es) e) :
    (workflow rules).run (es ++ [e]) = happen ((workflow rules).run es) e := by
  rw [Machine.run_append_singleton, step_of_permitted h]

end Workflow

/-! ## The life of a ticket -/

section Marks

variable {tickets : List (Ticket P T)} {n m : ℕ}

theorem getElem?_mark_self {k : Ticket P T} (h : tickets[n]? = some k) (status : Status P) :
    (mark tickets n status)[n]? = some { k with status := status } := by
  simp [mark, h]

theorem getElem?_mark_ne (h : n ≠ m) (status : Status P) :
    (mark tickets n status)[m]? = tickets[m]? := by
  simp [mark, h]

@[simp] theorem length_mark (status : Status P) :
    (mark tickets n status).length = tickets.length :=
  List.length_modify _ _ _

theorem mark_eq_set {k : Ticket P T} (h : tickets[n]? = some k) (status : Status P) :
    mark tickets n status = tickets.set n { k with status := status } := by
  apply List.ext_getElem?
  intro m
  by_cases hm : n = m
  · subst hm
    rw [getElem?_mark_self h, List.getElem?_set_self (List.getElem?_eq_some_iff.mp h).1]
  · rw [getElem?_mark_ne hm, List.getElem?_set_ne hm]

end Marks

/-- What an event does to one ticket, with some tickets filed before it. -/
inductive Move [LE T] (rules : Rules P) (count : ℕ) (e : Event P T) (m : ℕ) :
    Option (Ticket P T) → Option (Ticket P T) → Prop
  | kept {o : Option (Ticket P T)} (hrun : ∀ p t, e ≠ .run m p t true)
      (hdecline : ∀ p, e ≠ .decline m p) : Move rules count e m o o
  | filed {owner : P} {deadline : T} (h : e = .file owner deadline) (hm : m = count) :
      Move rules count e m none (some ⟨owner, deadline, .waiting⟩)
  | approved {k : Ticket P T} {p : P} {t : T} (h : e = .approve m p t)
      (hstatus : k.status = .waiting) (hdecides : rules.decides p) (hother : p ≠ k.owner)
      (htime : t ≤ k.deadline) :
      Move rules count e m (some k) (some { k with status := .approved p })
  | declined {k : Ticket P T} {p : P} (h : e = .decline m p) :
      Move rules count e m (some k) (some { k with status := .declined p })
  | done {k : Ticket P T} {p : P} {t : T} (h : e = .run m p t true) :
      Move rules count e m (some k) (some { k with status := .done })

theorem notRun_append {es : List (Event P T)} {n : ℕ} {e : Event P T}
    (h : ∀ p t, .run n p t true ∉ es) (he : ∀ p t, e ≠ .run n p t true) :
    ∀ p t, .run n p t true ∉ es ++ [e] := by
  intro p t hmem
  rcases List.mem_append.mp hmem with hmem | hmem
  · exact h p t hmem
  · exact he p t (List.mem_singleton.mp hmem).symm

section Life

variable [LE T] {rules : Rules P} {tickets : List (Ticket P T)}

theorem move {e : Event P T} (h : Permitted rules tickets e) (m : ℕ) :
    Move rules tickets.length e m tickets[m]? (happen tickets e)[m]? := by
  cases e with
  | file owner deadline =>
      rcases Nat.lt_trichotomy m tickets.length with hlt | rfl | hgt
      · rw [happen, List.getElem?_append_left hlt]
        exact .kept (by simp) (by simp)
      · rw [List.getElem?_eq_none (Nat.le_refl _), happen, List.getElem?_concat_length]
        exact .filed rfl rfl
      · have hafter : (happen tickets (.file owner deadline))[m]? = none := by
          rw [happen, List.getElem?_eq_none]
          rw [List.length_append, List.length_singleton]
          omega
        rw [hafter, List.getElem?_eq_none (Nat.le_of_lt hgt)]
        exact .kept (by simp) (by simp)
  | approve n p t =>
      obtain ⟨k, hk, hstatus, hdecides, hother, htime⟩ := h
      by_cases hn : n = m
      · subst hn
        rw [happen, getElem?_mark_self hk, hk]
        exact .approved rfl hstatus hdecides hother htime
      · rw [happen, getElem?_mark_ne hn]
        exact .kept (by simp) (by simp)
  | decline n p =>
      obtain ⟨k, hk, -⟩ := h
      by_cases hn : n = m
      · subst hn
        rw [happen, getElem?_mark_self hk, hk]
        exact .declined rfl
      · rw [happen, getElem?_mark_ne hn]
        exact .kept (by simp) (by simp [hn])
  | run n p t success =>
      obtain ⟨k, hk, -⟩ := h
      cases success with
      | false => exact .kept (by simp) (by simp)
      | true =>
          by_cases hn : n = m
          · subst hn
            rw [happen, if_pos rfl, getElem?_mark_self hk, hk]
            exact .done rfl
          · rw [happen, if_pos rfl, getElem?_mark_ne hn]
            exact .kept (by simp [hn]) (by simp)

/-! ## Stories -/

/-- How many tickets some events file. -/
def filings (es : List (Event P T)) : ℕ :=
  es.countP fun e =>
    match e with
    | .file _ _ => true
    | _ => false

/-- The ticket was filed, then approved by somebody else in time, and not declined since. -/
def ApprovedIn (rules : Rules P) (es : List (Event P T)) (n : ℕ) (k : Ticket P T) (a : P) :
    Prop :=
  ∃ before between time after,
    es = before ++ .file k.owner k.deadline :: (between ++ .approve n a time :: after) ∧
      filings before = n ∧ rules.decides a ∧ a ≠ k.owner ∧ time ≤ k.deadline ∧
      ∀ p, .decline n p ∉ after

/-- What some events say about a ticket. -/
structure Story (rules : Rules P) (es : List (Event P T)) (n : ℕ) (k : Ticket P T) : Prop where
  filed : ∃ before after, es = before ++ .file k.owner k.deadline :: after ∧
    filings before = n
  notDone : (k.status = .waiting ∨ ∃ a, k.status = .approved a) →
    ∀ p t, .run n p t true ∉ es
  approved : ∀ a, k.status = .approved a → ApprovedIn rules es n k a

/-- What some events say about a number. -/
def StoryOf (rules : Rules P) (es : List (Event P T)) (n : ℕ) : Option (Ticket P T) → Prop
  | none => ∀ p t, .run n p t true ∉ es
  | some k => Story rules es n k

theorem ApprovedIn.append {es : List (Event P T)} {n : ℕ} {k : Ticket P T} {a : P}
    {e : Event P T} (h : ApprovedIn rules es n k a) (he : ∀ p, e ≠ .decline n p) :
    ApprovedIn rules (es ++ [e]) n k a := by
  obtain ⟨before, between, time, after, rfl, hn, hdecides, hother, htime, hafter⟩ := h
  refine ⟨before, between, time, after ++ [e], by simp, hn, hdecides, hother, htime, ?_⟩
  intro p hp
  rcases List.mem_append.mp hp with hp | hp
  · exact hafter p hp
  · exact he p (List.mem_singleton.mp hp).symm

theorem Story.filed_append {es : List (Event P T)} {n : ℕ} {k : Ticket P T}
    (h : Story rules es n k) (e : Event P T) :
    ∃ before after, es ++ [e] = before ++ .file k.owner k.deadline :: after ∧
      filings before = n := by
  obtain ⟨before, after, rfl, hn⟩ := h.filed
  exact ⟨before, after ++ [e], by simp, hn⟩

theorem StoryOf.move {es : List (Event P T)} {e : Event P T} {n : ℕ}
    {o o' : Option (Ticket P T)} (h : StoryOf rules es n o)
    (hmove : Move rules (filings es) e n o o') : StoryOf rules (es ++ [e]) n o' := by
  cases hmove with
  | kept hrun hdecline =>
      cases o with
      | none => exact notRun_append h hrun
      | some k =>
          exact ⟨h.filed_append e, fun hopen => notRun_append (h.notDone hopen) hrun,
            fun a ha => (h.approved a ha).append hdecline⟩
  | filed he hn =>
      subst he hn
      refine ⟨⟨es, [], rfl, rfl⟩, fun _ => notRun_append h (by simp), ?_⟩
      intro a ha
      cases ha
  | @approved k p t he hstatus hdecides hother htime =>
      subst he
      refine ⟨h.filed_append _, fun _ => notRun_append (h.notDone (.inl hstatus)) (by simp), ?_⟩
      intro a ha
      obtain rfl := Status.approved.inj ha
      obtain ⟨before, after, rfl, hn⟩ := h.filed
      exact ⟨before, after, t, [], by simp, hn, hdecides, hother, htime, by simp⟩
  | declined he =>
      refine ⟨h.filed_append e, ?_, ?_⟩
      · rintro (hopen | ⟨a, hopen⟩)
        · cases hopen
        · cases hopen
      · intro a ha
        cases ha
  | done he =>
      refine ⟨h.filed_append e, ?_, ?_⟩
      · rintro (hopen | ⟨a, hopen⟩)
        · cases hopen
        · cases hopen
      · intro a ha
        cases ha

/-- Along legal events every ticket has its story. -/
theorem Legal.story {es : List (Event P T)} (h : Legal rules es) :
    ((workflow rules).run es).length = filings es ∧
      ∀ n, StoryOf rules es n ((workflow rules).run es)[n]? := by
  induction es using List.reverseRecOn with
  | nil => exact ⟨rfl, fun n p t hmem => by cases hmem⟩
  | append_singleton es e ih =>
      obtain ⟨hes, he⟩ := legal_append_singleton.mp h
      obtain ⟨hlength, hstory⟩ := ih hes
      rw [run_append_of_permitted he]
      refine ⟨?_, ?_⟩
      · rw [filings, List.countP_append, ← filings, ← hlength]
        cases e with
        | file owner deadline => simp [happen]
        | approve n p t => simp [happen]
        | decline n p => simp [happen]
        | run n p t success => cases success <;> simp [happen]
      · intro n
        have hmove := DualControl.move he n
        rw [hlength] at hmove
        exact (hstory n).move hmove

/-- Before a ticket is run it was filed, and then approved by another person in time; it was
not declined since, and not done before. -/
theorem Legal.run_story {past rest : List (Event P T)} {n : ℕ} {p : P} {t : T} {success : Bool}
    (h : Legal rules (past ++ .run n p t success :: rest)) :
    ∃ k a, ApprovedIn rules past n k a ∧ rules.decides p ∧ t ≤ k.deadline ∧
      ∀ q s, .run n q s true ∉ past := by
  have hlegal : Legal rules (past ++ [.run n p t success]) := by
    apply Legal.of_append rest
    rw [List.append_assoc]
    exact h
  obtain ⟨hpast, k, hk, ⟨a, ha⟩, hdecides, htime⟩ := legal_append_singleton.mp hlegal
  have hstory := hpast.story.2 n
  rw [hk] at hstory
  exact ⟨k, a, hstory.approved a ha, hdecides, htime, hstory.notDone (.inr ⟨a, ha⟩)⟩

end Life

end DualControl
