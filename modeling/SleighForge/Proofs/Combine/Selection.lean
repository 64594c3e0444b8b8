import Mathlib.Data.List.Nodup
import SleighForge.Combine.Register
import SleighForge.Proofs.Association

/-!
# Selections

A selection pairs selectors with registers one to one. `select_spec` says what the selection of some
patterns holds, `select_conflict` that it fails only over two patterns that are at odds, and
`getElem?_toTable` that the table made of it has each register at its selector.
-/

namespace SleighForge

namespace Combine

/-- No selector and no register occurs twice. -/
structure Selection.OneToOne (s : Selection) : Prop where
  selectors : (s.map Prod.fst).Nodup
  names : (s.map Prod.snd).Nodup

/-! ## Adding -/

/-- An entry is added, or it is there already. -/
theorem Selection.add_spec {s s' : Selection} {selector : Nat} {name : String}
    (h : s.add selector name = .ok s') (hs : s.OneToOne) :
    s'.OneToOne ∧ ∀ entry, entry ∈ s' ↔ entry ∈ s ∨ entry = (selector, name) := by
  unfold Selection.add at h
  split at h
  · next key other hfind =>
    split at h
    · next hname =>
      -- The pair is there already.
      cases h
      have hkey : key = selector := by simpa using List.find?_some hfind
      have hmem : (selector, name) ∈ s := by
        rw [← hkey, ← hname]
        exact List.mem_of_find?_eq_some hfind
      refine ⟨hs, fun entry => ⟨.inl, ?_⟩⟩
      rintro (h | rfl)
      · exact h
      · exact hmem
    · cases h
  · cases h
  · next hselector hname =>
    -- Neither the selector nor the name is taken.
    cases h
    have hnew : ∀ entry ∈ s, entry.1 ≠ selector ∧ entry.2 ≠ name := fun entry hentry =>
      ⟨by simpa using List.find?_eq_none.1 hselector entry hentry,
        by simpa using List.find?_eq_none.1 hname entry hentry⟩
    refine ⟨⟨?_, ?_⟩, fun entry => by simp⟩
    · rw [List.map_append, List.nodup_append]
      refine ⟨hs.selectors, by simp, ?_⟩
      intro a ha b hb
      rcases List.mem_map.1 ha with ⟨entry, hentry, rfl⟩
      rw [List.mem_singleton.1 hb]
      exact (hnew entry hentry).1
    · rw [List.map_append, List.nodup_append]
      refine ⟨hs.names, by simp, ?_⟩
      intro a ha b hb
      rcases List.mem_map.1 ha with ⟨entry, hentry, rfl⟩
      rw [List.mem_singleton.1 hb]
      exact (hnew entry hentry).2

/-- The selector of a pattern and the name of its operand at the position. -/
def IsEntry (position lo width : Nat) (p : Pattern) (entry : Nat × String) : Prop :=
  nameAt? position p = some entry.2 ∧ bitSlice p.encoding.literalValue lo width = entry.1

/-- Adds the selector and the name of a pattern. -/
def selectOne (position lo width : Nat) (s : Selection) (p : Pattern) :
    Except CombineCause Selection :=
  match nameAt? position p with
  | none => .error (.noOperand position)
  | some name =>
    (s.add (bitSlice p.encoding.literalValue lo width) name).mapError
      (.registerPlacement lo (lo + width))

/-- A pattern adds its entry. -/
theorem selectOne_spec {position lo width : Nat} {s s' : Selection} {p : Pattern}
    (h : selectOne position lo width s p = .ok s') (hs : s.OneToOne) :
    s'.OneToOne ∧ ∃ entry, IsEntry position lo width p entry ∧
      ∀ e, e ∈ s' ↔ e ∈ s ∨ e = entry := by
  unfold selectOne at h
  split at h
  · cases h
  · next name hname =>
    cases hadd : s.add (bitSlice p.encoding.literalValue lo width) name with
    | error conflict =>
      rw [hadd] at h
      cases h
    | ok added =>
      rw [hadd] at h
      cases h
      rcases Selection.add_spec hadd hs with ⟨hone, hmem⟩
      exact ⟨hone, _, ⟨hname, rfl⟩, hmem⟩

/-- The selection of some patterns holds their selectors and names, and nothing else. -/
theorem select_spec {position lo width : Nat} {members : List Pattern} {s : Selection}
    (h : select position lo width members = .ok s) :
    s.OneToOne ∧ (∀ p ∈ members, ∃ entry ∈ s, IsEntry position lo width p entry) ∧
      ∀ entry ∈ s, ∃ p ∈ members, IsEntry position lo width p entry := by
  -- The same from any selection `s₀`, whose entries stay.
  have hfold : ∀ s₀ : Selection, s₀.OneToOne →
      members.foldlM (selectOne position lo width) s₀ = .ok s →
      s.OneToOne ∧ (∀ entry ∈ s₀, entry ∈ s) ∧
        (∀ p ∈ members, ∃ entry ∈ s, IsEntry position lo width p entry) ∧
        ∀ entry ∈ s, entry ∈ s₀ ∨ ∃ p ∈ members, IsEntry position lo width p entry := by
    clear h
    induction members with
    | nil =>
      intro s₀ hs h
      cases h
      exact ⟨hs, fun _ => id, by simp, fun _ => .inl⟩
    | cons p members ih =>
      intro s₀ hs h
      rw [List.foldlM_cons] at h
      cases hone : selectOne position lo width s₀ p with
      | error cause =>
        rw [hone] at h
        cases h
      | ok s₁ =>
        rw [hone] at h
        rcases selectOne_spec hone hs with ⟨hs₁, entry, hentry, hmem⟩
        rcases ih s₁ hs₁ h with ⟨hend, hkeep, hall, honly⟩
        refine ⟨hend, fun e he => hkeep e ((hmem e).2 (.inl he)), ?_, ?_⟩
        · intro q hq
          rcases List.mem_cons.1 hq with rfl | hq
          · exact ⟨entry, hkeep entry ((hmem entry).2 (.inr rfl)), hentry⟩
          · exact hall q hq
        · intro e he
          rcases honly e he with he | ⟨q, hq, hqe⟩
          · rcases (hmem e).1 he with he | rfl
            · exact .inl he
            · exact .inr ⟨p, List.mem_cons_self .., hentry⟩
          · exact .inr ⟨q, List.mem_cons_of_mem _ hq, hqe⟩
  obtain ⟨hone, -, hall, honly⟩ := hfold [] ⟨by simp, by simp⟩ h
  exact ⟨hone, hall, fun entry hentry => (honly entry hentry).resolve_left (by simp)⟩

/-! ## Conflicts -/

/-- Two members with different names have one selector, or two with one name have different
selectors. -/
inductive Conflicting (members : List Pattern) (position lo width : Nat) : RegisterConflict → Prop
  | sharedSelector {p q : Pattern} {selector : Nat} {name name' : String} (hp : p ∈ members)
    (hq : q ∈ members) (hentry : IsEntry position lo width p (selector, name))
    (hentry' : IsEntry position lo width q (selector, name')) (hne : name ≠ name') :
    Conflicting members position lo width (.sharedSelector name name' selector)
  | splitRegister {p q : Pattern} {selector selector' : Nat} {name : String} (hp : p ∈ members)
    (hq : q ∈ members) (hentry : IsEntry position lo width p (selector, name))
    (hentry' : IsEntry position lo width q (selector', name)) (hne : selector ≠ selector') :
    Conflicting members position lo width (.splitRegister name selector selector')

/-- A pair is refused only if one half of it is taken by another. -/
theorem Selection.add_conflict {s : Selection} {selector : Nat} {name : String}
    {conflict : RegisterConflict} (h : s.add selector name = .error conflict) :
    (∃ other, (selector, other) ∈ s ∧ other ≠ name ∧
      conflict = .sharedSelector other name selector) ∨
    ∃ other, (other, name) ∈ s ∧ other ≠ selector ∧
      conflict = .splitRegister name other selector := by
  unfold Selection.add at h
  split at h
  · next key other hfind =>
    split at h
    · cases h
    · next hne =>
      have hmem := List.mem_of_find?_eq_some hfind
      obtain rfl : key = selector := by simpa using List.find?_some hfind
      exact .inl ⟨other, hmem, hne, (Except.error.inj h).symm⟩
  · next other taken hselector hfind =>
    have hmem := List.mem_of_find?_eq_some hfind
    obtain rfl : taken = name := by simpa using List.find?_some hfind
    have hne : other ≠ selector := by simpa using List.find?_eq_none.1 hselector _ hmem
    exact .inr ⟨other, hmem, hne, (Except.error.inj h).symm⟩
  · cases h

/-- A selection of patterns with names fails only where two of them conflict. -/
theorem select_conflict {position lo width : Nat} {members : List Pattern} {cause : CombineCause}
    (hnames : ∀ p ∈ members, (nameAt? position p).isSome)
    (h : select position lo width members = .error cause) :
    ∃ conflict, cause = .registerPlacement lo (lo + width) conflict ∧
      Conflicting members position lo width conflict := by
  -- From any selection of entries of the members, in which the part that is still to come goes on.
  have hfold : ∀ more : List Pattern, more ⊆ members → ∀ s₀ : Selection, s₀.OneToOne →
      (∀ entry ∈ s₀, ∃ p ∈ members, IsEntry position lo width p entry) →
      more.foldlM (selectOne position lo width) s₀ = .error cause →
      ∃ conflict, cause = .registerPlacement lo (lo + width) conflict ∧
        Conflicting members position lo width conflict := by
    intro more
    induction more with
    | nil =>
      intro _ s₀ _ _ h
      cases h
    | cons q more ih =>
      intro hsub s₀ hs hfrom h
      have hq : q ∈ members := hsub (List.mem_cons_self ..)
      obtain ⟨name, hname⟩ := Option.isSome_iff_exists.1 (hnames q hq)
      let selector := bitSlice q.encoding.literalValue lo width
      have hentry : IsEntry position lo width q (selector, name) := ⟨hname, rfl⟩
      have hone : selectOne position lo width s₀ q =
          (s₀.add selector name).mapError (.registerPlacement lo (lo + width)) := by
        rw [selectOne, hname]
      rw [List.foldlM_cons, hone] at h
      cases hadd : s₀.add selector name with
      | error conflict =>
        rw [hadd] at h
        cases h
        refine ⟨conflict, rfl, ?_⟩
        rcases Selection.add_conflict hadd with ⟨other, hmem, hne, rfl⟩ | ⟨other, hmem, hne, rfl⟩
        · obtain ⟨p, hp, hother⟩ := hfrom _ hmem
          exact .sharedSelector hp hq hother hentry hne
        · obtain ⟨p, hp, hother⟩ := hfrom _ hmem
          exact .splitRegister hp hq hother hentry hne
      | ok s₁ =>
        rw [hadd] at h
        obtain ⟨hs₁, hmem₁⟩ := Selection.add_spec hadd hs
        refine ih (fun p hp => hsub (List.mem_cons_of_mem _ hp)) s₁ hs₁ ?_ h
        intro entry hmem
        rcases (hmem₁ entry).1 hmem with hold | rfl
        · exact hfrom entry hold
        · exact ⟨q, hq, hentry⟩
  exact hfold members (List.Subset.refl _) [] ⟨by simp, by simp⟩ (by simp) h

/-- Members whose selection is made do not conflict. -/
theorem not_conflicting_of_select {position lo width : Nat} {members : List Pattern}
    {s : Selection} (h : select position lo width members = .ok s) (conflict : RegisterConflict) :
    ¬ Conflicting members position lo width conflict := by
  obtain ⟨hone, hall, -⟩ := select_spec h
  have hmem {p : Pattern} (hp : p ∈ members) {entry : Nat × String}
      (hentry : IsEntry position lo width p entry) : entry ∈ s := by
    obtain ⟨found, hfound, hname, hselector⟩ := hall p hp
    have hsame : found = entry :=
      Prod.ext (hselector.symm.trans hentry.2) (Option.some.inj (hname.symm.trans hentry.1))
    exact hsame ▸ hfound
  rintro (⟨hp, hq, hentry, hentry', hne⟩ | ⟨hp, hq, hentry, hentry', hne⟩)
  · have := List.inj_on_of_nodup_map hone.selectors (hmem hp hentry) (hmem hq hentry') rfl
    exact hne (congrArg Prod.snd this)
  · have := List.inj_on_of_nodup_map hone.names (hmem hp hentry) (hmem hq hentry') rfl
    exact hne (congrArg Prod.fst this)

/-! ## The table -/

/-- One more than the highest selector. -/
def Selection.size (s : Selection) : Nat :=
  s.foldl (fun n entry => max n (entry.1 + 1)) 0

/-- The size bounds all selectors. -/
theorem Selection.size_le_iff {s : Selection} {n : Nat} :
    s.size ≤ n ↔ ∀ entry ∈ s, entry.1 < n := by
  have hfold : ∀ k, s.foldl (fun n entry => max n (entry.1 + 1)) k ≤ n ↔
      k ≤ n ∧ ∀ entry ∈ s, entry.1 < n := by
    induction s with
    | nil => simp
    | cons entry s ih =>
      intro k
      rw [List.foldl_cons, ih]
      simp only [Nat.max_le, List.forall_mem_cons, and_assoc]
      rfl
  exact (hfold 0).trans (by simp)

/-- The highest selector is that of the last place. -/
theorem Selection.exists_last {s : Selection} (hs : s ≠ []) : ∃ entry ∈ s, entry.1 + 1 = s.size := by
  by_contra hnone
  have hlt := Selection.size_le_iff.1 (Nat.le_refl s.size)
  have hbelow : s.size ≤ s.size - 1 := by
    refine Selection.size_le_iff.2 ?_
    intro entry hmem
    have := hlt entry hmem
    have : entry.1 + 1 ≠ s.size := fun h => hnone ⟨entry, hmem, h⟩
    omega
  obtain ⟨entry, hmem⟩ := List.exists_mem_of_ne_nil s hs
  have := hlt entry hmem
  omega

@[simp] theorem Selection.length_toTable (s : Selection) : s.toTable.length = s.size := by
  simp [Selection.toTable, Selection.size]

/-- The table has at each selector the register of its entry. -/
theorem Selection.getElem?_toTable {s : Selection} (hs : s.OneToOne) {selector : Nat}
    {name : String} : s.toTable[selector]? = some (some name) ↔ (selector, name) ∈ s := by
  rw [← lookup_eq_some_iff_mem hs.selectors]
  by_cases hlt : selector < s.size
  · have hlt' : selector < s.foldl (fun n entry => max n (entry.1 + 1)) 0 := hlt
    simp [toTable, hlt']
  · have hnone : s.lookup selector ≠ some name := by
      rw [Ne, lookup_eq_some_iff_mem hs.selectors]
      exact fun hmem => hlt (Selection.size_le_iff.1 (Nat.le_refl _) _ hmem)
    rw [List.getElem?_eq_none (by rw [length_toTable]; omega)]
    simp [hnone]

end Combine

end SleighForge
