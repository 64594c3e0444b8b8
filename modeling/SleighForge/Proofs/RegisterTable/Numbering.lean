import SleighForge.Proofs.Association
import SleighForge.Proofs.RegisterTable.Interning
import SleighForge.RegisterTable.Numbering

/-!
# Numbering keeps what the fields select

Numbering goes over the fields of the patterns one after the other (`ofPatterns_eq`). It gives every
table that a field has a new id with the same registers (`ofPatterns_spec`), and it fails only on a
field without a table of two registers (`ofPatterns_ok`).
-/

namespace SleighForge

namespace Numbering

/-! ## One field -/

/-- The tables numbered so far have the ids from 0 up and the registers of working tables, and every
new id stands for the registers of the old one. -/
structure Sound (working : Tables) (n : Numbering) : Prop where
  ids : n.tables.map RegisterTable.id = (List.range n.tables.length).map fun (k : Nat) => (k : Int)
  known : ∀ t ∈ n.tables, ∃ u ∈ working.history, t.registers = u.registers
  same : ∀ old new, n.ids.lookup old = some new →
    ∃ u t, working.get? old = some u ∧ t ∈ n.tables ∧ t.id = new ∧ t.registers = u.registers

theorem sound_empty (working : Tables) : Sound working {} where
  ids := rfl
  known _ ht := absurd ht List.not_mem_nil
  same _ _ h := by cases h

/-- A numbering that has numbered more: it is sound, and no table has changed its new id. -/
structure Extends (working : Tables) (n n' : Numbering) : Prop where
  sound : Sound working n'
  keeps : ∀ old new, n.ids.lookup old = some new → n'.ids.lookup old = some new

variable {working : Tables} {n n' : Numbering}

theorem Extends.refl (h : Sound working n) : Extends working n n where
  sound := h
  keeps _ _ := id

theorem Extends.trans {n'' : Numbering} (h : Extends working n n') (h' : Extends working n' n'') :
    Extends working n n'' where
  sound := h'.sound
  keeps old new hlook := h'.keeps old new (h.keeps old new hlook)

/-- A table that is numbered already lends its id to another with the same registers. -/
theorem Sound.lend (h : Sound working n) {old : Int} {u t : RegisterTable}
    (hnew : n.ids.lookup old = none) (hu : working.get? old = some u) (ht : t ∈ n.tables)
    (hregs : t.registers = u.registers) :
    Extends working n { n with ids := n.ids ++ [(old, t.id)] } := by
  refine ⟨⟨h.ids, h.known, ?_⟩, fun old' new hlook => lookup_append_of_some hlook _⟩
  intro old' new hlook
  rw [List.lookup_append, Option.or_eq_some_iff] at hlook
  rcases hlook with hlook | ⟨-, hlook⟩
  · exact h.same old' new hlook
  · obtain ⟨rfl, rfl⟩ : old' = old ∧ t.id = new := by
      rw [List.lookup_cons] at hlook
      split at hlook
      · next heq => exact ⟨by simpa using heq, by simpa using hlook⟩
      · cases hlook
    exact ⟨u, t, hu, ht, rfl, hregs⟩

/-- A table is numbered on. -/
theorem Sound.add (h : Sound working n) {old : Int} {u : RegisterTable}
    (hnew : n.ids.lookup old = none) (hu : working.get? old = some u) (name : String) :
    Extends working n
      ⟨n.ids ++ [(old, (n.tables.length : Int))],
        n.tables ++ [⟨n.tables.length, u.registers, name⟩]⟩ := by
  -- First the table is added without an id for `old`, then it lends its id to `old`.
  let m : Numbering := { n with tables := n.tables ++ [⟨n.tables.length, u.registers, name⟩] }
  have hm : Sound working m := by
    refine ⟨?_, ?_, ?_⟩
    · simp [m, h.ids, List.range_succ]
    · intro t ht
      rcases List.mem_append.1 ht with ht | ht
      · exact h.known t ht
      · rw [List.mem_singleton.1 ht]
        exact ⟨u, List.mem_of_find?_eq_some hu, rfl⟩
    · intro old' new hlook
      rcases h.same old' new hlook with ⟨u', t, hu', ht, hrest⟩
      exact ⟨u', t, hu', List.mem_append_left _ ht, hrest⟩
  have hlent := hm.lend (t := ⟨n.tables.length, u.registers, name⟩) hnew hu
    (List.mem_append_right _ (List.mem_singleton_self _)) rfl
  exact ⟨hlent.sound, hlent.keeps⟩

/-- What numbering the table of a field does: nothing if the field has none or a numbered one;
otherwise the table has two registers, and either lends the id of one with the same registers or is
numbered on. -/
inductive Adds (working : Tables) (n : Numbering) (f : BitField) : Numbering → Prop where
  | none (h : f.table? = none) : Adds working n f n
  | seen {old : Int} (h : f.table? = some old) (hseen : (n.ids.lookup old).isSome) :
    Adds working n f n
  | lent {old : Int} {u t : RegisterTable} (h : f.table? = some old)
    (hnew : n.ids.lookup old = none) (hu : working.get? old = some u) (htwo : 2 ≤ u.members.length)
    (ht : t ∈ n.tables) (hregs : t.registers = u.registers) :
    Adds working n f { n with ids := n.ids ++ [(old, t.id)] }
  | made {old : Int} {u : RegisterTable} (h : f.table? = some old)
    (hnew : n.ids.lookup old = none) (hu : working.get? old = some u) (htwo : 2 ≤ u.members.length)
    (hnone : ∀ t ∈ n.tables, t.registers ≠ u.registers) :
    Adds working n f
      ⟨n.ids ++ [(old, (n.tables.length : Int))],
        n.tables ++ [⟨n.tables.length, u.registers,
          freshName (n.tables.map RegisterTable.name) (u.baseName n.tables.length)⟩]⟩

/-- A field that is added keeps its registers under its new id. -/
theorem adds_of_addField {p : Pattern} {f : BitField} (hadd : addField working p n f = .ok n') :
    Adds working n f n' := by
  unfold addField at hadd
  split at hadd
  · next htable =>
    cases hadd
    exact .none htable
  · next old htable =>
    split at hadd
    · next hseen =>
      cases hadd
      exact .seen htable hseen
    · next hnew =>
      have hnew := Option.not_isSome_iff_eq_none.1 hnew
      split at hadd
      · cases hadd
      · next u hu =>
        split at hadd
        · cases hadd
        · next htwo =>
          have htwo := Nat.le_of_not_lt htwo
          split at hadd
          · next t hfind =>
            cases hadd
            have hregs : t.registers = u.registers := by simpa using List.find?_some hfind
            exact .lent htable hnew hu htwo (List.mem_of_find?_eq_some hfind) hregs
          · next hfind =>
            cases hadd
            exact .made htable hnew hu htwo (by simpa using hfind)

/-- The numbering goes on, and has numbered the table of the field. -/
theorem addField_spec {p : Pattern} {f : BitField} (h : Sound working n)
    (hadd : addField working p n f = .ok n') :
    Extends working n n' ∧ ∀ old, f.table? = some old → (n'.ids.lookup old).isSome := by
  cases adds_of_addField hadd with
  | none htable => exact ⟨.refl h, fun old hold => by simp [htable] at hold⟩
  | seen htable hseen =>
    refine ⟨.refl h, fun old hold => ?_⟩
    rw [htable, Option.some.injEq] at hold
    exact hold ▸ hseen
  | lent htable hnew hu _ ht hregs =>
    refine ⟨h.lend hnew hu ht hregs, fun old hold => ?_⟩
    rw [htable, Option.some.injEq] at hold
    exact hold ▸ isSome_lookup_append_self ..
  | made htable hnew hu =>
    refine ⟨h.add hnew hu _, fun old hold => ?_⟩
    rw [htable, Option.some.injEq] at hold
    exact hold ▸ isSome_lookup_append_self ..

/-- A field can be added if its table is there and has two registers. -/
theorem addField_ok {p : Pattern} {f : BitField}
    (ht : ∀ old, f.table? = some old → ∃ u, working.get? old = some u ∧ 2 ≤ u.members.length) :
    ∃ n', addField working p n f = .ok n' := by
  unfold addField
  split
  · exact ⟨n, rfl⟩
  · next old htable =>
    rcases ht old htable with ⟨u, hu, htwo⟩
    have hmany : ¬ u.members.length < 2 := Nat.not_lt_of_le htwo
    split
    · exact ⟨n, rfl⟩
    · rw [hu]
      dsimp only
      rw [if_neg hmany]
      split <;> exact ⟨_, rfl⟩

/-! ## All fields -/

/-- Numbering goes over all fields of all patterns in order. -/
theorem ofPatterns_eq (working : Tables) (patterns : List Pattern) :
    ofPatterns working patterns =
      (patterns.flatMap fun p => p.fields.map (p, ·)).foldlM
        (fun n x => addField working x.1 n x.2) {} := by
  have hfold : ∀ n, patterns.foldlM (fun n p => p.fields.foldlM (addField working p) n) n =
      (patterns.flatMap fun p => p.fields.map (p, ·)).foldlM
        (fun n x => addField working x.1 n x.2) n := by
    induction patterns with
    | nil => exact fun n => rfl
    | cons p patterns ih =>
      intro n
      rw [List.flatMap_cons, List.foldlM_append, List.foldlM_cons, List.foldlM_map]
      exact congrArg _ (funext ih)
  exact hfold {}

/-- Fields that are added get ids, one after the other. -/
theorem addFields_spec {xs : List (Pattern × BitField)} (h : Sound working n)
    (hfold : xs.foldlM (fun n x => addField working x.1 n x.2) n = .ok n') :
    Extends working n n' ∧
      ∀ x ∈ xs, ∀ old, x.2.table? = some old → (n'.ids.lookup old).isSome := by
  induction xs generalizing n with
  | nil =>
    cases hfold
    exact ⟨.refl h, by simp⟩
  | cons x xs ih =>
    rw [List.foldlM_cons] at hfold
    cases hone : addField working x.1 n x.2 with
    | error fault =>
      rw [hone] at hfold
      cases hfold
    | ok n₁ =>
      rw [hone] at hfold
      rcases addField_spec h hone with ⟨hext, hseen⟩
      rcases ih hext.sound hfold with ⟨hrest, hall⟩
      refine ⟨hext.trans hrest, ?_⟩
      intro y hy old hold
      rcases List.mem_cons.1 hy with rfl | hy
      · -- What the head has numbered keeps its number through the rest.
        rcases Option.isSome_iff_exists.1 (hseen old hold) with ⟨new, hlook⟩
        exact Option.isSome_iff_exists.2 ⟨new, hrest.keeps old new hlook⟩
      · exact hall y hy old hold

/-- Numbering succeeds where the fields have tables of two registers. -/
theorem ofPatterns_ok {patterns : List Pattern}
    (h : ∀ p ∈ patterns, ∀ f ∈ p.fields, ∀ old, f.table? = some old →
      ∃ u, working.get? old = some u ∧ 2 ≤ u.members.length) :
    ∃ n, ofPatterns working patterns = .ok n := by
  -- What a field needs depends on the working tables alone, not on the numbering so far.
  have hfold : ∀ (xs : List (Pattern × BitField)) (n : Numbering),
      (∀ x ∈ xs, ∀ old, x.2.table? = some old →
        ∃ u, working.get? old = some u ∧ 2 ≤ u.members.length) →
      ∃ n', xs.foldlM (fun n x => addField working x.1 n x.2) n = .ok n' := by
    intro xs
    induction xs with
    | nil => exact fun n _ => ⟨n, rfl⟩
    | cons x xs ih =>
      intro n hxs
      rcases addField_ok (n := n) (p := x.1) (hxs x (List.mem_cons_self ..)) with ⟨n₁, hone⟩
      rw [List.foldlM_cons, hone]
      exact ih n₁ fun y hy => hxs y (List.mem_cons_of_mem _ hy)
  rw [ofPatterns_eq]
  refine hfold _ {} ?_
  intro x hx old hold
  rcases List.mem_flatMap.1 hx with ⟨p, hp, hx⟩
  rcases List.mem_map.1 hx with ⟨f, hf, rfl⟩
  exact h p hp f hf old hold

/-! ## The numbered tables -/

/-- The new tables are numbered, have the registers of old ones, and each field finds under its new
id what it found under its old one. -/
structure Renumbers (n : Numbering) (working : Tables) (patterns : List Pattern) : Prop where
  numbered : n.toTables.Numbered
  known : ∀ t ∈ n.toTables.history, ∃ u ∈ working.history, t.registers = u.registers
  same : ∀ p ∈ patterns, ∀ f ∈ p.fields, ∀ old, f.table? = some old →
    ∃ u t, working.get? old = some u ∧ n.toTables.get? (n.apply old) = some t ∧
      t.registers = u.registers

/-- The new tables are numbered in order. -/
theorem Sound.numbered (h : Sound working n) : n.toTables.Numbered where
  nodup := by
    show (n.tables.reverse.map RegisterTable.id).Nodup
    rw [List.map_reverse, List.nodup_reverse, h.ids]
    exact List.nodup_range.map fun a b hab => Int.ofNat_inj.1 hab
  bounds t ht := by
    have hid : t.id ∈ n.tables.map RegisterTable.id :=
      List.mem_map_of_mem (List.mem_reverse.1 ht)
    rw [h.ids, List.mem_map] at hid
    rcases hid with ⟨k, hk, hid⟩
    have hlen : n.toTables.history.length = n.tables.length := List.length_reverse
    have hlt := List.mem_range.1 hk
    omega

/-- A numbering keeps the registers of every field under its new id. -/
theorem ofPatterns_spec {patterns : List Pattern} (h : ofPatterns working patterns = .ok n) :
    n.Renumbers working patterns := by
  rw [ofPatterns_eq] at h
  rcases addFields_spec (sound_empty working) h with ⟨hext, hall⟩
  have hsound := hext.sound
  refine ⟨hsound.numbered, fun t ht => hsound.known t (List.mem_reverse.1 ht), ?_⟩
  intro p hp f hf old hold
  have hmem : (p, f) ∈ patterns.flatMap fun p => p.fields.map (p, ·) :=
    List.mem_flatMap.2 ⟨p, hp, List.mem_map_of_mem hf⟩
  rcases Option.isSome_iff_exists.1 (hall (p, f) hmem old hold) with ⟨new, hlook⟩
  rcases hsound.same old new hlook with ⟨u, t, hu, ht, hid, hregs⟩
  have happly : n.apply old = new := by
    rw [apply, hlook]
    rfl
  refine ⟨u, t, hu, hsound.numbered.get?_eq_some_iff.2 ⟨List.mem_reverse.2 ht, ?_⟩, hregs⟩
  rw [happly, hid]

end Numbering

end SleighForge
