import Mathlib.Data.List.Basic

/-!
# Numbers in names

Names of fields have decimal numbers in them, set off by underscores. A number is written without an
underscore and in one way only, so it can be read off such a name (`eq_of_intercalate_eq`).
-/

namespace SleighForge.Text

/-- Numbers are told apart by how they are written. -/
theorem toString_injective {m n : Nat} (h : toString m = toString n) : m = n := by
  have hdigits : Nat.toDigits 10 m = Nat.toDigits 10 n := by
    have hlist := congrArg String.toList h
    rwa [Nat.toString_eq_repr, Nat.toString_eq_repr, Nat.toList_repr, Nat.toList_repr] at hlist
  calc m = Nat.ofDigitChars 10 (Nat.toDigits 10 m) 0 := Nat.ofDigitChars_ten_toDigits.symm
    _ = Nat.ofDigitChars 10 (Nat.toDigits 10 n) 0 := by rw [hdigits]
    _ = n := Nat.ofDigitChars_ten_toDigits

/-- Numbers are written with digits. -/
theorem isDigit_of_mem_toString {n : Nat} {c : Char} (hc : c ∈ (toString n).toList) :
    c.isDigit = true := by
  rw [Nat.toString_eq_repr, Nat.toList_repr] at hc
  exact Nat.isDigit_of_mem_toDigits (by decide) (by decide) hc

/-! ## Integers -/

/-- A negative number has a sign before its digits. -/
theorem toString_int (n : Int) :
    toString n = if 0 ≤ n then toString n.toNat else "-" ++ toString (-n).toNat := by
  rw [Int.toString_eq_repr, Int.repr_eq_if, Nat.toString_eq_repr, Nat.toString_eq_repr]

theorem toString_int_injective {m n : Int} (h : toString m = toString n) : m = n := by
  have hsign (k l : Nat) : toString k ≠ "-" ++ toString l := by
    intro heq
    have hmem : '-' ∈ (toString k).toList := by
      rw [heq, String.toList_append]
      exact List.mem_append_left _ (List.mem_singleton_self _)
    have hdigit := isDigit_of_mem_toString hmem
    revert hdigit
    decide
  rw [toString_int, toString_int] at h
  -- Of two signs that differ, one text begins with a mark no natural number has.
  by_cases hm : 0 ≤ m <;> by_cases hn : 0 ≤ n
  · rw [if_pos hm, if_pos hn] at h
    have := toString_injective h
    omega
  · rw [if_pos hm, if_neg hn] at h
    exact absurd h (hsign _ _)
  · rw [if_neg hm, if_pos hn] at h
    exact absurd h.symm (hsign _ _)
  · rw [if_neg hm, if_neg hn] at h
    have hlist := congrArg String.toList h
    rw [String.toList_append, String.toList_append] at hlist
    have := toString_injective (String.toList_injective (List.append_cancel_left hlist))
    omega

/-! ## Parts of names -/

/-- A part of a name has letters, digits and the sign of a number. -/
def IsPart (s : String) : Prop :=
  ∀ c ∈ s.toList, c.isAlphanum = true ∨ c = '-'

theorem isPart_toString (n : Nat) : IsPart (toString n) := by
  intro c hc
  rw [Char.isAlphanum, isDigit_of_mem_toString hc, Bool.or_true]
  exact .inl rfl

theorem isPart_toString_int (n : Int) : IsPart (toString n) := by
  intro c hc
  rw [toString_int] at hc
  by_cases hn : 0 ≤ n
  · rw [if_pos hn] at hc
    exact isPart_toString _ c hc
  · rw [if_neg hn, String.toList_append, List.mem_append] at hc
    rcases hc with hc | hc
    · exact .inr (List.mem_singleton.1 hc)
    · exact isPart_toString _ c hc

/-- Parts of names have no underscores. -/
theorem IsPart.underscore_not_mem {s : String} (h : IsPart s) : '_' ∉ s.toList := by
  intro hmem
  exact absurd (h '_' hmem) (by decide)

/-- The characters of a name are those of its parts, and underscores. -/
theorem mem_toList_intercalate {ps : List String} {c : Char}
    (hc : c ∈ ("_".intercalate ps).toList) : c = '_' ∨ ∃ s ∈ ps, c ∈ s.toList := by
  induction ps with
  | nil => cases hc
  | cons s ps ih =>
    rcases ps with _ | ⟨s', ps⟩
    · rw [String.intercalate_singleton] at hc
      exact .inr ⟨s, List.mem_singleton_self s, hc⟩
    · rw [String.intercalate_cons_of_ne_nil (List.cons_ne_nil s' ps), String.toList_append,
        String.toList_append, List.mem_append, List.mem_append] at hc
      rcases hc with (hc | hc) | hc
      · exact .inr ⟨s, List.mem_cons_self .., hc⟩
      · exact .inl (List.mem_singleton.1 hc)
      · refine (ih hc).imp_right ?_
        rintro ⟨t, ht, hc⟩
        exact ⟨t, List.mem_cons_of_mem _ ht, hc⟩

/-- Parts can be read off the name that they make up. -/
theorem eq_of_intercalate_eq {ps qs : List String} (hps : ps ≠ []) (hqs : qs ≠ [])
    (hp : ∀ s ∈ ps, IsPart s) (hq : ∀ s ∈ qs, IsPart s)
    (h : "_".intercalate ps = "_".intercalate qs) : ps = qs := by
  have hsplit (xs : List String) (hxs : xs ≠ []) (hx : ∀ s ∈ xs, IsPart s) :
      ("_".intercalate xs).toList.splitOn '_' = xs.map String.toList := by
    rw [String.toList_intercalate]
    have hparts : ∀ s ∈ xs, '_' ∉ s.toList := fun s hs => (hx s hs).underscore_not_mem
    exact List.splitOn_intercalate '_' (List.forall_mem_map.2 hparts) (by simpa using hxs)
  have hparts : ps.map String.toList = qs.map String.toList := by
    rw [← hsplit ps hps hp, ← hsplit qs hqs hq, h]
  exact List.map_injective_iff.2 (fun _ _ => String.toList_injective) hparts

end SleighForge.Text
