import Mathlib.Data.List.Forall2
import Mathlib.Data.List.Sort
import SleighForge.Distinct

/-!
# Lists side by side

Two lists with related elements stay so when the same is done to both: keeping first occurrences
(`forall₂_distinctBy`), searching (`find?_rel`) and sorting (`forall₂_mergeSort`). Taking elements
out before or after one of these comes to the same (`filter_mergeSort`). The results of a loop stand
beside the elements that they come from (`mapM_eq_ok_iff`).
-/

namespace SleighForge

section

variable {α β γ δ : Type} {R : α → β → Prop} {xs : List α} {ys : List β}

/-! ## Optional elements -/

/-- Related options are both there or both missing. -/
theorem optionRel_cases {o : Option α} {o' : Option β} (h : Option.Rel R o o') :
    (o = none ∧ o' = none) ∨ ∃ x y, o = some x ∧ o' = some y ∧ R x y := by
  cases h with
  | none => exact .inl ⟨rfl, rfl⟩
  | some h => exact .inr ⟨_, _, rfl, rfl, h⟩

theorem findSome?_rel {zs : List γ} {f : γ → Option α} {f' : γ → Option β}
    (h : ∀ z ∈ zs, Option.Rel R (f z) (f' z)) :
    Option.Rel R (zs.findSome? f) (zs.findSome? f') := by
  induction zs with
  | nil => exact .none
  | cons z zs ih =>
    rw [List.forall_mem_cons] at h
    rw [List.findSome?_cons, List.findSome?_cons]
    rcases optionRel_cases h.1 with ⟨hx, hy⟩ | ⟨x, y, hx, hy, hxy⟩
    · rw [hx, hy]
      exact ih h.2
    · rw [hx, hy]
      exact .some hxy

/-- Loops over related lists have related results, or fail both. -/
theorem mapM_rel {S : γ → δ → Prop} (h : List.Forall₂ R xs ys) {f : α → Option γ}
    {f' : β → Option δ} (hf : ∀ x y, R x y → Option.Rel S (f x) (f' y)) :
    Option.Rel (List.Forall₂ S) (xs.mapM f) (ys.mapM f') := by
  induction h with
  | nil => exact .some .nil
  | @cons x y xs ys hxy _ ih =>
    rw [List.mapM_cons, List.mapM_cons]
    rcases optionRel_cases (hf x y hxy) with ⟨hx, hy⟩ | ⟨z, w, hx, hy, hhead⟩
    · rw [hx, hy]
      exact .none
    · rcases optionRel_cases ih with ⟨hxs, hys⟩ | ⟨zs, ws, hxs, hys, htail⟩
      · rw [hx, hy, hxs, hys]
        exact .none
      · rw [hx, hy, hxs, hys]
        exact .some (.cons hhead htail)

/-- A loop that succeeds gives each element its own result. -/
theorem mapM_eq_ok_iff {ε : Type} {f : α → Except ε β} :
    xs.mapM f = .ok ys ↔ List.Forall₂ (fun x y => f x = .ok y) xs ys := by
  induction xs generalizing ys with
  | nil =>
    rw [List.mapM_nil, List.forall₂_nil_left_iff]
    exact ⟨fun h => by cases h; rfl, fun h => h ▸ rfl⟩
  | cons x xs ih =>
    rw [List.mapM_cons, List.forall₂_cons_left_iff]
    constructor
    · intro h
      cases hx : f x with
      | error e =>
        rw [hx] at h
        cases h
      | ok y =>
        cases hxs : xs.mapM f with
        | error e =>
          rw [hx, hxs] at h
          cases h
        | ok ys =>
          rw [hx, hxs] at h
          cases h
          exact ⟨y, ys, rfl, ih.1 hxs, rfl⟩
    · rintro ⟨y, ys, hx, hxs, rfl⟩
      rw [hx, ih.2 hxs]
      rfl

/-- Elements that have a counterpart each have a list of them. -/
theorem exists_forall₂ (h : ∀ x ∈ xs, ∃ y, R x y) : ∃ ys, List.Forall₂ R xs ys := by
  induction xs with
  | nil => exact ⟨[], .nil⟩
  | cons x xs ih =>
    obtain ⟨⟨y, hy⟩, hrest⟩ := List.forall_mem_cons.1 h
    obtain ⟨ys, hys⟩ := ih hrest
    exact ⟨y :: ys, .cons hy hys⟩

/-- A loop goes well if every step of it does. -/
theorem exists_mapM_eq_ok {ε : Type} {f : α → Except ε β} (h : ∀ x ∈ xs, ∃ y, f x = .ok y) :
    ∃ ys, xs.mapM f = .ok ys := by
  obtain ⟨ys, hys⟩ := exists_forall₂ h
  exact ⟨ys, mapM_eq_ok_iff.2 hys⟩

/-- Related lists have the same images if related elements have. -/
theorem map_eq_map_of_forall₂ (h : List.Forall₂ R xs ys) {f : α → γ} {g : β → γ}
    (hfg : ∀ x ∈ xs, ∀ y ∈ ys, R x y → f x = g y) : xs.map f = ys.map g := by
  induction h with
  | nil => rfl
  | cons hxy _ ih =>
    rw [List.map_cons, List.map_cons, hfg _ (List.mem_cons_self ..) _ (List.mem_cons_self ..) hxy,
      ih fun x hx y hy => hfg x (List.mem_cons_of_mem _ hx) y (List.mem_cons_of_mem _ hy)]

/-! ## Places -/

theorem getElem?_rel (h : List.Forall₂ R xs ys) (i : Nat) : Option.Rel R xs[i]? ys[i]? := by
  induction h generalizing i with
  | nil => exact .none
  | cons hxy _ ih =>
    cases i with
    | zero => exact .some hxy
    | succ i =>
      rw [List.getElem?_cons_succ, List.getElem?_cons_succ]
      exact ih i

/-- Whatever is on the one side has its counterpart on the other. -/
theorem exists_of_mem_right (h : List.Forall₂ R xs ys) {y : β} (hy : y ∈ ys) :
    ∃ x ∈ xs, R x y := by
  obtain ⟨i, hi, rfl⟩ := List.getElem_of_mem hy
  have hlt : i < xs.length := h.length_eq ▸ hi
  exact ⟨xs[i], List.getElem_mem hlt, h.get hlt hi⟩

theorem forall₂_set (h : List.Forall₂ R xs ys) {x : α} {y : β} (hxy : R x y) (i : Nat) :
    List.Forall₂ R (xs.set i x) (ys.set i y) := by
  induction h generalizing i with
  | nil => exact .nil
  | cons hhead htail ih =>
    cases i with
    | zero => exact .cons hxy htail
    | succ i => exact .cons hhead (ih i)

theorem forall₂_eraseIdx (h : List.Forall₂ R xs ys) (i : Nat) :
    List.Forall₂ R (xs.eraseIdx i) (ys.eraseIdx i) := by
  induction h generalizing i with
  | nil => exact .nil
  | cons hhead htail ih =>
    cases i with
    | zero => exact htail
    | succ i => exact .cons hhead (ih i)

theorem forall₂_zipIdx (h : List.Forall₂ R xs ys) :
    List.Forall₂ (fun x y => R x.1 y.1 ∧ x.2 = y.2) xs.zipIdx ys.zipIdx := by
  have hfrom : ∀ k, List.Forall₂ (fun x y => R x.1 y.1 ∧ x.2 = y.2) (xs.zipIdx k)
      (ys.zipIdx k) := by
    induction h with
    | nil => exact fun _ => .nil
    | cons hxy _ ih => exact fun k => .cons ⟨hxy, rfl⟩ (ih (k + 1))
  exact hfrom 0

/-! ## First occurrences -/

/-- First occurrences are at the same places where equal values on one side are equal on the other.
-/
theorem forall₂_unseenBy [DecidableEq γ] [DecidableEq δ] {f : α → γ} {g : β → δ}
    (hfg : ∀ x y x' y', R x y → R x' y' → (f x = f x' ↔ g y = g y')) (h : List.Forall₂ R xs ys)
    {seen : List γ} {seen' : List δ} (hseen : ∀ x y, R x y → (f x ∈ seen ↔ g y ∈ seen')) :
    List.Forall₂ R (unseenBy f seen xs) (unseenBy g seen' ys) := by
  induction h generalizing seen seen' with
  | nil => exact .nil
  | @cons x y xs ys hxy _ ih =>
    rw [unseenBy, unseenBy]
    by_cases hx : f x ∈ seen
    · rw [if_pos hx, if_pos ((hseen x y hxy).1 hx)]
      exact ih hseen
    · rw [if_neg hx, if_neg (mt (hseen x y hxy).2 hx)]
      refine .cons hxy (ih fun x' y' hxy' => ?_)
      rw [List.mem_cons, List.mem_cons, hfg x' y' x y hxy' hxy, hseen x' y' hxy']

theorem forall₂_distinctBy [DecidableEq γ] [DecidableEq δ] {f : α → γ} {g : β → δ}
    (hfg : ∀ x y x' y', R x y → R x' y' → (f x = f x' ↔ g y = g y')) (h : List.Forall₂ R xs ys) :
    List.Forall₂ R (distinctBy f xs) (distinctBy g ys) :=
  forall₂_unseenBy hfg h fun _ _ _ => by simp

theorem forall₂_distinct [DecidableEq α] [DecidableEq β] (hR : Relator.BiUnique R)
    (h : List.Forall₂ R xs ys) : List.Forall₂ R (distinct xs) (distinct ys) :=
  forall₂_distinctBy (fun _ _ _ _ hxy hxy' => Relator.rel_eq hR hxy hxy') h

/-! ## Searching -/

/-- A search stops at the same place on both sides if the tests agree. -/
theorem find?_rel {p : α → Bool} {q : β → Bool} (h : List.Forall₂ R xs ys)
    (hpq : ∀ x y, R x y → p x = q y) : Option.Rel R (xs.find? p) (ys.find? q) := by
  induction h with
  | nil => exact .none
  | @cons x y xs ys hxy _ ih =>
    cases hx : p x with
    | true =>
      rw [List.find?_cons_of_pos hx, List.find?_cons_of_pos ((hpq x y hxy).symm.trans hx)]
      exact .some hxy
    | false =>
      have hy : q y = false := (hpq x y hxy).symm.trans hx
      rw [List.find?_cons_of_neg (by simp [hx]), List.find?_cons_of_neg (by simp [hy])]
      exact ih

/-! ## Taking elements out -/

/-- A search is not changed by taking out what it does not stop at. -/
theorem find?_filter_of {p q : α → Bool} (h : ∀ x ∈ xs, q x = true → p x = true) :
    (xs.filter p).find? q = xs.find? q := by
  induction xs with
  | nil => rfl
  | cons x xs ih =>
    rw [List.forall_mem_cons] at h
    cases hq : q x with
    | true =>
      rw [List.filter_cons_of_pos (h.1 hq), List.find?_cons_of_pos hq, List.find?_cons_of_pos hq]
    | false =>
      rw [List.find?_cons_of_neg (by simp [hq]), ← ih h.2, List.filter_cons]
      split
      · rw [List.find?_cons_of_neg (by simp [hq])]
      · rfl

/-- Filtering results is filtering what they come from, if the tests agree. -/
theorem filter_filterMap_of {f : α → Option β} {p : α → Bool} {q : β → Bool}
    (h : ∀ x ∈ xs, ∀ y, f x = some y → q y = p x) :
    (xs.filterMap f).filter q = (xs.filter p).filterMap f := by
  induction xs with
  | nil => rfl
  | cons x xs ih =>
    have ih := ih fun z hz => h z (List.mem_cons_of_mem _ hz)
    have hx := h x (List.mem_cons_self ..)
    cases hp : p x with
    | true =>
      rw [List.filter_cons_of_pos hp]
      cases hf : f x with
      | none => rw [List.filterMap_cons_none hf, List.filterMap_cons_none hf, ih]
      | some y =>
        rw [List.filterMap_cons_some hf, List.filterMap_cons_some hf,
          List.filter_cons_of_pos ((hx y hf).trans hp), ih]
    | false =>
      rw [List.filter_cons_of_neg (by simp [hp])]
      cases hf : f x with
      | none => rw [List.filterMap_cons_none hf, ih]
      | some y =>
        rw [List.filterMap_cons_some hf, List.filter_cons_of_neg (by simp [hx y hf, hp]), ih]

/-- Filtering lists of results is filtering what they come from, if the tests agree. -/
theorem filter_flatMap_of {f : α → List β} {p : α → Bool} {q : β → Bool}
    (h : ∀ x ∈ xs, ∀ y ∈ f x, q y = p x) :
    (xs.flatMap f).filter q = (xs.filter p).flatMap f := by
  induction xs with
  | nil => rfl
  | cons x xs ih =>
    have ih := ih fun z hz => h z (List.mem_cons_of_mem _ hz)
    have hx := h x (List.mem_cons_self ..)
    rw [List.flatMap_cons, List.filter_append, ih]
    cases hp : p x with
    | true =>
      rw [List.filter_cons_of_pos hp, List.flatMap_cons,
        List.filter_eq_self.2 fun y hy => (hx y hy).trans hp]
    | false =>
      rw [List.filter_cons_of_neg (by simp [hp]),
        List.filter_eq_nil_iff.2 fun y hy => by simp [hx y hy, hp], List.nil_append]

end

/-! ## Sorting -/

section

variable {α : Type} {le : α → α → Bool}

/-- An element that may come before all others is inserted at the front. -/
theorem orderedInsert_eq_cons {a : α} {xs : List α} (h : ∀ b ∈ xs, le a b = true) :
    xs.orderedInsert (fun a b => le a b = true) a = a :: xs := by
  cases xs with
  | nil => rfl
  | cons b xs => rw [List.orderedInsert_cons, if_pos (h b (List.mem_cons_self ..))]

/-- Sorting puts the first element before those that it may not come after. -/
theorem mergeSort_cons_eq (htrans : ∀ a b c, le a b = true → le b c = true → le a c = true)
    (htotal : ∀ a b, (le a b || le b a) = true) (a : α) (xs : List α) :
    (a :: xs).mergeSort le = (xs.mergeSort le).orderedInsert (fun a b => le a b = true) a := by
  rcases List.mergeSort_cons htrans htotal a xs with ⟨before, after, hall, hrest, hbefore⟩
  have hsorted := List.pairwise_mergeSort htrans htotal (a :: xs)
  rw [hall] at hsorted ⊢
  rw [hrest]
  have hafter : ∀ b ∈ after, le a b = true :=
    (List.pairwise_cons.1 (List.pairwise_append.1 hsorted).2.1).1
  clear hall hrest hsorted
  induction before with
  | nil => exact (orderedInsert_eq_cons hafter).symm
  | cons b before ih =>
    rw [List.forall_mem_cons] at hbefore
    have hb : ¬ le a b = true := by simpa using hbefore.1
    rw [List.cons_append, List.cons_append, List.orderedInsert_cons, if_neg hb, ← ih hbefore.2]

/-- An element that is kept is inserted among those that are kept. -/
theorem filter_orderedInsert (htrans : ∀ a b c, le a b = true → le b c = true → le a c = true)
    {p : α → Bool} {xs : List α} (hs : xs.Pairwise fun a b => le a b = true) (a : α) :
    (xs.orderedInsert (fun a b => le a b = true) a).filter p =
      if p a then (xs.filter p).orderedInsert (fun a b => le a b = true) a else xs.filter p := by
  induction xs with
  | nil => by_cases ha : p a = true <;> simp [ha]
  | cons b xs ih =>
    rcases List.pairwise_cons.1 hs with ⟨hhead, htail⟩
    rw [List.orderedInsert_cons]
    by_cases hab : le a b = true
    · -- What comes after `b` comes after `a` as well, also where `b` is taken out.
      have hafter : ∀ c ∈ (b :: xs).filter p, le a c = true := by
        intro c hc
        rcases List.mem_cons.1 (List.mem_filter.1 hc).1 with rfl | hc
        · exact hab
        · exact htrans a b c hab (hhead c hc)
      rw [if_pos hab, orderedInsert_eq_cons hafter, List.filter_cons]
    · rw [if_neg hab, List.filter_cons, ih htail, List.filter_cons]
      by_cases hb : p b = true
      · rw [if_pos hb, if_pos hb, List.orderedInsert_cons, if_neg hab]
        split <;> rfl
      · rw [if_neg hb, if_neg hb]

/-- A stable sort leaves the order of some of the elements to these alone. -/
theorem filter_mergeSort (htrans : ∀ a b c, le a b = true → le b c = true → le a c = true)
    (htotal : ∀ a b, (le a b || le b a) = true) (p : α → Bool) (xs : List α) :
    (xs.mergeSort le).filter p = (xs.filter p).mergeSort le := by
  induction xs with
  | nil => rw [List.filter_nil, List.mergeSort_nil, List.filter_nil]
  | cons a xs ih =>
    rw [mergeSort_cons_eq htrans htotal,
      filter_orderedInsert htrans (List.pairwise_mergeSort htrans htotal xs), ih, List.filter_cons]
    split
    · rw [mergeSort_cons_eq htrans htotal]
    · rfl

/-- Inserting related elements in related lists gives related lists if the orders agree. -/
theorem forall₂_orderedInsert {R : α → α → Prop}
    (hle : ∀ a b a' b', R a b → R a' b' → le a a' = le b b') {a b : α} (hab : R a b)
    {xs ys : List α} (h : List.Forall₂ R xs ys) :
    List.Forall₂ R (xs.orderedInsert (fun a b => le a b = true) a)
      (ys.orderedInsert (fun a b => le a b = true) b) := by
  induction h with
  | nil => exact .cons hab .nil
  | @cons a' b' xs ys hab' hrest ih =>
    rw [List.orderedInsert_cons, List.orderedInsert_cons, hle a b a' b' hab hab']
    split
    · exact .cons hab (.cons hab' hrest)
    · exact .cons hab' ih

/-- Sorting related lists gives related lists if the orders agree. -/
theorem forall₂_mergeSort (htrans : ∀ a b c, le a b = true → le b c = true → le a c = true)
    (htotal : ∀ a b, (le a b || le b a) = true) {R : α → α → Prop}
    (hle : ∀ a b a' b', R a b → R a' b' → le a a' = le b b') {xs ys : List α}
    (h : List.Forall₂ R xs ys) : List.Forall₂ R (xs.mergeSort le) (ys.mergeSort le) := by
  induction h with
  | nil =>
    rw [List.mergeSort_nil]
    exact .nil
  | cons hab _ ih =>
    rw [mergeSort_cons_eq htrans htotal, mergeSort_cons_eq htrans htotal]
    exact forall₂_orderedInsert hle hab ih

end

end SleighForge
