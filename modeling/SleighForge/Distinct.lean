/-!
# First occurrences

`distinctBy f xs` keeps, for each value of `f`, the first element with that value. The result has
the same values in the order of first occurrence, each once.
-/

namespace SleighForge

variable {α β : Type} [DecidableEq β]

/-- The elements with values not seen before, the first for each value. -/
def unseenBy (f : α → β) (seen : List β) : List α → List α
  | [] => []
  | x :: xs => if f x ∈ seen then unseenBy f seen xs else x :: unseenBy f (f x :: seen) xs

/-- The first element for each value of `f`, in order. -/
def distinctBy (f : α → β) (xs : List α) : List α :=
  unseenBy f [] xs

/-- The elements without repetition, in the order of first occurrence. -/
def distinct (xs : List β) : List β :=
  distinctBy (fun x => x) xs

theorem unseenBy_sublist (f : α → β) (seen : List β) (xs : List α) :
    (unseenBy f seen xs).Sublist xs := by
  fun_induction unseenBy f seen xs with
  | case1 => exact List.Sublist.slnil
  | case2 _ x xs _ ih => exact ih.cons x
  | case3 _ x xs _ ih => exact ih.cons_cons x

/-- Of what has not been seen, no value is lost. -/
theorem mem_map_unseenBy {f : α → β} {seen : List β} {xs : List α} {b : β} :
    b ∈ (unseenBy f seen xs).map f ↔ b ∈ xs.map f ∧ b ∉ seen := by
  fun_induction unseenBy f seen xs with
  | case1 => simp
  | case2 seen x xs h ih =>
    rw [ih, List.map_cons, List.mem_cons]
    constructor
    · exact fun ⟨hm, hn⟩ => ⟨.inr hm, hn⟩
    · rintro ⟨rfl | hm, hn⟩
      · exact absurd h hn
      · exact ⟨hm, hn⟩
  | case3 seen x xs h ih =>
    rw [List.map_cons, List.map_cons, List.mem_cons, List.mem_cons, ih, List.mem_cons, not_or]
    by_cases hb : b = f x
    · simp [hb, h]
    · simp [hb]

theorem nodup_map_unseenBy (f : α → β) (seen : List β) (xs : List α) :
    ((unseenBy f seen xs).map f).Nodup := by
  fun_induction unseenBy f seen xs with
  | case1 => simp
  | case2 _ _ _ _ ih => exact ih
  | case3 seen x xs h ih =>
    rw [List.map_cons, List.nodup_cons]
    exact ⟨fun hm => (mem_map_unseenBy.1 hm).2 (List.mem_cons_self ..), ih⟩

/-- Nothing is dropped from a list without repeats of which nothing has been seen. -/
theorem unseenBy_eq_self {f : α → β} {seen : List β} {xs : List α} (h : (xs.map f).Nodup)
    (hseen : ∀ x ∈ xs, f x ∉ seen) : unseenBy f seen xs = xs := by
  fun_induction unseenBy f seen xs with
  | case1 => rfl
  | case2 seen x xs hx _ => exact absurd hx (hseen x (List.mem_cons_self ..))
  | case3 seen x xs _ ih =>
    rw [List.map_cons, List.nodup_cons] at h
    rw [ih h.2]
    intro y hy hmem
    rcases List.mem_cons.1 hmem with heq | hmem
    · exact h.1 (heq ▸ List.mem_map_of_mem hy)
    · exact hseen y (List.mem_cons_of_mem _ hy) hmem

/-- An element is kept, or one before it with its value is. -/
theorem exists_mem_unseenBy {f : α → β} {seen : List β} {xs : List α} {R : α → α → Prop}
    (hR : xs.Pairwise R) {x : α} (hx : x ∈ xs) (hseen : f x ∉ seen) :
    ∃ y ∈ unseenBy f seen xs, f y = f x ∧ (y = x ∨ R y x) := by
  fun_induction unseenBy f seen xs with
  | case1 => cases hx
  | case2 seen a xs ha ih =>
    rcases List.mem_cons.1 hx with rfl | hx
    · exact absurd ha hseen
    · exact ih (List.pairwise_cons.1 hR).2 hx hseen
  | case3 seen a xs ha ih =>
    rcases List.pairwise_cons.1 hR with ⟨hhead, htail⟩
    by_cases hfa : f a = f x
    · refine ⟨a, List.mem_cons_self .., hfa, ?_⟩
      rcases List.mem_cons.1 hx with rfl | hx
      · exact .inl rfl
      · exact .inr (hhead x hx)
    · have hmem : x ∈ xs := (List.mem_cons.1 hx).resolve_left fun heq => hfa (heq ▸ rfl)
      have hnew : f x ∉ f a :: seen := by simp [hseen, Ne.symm hfa]
      rcases ih htail hmem hnew with ⟨y, hy, hrest⟩
      exact ⟨y, List.mem_cons_of_mem _ hy, hrest⟩

/-- Elements that a test on their values takes out have no part in what is kept of the others. -/
theorem filter_unseenBy {f : α → β} {test : α → Bool} (htest : ∀ x y, f x = f y → test x = test y)
    {seen seen' : List β} (hseen : ∀ x, test x = true → (f x ∈ seen ↔ f x ∈ seen'))
    (xs : List α) :
    (unseenBy f seen xs).filter test = unseenBy f seen' (xs.filter test) := by
  induction xs generalizing seen seen' with
  | nil => rfl
  | cons x xs ih =>
    by_cases hx : test x = true
    · rw [List.filter_cons_of_pos hx, unseenBy, unseenBy]
      by_cases hmem : f x ∈ seen
      · rw [if_pos hmem, if_pos ((hseen x hx).1 hmem), ih hseen]
      · have hmore : ∀ y, test y = true → (f y ∈ f x :: seen ↔ f y ∈ f x :: seen') := by
          intro y hy
          simp [hseen y hy]
        rw [if_neg hmem, if_neg (mt (hseen x hx).2 hmem), List.filter_cons_of_pos hx, ih hmore]
    · rw [List.filter_cons_of_neg hx, unseenBy]
      split
      · exact ih hseen
      · rw [List.filter_cons_of_neg hx]
        -- The element taken off is none of those that pass, whose images it does not hide.
        refine ih fun y hy => ?_
        have hne : f y ≠ f x := fun heq => hx (htest y x heq ▸ hy)
        simp [hne, hseen y hy]

/-- A further element is kept if its value is new. -/
theorem unseenBy_concat (f : α → β) (seen : List β) (xs : List α) (x : α) :
    unseenBy f seen (xs ++ [x]) =
      unseenBy f seen xs ++ if f x ∈ seen ∨ f x ∈ xs.map f then [] else [x] := by
  fun_induction unseenBy f seen xs with
  | case1 seen => by_cases h : f x ∈ seen <;> simp [unseenBy, h]
  | case2 seen y xs hy ih =>
    -- The head is a repeat, so it adds nothing to what is taken for seen.
    have hiff : (f x ∈ seen ∨ f x ∈ (y :: xs).map f) ↔ (f x ∈ seen ∨ f x ∈ xs.map f) := by
      rw [List.map_cons, List.mem_cons]
      constructor
      · rintro (h | heq | h)
        · exact .inl h
        · exact .inl (heq ▸ hy)
        · exact .inr h
      · exact Or.imp_right .inr
    rw [List.cons_append, unseenBy, if_pos hy, ih]
    simp only [hiff]
  | case3 seen y xs hy ih =>
    have hiff : (f x ∈ seen ∨ f x ∈ (y :: xs).map f) ↔
        (f x ∈ f y :: seen ∨ f x ∈ xs.map f) := by
      rw [List.map_cons, List.mem_cons, List.mem_cons, or_left_comm, or_assoc]
    rw [List.cons_append, unseenBy, if_neg hy, ih, List.cons_append]
    simp only [hiff]

/-- The first element of a list is kept. -/
theorem distinctBy_cons (f : α → β) (x : α) (xs : List α) :
    distinctBy f (x :: xs) = x :: unseenBy f [f x] xs := by
  rw [distinctBy, unseenBy, if_neg List.not_mem_nil]

theorem distinctBy_sublist (f : α → β) (xs : List α) : (distinctBy f xs).Sublist xs :=
  unseenBy_sublist f [] xs

/-- For each element one with its value is kept, and this one comes first. -/
theorem exists_mem_distinctBy {f : α → β} {xs : List α} {R : α → α → Prop} (hR : xs.Pairwise R)
    {x : α} (hx : x ∈ xs) : ∃ y ∈ distinctBy f xs, f y = f x ∧ (y = x ∨ R y x) :=
  exists_mem_unseenBy hR hx List.not_mem_nil

/-- A test that depends on the value can be made before or after. -/
theorem filter_distinctBy {f : α → β} {test : α → Bool}
    (htest : ∀ x y, f x = f y → test x = test y) (xs : List α) :
    (distinctBy f xs).filter test = distinctBy f (xs.filter test) :=
  filter_unseenBy htest (fun _ _ => Iff.rfl) xs

theorem mem_map_distinctBy {f : α → β} {xs : List α} {b : β} :
    b ∈ (distinctBy f xs).map f ↔ b ∈ xs.map f := by
  simp [distinctBy, mem_map_unseenBy]

theorem nodup_map_distinctBy (f : α → β) (xs : List α) : ((distinctBy f xs).map f).Nodup :=
  nodup_map_unseenBy f [] xs

theorem distinctBy_eq_self {f : α → β} {xs : List α} (h : (xs.map f).Nodup) :
    distinctBy f xs = xs :=
  unseenBy_eq_self h fun _ _ => List.not_mem_nil

theorem distinctBy_concat_of_mem {f : α → β} {xs : List α} {x : α} (h : f x ∈ xs.map f) :
    distinctBy f (xs ++ [x]) = distinctBy f xs := by
  rw [distinctBy, unseenBy_concat, if_pos (.inr h), List.append_nil, distinctBy]

theorem distinctBy_concat_of_not_mem {f : α → β} {xs : List α} {x : α} (h : f x ∉ xs.map f) :
    distinctBy f (xs ++ [x]) = distinctBy f xs ++ [x] := by
  rw [distinctBy, unseenBy_concat, if_neg (by simpa using h), distinctBy]

theorem mem_distinct {xs : List β} {b : β} : b ∈ distinct xs ↔ b ∈ xs := by
  have h := @mem_map_distinctBy β β _ (fun x => x) xs b
  rwa [List.map_id', List.map_id'] at h

theorem nodup_distinct (xs : List β) : (distinct xs).Nodup := by
  have h := nodup_map_distinctBy (fun x => x) xs
  rwa [List.map_id'] at h

theorem distinct_eq_self {xs : List β} (h : xs.Nodup) : distinct xs = xs :=
  distinctBy_eq_self (by rwa [List.map_id'])

/-- The values in the order of first occurrence are those of the first elements. -/
theorem unseenBy_map_eq (f : α → β) (seen : List β) (xs : List α) :
    unseenBy (fun y => y) seen (xs.map f) = (unseenBy f seen xs).map f := by
  fun_induction unseenBy f seen xs with
  | case1 => rfl
  | case2 seen x xs h ih => rw [List.map_cons, unseenBy, if_pos h, ih]
  | case3 seen x xs h ih => rw [List.map_cons, unseenBy, if_neg h, ih, List.map_cons]

/-- The distinct values of elements are those of the elements that are kept. -/
theorem distinct_map_eq (f : α → β) (xs : List α) : distinct (xs.map f) = (distinctBy f xs).map f :=
  unseenBy_map_eq f [] xs

/-- A renaming that keeps elements apart keeps the order of first occurrence. -/
theorem unseenBy_map {α γ : Type} [DecidableEq α] [DecidableEq γ] {g : α → γ} (seen : List α)
    {xs : List α} (hg : ∀ x ∈ xs, ∀ y, g y = g x → y = x) :
    unseenBy (fun z => z) (seen.map g) (xs.map g) = (unseenBy (fun y => y) seen xs).map g := by
  fun_induction unseenBy (fun y => y) seen xs with
  | case1 => rfl
  | case2 seen x xs h ih =>
    rw [List.map_cons, unseenBy, if_pos (List.mem_map_of_mem h)]
    exact ih fun y hy => hg y (List.mem_cons_of_mem _ hy)
  | case3 seen x xs h ih =>
    have hnew : g x ∉ seen.map g := by
      intro hmem
      rcases List.mem_map.1 hmem with ⟨y, hy, heq⟩
      exact h (hg x (List.mem_cons_self ..) y heq ▸ hy)
    rw [List.map_cons, unseenBy, if_neg hnew, List.map_cons]
    exact congrArg _ (ih fun y hy => hg y (List.mem_cons_of_mem _ hy))

/-- An injection can be applied before or after. -/
theorem distinct_map {α γ : Type} [DecidableEq α] [DecidableEq γ] {g : α → γ} {xs : List α}
    (hg : ∀ x ∈ xs, ∀ y, g y = g x → y = x) : distinct (xs.map g) = (distinct xs).map g :=
  unseenBy_map [] hg

end SleighForge
