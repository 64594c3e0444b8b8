import Mathlib.Data.List.Basic

/-!
# Lists of pairs

A list of pairs is read as a map from the first components, where the first pair with a key counts.
-/

namespace SleighForge

/-- Where no key is there twice, all entries are found. -/
theorem lookup_eq_some_iff_mem {α β : Type} [DecidableEq α] {l : List (α × β)}
    (h : (l.map Prod.fst).Nodup) {a : α} {b : β} : l.lookup a = some b ↔ (a, b) ∈ l := by
  induction l with
  | nil => simp
  | cons entry l ih =>
    rcases entry with ⟨a', b'⟩
    rw [List.map_cons, List.nodup_cons] at h
    rw [List.lookup_cons, List.mem_cons, Prod.mk.injEq]
    by_cases ha : a = a'
    · subst ha
      have hnone : (a, b) ∉ l := fun hmem => h.1 (List.mem_map.2 ⟨(a, b), hmem, rfl⟩)
      simp [hnone, eq_comm]
    · have hbeq : (a == a') = false := beq_eq_false_iff_ne.2 ha
      simp [hbeq, ha, ih h.2]

theorem lookup_append_of_some {α β : Type} [BEq α] {l : List (α × β)} {a : α} {b : β}
    (h : l.lookup a = some b) (more : List (α × β)) : (l ++ more).lookup a = some b := by
  rw [List.lookup_append, h]
  rfl

theorem isSome_lookup_append_self {α β : Type} [BEq α] [ReflBEq α] (l : List (α × β)) (a : α)
    (b : β) : ((l ++ [(a, b)]).lookup a).isSome := by
  simp [List.lookup_append]

/-- A value is found under its key if no other value has that key. -/
theorem lookup_map_of_nodup {α β γ : Type} [DecidableEq β] {key : α → β} {value : α → γ}
    {xs : List α} (h : (xs.map key).Nodup) {x : α} (hx : x ∈ xs) :
    (xs.map fun x => (key x, value x)).lookup (key x) = some (value x) := by
  have hkeys : (xs.map fun x => (key x, value x)).map Prod.fst = xs.map key := by
    rw [List.map_map]
    rfl
  rw [lookup_eq_some_iff_mem (hkeys ▸ h)]
  exact List.mem_map.2 ⟨x, hx, rfl⟩

end SleighForge
