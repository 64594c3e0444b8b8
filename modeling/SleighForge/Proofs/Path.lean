import Mathlib.Data.List.Basic
import SleighForge.Path

/-!
# Paths and their texts

The text of a path is read step by step. Its steps are the parts of the path, but for some at the
start that lead nowhere (`Path.Plain.steps_eq`), and the text of a path is that of a path above it
with more after it (`Path.toText_above`).
-/

namespace SleighForge

/-! ## Parts of texts -/

theorem slashParts_ne_nil (cs : List Char) : slashParts cs ≠ [] := by
  cases cs with
  | nil => exact List.cons_ne_nil _ _
  | cons c cs =>
    rw [slashParts]
    split
    · exact List.cons_ne_nil _ _
    · split <;> exact List.cons_ne_nil _ _

/-- A slash at the front has nothing before it. -/
theorem slashParts_slash (cs : List Char) : slashParts ('/' :: cs) = [] :: slashParts cs := by
  rw [slashParts]
  cases hparts : slashParts cs with
  | nil => exact absurd hparts (slashParts_ne_nil cs)
  | cons part parts => rfl

/-- The parts of a path are what is between its slashes. -/
theorem slashParts_eq_splitOn (cs : List Char) : slashParts cs = cs.splitOn '/' := by
  induction cs with
  | nil => rfl
  | cons c cs ih =>
    rw [slashParts, List.splitOn, List.splitOnP_cons_eq_if_modifyHead, ← List.splitOn, ← ih]
    cases hparts : slashParts cs with
    | nil => exact absurd hparts (slashParts_ne_nil cs)
    | cons part parts => simp

/-- Parts of a path have no slashes. -/
theorem slash_not_mem_slashParts {cs part : List Char} (h : part ∈ slashParts cs) :
    '/' ∉ part := by
  induction cs generalizing part with
  | nil =>
    rw [slashParts, List.mem_singleton] at h
    exact h ▸ List.not_mem_nil
  | cons c cs ih =>
    by_cases hc : c = '/'
    · subst hc
      rw [slashParts_slash, List.mem_cons] at h
      rcases h with rfl | h
      · exact List.not_mem_nil
      · exact ih h
    · rw [slashParts] at h
      cases hparts : slashParts cs with
      | nil => exact absurd hparts (slashParts_ne_nil cs)
      | cons head parts =>
        rw [hparts] at h ih
        simp only [hc, if_false, List.mem_cons] at h
        rcases h with rfl | h
        · have hhead := ih (List.mem_cons_self ..)
          exact List.not_mem_cons_of_ne_of_not_mem (Ne.symm hc) hhead
        · exact ih (List.mem_cons_of_mem _ h)

theorem slashParts_of_not_mem {cs : List Char} (h : '/' ∉ cs) : slashParts cs = [cs] := by
  have hone : ['/'].intercalate [cs] = cs := List.intercalate_singleton
  rw [slashParts_eq_splitOn, ← hone]
  refine (List.splitOn_intercalate '/' ?_ (List.cons_ne_nil _ _)).trans (by rw [hone])
  intro part hpart
  exact List.mem_singleton.1 hpart ▸ h

/-- Parts that are joined with slashes can be told apart again. -/
theorem slashParts_intercalate {parts : List String} (hne : parts ≠ [])
    (h : ∀ part ∈ parts, '/' ∉ part.toList) :
    (slashParts ("/".intercalate parts).toList).map String.ofList = parts := by
  have hsplit : slashParts ("/".intercalate parts).toList = parts.map String.toList := by
    rw [slashParts_eq_splitOn, String.toList_intercalate]
    exact List.splitOn_intercalate '/' (List.forall_mem_map.2 h) (by simpa using hne)
  rw [hsplit, List.map_map]
  exact List.map_id'' (fun part => String.ofList_toList) parts

/-- The text of the first parts is what the text of all begins with. -/
theorem exists_intercalate_append (xs ys : List String) :
    ∃ rest, "/".intercalate (xs ++ ys) = "/".intercalate xs ++ rest := by
  -- On the first list: what follows it begins with a slash, unless one of the lists is empty.
  induction xs with
  | nil => exact ⟨"/".intercalate ys, by simp⟩
  | cons x xs ih =>
    cases xs with
    | nil =>
      cases ys with
      | nil => exact ⟨"", by simp⟩
      | cons y ys =>
        refine ⟨"/" ++ "/".intercalate (y :: ys), ?_⟩
        rw [List.cons_append, List.nil_append, String.intercalate_cons_cons, String.append_assoc]
        simp
    | cons x' xs =>
      obtain ⟨rest, hrest⟩ := ih
      refine ⟨rest, ?_⟩
      rw [List.cons_append, List.cons_append, String.intercalate_cons_cons,
        String.intercalate_cons_cons, ← List.cons_append, hrest, String.append_assoc]
      simp only [String.append_assoc]

/-! ## Paths -/

namespace Path

/-- The path is one as texts are read: its root is one of three, and its parts are names. -/
structure Plain (p : Path) : Prop where
  root : p.root = "" ∨ p.root = "/" ∨ p.root = "//"
  parts : ∀ part ∈ p.parts, part ≠ "" ∧ '/' ∉ part.toList

/-- The path without its last part. -/
def parent (p : Path) : Path :=
  ⟨p.root, p.parts.dropLast⟩

/-- The steps of the text of the path. -/
def steps (p : Path) : List String :=
  (slashParts p.toText.toList).map String.ofList

/-- A path that is read from a text is plain. -/
theorem plain_ofText (s : String) : (ofText s).Plain where
  root := by
    unfold ofText rootOf
    dsimp only
    split
    · exact .inl rfl
    · exact .inr (.inr rfl)
    · exact .inr (.inl rfl)
  parts part hpart := by
    obtain ⟨hmem, hkept⟩ := List.mem_filter.1 hpart
    obtain ⟨cs, hcs, rfl⟩ := List.mem_map.1 hmem
    refine ⟨(of_decide_eq_true hkept).1, ?_⟩
    rw [String.toList_ofList]
    exact slash_not_mem_slashParts hcs

/-- A name without slashes is a path of one part. -/
theorem ofText_name {name : String} (hslash : '/' ∉ name.toList) (hempty : name ≠ "")
    (hdot : name ≠ ".") : ofText name = ⟨"", [name]⟩ := by
  have hroot : rootOf name.toList = "" := by
    unfold rootOf
    cases hname : name.toList with
    | nil => rfl
    | cons c cs =>
      have hc : c ≠ '/' := by
        rintro rfl
        exact hslash (hname ▸ List.mem_cons_self ..)
      simp [hc]
  unfold ofText
  rw [hroot, slashParts_of_not_mem hslash]
  simp [hempty, hdot]

variable {p q : Path}

/-- A plain path can be extended by names. -/
theorem Plain.append {more : List String} (h : p.Plain)
    (hmore : ∀ part ∈ more, part ≠ "" ∧ '/' ∉ part.toList) :
    (Path.mk p.root (p.parts ++ more)).Plain := by
  refine ⟨h.root, fun part hpart => ?_⟩
  rcases List.mem_append.1 hpart with hpart | hpart
  · exact h.parts part hpart
  · exact hmore part hpart

theorem Plain.join (hp : p.Plain) (hq : q.Plain) : (p.join q).Plain := by
  unfold Path.join
  split
  · exact hp.append hq.parts
  · exact hq

/-- The text begins with a slash if the path has a root. -/
theorem Plain.head?_toText (h : p.Plain) : p.toText.toList.head? = some '/' ↔ p.root ≠ "" := by
  obtain ⟨root, parts⟩ := p
  rcases h.root with hroot | hroot | hroot
  all_goals
    dsimp only at hroot
    subst hroot
  · cases parts with
    | nil => simp [toText]
    | cons part parts =>
      obtain ⟨hne, hslash⟩ := h.parts part (List.mem_cons_self ..)
      -- The first character is that of the first part, which has one.
      cases hpart : part.toList with
      | nil => exact absurd (String.toList_eq_nil_iff.1 hpart) hne
      | cons c cs =>
        have hc : c ≠ '/' := by
          rintro rfl
          exact hslash (hpart ▸ List.mem_cons_self ..)
        cases parts with
        | nil => simp [toText, hpart, hc]
        | cons part' parts => simp [toText, String.intercalate_cons_cons, hpart, hc]
  · simp [toText]
  · simp [toText]

theorem Plain.toText_ne_empty (h : p.Plain) : p.toText ≠ "" := by
  obtain ⟨root, parts⟩ := p
  unfold toText
  intro hempty
  split at hempty
  · revert hempty
    decide
  · next hsome =>
    obtain ⟨hroot, hparts⟩ := String.append_eq_empty_iff.1 hempty
    cases parts with
    | nil => exact hsome ⟨hroot, rfl⟩
    | cons part parts =>
      obtain ⟨rest, hrest⟩ := exists_intercalate_append [part] parts
      rw [← List.singleton_append, hrest] at hparts
      have hpart := (String.append_eq_empty_iff.1 hparts).1
      exact (h.parts part (List.mem_cons_self ..)).1 (by simpa using hpart)

/-- The steps are the parts, after some that lead nowhere. -/
theorem Plain.steps_eq (h : p.Plain) :
    ∃ lead, p.steps = lead ++ p.parts ∧ ∀ s ∈ lead, s = "" ∨ s = "." := by
  obtain ⟨root, parts⟩ := p
  have hslashes (part : String) (hpart : part ∈ parts) : '/' ∉ part.toList :=
    (h.parts part hpart).2
  by_cases hparts : parts = []
  · subst hparts
    refine ⟨steps ⟨root, []⟩, (List.append_nil _).symm, ?_⟩
    rcases h.root with hroot | hroot | hroot
    all_goals
      dsimp only at hroot
      subst hroot
      decide
  · have hsteps := slashParts_intercalate hparts hslashes
    have htext : toText ⟨root, parts⟩ = root ++ "/".intercalate parts := by simp [toText, hparts]
    -- A root of none, one or two slashes leaves as many empty steps in front.
    rcases h.root with hroot | hroot | hroot
    all_goals
      dsimp only at hroot
      subst hroot
      unfold steps
      rw [htext, String.toList_append]
    · exact ⟨[], by simpa using hsteps, nofun⟩
    · refine ⟨[""], ?_, by simp⟩
      show List.map _ (slashParts ('/' :: ("/".intercalate parts).toList)) = _
      rw [slashParts_slash, List.map_cons, hsteps]
      rfl
    · refine ⟨["", ""], ?_, by simp⟩
      show List.map _ (slashParts ('/' :: '/' :: ("/".intercalate parts).toList)) = _
      rw [slashParts_slash, slashParts_slash, List.map_cons, List.map_cons, hsteps]
      rfl

/-- The text of a path begins with that of a path above it, which may be a single dot. -/
theorem toText_above (root : String) (xs ys : List String) :
    toText ⟨root, xs⟩ = "." ∨ ∃ rest, toText ⟨root, xs ++ ys⟩ = toText ⟨root, xs⟩ ++ rest := by
  by_cases hdot : root = "" ∧ xs = []
  · exact .inl (if_pos hdot)
  · obtain ⟨rest, hrest⟩ := exists_intercalate_append xs ys
    have hmore : ¬ (root = "" ∧ xs ++ ys = []) := by
      rintro ⟨hroot, hnil⟩
      exact hdot ⟨hroot, (List.append_eq_nil_iff.1 hnil).1⟩
    refine .inr ⟨rest, ?_⟩
    rw [toText, toText, if_neg hdot, if_neg hmore, hrest, String.append_assoc]

end Path

end SleighForge
