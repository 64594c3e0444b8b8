import SleighForge.FileTree
import SleighForge.Proofs.Path

/-!
# Files and directories

What a path leads to in a tree is found step by step (`FileTree.walk`). Making directories and
writing files keep what is there (`FileTree.Keeps`), so a path leads where it led. Directories are
made without a file (`FileTree.run_makeDirectories`), and a written file is the only one that is new
(`FileTree.HasFiles.put_file`).
-/

namespace SleighForge

theorem lookup_filter_ne {α β : Type} [BEq α] [LawfulBEq α] [DecidableEq α] (xs : List (α × β))
    (a b : α) : (xs.filter (·.1 ≠ a)).lookup b = if b = a then none else xs.lookup b := by
  induction xs with
  | nil => simp
  | cons x xs ih =>
    obtain ⟨key, value⟩ := x
    by_cases hkey : key = a
    · subst hkey
      rw [List.filter_cons_of_neg (by simp), ih, List.lookup_cons]
      by_cases hb : b = key
      · rw [if_pos hb, if_pos hb]
      · simp only [if_neg hb, beq_false_of_ne hb]
    · rw [List.filter_cons_of_pos (by simpa using hkey), List.lookup_cons, List.lookup_cons, ih]
      by_cases hb : b = key
      · subst hb
        simp only [BEq.rfl, if_neg hkey]
      · simp only [beq_false_of_ne hb]

namespace FileTree

variable {t t' t'' : FileTree} {here place place' : Place} {text : String} {steps : List String}

/-! ## Entries -/

/-- The directories above the working directory are always there. -/
theorem lookup_of_prefix (h : place.isPrefixOf t.workingDirectory = true) :
    t.lookup place = some .directory :=
  if_pos h

/-- A new entry is found at its place, and all others where they were. -/
theorem lookup_put (t : FileTree) (place : Place) (entry : FileEntry) (q : Place) :
    (t.put place entry).lookup q =
      if q.isPrefixOf t.workingDirectory then some .directory
      else if q = place then some entry else t.lookup q := by
  unfold lookup put
  dsimp only
  by_cases hprefix : q.isPrefixOf t.workingDirectory = true
  · rw [if_pos hprefix, if_pos hprefix]
  · rw [if_neg hprefix, if_neg hprefix, if_neg hprefix, List.lookup_append, lookup_filter_ne]
    by_cases hq : q = place
    · simp [hq]
    · rw [if_neg hq, if_neg hq, List.lookup_cons, beq_false_of_ne hq]
      exact Option.or_none

theorem lookup_put_self (h : t.lookup place ≠ some .directory) (entry : FileEntry) :
    (t.put place entry).lookup place = some entry := by
  have hprefix := mt lookup_of_prefix h
  rw [lookup_put, if_neg hprefix, if_pos rfl]

theorem lookup_put_ne {entry : FileEntry} (h : place' ≠ place) :
    (t.put place entry).lookup place' = t.lookup place' := by
  rw [lookup_put, if_neg h]
  by_cases hprefix : place'.isPrefixOf t.workingDirectory = true
  · rw [if_pos hprefix, lookup_of_prefix hprefix]
  · rw [if_neg hprefix]

/-- Where there is no directory, there is none after a file was put somewhere. -/
theorem lookup_put_file_ne {data : ByteArray} (h : t.lookup place ≠ some .directory)
    (h' : t.lookup place' ≠ some .directory) :
    (t.put place (.file data)).lookup place' ≠ some .directory := by
  by_cases hsame : place' = place
  · rw [hsame, lookup_put_self h]
    exact nofun
  · rw [lookup_put_ne hsame]
    exact h'

/-- What is in the first tree is in the second. -/
structure Keeps (t t' : FileTree) : Prop where
  workingDirectory : t'.workingDirectory = t.workingDirectory
  directory : ∀ place, t.lookup place = some .directory → t'.lookup place = some .directory
  present : ∀ place, (t.lookup place).isSome = true → (t'.lookup place).isSome = true

namespace Keeps

theorem refl (t : FileTree) : Keeps t t :=
  ⟨rfl, fun _ h => h, fun _ h => h⟩

theorem trans (h : Keeps t t') (h' : Keeps t' t'') : Keeps t t'' :=
  ⟨h'.workingDirectory.trans h.workingDirectory,
    fun place hplace => h'.directory place (h.directory place hplace),
    fun place hplace => h'.present place (h.present place hplace)⟩

/-- An entry that comes in the place of none, or of a file, takes nothing away. -/
theorem put (h : t.lookup place ≠ some .directory) (entry : FileEntry) :
    Keeps t (t.put place entry) where
  workingDirectory := rfl
  directory q hq := by
    have hne : q ≠ place := by
      rintro rfl
      exact h hq
    rw [lookup_put_ne hne, hq]
  present q hq := by
    by_cases hqp : q = place
    · rw [hqp, lookup_put_self h]
      rfl
    · rw [lookup_put_ne hqp, hq]

end Keeps

/-! ## Paths -/

/-- A name that a directory can have. -/
structure IsName (name : String) : Prop where
  ne_empty : name ≠ ""
  ne_dot : name ≠ "."
  ne_dots : name ≠ ".."
  short : name.utf8ByteSize ≤ maxNameBytes

/-- A path text that is not refused for itself. -/
structure Readable (text : String) : Prop where
  null_not_mem : '\x00' ∉ text.toList
  ne_empty : text ≠ ""
  short : text.utf8ByteSize ≤ maxPathBytes

/-- Where a path starts. -/
def origin (t : FileTree) (text : String) : Place :=
  if text.toList.head? = some '/' then [] else t.workingDirectory

/-- A path begins at a directory. -/
theorem lookup_origin (t : FileTree) (text : String) :
    t.lookup (t.origin text) = some .directory := by
  unfold origin
  split
  · exact lookup_of_prefix rfl
  · exact lookup_of_prefix (List.isPrefixOf_iff_prefix.2 (List.prefix_refl _))

theorem Keeps.origin_eq (h : Keeps t t') (text : String) : t'.origin text = t.origin text := by
  rw [origin, origin, h.workingDirectory]

/-- A path that can be read is walked from its origin, part by part. -/
theorem start_eq_ok_iff {x : Place × List String} :
    t.start text = .ok x ↔
      Readable text ∧ x = (t.origin text, (slashParts text.toList).map String.ofList) := by
  unfold start
  by_cases hnull : '\x00' ∈ text.toList
  · have hrefused : ¬ Readable text := fun h => h.null_not_mem hnull
    rw [if_pos (List.contains_iff_mem.2 hnull)]
    exact ⟨nofun, fun h => absurd h.1 hrefused⟩
  · rw [if_neg (mt List.contains_iff_mem.1 hnull)]
    by_cases hempty : text = ""
    · have hrefused : ¬ Readable text := fun h => h.ne_empty hempty
      rw [if_pos (String.isEmpty_iff.2 hempty)]
      exact ⟨nofun, fun h => absurd h.1 hrefused⟩
    · rw [if_neg (mt String.isEmpty_iff.1 hempty)]
      by_cases hlong : maxPathBytes < text.utf8ByteSize
      · have hrefused : ¬ Readable text := fun h => absurd h.short (Nat.not_le.2 hlong)
        rw [if_pos hlong]
        exact ⟨nofun, fun h => absurd h.1 hrefused⟩
      · have hreadable : Readable text := ⟨hnull, hempty, Nat.not_lt.1 hlong⟩
        rw [if_neg hlong, Except.ok.injEq, and_iff_right hreadable, eq_comm]
        rfl

/-- A walk can be made in two parts. -/
theorem walk_append (t : FileTree) (here : Place) (steps more : List String) :
    t.walk here (steps ++ more) = (t.walk here steps).bind (t.walk · more) := by
  induction steps generalizing here with
  | nil => rfl
  | cons step steps ih =>
    rw [List.cons_append, walk, walk]
    split
    · rfl
    · split
      · exact ih here
      · split
        · exact ih here.dropLast
        · split
          · rfl
          · split
            · rfl
            · exact ih (here ++ [step])

theorem walk_append_eq_ok_iff {more : List String} : t.walk here (steps ++ more) = .ok place ↔
    ∃ q, t.walk here steps = .ok q ∧ t.walk q more = .ok place := by
  rw [walk_append]
  cases t.walk here steps <;> simp [Except.bind]

/-- Empty steps and single dots lead nowhere. -/
theorem walk_lead {lead : List String} (hhere : t.lookup here = some .directory)
    (hlead : ∀ s ∈ lead, s = "" ∨ s = ".") : t.walk here (lead ++ steps) = t.walk here steps := by
  induction lead with
  | nil => rfl
  | cons s lead ih =>
    rw [List.cons_append, walk, if_neg (not_not.2 hhere), if_pos (hlead s (List.mem_cons_self ..))]
    exact ih fun s hs => hlead s (List.mem_cons_of_mem _ hs)

/-- A name leads from a directory to what it has under that name. -/
theorem walk_name {name : String} (hname : IsName name) : t.walk here [name] = .ok place ↔
    t.lookup here = some .directory ∧ (t.lookup (here ++ [name])).isSome = true ∧
      place = here ++ [name] := by
  rw [walk]
  by_cases hhere : t.lookup here = some .directory
  · rw [if_neg (not_not.2 hhere), if_neg (by simp [hname.ne_empty, hname.ne_dot]),
      if_neg hname.ne_dots, if_neg (Nat.not_lt.2 hname.short), walk]
    cases t.lookup (here ++ [name]) with
    | none => simp
    | some entry => simp [hhere, eq_comm]
  · simp [hhere]

/-- A walk goes well in every tree that keeps what it passes. -/
theorem Keeps.walk (h : Keeps t t') (hwalk : t.walk here steps = .ok place) :
    t'.walk here steps = .ok place := by
  -- Each test the walk passes in the one tree it passes in the other, which keeps the directories.
  induction steps generalizing here with
  | nil => exact hwalk
  | cons step steps ih =>
    rw [FileTree.walk] at hwalk ⊢
    split at hwalk
    · cases hwalk
    · next hhere =>
      rw [if_neg (not_not.2 (h.directory here (not_not.1 hhere)))]
      split at hwalk
      · next hdot => rw [if_pos hdot, ih hwalk]
      · next hdot =>
        rw [if_neg hdot]
        split at hwalk
        · next hdots => rw [if_pos hdots, ih hwalk]
        · next hdots =>
          rw [if_neg hdots]
          split at hwalk
          · cases hwalk
          · next hshort =>
            rw [if_neg hshort]
            split at hwalk
            · cases hwalk
            · next hnone =>
              have hsome : (t.lookup (here ++ [step])).isSome = true := by
                rwa [Bool.not_eq_true, Option.isNone_eq_false_iff] at hnone
              rw [if_neg, ih hwalk]
              rw [Bool.not_eq_true, Option.isNone_eq_false_iff]
              exact h.present _ hsome

/-- A path leads to a place if it can be read and walked. -/
theorem resolve_eq_ok_iff : t.resolve text = .ok place ↔
    Readable text ∧
      t.walk (t.origin text) ((slashParts text.toList).map String.ofList) = .ok place := by
  unfold resolve
  cases hstart : t.start text with
  | error fault =>
    have hrefused : ¬ Readable text := by
      intro h
      rw [start_eq_ok_iff.2 ⟨h, rfl⟩] at hstart
      cases hstart
    constructor
    · intro h
      cases h
    · intro h
      exact absurd h.1 hrefused
  | ok x =>
    obtain ⟨hreadable, rfl⟩ := start_eq_ok_iff.1 hstart
    exact (and_iff_right hreadable).symm

/-- A path leads to the same place in every tree that keeps what it passes. -/
theorem Keeps.resolve (h : Keeps t t') (hresolve : t.resolve text = .ok place) :
    t'.resolve text = .ok place := by
  obtain ⟨hreadable, hwalk⟩ := resolve_eq_ok_iff.1 hresolve
  refine resolve_eq_ok_iff.2 ⟨hreadable, ?_⟩
  rw [h.origin_eq]
  exact h.walk hwalk

/-- Up to its last part a path leads into a directory, if this part is a name. -/
theorem resolveParent_eq_ok_iff {name : String} :
    t.resolveParent text = .ok (here, some name) ↔
      Readable text ∧ ∃ steps, (slashParts text.toList).map String.ofList = steps ++ [name] ∧
        t.walk (t.origin text) steps = .ok here ∧ t.lookup here = some .directory ∧
        IsName name := by
  unfold resolveParent
  cases hstart : t.start text with
  | error fault =>
    have hrefused : ¬ Readable text := by
      intro h
      rw [start_eq_ok_iff.2 ⟨h, rfl⟩] at hstart
      cases hstart
    exact ⟨nofun, fun h => absurd h.1 hrefused⟩
  | ok x =>
    obtain ⟨hreadable, rfl⟩ := start_eq_ok_iff.1 hstart
    rw [and_iff_right hreadable]
    generalize (slashParts text.toList).map String.ofList = all
    dsimp only [bind, Except.bind, throw, throwThe, MonadExceptOf.throw, pure, Except.pure]
    constructor
    · -- Each refusal is one `cases h`, and the guards that are left are the clauses.
      intro h
      cases hwalk : t.walk (t.origin text) all.dropLast with
      | error fault =>
        rw [hwalk] at h
        cases h
      | ok parent =>
        rw [hwalk] at h
        dsimp only at h
        by_cases hdir : t.lookup parent = some .directory
        · rw [if_neg (not_not.2 hdir)] at h
          cases hlast : all.getLast? with
          | none =>
            rw [hlast] at h
            cases h
          | some last =>
            rw [hlast] at h
            dsimp only at h
            by_cases hdots : last = "" ∨ last = "." ∨ last = ".."
            · rw [if_pos hdots] at h
              cases h
            · rw [if_neg hdots] at h
              by_cases hlong : maxNameBytes < last.utf8ByteSize
              · rw [if_pos hlong] at h
                cases h
              · rw [if_neg hlong] at h
                cases h
                obtain ⟨hempty, hdot, hdots⟩ := by simpa only [not_or] using hdots
                exact ⟨all.dropLast, (List.dropLast_append_getLast? name hlast).symm, hwalk, hdir,
                  hempty, hdot, hdots, Nat.not_lt.1 hlong⟩
        · rw [if_pos hdir] at h
          cases h
    · rintro ⟨steps, rfl, hwalk, hdir, hname⟩
      have hdots : ¬ (name = "" ∨ name = "." ∨ name = "..") := by
        rintro (h | h | h)
        · exact hname.ne_empty h
        · exact hname.ne_dot h
        · exact hname.ne_dots h
      rw [List.dropLast_concat, hwalk]
      dsimp only
      rw [if_neg (not_not.2 hdir), List.getLast?_concat]
      dsimp only
      rw [if_neg hdots, if_neg (Nat.not_lt.2 hname.short)]

/-! ## Plain paths -/

variable {p : Path}

/-- If a path can be read, so can the paths above it. -/
theorem readable_above {more : List String} (hp : p.Plain)
    (h : Readable (Path.toText ⟨p.root, p.parts ++ more⟩)) : Readable p.toText := by
  rcases Path.toText_above p.root p.parts more with hdot | ⟨rest, hrest⟩
  · change Readable (Path.toText ⟨p.root, p.parts⟩)
    rw [hdot]
    exact ⟨by decide, by decide, by decide⟩
  · refine ⟨fun hnull => h.null_not_mem ?_, hp.toText_ne_empty, ?_⟩
    · rw [hrest, String.toList_append]
      exact List.mem_append_left _ hnull
    · have hshort := h.short
      rw [hrest, String.utf8ByteSize_append] at hshort
      exact Nat.le_trans (Nat.le_add_right ..) hshort

/-- A plain path leads where its parts lead. -/
theorem resolve_toText_iff (hp : p.Plain) : t.resolve p.toText = .ok place ↔
    Readable p.toText ∧ t.walk (t.origin p.toText) p.parts = .ok place := by
  obtain ⟨lead, hsteps, hlead⟩ := hp.steps_eq
  rw [resolve_eq_ok_iff, ← Path.steps, hsteps, walk_lead (t.lookup_origin _) hlead]

/-- A plain path starts from the root or from the working directory, as its own root says. -/
theorem origin_toText (hp : p.Plain) (t : FileTree) :
    t.origin p.toText = if p.root = "" then t.workingDirectory else [] := by
  unfold origin
  by_cases hroot : p.root = ""
  · rw [if_pos hroot, if_neg fun h => hp.head?_toText.1 h hroot]
  · rw [if_neg hroot, if_pos (hp.head?_toText.2 hroot)]

/-- The directory of a path is where the path without its last part leads. -/
theorem resolveParent_toText {root last name : String} {parts : List String}
    (hp : (Path.mk root (parts ++ [last])).Plain)
    (h : t.resolveParent (Path.toText ⟨root, parts ++ [last]⟩) = .ok (here, some name)) :
    name = last ∧ t.walk (t.origin (Path.toText ⟨root, parts ++ [last]⟩)) parts = .ok here := by
  obtain ⟨lead, hsteps, hlead⟩ := hp.steps_eq
  obtain ⟨-, steps, hsteps', hwalk, -⟩ := resolveParent_eq_ok_iff.1 h
  rw [← Path.steps, hsteps, ← List.append_assoc] at hsteps'
  obtain ⟨rfl, hlast⟩ := List.append_inj' hsteps' rfl
  rw [walk_lead (t.lookup_origin _) hlead] at hwalk
  exact ⟨(List.singleton_inj.1 hlast).symm, hwalk⟩

/-! ## Operations -/

/-- A directory is made where its parent is there and nothing else is. -/
theorem makeDirectory_eq_ok_iff : t.makeDirectory text = .ok t' ↔
    ∃ here name, t.resolveParent text = .ok (here, some name) ∧
      t.lookup (here ++ [name]) = none ∧ t' = t.put (here ++ [name]) .directory := by
  unfold makeDirectory
  cases hparent : t.resolveParent text with
  | error fault => exact ⟨nofun, nofun⟩
  | ok x =>
    obtain ⟨here, _ | name⟩ := x
    · exact ⟨nofun, nofun⟩
    · show (if (t.lookup (here ++ [name])).isSome then _ else _) = _ ↔ _
      cases hlookup : t.lookup (here ++ [name]) with
      | none =>
        constructor
        · rintro ⟨⟩
          exact ⟨here, name, rfl, hlookup, rfl⟩
        · rintro ⟨_, _, ⟨⟩, -, rfl⟩
          rfl
      | some entry =>
        constructor
        · rintro ⟨⟩
        · rintro ⟨_, _, ⟨⟩, hnone, -⟩
          rw [hlookup] at hnone
          cases hnone

/-- A file can be written at a path, and comes to the place. -/
def Takes (t : FileTree) (text : String) (place : Place) : Prop :=
  ∃ here name, t.resolveParent text = .ok (here, some name) ∧ here ++ [name] = place ∧
    t.lookup place ≠ some .directory

/-- A file is written to a place that takes it, and nothing else happens. -/
theorem write_eq_ok_iff {data : String} : t.write text data = .ok t' ↔
    ∃ place, t.Takes text place ∧ t' = t.put place (.file data.toUTF8) := by
  unfold write
  cases hparent : t.resolveParent text with
  | error fault =>
    constructor
    · rintro ⟨⟩
    · rintro ⟨place, ⟨_, _, h, -⟩, -⟩
      rw [hparent] at h
      cases h
  | ok x =>
    obtain ⟨here, _ | name⟩ := x
    · constructor
      · rintro ⟨⟩
      · rintro ⟨place, ⟨_, _, h, -⟩, -⟩
        rw [hparent] at h
        cases h
    · show (if t.lookup (here ++ [name]) = some .directory then _ else _) = _ ↔ _
      by_cases hdir : t.lookup (here ++ [name]) = some .directory
      · rw [if_pos hdir]
        constructor
        · rintro ⟨⟩
        · rintro ⟨_, ⟨_, _, h, rfl, hplace⟩, -⟩
          rw [hparent] at h
          cases h
          exact absurd hdir hplace
      · rw [if_neg hdir]
        constructor
        · rintro ⟨⟩
          exact ⟨_, ⟨here, name, hparent, rfl, hdir⟩, rfl⟩
        · rintro ⟨_, ⟨_, _, h, rfl, -⟩, rfl⟩
          rw [hparent] at h
          cases h
          rfl

/-- Where a file can be written there is no directory. -/
theorem Takes.lookup_ne (h : t.Takes text place) : t.lookup place ≠ some .directory := by
  obtain ⟨-, -, -, -, hplace⟩ := h
  exact hplace

theorem Takes.write (h : t.Takes text place) (data : String) :
    t.write text data = .ok (t.put place (.file data.toUTF8)) :=
  write_eq_ok_iff.2 ⟨place, h, rfl⟩

/-- A path takes a file also after a file has been written elsewhere. -/
theorem Takes.put_file {text' : String} (h : t.Takes text place) (h' : t.Takes text' place')
    (data : ByteArray) : (t.put place' (.file data)).Takes text place := by
  obtain ⟨here, name, hparent, rfl, hplace⟩ := h
  obtain ⟨-, -, -, -, hplace'⟩ := h'
  have hkeeps : Keeps t (t.put place' (.file data)) := .put hplace' _
  obtain ⟨hreadable, steps, hsteps, hwalk, hdir, hname⟩ := resolveParent_eq_ok_iff.1 hparent
  refine ⟨here, name, resolveParent_eq_ok_iff.2 ⟨hreadable, steps, hsteps, ?_, ?_, hname⟩, rfl, ?_⟩
  · rw [hkeeps.origin_eq]
    exact hkeeps.walk hwalk
  · exact hkeeps.directory here hdir
  · exact lookup_put_file_ne hplace' hplace

/-- A file can be written to the path, if its directory is there. -/
def Admits (t : FileTree) (path : Path) : Prop :=
  t.kind? path.parent.toText = some .directory → ∀ data, ∃ t', t.write path.toText data = .ok t'

/-- What is to be written does not matter. -/
theorem admits_iff {path : Path} : t.Admits path ↔
    (t.kind? path.parent.toText = some .directory → (t.write path.toText "").isOk = true) := by
  refine imp_congr_right fun _ => ?_
  constructor
  · intro h
    obtain ⟨t', ht'⟩ := h ""
    rw [ht']
    rfl
  · intro h data
    cases hwrite : t.write path.toText "" with
    | error fault =>
      rw [hwrite] at h
      cases h
    | ok t' =>
      obtain ⟨place, htakes, -⟩ := write_eq_ok_iff.1 hwrite
      exact ⟨_, htakes.write data⟩

instance (path : Path) : Decidable (t.Admits path) :=
  decidable_of_iff _ admits_iff.symm

/-- A path is that of a directory if it leads to one. -/
theorem kind?_eq_directory_iff :
    t.kind? text = some .directory ↔ ∃ place, t.resolve text = .ok place ∧
      t.lookup place = some .directory := by
  unfold kind?
  cases hplace : t.resolve text with
  | error fault => simp
  | ok place =>
    simp only [Except.ok.injEq, exists_eq_left']
    cases t.lookup place with
    | none => simp
    | some entry => cases entry <;> simp

/-- A directory that was made is there. -/
theorem kind?_makeDirectory (h : t.makeDirectory text = .ok t') :
    t'.kind? text = some .directory := by
  obtain ⟨here, name, hparent, hnone, rfl⟩ := makeDirectory_eq_ok_iff.1 h
  obtain ⟨hreadable, steps, hsteps, hwalk, hdir, hname⟩ := resolveParent_eq_ok_iff.1 hparent
  have hplace : t.lookup (here ++ [name]) ≠ some .directory := by
    rw [hnone]
    exact nofun
  have hkeeps : Keeps t (t.put (here ++ [name]) .directory) := .put hplace _
  have hmade := lookup_put_self hplace .directory
  refine kind?_eq_directory_iff.2 ⟨here ++ [name], resolve_eq_ok_iff.2 ⟨hreadable, ?_⟩, hmade⟩
  rw [hsteps, hkeeps.origin_eq, walk_append_eq_ok_iff]
  refine ⟨here, hkeeps.walk hwalk, (walk_name hname).2 ⟨hkeeps.directory here hdir, ?_, rfl⟩⟩
  rw [hmade]
  rfl

/-- A path whose directory is there takes a file in that directory. -/
theorem takes_of_admits {root name : String} {parts : List String}
    (hp : (Path.mk root (parts ++ [name])).Plain)
    (hresolve : t.resolve (Path.toText ⟨root, parts⟩) = .ok here)
    (hdir : t.lookup here = some .directory) (h : t.Admits ⟨root, parts ++ [name]⟩) :
    t.Takes (Path.toText ⟨root, parts ++ [name]⟩) (here ++ [name]) := by
  have habove : (Path.mk root parts).Plain :=
    ⟨hp.root, fun part hpart => hp.parts part (List.mem_append_left _ hpart)⟩
  have hparent : (Path.mk root (parts ++ [name])).parent = ⟨root, parts⟩ := by
    rw [Path.parent, List.dropLast_concat]
  obtain ⟨t', hwrite⟩ := h (hparent ▸ kind?_eq_directory_iff.2 ⟨here, hresolve, hdir⟩) ""
  obtain ⟨place, ⟨there, last, hlast, rfl, hplace⟩, -⟩ := write_eq_ok_iff.1 hwrite
  obtain ⟨rfl, hwalk⟩ := resolveParent_toText hp hlast
  rw [origin_toText hp] at hwalk
  have hwalk' := ((resolve_toText_iff habove).1 hresolve).2
  rw [origin_toText habove, hwalk, Except.ok.injEq] at hwalk'
  exact ⟨there, last, hlast, by rw [hwalk'], hwalk' ▸ hplace⟩

/-! ## Making directories -/

/-- The second tree has what the first has, and no other files. -/
structure Grown (t t' : FileTree) : Prop extends Keeps t t' where
  files : ∀ place data, t'.lookup place = some (.file data) ↔ t.lookup place = some (.file data)

theorem Grown.refl (t : FileTree) : Grown t t :=
  ⟨.refl t, fun _ _ => Iff.rfl⟩

theorem Grown.trans (h : Grown t t') (h' : Grown t' t'') : Grown t t'' :=
  ⟨h.toKeeps.trans h'.toKeeps, fun place data => (h'.files place data).trans (h.files place data)⟩

theorem grown_makeDirectory (h : t.makeDirectory text = .ok t') : Grown t t' := by
  obtain ⟨here, name, -, hnone, rfl⟩ := makeDirectory_eq_ok_iff.1 h
  have hplace : t.lookup (here ++ [name]) ≠ some .directory := by
    rw [hnone]
    exact nofun
  refine ⟨.put hplace _, fun place data => ?_⟩
  by_cases hsame : place = here ++ [name]
  · rw [hsame, lookup_put_self hplace, hnone]
    exact ⟨nofun, nofun⟩
  · rw [lookup_put_ne hsame]

/-- An operation on a tree. -/
def runOn {α : Type} (t : FileTree) (op : StateM FileTree α) : α × FileTree :=
  op.run t

/-- A run of two steps is the run of the second on what the first leaves. -/
theorem runOn_bind {α β : Type} (t : FileTree) (x : StateM FileTree α)
    (f : α → StateM FileTree β) :
    runOn t (x >>= f) = runOn (runOn t x).2 (f (runOn t x).1) :=
  rfl

/-- An attempted change is made in full or not at all. -/
theorem runOn_attempt (t : FileTree) (change : FileTree → Except FileFault FileTree) :
    runOn t (attempt change) =
      match change t with
      | .ok t' => (.ok (), t')
      | .error fault => (.error fault, t) := by
  have hget : runOn t (attempt change) = runOn t (match change t with
      | .ok t' => do set t'; return .ok ()
      | .error fault => return .error fault) := rfl
  rw [hget]
  cases change t <;> rfl

/-- A fault is forgiven where the directory is there. -/
theorem runOn_unlessPresent (t : FileTree) (path : Path) (fault : FileFault) :
    runOn t (FileSystem.unlessPresent path fault) =
      (if t.kind? path.toText = some .directory then .ok () else .error fault, t) := by
  have hkind : runOn t (FileSystem.kind? path.toText) = (t.kind? path.toText, t) := rfl
  unfold FileSystem.unlessPresent
  rw [runOn_bind, hkind]
  rcases t.kind? path.toText with _ | _ | _ <;> rfl

/-- Directories are made: no file comes or goes, and the directory is there if all went well. -/
structure MakesDirectory (t : FileTree) (text : String) (out : Except FileFault Unit × FileTree) :
    Prop where
  grown : Grown t out.2
  made : out.1 = .ok () → out.2.kind? text = some .directory

/-- Where making a directory failed, the directory may be there. -/
theorem makesDirectory_unlessPresent (t : FileTree) (path : Path) (fault : FileFault) :
    MakesDirectory t path.toText (runOn t (FileSystem.unlessPresent path fault)) := by
  rw [runOn_unlessPresent]
  refine ⟨.refl t, fun h => ?_⟩
  split at h
  · assumption
  · cases h

/-- One directory is made in its parent. -/
theorem makesDirectory_here (t : FileTree) (path : Path) :
    MakesDirectory t path.toText (runOn t (FileSystem.makeDirectoryHere path)) := by
  unfold FileSystem.makeDirectoryHere
  have hattempt := runOn_attempt t (·.makeDirectory path.toText)
  rw [runOn_bind, show runOn t (FileSystem.makeDirectory path.toText) = _ from hattempt]
  cases hmake : t.makeDirectory path.toText with
  | ok t' => exact ⟨grown_makeDirectory hmake, fun _ => kind?_makeDirectory hmake⟩
  | error fault =>
    cases fault with
    | notFound => exact ⟨.refl t, nofun⟩
    | _ => exact makesDirectory_unlessPresent t path _

/-- Directories are made from the first one that is missing downwards. -/
theorem makesDirectory_up (t : FileTree) (root : String) (above : List String) :
    MakesDirectory t (Path.toText ⟨root, above.reverse⟩)
      (runOn t (FileSystem.makeDirectoriesUp root above)) := by
  -- On the parts, of which the list has the last first.
  induction above generalizing t with
  | nil => exact makesDirectory_here t _
  | cons part above ih =>
    unfold FileSystem.makeDirectoriesUp
    have hattempt := runOn_attempt t (·.makeDirectory (Path.toText ⟨root, (part :: above).reverse⟩))
    dsimp only
    rw [runOn_bind, show runOn t (FileSystem.makeDirectory _) = _ from hattempt]
    cases hmake : t.makeDirectory (Path.toText ⟨root, (part :: above).reverse⟩) with
    | ok t' => exact ⟨grown_makeDirectory hmake, fun _ => kind?_makeDirectory hmake⟩
    | error fault =>
      cases fault with
      | notFound =>
        dsimp only
        rw [runOn_bind]
        have habove := ih t
        rcases hrun : runOn t (FileSystem.makeDirectoriesUp root above) with ⟨fault | _, t'⟩
        · rw [hrun] at habove
          exact ⟨habove.grown, nofun⟩
        · rw [hrun] at habove
          have hhere := makesDirectory_here t' ⟨root, (part :: above).reverse⟩
          exact ⟨habove.grown.trans hhere.grown, hhere.made⟩
      | _ => exact makesDirectory_unlessPresent t _ _

/-- A directory is made together with those above it. -/
theorem makesDirectory (t : FileTree) (path : Path) :
    MakesDirectory t path.toText (runOn t (FileSystem.makeDirectories path)) := by
  have hup := makesDirectory_up t path.root path.parts.reverse
  rwa [List.reverse_reverse] at hup

/-! ## Files -/

/-- The tree has these files and no others. -/
def HasFiles (t : FileTree) (files : List (Place × ByteArray)) : Prop :=
  ∀ place data, t.lookup place = some (.file data) ↔ (place, data) ∈ files

theorem hasFiles_empty (workingDirectory : Place) : HasFiles ⟨workingDirectory, []⟩ [] := by
  intro place data
  unfold lookup
  split <;> simp

/-- Directories alone are no files. -/
theorem HasFiles.grown {files : List (Place × ByteArray)} (h : t.HasFiles files)
    (hgrown : Grown t t') : t'.HasFiles files :=
  fun place data => (hgrown.files place data).trans (h place data)

/-- Puts files at their places, one after the other. -/
def putFiles (t : FileTree) (files : List (Place × ByteArray)) : FileTree :=
  files.foldl (fun t file => t.put file.1 (.file file.2)) t

/-- Files that replace no directory leave what is there. -/
theorem Keeps.putFiles {files : List (Place × ByteArray)}
    (h : ∀ file ∈ files, t.lookup file.1 ≠ some .directory) : Keeps t (t.putFiles files) := by
  induction files generalizing t with
  | nil => exact .refl t
  | cons file files ih =>
    have hfile := h file (List.mem_cons_self ..)
    refine (Keeps.put hfile (.file file.2)).trans (ih fun other hother => ?_)
    exact lookup_put_file_ne hfile (h other (List.mem_cons_of_mem _ hother))

theorem HasFiles.put_file {files : List (Place × ByteArray)} (h : t.HasFiles files)
    (hplace : t.lookup place ≠ some .directory) (hnew : place ∉ files.map Prod.fst)
    (data : ByteArray) : (t.put place (.file data)).HasFiles (files ++ [(place, data)]) := by
  intro q data'
  rw [List.mem_append, List.mem_singleton, Prod.mk.injEq]
  by_cases hq : q = place
  · subst hq
    have hnone : (q, data') ∉ files := fun hmem => hnew (List.mem_map_of_mem hmem)
    rw [lookup_put_self hplace]
    simp [hnone, eq_comm]
  · rw [lookup_put_ne hq, h q data']
    simp [hq]

/-- New files are added to those that are there. -/
theorem HasFiles.putFiles {files more : List (Place × ByteArray)} (h : t.HasFiles files)
    (hplaces : ∀ file ∈ more, t.lookup file.1 ≠ some .directory)
    (hnodup : ((files ++ more).map Prod.fst).Nodup) :
    (t.putFiles more).HasFiles (files ++ more) := by
  induction more generalizing t files with
  | nil => rwa [List.append_nil]
  | cons file more ih =>
    obtain ⟨place, data⟩ := file
    have hplace := hplaces _ (List.mem_cons_self ..)
    have hnew : place ∉ files.map Prod.fst := by
      intro hmem
      rw [List.map_append, List.nodup_append] at hnodup
      exact hnodup.2.2 place hmem place (List.mem_cons_self ..) rfl
    rw [← List.singleton_append, ← List.append_assoc] at hnodup ⊢
    refine ih (h.put_file hplace hnew data) (fun other hother => ?_) hnodup
    exact lookup_put_file_ne hplace (hplaces other (List.mem_cons_of_mem _ hother))

end FileTree

end SleighForge
