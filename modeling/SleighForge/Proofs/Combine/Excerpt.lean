import SleighForge.Combine.Candidate
import SleighForge.Proofs.Combine.Group
import SleighForge.Proofs.RegisterTable.Twin

/-!
# Excerpts

An excerpt of a list of patterns has twins of those whose width is kept, in order (`Excerpt`). It
has the candidates that the list has for the widths that are kept (`forall₂_all`), and these are
ranked as in the list (`Ranking.Respects`).
-/

namespace SleighForge

/-- The second list has twins of the patterns of the first whose width is kept. -/
structure Excerpt (keep : Nat → Bool) (g : Int → Int) (ts us : Tables)
    (patterns excerpt : List Pattern) : Prop where
  left : ts.Interned
  right : us.Interned
  twins : List.Forall₂ (Pattern.Twin g ts us) (patterns.filter fun p => keep p.width) excerpt

namespace Combine

variable {keep : Nat → Bool} {g : Int → Int} {ts us : Tables} {patterns excerpt : List Pattern}

/-! ## Places -/

/-- The patterns whose width is kept, with their places in the list. -/
def keptPlaces (keep : Nat → Bool) (patterns : List Pattern) : List (Pattern × Nat) :=
  patterns.zipIdx.filter fun x => keep x.1.width

/-- The pattern at a place of the list is the one at a place of the excerpt. -/
def Matches (keep : Nat → Bool) (patterns : List Pattern) (i j : Nat) : Prop :=
  ∃ p, (keptPlaces keep patterns)[j]? = some (p, i)

/-- The kept places are those of the patterns of the kept widths. -/
theorem map_fst_keptPlaces (keep : Nat → Bool) (patterns : List Pattern) :
    (keptPlaces keep patterns).map Prod.fst = patterns.filter fun p => keep p.width := by
  have hmap := List.filter_map (f := Prod.fst) (p := fun p : Pattern => keep p.width)
    (l := patterns.zipIdx)
  rw [List.zipIdx_map_fst] at hmap
  exact hmap.symm

theorem mem_keptPlaces {p : Pattern} {i : Nat} :
    (p, i) ∈ keptPlaces keep patterns ↔ patterns[i]? = some p ∧ keep p.width = true := by
  rw [keptPlaces, List.mem_filter, List.mem_zipIdx_iff_getElem?]

theorem Matches.getElem? {i j : Nat} (h : Matches keep patterns i j) :
    ∃ p, patterns[i]? = some p ∧ keep p.width = true := by
  rcases h with ⟨p, hp⟩
  exact ⟨p, mem_keptPlaces.1 (List.mem_of_getElem? hp)⟩

/-- Places match one to one. -/
theorem matches_biUnique (keep : Nat → Bool) (patterns : List Pattern) :
    Relator.BiUnique (Matches keep patterns) := by
  have hnodup : ((keptPlaces keep patterns).map Prod.snd).Nodup := by
    have hall : (patterns.zipIdx.map Prod.snd).Nodup := by
      rw [List.zipIdx_map_snd]
      exact List.nodup_range'
    exact hall.sublist (List.filter_sublist.map _)
  have hat : ∀ {i j : Nat}, Matches keep patterns i j →
      ((keptPlaces keep patterns).map Prod.snd)[j]? = some i := by
    rintro i j ⟨p, hp⟩
    rw [List.getElem?_map, hp, Option.map_some]
  constructor
  · intro i i' j h h'
    exact Option.some.inj ((hat h).symm.trans (hat h'))
  · intro i j j' h h'
    have heq := (hat h').trans (hat h).symm
    exact ((List.getElem?_inj (List.getElem?_eq_some_iff.1 (hat h')).1 hnodup).1 heq).symm

end Combine

namespace Excerpt

open Combine

variable {keep : Nat → Bool} {g : Int → Int} {ts us : Tables} {patterns excerpt : List Pattern}

/-- Patterns with their places, side by side. -/
theorem places (h : Excerpt keep g ts us patterns excerpt) :
    List.Forall₂ (fun x y => x.1.Twin g ts us y.1 ∧ Matches keep patterns x.2 y.2)
      (keptPlaces keep patterns) excerpt.zipIdx := by
  have htwins := h.twins
  rw [← map_fst_keptPlaces, List.forall₂_map_left_iff] at htwins
  refine List.forall₂_iff_get.2 ⟨by simpa using htwins.length_eq, fun j hj hj' => ?_⟩
  have htwin := (List.forall₂_iff_get.1 htwins).2 j hj (by simpa using hj')
  exact ⟨by simpa using htwin, ((keptPlaces keep patterns)[j]).1, by simp⟩

/-- At matching places there are twins. -/
theorem twin_of_matches (h : Excerpt keep g ts us patterns excerpt) {i j : Nat}
    (hij : Matches keep patterns i j) :
    ∃ p q, patterns[i]? = some p ∧ excerpt[j]? = some q ∧ p.Twin g ts us q ∧
      keep p.width = true := by
  rcases hij with ⟨p, hp⟩
  rcases optionRel_cases (getElem?_rel h.places j) with ⟨hnone, -⟩ | ⟨x, y, hx, hy, htwin, -⟩
  · rw [hp] at hnone
    cases hnone
  · rw [hp, Option.some.injEq] at hx
    subst hx
    have hmem := mem_keptPlaces.1 (List.mem_of_getElem? hp)
    rw [List.getElem?_zipIdx, Option.map_eq_some_iff] at hy
    rcases hy with ⟨q, hq, rfl⟩
    exact ⟨p, q, hmem.1, hq, htwin, hmem.2⟩

/-- The patterns at matching places are twins, one by one. -/
theorem members (h : Excerpt keep g ts us patterns excerpt) {slots slots' : List Nat}
    (hslots : List.Forall₂ (Matches keep patterns) slots slots') :
    List.Forall₂ (Pattern.Twin g ts us) (slots.filterMap (patterns[·]?))
      (slots'.filterMap (excerpt[·]?)) := by
  refine List.rel_filterMap ?_ hslots
  intro i j hij
  rcases h.twin_of_matches hij with ⟨p, q, hp, hq, htwin, -⟩
  dsimp only
  rw [hp, hq]
  exact .some htwin

end Excerpt

namespace Combine

variable {keep : Nat → Bool} {g : Int → Int} {ts us : Tables} {patterns excerpt : List Pattern}

/-! ## Sites -/

/-- The keys are the same up to alike fields. -/
structure KeyTwin (ts us : Tables) (k l : GroupKey) : Prop where
  position : l.position = k.position
  width : l.width = k.width
  mnemonic : l.mnemonic = k.mnemonic
  others : List.Forall₂ (Operand.Alike ts us) k.others l.others
  fields : List.Forall₂ (BitField.Alike ts us) k.fields l.fields

/-- Keys match one to one, since register lists have one id each. -/
theorem keyTwin_biUnique (hts : ts.Interned) (hus : us.Interned) :
    Relator.BiUnique (KeyTwin ts us) := by
  have hops := (Operand.Alike.biUnique hts hus).forall₂
  have hfields := (BitField.Alike.biUnique hts hus).forall₂
  constructor
  · intro k k' l h h'
    rw [GroupKey.mk.injEq]
    exact ⟨h.position.symm.trans h'.position, h.width.symm.trans h'.width,
      h.mnemonic.symm.trans h'.mnemonic, hops.1 h.others h'.others, hfields.1 h.fields h'.fields⟩
  · intro k l l' h h'
    rw [GroupKey.mk.injEq]
    exact ⟨h.position.trans h'.position.symm, h.width.trans h'.width.symm,
      h.mnemonic.trans h'.mnemonic.symm, hops.2 h.others h'.others, hfields.2 h.fields h'.fields⟩

/-- Twins have keys that match. -/
theorem keyOf_twin {p q : Pattern} (h : p.Twin g ts us q) (position : Nat) :
    KeyTwin ts us (Candidate.keyOf p position) (Candidate.keyOf q position) where
  position := rfl
  width := h.width_eq
  mnemonic := h.mnemonic
  others := List.rel_map (fun _ _ hop => hop.bare) (forall₂_eraseIdx h.operands position)
  fields := h.encoding_alike.fields

/-- The sites are the same operand of twins. -/
structure SiteTwin (keep : Nat → Bool) (g : Int → Int) (ts us : Tables) (patterns : List Pattern)
    (s t : Site) : Prop where
  slot : Matches keep patterns s.slot t.slot
  index : t.index = g s.index
  key : KeyTwin ts us s.key t.key
  operand : t.operand = s.operand

theorem holds_eq_of_alike {kind : OperandKind} {op op' : Operand} (h : op.Alike ts us op') :
    kind.holds op' = kind.holds op := by
  cases h with
  | plain => rfl
  | field => cases kind <;> rfl

theorem plain_of_holds {kind : OperandKind} {op : Operand} (h : kind.holds op = true) :
    op.field? = none := by
  cases op with
  | field => cases kind <;> cases h
  | _ => rfl

/-- Twins have sites at the same positions. -/
theorem forall₂_sitesOf {kind : OperandKind} {p q : Pattern} (h : p.Twin g ts us q) {i j : Nat}
    (hij : Matches keep patterns i j) :
    List.Forall₂ (SiteTwin keep g ts us patterns) (Candidate.sitesOf kind p i)
      (Candidate.sitesOf kind q j) := by
  refine List.rel_filterMap ?_ (forall₂_zipIdx h.operands)
  rintro ⟨op, position⟩ ⟨op', position'⟩ ⟨hop, rfl⟩
  dsimp only
  rw [holds_eq_of_alike hop]
  split
  · next hkind =>
    have hbare : op'.bare = op.bare :=
      congrArg Operand.bare (hop.eq_of_plain (plain_of_holds hkind))
    exact .some ⟨hij, h.index, keyOf_twin h position, hbare⟩
  · exact .none

theorem width_of_mem_sitesOf {kind : OperandKind} {p : Pattern} {i : Nat} {s : Site}
    (h : s ∈ Candidate.sitesOf kind p i) : s.key.width = p.width := by
  rcases List.mem_filterMap.1 h with ⟨x, -, hx⟩
  rw [Option.ite_none_right_eq_some, Option.some.injEq] at hx
  rw [← hx.2]
  rfl

/-- The sites of the excerpt are those of the kept widths. -/
theorem forall₂_sites (h : Excerpt keep g ts us patterns excerpt) (kind : OperandKind) :
    List.Forall₂ (SiteTwin keep g ts us patterns)
      ((Candidate.sites kind patterns).filter fun s => keep s.key.width)
      (Candidate.sites kind excerpt) := by
  have hfilter : (Candidate.sites kind patterns).filter (fun s => keep s.key.width) =
      (keptPlaces keep patterns).flatMap fun x => Candidate.sitesOf kind x.1 x.2 :=
    filter_flatMap_of fun x _ s hs => by rw [width_of_mem_sitesOf hs]
  rw [hfilter]
  exact List.rel_flatMap h.places fun x y hxy => forall₂_sitesOf hxy.1 hxy.2

/-! ## Candidates -/

/-- The width of the patterns of the candidate is kept. -/
def keepsCandidate (keep : Nat → Bool) (patterns : List Pattern) (c : Candidate) : Bool :=
  (c.members.head?.bind (patterns[·]?)).any fun p => keep p.width

/-- The candidates are the same groups of twins. -/
structure CandidateTwin (keep : Nat → Bool) (g : Int → Int) (patterns : List Pattern)
    (c d : Candidate) : Prop where
  position : d.position = c.position
  members : List.Forall₂ (Matches keep patterns) c.members d.members
  firstIndex : d.firstIndex = g c.firstIndex

/-- Matching sites make matching candidates, or none on both sides. -/
theorem ofSites?_rel {sites sites' : List Site}
    (h : List.Forall₂ (SiteTwin keep g ts us patterns) sites sites') :
    Option.Rel (CandidateTwin keep g patterns) (Candidate.ofSites? sites)
      (Candidate.ofSites? sites') := by
  have hdistinct : List.Forall₂ (SiteTwin keep g ts us patterns) (distinctBy Site.operand sites)
      (distinctBy Site.operand sites') :=
    forall₂_distinctBy (fun s t s' t' hst hst' => by rw [hst.operand, hst'.operand]) h
  unfold Candidate.ofSites?
  generalize distinctBy Site.operand sites = kept at hdistinct
  generalize distinctBy Site.operand sites' = kept' at hdistinct
  cases hdistinct with
  | nil => exact .none
  | cons hfirst hrest =>
    cases hrest with
    | nil => exact .none
    | cons hsecond hrest =>
      refine .some ⟨hfirst.key.position, ?_, hfirst.index⟩
      exact List.rel_map (fun _ _ hst => hst.slot) (.cons hfirst (.cons hsecond hrest))

/-- The group of a key, if it is a candidate. -/
def groupOf? (kind : OperandKind) (patterns : List Pattern) (key : GroupKey) : Option Candidate :=
  Candidate.ofSites? ((Candidate.sites kind patterns).filter (·.key = key))

/-- A candidate has the width of its key. -/
theorem keepsCandidate_of_groupOf? {kind : OperandKind} {key : GroupKey} {c : Candidate}
    (h : groupOf? kind patterns key = some c) :
    keepsCandidate keep patterns c = keep key.width := by
  unfold groupOf? Candidate.ofSites? at h
  split at h
  · next first second rest heq =>
    cases h
    have hmem : first ∈ (Candidate.sites kind patterns).filter (·.key = key) :=
      (distinctBy_sublist _ _).subset (heq ▸ List.mem_cons_self ..)
    rcases List.mem_filter.1 hmem with ⟨hsite, hkey⟩
    rcases isSite_of_mem_sites hsite with ⟨p, op, hp, -, -, hof, -⟩
    have hwidth : p.width = key.width := by
      rw [← of_decide_eq_true hkey, hof]
      rfl
    rw [keepsCandidate, List.map_cons, List.head?_cons, Option.bind_some, hp, Option.any_some,
      hwidth]
  · cases h

/-- Matching keys have matching groups, or none on both sides. -/
theorem groupOf?_rel (h : Excerpt keep g ts us patterns excerpt) (kind : OperandKind)
    {k l : GroupKey} (hk : keep k.width = true) (hkl : KeyTwin ts us k l) :
    Option.Rel (CandidateTwin keep g patterns) (groupOf? kind patterns k)
      (groupOf? kind excerpt l) := by
  have hfilter : (Candidate.sites kind patterns).filter (·.key = k) =
      ((Candidate.sites kind patterns).filter fun s => keep s.key.width).filter (·.key = k) := by
    rw [List.filter_filter]
    refine List.filter_congr fun s _ => ?_
    by_cases hs : s.key = k
    · simp [hs, hk]
    · simp [hs]
  rw [groupOf?, groupOf?, hfilter]
  refine ofSites?_rel (List.rel_filter (fun s t hst => ?_) (forall₂_sites h kind))
  have hkeys := Relator.rel_eq (keyTwin_biUnique h.left h.right) hst.key hkl
  simpa using hkeys

/-- An excerpt has the candidates of the widths that are kept. -/
theorem forall₂_all (h : Excerpt keep g ts us patterns excerpt) (kind : OperandKind) :
    List.Forall₂ (CandidateTwin keep g patterns)
      ((Candidate.all kind patterns).filter (keepsCandidate keep patterns))
      (Candidate.all kind excerpt) := by
  let keys := distinct ((Candidate.sites kind patterns).map Site.key)
  have hkeys : List.Forall₂ (KeyTwin ts us) (keys.filter fun k => keep k.width)
      (distinct ((Candidate.sites kind excerpt).map Site.key)) := by
    have hfilter : keys.filter (fun k => keep k.width) =
        distinct (((Candidate.sites kind patterns).map Site.key).filter fun k => keep k.width) :=
      filter_distinctBy (fun k l (heq : k = l) => by rw [heq]) _
    rw [hfilter, List.filter_map]
    exact forall₂_distinct (keyTwin_biUnique h.left h.right)
      (List.rel_map (fun _ _ hst => hst.key) (forall₂_sites h kind))
  -- Candidates come one for each key, so the keys are put side by side first.
  have hkept : List.Forall₂ (fun k l => keep k.width = true ∧ KeyTwin ts us k l)
      (keys.filter fun k => keep k.width)
      (distinct ((Candidate.sites kind excerpt).map Site.key)) :=
    (List.forall₂_and_left _ _).2 ⟨fun k hk => (List.mem_filter.1 hk).2, hkeys⟩
  have hfilter : (Candidate.all kind patterns).filter (keepsCandidate keep patterns) =
      (keys.filter fun k => keep k.width).filterMap (groupOf? kind patterns) :=
    filter_filterMap_of fun _ _ _ hc => keepsCandidate_of_groupOf? hc
  rw [hfilter]
  exact List.rel_filterMap (fun k l hkl => groupOf?_rel h kind hkl.1 hkl.2) hkept

/-! ## Rankings -/

end Combine

namespace Ranking

theorem lexLe_trans {as bs cs : List Int} (hab : lexLe as bs = true) (hbc : lexLe bs cs = true) :
    lexLe as cs = true := by
  induction as generalizing bs cs with
  | nil => rfl
  | cons a as ih =>
    cases bs with
    | nil => cases hab
    | cons b bs =>
      cases cs with
      | nil => cases hbc
      | cons c cs =>
        simp only [lexLe, Bool.or_eq_true, decide_eq_true_eq, Bool.and_eq_true, beq_iff_eq]
          at hab hbc ⊢
        rcases hab with hab | ⟨rfl, hab⟩ <;> rcases hbc with hbc | ⟨rfl, hbc⟩
        · exact .inl (by omega)
        · exact .inl hab
        · exact .inl hbc
        · exact .inr ⟨rfl, ih hab hbc⟩

theorem lexLe_total (as bs : List Int) : (lexLe as bs || lexLe bs as) = true := by
  induction as generalizing bs with
  | nil => rfl
  | cons a as ih =>
    cases bs with
    | nil => rfl
    | cons b bs =>
      have hrest := ih bs
      simp only [lexLe, Bool.or_eq_true, decide_eq_true_eq, Bool.and_eq_true, beq_iff_eq]
        at hrest ⊢
      rcases Int.lt_trichotomy a b with hlt | rfl | hlt
      · exact .inl (.inl hlt)
      · exact hrest.imp (fun h => .inr ⟨rfl, h⟩) (fun h => .inr ⟨rfl, h⟩)
      · exact .inr (.inl hlt)

/-- How candidates are ranked depends on the order of first positions only. -/
theorem longestShared_congr {g : Int → Int} (hg : KeepsOrder g) {c c' d d' : Candidate}
    (hc : d.position = c.position) (hc' : d'.position = c'.position)
    (hfirst : d.firstIndex = g c.firstIndex) (hfirst' : d'.firstIndex = g c'.firstIndex) :
    longestShared c c' = longestShared d d' := by
  simp only [longestShared, byKey, lexLe, hc, hc', hfirst, hfirst', hg.lt_iff, Bool.and_true]
  have heq : (g c.firstIndex == g c'.firstIndex) = (c.firstIndex == c'.firstIndex) := by
    rw [Bool.eq_iff_iff, beq_iff_eq, beq_iff_eq, hg.eq_iff]
  rw [heq]

/-- The candidates of an excerpt are put in the order in which those of the list are. -/
def Respects (keep : Nat → Bool) (g : Int → Int) (ranking : Ranking) : Prop :=
  ∀ (kind : OperandKind) (patterns : List Pattern) (candidates : List Candidate),
    List.Forall₂ (Combine.CandidateTwin keep g patterns)
      ((Candidate.all kind patterns).filter (Combine.keepsCandidate keep patterns)) candidates →
    List.Forall₂ (Combine.CandidateTwin keep g patterns)
      (((Candidate.all kind patterns).mergeSort ranking).filter
        (Combine.keepsCandidate keep patterns)) (candidates.mergeSort ranking)

/-- Moving positions without changing their order leaves the ranking. -/
theorem longestShared_respects (keep : Nat → Bool) {g : Int → Int} (hg : KeepsOrder g) :
    longestShared.Respects keep g := by
  have htrans : ∀ a b c, longestShared a b = true → longestShared b c = true →
      longestShared a c = true := fun _ _ _ => lexLe_trans
  have htotal : ∀ a b, (longestShared a b || longestShared b a) = true :=
    fun _ _ => lexLe_total _ _
  intro kind patterns candidates h
  rw [filter_mergeSort htrans htotal]
  refine forall₂_mergeSort htrans htotal (fun c d c' d' hcd hcd' => ?_) h
  exact longestShared_congr hg hcd.position hcd'.position hcd.firstIndex hcd'.firstIndex

/-! ### All patterns -/

section

variable {kind : OperandKind} {patterns : List Pattern} {c d : Candidate}

/-- If all widths are kept, each place matches itself. -/
theorem matches_all_iff {i j : Nat} :
    Combine.Matches (fun _ => true) patterns i j ↔ i = j ∧ ∃ p, patterns[i]? = some p := by
  rw [Combine.Matches, Combine.keptPlaces, List.filter_true]
  simp only [List.getElem?_zipIdx, Option.map_eq_some_iff, Prod.mk.injEq, Nat.zero_add]
  constructor
  · rintro ⟨p, p', hp, rfl, rfl⟩
    exact ⟨rfl, p', hp⟩
  · rintro ⟨rfl, p, hp⟩
    exact ⟨p, p, hp, rfl, rfl⟩

theorem keepsCandidate_all (hc : c ∈ Candidate.all kind patterns) :
    Combine.keepsCandidate (fun _ => true) patterns c = true := by
  rcases List.mem_filterMap.1 hc with ⟨key, -, hgroup⟩
  exact Combine.keepsCandidate_of_groupOf? hgroup

theorem candidateTwin_all_refl (hc : c ∈ Candidate.all kind patterns) :
    Combine.CandidateTwin (fun _ => true) id patterns c c := by
  refine ⟨rfl, List.forall₂_same.2 fun i hi => ?_, rfl⟩
  have hfound := (Combine.gathered_of_mem_all hc (List.Sublist.refl c.members)).found
  have hmem : patterns[i]? ∈ c.members.map (patterns[·]?) := List.mem_map_of_mem hi
  rw [hfound] at hmem
  rcases List.mem_map.1 hmem with ⟨p, -, hp⟩
  exact matches_all_iff.2 ⟨rfl, p, hp.symm⟩

/-- If all widths are kept, a candidate has itself for its twin. -/
theorem eq_of_candidateTwin_all (h : Combine.CandidateTwin (fun _ => true) id patterns c d) :
    d = c := by
  have hmembers : d.members = c.members := by
    have hmap := map_eq_map_of_forall₂ h.members (f := fun i => i) (g := fun i => i)
      fun _ _ _ _ hij => (matches_all_iff.1 hij).1
    rw [List.map_id', List.map_id'] at hmap
    exact hmap.symm
  rw [Candidate.mk.injEq]
  exact ⟨h.position, hmembers, h.firstIndex⟩

/-- With all patterns in it, an excerpt has the same candidates, so any ranking puts them in the same
order. -/
theorem respects_all (ranking : Ranking) : ranking.Respects (fun _ => true) id := by
  intro kind patterns candidates h
  have hall : (Candidate.all kind patterns).filter
      (Combine.keepsCandidate (fun _ => true) patterns) = Candidate.all kind patterns :=
    List.filter_eq_self.2 fun c hc => keepsCandidate_all hc
  have hsorted : ((Candidate.all kind patterns).mergeSort ranking).filter
      (Combine.keepsCandidate (fun _ => true) patterns) =
      (Candidate.all kind patterns).mergeSort ranking :=
    List.filter_eq_self.2 fun c hc => keepsCandidate_all (List.mem_mergeSort.1 hc)
  have hsame : candidates = Candidate.all kind patterns := by
    rw [hall] at h
    have hmap := map_eq_map_of_forall₂ h (f := fun c => c) (g := fun c => c)
      fun _ _ _ _ hcd => (eq_of_candidateTwin_all hcd).symm
    rw [List.map_id', List.map_id'] at hmap
    exact hmap.symm
  rw [hsorted, hsame]
  exact List.forall₂_same.2 fun c hc => candidateTwin_all_refl (List.mem_mergeSort.1 hc)

end

end Ranking

end SleighForge
