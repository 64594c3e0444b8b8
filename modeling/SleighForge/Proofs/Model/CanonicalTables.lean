import SleighForge.Proofs.Model.Steps
import SleighForge.Proofs.RegisterTable.Alike

/-!
# The canonical form of register tables

Numbering the tables of a model brings it to a form that depends only on what its fields select
from, not on how the tables were numbered or on tables that no field selects from
(`numberTables_canonical`).
-/

namespace SleighForge

namespace Stage

/-- Models with alike patterns are numbered to the same patterns and tables. -/
theorem numberTables_alike {m m' : Model} (hm : ∀ p ∈ m.patterns, p.OperandsEncoded)
    (hrun : runFrom m numberTables = (.ok ⟨⟩, m')) {m₂ : Model}
    (hm₂ : ∀ p ∈ m₂.patterns, p.OperandsEncoded)
    (halike : List.Forall₂ (Pattern.Alike m.tables m₂.tables) m.patterns m₂.patterns) :
    ∃ journal, runFrom m₂ numberTables =
      (.ok ⟨⟩, { m₂ with patterns := m'.patterns, tables := m'.tables, journal }) := by
  rcases numberTables_ok hrun with ⟨-, n, hn, hstock⟩
  rcases Numbering.ofPatterns_alike (fun p hp => (hm p hp).registers)
    (fun p hp => (hm₂ p hp).registers) halike hn with ⟨n₂, hn₂, htables, hpatterns⟩
  rcases runFrom_numberTables m₂ with ⟨journal, hrun₂⟩
  refine ⟨journal, ?_⟩
  have hp : m'.patterns = m.patterns.map (Pattern.mapTable n.apply) := congrArg Stock.patterns hstock
  have ht : m'.tables = n.toTables := congrArg Stock.tables hstock
  rw [hrun₂, hn₂, hp, ht]
  dsimp only
  rw [htables, hpatterns]

end Stage

/-- Numbering the tables renames the tables of operands and encodings alike. Every field selects
from the same registers as before, and nothing else of the patterns changes. The ids are those from
0 up in the order of first use, each is used, and no two tables have the same registers or the same
name. Models whose patterns differ only in the ids get the same patterns and tables, so numbering
again changes nothing. -/
theorem numberTables_canonical (m m' : Model) (hm : ∀ p ∈ m.patterns, p.OperandsEncoded)
    (hrun : runFrom m Stage.numberTables = (.ok ⟨⟩, m')) :
    (∃ g, m'.patterns = m.patterns.map (Pattern.mapTable g)) ∧
    List.Forall₂ (Pattern.Alike m.tables m'.tables) m.patterns m'.patterns ∧
    m'.tables.toList.map RegisterTable.id =
      (List.range m'.tables.size).map (fun (k : Nat) => (k : Int)) ∧
    distinct (Numbering.references m'.patterns) = m'.tables.toList.map RegisterTable.id ∧
    (m'.tables.toList.map RegisterTable.registers).Nodup ∧
    (m'.tables.toList.map RegisterTable.name).Nodup ∧
    (∀ m₂ : Model, (∀ p ∈ m₂.patterns, p.OperandsEncoded) →
      List.Forall₂ (Pattern.Alike m.tables m₂.tables) m.patterns m₂.patterns →
      ∃ journal, runFrom m₂ Stage.numberTables =
        (.ok ⟨⟩, { m₂ with patterns := m'.patterns, tables := m'.tables, journal })) ∧
    ∃ journal, runFrom m' Stage.numberTables = (.ok ⟨⟩, { m' with journal }) := by
  rcases Stage.numberTables_ok hrun with ⟨-, n, hn, hstock⟩
  have hpatterns : m'.patterns = m.patterns.map (Pattern.mapTable n.apply) :=
    congrArg Stock.patterns hstock
  have htables : m'.tables = n.toTables := congrArg Stock.tables hstock
  have hlist : m'.tables.toList = n.tables := by
    rw [htables]
    exact Numbering.toList_toTables hn
  have hsize : m'.tables.size = n.tables.length := by
    rw [htables, (Numbering.ofPatterns_spec hn).numbered.size_eq]
    exact List.length_reverse
  have hdistinguished := Numbering.distinguished_of_ofPatterns hn
  have halike : List.Forall₂ (Pattern.Alike m.tables m'.tables) m.patterns m'.patterns := by
    rw [htables, hpatterns]
    exact Numbering.alike_of_ofPatterns hm hn
  refine ⟨⟨_, hpatterns⟩, halike, ?_, ?_, ?_, ?_, ?_, ?_⟩
  · rw [hlist, hsize]
    exact hdistinguished.ids
  · rw [hlist, hpatterns]
    exact Numbering.distinct_references hn
  · rw [hlist]
    exact hdistinguished.registers
  · rw [hlist]
    exact hdistinguished.names
  · intro m₂ hm₂ halike₂
    exact Stage.numberTables_alike hm hrun hm₂ halike₂
  · -- The numbered model is alike itself.
    have hm' : ∀ p ∈ m'.patterns, p.OperandsEncoded := by
      intro p hp
      rw [hpatterns, List.mem_map] at hp
      rcases hp with ⟨p₀, hp₀, rfl⟩
      exact (hm p₀ hp₀).mapTable n.apply
    exact Stage.numberTables_alike hm hrun hm' halike

/-- A register field of one bit, for examples. -/
def bitSelector (lo : Nat) (table : Int) : BitField :=
  ⟨lo, lo + 1, .register table, false, Nat.lt_succ_self lo⟩

/-- An instruction with two register fields in its lowest bits, for examples. -/
def move (opcode : BitRun) (index target source : Int) : Pattern where
  mnemonic := "MOV"
  operands := [.field (bitSelector 1 target), .text ",", .field (bitSelector 0 source)]
  encoding := [.bits opcode, .field (bitSelector 1 target), .field (bitSelector 0 source)]
  index := index
  examples := []
  placed := ⟨trivial, rfl, rfl, trivial⟩

/-- A move has its fields encoded. -/
theorem operandsEncoded_move (opcode : BitRun) (index target source : Int) :
    (move opcode index target source).OperandsEncoded := by
  intro f hf
  simpa [move, Pattern.fields, Encoding.fields, Segment.field?, eq_comm] using hf

/-- Moves are alike if their registers are. -/
theorem move_alike {ts us : Tables} {opcode : BitRun} {index a b a' b' : Int}
    (ha : (bitSelector 1 a).Alike ts us (bitSelector 1 a'))
    (hb : (bitSelector 0 b).Alike ts us (bitSelector 0 b')) :
    (move opcode index a b).Alike ts us (move opcode index a' b') where
  mnemonic := rfl
  operands := .cons (.field ha) (.cons (.plain rfl) (.cons (.field hb) .nil))
  encoding := .cons (.bits opcode) (.cons (.field ha) (.cons (.field hb) .nil))
  index := rfl
  examples := rfl

/-- Two moves, with tables added by hand: two have the same registers and one is not used. -/
def handmade : Model where
  config := byteConfig
  catalog := Catalog.common
  patterns := [move (byteWord 5) 0 9 7, move (byteWord 6) 1 7 5]
  tables := ⟨[⟨9, [some "a", some "b_c"], ""⟩, ⟨3, [some "x", some "y"], ""⟩,
    ⟨7, [some "a_b", some "c"], ""⟩, ⟨5, [some "a", some "b_c"], ""⟩]⟩

/-- The same moves, with tables that were interned. -/
def interned : Model where
  config := byteConfig
  catalog := Catalog.common
  patterns := [move (byteWord 5) 0 1 0, move (byteWord 6) 1 0 1]
  tables := ⟨[⟨1, [some "a", some "b_c"], ""⟩, ⟨0, [some "a_b", some "c"], ""⟩]⟩

/-- Tables added by hand and interned tables are numbered to the same ones. -/
theorem numberTables_canonical_handmade :
    ∃ m' journal journal', runFrom handmade Stage.numberTables = (.ok ⟨⟩, m') ∧
      m'.patterns = [move (byteWord 5) 0 0 1, move (byteWord 6) 1 1 0] ∧
      m'.tables = ⟨[⟨1, [some "a_b", some "c"], "a_b_c_1"⟩, ⟨0, [some "a", some "b_c"], "a_b_c"⟩]⟩ ∧
      m'.tables.toList.map RegisterTable.id = [0, 1] ∧
      (m'.tables.toList.map RegisterTable.name).Nodup ∧
      runFrom interned Stage.numberTables =
        (.ok ⟨⟩, { interned with patterns := m'.patterns, tables := m'.tables, journal }) ∧
      runFrom m' Stage.numberTables = (.ok ⟨⟩, { m' with journal := journal' }) := by
  have hn : Numbering.ofPatterns handmade.tables handmade.patterns = .ok
      ⟨[(9, 0), (7, 1), (5, 0)], [⟨0, [some "a", some "b_c"], "a_b_c"⟩,
        ⟨1, [some "a_b", some "c"], "a_b_c_1"⟩]⟩ := by decide +kernel
  obtain ⟨journal₀, hrun⟩ := Stage.runFrom_numberTables handmade
  rw [hn] at hrun
  have hencoded : ∀ p ∈ handmade.patterns, p.OperandsEncoded := by
    simp [handmade, operandsEncoded_move]
  have hencoded' : ∀ p ∈ interned.patterns, p.OperandsEncoded := by
    simp [interned, operandsEncoded_move]
  -- The two models refer to different ids, under which each has the same registers.
  have halike : List.Forall₂ (Pattern.Alike handmade.tables interned.tables) handmade.patterns
      interned.patterns := by
    refine .cons (move_alike ?_ ?_) (.cons (move_alike ?_ ?_) .nil)
    · exact .register rfl rfl rfl rfl
    · exact .register rfl rfl rfl rfl
    · exact .register rfl rfl rfl rfl
    · exact .register rfl rfl rfl rfl
  obtain ⟨-, -, hids, -, -, hnames, hsame, journal', hagain⟩ :=
    numberTables_canonical _ _ hencoded hrun
  obtain ⟨journal, hinterned⟩ := hsame interned hencoded' halike
  exact ⟨_, journal, journal', hrun, rfl, rfl, hids, hnames, hinterned, hagain⟩

end SleighForge
