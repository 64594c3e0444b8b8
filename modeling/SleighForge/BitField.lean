import SleighForge.Power

/-!
# Operand fields

An operand field is a slice of the bits of an instruction word that stands for an operand. Bit 0 is
the least significant bit and a slice `[lo, hi)` is half open. The bits of an immediate field are a
number; those of a register field select an entry of a register table.
-/

namespace SleighForge

/-- The bits `[lo, lo + width)` of a word, as a number. Negative words are read in two's complement
without end. -/
def bitSlice (word : Int) (lo width : Nat) : Nat :=
  (word / 2 ^ lo % 2 ^ width).toNat

/-- A slice of bits has a value that fits in as many bits. -/
theorem bitSlice_lt (word : Int) (lo width : Nat) : bitSlice word lo width < 2 ^ width := by
  have hpos : (0 : Int) < 2 ^ width := Int.pow_pos (by decide)
  have hlt := Int.emod_lt_of_pos (word / 2 ^ lo) hpos
  have hge := Int.emod_nonneg (word / 2 ^ lo) (Int.ne_of_gt hpos)
  have hcast : ((2 ^ width : Nat) : Int) = 2 ^ width := by simp
  unfold bitSlice
  omega

/-- What a field selects. -/
inductive FieldKind where
  /-- A number, held by the bits themselves. -/
  | immediate
  /-- An entry of the register table of this id. -/
  | register (table : Int)
  deriving DecidableEq, Repr

/-- A slice of the word that stands for an operand. -/
structure BitField where
  lo : Nat
  hi : Nat
  kind : FieldKind
  /-- The number is read in two's complement. -/
  signed : Bool
  lo_lt_hi : lo < hi
  deriving DecidableEq, Repr

/-- Why a field cannot be built. -/
inductive FieldFault where
  /-- The slice is empty, reversed or reaches below bit 0. -/
  | slice (lo hi : Int)
  /-- A register field without a table, or an immediate field with one. -/
  | table
  deriving DecidableEq, Repr

/-- The message about a field. -/
def FieldFault.message : FieldFault → String
  | slice lo hi => s!"invalid bit slice [{lo}, {hi})"
  | table => "attach_id is required for, and only for, register fields"

namespace BitField

/-- Builds a field from a slice and the id of a register table, which a register field has and an
immediate field has not. -/
def make (lo hi : Int) (isRegister : Bool) (table? : Option Int) (signed : Bool) :
    Except FieldFault BitField :=
  if h : 0 ≤ lo ∧ lo < hi then
    match isRegister, table? with
    | true, some table => .ok ⟨lo.toNat, hi.toNat, .register table, signed, by omega⟩
    | false, none => .ok ⟨lo.toNat, hi.toNat, .immediate, signed, by omega⟩
    | _, _ => .error .table
  else .error (.slice lo hi)

/-- The number of bits. -/
def width (f : BitField) : Nat :=
  f.hi - f.lo

/-- Fields are not empty. -/
theorem width_pos (f : BitField) : 0 < f.width := by
  have := f.lo_lt_hi
  unfold width
  omega

theorem lo_add_width (f : BitField) : f.lo + f.width = f.hi :=
  Nat.add_sub_of_le (Nat.le_of_lt f.lo_lt_hi)

/-- The name of a field tells its kind, its slice and its register table. -/
def name (f : BitField) : String :=
  match f.kind with
  | .immediate => (if f.signed then "simm" else "imm") ++ s!"_{f.lo}_{f.width}"
  | .register table => s!"reg_{f.lo}_{f.width}_{table}"

/-- The id of the register table of a register field. -/
def table? (f : BitField) : Option Int :=
  match f.kind with
  | .immediate => none
  | .register table => some table

/-- The bits of the field in a word. -/
def extract (f : BitField) (word : Int) : Nat :=
  bitSlice word f.lo f.width

/-- Replaces the id of the register table. -/
def mapTable (g : Int → Int) (f : BitField) : BitField :=
  match f.kind with
  | .immediate => f
  | .register table => { f with kind := .register (g table) }

@[simp] theorem mapTable_lo (g : Int → Int) (f : BitField) : (f.mapTable g).lo = f.lo := by
  unfold mapTable; split <;> rfl

@[simp] theorem mapTable_hi (g : Int → Int) (f : BitField) : (f.mapTable g).hi = f.hi := by
  unfold mapTable; split <;> rfl

@[simp] theorem mapTable_width (g : Int → Int) (f : BitField) :
    (f.mapTable g).width = f.width := by
  simp [width]

/-- Only fields that select a register have a table. -/
theorem table?_eq_some_iff {f : BitField} {id : Int} :
    f.table? = some id ↔ f.kind = .register id := by
  unfold table?
  split
  · next hkind => simp [hkind]
  · next table hkind => simp [hkind]

/-- Renaming tables changes no field that has none. -/
theorem mapTable_eq_self {g : Int → Int} {f : BitField} (h : f.table? = none) :
    f.mapTable g = f := by
  unfold mapTable
  split
  · rfl
  · next table hkind =>
    rw [table?_eq_some_iff.2 hkind] at h
    cases h

theorem mapTable_eq {g : Int → Int} {f : BitField} {id : Int} (h : f.table? = some id) :
    f.mapTable g = { f with kind := .register (g id) } := by
  rw [table?_eq_some_iff] at h
  unfold mapTable
  split
  · next hkind =>
    rw [h] at hkind
    cases hkind
  · next table hkind =>
    rw [h] at hkind
    cases hkind
    rfl

@[simp] theorem table?_mapTable (g : Int → Int) (f : BitField) :
    (f.mapTable g).table? = f.table?.map g := by
  cases h : f.table? with
  | none => rw [mapTable_eq_self h, h, Option.map_none]
  | some id =>
    rw [mapTable_eq h]
    rfl

theorem mapTable_register {g : Int → Int} {f : BitField} {new : Int}
    (h : (f.mapTable g).kind = .register new) : ∃ old, f.kind = .register old ∧ new = g old := by
  rw [← table?_eq_some_iff, table?_mapTable, Option.map_eq_some_iff] at h
  rcases h with ⟨old, hold, rfl⟩
  exact ⟨old, table?_eq_some_iff.1 hold, rfl⟩

end BitField

end SleighForge
