import Columnar.Column.Cells

/-!
# Items of columns

What a column has for a row is a value of the column's type or nothing.  A value is kept as its
bytes, so a list of items is a list of cells, and appending an item in the way of its type appends
its cell (`appendItem_eq_appendCell`).
-/

namespace Columnar

/-- A value that a column can hold. -/
inductive Value where
  | integer (value : Int64)
  | float (value : Binary64)
  | boolean (value : Bool)
  | text (value : Bytes)
deriving DecidableEq, Repr

namespace Value

/-- Whether columns of the type hold the value. -/
def HasType (type : ValueType) : Value → Prop
  | integer _ => type = .integer
  | float _ => type = .float
  | boolean _ => type = .boolean
  | text _ => type.storage = .text

instance (type : ValueType) : (value : Value) → Decidable (value.HasType type)
  | integer _ => inferInstanceAs (Decidable (type = .integer))
  | float _ => inferInstanceAs (Decidable (type = .float))
  | boolean _ => inferInstanceAs (Decidable (type = .boolean))
  | text _ => inferInstanceAs (Decidable (type.storage = .text))

/-- The bytes of the value: the lowest byte of a number first, one byte for a truth value. -/
def bytes : Value → Bytes
  | integer value => Bytes.littleEndian 8 value.toUInt64.toNat
  | float value => Bytes.littleEndian 8 value.bits.toNat
  | boolean value => [if value then 1 else 0]
  | text value => value

theorem holds_bytes {type : ValueType} {value : Value} (typed : value.HasType type) :
    type.storage.Holds (some value.bytes) := by
  cases value with
  | integer value =>
    rw [show type = .integer from typed]
    exact Bytes.length_littleEndian 8 value.toUInt64.toNat
  | float value =>
    rw [show type = .float from typed]
    exact Bytes.length_littleEndian 8 value.bits.toNat
  | boolean value =>
    rw [show type = .boolean from typed]
    rfl
  | text value =>
    rw [show type.storage = .text from typed]
    trivial

end Value

/-- What a column has for one row: a value, or nothing where the row is null. -/
abbrev Item := Option Value

namespace Item

/-- Whether columns of the type can have the item. -/
def HasType (type : ValueType) (item : Item) : Prop :=
  ∀ value ∈ item, value.HasType type

instance (type : ValueType) (item : Item) : Decidable (HasType type item) :=
  inferInstanceAs (Decidable (∀ value ∈ item, value.HasType type))

/-- The item as a cell. -/
def cell (item : Item) : Cell :=
  item.map Value.bytes

theorem holds_cell {type : ValueType} {item : Item} (typed : HasType type item) :
    type.storage.Holds (cell item) := by
  cases item with
  | none => cases type.storage <;> trivial
  | some value => exact Value.holds_bytes (typed value rfl)

end Item

namespace Column

/-- Appends a row in the way of a column's type. -/
def appendItem (type : ValueType) (item : Item) (column : Column) : Column :=
  match item with
  | some (.integer value) => column.appendInteger value
  | some (.float value) => column.appendFloat value
  | some (.boolean value) => column.appendBoolean value
  | some (.text value) => column.appendText value
  | none => if type.isText then column.appendTextNull else column.appendNull

theorem appendNull_eq_appendCell (type : ValueType) (column : Column) :
    (if type.isText then column.appendTextNull else column.appendNull) =
      column.appendCell type.storage none := by
  cases storage : type.storage <;> simp [ValueType.isText, storage] <;> rfl

theorem appendItem_eq_appendCell {type : ValueType} {item : Item} (typed : Item.HasType type item)
    (column : Column) :
    column.appendItem type item = column.appendCell type.storage (Item.cell item) := by
  cases item with
  | none => exact appendNull_eq_appendCell type column
  | some value =>
    have valueTyped := typed value rfl
    cases value with
    | integer value =>
      rw [show type = .integer from valueTyped]
      rfl
    | float value =>
      rw [show type = .float from valueTyped]
      rfl
    | boolean value =>
      rw [show type = .boolean from valueTyped]
      rfl
    | text value =>
      rw [show type.storage = .text from valueTyped]
      rfl

/-- The values of the rows that are not null. -/
def present (type : ValueType) (column : Column) : List Value :=
  if type = .integer then column.integers.map .integer
  else if type = .float then column.floats.map .float
  else if type = .boolean then column.booleans.map .boolean
  else if type.isText then column.texts.map .text
  else []

end Column

end Columnar
