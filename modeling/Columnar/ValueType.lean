import Columnar.Bytes

/-!
# Value types

A field says by a 32-bit code what its column holds.  Codes come from outside, so every code is
a value type; the six known ones have labels, and five of them have storage.
-/

namespace Columnar

/-- How a column keeps its present values. -/
inductive Storage where
  /-- Each value takes the same number of bytes. -/
  | packed (width : Nat)
  /-- Values are texts of any size, one after the other, with an offset per row. -/
  | text
  /-- Values of the type cannot be kept. -/
  | absent
deriving DecidableEq, Repr

/-- The bytes of one value where all take the same number, and zero otherwise. -/
def Storage.width : Storage → Nat
  | .packed width => width
  | .text => 0
  | .absent => 0

/-- What a column holds, by its code. -/
structure ValueType where
  code : Int32
deriving DecidableEq, Repr

namespace ValueType

def unknown : ValueType := ⟨0⟩
def integer : ValueType := ⟨1⟩
def unsigned : ValueType := ⟨2⟩
def float : ValueType := ⟨3⟩
def string : ValueType := ⟨4⟩
def boolean : ValueType := ⟨5⟩
def tag : ValueType := ⟨6⟩

/-- The label that follows a field's name in listings. -/
def label (type : ValueType) : String :=
  match type.code.toInt with
  | 1 => "Integer"
  | 2 => "Unsigned"
  | 3 => "Float"
  | 4 => "String"
  | 5 => "Boolean"
  | 6 => "Tag"
  | _ => "Unknown"

/-- How columns of the type keep their values. Unsigned numbers have a label but no storage. -/
def storage (type : ValueType) : Storage :=
  match type.code.toInt with
  | 1 => .packed 8
  | 3 => .packed 8
  | 4 => .text
  | 5 => .packed 1
  | 6 => .text
  | _ => .absent

/-- The bytes of one value of a fixed-width type, and zero for every other type. -/
def width (type : ValueType) : Nat :=
  type.storage.width

/-- Whether values of the type are texts. -/
def isText (type : ValueType) : Bool :=
  type.storage = .text

@[simp] theorem storage_integer : integer.storage = .packed 8 := rfl

@[simp] theorem storage_float : float.storage = .packed 8 := rfl

@[simp] theorem storage_boolean : boolean.storage = .packed 1 := rfl

@[simp] theorem storage_string : string.storage = .text := rfl

@[simp] theorem storage_tag : tag.storage = .text := rfl

@[simp] theorem storage_unsigned : unsigned.storage = .absent := rfl

@[simp] theorem isText_iff {type : ValueType} : type.isText = true ↔ type.storage = .text := by
  simp [isText]

theorem eq_mk_iff (type : ValueType) (code : Int32) :
    type = ⟨code⟩ ↔ type.code.toInt = code.toInt := by
  rw [Int32.toInt_inj]
  exact ⟨fun same => congrArg ValueType.code same, fun same => by cases type; cases same; rfl⟩

theorem storage_eq_absent_iff (type : ValueType) :
    type.storage = .absent ↔ type ∉ [integer, float, boolean, string, tag] := by
  simp only [List.mem_cons, List.not_mem_nil, or_false, integer, float, boolean, string, tag,
    eq_mk_iff]
  rw [storage]
  split <;> simp_all

theorem storage_eq_packed_eight_iff (type : ValueType) :
    type.storage = .packed 8 ↔ type ∈ [integer, float] := by
  simp only [List.mem_cons, List.not_mem_nil, or_false, integer, float, eq_mk_iff]
  rw [storage]
  split <;> simp_all

end ValueType

/-- A column operation was asked for with a type that has no storage. -/
structure UnsupportedType where
  type : ValueType
deriving DecidableEq, Repr

/-- The wording of a type without storage. -/
def UnsupportedType.message (cause : UnsupportedType) : Bytes :=
  Bytes.ofString
    s!"unsupported column type {cause.type.code.toInt} ({cause.type.label})"

end Columnar
