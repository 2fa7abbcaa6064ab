import Columnar.Column.Edits
import Columnar.Proofs.Column.Integers
import Columnar.Proofs.Column.LastRow

/-!
# Columns that are edited

A column refines a list of items (`Column.Holds`): every edit does to the list what its name says,
whatever bit offset the column has and whatever bits lie beside those of its rows.  One edit keeps
the refinement (`Edit.run_holds`), and so does every run of edits.

What a column holds is also what is read from it (`Column.ReadsAs`): which rows are null, the values
of the others, and that the layout checks find nothing.
-/

namespace Columnar

namespace Item

theorem hasType_none {type : ValueType} : HasType type none := by
  simp [HasType]

theorem hasType_some {type : ValueType} {value : Value} (typed : value.HasType type) :
    HasType type (some value) := by
  simpa [HasType] using typed

@[simp] theorem isNone_cell (item : Item) : (cell item).isNone = item.isNone := by
  cases item <;> rfl

/-- The values that are present are packed one after the other. -/
theorem packed_cells (items : List Item) :
    Cell.packed (items.map cell) = items.reduceOption.flatMap Value.bytes := by
  induction items with
  | nil => rfl
  | cons item rest ih =>
    have unfolded : Cell.packed ((item :: rest).map cell) =
        (cell item).bytes ++ Cell.packed (rest.map cell) := rfl
    rw [unfolded, ih]
    cases item <;> rfl

theorem reduceOption_cells (items : List Item) :
    (items.map cell).reduceOption = items.reduceOption.map Value.bytes :=
  List.reduceOption_map

theorem hasType_of_mem_reduceOption {type : ValueType} {items : List Item}
    (typed : ∀ item ∈ items, HasType type item) :
    ∀ value ∈ items.reduceOption, value.HasType type := fun value member =>
  typed (some value) (List.reduceOption_mem_iff.mp member) value rfl

theorem CountableThrough.first {items : List Item} {edits : List Edit}
    (countable : CountableThrough items edits) : Countable items := by
  cases edits with
  | nil => exact countable
  | cons edit rest => exact countable.1

theorem CountableThrough.last {items : List Item} {edits : List Edit}
    (countable : CountableThrough items edits) : Countable (Edit.applyAll items edits) := by
  induction edits generalizing items with
  | nil => exact countable
  | cons edit rest ih => exact ih countable.2

end Item

namespace Column

/-- The column is the packed form of a list of items of its type. -/
structure Holds (type : ValueType) (items : List Item) (column : Column) : Prop where
  represents : column.Represents type.storage (items.map Item.cell)
  typed : ∀ item ∈ items, Item.HasType type item

/-- What is read from the column is what the list of items says. -/
structure ReadsAs (type : ValueType) (items : List Item) (column : Column) : Prop where
  isNull_iff : ∀ row : Int, 0 ≤ row →
    (column.isNull row = true ↔ (items.length : Int) ≤ row ∨ items[row.toNat]? = some none)
  present_eq : column.present type = items.reduceOption
  layoutError?_eq_none : column.layoutError? type = none

variable {type : ValueType} {items : List Item} {column : Column}

namespace Holds

theorem empty : Column.empty.Holds type [] where
  represents := represents_empty type.storage
  typed := by simp

/-- Appending several rows appends their items, if each single append does. -/
theorem appendEach {α : Type} {append : α → Column → Column} (itemOf : α → Item) {values : List α}
    (holds : column.Holds type items)
    (appendEq : ∀ value, ∀ column : Column,
      append value column = column.appendItem type (itemOf value))
    (typed : ∀ value ∈ values, Item.HasType type (itemOf value))
    (rowsFit : ((items.length + values.length : Nat) : Int) ≤ Int32.maxValue.toInt) :
    (column.appendEach append values).Holds type (items ++ values.map itemOf) where
  represents := by
    have cells := holds.represents.appendEach
      (fun value member column => (appendEq value column).trans
        (appendItem_eq_appendCell (typed value member) column))
      (fun value member => Item.holds_cell (typed value member))
      (by rw [List.length_map]; exact rowsFit)
    rw [List.map_append, List.map_map]
    exact cells
  typed := by
    intro item member
    rcases List.mem_append.mp member with old | new
    · exact holds.typed item old
    · obtain ⟨value, valueMember, rfl⟩ := List.mem_map.mp new
      exact typed value valueMember

theorem appendItem (holds : column.Holds type items) {item : Item}
    (typed : Item.HasType type item)
    (rowsFit : ((items.length + 1 : Nat) : Int) ≤ Int32.maxValue.toInt) :
    (column.appendItem type item).Holds type (items ++ [item]) := by
  have single : ∀ other ∈ [item], Item.HasType type other := by
    intro other member
    rw [List.mem_singleton.mp member]
    exact typed
  exact holds.appendEach id (fun _ _ => rfl) single rowsFit

theorem appendNulls (holds : column.Holds type items) {count : Int}
    (rowsFit : ((items.length + count.toNat : Nat) : Int) ≤ Int32.maxValue.toInt) :
    (if type.isText then column.appendTextNulls count else column.appendNulls count).Holds type
      (items ++ List.replicate count.toNat none) := by
  have rows : ((items.length + (List.replicate count.toNat ()).length : Nat) : Int) ≤
      Int32.maxValue.toInt := by
    rw [List.length_replicate]
    exact rowsFit
  by_cases text : type.isText
  · have appendEq (_ : Unit) (column : Column) :
        column.appendTextNull = column.appendItem type none := by
      rw [Column.appendItem, if_pos text]
    have appended := holds.appendEach (fun _ => none) appendEq (fun _ _ => Item.hasType_none) rows
    rw [List.map_replicate] at appended
    rw [if_pos text]
    exact appended
  · have appendEq (_ : Unit) (column : Column) :
        column.appendNull = column.appendItem type none := by
      rw [Column.appendItem, if_neg text]
    have appended := holds.appendEach (fun _ => none) appendEq (fun _ _ => Item.hasType_none) rows
    rw [List.map_replicate] at appended
    rw [if_neg text]
    exact appended

theorem addressable (holds : column.Holds type items) (countable : Item.Countable items) :
    column.Addressable type.storage := by
  intro _
  rw [holds.represents.values_eq]
  exact countable.2

theorem removeLast (kept : type.storage ≠ .absent) (holds : column.Holds type items)
    (countable : Item.Countable items) :
    ∃ shorter, column.removeLast type = .ok shorter ∧ shorter.Holds type items.dropLast := by
  have rowCountEq := holds.represents.rowCount_eq
  rw [List.length_map] at rowCountEq
  refine ⟨if column.rowCount = 0 then column else column.withoutLast type.storage, ?_, ?_⟩
  · rw [Column.removeLast]
    split
    next absent => exact absurd absent kept
    next => rfl
  · rcases List.eq_nil_or_concat items with none | ⟨front, last, rfl⟩
    · subst none
      rw [if_pos (toInt_eq_zero_iff.mp rowCountEq)]
      exact holds
    · have someRows : column.rowCount ≠ 0 := ne_zero_of_toInt_pos (by
        rw [rowCountEq, List.length_concat]
        omega)
      rw [if_neg someRows, List.concat_eq_append, List.dropLast_concat]
      have represents := holds.represents
      rw [List.concat_eq_append, List.map_append] at represents
      exact ⟨represents.withoutLast (holds.addressable countable),
        fun item member => holds.typed item (by simp [member])⟩

/-! ### Reading -/

theorem isNull_iff (holds : column.Holds type items) {row : Int} (nonneg : 0 ≤ row) :
    column.isNull row = true ↔ (items.length : Int) ≤ row ∨ items[row.toNat]? = some none := by
  obtain ⟨row, rfl⟩ := Int.eq_ofNat_of_zero_le nonneg
  have rowCountEq := holds.represents.rowCount_eq
  rw [List.length_map] at rowCountEq
  by_cases inside : row < items.length
  · have cellAtRow : (items.map Item.cell)[row]? = some (Item.cell items[row]) := by
      rw [List.getElem?_map, List.getElem?_eq_getElem inside, Option.map_some]
    have notBehind : ¬(items.length : Int) ≤ row := by omega
    rw [holds.represents.isNull_eq cellAtRow, Item.isNone_cell, Option.isNone_iff_eq_none,
      or_iff_right notBehind, Int.toNat_natCast, List.getElem?_eq_getElem inside,
      Option.some.injEq]
  · have behind : column.rowCount.toInt ≤ row := by omega
    rw [isNull, if_pos (Or.inl behind)]
    simp only [true_iff]
    omega

/-- Reading values of one kind from their bytes recovers the items that are present. -/
private theorem map_read {α : Type} {toValue : α → Value} {read : List α}
    (holds : column.Holds type items)
    (kind : ∀ value : Value, value.HasType type → ∃ raw, toValue raw = value)
    (readEq : ∀ raws : List α, column.values = raws.flatMap (Value.bytes ∘ toValue) →
      read = raws) :
    read.map toValue = items.reduceOption := by
  have recovered : items.reduceOption ∈ Set.range (List.map toValue) := by
    rw [Set.range_list_map]
    intro value member
    exact kind value (Item.hasType_of_mem_reduceOption holds.typed value member)
  obtain ⟨raws, rawsEq⟩ := recovered
  rw [readEq raws, rawsEq]
  rw [holds.represents.values_eq, Item.packed_cells, ← rawsEq, List.flatMap_map]
  rfl

theorem map_integers (holds : column.Holds .integer items) :
    column.integers.map .integer = items.reduceOption := by
  apply holds.map_read
  · intro value typed
    cases value with
    | integer number => exact ⟨number, rfl⟩
    | _ => cases typed
  · intro raws valuesEq
    apply integers_of_values_eq
    rw [valuesEq, Cell.packed, List.flatMap_map]
    rfl

theorem map_floats (holds : column.Holds .float items) :
    column.floats.map .float = items.reduceOption := by
  apply holds.map_read
  · intro value typed
    cases value with
    | float number => exact ⟨number, rfl⟩
    | _ => cases typed
  · intro raws valuesEq
    have bounded : ∀ word ∈ raws.map fun number => number.bits.toNat, word < 2 ^ 64 := by
      intro word member
      obtain ⟨number, -, rfl⟩ := List.mem_map.mp member
      exact number.bits.toNat_lt
    have words := words_of_values_eq bounded (by
      rw [valuesEq, List.flatMap_map]
      rfl)
    have cancelled : (fun word => (⟨UInt64.ofNat word⟩ : Binary64)) ∘
        (fun number : Binary64 => number.bits.toNat) = id := by
      funext number
      rw [Function.comp, UInt64.ofNat_toNat]
      rfl
    rw [floats, words, List.map_map, cancelled, List.map_id]

theorem map_booleans (holds : column.Holds .boolean items) :
    column.booleans.map .boolean = items.reduceOption := by
  apply holds.map_read
  · intro value typed
    cases value with
    | boolean flag => exact ⟨flag, rfl⟩
    | _ => cases typed
  · intro raws valuesEq
    have single : (Value.bytes ∘ .boolean) = fun flag : Bool => [if flag then 1 else 0] := rfl
    have cancelled : ((fun byte : UInt8 => byte != 0) ∘ fun flag : Bool => if flag then 1 else 0) =
        id := by
      funext flag
      cases flag <;> rfl
    rw [booleans, valuesEq, single, ← List.map_eq_flatMap, List.map_map, cancelled, List.map_id]

end Holds

/-- The texts of a column with one offset per row are its cells without the nulls. -/
theorem texts_eq_reduceOption (offsetsEq : column.offsets.length = column.rowCount.toInt.toNat) :
    column.texts = (column.cells .text).reduceOption := by
  rw [texts, cells, offsetsEq, ← List.filterMap_eq_map, List.filterMap_filter, List.reduceOption,
    List.filterMap_map]
  apply List.filterMap_congr
  intro row _
  simp only [Function.comp, cellAt, valueAt, id]
  cases column.isNull row <;> rfl

namespace Holds

theorem map_texts (holds : column.Holds type items) (text : type.storage = .text)
    (countable : Item.Countable items) : column.texts.map .text = items.reduceOption := by
  have represents := holds.represents
  have addressable := holds.addressable countable
  rw [text] at represents addressable
  have offsetsEq : column.offsets.length = column.rowCount.toInt.toNat := by
    rw [represents.offsets_eq, Storage.offsets, Cell.length_starts, represents.rowCount_eq,
      Int.toNat_natCast]
  rw [texts_eq_reduceOption offsetsEq, represents.cells_eq addressable, Item.reduceOption_cells,
    List.map_map]
  have unchanged : ∀ value ∈ items.reduceOption, (Value.text ∘ Value.bytes) value = id value := by
    intro value member
    have typed := Item.hasType_of_mem_reduceOption holds.typed value member
    cases value with
    | text bytes => rfl
    | _ =>
      have same : type = _ := typed
      subst same
      cases text
  rw [List.map_congr_left unchanged, List.map_id]

/-- The values that are read are the items that are present. -/
theorem present_eq (kept : type.storage ≠ .absent) (holds : column.Holds type items)
    (countable : Item.Countable items) : column.present type = items.reduceOption := by
  rw [present]
  split
  next isInteger =>
    subst isInteger
    exact holds.map_integers
  next noInteger =>
    split
    next isFloat =>
      subst isFloat
      exact holds.map_floats
    next noFloat =>
      split
      next isBoolean =>
        subst isBoolean
        exact holds.map_booleans
      next noBoolean =>
        split
        next isText => exact holds.map_texts (ValueType.isText_iff.mp isText) countable
        next noText =>
          have noString : type ≠ .string := fun same => noText (same ▸ rfl)
          have noTag : type ≠ .tag := fun same => noText (same ▸ rfl)
          have absent : type.storage = .absent := by
            rw [ValueType.storage_eq_absent_iff]
            simp [noInteger, noFloat, noBoolean, noString, noTag]
          exact absurd absent kept

theorem readsAs (kept : type.storage ≠ .absent) (holds : column.Holds type items)
    (countable : Item.Countable items) : column.ReadsAs type items where
  isNull_iff := fun _ nonneg => holds.isNull_iff nonneg
  present_eq := holds.present_eq kept countable
  layoutError?_eq_none := ((wellFormed_iff type column).mpr
    (holds.represents.consistent (holds.addressable countable))).layoutError?_eq_none

end Holds

end Column

namespace Edit

variable {type : ValueType} {items : List Item} {column : Column}

/-- One edit does to the column what it does to the list of items. -/
theorem run_holds {edit : Edit} (kept : type.storage ≠ .absent)
    (typed : edit.HasType type) (holds : column.Holds type items)
    (before : Item.Countable items) (after : Item.Countable (edit.apply items)) :
    ∃ edited, edit.run type column = .ok edited ∧ edited.Holds type (edit.apply items) := by
  have rowsFit := after.1
  cases edit with
  | append item =>
    rw [apply, List.length_append] at rowsFit
    exact ⟨_, rfl, holds.appendItem typed rowsFit⟩
  | integers values =>
    rw [apply, List.length_append, List.length_map] at rowsFit
    exact ⟨_, rfl, holds.appendEach (fun value => some (.integer value)) (fun _ _ => rfl)
      (fun _ _ => Item.hasType_some typed) rowsFit⟩
  | floats values =>
    rw [apply, List.length_append, List.length_map] at rowsFit
    exact ⟨_, rfl, holds.appendEach (fun value => some (.float value)) (fun _ _ => rfl)
      (fun _ _ => Item.hasType_some typed) rowsFit⟩
  | booleans values =>
    rw [apply, List.length_append, List.length_map] at rowsFit
    exact ⟨_, rfl, holds.appendEach (fun value => some (.boolean value)) (fun _ _ => rfl)
      (fun _ _ => Item.hasType_some typed) rowsFit⟩
  | texts values =>
    rw [apply, List.length_append, List.length_map] at rowsFit
    exact ⟨_, rfl, holds.appendEach (fun value => some (.text value)) (fun _ _ => rfl)
      (fun _ _ => Item.hasType_some typed) rowsFit⟩
  | nulls count =>
    rw [apply, List.length_append, List.length_replicate] at rowsFit
    exact ⟨_, rfl, holds.appendNulls rowsFit⟩
  | removeLast => exact holds.removeLast kept before
  | clear => exact ⟨_, rfl, Column.Holds.empty⟩

/-- Edits do to the column what they do to the list of items. -/
theorem runAll_holds {edits : List Edit} (kept : type.storage ≠ .absent)
    (typed : ∀ edit ∈ edits, edit.HasType type) (holds : column.Holds type items)
    (countable : Item.CountableThrough items edits) :
    ∃ edited, runAll type edits column = .ok edited ∧
      edited.Holds type (applyAll items edits) := by
  induction edits generalizing items column with
  | nil => exact ⟨column, rfl, holds⟩
  | cons edit rest ih =>
    obtain ⟨next, nextEq, nextHolds⟩ := run_holds kept (typed edit List.mem_cons_self) holds
      countable.1 countable.2.first
    obtain ⟨edited, editedEq, editedHolds⟩ := ih
      (fun other member => typed other (List.mem_cons_of_mem edit member)) nextHolds countable.2
    refine ⟨edited, ?_, editedHolds⟩
    rw [runAll, List.foldlM_cons, nextEq]
    exact editedEq

/-- Edits of a column that holds a list of items succeed, and the column then holds what they make
of the list and is read as it. -/
theorem runAll_refines {edits : List Edit} (kept : type.storage ≠ .absent)
    (holds : column.Holds type items) (typed : ∀ edit ∈ edits, edit.HasType type)
    (countable : Item.CountableThrough items edits) :
    ∃ edited, runAll type edits column = .ok edited ∧
      edited.Holds type (applyAll items edits) ∧ edited.ReadsAs type (applyAll items edits) := by
  obtain ⟨edited, editedEq, editedHolds⟩ := runAll_holds kept typed holds countable
  exact ⟨edited, editedEq, editedHolds, editedHolds.readsAs kept countable.last⟩

/-- Two texts with a null between them. The bits of the rows lie behind six bits of other rows and
before stale ones. -/
def sharedTexts : Column :=
  ⟨3, 1, 6, [120, 121, 122], [107, 241], [0, 1, 1]⟩

theorem sharedTexts_holds :
    sharedTexts.Holds .tag [some (.text [120]), none, some (.text [121, 122])] := by
  have typed : ∀ item ∈ [some (.text [120]), none, some (.text [121, 122])],
      Item.HasType .tag item := by decide
  refine ⟨?_, typed⟩
  exact {
    rowCount_eq := rfl
    nullCount_eq := rfl
    bitOffset_nonneg := by decide
    values_eq := rfl
    validity_length := rfl
    validity_bit := by
      intro row cell cellAtRow
      match row with
      | 0 => cases cellAtRow; rfl
      | 1 => cases cellAtRow; rfl
      | 2 => cases cellAtRow; rfl
      | row + 3 => cases cellAtRow
    offsets_eq := rfl
    holds := List.forall_mem_map.mpr fun item member => Item.holds_cell (typed item member) }

/-- Edits that cross the end of a byte of the bitmap in both directions. -/
def textEdits : List Edit :=
  [.removeLast, .removeLast, .append none, .texts [[], [97, 98]], .nulls 3, .removeLast,
    .append (some (.text [99]))]

theorem runAll_sharedTexts :
    (∀ edit ∈ textEdits, edit.HasType .tag) ∧
      Item.CountableThrough [some (.text [120]), none, some (.text [121, 122])] textEdits ∧
      ∃ edited, runAll .tag textEdits sharedTexts = .ok edited ∧
        edited.Holds .tag [some (.text [120]), none, some (.text []), some (.text [97, 98]), none,
          none, some (.text [99])] ∧
        edited.ReadsAs .tag [some (.text [120]), none, some (.text []), some (.text [97, 98]), none,
          none, some (.text [99])] := by
  have typed : ∀ edit ∈ textEdits, edit.HasType .tag := by decide
  have countable : Item.CountableThrough
      [some (.text [120]), none, some (.text [121, 122])] textEdits := by decide +kernel
  exact ⟨typed, countable, runAll_refines (by decide) sharedTexts_holds typed countable⟩

end Edit

end Columnar
