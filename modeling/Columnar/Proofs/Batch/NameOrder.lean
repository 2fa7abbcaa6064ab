import Columnar.Batch.Validation
import Columnar.Proofs.TimeOrder

/-!
# The order of names

Fields are put into the order of their names with the time field behind all others.  This is a
total order up to fields of one name, so the rearranged fields are sorted, and names of which no
two neighbours are equal then ascend strictly up to the time field, which is the last.

The rearrangement permutes the pairs of a field and its column, never parts them, and leaves those
whose fields have one name in the order in which they came.
-/

namespace Columnar

namespace Field

/-- Whether a name may stand before another one. -/
def MayPrecede (first second : Bytes) : Prop :=
  second = timeName ∨ first ≠ timeName ∧ first ≤ second

theorem not_precedes_iff (first second : Field) :
    (!second.precedes first) = true ↔ MayPrecede first.name second.name := by
  rw [Bool.not_eq_true', precedes, MayPrecede]
  by_cases secondTime : second.name = timeName
  · simp [secondTime]
  · by_cases firstTime : first.name = timeName
    · simp [secondTime, firstTime]
    · simp [secondTime, firstTime]

theorem mayPrecede_trans {first second third : Bytes} (before : MayPrecede first second)
    (behind : MayPrecede second third) : MayPrecede first third := by
  rcases behind with thirdTime | ⟨secondOther, behind⟩
  · exact Or.inl thirdTime
  · rcases before with secondTime | ⟨firstOther, before⟩
    · exact absurd secondTime secondOther
    · exact Or.inr ⟨firstOther, List.le_trans before behind⟩

theorem mayPrecede_total (first second : Bytes) :
    MayPrecede first second ∨ MayPrecede second first := by
  by_cases secondTime : second = timeName
  · exact Or.inl (Or.inl secondTime)
  · by_cases firstTime : first = timeName
    · exact Or.inr (Or.inl firstTime)
    · rcases List.le_total first second with before | behind
      · exact Or.inl (Or.inr ⟨firstTime, before⟩)
      · exact Or.inr (Or.inr ⟨secondTime, behind⟩)

/-- Names that differ from their neighbours ascend strictly where they ascend. -/
theorem pairwise_lt_of_le {names : List Bytes} (ascending : names.Pairwise (· ≤ ·))
    (distinct : names.IsChain (· ≠ ·)) : names.Pairwise (· < ·) := by
  have strict : names.IsChain (· < ·) := by
    induction names with
    | nil => exact .nil
    | cons first rest ih =>
      cases rest with
      | nil => exact .singleton first
      | cons second others =>
        obtain ⟨before, restAscending⟩ := List.pairwise_cons.mp ascending
        obtain ⟨different, restDistinct⟩ := List.isChain_cons_cons.mp distinct
        apply List.isChain_cons_cons.mpr
        constructor
        · rcases List.le_iff_lt_or_eq.mp (before second List.mem_cons_self) with less | same
          · exact less
          · exact absurd same different
        · exact ih restAscending restDistinct
  exact strict.pairwise

/-- The time name is the last of names in order, and the only one of its kind, if no two
neighbours are equal. -/
theorem time_last_of_sorted {names : List Bytes} (sorted : names.Pairwise MayPrecede)
    (distinct : names.IsChain (· ≠ ·)) (hasTime : timeName ∈ names) :
    ∃ front, names = front ++ [timeName] ∧ timeName ∉ front ∧ front.Pairwise (· < ·) := by
  obtain ⟨front, behind, rfl, noTime⟩ := List.eq_append_cons_of_mem hasTime
  obtain ⟨frontSorted, behindSorted, -⟩ := List.pairwise_append.mp sorted
  have frontAscending : front.Pairwise (· ≤ ·) := by
    apply frontSorted.imp_of_mem
    rintro first second - secondMem (secondTime | ⟨-, before⟩)
    · rw [secondTime] at secondMem
      exact absurd secondMem noTime
    · exact before
  have nothingBehind : behind = [] := by
    cases behind with
    | nil => rfl
    | cons next rest =>
      have different := (List.isChain_cons_cons.mp distinct.right_of_append).1
      rcases (List.pairwise_cons.mp behindSorted).1 next List.mem_cons_self with
        nextTime | ⟨timeOther, -⟩
      · exact absurd nextTime.symm different
      · exact absurd rfl timeOther
  rw [nothingBehind]
  exact ⟨front, rfl, noTime, pairwise_lt_of_le frontAscending distinct.left_of_append⟩

end Field

namespace Batch

variable {batch : Batch}

/-- The names of the fields, in order. -/
def names (batch : Batch) : List Bytes :=
  batch.schema.map Field.name

/-! ## The rearrangement -/

/-- The pair at a position. -/
theorem getElem?_zip (columnPerField : batch.schema.length = batch.columns.length) {index : Nat}
    (inside : index < batch.columns.length) :
    (batch.schema.zip batch.columns)[index]? =
      some (batch.fieldAt index, batch.columnAt index) := by
  have fieldInside : index < batch.schema.length := by omega
  rw [List.getElem?_zip_eq_some, fieldAt, columnAt, List.getElem?_eq_getElem inside,
    List.getElem?_eq_getElem fieldInside]
  exact ⟨rfl, rfl⟩

/-- The fields with their columns, as they are after the rearrangement. -/
theorem zip_sortedByName (batch : Batch) :
    batch.sortedByName.schema.zip batch.sortedByName.columns =
      (batch.schema.zip batch.columns).mergeSort fun first second =>
        !second.1.precedes first.1 := by
  have unzipped := List.zip_unzip
    ((batch.schema.zip batch.columns).mergeSort fun first second => !second.1.precedes first.1)
  rw [List.unzip_eq_map] at unzipped
  exact unzipped

/-- No field is parted from its column. -/
theorem zip_sortedByName_perm (batch : Batch) :
    (batch.sortedByName.schema.zip batch.sortedByName.columns).Perm
      (batch.schema.zip batch.columns) := by
  rw [zip_sortedByName]
  exact List.mergeSort_perm _ _

theorem length_columns_sortedByName (batch : Batch) :
    batch.sortedByName.columns.length = batch.sortedByName.schema.length := by
  rw [sortedByName, List.length_map, List.length_map]

/-- Batches are told apart by the pairs of a field and its column. -/
theorem eq_of_zip_eq {first second : Batch}
    (firstLength : first.schema.length = first.columns.length)
    (secondLength : second.schema.length = second.columns.length)
    (zipEq : first.schema.zip first.columns = second.schema.zip second.columns) :
    first = second := by
  have fields := congrArg (List.map Prod.fst) zipEq
  have columns := congrArg (List.map Prod.snd) zipEq
  rw [List.map_fst_zip (Nat.le_of_eq firstLength),
    List.map_fst_zip (Nat.le_of_eq secondLength)] at fields
  rw [List.map_snd_zip (Nat.le_of_eq firstLength.symm),
    List.map_snd_zip (Nat.le_of_eq secondLength.symm)] at columns
  cases first
  cases second
  cases fields
  cases columns
  rfl

/-- The columns have no part in the order of the fields. -/
theorem schema_sortedByName (sameLength : batch.schema.length = batch.columns.length) :
    batch.sortedByName.schema =
      batch.schema.mergeSort fun first second => !second.precedes first := by
  have fields : (batch.schema.zip batch.columns).map Prod.fst = batch.schema :=
    List.map_fst_zip (Nat.le_of_eq sameLength)
  conv => rhs; rw [← fields]
  exact List.map_mergeSort fun _ _ _ _ => rfl

theorem schema_sortedByName_perm (sameLength : batch.schema.length = batch.columns.length) :
    batch.sortedByName.schema.Perm batch.schema := by
  have fields := (zip_sortedByName_perm batch).map Prod.fst
  rw [List.map_fst_zip (Nat.le_of_eq (length_columns_sortedByName batch).symm),
    List.map_fst_zip (Nat.le_of_eq sameLength)] at fields
  exact fields

theorem columns_sortedByName_perm (sameLength : batch.schema.length = batch.columns.length) :
    batch.sortedByName.columns.Perm batch.columns := by
  have columns := (zip_sortedByName_perm batch).map Prod.snd
  rw [List.map_snd_zip (Nat.le_of_eq (length_columns_sortedByName batch)),
    List.map_snd_zip (Nat.le_of_eq sameLength.symm)] at columns
  exact columns

theorem names_sortedByName_perm (sameLength : batch.schema.length = batch.columns.length) :
    batch.sortedByName.names.Perm batch.names :=
  (schema_sortedByName_perm sameLength).map Field.name

/-! ## The order of the pairs -/

private theorem not_precedes_trans (first second third : Field × Column) :
    (!second.1.precedes first.1) = true → (!third.1.precedes second.1) = true →
      (!third.1.precedes first.1) = true := by
  intro before behind
  rw [Field.not_precedes_iff] at before behind ⊢
  exact Field.mayPrecede_trans before behind

private theorem not_precedes_total (first second : Field × Column) :
    (!second.1.precedes first.1 || !first.1.precedes second.1) = true := by
  rw [Bool.or_eq_true, Field.not_precedes_iff, Field.not_precedes_iff]
  exact Field.mayPrecede_total first.1.name second.1.name

theorem pairwise_zip_sortedByName (batch : Batch) :
    (batch.sortedByName.schema.zip batch.sortedByName.columns).Pairwise fun first second =>
      second.1.precedes first.1 = false := by
  rw [zip_sortedByName]
  apply (List.pairwise_mergeSort not_precedes_trans not_precedes_total _).imp
  intro first second ordered
  simpa using ordered

/-- Fields of one name, with their columns, are not rearranged among themselves. -/
theorem filter_zip_sortedByName (batch : Batch) (name : Bytes) :
    (batch.sortedByName.schema.zip batch.sortedByName.columns).filter (·.1.name = name) =
      (batch.schema.zip batch.columns).filter (·.1.name = name) := by
  rw [zip_sortedByName]
  apply filter_mergeSort not_precedes_trans not_precedes_total
  intro first second firstSelected secondSelected
  simp only [decide_eq_true_eq] at firstSelected secondSelected
  rw [Field.not_precedes_iff, firstSelected, secondSelected]
  exact Or.elim (Field.mayPrecede_total name name) id id

theorem pairwise_names_sortedByName (batch : Batch) :
    batch.sortedByName.names.Pairwise Field.MayPrecede := by
  have fields := List.map_fst_zip (Nat.le_of_eq (length_columns_sortedByName batch).symm)
  rw [names, ← fields, List.map_map, List.pairwise_map]
  apply (pairwise_zip_sortedByName batch).imp
  intro first second ordered
  exact (Field.not_precedes_iff first.1 second.1).mp (by simp [ordered])

end Batch

end Columnar
