import Columnar.Column.Guarded

/-!
# Null index

Only present values are kept in a column, so the value of a row lies as many places before the
row's number as there are nulls in front of it.  A null index holds these numbers of nulls for
one column.

One index serves many columns in turn.  For a column without nulls only the total is set, and
what the index holds of an earlier column is not looked at.

A guarded rebuild works in the entries that the index has.  They are resized, which keeps what they
held, the first one becomes zero, and each later one is computed from the one before it.  It stops
where it must not go: at a count that is no signed 32-bit word, at a row that cannot be looked up,
and at an entry that is not there.
-/

namespace Columnar

/-- The nulls in front of each row of a column. -/
structure NullIndex where
  /-- Null rows in the whole column. -/
  total : Int
  /-- At each position the number of null rows before it, where `total` is positive. -/
  before : List Int
deriving DecidableEq, Repr

namespace NullIndex

/-- The index of a column without nulls. -/
def empty : NullIndex :=
  ⟨0, []⟩

/-- Prepares the index for a column with `total` nulls and for `size` positions, of which the
first has no null before it. Without nulls the entries stay as they are. -/
def start (total : Int) (size : Nat) (index : NullIndex) : NullIndex :=
  if total = 0 then
    { index with total := total }
  else
    ⟨total, (resize 0 size index.before).set 0 0⟩

/-- Replaces one entry. -/
def set (position : Nat) (count : Int) (index : NullIndex) : NullIndex :=
  { index with before := index.before.set position count }

/-- The place of a row's value among the present values. -/
def rank (index : NullIndex) (row : Int) : Int :=
  if 0 < index.total then row - index.before[row.toNat]?.getD 0 else row

/-- `count` running numbers of nulls, from `row` on, when `nulls` were seen before it. -/
def runningCounts (column : Column) : (row : Nat) → (nulls : Int) → (count : Nat) → List Int
  | _, _, 0 => []
  | row, nulls, count + 1 =>
    nulls :: runningCounts column (row + 1) (if column.isNull row then nulls + 1 else nulls) count

/-- The index of a column for `size` positions, in place of an earlier one. -/
def rebuild (column : Column) (size : Nat) (index : NullIndex) : NullIndex :=
  if column.nullCount = 0 then
    { index with total := 0 }
  else
    ⟨column.nullCount.toInt, runningCounts column 0 0 size⟩

/-! ## Guarded indices -/

/-- The place of a row's value among the present values, as `rank` says it. -/
def rank? (index : NullIndex) (row : Int) : Option Int :=
  if 0 < index.total then do
    let before ← if 0 ≤ row then index.before[row.toNat]? else none
    Guarded.int? (row - before)
  else
    some row

/-- The number of nulls in front of a row that is not the first, from the number in front of the
row before it. -/
def nullsBefore? (column : Column) (counts : List Int) (row : Nat) : Option Int := do
  let nulls ← counts[row - 1]?
  let earlier ← Guarded.length? (row - 1)
  let null ← column.isNull? earlier
  if null then Guarded.int? (nulls + 1) else some nulls

/-- The index of a column for `size` positions, as `rebuild` makes it. -/
def rebuild? (column : Column) (size : Nat) (index : NullIndex) : Option NullIndex := do
  let positions ← Guarded.length? size
  let started := index.start column.nullCount.toInt size
  if column.nullCount = 0 then
    return started
  else if 0 < positions then
    let before ← Guarded.fillFrom? (nullsBefore? column) 1 (size - 1) started.before
    return { started with before := before }
  else
    none

/-! ## Entries -/

@[simp] theorem rank_of_total_eq_zero {index : NullIndex} (noNulls : index.total = 0) (row : Int) :
    index.rank row = row := by
  simp [rank, noNulls]

@[simp] theorem length_runningCounts (column : Column) (row : Nat) (nulls : Int) (count : Nat) :
    (runningCounts column row nulls count).length = count := by
  induction count generalizing row nulls with
  | zero => rfl
  | succ count ih => simp [runningCounts, ih]

theorem getElem?_runningCounts (column : Column) (row position count : Nat) (nulls : Int)
    (positionLt : position < count) :
    (runningCounts column row nulls count)[position]? =
      some (nulls + ((List.range' row position).countP fun (other : Nat) => column.isNull other)) := by
  induction position generalizing row nulls count with
  | zero =>
    cases count with
    | zero => exact absurd positionLt (Nat.lt_irrefl 0)
    | succ count => simp [runningCounts]
  | succ position ih =>
    cases count with
    | zero => exact absurd positionLt (Nat.not_lt_zero _)
    | succ count =>
      rw [runningCounts, List.getElem?_cons_succ, ih _ _ _ (Nat.lt_of_succ_lt_succ positionLt),
        List.range'_succ, List.countP_cons]
      by_cases null : column.isNull row = true
      · simp only [null, if_true]
        congr 1
        omega
      · simp [null]

end NullIndex

end Columnar
