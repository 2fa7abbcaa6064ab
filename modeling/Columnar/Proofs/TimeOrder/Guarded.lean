import Columnar.Proofs.Guarded
import Columnar.Proofs.TimeOrder.Runs
import Columnar.TimeOrder.Guarded

/-!
# Time orders in reused buffers

Fewer than `2 ^ 31` timestamps have a guarded time order, whatever the buffers held before: each
step writes all that a later one reads.  It is the time order of the timestamps
(`exists_rebuild?`), which takes the sorted rows apart into runs (`rebuild?_decomposes`).

The walk over the sort positions finds the groups of sorted rows that join with each other.  Its
invariant is the part of the sorted rows since the current run started (`boundsFrom?_eq`).
-/

namespace Columnar

/-- The first and the last sort position of a run. -/
def Run.ends (run : Run) : List Nat :=
  [run.first, run.last]

namespace OrderBuffers

open TimeOrder Guarded

/-- The buffers hold a time order, and the rows of its first `2 ^ 30` runs are read from them. A
run has two bounds, so the place of the first bound of a later run is no word. -/
structure Holds (order : TimeOrder) (buffers : OrderBuffers) : Prop where
  rows_eq : buffers.rows.map Int32.toInt = order.rows.map Nat.cast
  times_eq : buffers.times = order.times
  bounds_eq : buffers.bounds.map Int32.toInt = (order.runs.flatMap Run.ends).map Nat.cast
  rowRange?_eq : ∀ (index : Nat) (range : RowRange), index < 2 ^ 30 →
    order.rowRanges[index]? = some range → buffers.rowRange? index = some range

variable {times : List Int64} {buffers : OrderBuffers}

theorem toInt_map_ofNat {numbers : List Nat} (numbersLt : ∀ number ∈ numbers, number < 2 ^ 31) :
    (numbers.map Int32.ofNat).map Int32.toInt = numbers.map Nat.cast := by
  rw [List.map_map]
  apply List.map_congr_left
  intro number member
  exact Int32.toInt_ofNat_of_lt (numbersLt number member)

/-- A buffer is looked up with the word of a place as with the place. -/
theorem getElem?_word {α : Type} (entries : List α) {place : Nat} (placeLt : place < 2 ^ 31) :
    (if 0 ≤ Int32.ofNat place then entries[(Int32.ofNat place).toInt.toNat]? else none) =
      entries[place]? := by
  have value : (Int32.ofNat place).toInt = place := Int32.toInt_ofNat_of_lt placeLt
  have nonneg : 0 ≤ Int32.ofNat place := by
    rw [Int32.le_iff_toInt_le, value, Int32.toInt_zero]
    exact Int.natCast_nonneg place
  rw [if_pos nonneg, value, Int.toNat_natCast]

/-! ## Sorting -/

section Sorting

variable (timesLt : times.length < 2 ^ 31)
include timesLt

theorem start?_eq (buffers : OrderBuffers) :
    buffers.start? times =
      some { buffers with rows := (List.range times.length).map Int32.ofNat, times := times } := by
  have filled : fillFrom? (fun _ row => length? row) 0 times.length
      (resize 0 times.length buffers.rows) = some ((List.range times.length).map Int32.ofNat) := by
    apply fillFrom?_eq _ (length_resize _ _ _) (Nat.zero_add _) rfl
    intro _ row _ _ inside _
    exact length?_eq (Nat.lt_trans inside timesLt)
  rw [start?, filled]
  rfl

theorem timeOf?_eq (timesEq : buffers.times = times) {row : Nat} (inside : row < times.length) :
    buffers.timeOf? (Int32.ofNat row) = some (timeAt times row) := by
  rw [timeOf?, getElem?_word _ (Nat.lt_trans inside timesLt), timesEq, timeAt,
    List.getElem?_eq_getElem inside, Option.getD_some]

/-- Words stand for rows in the sort. -/
theorem mergeSort_rows (rowsEq : buffers.rows = (List.range times.length).map Int32.ofNat)
    (timesEq : buffers.times = times) :
    (buffers.rows.mergeSort fun first second =>
      (buffers.timeOf? first).getD 0 ≤ (buffers.timeOf? second).getD 0) =
        (sortedRows times).map Int32.ofNat := by
  rw [rowsEq, sortedRows]
  symm
  apply List.map_mergeSort
  intro first firstMember second secondMember
  rw [timeOf?_eq timesLt timesEq (List.mem_range.mp firstMember),
    timeOf?_eq timesLt timesEq (List.mem_range.mp secondMember)]
  rfl

/-- The spare buffer is filled with the timestamps of the sorted rows. -/
theorem fillFrom?_sortedTimes (timesEq : buffers.times = times) :
    fillFrom? (fun _ position =>
      ((sortedRows times).map Int32.ofNat)[position]?.bind buffers.timeOf?) 0 times.length
        (resize 0 times.length buffers.spare) = some ((sortedRows times).map (timeAt times)) := by
  have all := map_timeAt_range ((sortedRows times).map (timeAt times))
  rw [List.length_map, length_sortedRows] at all
  rw [← all]
  apply fillFrom?_eq _ (length_resize _ _ _) (Nat.zero_add _) rfl
  intro _ position _ _ inside _
  rw [← length_sortedRows] at inside
  have rowLt := (mem_sortedRows times).mp (List.getElem_mem inside)
  have timeEq : timeAt ((sortedRows times).map (timeAt times)) position =
      timeAt times (sortedRows times)[position] := by
    rw [timeAt, List.getElem?_map, List.getElem?_eq_getElem inside]
    rfl
  rw [List.getElem?_map, List.getElem?_eq_getElem inside, Option.map_some, Option.bind_some,
    timeOf?_eq timesLt timesEq rowLt, timeEq]

theorem sort?_eq (rowsEq : buffers.rows = (List.range times.length).map Int32.ofNat)
    (timesEq : buffers.times = times) :
    buffers.sort? =
      some { buffers with
        rows := (sortedRows times).map Int32.ofNat
        times := (sortedRows times).map (timeAt times)
        spare := times } := by
  have allTimed : buffers.rows.all (fun row => (buffers.timeOf? row).isSome) = true := by
    rw [List.all_eq_true, rowsEq, List.forall_mem_map]
    intro row member
    rw [timeOf?_eq timesLt timesEq (List.mem_range.mp member)]
    rfl
  rw [sort?, if_pos allTimed]
  simp only [mergeSort_rows timesLt rowsEq timesEq, List.length_map, length_sortedRows,
    fillFrom?_sortedTimes timesLt timesEq, timesEq, Option.bind_eq_bind, Option.bind_some]
  rfl

end Sorting

/-! ## Splitting into runs -/

section Splitting

variable {pairs : List (Nat × Int64)}

/-- A group of rows that join with each other ends before a row that does not join. -/
theorem splitBy_of_parted {current rest : List (Nat × Int64)} {pair next : Nat × Int64}
    (chain : (current ++ [pair]).IsChain fun first second => joins first second = true)
    (parted : joins pair next = false) :
    ((current ++ [pair]) ++ next :: rest).splitBy joins =
      (current ++ [pair]) :: (next :: rest).splitBy joins := by
  have lastParts : ∀ last ∈ (current ++ [pair]).getLast?, joins last next = false := by
    simp [parted]
  rw [List.splitBy_append_cons rest lastParts, List.splitBy_of_isChain (by simp) chain]
  rfl

/-- The buffers hold sorted rows, given with their timestamps, and the rows are words. -/
structure Timed (pairs : List (Nat × Int64)) (buffers : OrderBuffers) : Prop where
  rows_eq : buffers.rows = pairs.map fun pair => Int32.ofNat pair.1
  times_eq : buffers.times = pairs.map Prod.snd
  row_lt : ∀ pair ∈ pairs, pair.1 < 2 ^ 31
  length_lt : pairs.length < 2 ^ 31

namespace Timed

variable (timed : buffers.Timed pairs)
include timed

/-- A run ends where a sorted row does not join with the next one. -/
theorem parts?_eq {position : Nat} {first second : Nat × Int64}
    (firstAt : pairs[position]? = some first) (secondAt : pairs[position + 1]? = some second) :
    buffers.parts? position = some !joins first second := by
  have firstValue : (Int32.ofNat first.1).toInt = first.1 :=
    Int32.toInt_ofNat_of_lt (timed.row_lt first (List.mem_of_getElem? firstAt))
  have secondValue : (Int32.ofNat second.1).toInt = second.1 :=
    Int32.toInt_ofNat_of_lt (timed.row_lt second (List.mem_of_getElem? secondAt))
  have firstLt := timed.row_lt first (List.mem_of_getElem? firstAt)
  have secondLt := timed.row_lt second (List.mem_of_getElem? secondAt)
  obtain ⟨distance, distanceEq, value⟩ :=
    @exists_word? ((Int32.ofNat second.1).toInt - (Int32.ofNat first.1).toInt)
      (by omega) (by omega)
  have successor : distance = 1 ↔ second.1 = first.1 + 1 := by
    rw [← Int32.toInt_inj, value, Int32.toInt_one, firstValue, secondValue]
    omega
  simp only [parts?, timed.rows_eq, timed.times_eq, List.getElem?_map, firstAt, secondAt,
    Option.map_some, Option.bind_eq_bind, Option.bind_some, sub?, distanceEq, ne_eq, successor,
    joins]
  simp

/-- The walk finds the groups of sorted rows that join with each other. Its current run started
behind `front`, has `current` behind it and is at `pair`. -/
theorem boundsFrom?_eq {front current rest : List (Nat × Int64)} {pair : Nat × Int64}
    (pairsEq : pairs = front ++ (current ++ pair :: rest))
    (chain : (current ++ [pair]).IsChain fun first second => joins first second = true) :
    buffers.boundsFrom? front.length (front.length + current.length) rest.length =
      some (((runsOfSizes front.length
        (((current ++ pair :: rest).splitBy joins).map List.length)).flatMap Run.ends).map
          Int32.ofNat) := by
  have wordEq (position : Nat) (inside : position < pairs.length) :
      length? position = some (Int32.ofNat position) :=
    length?_eq (Nat.lt_trans inside timed.length_lt)
  induction rest generalizing front current pair with
  | nil =>
    have lengthEq := congrArg List.length pairsEq
    rw [List.length_append, List.length_append, List.length_singleton] at lengthEq
    have whole := List.splitBy_of_isChain (by simp) chain
    rw [List.length_nil, boundsFrom?, wordEq _ (by omega), wordEq _ (by omega), whole,
      List.map_singleton, List.length_append, List.length_singleton]
    rfl
  | cons next rest ih =>
    have pairAt : pairs[front.length + current.length]? = some pair := by simp [pairsEq]
    have nextAt : pairs[front.length + current.length + 1]? = some next := by
      simp [pairsEq, Nat.add_assoc]
    have regrouped : current ++ pair :: next :: rest = (current ++ [pair]) ++ next :: rest := by
      simp
    rw [regrouped] at pairsEq
    rw [List.length_cons, boundsFrom?, timed.parts?_eq pairAt nextAt, Option.bind_eq_bind,
      Option.bind_some, regrouped]
    cases joined : joins pair next with
    | true =>
      -- The run goes on with the next row.
      have longer : ((current ++ [pair]) ++ [next]).IsChain fun first second =>
          joins first second = true := by
        rw [List.append_assoc]
        exact List.isChain_append_cons_cons.mpr ⟨chain, joined, .singleton next⟩
      have found := ih pairsEq longer
      rw [List.length_append, List.length_singleton, ← Nat.add_assoc] at found
      exact found
    | false =>
      -- The run ends here, and the next one starts.
      rw [← List.append_assoc] at pairsEq
      have found := @ih (front ++ (current ++ [pair])) [] next pairsEq (.singleton next)
      rw [List.length_append, List.length_append, List.length_singleton, List.length_nil,
        Nat.add_zero, List.nil_append, ← Nat.add_assoc] at found
      have lengthEq := congrArg List.length pairsEq
      rw [List.length_append, List.length_append, List.length_append, List.length_singleton,
        List.length_cons] at lengthEq
      rw [wordEq _ (by omega), wordEq _ (by omega), splitBy_of_parted chain joined, List.map_cons,
        List.length_append, List.length_singleton, runsOfSizes, ← Nat.add_assoc]
      simp only [found, Option.bind_eq_bind, Option.bind_some, Bool.not_false, if_true]
      rfl

/-- The runs of the sorted rows replace whatever bounds the buffers held. -/
theorem splitRuns?_eq :
    buffers.splitRuns? =
      some { buffers with
        bounds := ((runsOfSizes 0 ((pairs.splitBy joins).map List.length)).flatMap Run.ends).map
          Int32.ofNat } := by
  have rowsLength : buffers.rows.length = pairs.length := by rw [timed.rows_eq, List.length_map]
  rw [splitRuns?, rowsLength, length?_eq timed.length_lt, Option.bind_eq_bind, Option.bind_some]
  cases pairs_eq : pairs with
  | nil => rfl
  | cons pair rest =>
    have lengthLt := timed.length_lt
    rw [pairs_eq] at lengthLt
    have someRows : Int32.ofNat (pair :: rest).length ≠ 0 := by
      intro none
      have value := Int32.toInt_ofNat_of_lt lengthLt
      rw [none, Int32.toInt_zero, List.length_cons] at value
      omega
    have found := @boundsFrom?_eq _ _ timed [] [] rest pair pairs_eq (.singleton pair)
    rw [List.length_nil, Nat.add_zero, List.nil_append] at found
    rw [if_neg someRows, List.length_cons, Nat.add_sub_cancel, found]
    rfl

end Timed

end Splitting

/-! ## Whole orders -/

theorem timed_sorted (timesLt : times.length < 2 ^ 31)
    (rowsEq : buffers.rows = (sortedRows times).map Int32.ofNat)
    (timesEq : buffers.times = (sortedRows times).map (timeAt times)) :
    buffers.Timed (timedRows times) where
  rows_eq := by
    rw [rowsEq, timedRows, List.map_map]
    rfl
  times_eq := by
    rw [timesEq, timedRows, List.map_map]
    rfl
  row_lt := by
    intro pair member
    obtain ⟨row, rowMember, rfl⟩ := List.mem_map.mp member
    exact Nat.lt_trans ((mem_sortedRows times).mp rowMember) timesLt
  length_lt := by
    rw [length_timedRows]
    exact timesLt

theorem lt_of_mem_ends {order : TimeOrder} {position : Nat}
    (member : position ∈ (order.rebuild times).runs.flatMap Run.ends) :
    position < times.length := by
  obtain ⟨run, runMember, endMember⟩ := List.mem_flatMap.mp member
  have firstLe := (isRun_rebuild times order runMember).first_le
  have lastLt := last_lt_of_mem_runs runMember
  rcases List.mem_cons.mp endMember with rfl | behind
  · exact Nat.lt_of_le_of_lt firstLe lastLt
  · rw [List.mem_singleton.mp behind]
    exact lastLt

/-- Nothing that the buffers held is left. -/
theorem rebuild?_eq (timesLt : times.length < 2 ^ 31) (buffers : OrderBuffers) :
    buffers.rebuild? times =
      some {
        rows := (sortedRows times).map Int32.ofNat
        times := (sortedRows times).map (timeAt times)
        bounds := ((runsOfSizes 0
          (((timedRows times).splitBy joins).map List.length)).flatMap Run.ends).map Int32.ofNat
        spare := times } := by
  rw [rebuild?, start?_eq timesLt, Option.bind_eq_bind, Option.bind_some,
    sort?_eq timesLt rfl rfl, Option.bind_some, (timed_sorted timesLt rfl rfl).splitRuns?_eq]

theorem rebuild?_congr (timesLt : times.length < 2 ^ 31) (first second : OrderBuffers) :
    first.rebuild? times = second.rebuild? times := by
  rw [rebuild?_eq timesLt, rebuild?_eq timesLt]

/-! ## Reading runs -/

theorem getElem?_ends {runs : List Run} {index : Nat} {run : Run}
    (runAt : runs[index]? = some run) :
    (runs.flatMap Run.ends)[2 * index]? = some run.first ∧
      (runs.flatMap Run.ends)[2 * index + 1]? = some run.last := by
  induction runs generalizing index with
  | nil => cases runAt
  | cons head rest ih =>
    cases index with
    | zero =>
      rw [List.getElem?_cons_zero] at runAt
      rw [Option.some.inj runAt]
      exact ⟨rfl, rfl⟩
    | succ index => exact ih runAt

section Reading

variable (timesLt : times.length < 2 ^ 31)
  (rowsEq : buffers.rows = (sortedRows times).map Int32.ofNat)
include timesLt rowsEq

theorem rowAt?_eq (order : TimeOrder) {position : Nat} (inside : position < times.length) :
    buffers.rowAt? (Int32.ofNat position) =
      some (Int32.ofNat ((order.rebuild times).rowAt position)) := by
  have placeLt := Nat.lt_trans inside timesLt
  rw [← length_sortedRows] at inside
  rw [rowAt?, getElem?_word _ placeLt, rowsEq, List.getElem?_map, rowAt, rows_rebuild,
    List.getElem?_eq_getElem inside]
  rfl

theorem rowRange?_eq {order : TimeOrder} {index : Nat} {range : RowRange}
    (indexLt : index < 2 ^ 30)
    (boundsEq : buffers.bounds = ((order.rebuild times).runs.flatMap Run.ends).map Int32.ofNat)
    (rangeAt : (order.rebuild times).rowRanges[index]? = some range) :
    buffers.rowRange? index = some range := by
  rw [rowRanges, List.getElem?_map, Option.map_eq_some_iff] at rangeAt
  obtain ⟨run, runAt, rfl⟩ := rangeAt
  obtain ⟨firstAt, lastAt⟩ := getElem?_ends runAt
  have member := List.mem_of_getElem? runAt
  have lastLt := last_lt_of_mem_runs member
  have firstLt := Nat.lt_of_le_of_lt (isRun_rebuild times order member).first_le lastLt
  have rowLt (position : Nat) : (order.rebuild times).rowAt position < times.length :=
    rowAt_lt (Nat.zero_lt_of_lt lastLt) position
  have value {number : Nat} (numberLe : number ≤ times.length) :
      (Int32.ofNat number).toInt.toNat = number := by
    rw [Int32.toInt_ofNat_of_lt (Nat.lt_of_le_of_lt numberLe timesLt), Int.toNat_natCast]
  have placeEq : product? (length? index) (length? 2) = some (Int32.ofNat (2 * index)) := by
    rw [product?_length? index (by decide) (by decide), Nat.mul_comm]
    exact length?_eq (by omega)
  have behindEq := @add?_one_eq (2 * index) (by omega)
  have endEq := add?_one_eq (Nat.lt_of_le_of_lt (rowLt run.last) timesLt)
  have placeValue : (Int32.ofNat (2 * index)).toInt.toNat = 2 * index := by
    rw [Int32.toInt_ofNat_of_lt (by omega), Int.toNat_natCast]
  have behindValue : (Int32.ofNat (2 * index + 1)).toInt.toNat = 2 * index + 1 := by
    rw [Int32.toInt_ofNat_of_lt (by omega), Int.toNat_natCast]
  simp only [rowRange?, placeEq, behindEq, placeValue, behindValue, boundsEq, List.getElem?_map,
    firstAt, lastAt, Option.map_some, Option.bind_eq_bind, Option.bind_some,
    rowAt?_eq timesLt rowsEq order firstLt, rowAt?_eq timesLt rowsEq order lastLt, endEq,
    value (Nat.le_of_lt firstLt), value (Nat.le_of_lt (rowLt run.first)), value (rowLt run.last)]
  rfl

end Reading

theorem rowRange?_eq_none {index : Nat} (indexGe : 2 ^ 30 ≤ index) (buffers : OrderBuffers) :
    buffers.rowRange? index = none := by
  have noPlace : product? (length? index) (length? 2) = none := by
    rw [product?_length? index (by decide) (by decide)]
    exact length?_eq_none_iff.mpr (by omega)
  rw [rowRange?, noPlace]
  rfl

/-- The time order of fewer than `2 ^ 31` timestamps is found without a number that is no word and
without an entry that is not there. -/
theorem exists_rebuild? (timesLt : times.length < 2 ^ 31) (buffers : OrderBuffers)
    (order : TimeOrder) :
    ∃ rebuilt, buffers.rebuild? times = some rebuilt ∧ rebuilt.Holds (order.rebuild times) := by
  have rebuiltEq := rebuild?_eq timesLt buffers
  rw [← runs_rebuild times order] at rebuiltEq
  refine ⟨_, rebuiltEq, ?_, ?_, ?_, ?_⟩
  · rw [rows_rebuild]
    apply toInt_map_ofNat
    intro row member
    exact Nat.lt_trans ((mem_sortedRows times).mp member) timesLt
  · rw [times_rebuild]
  · apply toInt_map_ofNat
    intro position member
    exact Nat.lt_trans (lt_of_mem_ends member) timesLt
  · intro index range indexLt rangeAt
    exact rowRange?_eq timesLt rfl indexLt rfl rangeAt

/-- Fewer than `2 ^ 31` timestamps are ordered in buffers with any content, and the order takes
their rows apart into runs that are as long as possible. -/
theorem rebuild?_decomposes (timesLt : times.length < 2 ^ 31) (buffers : OrderBuffers)
    (order : TimeOrder) :
    ∃ rebuilt, buffers.rebuild? times = some rebuilt ∧ rebuilt.Holds (order.rebuild times) ∧
      (order.rebuild times).Decomposes times := by
  obtain ⟨rebuilt, rebuiltEq, holds⟩ := exists_rebuild? timesLt buffers order
  exact ⟨rebuilt, rebuiltEq, holds, decomposes_rebuild times order⟩

/-- Buffers of different lengths that hold no order. -/
def staleBuffers : OrderBuffers :=
  ⟨[5, 6, 7, 8, 9], [1], [3, 3, 3], [7, 7, 7, 7, 7, 7, 7, 7]⟩

/-- Each of more than `2 ^ 30` equal timestamps is a run of its own, and the last of these runs has no
range of rows. -/
theorem rowRange?_equalTimes :
    (List.replicate (2 ^ 30 + 1) (0 : Int64)).length < 2 ^ 31 ∧
      ∃ (rebuilt : OrderBuffers) (range : RowRange),
        staleBuffers.rebuild? (List.replicate (2 ^ 30 + 1) 0) = some rebuilt ∧
        (empty.rebuild (List.replicate (2 ^ 30 + 1) 0)).rowRanges[2 ^ 30]? = some range ∧
        rebuilt.rowRange? (2 ^ 30) = none := by
  have lengthLt : (List.replicate (2 ^ 30 + 1) (0 : Int64)).length < 2 ^ 31 := by
    rw [List.length_replicate]
    omega
  obtain ⟨rebuilt, rebuiltEq, -⟩ := exists_rebuild? lengthLt staleBuffers empty
  have inside : 2 ^ 30 < (empty.rebuild (List.replicate (2 ^ 30 + 1) (0 : Int64))).rowRanges.length := by
    rw [rowRanges, List.length_map, length_runs_replicate]
    omega
  exact ⟨lengthLt, rebuilt, _, rebuiltEq, List.getElem?_eq_getElem inside,
    rowRange?_eq_none (Nat.le_refl _) rebuilt⟩

/-- Seven timestamps. The fourth is the last in order, and the last two are equal. -/
def sevenTimes : List Int64 :=
  [1, 2, 3, 7, 5, 6, 6]

/-- The buffers that hold the order of the seven timestamps. -/
def sevenOrdered : OrderBuffers :=
  ⟨[0, 1, 2, 4, 5, 6, 3], [1, 2, 3, 5, 6, 6, 7], [0, 2, 3, 4, 5, 5, 6, 6], sevenTimes⟩

theorem rebuild?_staleBuffers :
    sevenTimes.length < 2 ^ 31 ∧
      staleBuffers.rebuild? sevenTimes = some sevenOrdered ∧
      sevenOrdered.Holds (empty.rebuild sevenTimes) ∧
      (empty.rebuild sevenTimes).Decomposes sevenTimes := by
  have timesLt : sevenTimes.length < 2 ^ 31 := by decide
  have sorted : sortedRows sevenTimes = [0, 1, 2, 4, 5, 6, 3] := by cbv
  have found : staleBuffers.rebuild? sevenTimes = some sevenOrdered := by
    rw [rebuild?_eq timesLt, timedRows, sorted]
    decide
  obtain ⟨rebuilt, rebuiltEq, holds, decomposes⟩ := rebuild?_decomposes timesLt staleBuffers empty
  rw [found] at rebuiltEq
  cases rebuiltEq
  exact ⟨timesLt, found, holds, decomposes⟩

end OrderBuffers

end Columnar
