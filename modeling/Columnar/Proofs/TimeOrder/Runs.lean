import Columnar.Proofs.TimeOrder

/-!
# Runs of a time order

The runs of a rebuilt order take the sorted rows apart exactly.  They cover the sort positions in
order and without a gap (`positions_rebuild`), inside each of them every position continues the one
before it with the next row and a later timestamp (`isRun_rebuild`), and no two neighbours make up
one run together (`maximal_rebuild`).

What the sort positions of a run say about its rows follows from that alone: they are the range
that `TimeOrder.rowRange` reads off its two ends (`IsRun.rows_rowRange`).
-/

namespace Columnar

/-- The sort positions of a run. -/
def Run.positions (run : Run) : List Nat :=
  List.range' run.first (run.last + 1 - run.first)

/-- The rows of a range, in order. -/
def RowRange.rows (range : RowRange) : List Nat :=
  List.range' range.firstRow (range.endRow - range.firstRow)

namespace TimeOrder

/-! ## Groups of items -/

section Groups

variable {α : Type} {related : α → α → Bool} {groups : List (List α)}

/-- The item at a position is related to the one behind it. -/
def Linked (related : α → α → Bool) (items : List α) (position : Nat) : Prop :=
  ∃ first second, items[position]? = some first ∧ items[position + 1]? = some second ∧
    related first second = true

private theorem getElem?_behind (front group rest : List α) {offset : Nat}
    (inside : offset < group.length) :
    (front ++ (group ++ rest))[front.length + offset]? = some group[offset] := by
  rw [List.getElem?_append_right (Nat.le_add_right _ _), Nat.add_sub_cancel_left,
    List.getElem?_append_left inside, List.getElem?_eq_getElem inside]

/-- Runs of groups that are not empty cover the positions of the groups. -/
theorem positions_runsOfSizes (position : Nat) {sizes : List Nat}
    (nonempty : ∀ size ∈ sizes, 0 < size) :
    (runsOfSizes position sizes).flatMap Run.positions = List.range' position sizes.sum := by
  induction sizes generalizing position with
  | nil => rfl
  | cons size rest ih =>
    have positive := nonempty size List.mem_cons_self
    have own : position + size - 1 + 1 - position = size := by omega
    rw [runsOfSizes, List.flatMap_cons, Run.positions, own,
      ih _ fun other member => nonempty other (List.mem_cons_of_mem size member), List.sum_cons,
      List.range'_append_1]

variable (nonempty : ∀ group ∈ groups, group ≠ [])
include nonempty

/-- Inside the run of a group of related items every position is linked. -/
theorem linked_of_mem_runs (front : List α)
    (chained : ∀ group ∈ groups, group.IsChain fun first second => related first second = true) :
    ∀ run ∈ runsOfSizes front.length (groups.map List.length),
      run.first ≤ run.last ∧ ∀ position, run.first ≤ position → position < run.last →
        Linked related (front ++ groups.flatten) position := by
  induction groups generalizing front with
  | nil => nofun
  | cons group rest ih =>
    have positive := List.length_pos_iff.mpr (nonempty group List.mem_cons_self)
    have chain := List.isChain_iff_getElem.mp (chained group List.mem_cons_self)
    rw [List.map_cons, runsOfSizes, List.forall_mem_cons, List.flatten_cons]
    constructor
    · constructor
      · exact Nat.le_sub_one_of_lt (Nat.lt_add_of_pos_right positive)
      · intro position behind before
        obtain ⟨offset, rfl⟩ := Nat.exists_eq_add_of_le behind
        have inside : offset + 1 < group.length := by
          have reached : front.length + offset < front.length + group.length - 1 := before
          omega
        exact ⟨group[offset], group[offset + 1], getElem?_behind front _ _ (by omega),
          getElem?_behind front _ _ inside, chain offset inside⟩
    · rw [← List.append_assoc, ← List.length_append]
      exact ih (fun other member => nonempty other (List.mem_cons_of_mem group member)) _
        fun other member => chained other (List.mem_cons_of_mem group member)

/-- Where the last item of each group is not related to the first one of the next, a run is not
linked to the next run. -/
theorem chain_runsOfSizes (front : List α)
    (parted : groups.IsChain fun group next =>
      ∃ someItems someNext, related (group.getLast someItems) (next.head someNext) = false) :
    (runsOfSizes front.length (groups.map List.length)).IsChain fun run next =>
      run.first ≤ run.last ∧ run.last < next.last ∧
        ¬Linked related (front ++ groups.flatten) run.last := by
  induction groups generalizing front with
  | nil => exact .nil
  | cons group rest ih =>
    have restChain := ih (fun other member => nonempty other (List.mem_cons_of_mem group member))
      (front ++ group) parted.tail
    rw [List.length_append, List.append_assoc, ← List.flatten_cons] at restChain
    rw [List.map_cons, runsOfSizes]
    cases rest with
    | nil => exact .singleton _
    | cons next others =>
      have positive := List.length_pos_iff.mpr (nonempty group List.mem_cons_self)
      have nextPositive := List.length_pos_iff.mpr
        (nonempty next (List.mem_cons_of_mem group List.mem_cons_self))
      have lastPosition : front.length + group.length - 1 = front.length + (group.length - 1) :=
        Nat.add_sub_assoc positive _
      obtain ⟨⟨someItems, someNext, unrelated⟩, -⟩ := List.isChain_cons_cons.mp parted
      rw [List.map_cons, runsOfSizes] at restChain ⊢
      refine List.isChain_cons_cons.mpr ⟨⟨?_, ?_, ?_⟩, restChain⟩
      · simp only
        omega
      · simp only
        omega
      · have lastItem := getElem?_behind front group (next ++ others.flatten)
          (Nat.sub_one_lt_of_lt positive)
        have nextItem := getElem?_behind (front ++ group) next others.flatten nextPositive
        rw [← lastPosition] at lastItem
        have nextPosition : front.length + group.length - 1 + 1 = (front ++ group).length + 0 := by
          rw [List.length_append]
          omega
        rintro ⟨first, second, firstAt, secondAt, linked⟩
        rw [List.flatten_cons, List.flatten_cons] at firstAt secondAt
        rw [nextPosition, ← List.append_assoc, nextItem] at secondAt
        rw [lastItem] at firstAt
        rw [List.getLast_eq_getElem, List.head_eq_getElem, Option.some.inj firstAt,
          Option.some.inj secondAt, linked] at unrelated
        cases unrelated

end Groups

/-! ## Runs of sorted rows -/

/-- The next sort position has the next row, with a later timestamp. -/
def Continues (order : TimeOrder) (position : Nat) : Prop :=
  ∃ row time nextTime, order.rows[position]? = some row ∧
    order.rows[position + 1]? = some (row + 1) ∧ order.times[position]? = some time ∧
    order.times[position + 1]? = some nextTime ∧ time < nextTime

/-- A run has a sort position, and each but its last is continued by the next one. -/
structure IsRun (order : TimeOrder) (run : Run) : Prop where
  first_le : run.first ≤ run.last
  continues : ∀ position, run.first ≤ position → position < run.last → order.Continues position

namespace IsRun

variable {order : TimeOrder} {run : Run}

/-- The rows of a run count up from the first one. -/
theorem getElem?_rows (isRun : order.IsRun run) (inside : run.last < order.rows.length)
    {offset : Nat} (offsetLe : run.first + offset ≤ run.last) :
    order.rows[run.first + offset]? = some (order.rowAt run.first + offset) := by
  induction offset with
  | zero =>
    have firstInside : run.first < order.rows.length := Nat.lt_of_le_of_lt offsetLe inside
    rw [Nat.add_zero, Nat.add_zero, rowAt, List.getElem?_eq_getElem firstInside, Option.getD_some]
  | succ offset ih =>
    have rowFound := ih (Nat.le_of_succ_le offsetLe)
    obtain ⟨row, _, _, own, next, -⟩ :=
      isRun.continues (run.first + offset) (Nat.le_add_right _ _) offsetLe
    rw [rowFound] at own
    rw [← Nat.add_assoc, next, ← Option.some.inj own, Nat.add_assoc]

/-- The range of a run has the rows at its sort positions. -/
theorem rows_rowRange (isRun : order.IsRun run) (inside : run.last < order.rows.length) :
    (order.rowRange run).rows = run.positions.map order.rowAt := by
  have firstLe := isRun.first_le
  have lastRow := isRun.getElem?_rows inside (Nat.le_of_eq (Nat.add_sub_of_le firstLe))
  rw [Nat.add_sub_of_le firstLe] at lastRow
  have lastEq : order.rowAt run.last = order.rowAt run.first + (run.last - run.first) := by
    rw [rowAt, lastRow, Option.getD_some]
  have count : (order.rowRange run).endRow - (order.rowRange run).firstRow =
      run.last + 1 - run.first := by
    show order.rowAt run.last + 1 - order.rowAt run.first = _
    rw [lastEq]
    omega
  rw [RowRange.rows, Run.positions, count]
  apply List.ext_getElem
  · rw [List.length_map, List.length_range', List.length_range']
  · intro offset _ offsetLt
    rw [List.length_map, List.length_range'] at offsetLt
    have rowFound : order.rows[run.first + offset]? = some (order.rowAt run.first + offset) :=
      isRun.getElem?_rows inside (by omega)
    rw [List.getElem_map, List.getElem_range', List.getElem_range', Nat.one_mul, rowAt, rowFound]
    rfl

end IsRun

variable (times : List Int64) (order : TimeOrder)

/-- Of two rows the one with the earlier timestamp comes first, of two with the same timestamp the
one that arrived first. -/
theorem pairwise_lex_sortedRows :
    (sortedRows times).Pairwise fun first second =>
      timeAt times first < timeAt times second ∨
        timeAt times first = timeAt times second ∧ first < second := by
  have sorted := List.pairwise_map.mp (pairwise_sortedRows times)
  apply List.pairwise_iff_forall_sublist.mpr
  intro first second kept
  have firstLe := List.pairwise_iff_forall_sublist.mp sorted kept
  rcases Int64.lt_or_eq_of_le firstLe with earlier | same
  · exact .inl earlier
  · have tied := kept.filter fun row => timeAt times row = timeAt times second
    have both : [first, second].filter (fun row => timeAt times row = timeAt times second) =
        [first, second] := by simp [same]
    rw [both, filter_sortedRows] at tied
    exact .inr ⟨same, List.pairwise_iff_forall_sublist.mp List.pairwise_lt_range
      (tied.trans List.filter_sublist)⟩

/-- A sort position is continued where its row joins with the next one. -/
theorem continues_iff_linked (position : Nat) :
    (order.rebuild times).Continues position ↔ Linked joins (timedRows times) position := by
  rw [Continues, Linked, rows_rebuild, times_rebuild, timedRows]
  simp only [List.getElem?_map, Option.map_eq_some_iff]
  constructor
  · rintro ⟨row, _, _, rowFound, nextAt, ⟨_, own, rfl⟩, ⟨_, behind, rfl⟩, earlier⟩
    obtain rfl := Option.some.inj (rowFound.symm.trans own)
    obtain rfl := Option.some.inj (nextAt.symm.trans behind)
    refine ⟨_, _, ⟨row, rowFound, rfl⟩, ⟨row + 1, nextAt, rfl⟩, ?_⟩
    simp [joins, Int64.ne_of_lt earlier]
  · rintro ⟨_, _, ⟨row, rowFound, rfl⟩, ⟨next, nextAt, rfl⟩, joined⟩
    simp only [joins, Bool.and_eq_true, decide_eq_true_iff] at joined
    obtain ⟨rfl, different⟩ := joined
    have sorted := List.pairwise_map.mp (pairwise_sortedRows times)
    obtain ⟨inside, rowEq⟩ := List.getElem?_eq_some_iff.mp rowFound
    obtain ⟨nextInside, nextEq⟩ := List.getElem?_eq_some_iff.mp nextAt
    have ordered := List.pairwise_iff_getElem.mp sorted position (position + 1) inside nextInside
      (Nat.lt_succ_self position)
    rw [rowEq, nextEq] at ordered
    exact ⟨row, _, _, rowFound, nextAt, ⟨row, rowFound, rfl⟩, ⟨row + 1, nextAt, rfl⟩,
      Int64.lt_of_le_of_ne ordered different⟩

/-- The runs cover the sort positions in order, without a gap and without an overlap. -/
theorem positions_rebuild :
    (order.rebuild times).runs.flatMap Run.positions = List.range times.length := by
  have nonempty : ∀ size ∈ ((timedRows times).splitBy joins).map List.length, 0 < size := by
    intro size member
    obtain ⟨group, groupMember, rfl⟩ := List.mem_map.mp member
    exact List.length_pos_iff.mpr (List.ne_nil_of_mem_splitBy groupMember)
  have covered := positions_runsOfSizes 0 nonempty
  rw [← List.length_flatten, List.flatten_splitBy, length_timedRows, ← List.range_eq_range']
    at covered
  rw [runs_rebuild]
  exact covered

theorem isRun_rebuild {run : Run} (member : run ∈ (order.rebuild times).runs) :
    (order.rebuild times).IsRun run := by
  rw [runs_rebuild] at member
  have linked := linked_of_mem_runs (fun group member => List.ne_nil_of_mem_splitBy member) []
    (fun group member => List.isChain_of_mem_splitBy member) run member
  rw [List.flatten_splitBy, List.nil_append] at linked
  refine ⟨linked.1, fun position behind before => ?_⟩
  exact (continues_iff_linked times order position).mpr (linked.2 position behind before)

/-- Two neighbouring runs are not one run together. -/
theorem maximal_rebuild :
    (order.rebuild times).runs.IsChain fun run next =>
      ¬(order.rebuild times).IsRun ⟨run.first, next.last⟩ := by
  have chain := chain_runsOfSizes (fun group member => List.ne_nil_of_mem_splitBy member) []
    (List.isChain_getLast_head_splitBy joins (timedRows times))
  rw [List.flatten_splitBy, List.nil_append] at chain
  rw [runs_rebuild]
  apply chain.imp
  rintro run next ⟨firstLe, lastLt, notLinked⟩ joined
  exact notLinked ((continues_iff_linked times order run.last).mp
    (joined.continues run.last firstLe lastLt))

/-- Where all timestamps are equal, each row is a run of its own. -/
theorem length_runs_replicate (count : Nat) (time : Int64) (order : TimeOrder) :
    (order.rebuild (List.replicate count time)).runs.length = count := by
  have equal : ∀ sorted ∈ (order.rebuild (List.replicate count time)).times, sorted = time := by
    intro sorted member
    rw [times_rebuild] at member
    obtain ⟨row, rowMember, rfl⟩ := List.mem_map.mp member
    have inside := (mem_sortedRows _).mp rowMember
    rw [List.length_replicate] at inside
    rw [timeAt, List.getElem?_replicate_of_lt inside, Option.getD_some]
  have single : ∀ run ∈ (order.rebuild (List.replicate count time)).runs,
      run.positions.length = 1 := by
    intro run member
    have isRun := isRun_rebuild _ order member
    have lastLe : ¬run.first < run.last := by
      intro longer
      obtain ⟨_, early, late, -, -, earlyAt, lateAt, earlier⟩ :=
        isRun.continues run.first (Nat.le_refl _) longer
      rw [equal early (List.mem_of_getElem? earlyAt), equal late (List.mem_of_getElem? lateAt)]
        at earlier
      exact Int64.lt_irrefl earlier
    have firstLe := isRun.first_le
    rw [Run.positions, List.length_range']
    omega
  have covered := congrArg List.length (positions_rebuild (List.replicate count time) order)
  rw [List.length_flatMap, List.map_congr_left single, List.map_const', List.sum_replicate,
    List.length_range, List.length_replicate, nsmul_one, Nat.cast_id] at covered
  exact covered

/-! ## Decompositions -/

/-- An order of timestamps: their rows sorted by timestamp and arrival, taken apart into runs that
are as long as possible, and the ranges of rows that the runs are. -/
structure Decomposes (times : List Int64) (order : TimeOrder) : Prop where
  rows_perm : order.rows.Perm (List.range times.length)
  rows_ordered : order.rows.Pairwise fun first second =>
    timeAt times first < timeAt times second ∨
      timeAt times first = timeAt times second ∧ first < second
  length_times : order.times.length = order.rows.length
  times_eq : ∀ position row : Nat, order.rows[position]? = some row →
    order.times[position]? = times[row]?
  /-- The runs, read in order, cover the sort positions. -/
  positions_eq : order.runs.flatMap Run.positions = List.range times.length
  runs_eq_nil : times = [] → order.runs = []
  isRun : ∀ run ∈ order.runs, order.IsRun run
  maximal : order.runs.IsChain fun run next => ¬order.IsRun ⟨run.first, next.last⟩
  /-- The ranges, read in order, are the sorted rows. -/
  rows_eq : order.rowRanges.flatMap RowRange.rows = order.rows
  range_eq : ∀ (index : Nat) (run : Run), order.runs[index]? = some run →
    ∃ range, order.rowRanges[index]? = some range ∧ range.position = run.first ∧
      range.rows = run.positions.map order.rowAt ∧ range.endRow ≤ times.length

variable {times order}

theorem last_lt_of_mem_runs {run : Run} (member : run ∈ (order.rebuild times).runs) :
    run.last < times.length := by
  have firstLe := (isRun_rebuild times order member).first_le
  have own : run.last ∈ run.positions := by
    rw [Run.positions, List.mem_range'_1]
    omega
  have covered := List.mem_flatMap_of_mem member own
  rw [positions_rebuild] at covered
  exact List.mem_range.mp covered

theorem rows_rowRange_of_mem_runs {run : Run} (member : run ∈ (order.rebuild times).runs) :
    ((order.rebuild times).rowRange run).rows =
      run.positions.map (order.rebuild times).rowAt := by
  apply (isRun_rebuild times order member).rows_rowRange
  rw [rows_rebuild, length_sortedRows]
  exact last_lt_of_mem_runs member

theorem rowAt_lt (nonempty : 0 < times.length) (position : Nat) :
    (order.rebuild times).rowAt position < times.length := by
  rw [rowAt, rows_rebuild]
  cases row_at : (sortedRows times)[position]? with
  | none => exact nonempty
  | some row => exact (mem_sortedRows times).mp (List.mem_of_getElem? row_at)

variable (times order)

theorem rows_rowRanges :
    (order.rebuild times).rowRanges.flatMap RowRange.rows = (order.rebuild times).rows := by
  have own : ∀ run ∈ (order.rebuild times).runs,
      ((order.rebuild times).rowRange run).rows =
        run.positions.map (order.rebuild times).rowAt :=
    fun _ member => rows_rowRange_of_mem_runs member
  rw [rowRanges, List.flatMap_map, List.flatMap_congr own, ← List.map_flatMap, positions_rebuild]
  apply List.ext_getElem
  · rw [List.length_map, List.length_range, rows_rebuild, length_sortedRows]
  · intro position _ inside
    rw [List.getElem_map, List.getElem_range, rowAt, List.getElem?_eq_getElem inside,
      Option.getD_some]

theorem decomposes_rebuild : (order.rebuild times).Decomposes times where
  rows_perm := by
    rw [rows_rebuild]
    exact sortedRows_perm times
  rows_ordered := by
    rw [rows_rebuild]
    exact pairwise_lex_sortedRows times
  length_times := by rw [rows_rebuild, length_times_rebuild, length_sortedRows]
  times_eq := by
    intro position row rowFound
    rw [rows_rebuild] at rowFound
    have inside := (mem_sortedRows times).mp (List.mem_of_getElem? rowFound)
    rw [times_rebuild, List.getElem?_map, rowFound, Option.map_some, timeAt,
      List.getElem?_eq_getElem inside, Option.getD_some]
  positions_eq := positions_rebuild times order
  runs_eq_nil := by
    rintro rfl
    have noRows : timedRows [] = [] := List.length_eq_zero_iff.mp (length_timedRows [])
    rw [runs_rebuild, noRows]
    rfl
  isRun := fun _ member => isRun_rebuild times order member
  maximal := maximal_rebuild times order
  rows_eq := rows_rowRanges times order
  range_eq := by
    intro index run runAt
    have member := List.mem_of_getElem? runAt
    have lastLt := last_lt_of_mem_runs member
    refine ⟨(order.rebuild times).rowRange run, ?_, rfl, rows_rowRange_of_mem_runs member,
      rowAt_lt (Nat.zero_lt_of_lt lastLt) run.last⟩
    rw [rowRanges, List.getElem?_map, runAt, Option.map_some]

end TimeOrder

end Columnar
