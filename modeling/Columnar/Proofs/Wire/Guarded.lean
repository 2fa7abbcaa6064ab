import Columnar.Proofs.Guarded
import Columnar.Proofs.Wire.Steady
import Columnar.Wire.GuardedReader

/-!
# Readers stay inside their bytes

A guarded reader stops at the first length that overflows and at the first byte outside the part
that may be read.  Started inside its bytes it never stops: every request goes through and is
answered as an unguarded reader answers it (`follows_run`).  With the laws of failed readers this
makes up what a caller can rely on for any sequence of requests.

The one sum that could overflow is the byte more than the rest that a refused size asks for.  It
does not, because a size other than zero was read from four bytes, which are no longer left.
-/

namespace Columnar.Wire.GuardedReader

open Guarded

/-- The position lies in the part that may be read, and that part inside the bytes. -/
structure Safe (guarded : GuardedReader) : Prop where
  position_nonneg : 0 ≤ guarded.position.toInt
  position_le : guarded.position.toInt ≤ guarded.limit.toInt
  limit_le : guarded.limit.toInt ≤ guarded.bytes.length

/-- A guarded computation goes through, yields what is expected and stands where it is expected. -/
def Follows {α : Type} (result : Option (α × GuardedReader)) (expected : α × Reader) : Prop :=
  ∃ next, result = some (expected.1, next) ∧ next.Safe ∧ next.reader = expected.2

variable {guarded : GuardedReader}

theorem safe_ofPart {bytes : Bytes} {limit : Int32} (nonneg : 0 ≤ limit.toInt)
    (limitLe : limit.toInt ≤ bytes.length) : (ofPart bytes limit).Safe where
  position_nonneg := Int.le_refl 0
  position_le := nonneg
  limit_le := limitLe

theorem Safe.natCast_position (safe : guarded.Safe) :
    (guarded.reader.position : Int) = guarded.position.toInt :=
  Int.toNat_of_nonneg safe.position_nonneg

theorem Safe.remaining?_eq (safe : guarded.Safe) :
    ∃ remaining, guarded.remaining? = some remaining ∧
      remaining.toInt = guarded.reader.remaining ∧ 0 ≤ remaining.toInt ∧
      remaining.toInt + guarded.position.toInt < 2 ^ 31 := by
  have positionNonneg := safe.position_nonneg
  have positionLe := safe.position_le
  have limitLt := guarded.limit.toInt_lt
  have lower : -2 ^ 31 ≤ guarded.limit.toInt - guarded.position.toInt := by omega
  have upper : guarded.limit.toInt - guarded.position.toInt < 2 ^ 31 := by omega
  obtain ⟨remaining, found, value⟩ := exists_word? lower upper
  refine ⟨remaining, found, ?_, by omega, by omega⟩
  rw [value, Reader.remaining, safe.natCast_position]
  rfl

/-! ## Bytes -/

/-- Too few bytes fail the reader, unless it has failed already. -/
theorem Safe.follows_check_short (safe : guarded.Safe) {count : Int32}
    (short : ¬(0 ≤ count.toInt ∧ count.toInt ≤ guarded.reader.remaining)) :
    Follows (guarded.check? count) (false, guarded.reader.failShort count.toInt) := by
  rw [check?]
  cases failed : guarded.error? with
  | some cause =>
    have stays : guarded.reader.failShort count.toInt = guarded.reader :=
      Reader.fail_of_failed failed _
    exact ⟨guarded, rfl, safe, stays.symm⟩
  | none =>
    obtain ⟨remaining, remainingEq, value, -, -⟩ := safe.remaining?_eq
    have refused : ¬(0 ≤ count ∧ count ≤ remaining) := by
      rw [Int32.le_iff_toInt_le, Int32.le_iff_toInt_le, value]
      exact short
    refine ⟨{ guarded with error? := some (.short count.toInt guarded.position.toInt.toNat
      remaining.toInt) }, ?_, ⟨safe.position_nonneg, safe.position_le, safe.limit_le⟩, ?_⟩
    · simp only [remainingEq, Option.bind_eq_bind, Option.bind_some, if_neg refused]
      rfl
    · have noError : guarded.reader.error? = none := failed
      rw [Reader.failShort, Reader.fail, noError, value]
      rfl

theorem Safe.check?_enough (safe : guarded.Safe) {count : Int32}
    (noError : guarded.error? = none) (nonneg : 0 ≤ count.toInt)
    (enough : count.toInt ≤ guarded.reader.remaining) :
    guarded.check? count = some (true, guarded) := by
  obtain ⟨remaining, remainingEq, value, -, -⟩ := safe.remaining?_eq
  rw [check?, noError]
  simp only [remainingEq, Option.bind_eq_bind, Option.bind_some]
  rw [if_pos]
  · rfl
  · rw [Int32.le_iff_toInt_le, Int32.le_iff_toInt_le, value]
    exact ⟨nonneg, enough⟩

/-- Inside the limit every byte is found, and no index on the way overflows. -/
theorem bytesFrom?_eq (limitLe : guarded.limit.toInt ≤ guarded.bytes.length) {index : Int32}
    (nonneg : 0 ≤ index.toInt) (count : Nat)
    (inside : index.toInt + count ≤ guarded.limit.toInt) :
    guarded.bytesFrom? index count =
      some ((guarded.bytes.drop index.toInt.toNat).take count) := by
  induction count generalizing index with
  | zero => rfl
  | succ count ih =>
    have limitLt := guarded.limit.toInt_lt
    have found : index.toInt.toNat < guarded.bytes.length := by omega
    have byteEq : guarded.byteAt? index = some guarded.bytes[index.toInt.toNat] := by
      rw [byteAt?, if_pos, List.getElem?_eq_getElem found]
      rw [Int32.le_iff_toInt_le, Int32.lt_iff_toInt_lt, Int32.toInt_zero]
      omega
    have lower : -2 ^ 31 ≤ index.toInt + (1 : Int32).toInt := by
      rw [Int32.toInt_one]
      omega
    have upper : index.toInt + (1 : Int32).toInt < 2 ^ 31 := by
      rw [Int32.toInt_one]
      omega
    obtain ⟨next, nextEq, value⟩ := exists_word? lower upper
    rw [Int32.toInt_one] at value
    have restEq : guarded.bytesFrom? next count =
        some ((guarded.bytes.drop next.toInt.toNat).take count) := ih (by omega) (by omega)
    have nextIndex : next.toInt.toNat = index.toInt.toNat + 1 := by omega
    rw [bytesFrom?, byteEq, add?, nextEq]
    simp only [Option.bind_eq_bind, Option.bind_some, restEq, nextIndex]
    rw [List.drop_eq_getElem_cons found, List.take_succ_cons]
    rfl

theorem Safe.follows_take (safe : guarded.Safe) (count : Int32) :
    Follows (guarded.take? count) (guarded.reader.take count.toInt) := by
  cases failed : guarded.reader.error? with
  | some cause =>
    have same : guarded.error? = some cause := failed
    rw [Reader.take_of_failed failed, take?, check?, same]
    exact ⟨guarded, rfl, safe, rfl⟩
  | none =>
    by_cases enough : 0 ≤ count.toInt ∧ count.toInt ≤ guarded.reader.remaining
    · have noError : guarded.error? = none := failed
      have positionNonneg := safe.position_nonneg
      have limitLt := guarded.limit.toInt_lt
      have checkEq := safe.check?_enough noError enough.1 enough.2
      have inside : guarded.position.toInt + count.toInt ≤ guarded.limit.toInt := by
        have countLe := enough.2
        rw [Reader.remaining, safe.natCast_position] at countLe
        have limitEq : guarded.reader.limit = guarded.limit.toInt := rfl
        omega
      have bytesEq := bytesFrom?_eq safe.limit_le positionNonneg count.toInt.toNat (by omega)
      have lower : -2 ^ 31 ≤ guarded.position.toInt + count.toInt := by omega
      have upper : guarded.position.toInt + count.toInt < 2 ^ 31 := by omega
      obtain ⟨position, positionEq, positionValue⟩ := exists_word? lower upper
      rw [Reader.take, failed]
      simp only [if_pos enough]
      refine ⟨{ guarded with position }, ?_, ⟨?_, ?_, safe.limit_le⟩, ?_⟩
      · rw [take?, checkEq]
        simp only [Option.bind_eq_bind, Option.bind_some, if_true, bytesEq, add?, positionEq]
        rfl
      · simp only [positionValue]
        omega
      · simp only [positionValue]
        omega
      · have moved : position.toInt.toNat = guarded.position.toInt.toNat + count.toInt.toNat := by
          omega
        simp only [reader, Reader.skip, moved]
    · obtain ⟨next, checkEq, nextSafe, nextEq⟩ := safe.follows_check_short enough
      rw [Reader.take, failed]
      simp only [if_neg enough]
      refine ⟨next, ?_, nextSafe, nextEq⟩
      rw [take?, checkEq]
      rfl

theorem Safe.follows_takeOrEmpty (safe : guarded.Safe) (count : Int32) :
    Follows (guarded.takeOrEmpty? count) (guarded.reader.takeOrEmpty count.toInt) := by
  obtain ⟨next, takeEq, nextSafe, nextEq⟩ := safe.follows_take count
  refine ⟨next, ?_, nextSafe, nextEq⟩
  rw [takeOrEmpty?, takeEq]
  rfl

/-! ## Words -/

theorem Safe.follows_unsigned (safe : guarded.Safe) (width : Nat) (word : Int32)
    (wordEq : word.toInt = width) :
    Follows (guarded.unsigned? word) (guarded.reader.unsigned width) := by
  obtain ⟨next, takeEq, nextSafe, nextEq⟩ := safe.follows_take word
  rw [wordEq] at takeEq nextEq
  refine ⟨next, ?_, nextSafe, ?_⟩
  · rw [unsigned?, takeEq, Reader.unsigned_eq]
    rfl
  · rw [Reader.unsigned_eq, nextEq]

theorem Safe.follows_uint16 (safe : guarded.Safe) :
    Follows guarded.uint16? guarded.reader.uint16 := by
  obtain ⟨next, valueEq, nextSafe, nextEq⟩ := safe.follows_unsigned 2 2 rfl
  refine ⟨next, ?_, nextSafe, nextEq⟩
  rw [uint16?, valueEq]
  rfl

theorem Safe.follows_uint32 (safe : guarded.Safe) :
    Follows guarded.uint32? guarded.reader.uint32 := by
  obtain ⟨next, valueEq, nextSafe, nextEq⟩ := safe.follows_unsigned 4 4 rfl
  refine ⟨next, ?_, nextSafe, nextEq⟩
  rw [uint32?, valueEq]
  rfl

theorem Safe.follows_int64 (safe : guarded.Safe) :
    Follows guarded.int64? guarded.reader.int64 := by
  obtain ⟨next, valueEq, nextSafe, nextEq⟩ := safe.follows_unsigned 8 8 rfl
  refine ⟨next, ?_, nextSafe, nextEq⟩
  rw [int64?, valueEq]
  rfl

theorem Safe.follows_int32 (safe : guarded.Safe) :
    Follows guarded.int32? guarded.reader.int32 := by
  obtain ⟨next, valueEq, nextSafe, nextEq⟩ := safe.follows_int64
  rw [int32?, valueEq, Reader.int32]
  generalize guarded.reader.int64 = wide at nextEq ⊢
  obtain ⟨value, behind⟩ := wide
  simp only at nextEq
  subst nextEq
  simp only [Option.bind_eq_bind, Option.bind_some]
  have same : next.reader.error? = next.error? := rfl
  rw [same]
  cases failed : next.error? with
  | some cause => exact ⟨next, rfl, nextSafe, rfl⟩
  | none =>
    simp only
    split
    next => exact ⟨next, rfl, nextSafe, rfl⟩
    next =>
      have positionNonneg := nextSafe.position_nonneg
      have positionLt := next.position.toInt_lt
      have eight : (8 : Int32).toInt = 8 := rfl
      have lower : -2 ^ 31 ≤ next.position.toInt - (8 : Int32).toInt := by omega
      have upper : next.position.toInt - (8 : Int32).toInt < 2 ^ 31 := by omega
      obtain ⟨start, startEq, startValue⟩ := exists_word? lower upper
      have startPosition : start.toInt.toNat = next.reader.position - 8 := by
        have natCastPosition := nextSafe.natCast_position
        omega
      refine ⟨{ next with error? := some (.outOfRange value start.toInt.toNat) }, ?_,
        ⟨nextSafe.position_nonneg, nextSafe.position_le, nextSafe.limit_le⟩, ?_⟩
      · rw [sub?, startEq]
        rfl
      · rw [Reader.fail, same, failed, startPosition]
        rfl

/-! ## Sequences -/

theorem Safe.follows_text (safe : guarded.Safe) : Follows guarded.text? guarded.reader.text := by
  obtain ⟨next, sizeEq, nextSafe, nextEq⟩ := safe.follows_uint16
  rw [text?, sizeEq, Reader.text]
  generalize guarded.reader.uint16 = sized at nextEq ⊢
  obtain ⟨size, behind⟩ := sized
  simp only at nextEq
  subst nextEq
  have sizeLt := size.toNat_lt
  have value : (Int32.ofNat size.toNat).toInt = size.toNat := Int32.toInt_ofNat_of_lt (by omega)
  have follows := nextSafe.follows_takeOrEmpty (Int32.ofNat size.toNat)
  rw [value] at follows
  exact follows

/-- A word other than zero was read from four bytes. -/
theorem position_of_uint32_ne_zero (reader : Reader) (neZero : reader.uint32.1 ≠ 0) :
    4 ≤ reader.uint32.2.position := by
  cases before : reader.error? with
  | some cause =>
    rw [Reader.steady_uint32.read_of_failed before] at neZero
    exact absurd rfl neZero
  | none =>
    by_cases enough : (0 : Int) ≤ (4 : Nat) ∧ ((4 : Nat) : Int) ≤ reader.remaining
    · simp only [Reader.uint32, Reader.unsigned, Reader.take, before, if_pos enough, Reader.skip]
      exact Nat.le_add_left _ _
    · simp only [Reader.uint32, Reader.unsigned, Reader.take, before, if_neg enough] at neZero
      exact absurd rfl neZero

/-- Behind the first byte the sum of the rest and one does not overflow. -/
theorem Safe.follows_refuse {α : Type} (safe : guarded.Safe)
    (moved : 0 < guarded.position.toInt) :
    Follows (guarded.refuse? (α := α))
      ([], guarded.reader.failShort (guarded.reader.remaining + 1)) := by
  obtain ⟨remaining, remainingEq, value, nonneg, sumLt⟩ := safe.remaining?_eq
  have one : (1 : Int32).toInt = 1 := rfl
  have lower : -2 ^ 31 ≤ remaining.toInt + (1 : Int32).toInt := by omega
  have upper : remaining.toInt + (1 : Int32).toInt < 2 ^ 31 := by omega
  obtain ⟨needed, neededEq, neededValue⟩ := exists_word? lower upper
  have short : ¬(0 ≤ needed.toInt ∧ needed.toInt ≤ guarded.reader.remaining) := by omega
  obtain ⟨next, checkEq, nextSafe, nextEq⟩ := safe.follows_check_short short
  refine ⟨next, ?_, nextSafe, ?_⟩
  · rw [refuse?, remainingEq]
    simp only [Option.bind_eq_bind, Option.bind_some, add?, neededEq, checkEq]
    rfl
  · rw [nextEq, neededValue, value, one]

/-- A length that is not negative is the same number as an unsigned word. -/
theorem toNat_toUInt32 {length : Int32} (nonneg : 0 ≤ length.toInt) :
    (length.toUInt32.toNat : Int) = length.toInt := by
  have nonnegWord : 0 ≤ length := by
    rw [Int32.le_iff_toInt_le, Int32.toInt_zero]
    exact nonneg
  rw [Int32.toNat_toUInt32_of_le nonnegWord]
  exact Int.toNat_of_nonneg nonneg

/-- An unsigned word below the signed ones' limit is the same number as a signed word. -/
theorem toInt_toInt32 {size : UInt32} (sizeLt : size.toNat < 2 ^ 31) :
    size.toInt32.toInt = size.toNat := by
  conv => lhs; rw [← UInt32.ofNat_toNat (x := size)]
  rw [UInt32.toInt32_ofNat', Int32.toInt_ofNat_of_lt sizeLt]

theorem Safe.follows_buffer (safe : guarded.Safe) :
    Follows guarded.buffer? guarded.reader.buffer := by
  obtain ⟨next, sizeEq, nextSafe, nextEq⟩ := safe.follows_uint32
  have moved := position_of_uint32_ne_zero guarded.reader
  rw [buffer?, sizeEq, Reader.buffer]
  generalize guarded.reader.uint32 = sized at nextEq moved ⊢
  obtain ⟨size, behind⟩ := sized
  simp only at nextEq moved
  subst nextEq
  obtain ⟨remaining, remainingEq, value, nonneg, -⟩ := nextSafe.remaining?_eq
  have unsigned := toNat_toUInt32 nonneg
  simp only [Option.bind_eq_bind, Option.bind_some, remainingEq, UInt32.lt_iff_toNat_lt]
  by_cases short : next.reader.remaining < size.toNat
  · rw [if_pos short, if_pos (by omega)]
    apply nextSafe.follows_refuse
    have positionGe := moved (by
      rintro rfl
      have zero : (0 : UInt32).toNat = 0 := rfl
      omega)
    have natCastPosition := nextSafe.natCast_position
    omega
  · rw [if_neg short, if_neg (by omega)]
    have remainingLt := remaining.toInt_lt
    have follows := nextSafe.follows_takeOrEmpty size.toInt32
    rw [toInt_toInt32 (by omega)] at follows
    exact follows

theorem Safe.follows_uint32s (safe : guarded.Safe) :
    Follows guarded.uint32s? guarded.reader.uint32s := by
  obtain ⟨next, countEq, nextSafe, nextEq⟩ := safe.follows_uint32
  have moved := position_of_uint32_ne_zero guarded.reader
  rw [uint32s?, countEq, Reader.uint32s]
  generalize guarded.reader.uint32 = counted at nextEq moved ⊢
  obtain ⟨count, behind⟩ := counted
  simp only at nextEq moved
  subst nextEq
  obtain ⟨remaining, remainingEq, value, nonneg, -⟩ := nextSafe.remaining?_eq
  have remainingLt := remaining.toInt_lt
  have four : (4 : Int32).toInt = 4 := rfl
  have quarter : (remaining / 4).toInt = remaining.toInt / 4 := by
    rw [Int32.toInt_div_of_ne_right _ _ (by decide), four, Int.tdiv_eq_ediv_of_nonneg nonneg]
  have quarterNonneg : 0 ≤ (remaining / 4).toInt := by omega
  have unsigned := toNat_toUInt32 quarterNonneg
  simp only [Option.bind_eq_bind, Option.bind_some, remainingEq, UInt32.lt_iff_toNat_lt]
  by_cases short : next.reader.remaining < 4 * count.toNat
  · rw [if_pos short, if_pos (by omega)]
    apply nextSafe.follows_refuse
    have positionGe := moved (by
      rintro rfl
      have zero : (0 : UInt32).toNat = 0 := rfl
      omega)
    have natCastPosition := nextSafe.natCast_position
    omega
  · rw [if_neg short, if_neg (by omega)]
    have countLt : count.toNat < 2 ^ 31 := by omega
    have signed := toInt_toInt32 countLt
    have product : count.toInt32.toInt * (4 : Int32).toInt = 4 * count.toNat := by
      rw [four, signed, Int.mul_comm]
    have lower : -2 ^ 31 ≤ count.toInt32.toInt * (4 : Int32).toInt := by omega
    have upper : count.toInt32.toInt * (4 : Int32).toInt < 2 ^ 31 := by omega
    obtain ⟨size, sizeEq, sizeValue⟩ := exists_word? lower upper
    obtain ⟨last, bytesEq, lastSafe, lastEq⟩ := nextSafe.follows_takeOrEmpty size
    rw [sizeValue, product] at bytesEq lastEq
    refine ⟨last, ?_, lastSafe, lastEq⟩
    simp only [mul?, sizeEq, bytesEq, Option.bind_some]
    rfl

/-! ## Requests -/

theorem Follows.renamed {α : Type} {result : Option (α × GuardedReader)} {expected : α × Reader}
    (follows : Follows result expected) (name : α → Answer) :
    Follows (result.map fun pair => (name pair.1, pair.2)) (Request.renamed name expected) := by
  obtain ⟨next, resultEq, nextSafe, nextEq⟩ := follows
  exact ⟨next, by rw [resultEq]; rfl, nextSafe, nextEq⟩

/-- A safe reader answers every request as if it were not guarded, and stays safe. -/
theorem Safe.follows_run (safe : guarded.Safe) (request : Request) :
    Follows (guarded.run? request) (request.run guarded.reader) := by
  cases request with
  | uint16 => exact safe.follows_uint16.renamed _
  | uint32 => exact safe.follows_uint32.renamed _
  | int32 => exact safe.follows_int32.renamed _
  | int64 => exact safe.follows_int64.renamed _
  | text => exact safe.follows_text.renamed _
  | buffer => exact safe.follows_buffer.renamed _
  | uint32s => exact safe.follows_uint32s.renamed _
  | raw count => exact (safe.follows_take count).renamed _

theorem Safe.follows_runAll (safe : guarded.Safe) (requests : List Request) :
    Follows (guarded.runAll? requests) (Request.runAll requests guarded.reader) := by
  induction requests generalizing guarded with
  | nil => exact ⟨guarded, rfl, safe, rfl⟩
  | cons request rest ih =>
    obtain ⟨next, answerEq, nextSafe, nextEq⟩ := safe.follows_run request
    obtain ⟨last, answersEq, lastSafe, lastEq⟩ := ih nextSafe
    rw [nextEq] at answersEq lastEq
    refine ⟨last, ?_, lastSafe, lastEq⟩
    rw [runAll?, answerEq]
    simp only [Option.bind_eq_bind, Option.bind_some, answersEq]
    rfl

/-- What holds of a reader of the first `size` bytes, whatever it is asked for. No length overflows
and no other byte is looked up on the way; the position stays inside these bytes and never goes
back; an answer is blank where the reader has failed behind it; and where it has failed before the
later requests, they are all answered blankly and leave it as it is. -/
theorem runs_ofPart {bytes : Bytes} {size : Int32} (nonneg : 0 ≤ size.toInt)
    (sizeLe : size.toInt ≤ bytes.length) (earlier later : List Request) :
    let start := Reader.ofPart bytes size.toInt
    let middle := (Request.runAll earlier start).2
    let (answers, last) := Request.runAll (earlier ++ later) start
    (∃ guarded : GuardedReader,
        (ofPart bytes size).runAll? (earlier ++ later) = some (answers, guarded) ∧
          guarded.reader = last ∧ 0 ≤ guarded.position.toInt ∧
          guarded.position.toInt ≤ size.toInt) ∧
      middle.position ≤ last.position ∧
      (∀ request : Request, (request.run middle).2.error? ≠ none →
        (request.run middle).1 = request.blank) ∧
      (middle.error? ≠ none →
        (answers, last) =
          ((Request.runAll earlier start).1 ++ later.map Request.blank, middle)) := by
  intro start middle
  obtain ⟨guarded, runEq, safe, guardedEq⟩ :=
    (safe_ofPart nonneg sizeLe).follows_runAll (earlier ++ later)
  have limitEq := Request.limit_runAll (earlier ++ later) start
  rw [← show guarded.reader = (Request.runAll (earlier ++ later) start).2 from guardedEq]
    at limitEq
  have inside : guarded.position.toInt ≤ size.toInt :=
    Int.le_trans safe.position_le (Int.le_of_eq limitEq)
  refine ⟨⟨guarded, runEq, guardedEq, safe.position_nonneg, inside⟩, ?_, ?_, ?_⟩
  · rw [Request.runAll_append]
    exact Request.position_le_runAll later middle
  · intro request failed
    obtain ⟨cause, causeEq⟩ := Option.ne_none_iff_exists'.mp failed
    exact request.steady.blank_of_error causeEq
  · intro failed
    obtain ⟨cause, causeEq⟩ := Option.ne_none_iff_exists'.mp failed
    rw [Request.runAll_append, Request.runAll_of_failed causeEq]

/-- The front of a buffer that claims nine bytes, of which one is there; the last byte lies behind
the limit. -/
def cutBuffer : Bytes :=
  [0, 0, 0, 9, 1, 7]

theorem runs_cutBuffer :
    let (answers, last) := Request.runAll [.buffer, .raw 0, .uint16] (.ofPart cutBuffer 5)
    answers = [.item (.buffer []), .raw none, .item (.uint16 0)] ∧
      last = ⟨cutBuffer, 5, 4, some (.short 2 4 1)⟩ ∧
      ∃ guarded : GuardedReader,
        (ofPart cutBuffer 5).runAll? [.buffer, .raw 0, .uint16] = some (answers, guarded) ∧
          guarded.reader = last := by
  obtain ⟨⟨guarded, runEq, guardedEq, -, -⟩, -, -, sticky⟩ :=
    @runs_ofPart cutBuffer 5 (by decide) (by decide) [.buffer] [.raw 0, .uint16]
  have failed := sticky (by decide)
  exact ⟨(congrArg Prod.fst failed).trans rfl, (congrArg Prod.snd failed).trans rfl,
    guarded, runEq, guardedEq⟩

end Columnar.Wire.GuardedReader
