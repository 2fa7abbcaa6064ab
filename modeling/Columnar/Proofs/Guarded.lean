import Columnar.Guarded
import Mathlib

/-!
# When guarded arithmetic goes through

A value that is not a signed 32-bit word has no word, every other value has the word that is equal
to it.
-/

namespace Columnar.Guarded

theorem word?_eq {value : Int} (lower : -2 ^ 31 ≤ value) (upper : value < 2 ^ 31) :
    word? value = some (Int32.ofInt value) := by
  have least : Int32.minValue.toInt = -2 ^ 31 := rfl
  have greatest : Int32.maxValue.toInt = 2 ^ 31 - 1 := rfl
  rw [word?, if_pos (by omega)]

theorem exists_word? {value : Int} (lower : -2 ^ 31 ≤ value) (upper : value < 2 ^ 31) :
    ∃ word, word? value = some word ∧ word.toInt = value :=
  ⟨Int32.ofInt value, word?_eq lower upper, Int32.toInt_ofInt_of_le lower upper⟩

theorem int?_eq {value : Int} (lower : -2 ^ 31 ≤ value) (upper : value < 2 ^ 31) :
    int? value = some value := by
  rw [int?, word?_eq lower upper, Option.map_some, Int32.toInt_ofInt_of_le lower upper]

theorem eq_of_int? {value found : Int} (intEq : int? value = some found) : value = found := by
  rw [int?, word?] at intEq
  have least : Int32.minValue.toInt = -2 ^ 31 := rfl
  have greatest : Int32.maxValue.toInt = 2 ^ 31 - 1 := rfl
  split at intEq
  next fits =>
    rw [Option.map_some, Int32.toInt_ofInt_of_le (by omega) (by omega)] at intEq
    exact Option.some.inj intEq
  next => cases intEq

theorem word?_eq_none_iff {value : Int} :
    word? value = none ↔ value < -2 ^ 31 ∨ 2 ^ 31 ≤ value := by
  have least : Int32.minValue.toInt = -2 ^ 31 := rfl
  have greatest : Int32.maxValue.toInt = 2 ^ 31 - 1 := rfl
  rw [word?]
  split <;> simp <;> omega

/-! ## Sums and differences -/

theorem add?_eq {first second : Int32} (lower : -2 ^ 31 ≤ first.toInt + second.toInt)
    (upper : first.toInt + second.toInt < 2 ^ 31) : add? first second = some (first + second) := by
  rw [add?, word?_eq lower upper, Int32.ofInt_add, Int32.ofInt_toInt, Int32.ofInt_toInt]

theorem sub?_eq {first second : Int32} (lower : -2 ^ 31 ≤ first.toInt - second.toInt)
    (upper : first.toInt - second.toInt < 2 ^ 31) : sub? first second = some (first - second) := by
  rw [sub?, word?_eq lower upper, Int32.ofInt_sub, Int32.ofInt_toInt, Int32.ofInt_toInt]

/-! ## Lengths -/

theorem length?_eq_some_iff {length : Nat} {word : Int32} :
    length? length = some word ↔ word.toInt = length := by
  have wordLe := word.le_toInt
  have wordLt := word.toInt_lt
  constructor
  · intro found
    by_cases lengthLt : (length : Int) < 2 ^ 31
    · obtain ⟨other, otherEq, value⟩ := exists_word? (by omega) lengthLt
      rw [length?, otherEq] at found
      rw [← Option.some.inj found, value]
    · rw [length?, word?_eq_none_iff.mpr (.inr (by omega))] at found
      cases found
  · intro value
    obtain ⟨other, otherEq, otherValue⟩ := @exists_word? length (by omega) (by omega)
    rw [length?, otherEq, Int32.toInt_inj.mp (otherValue.trans value.symm)]

theorem length?_eq_none_iff {length : Nat} : length? length = none ↔ 2 ^ 31 ≤ length := by
  rw [length?, word?_eq_none_iff]
  omega

theorem exists_length? {length : Nat} (lengthLt : length < 2 ^ 31) :
    ∃ word, length? length = some word ∧ word.toInt = length :=
  exists_word? (by omega) (by omega)

theorem length?_eq {length : Nat} (lengthLt : length < 2 ^ 31) :
    length? length = some (Int32.ofNat length) :=
  length?_eq_some_iff.mpr (Int32.toInt_ofNat_of_lt lengthLt)

theorem add?_one_eq {number : Nat} (nextLt : number + 1 < 2 ^ 31) :
    add? (Int32.ofNat number) 1 = some (Int32.ofNat (number + 1)) := by
  rw [add?, Int32.toInt_ofNat_of_lt (Nat.lt_of_succ_lt nextLt), Int32.toInt_one]
  exact length?_eq nextLt

/-- Lengths are not negative, so a sum of them fits no word where one of them does not. -/
@[simp] theorem sum?_length? (first second : Nat) :
    sum? (length? first) (length? second) = length? (first + second) := by
  cases first_eq : length? first with
  | none =>
    have firstGe := length?_eq_none_iff.mp first_eq
    have sumEq : length? (first + second) = none := length?_eq_none_iff.mpr (by omega)
    rw [sumEq]
    rfl
  | some firstWord =>
    cases second_eq : length? second with
    | none =>
      have secondGe := length?_eq_none_iff.mp second_eq
      have sumEq : length? (first + second) = none := length?_eq_none_iff.mpr (by omega)
      rw [sumEq]
      rfl
    | some secondWord =>
      rw [length?, Nat.cast_add, ← length?_eq_some_iff.mp first_eq,
        ← length?_eq_some_iff.mp second_eq]
      rfl

theorem product?_length? (first : Nat) {second : Nat} (pos : 0 < second)
    (secondLt : second < 2 ^ 31) :
    product? (length? first) (length? second) = length? (first * second) := by
  cases second_eq : length? second with
  | none =>
    have secondGe := length?_eq_none_iff.mp second_eq
    omega
  | some secondWord =>
    cases first_eq : length? first with
    | none =>
      have firstGe := length?_eq_none_iff.mp first_eq
      have productGe := Nat.le_mul_of_pos_right first pos
      have productEq : length? (first * second) = none := length?_eq_none_iff.mpr (by omega)
      rw [productEq]
      rfl
    | some firstWord =>
      rw [length?, Nat.cast_mul, ← length?_eq_some_iff.mp first_eq,
        ← length?_eq_some_iff.mp second_eq]
      rfl

/-! ## Filling a list -/

/-- Items that follow from those in front of them are all written, whatever the list held in their
places. -/
theorem fillFrom?_eq {α : Type} {item? : List α → Nat → Option α} {value : Nat → α}
    {size position count : Nat} {items : List α}
    (computed : ∀ (items : List α) (next : Nat), items.length = size → position ≤ next →
      next < size → items.take next = (List.range next).map value →
        item? items next = some (value next))
    (lengthEq : items.length = size) (reach : position + count = size)
    (frontEq : items.take position = (List.range position).map value) :
    fillFrom? item? position count items = some ((List.range size).map value) := by
  induction count generalizing position items with
  | zero =>
    rw [Nat.add_zero] at reach
    rw [reach, List.take_of_length_le (Nat.le_of_eq lengthEq)] at frontEq
    exact congrArg some frontEq
  | succ count ih =>
    have inside : position < items.length := by omega
    have written : (items.set position (value position)).take (position + 1) =
        (List.range (position + 1)).map value := by
      rw [List.take_add_one, List.take_set_of_le (Nat.le_refl position),
        List.getElem?_set_self inside, frontEq, List.range_succ, List.map_append]
      rfl
    rw [fillFrom?, computed items position lengthEq (Nat.le_refl position) (by omega) frontEq,
      Option.bind_eq_bind, Option.bind_some, if_pos inside]
    apply ih _ _ _ written
    · intro items next lengthEq behind
      exact computed items next lengthEq (Nat.le_of_succ_le behind)
    · rw [List.length_set, lengthEq]
    · omega

/-- Filling stops at an entry that has no item. -/
theorem fillFrom?_eq_none {α : Type} {item? : List α → Nat → Option α} {position next count : Nat}
    (missing : ∀ items, item? items next = none) (behind : position ≤ next)
    (before : next < position + count) (items : List α) :
    fillFrom? item? position count items = none := by
  induction count generalizing position items with
  | zero => omega
  | succ count ih =>
    rw [fillFrom?]
    rcases Nat.eq_or_lt_of_le behind with rfl | later
    · rw [missing]
      rfl
    · cases item? items position with
      | none => rfl
      | some item =>
        rw [Option.bind_eq_bind, Option.bind_some]
        split
        next => exact ih later (by omega) _
        next => rfl

end Columnar.Guarded
