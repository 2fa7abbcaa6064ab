/-!
# Guarded arithmetic

Sums, differences and products of signed 32-bit words that yield nothing where the exact value is
not such a word.  A computation made of them goes through exactly if no step of it overflows.  A
list is filled entry by entry in the same way.
-/

namespace Columnar.Guarded

/-- The signed word of a value, where there is one. -/
def word? (value : Int) : Option Int32 :=
  if Int32.minValue.toInt ≤ value ∧ value ≤ Int32.maxValue.toInt then
    some (Int32.ofInt value)
  else
    none

/-- A value that is kept in a signed word, unless it is out of the word's range. -/
def int? (value : Int) : Option Int :=
  (word? value).map Int32.toInt

/-- The sum of two signed words, unless it overflows. -/
def add? (first second : Int32) : Option Int32 :=
  word? (first.toInt + second.toInt)

/-- The difference of two signed words, unless it overflows. -/
def sub? (first second : Int32) : Option Int32 :=
  word? (first.toInt - second.toInt)

/-- The product of two signed words, unless it overflows. -/
def mul? (first second : Int32) : Option Int32 :=
  word? (first.toInt * second.toInt)

/-! ## Lengths -/

/-- The signed word of a length, where there is one. -/
def length? (length : Nat) : Option Int32 :=
  word? length

/-- The sum of two results, unless one is missing or the sum overflows. -/
def sum? (first? second? : Option Int32) : Option Int32 := do
  add? (← first?) (← second?)

/-- The product of two results, unless one is missing or the product overflows. -/
def product? (first? second? : Option Int32) : Option Int32 := do
  mul? (← first?) (← second?)

/-! ## Filling a list -/

/-- Writes `count` items from a position on, each computed from what the list holds by then. An
item that cannot be computed and a position behind the list leave no result. -/
def fillFrom? {α : Type} (item? : List α → Nat → Option α) :
    (position count : Nat) → List α → Option (List α)
  | _, 0, items => some items
  | position, count + 1, items => do
    let item ← item? items position
    if position < items.length then
      fillFrom? item? (position + 1) count (items.set position item)
    else
      none

end Columnar.Guarded
