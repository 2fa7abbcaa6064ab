import Columnar.Wire.RoundTrip
import Columnar.Proofs.Wire.Steady
import Mathlib

/-!
# Reads that accept nothing but written forms

The laws of round trips say that a written form is read back.  Here the converse is added: a read
that does not fail stood in front of the written form of the value that it yields.  `Exact` is
both at once.  It passes from the parts of a sequence to the whole (`Exact.both`), because a
reader that has failed once stays failed, so that no failure is missed when only the last reader
is looked at.
-/

namespace Columnar

namespace Bytes

/-- Words that use up the bytes they are read from are written as these bytes. -/
theorem flatMap_words {width count : Nat} {bytes : Bytes}
    (lengthEq : bytes.length = width * count) :
    (words width count bytes).flatMap (littleEndian width) = bytes := by
  induction count generalizing bytes with
  | zero =>
    rw [Nat.mul_zero] at lengthEq
    rw [List.length_eq_zero_iff.mp lengthEq]
    rfl
  | succ count ih =>
    have firstLength : (bytes.take width).length = width := by
      rw [List.length_take, lengthEq, Nat.mul_succ]
      omega
    have restLength : (bytes.drop width).length = width * count := by
      rw [List.length_drop, lengthEq, Nat.mul_succ, Nat.add_sub_cancel]
    have first := littleEndian_ofLittleEndian (bytes.take width)
    rw [firstLength] at first
    rw [words, List.flatMap_cons, first, ih restLength, List.take_append_drop]

theorem lt_of_mem_words {width count : Nat} {bytes : Bytes}
    (lengthEq : bytes.length = width * count) :
    ∀ word ∈ words width count bytes, word < wordCount width := by
  induction count generalizing bytes with
  | zero => exact fun word member => absurd member List.not_mem_nil
  | succ count ih =>
    have firstLength : (bytes.take width).length = width := by
      rw [List.length_take, lengthEq, Nat.mul_succ]
      omega
    have restLength : (bytes.drop width).length = width * count := by
      rw [List.length_drop, lengthEq, Nat.mul_succ, Nat.add_sub_cancel]
    intro word member
    rcases List.mem_cons.mp member with rfl | later
    · have bounded := ofLittleEndian_lt (bytes.take width)
      rw [firstLength] at bounded
      exact bounded
    · exact ih restLength word later

end Bytes

namespace Wire.Reader

/-! ## Consumed bytes -/

/-- The first bytes that one reader has left are the given ones, and the other stands behind
them. -/
structure Consumes (reader : Reader) (written : Bytes) (next : Reader) : Prop where
  next_eq : next = reader.skip written.length
  rest_eq : reader.rest = written ++ next.rest

variable {reader next : Reader}

theorem InBounds.consumes (inBounds : reader.InBounds) {written after : Bytes}
    (restEq : reader.rest = written ++ after) :
    reader.Consumes written (reader.skip written.length) where
  next_eq := rfl
  rest_eq := by rw [(inBounds.skip restEq).2, restEq]

theorem consumes_ofBytes (bytes : Bytes) :
    (Reader.ofBytes bytes).Consumes bytes ((Reader.ofBytes bytes).skip bytes.length) := by
  apply (inBounds_ofBytes bytes).consumes
  rw [rest_ofBytes]
  exact (List.append_nil bytes).symm

namespace Consumes

theorem inBounds {written : Bytes} (consumes : reader.Consumes written next)
    (inBounds : reader.InBounds) : next.InBounds := by
  rw [consumes.next_eq]
  exact (inBounds.skip consumes.rest_eq).1

theorem append {first second : Bytes} {middle : Reader} (front : reader.Consumes first middle)
    (back : middle.Consumes second next) : reader.Consumes (first ++ second) next where
  next_eq := by
    rw [back.next_eq, front.next_eq, InBounds.skip_skip, List.length_append]
  rest_eq := by rw [front.rest_eq, back.rest_eq, List.append_assoc]

theorem split (inBounds : reader.InBounds) {first second : Bytes}
    (consumes : reader.Consumes (first ++ second) next) :
    reader.Consumes first (reader.skip first.length) ∧
      (reader.skip first.length).Consumes second next := by
  have restEq := consumes.rest_eq
  rw [List.append_assoc] at restEq
  refine ⟨inBounds.consumes restEq, ?_, (inBounds.skip restEq).2⟩
  rw [consumes.next_eq, InBounds.skip_skip, List.length_append]

/-- A reader has nothing left exactly if it has consumed all that it had. -/
theorem remaining_eq_zero_iff {written : Bytes} (consumes : reader.Consumes written next)
    (inBounds : reader.InBounds) : next.remaining = 0 ↔ reader.rest = written := by
  have length := (consumes.inBounds inBounds).length_rest
  rw [consumes.rest_eq, List.append_right_eq_self, ← List.length_eq_zero_iff]
  omega

end Consumes

/-! ## Bytes -/

theorem take_eq_some_iff (inBounds : reader.InBounds) {count : Int} {bytes : Bytes} :
    reader.take count = (some bytes, next) ↔
      (bytes.length : Int) = count ∧ reader.Consumes bytes next := by
  constructor
  · intro taken
    rw [take, inBounds.error?_eq_none] at taken
    simp only at taken
    split at taken
    next enough =>
      have limitLe := inBounds.limit_le
      obtain ⟨someEq, rfl⟩ := Prod.mk.inj taken
      obtain rfl := Option.some.inj someEq
      have remaining := enough.2
      rw [Reader.remaining] at remaining
      have length : ((reader.bytes.drop reader.position).take count.toNat).length =
          count.toNat := by
        rw [List.length_take, List.length_drop]
        omega
      have restEq : reader.rest = (reader.bytes.drop reader.position).take count.toNat ++
          reader.rest.drop count.toNat := by
        conv => lhs; rw [← List.take_append_drop count.toNat reader.rest]
        rw [rest, List.take_take, Nat.min_eq_left (by omega)]
      have consumes := inBounds.consumes restEq
      rw [length] at consumes
      exact ⟨by omega, consumes⟩
    next => cases taken
  · rintro ⟨rfl, consumes⟩
    rw [inBounds.take consumes.rest_eq, consumes.next_eq]

/-- A read of bytes that does not fail yields some. -/
theorem take_of_no_error {count : Int} (noError : (reader.take count).2.error? = none) :
    ∃ bytes, reader.take count = (some bytes, (reader.take count).2) := by
  have ok := (steady_take count).error?_of_read noError
  rw [take, ok] at noError ⊢
  simp only at noError ⊢
  split
  next => exact ⟨_, rfl⟩
  next missing =>
    rw [if_neg missing, failShort, fail, ok] at noError
    cases noError

theorem takeOrEmpty_iff (inBounds : reader.InBounds) {count : Int} {bytes : Bytes} :
    reader.takeOrEmpty count = (bytes, next) ∧ next.error? = none ↔
      (bytes.length : Int) = count ∧ reader.Consumes bytes next := by
  rw [← take_eq_some_iff inBounds, takeOrEmpty]
  constructor
  · rintro ⟨taken, noError⟩
    rw [← (Prod.mk.inj taken).2] at noError
    obtain ⟨found, foundEq⟩ := take_of_no_error noError
    rw [foundEq] at taken ⊢
    obtain ⟨rfl, rfl⟩ := Prod.mk.inj taken
    rfl
  · intro taken
    have consumes := ((take_eq_some_iff inBounds).mp taken).2
    rw [taken]
    exact ⟨rfl, (consumes.inBounds inBounds).error?_eq_none⟩

/-! ## Exact reads -/

/-- A read that does not fail exactly when it stands in front of the written form of a valid
value, and then yields that value. -/
structure Exact {α : Type} (read : Reader → α × Reader) (write : α → Bytes) (valid : α → Prop) :
    Prop where
  /-- A failure stays. -/
  error?_of_read : ∀ {reader : Reader}, (read reader).2.error? = none → reader.error? = none
  read_iff : ∀ {reader : Reader}, reader.InBounds → ∀ {value : α} {next : Reader},
    read reader = (value, next) ∧ next.error? = none ↔
      valid value ∧ reader.Consumes (write value) next

/-- One read after the other. -/
def both {α β : Type} (first : Reader → α × Reader) (second : Reader → β × Reader)
    (reader : Reader) : (α × β) × Reader :=
  let (front, reader) := first reader
  let (back, reader) := second reader
  ((front, back), reader)

namespace Exact

variable {α β : Type} {read : Reader → α × Reader} {write : α → Bytes} {valid : α → Prop}

/-- An exact read stays exact when its values are renamed one by one. -/
theorem rename (exact : Exact read write valid) {readOther : Reader → β × Reader}
    {writeOther : β → Bytes} {validOther : β → Prop} (there : α → β) (back : β → α)
    (readEq : ∀ reader, readOther reader = (there (read reader).1, (read reader).2))
    (writeEq : ∀ other, writeOther other = write (back other))
    (thereValid : ∀ value, valid value → validOther (there value) ∧ back (there value) = value)
    (backValid : ∀ other, validOther other → valid (back other) ∧ there (back other) = other) :
    Exact readOther writeOther validOther where
  error?_of_read := by
    intro reader noError
    rw [readEq] at noError
    exact exact.error?_of_read noError
  read_iff := by
    intro reader inBounds other next
    rw [readEq, writeEq]
    constructor
    · rintro ⟨renamed, noError⟩
      obtain ⟨rfl, rfl⟩ := Prod.mk.inj renamed
      obtain ⟨valueValid, consumes⟩ := (exact.read_iff inBounds).mp ⟨rfl, noError⟩
      obtain ⟨otherValid, backThere⟩ := thereValid _ valueValid
      rw [backThere]
      exact ⟨otherValid, consumes⟩
    · rintro ⟨otherValid, consumes⟩
      obtain ⟨valueValid, thereBack⟩ := backValid other otherValid
      obtain ⟨valueRead, noError⟩ := (exact.read_iff inBounds).mpr ⟨valueValid, consumes⟩
      rw [valueRead, thereBack]
      exact ⟨rfl, noError⟩

theorem congr_valid (exact : Exact read write valid) {validOther : α → Prop}
    (validIff : ∀ value, valid value ↔ validOther value) : Exact read write validOther := by
  have validEq : valid = validOther := by
    funext value
    exact propext (validIff value)
  rw [← validEq]
  exact exact

theorem both {first : Reader → α × Reader} {second : Reader → β × Reader} {writeFirst : α → Bytes}
    {writeSecond : β → Bytes} {validFirst : α → Prop} {validSecond : β → Prop}
    (exactFirst : Exact first writeFirst validFirst)
    (exactSecond : Exact second writeSecond validSecond) :
    Exact (Reader.both first second) (fun pair => writeFirst pair.1 ++ writeSecond pair.2)
      fun pair => validFirst pair.1 ∧ validSecond pair.2 where
  error?_of_read := by
    intro reader noError
    exact exactFirst.error?_of_read (exactSecond.error?_of_read noError)
  read_iff := by
    intro reader inBounds pair next
    obtain ⟨front, back⟩ := pair
    constructor
    · rintro ⟨pairRead, noError⟩
      obtain ⟨valuesEq, rfl⟩ := Prod.mk.inj pairRead
      obtain ⟨rfl, rfl⟩ := Prod.mk.inj valuesEq
      have middleOk := exactSecond.error?_of_read noError
      obtain ⟨frontValid, frontConsumes⟩ := (exactFirst.read_iff inBounds).mp ⟨rfl, middleOk⟩
      obtain ⟨backValid, backConsumes⟩ :=
        (exactSecond.read_iff (frontConsumes.inBounds inBounds)).mp ⟨rfl, noError⟩
      exact ⟨⟨frontValid, backValid⟩, frontConsumes.append backConsumes⟩
    · rintro ⟨⟨frontValid, backValid⟩, consumes⟩
      obtain ⟨frontConsumes, backConsumes⟩ := consumes.split inBounds
      obtain ⟨frontRead, -⟩ := (exactFirst.read_iff inBounds).mpr ⟨frontValid, frontConsumes⟩
      obtain ⟨backRead, noError⟩ :=
        (exactSecond.read_iff (frontConsumes.inBounds inBounds)).mpr
          ⟨backValid, backConsumes⟩
      refine ⟨?_, noError⟩
      rw [Reader.both, frontRead]
      simp only [backRead]

/-- A read whose size was read before it. -/
theorem behind {σ : Type} {size : Reader → σ × Reader} {content : σ → Reader → α × Reader}
    {writeSize : σ → Bytes} (sizeOf : α → σ) (exactSize : Exact size writeSize fun _ => True)
    (exactContent : ∀ count, Exact (content count) write fun value =>
      valid value ∧ sizeOf value = count) :
    Exact (fun reader => content (size reader).1 (size reader).2)
      (fun value => writeSize (sizeOf value) ++ write value) valid where
  error?_of_read := by
    intro reader noError
    exact exactSize.error?_of_read ((exactContent _).error?_of_read noError)
  read_iff := by
    intro reader inBounds value next
    constructor
    · rintro ⟨valueRead, noError⟩
      have ok : (content (size reader).1 (size reader).2).2.error? = none := by
        rw [valueRead]
        exact noError
      have sizeOk := (exactContent _).error?_of_read ok
      obtain ⟨-, sizeConsumes⟩ := (exactSize.read_iff inBounds).mp ⟨rfl, sizeOk⟩
      obtain ⟨⟨valueValid, sizeEq⟩, consumes⟩ :=
        ((exactContent _).read_iff (sizeConsumes.inBounds inBounds)).mp ⟨valueRead, noError⟩
      rw [sizeEq]
      exact ⟨valueValid, sizeConsumes.append consumes⟩
    · rintro ⟨valueValid, consumes⟩
      obtain ⟨sizeConsumes, contentConsumes⟩ := consumes.split inBounds
      obtain ⟨sizeRead, -⟩ := (exactSize.read_iff inBounds).mpr ⟨trivial, sizeConsumes⟩
      rw [sizeRead]
      exact ((exactContent _).read_iff (sizeConsumes.inBounds inBounds)).mpr
        ⟨⟨valueValid, rfl⟩, contentConsumes⟩

/-- A check that refuses what is too long anyway changes nothing but the failure. -/
theorem guarded (exact : Exact read write valid) (needed : Int) (fallback : α)
    (neededLe : ∀ value, valid value → needed ≤ (write value).length) :
    Exact
      (fun reader =>
        if reader.remaining < needed then (fallback, reader.failShort (reader.remaining + 1))
        else read reader)
      write valid where
  error?_of_read := by
    intro reader noError
    split at noError
    next =>
      cases failed : reader.error? with
      | none => rfl
      | some cause =>
        rw [failShort, fail_of_failed failed, failed] at noError
        exact noError
    next => exact exact.error?_of_read noError
  read_iff := by
    intro reader inBounds value next
    split
    next short =>
      constructor
      · rintro ⟨valueRead, noError⟩
        rw [← (Prod.mk.inj valueRead).2, failShort, fail, inBounds.error?_eq_none] at noError
        cases noError
      · rintro ⟨valueValid, consumes⟩
        have length := inBounds.length_rest
        have enough := neededLe value valueValid
        rw [consumes.rest_eq, List.length_append] at length
        omega
    next => exact exact.read_iff inBounds

end Exact

theorem exact_takeOrEmpty (count : Int) :
    Exact (takeOrEmpty count) (fun bytes => bytes) fun bytes => (bytes.length : Int) = count where
  error?_of_read := (steady_takeOrEmpty count).error?_of_read
  read_iff := by
    intro reader inBounds bytes next
    exact takeOrEmpty_iff inBounds

/-! ## Words -/

theorem exact_unsigned (width : Nat) :
    Exact (unsigned width) (Bytes.bigEndian width) (· < Bytes.wordCount width) where
  error?_of_read := (steady_unsigned width).error?_of_read
  read_iff := by
    intro reader inBounds value next
    constructor
    · rintro ⟨valueRead, noError⟩
      rw [unsigned] at valueRead
      split at valueRead
      next bytes behind taken =>
        obtain ⟨rfl, rfl⟩ := Prod.mk.inj valueRead
        obtain ⟨length, consumes⟩ := (take_eq_some_iff inBounds).mp taken
        have lengthEq := Int.ofNat_inj.mp length
        have written := Bytes.bigEndian_ofBigEndian bytes
        have bounded := Bytes.ofBigEndian_lt bytes
        rw [lengthEq] at written bounded
        rw [written]
        exact ⟨bounded, consumes⟩
      next behind taken =>
        obtain ⟨rfl, rfl⟩ := Prod.mk.inj valueRead
        have behindEq : (reader.take width).2 = behind := by rw [taken]
        rw [← behindEq] at noError
        obtain ⟨bytes, found⟩ := take_of_no_error noError
        rw [taken] at found
        cases found
    · rintro ⟨bounded, consumes⟩
      have valueRead := inBounds.unsigned bounded consumes.rest_eq
      have nextEq := consumes.next_eq
      rw [Bytes.length_bigEndian] at nextEq
      rw [valueRead, ← nextEq]
      exact ⟨rfl, (consumes.inBounds inBounds).error?_eq_none⟩

theorem exact_uint16 : Exact uint16 Wire.uint16 fun _ => True := by
  refine (exact_unsigned 2).rename UInt16.ofNat UInt16.toNat (fun _ => rfl) (fun _ => rfl) ?_ ?_
  · intro value bounded
    exact ⟨trivial, UInt16.toNat_ofNat_of_lt' bounded⟩
  · intro value _
    exact ⟨value.toNat_lt, UInt16.ofNat_toNat⟩

theorem exact_uint32 : Exact uint32 Wire.uint32 fun _ => True := by
  refine (exact_unsigned 4).rename UInt32.ofNat UInt32.toNat (fun _ => rfl) (fun _ => rfl) ?_ ?_
  · intro value bounded
    exact ⟨trivial, UInt32.toNat_ofNat_of_lt' bounded⟩
  · intro value _
    exact ⟨value.toNat_lt, UInt32.ofNat_toNat⟩

theorem exact_int64 : Exact int64 Wire.int64 fun _ => True := by
  refine (exact_unsigned 8).rename (fun code => ZigZag.decode (UInt64.ofNat code))
    (fun value => (ZigZag.encode value).toNat) (fun _ => rfl) (fun _ => rfl) ?_ ?_
  · intro code bounded
    rw [ZigZag.encode_decode]
    exact ⟨trivial, UInt64.toNat_ofNat_of_lt' bounded⟩
  · intro value _
    rw [UInt64.ofNat_toNat, ZigZag.decode_encode]
    exact ⟨(ZigZag.encode value).toNat_lt, rfl⟩

private theorem int64_of_int32 {reader : Reader} (noError : reader.int32.2.error? = none) :
    reader.int64.2.error? = none := by
  rw [int32] at noError
  cases failed : reader.int64.2.error? with
  | none => rfl
  | some cause =>
    simp only [failed] at noError
    cases noError

theorem exact_int32 : Exact int32 Wire.int32 fun _ => True where
  error?_of_read := steady_int32.error?_of_read
  read_iff := by
    intro reader inBounds value next
    constructor
    · rintro ⟨valueRead, noError⟩
      have ok : reader.int32.2.error? = none := by
        rw [valueRead]
        exact noError
      have wideOk := int64_of_int32 ok
      obtain ⟨-, consumes⟩ := (exact_int64.read_iff inBounds).mp ⟨rfl, wideOk⟩
      simp only [int32, wideOk] at valueRead
      split at valueRead
      next fits =>
        obtain ⟨rfl, rfl⟩ := Prod.mk.inj valueRead
        have wideEq : reader.int64.1.toInt32.toInt64 = reader.int64.1 := by
          apply Int64.toInt_inj.mp
          have least : Int32.minValue.toInt = -2147483648 := rfl
          have greatest : Int32.maxValue.toInt = 2147483647 := rfl
          rw [Int32.toInt_toInt64, Int64.toInt_toInt32, Int.bmod_eq_of_le] <;> omega
        rw [Wire.int32, wideEq]
        exact ⟨trivial, consumes⟩
      next =>
        rw [← (Prod.mk.inj valueRead).2, fail, wideOk] at noError
        cases noError
    · rintro ⟨-, consumes⟩
      have valueRead := inBounds.int32 consumes.rest_eq
      have nextEq := consumes.next_eq
      rw [length_int32] at nextEq
      rw [valueRead, ← nextEq]
      exact ⟨rfl, (consumes.inBounds inBounds).error?_eq_none⟩

/-! ## Sequences -/

/-- The written form of a text that is not refused. -/
def textForm (value : Bytes) : Bytes :=
  Wire.uint16 (UInt16.ofNat value.length) ++ value

theorem exact_text : Exact text textForm fun value => value.length < UInt16.size := by
  have exactContent (size : UInt16) : Exact (takeOrEmpty size.toNat) (fun value => value)
      fun value => value.length < UInt16.size ∧ UInt16.ofNat value.length = size := by
    apply (exact_takeOrEmpty size.toNat).congr_valid
    intro value
    constructor
    · intro lengthEq
      rw [Int.ofNat_inj.mp lengthEq, UInt16.ofNat_toNat]
      exact ⟨size.toNat_lt, rfl⟩
    · rintro ⟨lengthLt, rfl⟩
      rw [UInt16.toNat_ofNat_of_lt' lengthLt]
  exact exact_uint16.behind (fun value : Bytes => UInt16.ofNat value.length) exactContent

theorem exact_buffer : Exact buffer Wire.buffer fun value => value.length < UInt32.size := by
  have exactContent (size : UInt32) : Exact (takeOrEmpty size.toNat) (fun value => value)
      fun value => value.length < UInt32.size ∧ UInt32.ofNat value.length = size := by
    apply (exact_takeOrEmpty size.toNat).congr_valid
    intro value
    constructor
    · intro lengthEq
      rw [Int.ofNat_inj.mp lengthEq, UInt32.ofNat_toNat]
      exact ⟨size.toNat_lt, rfl⟩
    · rintro ⟨lengthLt, rfl⟩
      rw [UInt32.toNat_ofNat_of_lt' lengthLt]
  have exactGuarded (size : UInt32) := (exactContent size).guarded size.toNat [] (by
    rintro value ⟨lengthLt, rfl⟩
    exact Int.ofNat_le.mpr (Nat.le_of_eq (UInt32.toNat_ofNat_of_lt' lengthLt)))
  exact exact_uint32.behind (fun value : Bytes => UInt32.ofNat value.length) exactGuarded

private theorem wordBytes_words {count : Nat} {bytes : Bytes}
    (lengthEq : bytes.length = 4 * count) :
    wordBytes ((Bytes.words 4 count bytes).map UInt32.ofNat) = bytes := by
  have written := Bytes.flatMap_words lengthEq
  conv => rhs; rw [← written]
  rw [wordBytes, List.flatMap_map]
  apply List.flatMap_congr
  intro word member
  rw [UInt32.toNat_ofNat_of_lt' (Bytes.lt_of_mem_words lengthEq word member)]

theorem exact_uint32s : Exact uint32s Wire.uint32s fun values => values.length < UInt32.size := by
  have exactContent (count : UInt32) : Exact
      (fun reader => ((Bytes.words 4 ((reader.takeOrEmpty (4 * count.toNat)).1.length / 4)
        (reader.takeOrEmpty (4 * count.toNat)).1).map UInt32.ofNat,
          (reader.takeOrEmpty (4 * count.toNat)).2))
      wordBytes fun values =>
        values.length < UInt32.size ∧ UInt32.ofNat values.length = count := by
    refine (exact_takeOrEmpty (4 * count.toNat)).rename
      (fun bytes => (Bytes.words 4 (bytes.length / 4) bytes).map UInt32.ofNat) wordBytes
      (fun _ => rfl) (fun _ => rfl) ?_ ?_
    · intro bytes lengthEq
      have length : bytes.length = 4 * count.toNat := by omega
      have words : bytes.length / 4 = count.toNat := by omega
      have countLt := count.toNat_lt
      rw [words, List.length_map, Bytes.length_words, UInt32.ofNat_toNat]
      exact ⟨⟨countLt, rfl⟩, wordBytes_words length⟩
    · rintro values ⟨lengthLt, rfl⟩
      rw [UInt32.toNat_ofNat_of_lt' lengthLt, length_wordBytes,
        Nat.mul_div_cancel_left _ (by decide), words_wordBytes]
      exact ⟨by omega, rfl⟩
  have exactGuarded (count : UInt32) :=
    (exactContent count).guarded (4 * count.toNat) [] (by
      rintro values ⟨lengthLt, rfl⟩
      rw [UInt32.toNat_ofNat_of_lt' lengthLt, length_wordBytes]
      omega)
  exact exact_uint32.behind (fun values : List UInt32 => UInt32.ofNat values.length) exactGuarded

end Wire.Reader

end Columnar
