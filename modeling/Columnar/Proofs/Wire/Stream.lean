import Columnar.Proofs.Wire.Steady
import Columnar.Wire.RoundTrip
import Mathlib

/-!
# Streams that are read back

Items are appended to a buffer in any order and under any limit on texts.  The buffer then holds
the written forms of the items that were not refused, one behind the other, and a reader that is
asked for the same kinds in the same order answers with these items and has nothing left.

The induction is on the items.  It is stated for any reader that stands in front of what is
written, with any bytes behind it, since each item is read from the middle of the buffer.
-/

namespace Columnar.Wire

open Reader

namespace Item

variable {limit : Int32} {item : Item} {written after : Bytes} {reader : Reader}

/-- Only a text can be refused, and only for its length. -/
theorem encode_eq_error_iff {cause : TooLong} :
    item.encode limit = .error cause ↔
      ∃ value, item = .text value ∧ textLimit limit < value.length ∧
        cause = ⟨value.length, textLimit limit⟩ := by
  cases item with
  | text value =>
    rw [encode, text_eq_error_iff]
    simp
  | _ => simp [encode]

/-- An item is read back from its written form. -/
theorem run_request (writtenEq : item.encode limit = .ok written)
    (lengthLt : written.length < 2 ^ 31) (inBounds : reader.InBounds)
    (restEq : reader.rest = written ++ after) :
    item.request.run reader = (.item item, reader.skip written.length) := by
  have size : UInt32.size = 2 ^ 32 := rfl
  cases item with
  | uint16 value =>
    obtain rfl := Except.ok.inj writtenEq
    rw [request, Request.run, inBounds.uint16 restEq, length_uint16]
    rfl
  | uint32 value =>
    obtain rfl := Except.ok.inj writtenEq
    rw [request, Request.run, inBounds.uint32 restEq, length_uint32]
    rfl
  | int32 value =>
    obtain rfl := Except.ok.inj writtenEq
    rw [request, Request.run, inBounds.int32 restEq, length_int32]
    rfl
  | int64 value =>
    obtain rfl := Except.ok.inj writtenEq
    rw [request, Request.run, inBounds.int64 restEq, length_int64]
    rfl
  | text value =>
    rw [request, Request.run, inBounds.text writtenEq restEq, length_of_text_eq_ok writtenEq]
    rfl
  | buffer value =>
    obtain rfl := Except.ok.inj writtenEq
    rw [length_buffer, bufferSize] at lengthLt
    rw [request, Request.run, inBounds.buffer (by omega) restEq, length_buffer]
    rfl
  | uint32s values =>
    obtain rfl := Except.ok.inj writtenEq
    rw [length_uint32s, uint32sSize] at lengthLt
    rw [request, Request.run, inBounds.uint32s (by omega) restEq, length_uint32s]
    rfl

/-! ## Appending -/

theorem appendTo_of_ok (writtenEq : item.encode limit = .ok written) (bytes : Bytes) :
    item.appendTo limit bytes = (bytes ++ written, none) := by
  rw [appendTo, writtenEq]

theorem appendTo_of_error {cause : TooLong} (refused : item.encode limit = .error cause)
    (bytes : Bytes) : item.appendTo limit bytes = (bytes, some cause) := by
  rw [appendTo, refused]

/-- An append fails for a text beyond the limit and for nothing else, and then leaves the bytes as
they were. -/
theorem appendTo_refused_iff (limit : Int32) (item : Item) (bytes : Bytes) :
    ((item.appendTo limit bytes).2 ≠ none ↔
      ∃ value, item = .text value ∧ textLimit limit < value.length) ∧
    ((item.appendTo limit bytes).2 ≠ none → (item.appendTo limit bytes).1 = bytes) := by
  cases encoded : item.encode limit with
  | ok written =>
    rw [appendTo_of_ok encoded]
    have accepted : ¬∃ value, item = .text value ∧ textLimit limit < value.length := by
      rintro ⟨value, itemEq, tooLong⟩
      rw [encode_eq_error_iff.mpr ⟨value, itemEq, tooLong, rfl⟩] at encoded
      cases encoded
    simp [accepted]
  | error cause =>
    rw [appendTo_of_error encoded]
    obtain ⟨value, itemEq, tooLong, -⟩ := encode_eq_error_iff.mp encoded
    exact ⟨⟨fun _ => ⟨value, itemEq, tooLong⟩, fun _ => nofun⟩, fun _ => rfl⟩

/-- Whether an item is refused does not depend on what was appended before it. -/
theorem refusals_appendAll (limit : Int32) (items : List Item) (bytes : Bytes) :
    (appendAll limit items bytes).2 = items.map fun item => (item.appendTo limit []).2 := by
  induction items generalizing bytes with
  | nil => rfl
  | cons item rest ih =>
    rw [appendAll, List.map_cons, ← ih (item.appendTo limit bytes).1]
    cases encoded : item.encode limit with
    | ok written => rw [appendTo_of_ok encoded, appendTo_of_ok encoded]
    | error cause => rw [appendTo_of_error encoded, appendTo_of_error encoded]

/-- The items that were not refused. -/
def kept (items : List Item) (refusals : List (Option TooLong)) : List Item :=
  ((items.zip refusals).filter fun pair => pair.2.isNone).map Prod.fst

/-- What is appended to a buffer is read back, wherever a reader comes across it. -/
theorem exists_appendAll (limit : Int32) (items : List Item) (bytes : Bytes) :
    ∃ written, (appendAll limit items bytes).1 = bytes ++ written ∧
      ∀ {reader : Reader} {after : Bytes}, written.length < 2 ^ 31 → reader.InBounds →
        reader.rest = written ++ after →
        let kept := kept items (appendAll limit items bytes).2
        Request.runAll (kept.map request) reader =
          (kept.map .item, reader.skip written.length) := by
  induction items generalizing bytes with
  | nil => exact ⟨[], (List.append_nil bytes).symm, fun _ _ _ => rfl⟩
  | cons item rest ih =>
    rw [appendAll]
    cases encoded : item.encode limit with
    | error cause =>
      rw [appendTo_of_error encoded]
      exact ih bytes
    | ok written =>
      rw [appendTo_of_ok encoded]
      obtain ⟨others, bytesEq, othersRead⟩ := ih (bytes ++ written)
      refine ⟨written ++ others, ?_, ?_⟩
      · rw [← List.append_assoc]
        exact bytesEq
      · intro reader after lengthLt inBounds restEq
        rw [List.length_append] at lengthLt
        rw [List.append_assoc] at restEq
        have itemRead := run_request encoded (by omega) inBounds restEq
        obtain ⟨behind, behindRest⟩ := inBounds.skip restEq
        have restRead := othersRead (by omega) behind behindRest
        rw [InBounds.skip_skip, ← List.length_append] at restRead
        simp only [kept, List.zip_cons_cons, List.filter_cons_of_pos, Option.isNone_none,
          List.map_cons, Request.runAll, itemRead]
        rw [← kept, restRead]

end Item

theorem natCast_textLimit (limit : Int32) :
    (textLimit limit : Int) = max 0 (min limit.toInt 65535) := by
  rw [textLimit]
  omega

/-- Under any limit, an append is refused exactly for a text longer than the limit in force and
then changes nothing, and what is appended is read back by the matching requests: the answers are
the items that were not refused, no request fails, and nothing is left. -/
theorem runAll_appendAll (limit : Int32) (items : List Item)
    (lengthLt : (Item.appendAll limit items []).1.length < 2 ^ 31) :
    (∀ (item : Item) (bytes : Bytes),
      ((item.appendTo limit bytes).2 ≠ none ↔
        ∃ value, item = .text value ∧ max 0 (min limit.toInt 65535) < value.length) ∧
      ((item.appendTo limit bytes).2 ≠ none → (item.appendTo limit bytes).1 = bytes)) ∧
    (Item.appendAll limit items []).2 = items.map (fun item => (item.appendTo limit []).2) ∧
    let bytes := (Item.appendAll limit items []).1
    let kept := Item.kept items (Item.appendAll limit items []).2
    let requests := kept.map Item.request
    (Request.runAll requests (.ofBytes bytes)).1 = kept.map .item ∧
      (∀ count, (Request.runAll (requests.take count) (.ofBytes bytes)).2.error? = none) ∧
      (Request.runAll requests (.ofBytes bytes)).2.remaining = 0 := by
  refine ⟨?_, Item.refusals_appendAll limit items [], ?_⟩
  · intro item bytes
    have refusedIff := item.appendTo_refused_iff limit bytes
    simp only [← natCast_textLimit, Int.ofNat_lt]
    exact refusedIff
  obtain ⟨written, bytesEq, readBack⟩ := Item.exists_appendAll limit items []
  rw [List.nil_append] at bytesEq
  rw [bytesEq] at lengthLt ⊢
  intro bytes kept requests
  have inBounds := inBounds_ofBytes written
  have restEq : (Reader.ofBytes written).rest = written ++ [] := by
    rw [rest_ofBytes, List.append_nil]
  have allRead := readBack lengthLt inBounds restEq
  obtain ⟨lastInBounds, lastRest⟩ := inBounds.skip restEq
  have runEq : Request.runAll requests (.ofBytes bytes) =
      (kept.map .item, (Reader.ofBytes written).skip written.length) := allRead
  refine ⟨by rw [runEq], ?_, ?_⟩
  · intro count
    -- A request that failed would still be failed at the end.
    apply Request.error?_of_runAll (requests.drop count)
    rw [← congrArg Prod.snd (Request.runAll_append _ _ _), List.take_append_drop, runEq]
    exact lastInBounds.error?_eq_none
  · rw [runEq, ← lastInBounds.length_rest, lastRest]
    rfl

/-- A limit of two bytes refuses the second of these texts; the item behind it is the least signed
number. -/
def shortTexts : List Item :=
  [.text [97, 98], .text [97, 98, 99], .int64 Int64.minValue, .uint32s [1, 4294967295],
    .buffer [], .int32 (-1), .uint16 258, .uint32 66051]

theorem runAll_shortTexts :
    (Item.appendAll 2 shortTexts []).1.length < 2 ^ 31 ∧
      Item.kept shortTexts (Item.appendAll 2 shortTexts []).2 = shortTexts.eraseIdx 1 ∧
      (Request.runAll ((shortTexts.eraseIdx 1).map Item.request)
        (.ofBytes (Item.appendAll 2 shortTexts []).1)).1 =
          (shortTexts.eraseIdx 1).map .item := by
  have lengthLt : (Item.appendAll 2 shortTexts []).1.length < 2 ^ 31 := by decide +kernel
  have keptEq : Item.kept shortTexts (Item.appendAll 2 shortTexts []).2 =
      shortTexts.eraseIdx 1 := by decide +kernel
  have readBack := (runAll_appendAll 2 shortTexts lengthLt).2.2.1
  rw [keptEq] at readBack
  exact ⟨lengthLt, keptEq, readBack⟩

end Columnar.Wire
