import Columnar.Proofs.Batch.Wire

/-!
# Messages that are not whole

The written form of a batch says where it ends, so no message continues another one.  A read of
the front of a message misses bytes, and a read of a longer one finds bytes behind the batch.  Both
are refused, and the batch that was to be replaced stays as it was.

How much of a buffer is a message can be said by the buffer's length or by a limit on what may be
read of it.  The laws below are about what a reader has left, and so cover both.
-/

namespace Columnar.Batch

open Wire Wire.Reader

variable {bytes more : Bytes} {batch : Batch} {reader : Reader}

theorem rest_ofPart (bytes : Bytes) (size : Int) :
    (ofPart bytes size).rest = bytes.take size.toNat := by
  simp [rest, remaining, ofPart]

/-- A reader that has more left than a message finds bytes behind it. -/
theorem read_of_longer (accepted : read (.ofBytes bytes) = .ok batch) (inBounds : reader.InBounds)
    (restEq : reader.rest = bytes ++ more) (nonempty : more ≠ []) :
    read reader = .error (.rest more.length) := by
  obtain ⟨framed, bytesEq⟩ := framed_of_read (inBounds_ofBytes bytes) accepted
  rw [rest_ofBytes] at bytesEq
  rw [bytesEq] at restEq
  rw [read_of_rest inBounds framed restEq, if_neg nonempty]

/-- A reader that has only the front of a message left does not read a batch: the message would
continue that batch. -/
theorem read_of_shorter (accepted : read (.ofBytes bytes) = .ok batch)
    (inBounds : reader.InBounds) (bytesEq : bytes = reader.rest ++ more) (nonempty : more ≠ []) :
    ∃ cause, read reader = .error cause := by
  cases other_eq : read reader with
  | error cause => exact ⟨cause, rfl⟩
  | ok other =>
    obtain ⟨framed, restEq⟩ := framed_of_read inBounds other_eq
    have continued : (Reader.ofBytes bytes).rest = other.form ++ more := by
      rw [rest_ofBytes, bytesEq, restEq]
    rw [read_of_rest (inBounds_ofBytes bytes) framed continued, if_neg nonempty] at accepted
    cases accepted

/-- With a negative limit not even a count can be read. -/
theorem read_ofPart_of_neg (bytes : Bytes) {size : Int} (negative : size < 0) :
    ∃ cause, read (.ofPart bytes size) = .error cause := by
  have missing : ¬((0 : Int) ≤ (4 : Nat) ∧ ((4 : Nat) : Int) ≤ (ofPart bytes size).remaining) := by
    simp only [remaining, ofPart]
    omega
  have failed : (ofPart bytes size).uint32.2.error? =
      some (.short 4 0 (ofPart bytes size).remaining) := by
    rw [Reader.uint32, unsigned, Reader.take, if_neg missing]
    rfl
  refine ⟨.missingCount .fields (.short 4 0 (ofPart bytes size).remaining), ?_⟩
  rw [read, readPart]
  simp only [failed]

/-- Of a buffer that starts with a message, nothing but the whole message is read as a batch. -/
theorem read_ofPart_of_ne (accepted : read (.ofBytes bytes) = .ok batch) {size : Int}
    (sizeLe : size ≤ (bytes ++ more).length) (sizeNe : size ≠ bytes.length) :
    ∃ cause, read (.ofPart (bytes ++ more) size) = .error cause := by
  by_cases negative : size < 0
  · exact read_ofPart_of_neg (bytes ++ more) negative
  have inBounds := inBounds_ofPart (Int.not_lt.mp negative) sizeLe
  have restEq := rest_ofPart (bytes ++ more) size
  rw [List.take_append] at restEq
  rw [List.length_append] at sizeLe
  by_cases shorter : size < bytes.length
  · have noneOfMore : size.toNat - bytes.length = 0 := by omega
    rw [noneOfMore, List.take_zero, List.append_nil] at restEq
    have nonempty : bytes.drop size.toNat ≠ [] := by
      rw [ne_eq, List.drop_eq_nil_iff]
      omega
    apply read_of_shorter accepted inBounds _ nonempty
    rw [restEq, List.take_append_drop]
  · rw [List.take_of_length_le (by omega)] at restEq
    refine ⟨_, read_of_longer accepted inBounds restEq ?_⟩
    rw [ne_eq, List.take_eq_nil_iff, ← List.length_eq_zero_iff]
    omega

theorem readInto_of_error {cause : DecodeError} (refused : read reader = .error cause)
    (held : Batch) : readInto reader held = (held, some cause) := by
  rw [readInto, refused]

/-- Of a message that is read as a batch, neither a proper front is read, be it given as a shorter
buffer or by a limit, nor the message with more bytes behind it. Whatever batch was to be replaced
stays as it was. The sizes of all buffers are signed words. -/
theorem readInto_of_not_whole {first : Batch}
    (accepted : bytes.length < 2 ^ 31 ∧ readInto (.ofBytes bytes) first = (batch, none))
    (held : Batch) :
    (∀ size < bytes.length,
      ∃ cause, readInto (.ofBytes (bytes.take size)) held = (held, some cause)) ∧
    (∀ (more : Bytes) (size : Int), (bytes ++ more).length < 2 ^ 31 →
      size ≤ (bytes ++ more).length → size ≠ bytes.length →
        ∃ cause, readInto (.ofPart (bytes ++ more) size) held = (held, some cause)) ∧
    ∀ more : Bytes, (bytes ++ more).length < 2 ^ 31 → more ≠ [] →
      readInto (.ofBytes (bytes ++ more)) held = (held, some (.rest more.length)) := by
  have whole := (readInto_eq_iff _ first batch).mp accepted.2
  refine ⟨?_, ?_, ?_⟩
  · intro size shorter
    have inBounds := inBounds_ofBytes (bytes.take size)
    have bytesEq : bytes = (Reader.ofBytes (bytes.take size)).rest ++ bytes.drop size := by
      rw [rest_ofBytes, List.take_append_drop]
    have nonempty : bytes.drop size ≠ [] := by
      rw [ne_eq, List.drop_eq_nil_iff]
      omega
    obtain ⟨cause, refused⟩ := read_of_shorter whole inBounds bytesEq nonempty
    exact ⟨cause, readInto_of_error refused held⟩
  · intro more size _ sizeLe sizeNe
    obtain ⟨cause, refused⟩ := read_ofPart_of_ne whole sizeLe sizeNe
    exact ⟨cause, readInto_of_error refused held⟩
  · intro more _ nonempty
    have inBounds := inBounds_ofBytes (bytes ++ more)
    exact readInto_of_error (read_of_longer whole inBounds (rest_ofBytes _) nonempty) held

/-- A message without fields, with one column whose second row is null. -/
def untypedFlags : Batch :=
  ⟨[], [⟨2, 1, 0, [1], [1], []⟩]⟩

theorem readInto_untypedFlags :
    untypedFlags.form.length < 2 ^ 31 ∧
      readInto (.ofBytes untypedFlags.form) .empty = (untypedFlags, none) ∧
      (∃ cause, readInto (.ofBytes (untypedFlags.form.take 4)) storedTexts =
        (storedTexts, some cause)) ∧
      (∃ cause, readInto (.ofPart untypedFlags.form 46) storedTexts =
        (storedTexts, some cause)) ∧
      readInto (.ofBytes (untypedFlags.form ++ [0, 0, 0, 0])) storedTexts =
        (storedTexts, some (.rest 4)) := by
  have lengthLt : untypedFlags.form.length < 2 ^ 31 := by decide
  have accepted : readInto (.ofBytes untypedFlags.form) .empty = (untypedFlags, none) := by
    decide +kernel
  obtain ⟨shorter, limited, longer⟩ := readInto_of_not_whole ⟨lengthLt, accepted⟩ storedTexts
  have part := limited [] 46 (by decide) (by decide) (by decide)
  rw [List.append_nil] at part
  exact ⟨lengthLt, accepted, shorter 4 (by decide), part,
    longer [0, 0, 0, 0] (by decide) (by decide)⟩

end Columnar.Batch
