import Columnar.Wire.Stream

/-!
# Readers that have failed

The first failure of a reader is its last word: whatever it is asked for from then on, it answers
zero, empty or nothing and stays where it is.  `Steady` says this of one read, together with what
holds of every read: the answer is blank too where the reader fails in the course of it, no read
goes back, and none moves the limit.

Reads are made of `Reader.take`, so each is steady by way of its parts (`Steady.renamed`,
`Steady.behind`, `Steady.guarded`).  The exception is a signed 32-bit number, which can fail after
all of its bytes were there.
-/

namespace Columnar.Wire

namespace Reader

/-- A read that answers `blank` where the reader has failed behind it, changes nothing where the
reader has failed before it, never goes back and keeps the limit. -/
structure Steady {α : Type} (read : Reader → α × Reader) (blank : α) : Prop where
  read_of_failed : ∀ {reader : Reader} {cause : ReadError}, reader.error? = some cause →
    read reader = (blank, reader)
  blank_of_error : ∀ {reader : Reader} {cause : ReadError},
    (read reader).2.error? = some cause → (read reader).1 = blank
  position_le : ∀ reader : Reader, reader.position ≤ (read reader).2.position
  limit_eq : ∀ reader : Reader, (read reader).2.limit = reader.limit

@[simp] theorem limit_fail (cause : ReadError) (reader : Reader) :
    (reader.fail cause).limit = reader.limit := by
  rw [fail]
  split <;> rfl

@[simp] theorem position_fail (cause : ReadError) (reader : Reader) :
    (reader.fail cause).position = reader.position := by
  rw [fail]
  split <;> rfl

theorem steady_take (count : Int) : Steady (take count) none where
  read_of_failed := fun failed => take_of_failed failed count
  blank_of_error := by
    intro reader cause failed
    rw [take] at failed ⊢
    cases before : reader.error? with
    | some earlier => rfl
    | none =>
      simp only [before] at failed ⊢
      split
      next enough =>
        rw [if_pos enough, skip, before] at failed
        cases failed
      next => rfl
  position_le := by
    intro reader
    rw [take]
    split
    · exact Nat.le_refl _
    · split
      · exact Nat.le_add_right _ _
      · exact Nat.le_of_eq (position_fail _ reader).symm
  limit_eq := by
    intro reader
    rw [take]
    split
    · rfl
    · split
      · rfl
      · exact limit_fail _ reader

namespace Steady

variable {α β : Type} {read : Reader → α × Reader} {blank : α}

/-- A failure stays. -/
theorem error?_of_read (steady : Steady read blank) {reader : Reader}
    (noError : (read reader).2.error? = none) : reader.error? = none := by
  cases failed : reader.error? with
  | none => rfl
  | some cause =>
    rw [steady.read_of_failed failed, failed] at noError
    exact noError

theorem renamed (steady : Steady read blank) {readOther : Reader → β × Reader} (name : α → β)
    (readEq : ∀ reader, readOther reader = (name (read reader).1, (read reader).2)) :
    Steady readOther (name blank) where
  read_of_failed := by
    intro reader cause failed
    rw [readEq, steady.read_of_failed failed]
  blank_of_error := by
    intro reader cause failed
    rw [readEq] at failed ⊢
    rw [steady.blank_of_error failed]
  position_le := by
    intro reader
    rw [readEq]
    exact steady.position_le reader
  limit_eq := by
    intro reader
    rw [readEq]
    exact steady.limit_eq reader

/-- A read whose size was read before it. -/
theorem behind {σ : Type} {size : Reader → σ × Reader} {blankSize : σ}
    {content : σ → Reader → α × Reader} (steadySize : Steady size blankSize)
    (steadyContent : ∀ count, Steady (content count) blank) :
    Steady (fun reader => content (size reader).1 (size reader).2) blank where
  read_of_failed := by
    intro reader cause failed
    rw [steadySize.read_of_failed failed, (steadyContent blankSize).read_of_failed failed]
  blank_of_error := fun failed => (steadyContent _).blank_of_error failed
  position_le := by
    intro reader
    exact Nat.le_trans (steadySize.position_le reader) ((steadyContent _).position_le _)
  limit_eq := by
    intro reader
    exact ((steadyContent _).limit_eq _).trans (steadySize.limit_eq reader)

/-- A read behind a check of what is left. -/
theorem guarded (steady : Steady read blank) (needed : Int) :
    Steady
      (fun reader =>
        if reader.remaining < needed then (blank, reader.failShort (reader.remaining + 1))
        else read reader)
      blank where
  read_of_failed := by
    intro reader cause failed
    split
    · rw [failShort, fail_of_failed failed]
    · exact steady.read_of_failed failed
  blank_of_error := by
    intro reader cause failed
    split at failed
    next short => rw [if_pos short]
    next enough =>
      rw [if_neg enough]
      exact steady.blank_of_error failed
  position_le := by
    intro reader
    split
    · exact Nat.le_of_eq (position_fail _ reader).symm
    · exact steady.position_le reader
  limit_eq := by
    intro reader
    split
    · exact limit_fail _ reader
    · exact steady.limit_eq reader

end Steady

theorem steady_takeOrEmpty (count : Int) : Steady (takeOrEmpty count) [] :=
  (steady_take count).renamed (·.getD []) fun _ => rfl

theorem unsigned_eq (width : Nat) (reader : Reader) :
    reader.unsigned width =
      (((reader.take width).1.map Bytes.ofBigEndian).getD 0, (reader.take width).2) := by
  rw [unsigned]
  split <;> rename_i taken <;> rw [taken] <;> rfl

theorem steady_unsigned (width : Nat) : Steady (unsigned width) 0 :=
  (steady_take width).renamed (fun bytes? => (bytes?.map Bytes.ofBigEndian).getD 0)
    (unsigned_eq width)

theorem steady_uint16 : Steady uint16 0 :=
  (steady_unsigned 2).renamed UInt16.ofNat fun _ => rfl

theorem steady_uint32 : Steady uint32 0 :=
  (steady_unsigned 4).renamed UInt32.ofNat fun _ => rfl

theorem steady_int64 : Steady int64 0 :=
  (steady_unsigned 8).renamed (fun code => ZigZag.decode (UInt64.ofNat code)) fun _ => rfl

/-- Behind a signed 32-bit number a reader stands as behind any number, or has failed there. -/
theorem int32_behind (reader : Reader) :
    reader.int32.2 = reader.int64.2 ∨ ∃ cause, reader.int32.2 = reader.int64.2.fail cause := by
  rw [int32]
  generalize reader.int64 = wide
  obtain ⟨value, behind⟩ := wide
  simp only
  split
  · exact Or.inl rfl
  · split
    · exact Or.inl rfl
    · exact Or.inr ⟨_, rfl⟩

/-- A number that does not fit fails the reader behind it, and is answered with zero. -/
theorem steady_int32 : Steady int32 0 where
  read_of_failed := by
    intro reader cause failed
    rw [int32, steady_int64.read_of_failed failed]
    simp only [failed]
  blank_of_error := by
    intro reader cause failed
    rw [int32] at failed ⊢
    cases wide : reader.int64.2.error? with
    | some earlier => simp only [wide]
    | none =>
      simp only [wide] at failed ⊢
      split
      next fits =>
        rw [if_pos fits, wide] at failed
        cases failed
      next => rfl
  position_le := by
    intro reader
    have wideLe := steady_int64.position_le reader
    obtain same | ⟨cause, failed⟩ := int32_behind reader
    · rw [same]
      exact wideLe
    · rw [failed, position_fail]
      exact wideLe
  limit_eq := by
    intro reader
    have wideLimit := steady_int64.limit_eq reader
    obtain same | ⟨cause, failed⟩ := int32_behind reader
    · rw [same]
      exact wideLimit
    · rw [failed, limit_fail]
      exact wideLimit

theorem steady_text : Steady text [] :=
  steady_uint16.behind fun size => steady_takeOrEmpty size.toNat

theorem steady_buffer : Steady buffer [] :=
  steady_uint32.behind fun size => (steady_takeOrEmpty size.toNat).guarded size.toNat

theorem steady_uint32s : Steady uint32s [] := by
  have steadyContent (count : UInt32) : Steady
      (fun reader => ((Bytes.words 4 ((reader.takeOrEmpty (4 * count.toNat)).1.length / 4)
        (reader.takeOrEmpty (4 * count.toNat)).1).map UInt32.ofNat,
          (reader.takeOrEmpty (4 * count.toNat)).2)) [] :=
    (steady_takeOrEmpty (4 * count.toNat)).renamed
      (fun bytes => (Bytes.words 4 (bytes.length / 4) bytes).map UInt32.ofNat) fun _ => rfl
  exact steady_uint32.behind fun count => (steadyContent count).guarded (4 * count.toNat)

end Reader

namespace Request

open Reader

theorem steady (request : Request) : Steady request.run request.blank := by
  cases request with
  | uint16 => exact steady_uint16.renamed _ fun _ => rfl
  | uint32 => exact steady_uint32.renamed _ fun _ => rfl
  | int32 => exact steady_int32.renamed _ fun _ => rfl
  | int64 => exact steady_int64.renamed _ fun _ => rfl
  | text => exact steady_text.renamed _ fun _ => rfl
  | buffer => exact steady_buffer.renamed _ fun _ => rfl
  | uint32s => exact steady_uint32s.renamed _ fun _ => rfl
  | raw count => exact (steady_take count.toInt).renamed _ fun _ => rfl

/-! ## Sequences of requests -/

variable {reader : Reader}

theorem runAll_of_failed {cause : ReadError} (failed : reader.error? = some cause)
    (requests : List Request) : runAll requests reader = (requests.map blank, reader) := by
  induction requests with
  | nil => rfl
  | cons request rest ih =>
    rw [runAll, request.steady.read_of_failed failed]
    simp only [ih, List.map_cons]

theorem position_le_runAll (requests : List Request) (reader : Reader) :
    reader.position ≤ (runAll requests reader).2.position := by
  induction requests generalizing reader with
  | nil => exact Nat.le_refl _
  | cons request rest ih => exact Nat.le_trans (request.steady.position_le reader) (ih _)

theorem limit_runAll (requests : List Request) (reader : Reader) :
    (runAll requests reader).2.limit = reader.limit := by
  induction requests generalizing reader with
  | nil => rfl
  | cons request rest ih => exact (ih _).trans (request.steady.limit_eq reader)

theorem error?_of_runAll (requests : List Request)
    (noError : (runAll requests reader).2.error? = none) : reader.error? = none := by
  cases failed : reader.error? with
  | none => rfl
  | some cause =>
    rw [runAll_of_failed failed, failed] at noError
    exact noError

end Request

end Columnar.Wire
