import Columnar.Pool
import Mathlib

/-!
# Objects of a pool and their places

Every object that was made is in one place: it is idle, held under one handle, or destroyed.  The
steps of an event take an object out of its place and put it into another one, so `Accounted` is
said with the objects that are in hand between two steps.  No event leaves an object in hand
(`Accounted.runAll`).
-/

namespace Columnar.Pool

variable {α : Type} {pool : Pool α} {inHand : List Nat}

/-- The objects that are not in hand are in one place each, and the counter tells how many are
idle. -/
structure Accounted (inHand : List Nat) (pool : Pool α) : Prop where
  capacity_lt : pool.capacity < UInt64.size
  idle_le : pool.idle.length ≤ pool.capacity
  size_eq : pool.isOpen = true → pool.size.toNat = pool.idle.length
  idle_eq_nil : pool.isOpen = false → pool.idle = []
  handles_nodup : (pool.held.map Prod.fst).Nodup
  serials_perm : (inHand ++ pool.serials).Perm (List.range pool.constructed)

theorem accounted_ofFactory (capacity : UInt64) (factory : Nat → α) :
    (ofFactory capacity.toNat factory).Accounted [] where
  capacity_lt := capacity.toNat_lt
  idle_le := Nat.zero_le _
  size_eq := fun _ => rfl
  idle_eq_nil := fun _ => rfl
  handles_nodup := List.nodup_nil
  serials_perm := List.Perm.refl _

/-! ## Taking back -/

/-- The pool keeps what comes back. -/
def HasRoom (pool : Pool α) : Prop :=
  pool.isOpen = true ∧ pool.idle.length < pool.capacity

theorem takeBack_of_hasRoom (room : pool.HasRoom) (object : PoolObject α) :
    pool.takeBack object = (true, pool.keep object, []) := by
  rw [takeBack, if_pos room.1, if_pos room.2]

theorem takeBack_of_not_hasRoom (noRoom : ¬pool.HasRoom) (object : PoolObject α) :
    ∃ log, pool.takeBack object = (false, pool.destroy object, log) := by
  rw [takeBack]
  split
  next isOpen => exact ⟨_, if_neg fun space => noRoom ⟨isOpen, space⟩⟩
  next => exact ⟨[], rfl⟩

/-- What holds of the pool with an object kept and with it destroyed holds when it is taken
back. -/
theorem takeBack_induct {motive : Pool α → Prop} (object : PoolObject α)
    (kept : pool.HasRoom → motive (pool.keep object))
    (destroyed : ¬pool.HasRoom → motive (pool.destroy object)) :
    motive (pool.takeBack object).2.1 := by
  by_cases room : pool.HasRoom
  · rw [takeBack_of_hasRoom room]
    exact kept room
  · obtain ⟨log, eq⟩ := takeBack_of_not_hasRoom room object
    rw [eq]
    exact destroyed room

@[simp] theorem held_takeBack (object : PoolObject α) (pool : Pool α) :
    (pool.takeBack object).2.1.held = pool.held :=
  takeBack_induct (motive := fun after => after.held = pool.held) object (fun _ => rfl)
    (fun _ => rfl)

@[simp] theorem isOpen_takeBack (object : PoolObject α) (pool : Pool α) :
    (pool.takeBack object).2.1.isOpen = pool.isOpen :=
  takeBack_induct (motive := fun after => after.isOpen = pool.isOpen) object (fun _ => rfl)
    (fun _ => rfl)

/-! ## Handles -/

section Held

variable {held : List (Int × PoolObject α)} {handle other : Int} {object : PoolObject α}

private theorem lookup_cons_of_ne (different : other ≠ handle) :
    ((handle, object) :: held).lookup other = held.lookup other := by
  rw [List.lookup_cons, beq_false_of_ne different]

/-- What is held under a handle is held under no other one. -/
theorem perm_of_lookup (handlesNodup : (held.map Prod.fst).Nodup)
    (lookupEq : held.lookup handle = some object) :
    held.Perm ((handle, object) :: held.filter (·.1 != handle)) := by
  induction held with
  | nil => cases lookupEq
  | cons first rest ih =>
    obtain ⟨owner, owned⟩ := first
    rw [List.map_cons, List.nodup_cons] at handlesNodup
    by_cases same : handle = owner
    · subst same
      rw [List.lookup_cons_self, Option.some.injEq] at lookupEq
      have others : rest.filter (·.1 != handle) = rest := by
        rw [List.filter_eq_self]
        intro entry member
        have different : entry.1 ≠ handle := fun same =>
          handlesNodup.1 (List.mem_map.mpr ⟨entry, member, same⟩)
        simpa using different
      rw [lookupEq, List.filter_cons_of_neg (by simp), others]
    · rw [lookup_cons_of_ne same] at lookupEq
      rw [List.filter_cons_of_pos (by simpa using Ne.symm same)]
      exact ((ih handlesNodup.2 lookupEq).cons _).trans (List.Perm.swap _ _ _)

theorem lookup_filter_self (handle : Int) (held : List (Int × PoolObject α)) :
    (held.filter (·.1 != handle)).lookup handle = none := by
  rw [List.lookup_eq_none_iff]
  intro entry member
  have different := bne_iff_ne.mp (List.mem_filter.mp member).2
  exact bne_iff_ne.mpr different.symm

theorem lookup_filter_of_ne (different : other ≠ handle) (held : List (Int × PoolObject α)) :
    (held.filter (·.1 != handle)).lookup other = held.lookup other := by
  induction held with
  | nil => rfl
  | cons first rest ih =>
    by_cases same : first.1 = handle
    · rw [List.filter_cons_of_neg (by simpa using same), ih,
        lookup_cons_of_ne (same ▸ different)]
    · rw [List.filter_cons_of_pos (by simpa using same), List.lookup_cons, List.lookup_cons, ih]

theorem held_release (handle : Int) (pool : Pool α) :
    (pool.release handle).1.held = pool.held.filter (·.1 != handle) := by
  rw [release]
  split
  next noneHeld =>
    symm
    rw [List.filter_eq_self]
    intro entry member
    rw [bne_comm]
    exact List.lookup_eq_none_iff.mp noneHeld entry member
  next => exact held_takeBack _ _

theorem lookup_release_self (handle : Int) (pool : Pool α) :
    (pool.release handle).1.held.lookup handle = none := by
  rw [held_release]
  exact lookup_filter_self handle pool.held

@[simp] theorem held_obtain (pool : Pool α) : pool.obtain.2.held = pool.held := by
  rw [obtain]
  split <;> rfl

theorem lookup_acquire_self (handle : Int) (pool : Pool α) :
    (pool.acquire handle).2.1.held.lookup handle = some (pool.acquire handle).1 := by
  have noneHeld := lookup_release_self handle pool.obtain.2
  show ((pool.obtain.2.release handle).1.held ++ [(handle, pool.obtain.1)]).lookup handle = _
  rw [List.lookup_append, noneHeld, List.lookup_cons_self, Option.none_or]
  rfl

theorem lookup_assign_of_ne (different : other ≠ handle) (value : α) (pool : Pool α) :
    (pool.assign handle value).held.lookup other = pool.held.lookup other := by
  simp only [assign]
  induction pool.held with
  | nil => rfl
  | cons first rest ih =>
    obtain ⟨owner, owned⟩ := first
    rw [List.map_cons]
    by_cases same : owner = handle
    · have skipped : other ≠ owner := same ▸ different
      rw [if_pos same, lookup_cons_of_ne skipped, lookup_cons_of_ne skipped, ih]
    · rw [if_neg same, List.lookup_cons, List.lookup_cons, ih]

/-- Only an event about a handle changes what it holds. -/
theorem lookup_run_of_ne {event : Event α} (different : event.handle? ≠ some other)
    (pool : Pool α) : (event.run pool).held.lookup other = pool.held.lookup other := by
  cases event with
  | acquire owner =>
    have distinct : other ≠ owner := fun same => different (congrArg some same.symm)
    show ((pool.obtain.2.release owner).1.held ++ [(owner, pool.obtain.1)]).lookup other = _
    rw [List.lookup_append, held_release, lookup_filter_of_ne distinct, held_obtain,
      lookup_cons_of_ne distinct, List.lookup_nil, Option.or_none]
  | assign owner value =>
    exact lookup_assign_of_ne (fun same => different (congrArg some same.symm)) value pool
  | release owner =>
    have distinct : other ≠ owner := fun same => different (congrArg some same.symm)
    show (pool.release owner).1.held.lookup other = _
    rw [held_release, lookup_filter_of_ne distinct]
  | add value? =>
    cases value? with
    | none => rfl
    | some value => exact congrArg (List.lookup other) (held_takeBack _ _)
  | close => rfl

end Held

/-! ## Steps of an event -/

namespace Accounted

section Steps

variable {handle : Int} {object : PoolObject α}

theorem construct (accounted : pool.Accounted inHand) (value : α) :
    (pool.construct value).2.Accounted (pool.constructed :: inHand) where
  capacity_lt := accounted.capacity_lt
  idle_le := accounted.idle_le
  size_eq := accounted.size_eq
  idle_eq_nil := accounted.idle_eq_nil
  handles_nodup := accounted.handles_nodup
  serials_perm := by
    have rangeEq : List.range (pool.construct value).2.constructed =
        List.range pool.constructed ++ [pool.constructed] := List.range_succ
    rw [rangeEq]
    exact (accounted.serials_perm.cons _).trans (List.perm_append_singleton _ _).symm

/-- An object that is handed out was the first idle one, or is new. -/
theorem obtain (accounted : pool.Accounted inHand) :
    pool.obtain.2.Accounted (pool.obtain.1.serial :: inHand) := by
  rw [Pool.obtain]
  split
  next object rest idleEq =>
    have idleLe := accounted.idle_le
    have sizeEq := accounted.size_eq
    have serialsPerm := accounted.serials_perm
    rw [idleEq, List.length_cons] at idleLe sizeEq
    rw [serials, idleEq] at serialsPerm
    exact {
      capacity_lt := accounted.capacity_lt
      idle_le := Nat.le_of_succ_le idleLe
      size_eq := by
        intro isOpen
        have counted := sizeEq isOpen
        have oneLe : 1 ≤ pool.size := by
          rw [UInt64.le_iff_toNat_le, counted]
          exact Nat.succ_le_succ (Nat.zero_le _)
        show (pool.size - 1).toNat = rest.length
        rw [UInt64.toNat_sub_of_le _ _ oneLe, counted]
        rfl
      idle_eq_nil := by
        intro closed
        have noneIdle := accounted.idle_eq_nil closed
        rw [idleEq] at noneIdle
        cases noneIdle
      handles_nodup := accounted.handles_nodup
      serials_perm := List.perm_middle.symm.trans serialsPerm }
  next noneIdle =>
    have constructed := accounted.construct (pool.factory pool.manufactured)
    exact {
      capacity_lt := constructed.capacity_lt
      idle_le := constructed.idle_le
      size_eq := constructed.size_eq
      idle_eq_nil := constructed.idle_eq_nil
      handles_nodup := constructed.handles_nodup
      serials_perm := constructed.serials_perm }

theorem destroy (accounted : pool.Accounted (object.serial :: inHand)) :
    (pool.destroy object).Accounted inHand where
  capacity_lt := accounted.capacity_lt
  idle_le := accounted.idle_le
  size_eq := accounted.size_eq
  idle_eq_nil := accounted.idle_eq_nil
  handles_nodup := accounted.handles_nodup
  serials_perm := by
    refine List.Perm.trans ?_ accounted.serials_perm
    simp only [serials, Pool.destroy, ← List.append_assoc]
    exact List.perm_middle

theorem keep (accounted : pool.Accounted (object.serial :: inHand)) (room : pool.HasRoom) :
    (pool.keep object).Accounted inHand where
  capacity_lt := accounted.capacity_lt
  idle_le := by
    rw [Pool.keep, List.length_append, List.length_singleton]
    exact room.2
  size_eq := by
    intro _
    have counted := accounted.size_eq room.1
    have one : (1 : UInt64).toNat = 1 := rfl
    rw [Pool.keep, UInt64.toNat_add, counted, one, List.length_append, List.length_singleton]
    exact Nat.mod_eq_of_lt (Nat.lt_of_le_of_lt room.2 accounted.capacity_lt)
  idle_eq_nil := by
    intro closed
    have notOpen : pool.isOpen = false := closed
    rw [room.1] at notOpen
    cases notOpen
  handles_nodup := accounted.handles_nodup
  serials_perm := by
    refine List.Perm.trans ?_ accounted.serials_perm
    simp only [serials, Pool.keep, List.map_append, List.map_singleton, List.append_assoc,
      List.cons_append, List.nil_append]
    exact (List.perm_middle.append_left inHand).trans List.perm_middle

theorem takeBack (accounted : pool.Accounted (object.serial :: inHand)) :
    (pool.takeBack object).2.1.Accounted inHand :=
  takeBack_induct object accounted.keep fun _ => accounted.destroy

/-- An object that is given up is in hand. -/
theorem unhold (accounted : pool.Accounted inHand)
    (lookupEq : pool.held.lookup handle = some object) :
    Accounted (object.serial :: inHand)
      { pool with held := pool.held.filter (·.1 != handle) } where
  capacity_lt := accounted.capacity_lt
  idle_le := accounted.idle_le
  size_eq := accounted.size_eq
  idle_eq_nil := accounted.idle_eq_nil
  handles_nodup := accounted.handles_nodup.sublist (List.filter_sublist.map Prod.fst)
  serials_perm := by
    have heldPerm := (perm_of_lookup accounted.handles_nodup lookupEq).map
      (PoolObject.serial ∘ Prod.snd)
    have serialsPerm := accounted.serials_perm
    rw [serials] at serialsPerm
    refine List.Perm.trans ?_ serialsPerm
    refine List.Perm.trans ?_
      (((heldPerm.symm.append_left _).append_right pool.destroyed).append_left inHand)
    simp only [serials, List.map_cons, List.append_assoc, List.cons_append]
    exact List.perm_middle.symm.trans (List.perm_middle.symm.append_left inHand)

theorem hold (accounted : pool.Accounted (object.serial :: inHand))
    (notHeld : pool.held.lookup handle = none) :
    Accounted inHand { pool with held := pool.held ++ [(handle, object)] } where
  capacity_lt := accounted.capacity_lt
  idle_le := accounted.idle_le
  size_eq := accounted.size_eq
  idle_eq_nil := accounted.idle_eq_nil
  handles_nodup := by
    rw [List.map_append, List.map_singleton, List.nodup_append]
    refine ⟨accounted.handles_nodup, List.nodup_singleton handle, ?_⟩
    intro owner member other isHandle same
    obtain ⟨entry, entryMember, rfl⟩ := List.mem_map.mp member
    have different := bne_iff_ne.mp (List.lookup_eq_none_iff.mp notHeld entry entryMember)
    exact different ((List.mem_singleton.mp isHandle).symm.trans same.symm)
  serials_perm := by
    refine List.Perm.trans ?_ accounted.serials_perm
    simp only [serials, List.map_append, List.map_singleton, ← List.append_assoc]
    rw [List.append_assoc, List.singleton_append]
    exact List.perm_middle

theorem not_mem_idle (accounted : pool.Accounted (object.serial :: inHand)) :
    object ∉ pool.idle := by
  intro idle
  have distinct := accounted.serials_perm.nodup_iff.mpr List.nodup_range
  rw [List.cons_append, List.nodup_cons] at distinct
  apply distinct.1
  rw [serials]
  simp only [List.mem_append]
  exact Or.inr (Or.inl (Or.inl (List.mem_map_of_mem idle)))

theorem new_not_mem_idle (accounted : pool.Accounted inHand) (value : α) :
    ⟨pool.constructed, value⟩ ∉ pool.idle := by
  have constructed : (pool.construct value).2.Accounted
      ((pool.construct value).1.serial :: inHand) := accounted.construct value
  exact constructed.not_mem_idle

end Steps

/-! ## Events -/

theorem release (accounted : pool.Accounted inHand) (handle : Int) :
    (pool.release handle).1.Accounted inHand := by
  rw [Pool.release]
  split
  next => exact accounted
  next object lookupEq => exact (accounted.unhold lookupEq).takeBack

theorem acquire (accounted : pool.Accounted inHand) (handle : Int) :
    (pool.acquire handle).2.1.Accounted inHand :=
  (accounted.obtain.release handle).hold (lookup_release_self handle pool.obtain.2)

theorem assign (accounted : pool.Accounted inHand) (handle : Int) (value : α) :
    (pool.assign handle value).Accounted inHand where
  capacity_lt := accounted.capacity_lt
  idle_le := accounted.idle_le
  size_eq := accounted.size_eq
  idle_eq_nil := accounted.idle_eq_nil
  handles_nodup := by
    have same : (pool.assign handle value).held.map Prod.fst = pool.held.map Prod.fst := by
      rw [Pool.assign, List.map_map]
      apply List.map_congr_left
      intro entry _
      simp only [Function.comp]
      split <;> rfl
    rw [same]
    exact accounted.handles_nodup
  serials_perm := by
    have same : (pool.assign handle value).serials = pool.serials := by
      rw [serials, serials, Pool.assign, List.map_map]
      congr 2
      apply List.map_congr_left
      intro entry _
      simp only [Function.comp]
      split <;> rfl
    rw [same]
    exact accounted.serials_perm

theorem add (accounted : pool.Accounted inHand) (value? : Option α) :
    (pool.add value?).2.1.Accounted inHand := by
  cases value? with
  | none => exact accounted
  | some value => exact (accounted.construct value).takeBack

theorem close (accounted : pool.Accounted inHand) : pool.close.Accounted inHand where
  capacity_lt := accounted.capacity_lt
  idle_le := Nat.zero_le _
  size_eq := nofun
  idle_eq_nil := fun _ => rfl
  handles_nodup := accounted.handles_nodup
  serials_perm := by
    refine List.Perm.trans ?_ accounted.serials_perm
    simp only [serials, Pool.close, List.map_nil, List.nil_append]
    refine List.Perm.append_left inHand ?_
    rw [← List.append_assoc]
    exact (List.perm_append_comm.trans
      ((List.reverse_perm _).append_right _)).append_right pool.destroyed

theorem run (accounted : pool.Accounted inHand) (event : Event α) :
    (event.run pool).Accounted inHand := by
  cases event with
  | acquire handle => exact accounted.acquire handle
  | assign handle value => exact accounted.assign handle value
  | release handle => exact accounted.release handle
  | add value? => exact accounted.add value?
  | close => exact accounted.close

theorem runAll (accounted : pool.Accounted inHand) (events : List (Event α)) :
    (pool.runAll events).Accounted inHand := by
  induction events generalizing pool with
  | nil => exact accounted
  | cons event rest ih => exact ih (accounted.run event)

end Accounted

end Columnar.Pool
