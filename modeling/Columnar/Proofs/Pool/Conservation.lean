import Columnar.Proofs.Pool.Accounting

/-!
# Conservation of pooled objects

What a run of events leaves of a pool, and what it does next.  Every object is in one place, so the
objects that were made are those that are idle, held or destroyed.  The idle ones form a queue:
objects leave it at its front only, so one that is acquired has been idle longest
(`Accounted.idleThroughout_of_sublist`).  What is destroyed stays so, and a closed pool destroys
whatever comes back.
-/

namespace Columnar.Pool

variable {α : Type} {pool : Pool α} {inHand : List Nat}

/-! ## The order of the idle objects -/

/-- Objects leave a queue at its front, and others, that were not in it, come in behind the rest. -/
def Shifts (before after : List (PoolObject α)) : Prop :=
  ∃ (count : Nat) (added : List (PoolObject α)),
    after = before.drop count ++ added ∧ ∀ object ∈ added, object ∉ before

theorem shifts_refl (queue : List (PoolObject α)) : Shifts queue queue :=
  ⟨0, [], (List.append_nil queue).symm, nofun⟩

/-- What is in a queue before and behind a shift was not overtaken. -/
theorem Shifts.sublist {before after : List (PoolObject α)} {object other : PoolObject α}
    (shifts : Shifts before after) (order : [object, other].Sublist after)
    (otherBefore : other ∈ before) : [object, other].Sublist before := by
  obtain ⟨count, added, rfl, fresh⟩ := shifts
  obtain ⟨front, back, split, frontLe, backLe⟩ := List.sublist_append_iff.mp order
  have noBack : back = [] := by
    rcases List.eq_nil_or_concat back with none | ⟨others, last, rfl⟩
    · exact none
    · have lastEq : other = last := by
        have ends := congrArg List.getLast? split
        simpa using ends
      have lastAdded : other ∈ added := by
        rw [lastEq]
        exact backLe.subset (by simp)
      exact absurd otherBefore (fresh other lastAdded)
  rw [noBack, List.append_nil] at split
  rw [split]
  exact frontLe.trans (List.drop_sublist count before)

theorem idle_takeBack (object : PoolObject α) (pool : Pool α) :
    ∃ added, (pool.takeBack object).2.1.idle = pool.idle ++ added ∧
      ∀ other ∈ added, other = object :=
  takeBack_induct
    (motive := fun after => ∃ added, after.idle = pool.idle ++ added ∧
      ∀ other ∈ added, other = object)
    object (fun _ => ⟨[object], rfl, fun _ => List.mem_singleton.mp⟩)
    (fun _ => ⟨[], (List.append_nil _).symm, nofun⟩)

theorem obtain_of_idle {object : PoolObject α} {rest : List (PoolObject α)}
    (idleEq : pool.idle = object :: rest) :
    pool.obtain = (object, { pool with idle := rest, size := pool.size - 1 }) := by
  rw [obtain, idleEq]

theorem obtain_of_none_idle (noneIdle : pool.idle = []) :
    pool.obtain = (⟨pool.constructed, pool.factory pool.manufactured⟩,
      { pool with
        manufactured := pool.manufactured + 1
        constructed := pool.constructed + 1 }) := by
  rw [obtain]
  split
  next idleEq =>
    rw [noneIdle] at idleEq
    cases idleEq
  next => rfl

theorem idle_obtain (pool : Pool α) : pool.obtain.2.idle = pool.idle.drop 1 := by
  cases idle_eq : pool.idle with
  | nil =>
    rw [obtain_of_none_idle idle_eq]
    exact idle_eq
  | cons object rest =>
    rw [obtain_of_idle idle_eq]
    rfl

/-- What a handle gives up comes in behind the idle objects, if it comes in. -/
theorem idle_release (handle : Int) (pool : Pool α) :
    ∃ added, (pool.release handle).1.idle = pool.idle ++ added ∧
      ∀ object ∈ added, pool.held.lookup handle = some object := by
  rw [release]
  split
  next => exact ⟨[], (List.append_nil _).symm, List.forall_mem_nil _⟩
  next object lookupEq =>
    obtain ⟨added, idleEq, only⟩ :=
      idle_takeBack object { pool with held := pool.held.filter (·.1 != handle) }
    exact ⟨added, idleEq, fun other member => lookupEq.trans (only other member ▸ rfl)⟩

namespace Accounted

theorem shifts_run (accounted : pool.Accounted inHand) (event : Event α) :
    Shifts pool.idle (event.run pool).idle := by
  cases event with
  | acquire handle =>
    obtain ⟨added, idleEq, only⟩ := idle_release handle pool.obtain.2
    rw [idle_obtain] at idleEq
    refine ⟨1, added, idleEq, ?_⟩
    intro object member
    have lookupEq := only object member
    rw [held_obtain] at lookupEq
    exact (accounted.unhold lookupEq).not_mem_idle
  | assign handle value => exact shifts_refl pool.idle
  | release handle =>
    obtain ⟨added, idleEq, only⟩ := idle_release handle pool
    exact ⟨0, added, idleEq, fun object member =>
      (accounted.unhold (only object member)).not_mem_idle⟩
  | add value? =>
    cases value? with
    | none => exact shifts_refl pool.idle
    | some value =>
      obtain ⟨added, idleEq, only⟩ :=
        idle_takeBack ⟨pool.constructed, value⟩ (pool.construct value).2
      refine ⟨0, added, idleEq, ?_⟩
      intro object member
      rw [only object member]
      exact accounted.new_not_mem_idle value
  | close => exact ⟨pool.idle.length, [], by rw [List.drop_length]; rfl, nofun⟩

/-- An object that is idle in front of another one has been idle at least as long. -/
theorem idleThroughout_of_sublist {events : List (Event α)} {object other : PoolObject α}
    (accounted : pool.Accounted inHand)
    (order : [object, other].Sublist (pool.runAll events).idle)
    (otherIdle : IdleThroughout other pool events) :
    IdleThroughout object pool events ∧ [object, other].Sublist pool.idle := by
  induction events generalizing pool with
  | nil => exact ⟨order.subset List.mem_cons_self, order⟩
  | cons event rest ih =>
    obtain ⟨later, orderAfter⟩ := ih (accounted.run event) order otherIdle.2
    have orderBefore := (accounted.shifts_run event).sublist orderAfter otherIdle.1
    exact ⟨⟨orderBefore.subset List.mem_cons_self, later⟩, orderBefore⟩

end Accounted

/-! ## What is destroyed -/

theorem destroyed_takeBack (object : PoolObject α) (pool : Pool α) :
    pool.destroyed <:+ (pool.takeBack object).2.1.destroyed :=
  takeBack_induct (motive := fun after => pool.destroyed <:+ after.destroyed) object
    (fun _ => List.suffix_refl _) (fun _ => List.suffix_cons _ _)

theorem destroyed_obtain (pool : Pool α) : pool.obtain.2.destroyed = pool.destroyed := by
  rw [obtain]
  split <;> rfl

theorem destroyed_release (handle : Int) (pool : Pool α) :
    pool.destroyed <:+ (pool.release handle).1.destroyed := by
  rw [release]
  split
  next => exact List.suffix_refl _
  next object _ =>
    exact destroyed_takeBack object { pool with held := pool.held.filter (·.1 != handle) }

/-- What is destroyed stays destroyed. -/
theorem destroyed_run (event : Event α) (pool : Pool α) :
    pool.destroyed <:+ (event.run pool).destroyed := by
  cases event with
  | acquire handle => exact destroyed_obtain pool ▸ destroyed_release handle pool.obtain.2
  | assign handle value => exact List.suffix_refl _
  | release handle => exact destroyed_release handle pool
  | add value? =>
    cases value? with
    | none => exact List.suffix_refl _
    | some value => exact destroyed_takeBack _ (pool.construct value).2
  | close => exact List.suffix_append _ _

theorem isOpen_obtain (pool : Pool α) : pool.obtain.2.isOpen = pool.isOpen := by
  rw [obtain]
  split <;> rfl

theorem isOpen_release (handle : Int) (pool : Pool α) :
    (pool.release handle).1.isOpen = pool.isOpen := by
  rw [release]
  split
  next => rfl
  next => exact isOpen_takeBack _ _

/-- A closed pool stays closed. -/
theorem isOpen_run (closed : pool.isOpen = false) (event : Event α) :
    (event.run pool).isOpen = false := by
  cases event with
  | acquire handle => exact (isOpen_release handle _).trans ((isOpen_obtain pool).trans closed)
  | assign handle value => exact closed
  | release handle => exact (isOpen_release handle pool).trans closed
  | add value? =>
    cases value? with
    | none => exact closed
    | some value => exact (isOpen_takeBack _ _).trans closed
  | close => rfl

/-! ## What is made -/

theorem constructed_release (handle : Int) (pool : Pool α) :
    (pool.release handle).1.constructed = pool.constructed := by
  rw [release]
  split
  next => rfl
  next object _ =>
    exact takeBack_induct (motive := fun after => after.constructed = pool.constructed) object
      (fun _ => rfl) (fun _ => rfl)

theorem acquire_fst (handle : Int) (pool : Pool α) :
    (pool.acquire handle).1 = pool.obtain.1 :=
  rfl

theorem constructed_acquire (handle : Int) (pool : Pool α) :
    (pool.acquire handle).2.1.constructed = pool.obtain.2.constructed :=
  constructed_release handle pool.obtain.2

theorem runAll_append (earlier later : List (Event α)) (pool : Pool α) :
    pool.runAll (earlier ++ later) = (pool.runAll earlier).runAll later :=
  List.foldl_append

/-! ## After a run -/

/-- Every object that was made is idle, held under one handle or destroyed, and only one of these,
and the counter of an open pool tells how many are idle. -/
structure Conserved (pool : Pool α) : Prop where
  size_eq : pool.isOpen = true → pool.size.toNat = pool.idle.length
  idle_le : pool.idle.length ≤ pool.capacity
  constructed_eq :
    pool.constructed = pool.idle.length + pool.held.length + pool.destroyed.length
  serials_perm : pool.serials.Perm (List.range pool.constructed)
  handles_nodup : (pool.held.map Prod.fst).Nodup

/-- What is acquired behind a run of events is held from then on.  It is a new object if none is
idle.  Otherwise it is the one that has been idle longest, with the value that it had all the time,
and no object is made. -/
structure Acquired (origin : Pool α) (events : List (Event α)) (handle : Int)
    (object : PoolObject α) (after : Pool α) : Prop where
  lookup_eq : after.held.lookup handle = some object
  new : (origin.runAll events).idle = [] →
    object.serial = (origin.runAll events).constructed ∧
      after.constructed = (origin.runAll events).constructed + 1
  old : (origin.runAll events).idle ≠ [] →
    object ∈ (origin.runAll events).idle ∧
      after.constructed = (origin.runAll events).constructed
  oldest : ∀ past recent, events = past ++ recent → ∀ other ∈ (origin.runAll events).idle,
    IdleThroughout other (origin.runAll past) recent →
      IdleThroughout object (origin.runAll past) recent

/-- An object that was given up is idle if the pool had room for it, and destroyed otherwise. -/
structure Released (pool : Pool α) (handle : Int) (object : PoolObject α) (after : Pool α) :
    Prop where
  lookup_eq_none : after.held.lookup handle = none
  kept : pool.HasRoom → after.idle = pool.idle ++ [object] ∧ after.destroyed = pool.destroyed
  destroyed : ¬pool.HasRoom →
    after.idle = pool.idle ∧ after.destroyed = object.serial :: pool.destroyed

/-- The answer to an addition tells whether there was an object and the pool has kept it, behind
the idle objects.  The pool does if there is room. -/
structure Added (pool : Pool α) (value? : Option α) (kept : Bool) (after : Pool α) : Prop where
  kept_iff : kept = true ↔
    ∃ value, value? = some value ∧ ⟨pool.constructed, value⟩ ∈ after.idle
  idle_eq : ∀ value, value? = some value → pool.HasRoom →
    kept = true ∧ after.idle = pool.idle ++ [⟨pool.constructed, value⟩] ∧
      after.destroyed = pool.destroyed
  destroyed : ∀ value, value? = some value → kept = false →
    after.destroyed = pool.constructed :: pool.destroyed

/-- A closed pool has no idle object, keeps none and stays closed.  All objects are destroyed once
none is held. -/
structure Closed (pool : Pool α) : Prop where
  idle_eq_nil : pool.idle = []
  not_hasRoom : ¬pool.HasRoom
  isOpen_run : ∀ event : Event α, (event.run pool).isOpen = false
  destroyed_perm : pool.held = [] → pool.destroyed.Perm (List.range pool.constructed)

theorem released {handle : Int} {object : PoolObject α}
    (lookupEq : pool.held.lookup handle = some object) :
    pool.Released handle object (pool.release handle).1 where
  lookup_eq_none := lookup_release_self handle pool
  kept := by
    intro room
    simp only [release, lookupEq]
    have roomGivenUp : HasRoom { pool with held := pool.held.filter (·.1 != handle) } := room
    rw [takeBack_of_hasRoom roomGivenUp]
    exact ⟨rfl, rfl⟩
  destroyed := by
    intro noRoom
    simp only [release, lookupEq]
    have noRoomGivenUp : ¬HasRoom { pool with held := pool.held.filter (·.1 != handle) } :=
      noRoom
    obtain ⟨log, eq⟩ := takeBack_of_not_hasRoom noRoomGivenUp object
    rw [eq]
    exact ⟨rfl, rfl⟩

namespace Accounted

theorem conserved (accounted : pool.Accounted []) : pool.Conserved where
  size_eq := accounted.size_eq
  idle_le := accounted.idle_le
  constructed_eq := by
    have counted := accounted.serials_perm.length_eq
    rw [List.nil_append, List.length_range, serials, List.length_append, List.length_append,
      List.length_map, List.length_map] at counted
    exact counted.symm
  serials_perm := accounted.serials_perm
  handles_nodup := accounted.handles_nodup

theorem closed (accounted : pool.Accounted []) (closed : pool.isOpen = false) : pool.Closed where
  idle_eq_nil := accounted.idle_eq_nil closed
  not_hasRoom := by
    rintro ⟨isOpen, -⟩
    rw [closed] at isOpen
    cases isOpen
  isOpen_run := Pool.isOpen_run closed
  destroyed_perm := by
    intro noneHeld
    have serialsPerm := accounted.serials_perm
    rw [serials, accounted.idle_eq_nil closed, noneHeld] at serialsPerm
    exact serialsPerm

theorem added (accounted : pool.Accounted []) (value? : Option α) :
    pool.Added value? (pool.add value?).1 (pool.add value?).2.1 := by
  cases value? with
  | none => exact ⟨⟨nofun, nofun⟩, nofun, nofun⟩
  | some value =>
    have fresh := accounted.new_not_mem_idle value
    show pool.Added (some value)
      ((pool.construct value).2.takeBack ⟨pool.constructed, value⟩).1
      ((pool.construct value).2.takeBack ⟨pool.constructed, value⟩).2.1
    by_cases room : (pool.construct value).2.HasRoom
    · rw [takeBack_of_hasRoom room]
      exact {
        kept_iff := iff_of_true rfl
          ⟨value, rfl, List.mem_append_right pool.idle (List.mem_singleton.mpr rfl)⟩
        idle_eq := by
          intro other same _
          cases same
          exact ⟨rfl, rfl, rfl⟩
        destroyed := nofun }
    · obtain ⟨log, eq⟩ := takeBack_of_not_hasRoom room ⟨pool.constructed, value⟩
      rw [eq]
      exact {
        kept_iff := by
          refine iff_of_false Bool.false_ne_true ?_
          rintro ⟨other, same, idle⟩
          cases same
          exact fresh idle
        idle_eq := fun _ _ hasRoom => absurd hasRoom room
        destroyed := fun _ _ _ => rfl }

theorem acquired {origin : Pool α} (accounted : origin.Accounted []) (events : List (Event α))
    (handle : Int) :
    Acquired origin events handle ((origin.runAll events).acquire handle).1
      ((origin.runAll events).acquire handle).2.1 where
  lookup_eq := lookup_acquire_self handle _
  new := by
    intro noneIdle
    rw [constructed_acquire, acquire_fst, obtain_of_none_idle noneIdle]
    exact ⟨rfl, rfl⟩
  old := by
    intro someIdle
    obtain ⟨object, rest, idleEq⟩ := List.exists_cons_of_ne_nil someIdle
    rw [constructed_acquire, acquire_fst, obtain_of_idle idleEq, idleEq]
    exact ⟨List.mem_cons_self, rfl⟩
  oldest := by
    rintro past recent rfl other otherIdle throughout
    rw [runAll_append] at otherIdle ⊢
    obtain ⟨object, rest, idleEq⟩ := List.exists_cons_of_ne_nil (List.ne_nil_of_mem otherIdle)
    rw [acquire_fst, obtain_of_idle idleEq]
    rw [idleEq] at otherIdle
    rcases List.mem_cons.mp otherIdle with rfl | behind
    · exact throughout
    · have order : [object, other].Sublist ((origin.runAll past).runAll recent).idle := by
        rw [idleEq]
        exact (List.singleton_sublist.mpr behind).cons_cons object
      exact ((accounted.runAll past).idleThroughout_of_sublist order throughout).1

end Accounted

/-- Whatever is done with a pool, every object is in one place; what is acquired is the oldest idle
object or else a new one; what is given up or added is kept or destroyed; what other handles hold
stays; and closing destroys the idle objects, and with those that are still held all of them. -/
theorem runAll_conserves (capacity : UInt64) (factory : Nat → α) (events : List (Event α)) :
    let origin := ofFactory capacity.toNat factory
    let pool := origin.runAll events
    pool.Conserved ∧
      (∀ handle, Acquired origin events handle (pool.acquire handle).1
        (pool.acquire handle).2.1) ∧
      (∀ handle object, pool.held.lookup handle = some object →
        pool.Released handle object (pool.release handle).1) ∧
      (∀ value?, pool.Added value? (pool.add value?).1 (pool.add value?).2.1) ∧
      (∀ event : Event α, pool.destroyed <:+ (event.run pool).destroyed ∧
        ∀ handle, event.handle? ≠ some handle →
          (event.run pool).held.lookup handle = pool.held.lookup handle) ∧
      (pool.close.Closed ∧
        pool.close.destroyed.Perm (pool.idle.map PoolObject.serial ++ pool.destroyed)) ∧
      (pool.isOpen = false → pool.Closed) := by
  intro origin pool
  have originAccounted := accounted_ofFactory capacity factory
  have accounted := originAccounted.runAll events
  refine ⟨accounted.conserved, originAccounted.acquired events, fun _ _ => released,
    accounted.added, ?_, ⟨accounted.close.closed rfl, (List.reverse_perm _).append_right _⟩,
    accounted.closed⟩
  intro event
  exact ⟨destroyed_run event pool, fun handle other => lookup_run_of_ne other pool⟩

/-- A pool with room for one object keeps the first that comes back, with the value it got, and
hands it out again. -/
example :
    let pool := (ofFactory 1 id).runAll
      [.acquire 1, .acquire 2, .assign 1 7, .release 1, .release 2, .acquire 3, .add none, .close]
    pool.held = [(3, ⟨0, 7⟩)] ∧ pool.destroyed = [1] ∧
      (pool.release 3).1.destroyed = [0, 1] := by
  decide

end Columnar.Pool
