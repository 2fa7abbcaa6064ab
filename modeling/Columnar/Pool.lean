import Columnar.Log

/-!
# Bounded object pools

A pool keeps idle objects for later use, at most `capacity` of them.  Acquiring takes the object
that has been idle longest, and makes a new one only when none is idle.  An object that comes
back, or is added, when the pool is full is destroyed.

A closed pool keeps nothing: its idle objects are destroyed with it, and objects that are still
held are destroyed when they are released.

How many objects are idle is told by a counter of its own, which goes up and down with them.

Objects are told apart by serial numbers, given in the order of their construction.
-/

namespace Columnar

/-- An object with its serial number. -/
structure PoolObject (α : Type) where
  serial : Nat
  value : α
deriving DecidableEq, Repr

/-- A pool together with all objects made for it. -/
structure Pool (α : Type) where
  capacity : Nat
  /-- The values of the objects that the pool makes itself, in order. -/
  factory : Nat → α
  /-- How many objects the pool has made itself. -/
  manufactured : Nat
  /-- How many objects were constructed; also the next serial number. -/
  constructed : Nat
  /-- The serial numbers of destroyed objects, the latest first. -/
  destroyed : List Nat
  /-- The idle objects, the one idle longest first. -/
  idle : List (PoolObject α)
  /-- The counter of idle objects. A closed pool does not use it. -/
  size : UInt64
  /-- The objects in use, by the number of the handle that holds them. -/
  held : List (Int × PoolObject α)
  isOpen : Bool

namespace Pool

variable {α : Type}

/-- An open pool without objects. -/
def ofFactory (capacity : Nat) (factory : Nat → α) : Pool α :=
  ⟨capacity, factory, 0, 0, [], [], 0, [], true⟩

/-- Whether the counter shows no idle object. -/
def isEmpty (pool : Pool α) : Bool :=
  pool.size = 0

/-- The message that reports an object turned away. -/
def fullEntry (pool : Pool α) : Log.Entry where
  level := .debug
  message := Bytes.ofString s!"msg=\"object pool full, discard\" capacity={pool.capacity}"

/-- Destroys an object that is neither idle nor held. -/
def destroy (object : PoolObject α) (pool : Pool α) : Pool α :=
  { pool with destroyed := object.serial :: pool.destroyed }

/-- Keeps an object that is neither idle nor held. -/
def keep (object : PoolObject α) (pool : Pool α) : Pool α :=
  { pool with idle := pool.idle ++ [object], size := pool.size + 1 }

/-- Takes an object back: an open pool keeps it if there is room, and reports it otherwise. Tells
whether the object was kept. -/
def takeBack (object : PoolObject α) (pool : Pool α) : Bool × Pool α × List Log.Entry :=
  if pool.isOpen then
    if pool.idle.length < pool.capacity then
      (true, pool.keep object, [])
    else
      (false, pool.destroy object, [pool.fullEntry])
  else
    (false, pool.destroy object, [])

/-- Constructs an object with a given value. -/
def construct (value : α) (pool : Pool α) : PoolObject α × Pool α :=
  (⟨pool.constructed, value⟩, { pool with constructed := pool.constructed + 1 })

/-- The object that has been idle longest, or a new one when none is idle. -/
def obtain (pool : Pool α) : PoolObject α × Pool α :=
  match pool.idle with
  | object :: rest => (object, { pool with idle := rest, size := pool.size - 1 })
  | [] =>
    let (object, pool) := pool.construct (pool.factory pool.manufactured)
    (object, { pool with manufactured := pool.manufactured + 1 })

/-- Gives up a handle, if it holds an object. -/
def release (handle : Int) (pool : Pool α) : Pool α × List Log.Entry :=
  match pool.held.lookup handle with
  | none => (pool, [])
  | some object =>
    let (_, pool, log) :=
      { pool with held := pool.held.filter (·.1 != handle) }.takeBack object
    (pool, log)

/-- Gets an object and holds it under a handle, whose earlier object is released then. -/
def acquire (handle : Int) (pool : Pool α) : PoolObject α × Pool α × List Log.Entry :=
  let (object, pool) := pool.obtain
  let (pool, log) := pool.release handle
  (object, { pool with held := pool.held ++ [(handle, object)] }, log)

/-- Changes the value of a held object. -/
def assign (handle : Int) (value : α) (pool : Pool α) : Pool α :=
  { pool with
    held := pool.held.map fun (owner, object) =>
      if owner = handle then (owner, { object with value := value }) else (owner, object) }

/-- Adds a new object with a given value, or nothing. Tells whether an object was kept. -/
def add (value? : Option α) (pool : Pool α) : Bool × Pool α × List Log.Entry :=
  match value? with
  | none => (false, pool, [])
  | some value =>
    let (object, pool) := pool.construct value
    pool.takeBack object

/-- Closes the pool and destroys its idle objects. -/
def close (pool : Pool α) : Pool α :=
  { pool with
    destroyed := (pool.idle.map PoolObject.serial).reverse ++ pool.destroyed
    idle := []
    isOpen := false }

/-! ## Runs

What is done with a pool, one event after the other, from getting objects to closing the pool.  An
object that is handed out may be given a new value before it comes back. -/

/-- What is done with a pool. -/
inductive Event (α : Type) where
  /-- Get an object and hold it under a handle. -/
  | acquire (handle : Int)
  /-- Change the value of a held object. -/
  | assign (handle : Int) (value : α)
  /-- Give up a handle. -/
  | release (handle : Int)
  /-- Add a new object with a given value, or nothing. -/
  | add (value? : Option α)
  | close
deriving DecidableEq, Repr

namespace Event

/-- The handle that an event is about. -/
def handle? : Event α → Option Int
  | acquire handle => some handle
  | assign handle _ => some handle
  | release handle => some handle
  | add _ => none
  | close => none

/-- The pool after an event. -/
def run (event : Event α) (pool : Pool α) : Pool α :=
  match event with
  | acquire handle => (pool.acquire handle).2.1
  | assign handle value => pool.assign handle value
  | release handle => (pool.release handle).1
  | add value? => (pool.add value?).2.1
  | close => pool.close

end Event

/-- The pool after a run of events. -/
def runAll (events : List (Event α)) (pool : Pool α) : Pool α :=
  events.foldl (fun pool event => event.run pool) pool

/-- The object is idle, with the value that it has, before the events and after each of them. -/
def IdleThroughout (object : PoolObject α) : (pool : Pool α) → List (Event α) → Prop
  | pool, [] => object ∈ pool.idle
  | pool, event :: rest => object ∈ pool.idle ∧ IdleThroughout object (event.run pool) rest

/-- The serial numbers of all objects: of those that are idle, of those that are held and of those
that are destroyed. -/
def serials (pool : Pool α) : List Nat :=
  pool.idle.map PoolObject.serial ++ pool.held.map (PoolObject.serial ∘ Prod.snd) ++ pool.destroyed

end Pool

end Columnar
