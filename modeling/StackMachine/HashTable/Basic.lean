import StackMachine.HashTable.LoadFactor
import StackMachine.Text.Quoted

/-!
# Hash tables with open addressing

A map from strings to values, held in an array of slots whose length is a power of two. Each key
has a chain of slots, given by a rule of probing; the key stands in one slot of its chain. A removed
key leaves a mark behind, so that chains through its slot stay whole.

* `insert?` keeps the value that a key already has.
* `entries` lists the live pairs in the order of their slots.
* `insert?` answers `none` only for a rule whose chains still find no free slot after
  `maxGrowths` doublings.
-/

namespace StackMachine

/-- A rule of probing: where the chain of a key starts, and which slot follows which. -/
structure Probing where
  /-- The first slot of the chain of a key, in a table with the given number of slots. -/
  home (key : String) (capacity : Nat) : Nat
  /-- The slot after `previous`, when the `probe`-th slot of the chain was no match. -/
  next (previous probe capacity : Nat) : Nat

/-- A slot of a table. -/
inductive Slot (α : Type) where
  | empty
  | deleted
  | occupied (key : String) (value : α)

namespace Slot

variable {α : Type}

/-- The pair that an occupied slot holds. -/
def entry? : Slot α → Option (String × α)
  | occupied key value => some (key, value)
  | _ => none

end Slot

/-- A map from strings to values, searched by a rule of probing. -/
structure HashTable (probing : Probing) (α : Type) where
  slots : Array (Slot α)
  /-- The number of occupied slots. -/
  size : Nat
  limit : LoadFactor

namespace HashTable

variable {α : Type} {probing : Probing}

/-- The number of slots of a new table. -/
def initialCapacity : Nat := 8

/-- The number of doublings after which a search for a free slot is given up. -/
def maxGrowths : Nat := 64

/-- A table of `capacity` empty slots. -/
def blank (capacity : Nat) (limit : LoadFactor) : HashTable probing α where
  slots := Array.replicate capacity .empty
  size := 0
  limit := limit

/-- The empty table that grows above the given load factor. -/
def withLimit (limit : LoadFactor) : HashTable probing α :=
  blank initialCapacity limit

/-- The empty table. -/
def empty : HashTable probing α :=
  withLimit .threeQuarters

/-- The number of slots. -/
def capacity (t : HashTable probing α) : Nat :=
  t.slots.size

/-- Whether no slot is occupied. -/
def isEmpty (t : HashTable probing α) : Bool :=
  t.size == 0

/-- The live pairs, in the order of their slots. -/
def entries (t : HashTable probing α) : List (String × α) :=
  t.slots.toList.filterMap Slot.entry?

/-! ## Search -/

/-- What a walk along a chain met: the slot of the key, and the first free slot. -/
structure Search where
  found : Option Nat
  vacant : Option Nat

/-- Walk on along the chain of `key`: at most `budget` more slots, of which `index` is the first and
the `probe`-th of the whole chain. An empty slot ends the chain. -/
def searchFrom (probing : Probing) (slots : Array (Slot α)) (key : String) :
    (budget probe index : Nat) → (vacant : Option Nat) → Search
  | 0, _, _, vacant => ⟨none, vacant⟩
  | budget + 1, probe, index, vacant =>
    match slots[index]? with
    | some .empty => ⟨none, vacant.or (some index)⟩
    | some .deleted =>
      searchFrom probing slots key budget (probe + 1) (probing.next index probe slots.size)
        (vacant.or (some index))
    | some (.occupied other _) =>
      if other == key then
        ⟨some index, vacant⟩
      else
        searchFrom probing slots key budget (probe + 1) (probing.next index probe slots.size) vacant
    | none =>
      searchFrom probing slots key budget (probe + 1) (probing.next index probe slots.size) vacant

/-- Walk along the chain of `key`, at most as many steps as there are slots. -/
def search (t : HashTable probing α) (key : String) : Search :=
  searchFrom probing t.slots key t.slots.size 1 (probing.home key t.slots.size) none

/-- The value of a key. -/
def find? (t : HashTable probing α) (key : String) : Option α := do
  let index ← (t.search key).found
  let slot ← t.slots[index]?
  let entry ← slot.entry?
  return entry.2

/-- Whether a key has a value. -/
def contains (t : HashTable probing α) (key : String) : Bool :=
  (t.search key).found.isSome

/-! ## Growth and insertion -/

/-- The table with a pair in the slot at `index`, which was free. -/
def occupy (t : HashTable probing α) (index : Nat) (key : String) (value : α) :
    HashTable probing α :=
  { t with slots := t.slots.setIfInBounds index (.occupied key value), size := t.size + 1 }

/-- Move every pair, in slot order, into a table of twice the capacity; `put` places one pair. -/
def rehash (put : HashTable probing α → String × α → Option (HashTable probing α))
    (t : HashTable probing α) : Option (HashTable probing α) :=
  t.entries.foldlM put (blank (2 * t.capacity) t.limit)

/-- Put a pair whose key is absent into the first free slot of its chain; a table without one
doubles until there is one, at most `growths` times. -/
def place : (growths : Nat) → HashTable probing α → String × α → Option (HashTable probing α)
  | 0, t, entry => do
    let index ← (t.search entry.1).vacant
    return t.occupy index entry.1 entry.2
  | growths + 1, t, entry =>
    match (t.search entry.1).vacant with
    | some index => some (t.occupy index entry.1 entry.2)
    | none => do
      let t ← rehash (place growths) t
      place growths t entry

/-- Double the table. -/
def grow (t : HashTable probing α) : Option (HashTable probing α) :=
  rehash (place maxGrowths) t

/-- Insert a pair, after doubling the table if it is too full. The answer is `false`, and the old
value stays, if the key has one. -/
def insert? (t : HashTable probing α) (key : String) (value : α) :
    Option (Bool × HashTable probing α) := do
  let t ← if t.limit.exceeded t.size t.capacity then t.grow else some t
  if t.contains key then
    return (false, t)
  else
    let t ← t.place maxGrowths (key, value)
    return (true, t)

/-! ## Assignment and removal -/

/-- The table with a new value for a key that has one. -/
def assign (t : HashTable probing α) (key : String) (value : α) : HashTable probing α :=
  match (t.search key).found with
  | some index => { t with slots := t.slots.setIfInBounds index (.occupied key value) }
  | none => t

/-- The table without a key, whose slot keeps a mark; `none` if the key is absent. -/
def erase? (t : HashTable probing α) (key : String) : Option (HashTable probing α) :=
  match (t.search key).found with
  | some index =>
    some { t with slots := t.slots.setIfInBounds index .deleted, size := t.size - 1 }
  | none => none

/-- The live pairs in braces, keys in quotes. -/
def toText (showValue : α → String) (t : HashTable probing α) : String :=
  let pairs := t.entries.map fun (key, value) => Text.quoted key ++ ": " ++ showValue value
  "\x7b" ++ String.intercalate ", " pairs ++ "\x7d"

end HashTable

end StackMachine
