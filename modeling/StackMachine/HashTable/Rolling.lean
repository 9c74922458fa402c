import StackMachine.Bytes
import StackMachine.HashTable.Basic

/-!
# Rolling probes

The usual rule of probing. The home slot of a key is the value of a polynomial over its bytes,
taken modulo the capacity after each byte, and the chain goes on in steps of one, two, three and so
on, which over a power of two meets every slot.

Sums and products are taken in words of 64 bits.
-/

namespace StackMachine.Probing

/-- The base of the polynomial. -/
def rollingFactor : UInt64 := 100001

/-- One more byte of a key, in a table with `capacity` slots. -/
def rollByte (capacity : UInt64) (acc : UInt64) (b : UInt8) : UInt64 :=
  (acc * rollingFactor + b.toUInt64) % capacity

/-- The home slot of a key. -/
def rollingHome (key : String) (capacity : Nat) : Nat :=
  ((Bytes.ofString key).foldl (rollByte (UInt64.ofNat capacity)) 0).toNat

/-- The slot `probe` places after `previous`, going round at the end. -/
def triangularNext (previous probe capacity : Nat) : Nat :=
  ((UInt64.ofNat previous + UInt64.ofNat probe) % UInt64.ofNat capacity).toNat

/-- Polynomial home slots, with steps that grow by one. -/
def rolling : Probing where
  home := rollingHome
  next := triangularNext

end StackMachine.Probing
