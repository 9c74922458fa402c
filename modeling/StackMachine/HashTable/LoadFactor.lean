import StackMachine.Binary64.Shortest

/-!
# Load factors

The occupancy above which a hash table grows: a ratio strictly between zero and one, kept exactly.

* `LoadFactor.isSome_ofFloat?`: the floats strictly between zero and one are load factors.
* `LoadFactor.exceeded_iff`: the growth test compares the exact ratios.
-/

namespace StackMachine

/-- A ratio strictly between zero and one. -/
structure LoadFactor where
  num : Nat
  den : Nat
  num_pos : 0 < num
  num_lt_den : num < den

namespace LoadFactor

theorem threeQuarters_lt_one : 3 < 4 := by decide

/-- Three quarters, the load factor of a table that asks for no other. -/
def threeQuarters : LoadFactor :=
  ⟨3, 4, by decide, threeQuarters_lt_one⟩

/-- The float with a bit pattern as a load factor, if it lies strictly between zero and one. -/
def ofFloat? (bits : UInt64) : Option LoadFactor :=
  if h : Binary64.isNegative bits = false ∧ 0 < Binary64.units bits ∧
      Binary64.units bits < Binary64.unitsInOne then
    some ⟨Binary64.units bits, Binary64.unitsInOne, h.2.1, h.2.2⟩
  else
    none

theorem isSome_ofFloat? {bits : UInt64} :
    (ofFloat? bits).isSome = true ↔ Binary64.isNegative bits = false ∧ 0 < Binary64.units bits ∧
      Binary64.units bits < Binary64.unitsInOne := by
  unfold ofFloat?
  split
  · rename_i h
    exact iff_of_true rfl h
  · rename_i h
    exact iff_of_false Bool.false_ne_true h

/-- The complaint about a float that is no load factor. -/
def outOfRangeMessage (bits : UInt64) : String :=
  "max load factor must be in (0, 1), got " ++ Binary64.toText bits

/-- Whether `size` entries in `capacity` slots are more than the load factor allows. -/
def exceeded (q : LoadFactor) (size capacity : Nat) : Bool :=
  decide (q.num * capacity < size * q.den)

theorem exceeded_iff (q : LoadFactor) (size capacity : Nat) :
    q.exceeded size capacity = true ↔ q.num * capacity < size * q.den := by
  simp [exceeded]

end LoadFactor

end StackMachine
