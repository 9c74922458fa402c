import Mathlib.Algebra.BigOperators.Fin
import StackMachine.Proofs.HashTable.Rolling

/-!
# The slots of rolling probes, in whole numbers

Rolling probes count in words of 64 bits, and with a large capacity their products do not fit. No
slot shows it: a power of two divides the number of words, so what is lost leaves no remainder, and
with a capacity that is small enough nothing is lost. The slots are those of whole numbers.

* `polynomial`: the exact value of the polynomial over the bytes of a key.
* `toNat_rollByte`, `toNat_foldl_rollByte`: one more byte, and any number of them.
* `rollingHome_eq_polynomial`: the home slot of a key is a remainder of the polynomial.
* `chain_rolling_permutes`: the chain from a home slot is a permutation of the slots.
-/

namespace StackMachine.Probing

/-! ## Home slots -/

/-- The value of the polynomial that has the bytes as its coefficients, the highest first. -/
def polynomial (bytes : List UInt8) : Nat :=
  ∑ i : Fin bytes.length, bytes[i].toNat * 100001 ^ (bytes.length - 1 - i)

theorem polynomial_cons (b : UInt8) (bytes : List UInt8) :
    polynomial (b :: bytes) = b.toNat * 100001 ^ bytes.length + polynomial bytes := by
  have hterm (i : Fin bytes.length) : bytes.length + 1 - 1 - (i.succ : Nat) =
      bytes.length - 1 - i := by
    rw [Fin.val_succ]
    omega
  refine (Fin.sum_univ_succ (n := bytes.length) _).trans ?_
  simp only [List.length_cons, hterm]
  rfl

section

variable {capacity : Nat}
  (hcapacity : (∃ k ≤ 63, capacity = 2 ^ k) ∨
    0 < capacity ∧ (capacity - 1) * 100001 + 255 < 2 ^ 64)

include hcapacity

theorem capacity_pos : 0 < capacity := by
  rcases hcapacity with ⟨k, -, rfl⟩ | ⟨hpos, -⟩
  · exact Nat.two_pow_pos k
  · exact hpos

theorem toNat_rollByte {acc : UInt64} (hacc : acc.toNat < capacity) (b : UInt8) :
    (rollByte (UInt64.ofNat capacity) acc b).toNat =
      (acc.toNat * 100001 + b.toNat) % capacity := by
  have hfactor : rollingFactor.toNat = 100001 := rfl
  have hsum : (acc * rollingFactor + b.toUInt64).toNat =
      (acc.toNat * 100001 + b.toNat) % 2 ^ 64 := by
    rw [UInt64.toNat_add, UInt64.toNat_mul, UInt8.toNat_toUInt64, hfactor, Nat.mod_add_mod]
  rcases hcapacity with ⟨k, hk, rfl⟩ | ⟨-, hfits⟩
  · have hdvd : 2 ^ k ∣ 2 ^ 64 := Nat.pow_dvd_pow 2 (by omega)
    rw [rollByte, mod_ofNat_two_pow, Nat.min_eq_left (by omega), hsum, Nat.mod_mod_of_dvd _ hdvd]
  · have hproduct : acc.toNat * 100001 ≤ (capacity - 1) * 100001 :=
      Nat.mul_le_mul_right _ (Nat.le_sub_one_of_lt hacc)
    have hsmall : acc.toNat * 100001 + b.toNat < 2 ^ 64 :=
      (Nat.add_le_add hproduct (Nat.le_of_lt_succ b.toNat_lt)).trans_lt hfits
    rw [rollByte, UInt64.toNat_mod, hsum, Nat.mod_eq_of_lt hsmall, UInt64.toNat_ofNat',
      Nat.mod_eq_of_lt (by omega : capacity < 2 ^ 64)]

/-- Behind a slot that was reached, more bytes add their polynomial, and move the slot up by as many
powers. -/
theorem toNat_foldl_rollByte {acc : UInt64} (hacc : acc.toNat < capacity) (bytes : List UInt8) :
    (bytes.foldl (rollByte (UInt64.ofNat capacity)) acc).toNat =
      (acc.toNat * 100001 ^ bytes.length + polynomial bytes) % capacity := by
  induction bytes generalizing acc with
  | nil =>
    have hnil : polynomial [] = 0 := rfl
    rw [hnil, List.length_nil, Nat.pow_zero, Nat.mul_one, Nat.add_zero, Nat.mod_eq_of_lt hacc]
    rfl
  | cons b bytes ih =>
    have hstep := toNat_rollByte hcapacity hacc b
    have hlt : (rollByte (UInt64.ofNat capacity) acc b).toNat < capacity := by
      rw [hstep]
      exact Nat.mod_lt _ (capacity_pos hcapacity)
    have hsplit : acc.toNat * 100001 ^ (bytes.length + 1) + polynomial (b :: bytes) =
        (acc.toNat * 100001 + b.toNat) * 100001 ^ bytes.length + polynomial bytes := by
      rw [polynomial_cons]
      ring
    -- The remainder that is taken after the byte `b` makes no difference in the end.
    rw [List.foldl_cons, ih hlt, hstep, List.length_cons, hsplit, Nat.add_mod, Nat.mod_mul_mod,
      ← Nat.add_mod]

theorem rollingHome_eq (key : String) :
    rollingHome key capacity = polynomial (Bytes.ofString key).toList % capacity := by
  have hzero : (0 : UInt64).toNat < capacity := capacity_pos hcapacity
  rw [rollingHome, ← Array.foldl_toList, toNat_foldl_rollByte hcapacity hzero, UInt64.toNat_zero,
    Nat.zero_mul, Nat.zero_add]

end

/-- The home slot of a key is the remainder of the polynomial over its bytes, if the capacity is a
power of two, or so small that no step leaves the words of 64 bits. So the home slot in a table of
twice as many slots, taken modulo the capacity, is the home slot in this one. -/
theorem rollingHome_eq_polynomial (key : String) {capacity : Nat}
    (hcapacity : (∃ k ≤ 63, capacity = 2 ^ k) ∨
      0 < capacity ∧ (capacity - 1) * 100001 + 255 < 2 ^ 64) :
    rollingHome key capacity = polynomial (Bytes.ofString key).toList % capacity ∧
    rollingHome key capacity < capacity ∧
    ∀ k, capacity = 2 ^ k → 2 * capacity ≤ 2 ^ 63 →
      rollingHome key (2 * capacity) % capacity = rollingHome key capacity := by
  have hhome := rollingHome_eq hcapacity key
  refine ⟨hhome, ?_, ?_⟩
  · rw [hhome]
    exact Nat.mod_lt _ (capacity_pos hcapacity)
  · rintro k rfl hle
    rw [← Nat.pow_succ', Nat.pow_le_pow_iff_right (by decide)] at hle
    have hdouble : rollingHome key (2 * 2 ^ k) =
        polynomial (Bytes.ofString key).toList % (2 * 2 ^ k) :=
      rollingHome_eq (.inl ⟨k + 1, hle, Nat.pow_succ'.symm⟩) key
    rw [hdouble, Nat.mod_mod_of_dvd _ (Nat.dvd_mul_left _ _), hhome]

/-- A key of five bytes: with `2 ^ 62` slots the last product does not fit in a word, and with a
million slots, which is no power of two, all of them fit. -/
theorem rollingHome_eq_polynomial_probe :
    let value := 112 * 100001 ^ 4 + 114 * 100001 ^ 3 + 111 * 100001 ^ 2 + 98 * 100001 + 101
    polynomial (Bytes.ofString "probe").toList = value ∧
    2 ^ 64 ≤ rollingHome "prob" (2 ^ 62) * 100001 ∧
    rollingHome "probe" (2 ^ 62) = value % 2 ^ 62 ∧
    rollingHome "probe" (2 ^ 63) % 2 ^ 62 = rollingHome "probe" (2 ^ 62) ∧
    (1000000 - 1) * 100001 + 255 < 2 ^ 64 ∧
    rollingHome "probe" 1000000 = value % 1000000 := by
  intro value
  have hvalue : polynomial (Bytes.ofString "probe").toList = value := by decide
  have hpower : ∃ k ≤ 63, 2 ^ 62 = 2 ^ k := ⟨62, by decide, rfl⟩
  obtain ⟨hlarge, -, hhalf⟩ := rollingHome_eq_polynomial "probe" (.inl hpower)
  have hfits : 0 < 1000000 ∧ (1000000 - 1) * 100001 + 255 < 2 ^ 64 := by decide
  obtain ⟨hsmall, -⟩ := rollingHome_eq_polynomial "probe" (.inr hfits)
  rw [hvalue] at hlarge hsmall
  exact ⟨hvalue, by decide, hlarge, hhalf 62 rfl (by decide), hfits.2, hsmall⟩

/-! ## The slots of a chain -/

/-- The chain of a rolling probe is a permutation of the slots: the `n`-th slot lies the `n`-th
triangular number behind the home slot, no sum of a slot and a step leaves the words of 64 bits, and
as many steps as there are slots meet each of them once. -/
theorem chain_rolling_permutes {k home : Nat} (hk : k ≤ 63) (hhome : home < 2 ^ k) :
    (∀ n, rolling.chain (2 ^ k) home n = (home + n * (n + 1) / 2) % 2 ^ k) ∧
    let slot := rolling.chain (2 ^ k) home
    slot 0 = home ∧
    (∀ n < 2 ^ k, slot n + (n + 1) < 2 ^ 64 ∧ slot (n + 1) = (slot n + (n + 1)) % 2 ^ k) ∧
    (∀ m n, m < n → n < 2 ^ k → slot m ≠ slot n) ∧
    ∀ i < 2 ^ k, ∃! n, n < 2 ^ k ∧ slot n = i := by
  -- All slots of these tables are within reach of words.
  have hmin : min k 64 = k := Nat.min_eq_left (by omega)
  have hhome' : home < 2 ^ min k 64 := by rwa [hmin]
  have hslot (n : Nat) :
      rolling.chain (2 ^ k) home n = (home + n * (n + 1) / 2) % 2 ^ k := by
    have hchain := chain_rolling hhome' n
    rwa [hmin] at hchain
  refine ⟨hslot, ?_⟩
  intro slot
  refine ⟨rfl, fun n hn => ⟨?_, ?_⟩, fun m n hmn hn => ?_, fun i hi => ?_⟩
  · have hpow : 2 ^ k ≤ 2 ^ 63 := Nat.pow_le_pow_right (by decide) hk
    have hlt : slot n < 2 ^ k := (hslot n).trans_lt (Nat.mod_lt _ (Nat.two_pow_pos k))
    omega
  · have hnext := triangularNext_two_pow (slot n) (n + 1) k
    rwa [hmin] at hnext
  · exact chain_rolling_injective hhome' hmn (by rwa [hmin])
  · obtain ⟨n, hn, hni⟩ := exists_chain_rolling_eq hhome' (by rwa [hmin] : i < 2 ^ min k 64)
    refine ⟨n, ⟨by rwa [hmin] at hn, hni⟩, ?_⟩
    rintro m ⟨hm, hmi⟩
    exact eq_of_chain_rolling_eq hhome' (by rwa [hmin]) hn (hmi.trans hni.symm)

/-- All slots of the smallest table in their order, and the last slot of the largest one. -/
theorem chain_rolling_permutes_eight :
    (List.range 8).map (rolling.chain (2 ^ 3) 3) = [3, 4, 6, 1, 5, 2, 0, 7] ∧
    (∃! n, n < 2 ^ 3 ∧ rolling.chain (2 ^ 3) 3 n = 2) ∧
    ∃! n, n < 2 ^ 63 ∧ rolling.chain (2 ^ 63) 3 n = 2 ^ 63 - 1 := by
  obtain ⟨hslot, -, -, -, hsmall⟩ :=
    chain_rolling_permutes (by decide : 3 ≤ 63) (by decide : 3 < 2 ^ 3)
  obtain ⟨-, -, -, -, hlarge⟩ :=
    chain_rolling_permutes (by decide : 63 ≤ 63) (by decide : 3 < 2 ^ 63)
  refine ⟨?_, hsmall 2 (by decide), hlarge (2 ^ 63 - 1) (by decide)⟩
  rw [List.map_congr_left fun n _ => hslot n]
  decide

end StackMachine.Probing
