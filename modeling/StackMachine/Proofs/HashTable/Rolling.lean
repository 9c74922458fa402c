import Mathlib.Data.Fintype.EquivFin
import Mathlib.Data.Nat.ModEq
import Mathlib.Data.Nat.Prime.Basic
import Mathlib.Tactic.Ring
import StackMachine.HashTable.Rolling
import StackMachine.Proofs.HashTable.Map

/-!
# Rolling probes meet every slot

Over a power of two the chain of a rolling probe runs through all slots once, so a walk along it
misses no vacant slot, and an insertion answers without a second doubling: `Inserts` says how.

Words of 64 bits count slots only up to `2 ^ 64`. In a table of more slots the chains stay below
that number (`reach`), and `insert?_eq_none_iff` says what follows: the one key that has no answer
is a new one in a table that holds `2 ^ 64` keys.
-/

namespace StackMachine

namespace Probing

/-! ## Steps that grow by one -/

theorem half_mul_succ (n : Nat) : (n + 1) * (n + 2) / 2 = n * (n + 1) / 2 + (n + 1) := by
  have h : (n + 1) * (n + 2) = n * (n + 1) + 2 * (n + 1) := by ring
  rw [h, Nat.add_mul_div_left _ _ (by decide)]

theorem two_mul_half (n : Nat) : 2 * (n * (n + 1) / 2) = n * (n + 1) :=
  Nat.two_mul_div_two_of_even (Nat.even_mul_succ_self n)

/-- The sums `1 + 2 + … + n` for `n` below a power of two are different modulo that power: twice the
difference of two of them is a product of two numbers, one of them odd and both too small. -/
theorem half_mul_injective {r m n : Nat} (hmn : m < n) (hn : n < 2 ^ r) :
    ¬ Nat.ModEq (2 ^ r) (m * (m + 1) / 2) (n * (n + 1) / 2) := by
  intro h
  have hle : m * (m + 1) / 2 ≤ n * (n + 1) / 2 :=
    Nat.div_le_div_right (Nat.mul_le_mul (by omega) (by omega))
  have hdvd : 2 ^ (r + 1) ∣ (n - m) * (n + m + 1) := by
    have hsplit : (n - m) * (n + m + 1) = 2 * (n * (n + 1) / 2 - m * (m + 1) / 2) := by
      rw [Nat.mul_sub, two_mul_half, two_mul_half]
      obtain ⟨d, rfl⟩ := Nat.exists_eq_add_of_lt hmn
      rw [show m + d + 1 - m = d + 1 by omega]
      exact (Nat.sub_eq_of_eq_add (by ring)).symm
    rw [hsplit, Nat.pow_succ']
    exact Nat.mul_dvd_mul_left 2 ((Nat.modEq_iff_dvd' hle).1 h)
  rcases Nat.even_or_odd (n - m) with heven | hodd
  · have hodd : Odd (n + m + 1) := by
      obtain ⟨d, hd⟩ := heven
      exact ⟨d + m, by omega⟩
    have hcoprime := (Nat.coprime_two_left.2 hodd).pow_left (r + 1)
    have := Nat.le_of_dvd (by omega) (hcoprime.dvd_of_dvd_mul_right hdvd)
    rw [Nat.pow_succ] at this
    omega
  · have hcoprime := (Nat.coprime_two_left.2 hodd).pow_left (r + 1)
    have := Nat.le_of_dvd (by omega) (hcoprime.dvd_of_dvd_mul_left hdvd)
    rw [Nat.pow_succ] at this
    omega

/-! ## The slots of a chain -/

/-- The number of slots that words of 64 bits can tell apart. -/
def reach (capacity : Nat) : Nat :=
  min capacity (2 ^ 64)

theorem reach_two_pow (k : Nat) : reach (2 ^ k) = 2 ^ min k 64 := by
  unfold reach
  rcases Nat.le_total k 64 with h | h
  · rw [Nat.min_eq_left h, Nat.min_eq_left (Nat.pow_le_pow_right (by decide) h)]
  · rw [Nat.min_eq_right h, Nat.min_eq_right (Nat.pow_le_pow_right (by decide) h)]

theorem mod_ofNat_two_pow (a : UInt64) (k : Nat) :
    (a % UInt64.ofNat (2 ^ k)).toNat = a.toNat % 2 ^ min k 64 := by
  rw [UInt64.toNat_mod, UInt64.toNat_ofNat']
  rcases Nat.lt_or_ge k 64 with h | h
  · rw [Nat.min_eq_left h.le, Nat.mod_eq_of_lt (Nat.pow_lt_pow_right (by decide) h)]
  · rw [Nat.min_eq_right h, Nat.mod_eq_zero_of_dvd (Nat.pow_dvd_pow 2 h), Nat.mod_zero,
      Nat.mod_eq_of_lt a.toNat_lt]

theorem triangularNext_two_pow (previous probe k : Nat) :
    triangularNext previous probe (2 ^ k) = (previous + probe) % 2 ^ min k 64 := by
  have hdvd : 2 ^ min k 64 ∣ 2 ^ 64 := Nat.pow_dvd_pow 2 (Nat.min_le_right _ _)
  rw [triangularNext, mod_ofNat_two_pow, UInt64.toNat_add, UInt64.toNat_ofNat',
    UInt64.toNat_ofNat', ← Nat.add_mod, Nat.mod_mod_of_dvd _ hdvd]

theorem rollingHome_lt (key : String) (k : Nat) : rollingHome key (2 ^ k) < 2 ^ min k 64 := by
  have hstep (b : UInt8) (acc : UInt64) :
      (rollByte (UInt64.ofNat (2 ^ k)) acc b).toNat < 2 ^ min k 64 := by
    rw [rollByte, mod_ofNat_two_pow]
    exact Nat.mod_lt _ (Nat.two_pow_pos _)
  rw [rollingHome, ← Array.foldl_toList]
  rcases List.eq_nil_or_concat (Bytes.ofString key).toList with h | ⟨bytes, b, h⟩
  · rw [h]
    exact Nat.two_pow_pos _
  · rw [h, List.concat_eq_append, List.foldl_append]
    exact hstep b _

theorem chain_rolling {k home : Nat} (hhome : home < 2 ^ min k 64) (n : Nat) :
    rolling.chain (2 ^ k) home n = (home + n * (n + 1) / 2) % 2 ^ min k 64 := by
  induction n with
  | zero => exact (Nat.mod_eq_of_lt hhome).symm
  | succ n ih =>
    change triangularNext (rolling.chain (2 ^ k) home n) (n + 1) (2 ^ k) = _
    rw [triangularNext_two_pow, ih, Nat.mod_add_mod, half_mul_succ, Nat.add_assoc]

theorem chain_rolling_injective {k home m n : Nat} (hhome : home < 2 ^ min k 64)
    (hmn : m < n) (hn : n < 2 ^ min k 64) :
    rolling.chain (2 ^ k) home m ≠ rolling.chain (2 ^ k) home n := by
  rw [chain_rolling hhome, chain_rolling hhome]
  intro h
  exact half_mul_injective hmn hn (Nat.ModEq.add_left_cancel' home h)

theorem eq_of_chain_rolling_eq {k home m n : Nat} (hhome : home < 2 ^ min k 64)
    (hm : m < 2 ^ min k 64) (hn : n < 2 ^ min k 64)
    (h : rolling.chain (2 ^ k) home m = rolling.chain (2 ^ k) home n) : m = n := by
  rcases Nat.lt_trichotomy m n with hmn | hmn | hnm
  · exact absurd h (chain_rolling_injective hhome hmn hn)
  · exact hmn
  · exact absurd h.symm (chain_rolling_injective hhome hnm hm)

/-- Every slot within reach is on the chain. -/
theorem exists_chain_rolling_eq {k home i : Nat} (hhome : home < 2 ^ min k 64)
    (hi : i < 2 ^ min k 64) : ∃ n < 2 ^ min k 64, rolling.chain (2 ^ k) home n = i := by
  have hlt (n : Nat) : rolling.chain (2 ^ k) home n < 2 ^ min k 64 := by
    rw [chain_rolling hhome]
    exact Nat.mod_lt _ (Nat.two_pow_pos _)
  let slot (n : Fin (2 ^ min k 64)) : Fin (2 ^ min k 64) := ⟨_, hlt n⟩
  have hinjective : Function.Injective slot := fun m n h =>
    Fin.ext (eq_of_chain_rolling_eq hhome m.isLt n.isLt (congrArg Fin.val h))
  obtain ⟨n, hn⟩ := Finite.injective_iff_surjective.1 hinjective ⟨i, hi⟩
  exact ⟨n, n.isLt, congrArg Fin.val hn⟩

end Probing

namespace HashTable

open Probing

variable {α : Type} {t t' : HashTable rolling α} {key : String} {value : α}

/-! ## Slots within reach -/

theorem WellFormed.slots_size (ht : t.WellFormed) :
    ∃ k, t.slots.size = 2 ^ k ∧ reach t.capacity = 2 ^ min k 64 := by
  obtain ⟨k, -, hk⟩ := ht.capacity_eq
  exact ⟨k, hk, by rw [hk, reach_two_pow]⟩

theorem WellFormed.chain_lt_reach (ht : t.WellFormed) (key : String) (n : Nat) :
    rolling.chain t.slots.size (rollingHome key t.slots.size) n < reach t.capacity := by
  obtain ⟨k, hk, hreach⟩ := ht.slots_size
  rw [hk, hreach, chain_rolling (rollingHome_lt key k)]
  exact Nat.mod_lt _ (Nat.two_pow_pos _)

theorem WellFormed.found_lt_reach (ht : t.WellFormed) {i : Nat}
    (h : (t.search key).found = some i) : i < reach t.capacity := by
  obtain ⟨n, rfl⟩ := searchFrom_found_chain (n := 0) h
  exact ht.chain_lt_reach key n

theorem WellFormed.vacant_lt_reach (ht : t.WellFormed) {i : Nat}
    (h : (t.search key).vacant = some i) : i < reach t.capacity := by
  obtain ⟨n, rfl⟩ := searchFrom_vacant_chain (n := 0) h
  exact ht.chain_lt_reach key n

/-- All live pairs stand within reach. -/
theorem WellFormed.entries_eq_take (ht : t.WellFormed) :
    t.entries = (t.slots.toList.take (reach t.capacity)).filterMap Slot.entry? := by
  have hdrop : (t.slots.toList.drop (reach t.capacity)).filterMap Slot.entry? = [] := by
    rw [List.filterMap_eq_nil_iff]
    intro slot hslot
    obtain ⟨i, hi⟩ := List.mem_iff_getElem?.1 hslot
    rw [List.getElem?_drop, Array.getElem?_toList] at hi
    cases slot with
    | empty => rfl
    | deleted => rfl
    | occupied key value =>
      have := ht.found_lt_reach (ht.found _ key value hi)
      omega
  conv_lhs => rw [entries, ← List.take_append_drop (reach t.capacity) t.slots.toList]
  rw [List.filterMap_append, hdrop, List.append_nil]

theorem length_take_reach (t : HashTable rolling α) :
    (t.slots.toList.take (reach t.capacity)).length = reach t.capacity := by
  rw [List.length_take, Array.length_toList]
  exact Nat.min_eq_left (Nat.min_le_left _ _)

theorem WellFormed.size_le_reach (ht : t.WellFormed) : t.size ≤ reach t.capacity := by
  rw [ht.size_eq, ht.entries_eq_take]
  exact (List.length_filterMap_le _ _).trans_eq (length_take_reach t)

/-- There are fewer pairs than slots within reach as long as one of these slots is free. -/
theorem WellFormed.size_lt_reach_iff (ht : t.WellFormed) : t.size < reach t.capacity ↔
    ∃ i < reach t.capacity, ∃ slot, t.slots[i]? = some slot ∧ slot.entry? = none := by
  have hsize : t.size < reach t.capacity ↔
      ((t.slots.toList.take (reach t.capacity)).filterMap Slot.entry?).length <
        (t.slots.toList.take (reach t.capacity)).length := by
    rw [ht.size_eq, ht.entries_eq_take, length_take_reach]
  rw [hsize, List.length_filterMap_lt_length_iff_exists]
  constructor
  · rintro ⟨slot, hmem, hfree⟩
    obtain ⟨i, hi⟩ := List.mem_iff_getElem?.1 hmem
    rw [List.getElem?_take, Array.getElem?_toList] at hi
    split at hi
    · rename_i hlt
      exact ⟨i, hlt, slot, hi, hfree⟩
    · cases hi
  · rintro ⟨i, hlt, slot, hi, hfree⟩
    refine ⟨slot, List.mem_iff_getElem?.2 ⟨i, ?_⟩, hfree⟩
    rw [List.getElem?_take_of_lt hlt, Array.getElem?_toList, hi]

/-- The walk of an absent key meets a vacant slot as long as there is one within reach. -/
theorem WellFormed.vacant_isSome_iff (ht : t.WellFormed) (habsent : t.find? key = none) :
    (t.search key).vacant.isSome ↔ t.size < reach t.capacity := by
  rw [ht.size_lt_reach_iff]
  constructor
  · intro h
    obtain ⟨i, hi⟩ := Option.isSome_iff_exists.1 h
    obtain ⟨slot, hslot, hfree⟩ := searchFrom_vacant hi
    exact ⟨i, ht.vacant_lt_reach hi, slot, hslot, hfree⟩
  · rintro ⟨i, hlt, slot, hi, hfree⟩
    by_contra h
    rw [Option.not_isSome_iff_eq_none] at h
    -- The chain comes through every slot within reach, hence through the free one.
    obtain ⟨k, hk, hreach⟩ := ht.slots_size
    obtain ⟨n, hn, hchain⟩ := exists_chain_rolling_eq (rollingHome_lt key k) (hreach ▸ hlt)
    have hslots : n < 0 + t.slots.size := by
      rw [Nat.zero_add]
      exact hn.trans_le (hreach ▸ Nat.min_le_left _ _)
    rw [← hk] at hchain
    have hsome := searchFrom_none (n := 0) (search_eq_none habsent) h (Nat.zero_le n) hslots
      ((congrArg (t.slots[·]?) hchain).trans hi)
    rw [hfree] at hsome
    cases hsome

/-! ## Insertions answer -/

/-- A pair for which there is room is put into the first vacant slot of its chain; no doubling is
needed to find one. -/
theorem WellFormed.place_of_lt (ht : t.WellFormed) (habsent : t.find? key = none)
    (hroom : t.size < reach t.capacity) (value : α) :
    ∃ i, (t.search key).vacant = some i ∧
      ∀ growths, t.place growths (key, value) = some (t.occupy i key value) := by
  obtain ⟨i, hi⟩ := Option.isSome_iff_exists.1 ((ht.vacant_isSome_iff habsent).2 hroom)
  refine ⟨i, hi, fun growths => ?_⟩
  cases growths <;> simp [place, hi]

/-- Pairs for which there is room are put into a table without any doubling. -/
theorem WellFormed.foldlM_place (ht : t.WellFormed) (pairs : List (String × α))
    (hnodup : ((pairs ++ t.entries).map Prod.fst).Nodup)
    (hroom : t.size + pairs.length ≤ reach t.capacity) :
    ∃ t', (∀ growths, pairs.foldlM (place growths) t = some t') ∧ t'.capacity = t.capacity ∧
      t'.limit = t.limit := by
  induction pairs generalizing t with
  | nil => exact ⟨t, fun _ => rfl, rfl, rfl⟩
  | cons pair pairs ih =>
    obtain ⟨key, value⟩ := pair
    rw [List.length_cons] at hroom
    have habsent : t.find? key = none := by
      rw [ht.find?_eq_none_iff]
      intro hmem
      rw [List.cons_append, List.map_cons, List.nodup_cons, List.map_append] at hnodup
      exact hnodup.1 (List.mem_append_right _ hmem)
    obtain ⟨i, -, hi⟩ := ht.place_of_lt habsent (by omega) value
    obtain ⟨hwf, hperm⟩ := place_adds 0 _ _ _ ht habsent (hi 0)
    have hcapacity : (t.occupy i key value).capacity = t.capacity :=
      Array.size_setIfInBounds
    obtain ⟨t', ht', hcapacity', hlimit⟩ := ih hwf
      ((((hperm.append_left pairs).trans List.perm_middle).map _).nodup_iff.2 hnodup)
      (by rw [hcapacity]; change t.size + 1 + pairs.length ≤ _; omega)
    refine ⟨t', fun growths => ?_, hcapacity'.trans hcapacity, hlimit⟩
    rw [List.foldlM_cons, hi]
    exact ht' growths

theorem reach_mono {a b : Nat} (h : a ≤ b) : reach a ≤ reach b := by
  unfold reach
  omega

/-- Doubling answers, and doubles once. -/
theorem WellFormed.exists_rehash (ht : t.WellFormed) :
    ∃ t', (∀ growths, t.rehash (place growths) = some t') ∧ t'.capacity = 2 * t.capacity ∧
      t'.limit = t.limit := by
  obtain ⟨n, hn, hcapacity⟩ := ht.capacity_eq
  have hblank : (blank (2 * t.capacity) t.limit : HashTable rolling α).WellFormed := by
    rw [hcapacity, ← Nat.pow_succ']
    exact blank_wellFormed (by omega) _
  have hroom := ht.size_le_reach.trans (reach_mono (b := 2 * t.capacity) (by omega))
  rw [ht.size_eq] at hroom
  have hsize : (blank (2 * t.capacity) t.limit : HashTable rolling α).capacity =
      2 * t.capacity := by simp [blank, capacity]
  obtain ⟨t', h, hcapacity', hlimit⟩ := hblank.foldlM_place t.entries
    (by simpa using ht.keys_nodup) (by rw [hsize]; simpa [blank] using hroom)
  exact ⟨t', h, hcapacity'.trans hsize, hlimit⟩

theorem WellFormed.size_of_perm (ht : t.WellFormed) (ht' : t'.WellFormed)
    (h : t'.entries.Perm t.entries) : t'.size = t.size := by
  rw [ht.size_eq, ht'.size_eq, h.length_eq]

/-- The table in which an insertion looks for its key has a slot left. It was doubled once if it was
too full, and not otherwise. -/
theorem WellFormed.exists_expanded (ht : t.WellFormed) :
    ∃ t', (∀ growths, t.expandUnder? t.limit.exceeded growths = some t') ∧
      t'.capacity = (if t.limit.exceeded t.size t.capacity then 2 * t.capacity else t.capacity) ∧
      t'.limit = t.limit ∧ t'.size < t'.capacity := by
  have hpos : 0 < t.capacity := by
    obtain ⟨n, -, hn⟩ := ht.capacity_eq
    rw [hn]
    exact Nat.two_pow_pos n
  unfold expandUnder?
  split
  · obtain ⟨t', h, hcapacity, hlimit⟩ := ht.exists_rehash
    obtain ⟨ht', hperm⟩ := (place_adds 0).rehash ht (h 0)
    have hle : t.size ≤ t.capacity := ht.size_le_reach.trans (Nat.min_le_left _ _)
    exact ⟨t', h, hcapacity, hlimit, by rw [ht.size_of_perm ht' hperm]; omega⟩
  · rename_i hexceeded
    refine ⟨t, fun _ => rfl, rfl, rfl, ?_⟩
    rw [LoadFactor.exceeded_iff, Nat.not_lt] at hexceeded
    by_contra hfull
    have h₁ : t.capacity * t.limit.den ≤ t.size * t.limit.den :=
      Nat.mul_le_mul_right _ (Nat.not_lt.1 hfull)
    have h₂ : t.limit.num * t.capacity < t.limit.den * t.capacity :=
      Nat.mul_lt_mul_of_pos_right t.limit.num_lt_den hpos
    rw [Nat.mul_comm t.capacity] at h₁
    omega

theorem WellFormed.place_eq_none (ht : t.WellFormed) (habsent : t.find? key = none)
    (hfull : 2 ^ 64 ≤ t.size) (growths : Nat) (value : α) :
    t.place growths (key, value) = none := by
  have hvacant {t : HashTable rolling α} (ht : t.WellFormed) (habsent : t.find? key = none)
      (hfull : 2 ^ 64 ≤ t.size) : (t.search key).vacant = none := by
    rw [← Option.not_isSome_iff_eq_none, ht.vacant_isSome_iff habsent]
    have := Nat.min_le_right t.capacity (2 ^ 64)
    rw [reach]
    omega
  induction growths generalizing t with
  | zero => simp [place, hvacant ht habsent hfull]
  | succ growths ih =>
    rw [place, hvacant ht habsent hfull]
    cases h : t.rehash (place growths) with
    | none => rfl
    | some t₁ =>
      obtain ⟨hwf₁, hperm₁⟩ := (place_adds growths).rehash ht h
      exact ih hwf₁ (by rwa [ht.find?_of_perm hwf₁ hperm₁])
        (by rwa [ht.size_of_perm hwf₁ hperm₁])

/-- How an insertion goes in a table `t₁`, whatever number of doublings it may make in search of a
free slot: it makes none. -/
structure Inserts (t t₁ : HashTable rolling α) (key : String) (value : α) : Prop where
  /-- This is the table, doubled once if it was too full. -/
  expanded : ∀ growths, t.expandUnder? t.limit.exceeded growths = some t₁
  capacity_eq : t₁.capacity =
    if t.limit.exceeded t.size t.capacity then 2 * t.capacity else t.capacity
  limit_eq : t₁.limit = t.limit
  /-- A key that is there already stays as it is. -/
  known : (t.find? key).isSome → ∀ growths,
    t.insertUnder? t.limit.exceeded growths key value = some (false, t₁)
  /-- A new key is put into the first vacant slot of its chain. -/
  new : t.find? key = none → t.size < 2 ^ 64 → ∃ i, (t₁.search key).vacant = some i ∧
    ∀ growths, t.insertUnder? t.limit.exceeded growths key value =
      some (true, t₁.occupy i key value)
  /-- The slots that words can count are all taken. -/
  full : t.find? key = none → 2 ^ 64 ≤ t.size → ∀ growths,
    t.insertUnder? t.limit.exceeded growths key value = none

theorem WellFormed.exists_inserts (ht : t.WellFormed) (key : String) (value : α) :
    ∃ t₁, Inserts t t₁ key value := by
  obtain ⟨t₁, h₁, hcapacity, hlimit, hlt⟩ := ht.exists_expanded
  obtain ⟨hwf₁, hperm₁⟩ := expandUnder?_spec ht (h₁ 0)
  have hfind : t₁.find? key = t.find? key := ht.find?_of_perm hwf₁ hperm₁ key
  have hsize : t₁.size = t.size := ht.size_of_perm hwf₁ hperm₁
  refine ⟨t₁, h₁, hcapacity, hlimit, fun hsome growths => ?_, fun habsent hroom => ?_,
    fun habsent hfull growths => ?_⟩
  · rw [insertUnder?, h₁, Option.bind_some, contains_eq, hfind, if_pos hsome]
  · have hroom₁ : t₁.size < reach t₁.capacity := by
      rw [hsize] at hlt ⊢
      exact Nat.lt_min.2 ⟨hlt, hroom⟩
    obtain ⟨i, hi, hplace⟩ := hwf₁.place_of_lt (hfind.trans habsent) hroom₁ value
    refine ⟨i, hi, fun growths => ?_⟩
    rw [insertUnder?, h₁, Option.bind_some, contains_eq, hfind, habsent, hplace]
    rfl
  · rw [insertUnder?, h₁, Option.bind_some, contains_eq, hfind, habsent,
      hwf₁.place_eq_none (hfind.trans habsent) (hsize ▸ hfull)]
    rfl

/-- An insertion has no answer only for a new key, when the slots that words can count are all
taken. -/
theorem WellFormed.insert?_eq_none_iff (ht : t.WellFormed) (value : α) :
    t.insert? key value = none ↔ t.find? key = none ∧ 2 ^ 64 ≤ t.size := by
  obtain ⟨t₁, h⟩ := ht.exists_inserts key value
  rw [insert?_eq_insertUnder?]
  cases hfind : t.find? key with
  | some old =>
    rw [h.known (by rw [hfind]; rfl)]
    exact iff_of_false (Option.some_ne_none _) fun hnew => Option.some_ne_none old hnew.1
  | none =>
    rcases Nat.lt_or_ge t.size (2 ^ 64) with hroom | hfull
    · obtain ⟨i, -, hinsert⟩ := h.new hfind hroom
      rw [hinsert]
      exact iff_of_false (Option.some_ne_none _) fun hnew => Nat.not_le.2 hroom hnew.2
    · exact iff_of_true (h.full hfind hfull _) ⟨rfl, hfull⟩

theorem WellFormed.insert?_isNew_iff (ht : t.WellFormed) (value : α) :
    (t.insert? key value).map Prod.fst = some true ↔ t.find? key = none ∧ t.size < 2 ^ 64 := by
  rw [Option.map_eq_some_iff]
  constructor
  · rintro ⟨⟨isNew, t'⟩, hinsert, rfl⟩
    have habsent := (insert?_spec ht hinsert).2.1
    refine ⟨habsent, Nat.not_le.1 fun hfull => ?_⟩
    rw [(ht.insert?_eq_none_iff value).2 ⟨habsent, hfull⟩] at hinsert
    cases hinsert
  · rintro ⟨habsent, hroom⟩
    cases hinsert : t.insert? key value with
    | none => exact absurd ((ht.insert?_eq_none_iff value).1 hinsert).2 (Nat.not_le.2 hroom)
    | some answer =>
      obtain ⟨isNew, t'⟩ := answer
      have hspec := (insert?_spec ht hinsert).2
      cases isNew with
      | true => exact ⟨_, rfl, rfl⟩
      | false =>
        rw [if_neg Bool.false_ne_true, habsent] at hspec
        cases hspec.1

end HashTable

end StackMachine
