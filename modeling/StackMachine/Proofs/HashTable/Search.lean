import Mathlib.Data.List.Perm.Basic
import StackMachine.HashTable.Basic

/-!
# Walks along the chains of a table

What a walk along the chain of a key finds, and how far a change of one slot is felt by the walks
for other keys. Every statement is about `searchFrom`, so that it can be proved by following the
walk from any of its slots on.

* `slot_cases`: what a slot can be to a walk; the walk goes on as the lemma for that case says.
* `searchFrom_found`, `searchFrom_vacant`: a walk ends in a slot that holds its key, and the vacant
  slot that it has met holds no pair.
* `searchFrom_none`: a walk that meets neither its key nor a vacant slot has seen occupied slots all
  along its chain.
* `searchFrom_set_vacant`: a key put into the vacant slot that its walk met is found there.
* `searchFrom_set_other`: a pair of another key in a slot that was free does not hide a key that was
  found.
* `searchFrom_erase_other`: a slot marked as deleted does not change what is found for other keys.
* `searchFrom_replace`: another value in the slot of a key changes no walk.
-/

namespace StackMachine

/-- The `n`-th slot of the chain that starts at `home`. -/
def Probing.chain (probing : Probing) (capacity home : Nat) : Nat → Nat
  | 0 => home
  | n + 1 => probing.next (probing.chain capacity home n) (n + 1) capacity

namespace HashTable

variable {α : Type} {probing : Probing} {slots : Array (Slot α)} {key : String}

/-! ## One slot -/

/-- Whether a walk goes past what is at an index, and remembers nothing of it: a slot of another
key, or no slot at all. -/
def Passed (key : String) (slot? : Option (Slot α)) : Prop :=
  ∀ slot, slot? = some slot → ∃ other value, slot = .occupied other value ∧ other ≠ key

theorem passed_of_other {slot? : Option (Slot α)} {other : String} {value : α}
    (h : slot? = some (.occupied other value)) (hother : other ≠ key) : Passed key slot? := by
  rw [h]
  rintro _ ⟨⟩
  exact ⟨other, value, rfl, hother⟩

theorem slot_cases (key : String) (slot? : Option (Slot α)) :
    slot? = some .empty ∨ slot? = some .deleted ∨
      (∃ value, slot? = some (.occupied key value)) ∨ Passed key slot? := by
  cases slot? with
  | none => exact .inr (.inr (.inr nofun))
  | some slot =>
    cases slot with
    | empty => exact .inl rfl
    | deleted => exact .inr (.inl rfl)
    | occupied other value =>
      by_cases hkey : other = key
      · subst hkey
        exact .inr (.inr (.inl ⟨value, rfl⟩))
      · exact .inr (.inr (.inr (passed_of_other rfl hkey)))

section

variable {budget probe index : Nat} {vacant : Option Nat}

theorem searchFrom_succ (probing : Probing) (slots : Array (Slot α)) (key : String)
    (budget probe index : Nat) (vacant : Option Nat) :
    searchFrom probing slots key (budget + 1) probe index vacant =
      let next := probing.next index probe slots.size
      match slots[index]? with
      | some .empty => ⟨none, vacant.or (some index)⟩
      | some .deleted =>
        searchFrom probing slots key budget (probe + 1) next (vacant.or (some index))
      | some (.occupied other _) =>
        if other == key then ⟨some index, vacant⟩
        else searchFrom probing slots key budget (probe + 1) next vacant
      | none => searchFrom probing slots key budget (probe + 1) next vacant :=
  rfl

theorem searchFrom_of_empty (h : slots[index]? = some .empty) :
    searchFrom probing slots key (budget + 1) probe index vacant =
      ⟨none, vacant.or (some index)⟩ := by
  rw [searchFrom_succ, h]

theorem searchFrom_of_deleted (h : slots[index]? = some .deleted) :
    searchFrom probing slots key (budget + 1) probe index vacant =
      searchFrom probing slots key budget (probe + 1) (probing.next index probe slots.size)
        (vacant.or (some index)) := by
  rw [searchFrom_succ, h]

theorem searchFrom_of_key {value : α} (h : slots[index]? = some (.occupied key value)) :
    searchFrom probing slots key (budget + 1) probe index vacant = ⟨some index, vacant⟩ := by
  rw [searchFrom_succ, h]
  exact if_pos (beq_iff_eq.2 rfl)

theorem searchFrom_of_passed (h : Passed key slots[index]?) :
    searchFrom probing slots key (budget + 1) probe index vacant =
      searchFrom probing slots key budget (probe + 1) (probing.next index probe slots.size)
        vacant := by
  rw [searchFrom_succ]
  cases hslot : slots[index]? with
  | none => rfl
  | some slot =>
    obtain ⟨other, value, rfl, hother⟩ := h slot hslot
    exact if_neg fun hkey => hother (beq_iff_eq.1 hkey)

/-- Walks through two tables that have the same slot here stop alike, or both go on. -/
theorem searchFrom_same {slots' : Array (Slot α)} (hsize : slots'.size = slots.size)
    (hsame : slots'[index]? = slots[index]?) :
    searchFrom probing slots' key (budget + 1) probe index vacant =
        searchFrom probing slots key (budget + 1) probe index vacant ∨
      ∃ vacant',
        searchFrom probing slots key (budget + 1) probe index vacant =
          searchFrom probing slots key budget (probe + 1) (probing.next index probe slots.size)
            vacant' ∧
        searchFrom probing slots' key (budget + 1) probe index vacant =
          searchFrom probing slots' key budget (probe + 1) (probing.next index probe slots.size)
            vacant' := by
  rcases slot_cases key slots[index]? with hslot | hslot | ⟨value, hslot⟩ | hslot
  · left
    rw [searchFrom_of_empty hslot, searchFrom_of_empty (hsame.trans hslot)]
  · right
    refine ⟨vacant.or (some index), searchFrom_of_deleted hslot, ?_⟩
    rw [searchFrom_of_deleted (hsame.trans hslot), hsize]
  · left
    rw [searchFrom_of_key hslot, searchFrom_of_key (hsame.trans hslot)]
  · right
    refine ⟨vacant, searchFrom_of_passed hslot, ?_⟩
    rw [← hsame] at hslot
    rw [searchFrom_of_passed hslot, hsize]

end

/-! ## What a walk finds -/

/-- A walk that has met a vacant slot keeps the first one. -/
theorem searchFrom_vacant_some (probing : Probing) (slots : Array (Slot α)) (key : String)
    (budget probe index free : Nat) :
    (searchFrom probing slots key budget probe index (some free)).vacant = some free := by
  induction budget generalizing probe index with
  | zero => rfl
  | succ budget ih =>
    rcases slot_cases key slots[index]? with hslot | hslot | ⟨value, hslot⟩ | hslot
    · rw [searchFrom_of_empty hslot]
      rfl
    · rw [searchFrom_of_deleted hslot]
      exact ih _ _
    · rw [searchFrom_of_key hslot]
    · rw [searchFrom_of_passed hslot]
      exact ih _ _

theorem searchFrom_found {budget probe index i : Nat} {vacant : Option Nat}
    (h : (searchFrom probing slots key budget probe index vacant).found = some i) :
    ∃ value, slots[i]? = some (.occupied key value) := by
  induction budget generalizing probe index vacant with
  | zero => cases h
  | succ budget ih =>
    rcases slot_cases key slots[index]? with hslot | hslot | ⟨value, hslot⟩ | hslot
    · rw [searchFrom_of_empty hslot] at h
      cases h
    · rw [searchFrom_of_deleted hslot] at h
      exact ih h
    · rw [searchFrom_of_key hslot] at h
      cases h
      exact ⟨value, hslot⟩
    · rw [searchFrom_of_passed hslot] at h
      exact ih h

theorem searchFrom_vacant {budget probe index i : Nat}
    (h : (searchFrom probing slots key budget probe index none).vacant = some i) :
    ∃ slot, slots[i]? = some slot ∧ slot.entry? = none := by
  induction budget generalizing probe index with
  | zero => cases h
  | succ budget ih =>
    rcases slot_cases key slots[index]? with hslot | hslot | ⟨value, hslot⟩ | hslot
    · rw [searchFrom_of_empty hslot] at h
      cases h
      exact ⟨.empty, hslot, rfl⟩
    · rw [searchFrom_of_deleted hslot, Option.none_or, searchFrom_vacant_some] at h
      cases h
      exact ⟨.deleted, hslot, rfl⟩
    · rw [searchFrom_of_key hslot] at h
      cases h
    · rw [searchFrom_of_passed hslot] at h
      exact ih h

/-- What is found does not depend on the vacant slot that is remembered. -/
theorem searchFrom_found_congr (probing : Probing) (slots : Array (Slot α)) (key : String)
    (budget probe index : Nat) (vacant vacant' : Option Nat) :
    (searchFrom probing slots key budget probe index vacant).found =
      (searchFrom probing slots key budget probe index vacant').found := by
  induction budget generalizing probe index vacant vacant' with
  | zero => rfl
  | succ budget ih =>
    rcases slot_cases key slots[index]? with hslot | hslot | ⟨value, hslot⟩ | hslot
    · rw [searchFrom_of_empty hslot, searchFrom_of_empty hslot]
    · rw [searchFrom_of_deleted hslot, searchFrom_of_deleted hslot]
      exact ih _ _ _ _
    · rw [searchFrom_of_key hslot, searchFrom_of_key hslot]
    · rw [searchFrom_of_passed hslot, searchFrom_of_passed hslot]
      exact ih _ _ _ _

/-! ## The slots of the chain -/

theorem searchFrom_found_chain {home budget n i : Nat} {vacant : Option Nat}
    (h : (searchFrom probing slots key budget (n + 1) (probing.chain slots.size home n)
      vacant).found = some i) :
    ∃ m, probing.chain slots.size home m = i := by
  induction budget generalizing n vacant with
  | zero => cases h
  | succ budget ih =>
    rcases slot_cases key slots[probing.chain slots.size home n]? with
      hslot | hslot | ⟨value, hslot⟩ | hslot
    · rw [searchFrom_of_empty hslot] at h
      cases h
    · rw [searchFrom_of_deleted hslot] at h
      exact ih h
    · rw [searchFrom_of_key hslot] at h
      cases h
      exact ⟨n, rfl⟩
    · rw [searchFrom_of_passed hslot] at h
      exact ih h

theorem searchFrom_vacant_chain {home budget n i : Nat}
    (h : (searchFrom probing slots key budget (n + 1) (probing.chain slots.size home n)
      none).vacant = some i) :
    ∃ m, probing.chain slots.size home m = i := by
  induction budget generalizing n with
  | zero => cases h
  | succ budget ih =>
    rcases slot_cases key slots[probing.chain slots.size home n]? with
      hslot | hslot | ⟨value, hslot⟩ | hslot
    · rw [searchFrom_of_empty hslot] at h
      cases h
      exact ⟨n, rfl⟩
    · rw [searchFrom_of_deleted hslot, Option.none_or, searchFrom_vacant_some] at h
      exact ⟨n, Option.some.inj h⟩
    · rw [searchFrom_of_key hslot] at h
      cases h
    · rw [searchFrom_of_passed hslot] at h
      exact ih h

/-- A walk that neither finds its key nor a vacant slot has gone through occupied slots only. -/
theorem searchFrom_none {home budget n : Nat}
    (hfound : (searchFrom probing slots key budget (n + 1) (probing.chain slots.size home n)
      none).found = none)
    (hvacant : (searchFrom probing slots key budget (n + 1) (probing.chain slots.size home n)
      none).vacant = none)
    {m : Nat} (hnm : n ≤ m) (hm : m < n + budget) {slot : Slot α}
    (hslot : slots[probing.chain slots.size home m]? = some slot) : slot.entry?.isSome := by
  induction budget generalizing n with
  | zero => omega
  | succ budget ih =>
    rcases slot_cases key slots[probing.chain slots.size home n]? with
      hhere | hhere | ⟨value, hhere⟩ | hhere
    · rw [searchFrom_of_empty hhere] at hvacant
      cases hvacant
    · rw [searchFrom_of_deleted hhere, Option.none_or, searchFrom_vacant_some] at hvacant
      cases hvacant
    · rw [searchFrom_of_key hhere] at hfound
      cases hfound
    · rcases Nat.eq_or_lt_of_le hnm with rfl | hlt
      · obtain ⟨other, value, rfl, -⟩ := hhere slot hslot
        rfl
      · rw [searchFrom_of_passed hhere] at hfound hvacant
        exact ih hfound hvacant hlt (by omega)

/-! ## Changes of one slot -/

section

variable {budget probe index i : Nat} {other : String} {vacant : Option Nat}

theorem searchFrom_set_vacant (value : α)
    (hfound : (searchFrom probing slots key budget probe index none).found = none)
    (hvacant : (searchFrom probing slots key budget probe index none).vacant = some i) :
    (searchFrom probing (slots.setIfInBounds i (.occupied key value)) key budget probe index
      none).found = some i := by
  obtain ⟨slot, hi, hfree⟩ := searchFrom_vacant hvacant
  have hlt : i < slots.size := (Array.getElem?_eq_some_iff.1 hi).1
  have hset : (slots.setIfInBounds i (.occupied key value))[i]? = some (.occupied key value) :=
    Array.getElem?_setIfInBounds_self_of_lt hlt
  induction budget generalizing probe index with
  | zero => cases hvacant
  | succ budget ih =>
    -- The walk reaches `i` through slots that the change has not touched.
    by_cases hindex : index = i
    · subst hindex
      rw [searchFrom_of_key hset]
    · rcases slot_cases key slots[index]? with hslot | hslot | ⟨value, hslot⟩ | hslot
      · rw [searchFrom_of_empty hslot] at hvacant
        exact absurd (Option.some.inj hvacant) hindex
      · rw [searchFrom_of_deleted hslot, Option.none_or, searchFrom_vacant_some] at hvacant
        exact absurd (Option.some.inj hvacant) hindex
      · rw [searchFrom_of_key hslot] at hfound
        cases hfound
      · rw [searchFrom_of_passed hslot] at hfound hvacant
        rw [← Array.getElem?_setIfInBounds_ne (Ne.symm hindex)] at hslot
        rw [searchFrom_of_passed hslot, Array.size_setIfInBounds]
        exact ih hfound hvacant

/-- A slot that now holds another key is gone past. -/
theorem passed_set (hother : other ≠ key) (value : α) :
    Passed key (slots.setIfInBounds i (.occupied other value))[i]? := by
  intro slot hslot
  obtain ⟨hlt, hslot⟩ := Array.getElem?_eq_some_iff.1 hslot
  rw [Array.getElem_setIfInBounds_self] at hslot
  exact ⟨other, value, hslot.symm, hother⟩

theorem searchFrom_set_other {j : Nat} {value : α} (hother : other ≠ key)
    (hfree : ∀ slot, slots[i]? = some slot → slot.entry? = none)
    (hfound : (searchFrom probing slots key budget probe index vacant).found = some j) :
    (searchFrom probing (slots.setIfInBounds i (.occupied other value)) key budget probe index
      vacant).found = some j := by
  induction budget generalizing probe index vacant with
  | zero => cases hfound
  | succ budget ih =>
    by_cases hindex : index = i
    · subst hindex
      rw [searchFrom_of_passed (passed_set hother value), Array.size_setIfInBounds]
      rcases slot_cases key slots[index]? with hslot | hslot | ⟨value, hslot⟩ | hslot
      · rw [searchFrom_of_empty hslot] at hfound
        cases hfound
      · rw [searchFrom_of_deleted hslot] at hfound
        exact (searchFrom_found_congr ..).trans (ih hfound)
      · cases hfree _ hslot
      · rw [searchFrom_of_passed hslot] at hfound
        exact ih hfound
    · have hsame : (slots.setIfInBounds i (.occupied other value))[index]? = slots[index]? :=
        Array.getElem?_setIfInBounds_ne (Ne.symm hindex)
      rcases searchFrom_same Array.size_setIfInBounds hsame with hstop | ⟨vacant', hold, hnew⟩
      · rw [hstop]
        exact hfound
      · rw [hold] at hfound
        rw [hnew]
        exact ih hfound

theorem searchFrom_erase_other {value : α} (hother : other ≠ key)
    (hslot : slots[i]? = some (.occupied other value)) :
    (searchFrom probing (slots.setIfInBounds i .deleted) key budget probe index vacant).found =
      (searchFrom probing slots key budget probe index vacant).found := by
  induction budget generalizing probe index vacant with
  | zero => rfl
  | succ budget ih =>
    by_cases hindex : index = i
    · subst hindex
      have hlt := (Array.getElem?_eq_some_iff.1 hslot).1
      rw [searchFrom_of_deleted (Array.getElem?_setIfInBounds_self_of_lt hlt),
        searchFrom_of_passed (passed_of_other hslot hother), Array.size_setIfInBounds]
      exact (searchFrom_found_congr ..).trans ih
    · have hsame : (slots.setIfInBounds i .deleted)[index]? = slots[index]? :=
        Array.getElem?_setIfInBounds_ne (Ne.symm hindex)
      rcases searchFrom_same Array.size_setIfInBounds hsame with hstop | ⟨vacant', hold, hnew⟩
      · rw [hstop]
      · rw [hold, hnew]
        exact ih

theorem searchFrom_replace {old : α} (new : α) (hslot : slots[i]? = some (.occupied other old)) :
    searchFrom probing (slots.setIfInBounds i (.occupied other new)) key budget probe index vacant =
      searchFrom probing slots key budget probe index vacant := by
  induction budget generalizing probe index vacant with
  | zero => rfl
  | succ budget ih =>
    by_cases hindex : index = i
    · subst hindex
      have hlt := (Array.getElem?_eq_some_iff.1 hslot).1
      have hset : (slots.setIfInBounds index (.occupied other new))[index]? =
          some (.occupied other new) := Array.getElem?_setIfInBounds_self_of_lt hlt
      by_cases hother : other = key
      · subst hother
        rw [searchFrom_of_key hset, searchFrom_of_key hslot]
      · rw [searchFrom_of_passed (passed_of_other hset hother),
          searchFrom_of_passed (passed_of_other hslot hother), Array.size_setIfInBounds]
        exact ih
    · have hsame : (slots.setIfInBounds i (.occupied other new))[index]? = slots[index]? :=
        Array.getElem?_setIfInBounds_ne (Ne.symm hindex)
      rcases searchFrom_same Array.size_setIfInBounds hsame with hstop | ⟨vacant', hold, hnew⟩
      · exact hstop
      · rw [hold, hnew]
        exact ih

end

end HashTable

end StackMachine
