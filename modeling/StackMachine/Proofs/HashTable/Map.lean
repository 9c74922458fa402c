import Mathlib.Algebra.Group.Nat.Defs
import Mathlib.Data.List.Perm.Basic
import Mathlib.Data.List.Nodup
import StackMachine.Proofs.HashTable.Search

/-!
# Tables as maps

The invariant of every table that the operations make, and what each operation does to the live
pairs. Nothing here depends on the rule of probing: its chains may miss slots, as long as each
operation answers.

* `WellFormed`: the capacity is a power of two, the size counts the live pairs, and every key is
  found in the slot that holds it.
* `find?_eq_some_iff`: looking a key up tells its live pair.
* `insertUnder?_spec`, `erase?_spec`: an insertion adds one pair or finds the key taken, whatever the
  growth test decides, and a removal takes one pair away; both keep the invariant.
* `find?_assign`: an assignment changes the value of a key that has one.
-/

namespace StackMachine.HashTable

variable {α : Type} {probing : Probing} {t t' : HashTable probing α} {key : String} {value : α}

/-- The invariant of tables. -/
structure WellFormed (t : HashTable probing α) : Prop where
  capacity_eq : ∃ n, 3 ≤ n ∧ t.capacity = 2 ^ n
  size_eq : t.size = t.entries.length
  /-- Each key is reached on its own chain; this makes keys unique too. -/
  found : ∀ i key value, t.slots[i]? = some (.occupied key value) →
    (t.search key).found = some i

/-! ## Live pairs -/

theorem entry?_eq_some {slot : Slot α} : slot.entry? = some (key, value) ↔
    slot = .occupied key value := by
  cases slot <;> simp [Slot.entry?]

theorem mem_entries : (key, value) ∈ t.entries ↔
    ∃ i : Nat, t.slots[i]? = some (.occupied key value) := by
  rw [entries, List.mem_filterMap]
  simp only [List.mem_iff_getElem?, Array.getElem?_toList]
  constructor
  · rintro ⟨slot, ⟨i, hi⟩, hslot⟩
    exact ⟨i, hi.trans (congrArg some (entry?_eq_some.1 hslot))⟩
  · rintro ⟨i, hi⟩
    exact ⟨_, ⟨i, hi⟩, rfl⟩

theorem search_found {i : Nat} (h : (t.search key).found = some i) :
    ∃ value, t.slots[i]? = some (.occupied key value) :=
  searchFrom_found h

theorem contains_eq (t : HashTable probing α) (key : String) :
    t.contains key = (t.find? key).isSome := by
  unfold contains find?
  cases h : (t.search key).found with
  | none => rfl
  | some i =>
    obtain ⟨value, hi⟩ := search_found h
    simp [hi, Slot.entry?]

theorem search_eq_none (h : t.find? key = none) : (t.search key).found = none := by
  have hc := contains_eq t key
  rw [h] at hc
  simpa [contains] using hc

theorem WellFormed.find?_eq_some_iff (ht : t.WellFormed) :
    t.find? key = some value ↔ (key, value) ∈ t.entries := by
  rw [mem_entries]
  constructor
  · intro h
    cases hs : (t.search key).found with
    | none => simp [find?, hs] at h
    | some i =>
      obtain ⟨value', hi⟩ := search_found hs
      have hv : value' = value := by simpa [find?, hs, hi, Slot.entry?] using h
      exact ⟨i, hv ▸ hi⟩
  · rintro ⟨i, hi⟩
    simp [find?, ht.found i key value hi, hi, Slot.entry?]

theorem WellFormed.find?_eq_none_iff (ht : t.WellFormed) :
    t.find? key = none ↔ key ∉ t.entries.map Prod.fst := by
  rw [Option.eq_none_iff_forall_ne_some]
  simp only [ne_eq, ht.find?_eq_some_iff, List.mem_map, Prod.exists, exists_and_right,
    exists_eq_right, not_exists]

theorem WellFormed.keys_nodup (ht : t.WellFormed) : (t.entries.map Prod.fst).Nodup := by
  rw [List.nodup_iff_pairwise_ne, List.pairwise_map, entries, List.pairwise_filterMap,
    List.pairwise_iff_getElem]
  rintro i j hi hj hij ⟨key, value⟩ hslot ⟨key', value'⟩ hslot' heq
  have hi' := ht.found i key value (by
    rw [← Array.getElem?_toList, List.getElem?_eq_getElem hi, entry?_eq_some.1 hslot])
  have hj' := ht.found j key' value' (by
    rw [← Array.getElem?_toList, List.getElem?_eq_getElem hj, entry?_eq_some.1 hslot'])
  have heq : key = key' := heq
  rw [← heq, hi'] at hj'
  exact absurd (Option.some.inj hj') (Nat.ne_of_lt hij)

/-- Two well-formed tables with the same keys have as many pairs, whatever the values are. -/
theorem WellFormed.size_congr {probing' : Probing} {t' : HashTable probing' α} (ht : t.WellFormed)
    (ht' : t'.WellFormed) (h : ∀ key, t.find? key = none ↔ t'.find? key = none) :
    t.size = t'.size := by
  rw [ht.size_eq, ht'.size_eq, ← List.length_map Prod.fst, ← List.length_map Prod.fst]
  refine List.Perm.length_eq ((List.perm_ext_iff_of_nodup ht.keys_nodup ht'.keys_nodup).2 ?_)
  intro key
  rw [← not_iff_not, ← ht.find?_eq_none_iff, ← ht'.find?_eq_none_iff, h]

/-- A lookup in a table whose live pairs are those of another and one more. -/
theorem WellFormed.find?_of_perm_cons (ht : t.WellFormed) (ht' : t'.WellFormed)
    (h : t'.entries.Perm ((key, value) :: t.entries)) (name : String) :
    t'.find? name = if name = key then some value else t.find? name := by
  split
  · rename_i hname
    rw [hname, ht'.find?_eq_some_iff, h.mem_iff]
    exact List.mem_cons_self
  · rename_i hname
    ext v
    rw [ht'.find?_eq_some_iff, ht.find?_eq_some_iff, h.mem_iff, List.mem_cons]
    simp [hname]

/-- A lookup in a table with the same live pairs. -/
theorem WellFormed.find?_of_perm (ht : t.WellFormed) (ht' : t'.WellFormed)
    (h : t'.entries.Perm t.entries) (name : String) : t'.find? name = t.find? name := by
  ext v
  rw [ht'.find?_eq_some_iff, ht.find?_eq_some_iff, h.mem_iff]

/-! ## One slot changed -/

theorem append_exchange_perm {β : Type} (a b c d : List β) :
    (a ++ (c ++ (b ++ d))).Perm (b ++ (c ++ (a ++ d))) := by
  have h₁ : (a ++ (c ++ (b ++ d))).Perm (c ++ (a ++ (b ++ d))) :=
    List.perm_append_comm_assoc _ _ _
  have h₂ : (c ++ (a ++ (b ++ d))).Perm (c ++ (b ++ (a ++ d))) :=
    (List.perm_append_comm_assoc _ _ _).append_left _
  exact h₁.trans (h₂.trans (List.perm_append_comm_assoc _ _ _))

/-- Changing one element exchanges what it contributes. -/
theorem filterMap_set_perm {β γ : Type} (f : β → Option γ) {l : List β} {i : Nat} {old : β}
    (new : β) (h : l[i]? = some old) :
    ((f old).toList ++ (l.set i new).filterMap f).Perm ((f new).toList ++ l.filterMap f) := by
  obtain ⟨hi, rfl⟩ := List.getElem?_eq_some_iff.1 h
  have hl : l.filterMap f =
      (l.take i).filterMap f ++ ((f l[i]).toList ++ (l.drop (i + 1)).filterMap f) := by
    conv_lhs => rw [← List.take_append_drop i l, List.drop_eq_getElem_cons hi]
    rw [List.filterMap_append, List.filterMap_cons]
    cases f l[i] <;> rfl
  have hset : (l.set i new).filterMap f =
      (l.take i).filterMap f ++ ((f new).toList ++ (l.drop (i + 1)).filterMap f) := by
    rw [List.set_eq_take_append_cons_drop, if_pos hi, List.filterMap_append, List.filterMap_cons]
    cases f new <;> rfl
  rw [hl, hset]
  exact append_exchange_perm _ _ _ _

theorem entries_set_perm {i : Nat} {old : Slot α} (new : Slot α) (h : t.slots[i]? = some old) :
    (old.entry?.toList ++ (t.slots.setIfInBounds i new).toList.filterMap Slot.entry?).Perm
      (new.entry?.toList ++ t.entries) := by
  rw [Array.toList_setIfInBounds]
  exact filterMap_set_perm _ _ (by rw [Array.getElem?_toList, h])

/-! ## Insertion -/

theorem entries_occupy (key : String) (value : α) {i : Nat} {slot : Slot α}
    (h : t.slots[i]? = some slot) (hfree : slot.entry? = none) :
    (t.occupy i key value).entries.Perm ((key, value) :: t.entries) := by
  have hp := entries_set_perm (.occupied key value) h
  rwa [hfree] at hp

theorem search_occupy_self {i : Nat} (hfound : (t.search key).found = none)
    (hvacant : (t.search key).vacant = some i) :
    ((t.occupy i key value).search key).found = some i := by
  simp only [search, occupy, Array.size_setIfInBounds]
  exact searchFrom_set_vacant value hfound hvacant

theorem search_occupy_other {i j : Nat} {name : String} (hname : key ≠ name)
    (hfree : ∀ slot, t.slots[i]? = some slot → slot.entry? = none)
    (hfound : (t.search name).found = some j) :
    ((t.occupy i key value).search name).found = some j := by
  simp only [search, occupy, Array.size_setIfInBounds]
  exact searchFrom_set_other hname hfree hfound

/-- A pair whose key is absent, put into the vacant slot that the walk of its key met. -/
theorem WellFormed.occupy (ht : t.WellFormed) {i : Nat} (hfound : (t.search key).found = none)
    (hvacant : (t.search key).vacant = some i) :
    (t.occupy i key value).WellFormed ∧
      (t.occupy i key value).entries.Perm ((key, value) :: t.entries) := by
  obtain ⟨slot, hi, hfree⟩ := searchFrom_vacant hvacant
  have hperm := entries_occupy key value hi hfree
  refine ⟨⟨?_, ?_, ?_⟩, hperm⟩
  · simpa [HashTable.occupy, capacity] using ht.capacity_eq
  · rw [hperm.length_eq, List.length_cons, ← ht.size_eq]
    rfl
  · intro j name value' hj
    have hfree' : ∀ slot, t.slots[i]? = some slot → slot.entry? = none := by
      intro slot' hslot'
      rw [hi] at hslot'
      exact Option.some.inj hslot' ▸ hfree
    by_cases hname : key = name
    · -- A second slot with the new key would have been found before.
      subst hname
      by_cases hji : j = i
      · subst hji
        exact search_occupy_self hfound hvacant
      · rw [HashTable.occupy, Array.getElem?_setIfInBounds_ne (Ne.symm hji)] at hj
        rw [ht.found j key value' hj] at hfound
        cases hfound
    · have hji : j ≠ i := by
        rintro rfl
        have hlt := (Array.getElem?_eq_some_iff.1 hi).1
        simp only [HashTable.occupy, Array.getElem?_setIfInBounds, hlt, if_true,
          Option.some.injEq, Slot.occupied.injEq] at hj
        exact hname hj.1
      rw [HashTable.occupy, Array.getElem?_setIfInBounds_ne (Ne.symm hji)] at hj
      exact search_occupy_other hname hfree' (ht.found j name value' hj)

@[simp]
theorem entries_blank (capacity : Nat) (limit : LoadFactor) :
    (blank capacity limit : HashTable probing α).entries = [] := by
  rw [entries, List.filterMap_eq_nil_iff]
  intro slot hslot
  rw [blank, Array.toList_replicate] at hslot
  rw [List.eq_of_mem_replicate hslot]
  rfl

theorem blank_wellFormed {n : Nat} (hn : 3 ≤ n) (limit : LoadFactor) :
    (blank (2 ^ n) limit : HashTable probing α).WellFormed := by
  refine ⟨⟨n, hn, by simp [blank, capacity]⟩, ?_, ?_⟩
  · rw [entries_blank]
    rfl
  · intro i key value h
    simp only [blank, Array.getElem?_replicate] at h
    split at h <;> cases h

theorem find?_blank {n : Nat} (hn : 3 ≤ n) (limit : LoadFactor) (key : String) :
    (blank (2 ^ n) limit : HashTable probing α).find? key = none := by
  rw [(blank_wellFormed hn limit).find?_eq_none_iff, entries_blank]
  exact List.not_mem_nil

theorem empty_wellFormed : (empty : HashTable probing α).WellFormed :=
  blank_wellFormed (n := 3) (by decide) _

/-- What it means for `put` to add a pair to a table. -/
def Adds (put : HashTable probing α → String × α → Option (HashTable probing α)) : Prop :=
  ∀ t entry t', t.WellFormed → t.find? entry.1 = none → put t entry = some t' →
    t'.WellFormed ∧ t'.entries.Perm (entry :: t.entries)

theorem Adds.foldlM {put : HashTable probing α → String × α → Option (HashTable probing α)}
    (hput : Adds put) {pairs : List (String × α)} (ht : t.WellFormed)
    (hnodup : ((pairs ++ t.entries).map Prod.fst).Nodup) (h : pairs.foldlM put t = some t') :
    t'.WellFormed ∧ t'.entries.Perm (pairs ++ t.entries) := by
  induction pairs generalizing t with
  | nil =>
    cases h
    exact ⟨ht, .refl _⟩
  | cons pair pairs ih =>
    rw [List.foldlM_cons, Option.bind_eq_bind, Option.bind_eq_some_iff] at h
    obtain ⟨t₁, h₁, h⟩ := h
    have habsent : t.find? pair.1 = none := by
      rw [ht.find?_eq_none_iff]
      intro hmem
      rw [List.cons_append, List.map_cons, List.nodup_cons, List.map_append] at hnodup
      exact hnodup.1 (List.mem_append_right _ hmem)
    obtain ⟨hwf₁, hperm₁⟩ := hput t pair t₁ ht habsent h₁
    have hmiddle : (pairs ++ t₁.entries).Perm (pair :: pairs ++ t.entries) :=
      (hperm₁.append_left pairs).trans List.perm_middle
    obtain ⟨hwf, hperm⟩ := ih hwf₁ ((hmiddle.map _).nodup_iff.2 hnodup) h
    exact ⟨hwf, hperm.trans hmiddle⟩

theorem Adds.rehash {put : HashTable probing α → String × α → Option (HashTable probing α)}
    (hput : Adds put) (ht : t.WellFormed) (h : t.rehash put = some t') :
    t'.WellFormed ∧ t'.entries.Perm t.entries := by
  obtain ⟨n, hn, hcapacity⟩ := ht.capacity_eq
  have hblank : (blank (2 * t.capacity) t.limit : HashTable probing α).WellFormed := by
    rw [hcapacity, ← Nat.pow_succ']
    exact blank_wellFormed (by omega) _
  simpa using hput.foldlM hblank (by simpa using ht.keys_nodup) h

theorem place_adds (growths : Nat) :
    Adds (place growths : HashTable probing α → String × α → Option (HashTable probing α)) := by
  induction growths with
  | zero =>
    intro t entry t' ht habsent h
    rw [place, Option.bind_eq_bind, Option.bind_eq_some_iff] at h
    obtain ⟨i, hvacant, h⟩ := h
    cases h
    exact ht.occupy (search_eq_none habsent) hvacant
  | succ growths ih =>
    intro t entry t' ht habsent h
    rw [place] at h
    split at h
    · rename_i i hvacant
      cases h
      exact ht.occupy (search_eq_none habsent) hvacant
    · rw [Option.bind_eq_bind, Option.bind_eq_some_iff] at h
      obtain ⟨t₁, h₁, h⟩ := h
      obtain ⟨hwf₁, hperm₁⟩ := ih.rehash ht h₁
      obtain ⟨hwf, hperm⟩ := ih t₁ entry t' hwf₁ (by rwa [ht.find?_of_perm hwf₁ hperm₁]) h
      exact ⟨hwf, hperm.trans (hperm₁.cons _)⟩

/-- The table in which an insertion looks for its key, where any test of size and capacity can ask
for a doubling. -/
def expandUnder? (test : Nat → Nat → Bool) (growths : Nat) (t : HashTable probing α) :
    Option (HashTable probing α) :=
  if test t.size t.capacity then rehash (place growths) t else some t

/-- An insertion with any growth test, and any number of doublings after which the search for a free
slot is given up. -/
def insertUnder? (test : Nat → Nat → Bool) (growths : Nat) (t : HashTable probing α) (key : String)
    (value : α) : Option (Bool × HashTable probing α) :=
  (t.expandUnder? test growths).bind fun t =>
    if t.contains key then some (false, t)
    else (t.place growths (key, value)).map (true, ·)

theorem expandUnder?_spec {test : Nat → Nat → Bool} {growths : Nat} (ht : t.WellFormed)
    (h : t.expandUnder? test growths = some t') : t'.WellFormed ∧ t'.entries.Perm t.entries := by
  unfold expandUnder? at h
  split at h
  · exact (place_adds growths).rehash ht h
  · cases h
    exact ⟨ht, .refl _⟩

/-- The outcome of an insertion: the pair is added, or the key has a value already. -/
theorem insertUnder?_spec {test : Nat → Nat → Bool} {growths : Nat} {isNew : Bool}
    (ht : t.WellFormed) (h : t.insertUnder? test growths key value = some (isNew, t')) :
    t'.WellFormed ∧
      if isNew then t.find? key = none ∧ t'.entries.Perm ((key, value) :: t.entries)
      else (t.find? key).isSome ∧ t'.entries.Perm t.entries := by
  rw [insertUnder?, Option.bind_eq_some_iff] at h
  obtain ⟨t₁, h₁, h⟩ := h
  obtain ⟨hwf₁, hperm₁⟩ := expandUnder?_spec ht h₁
  rw [contains_eq, ht.find?_of_perm hwf₁ hperm₁] at h
  split at h
  · rename_i hsome
    cases h
    exact ⟨hwf₁, hsome, hperm₁⟩
  · rename_i hsome
    obtain ⟨t₂, h₂, heq⟩ := Option.map_eq_some_iff.1 h
    obtain ⟨rfl, rfl⟩ := Prod.mk.inj heq
    have habsent : t.find? key = none := by simpa using hsome
    obtain ⟨hwf₂, hperm₂⟩ := place_adds growths t₁ (key, value) _ hwf₁
      (by rwa [ht.find?_of_perm hwf₁ hperm₁]) h₂
    exact ⟨hwf₂, habsent, hperm₂.trans (hperm₁.cons _)⟩

/-- The growth test of a table compares its load with the limit. -/
theorem insert?_eq_insertUnder? (t : HashTable probing α) (key : String) (value : α) :
    t.insert? key value = t.insertUnder? t.limit.exceeded maxGrowths key value := by
  simp only [insert?, insertUnder?, expandUnder?, Option.map_eq_bind]
  split <;> rfl

theorem insert?_spec {isNew : Bool} (ht : t.WellFormed)
    (h : t.insert? key value = some (isNew, t')) :
    t'.WellFormed ∧
      if isNew then t.find? key = none ∧ t'.entries.Perm ((key, value) :: t.entries)
      else (t.find? key).isSome ∧ t'.entries.Perm t.entries := by
  rw [insert?_eq_insertUnder?] at h
  exact insertUnder?_spec ht h

/-! ## Assignment -/

theorem assign_eq_self (h : t.find? key = none) (value : α) : t.assign key value = t := by
  rw [assign, search_eq_none h]

/-- An assignment changes no walk, since its slot keeps the key. -/
theorem search_assign (t : HashTable probing α) (key : String) (value : α) (name : String) :
    (t.assign key value).search name = t.search name := by
  unfold assign
  split
  · rename_i i hi
    obtain ⟨old, hslot⟩ := search_found hi
    simp only [search, Array.size_setIfInBounds]
    exact searchFrom_replace value hslot
  · rfl

/-- A lookup behind an assignment. -/
theorem find?_assign (t : HashTable probing α) (key : String) (value : α) (name : String) :
    (t.assign key value).find? name =
      if name = key then (t.find? key).map fun _ => value else t.find? name := by
  cases hfind : t.find? key with
  | none =>
    rw [assign_eq_self hfind]
    split
    · rename_i hname
      rw [hname, hfind]
      rfl
    · rfl
  | some old =>
    have hsome : (t.search key).found.isSome := by
      rw [← contains, contains_eq, hfind]
      rfl
    obtain ⟨i, hi⟩ := Option.isSome_iff_exists.1 hsome
    obtain ⟨stored, hslot⟩ := search_found hi
    have hlt := (Array.getElem?_eq_some_iff.1 hslot).1
    have hslots : (t.assign key value).slots = t.slots.setIfInBounds i (.occupied key value) := by
      rw [assign, hi]
    rw [find?, search_assign, hslots]
    split
    · rename_i hname
      simp [hname, hi, hlt, Slot.entry?]
    · rename_i hname
      rw [find?]
      cases hj : (t.search name).found with
      | none => rfl
      | some j =>
        have hji : i ≠ j := by
          rintro rfl
          obtain ⟨other, hother⟩ := search_found hj
          rw [hslot] at hother
          cases hother
          exact hname rfl
        simp [Array.getElem?_setIfInBounds_ne hji]

theorem assign_wellFormed (ht : t.WellFormed) (key : String) (value : α) :
    (t.assign key value).WellFormed := by
  cases hi : (t.search key).found with
  | none =>
    have hself : t.assign key value = t := by rw [assign, hi]
    rwa [hself]
  | some i =>
    obtain ⟨old, hslot⟩ := search_found hi
    have hassign : t.assign key value =
        { t with slots := t.slots.setIfInBounds i (.occupied key value) } := by rw [assign, hi]
    have hlength := (entries_set_perm (.occupied key value) hslot).length_eq
    simp only [Slot.entry?, Option.toList_some, List.singleton_append, List.length_cons,
      Nat.add_right_cancel_iff] at hlength
    refine ⟨?_, ?_, fun j name stored hj => ?_⟩
    · rw [hassign]
      simpa [capacity] using ht.capacity_eq
    · rw [hassign]
      exact ht.size_eq.trans hlength.symm
    · rw [search_assign]
      rw [hassign] at hj
      by_cases hji : j = i
      · subst hji
        have hlt := (Array.getElem?_eq_some_iff.1 hslot).1
        simp only [Array.getElem?_setIfInBounds, hlt, if_true, Option.some.injEq,
          Slot.occupied.injEq] at hj
        rw [← hj.1]
        exact hi
      · rw [Array.getElem?_setIfInBounds_ne (Ne.symm hji)] at hj
        exact ht.found j name stored hj

/-! ## Removal -/

theorem erase?_spec (ht : t.WellFormed) (h : t.erase? key = some t') :
    t'.WellFormed ∧ ∃ value, t.entries.Perm ((key, value) :: t'.entries) := by
  unfold erase? at h
  split at h
  · rename_i i hi
    cases h
    obtain ⟨value, hslot⟩ := search_found hi
    have hperm := (entries_set_perm .deleted hslot).symm
    refine ⟨⟨?_, ?_, ?_⟩, value, hperm⟩
    · simpa [capacity] using ht.capacity_eq
    · have hlength := hperm.length_eq
      simp only [Slot.entry?, Option.toList_none, List.nil_append, Option.toList_some,
        List.singleton_append, List.length_cons] at hlength
      rw [ht.size_eq, hlength, Nat.add_sub_cancel, entries]
    · intro j name value' hj
      have hji : j ≠ i := by
        rintro rfl
        have hlt := (Array.getElem?_eq_some_iff.1 hslot).1
        simp [hlt] at hj
      rw [Array.getElem?_setIfInBounds_ne (Ne.symm hji)] at hj
      have hfound := ht.found j name value' hj
      have hname : key ≠ name := by
        rintro rfl
        rw [hi] at hfound
        exact hji (Option.some.inj hfound).symm
      rw [search, Array.size_setIfInBounds, searchFrom_erase_other hname hslot]
      exact hfound
  · cases h

theorem erase?_eq_none_iff : t.erase? key = none ↔ t.find? key = none := by
  rw [← Option.not_isSome_iff_eq_none (o := t.find? key), ← contains_eq, erase?, contains]
  cases (t.search key).found <;> simp

/-- A lookup behind a removal. -/
theorem find?_erase? (ht : t.WellFormed) (h : t.erase? key = some t') (name : String) :
    t'.find? name = if name = key then none else t.find? name := by
  obtain ⟨ht', value, hperm⟩ := erase?_spec ht h
  have hfind := ht'.find?_of_perm_cons ht hperm name
  split
  · rename_i hname
    subst hname
    rw [ht'.find?_eq_none_iff]
    have hnodup := (hperm.map Prod.fst).nodup_iff.1 ht.keys_nodup
    rw [List.map_cons, List.nodup_cons] at hnodup
    exact hnodup.1
  · rename_i hname
    rw [hfind, if_neg hname]

end StackMachine.HashTable
