import Mathlib.Data.Set.Card
import StackMachine.Proofs.HashTable.Map

/-!
# Histories of a table

A table that any sequence of calls has made out of the empty one is a map from strings to values,
whatever the rule of probing, and whatever each growth test has decided. Chains may miss slots, so
that a table without a free slot on a chain grows in the middle of the growth of another.

* `Call.run?`: what a call does to a table; `Call.update` and `Call.Answers`: what it does to a map,
  and what it has to answer.
* `Represents`: a table in order that finds what a map holds; `Call.run?_represents` is the step and
  `runAll?_represents` the run.
* `runAll?_map`: every history answers like a map, and the size, the entries and the capacity of the
  table are what they should be.
-/

namespace StackMachine.HashTable

variable {α : Type} {probing : Probing}

/-- A call of an operation. -/
inductive Call (α : Type) where
  | insert (key : String) (value : α)
  /-- Insert a pair, with some other growth test before it, and another number of doublings after
  which the search for a free slot is given up. -/
  | insertUnder (test : Nat → Nat → Bool) (growths : Nat) (key : String) (value : α)
  | find (key : String)
  /-- Find a key, and give it a new value if it is there. -/
  | assign (key : String) (value : α)
  | erase (key : String)
  /-- List the live pairs. -/
  | entries

/-- What a call answers. -/
inductive Answer (α : Type) where
  /-- Whether the call has changed the table. -/
  | changed (b : Bool)
  /-- The value that was found. -/
  | value (v : Option α)
  | pairs (l : List (String × α))

/-- The answer of a call, and the table that it leaves; `none` if it does not return. -/
def Call.run? : Call α → HashTable probing α → Option (Answer α × HashTable probing α)
  | insert key value, t => (t.insert? key value).map fun (isNew, t) => (.changed isNew, t)
  | insertUnder test growths key value, t =>
    (t.insertUnder? test growths key value).map fun (isNew, t) => (.changed isNew, t)
  | find key, t => some (.value (t.find? key), t)
  | assign key value, t => some (.value (t.find? key), t.assign key value)
  | erase key, t =>
    match t.erase? key with
    | some t => some (.changed true, t)
    | none => some (.changed false, t)
  | entries, t => some (.pairs t.entries, t)

/-- The answers of calls in order, and the table that they leave. -/
def runAll? : List (Call α) → HashTable probing α → Option (List (Answer α) × HashTable probing α)
  | [], t => some ([], t)
  | call :: calls, t =>
    (call.run? t).bind fun (answer, t) =>
      (runAll? calls t).map fun (answers, t) => (answer :: answers, t)

/-! ## Maps -/

/-- The map without keys. -/
def noKeys (α : Type) : String → Option α :=
  fun _ => none

/-- What a call does to a map: a key that is there keeps its value when it is inserted. -/
def Call.update : Call α → (String → Option α) → String → Option α
  | insert key value, map | insertUnder _ _ key value, map =>
    if (map key).isSome then map else Function.update map key (some value)
  | assign key value, map => Function.update map key ((map key).map fun _ => value)
  | erase key, map => Function.update map key none
  | find _, map => map
  | entries, map => map

/-- The answers that a call can give in view of a map: an insertion tells whether the key was
absent, a removal whether it was there, and a list of the pairs has each of them exactly once. -/
def Call.Answers (map : String → Option α) : Call α → Answer α → Prop
  | insert key _, answer | insertUnder _ _ key _, answer => answer = .changed (map key).isNone
  | find key, answer => answer = .value (map key)
  | assign key _, answer => answer = .value (map key)
  | erase key, answer => answer = .changed (map key).isSome
  | entries, answer => ∃ pairs, answer = .pairs pairs ∧ (pairs.map Prod.fst).Nodup ∧
      ∀ key value, (key, value) ∈ pairs ↔ map key = some value

/-- The answers that calls can give one after the other. -/
def AnswersAll : (String → Option α) → List (Call α) → List (Answer α) → Prop
  | _, [], answers => answers = []
  | map, call :: calls, answers => ∃ answer rest, answers = answer :: rest ∧
      call.Answers map answer ∧ AnswersAll (call.update map) calls rest

/-- What calls do to a map one after the other. -/
def updateAll (calls : List (Call α)) (map : String → Option α) : String → Option α :=
  calls.foldl (fun map call => call.update map) map

/-! ## Tables that stand for maps -/

/-- A table in order that finds what a map holds. -/
structure Represents (t : HashTable probing α) (map : String → Option α) : Prop where
  wellFormed : t.WellFormed
  find? : ∀ key, t.find? key = map key

variable {t t' : HashTable probing α} {map : String → Option α}

theorem represents_blank (limit : LoadFactor) :
    (withLimit limit : HashTable probing α).Represents (noKeys α) :=
  ⟨blank_wellFormed (n := 3) (by decide) limit, find?_blank (n := 3) (by decide) limit⟩

namespace Represents

theorem mem_entries_iff (h : t.Represents map) (key : String) (value : α) :
    (key, value) ∈ t.entries ↔ map key = some value := by
  rw [← h.find? key, h.wellFormed.find?_eq_some_iff]

/-- A table has as many pairs as its map has keys. -/
theorem size_eq (h : t.Represents map) : t.size = {key | (map key).isSome}.ncard := by
  have hkeys : {key | (map key).isSome} = {key | key ∈ t.entries.map Prod.fst} := by
    ext key
    rw [Set.mem_ofPred_eq, Set.mem_ofPred_eq, ← h.find? key, ← not_iff_not,
      ← h.wellFormed.find?_eq_none_iff, Option.not_isSome_iff_eq_none]
  rw [hkeys, ← List.coe_toFinset, Set.ncard_coe_finset,
    List.toFinset_card_of_nodup h.wellFormed.keys_nodup, List.length_map, h.wellFormed.size_eq]

theorem insertUnder? {test : Nat → Nat → Bool} {growths : Nat} {key : String} {value : α}
    {isNew : Bool} (h : t.Represents map)
    (hinsert : t.insertUnder? test growths key value = some (isNew, t')) :
    isNew = (map key).isNone ∧
      t'.Represents (if (map key).isSome then map else Function.update map key (some value)) := by
  obtain ⟨hwf, hspec⟩ := insertUnder?_spec h.wellFormed hinsert
  rw [h.find? key] at hspec
  cases isNew with
  | true =>
    obtain ⟨habsent, hperm⟩ := hspec
    rw [habsent]
    refine ⟨rfl, hwf, fun name => ?_⟩
    rw [h.wellFormed.find?_of_perm_cons hwf hperm, h.find? name]
    simp [Function.update_apply]
  | false =>
    obtain ⟨hsome, hperm⟩ := hspec
    rw [if_pos hsome]
    refine ⟨?_, hwf, fun name => ?_⟩
    · cases hmap : map key with
      | none => rw [hmap] at hsome; cases hsome
      | some _ => rfl
    · rw [h.wellFormed.find?_of_perm hwf hperm, h.find? name]

theorem assign (h : t.Represents map) (key : String) (value : α) :
    (t.assign key value).Represents (Function.update map key ((map key).map fun _ => value)) := by
  refine ⟨assign_wellFormed h.wellFormed key value, fun name => ?_⟩
  rw [find?_assign, h.find? key, h.find? name, Function.update_apply]

theorem erase? {key : String} (h : t.Represents map) (herase : t.erase? key = some t') :
    (map key).isSome ∧ t'.Represents (Function.update map key none) := by
  refine ⟨?_, (erase?_spec h.wellFormed herase).1, fun name => ?_⟩
  · rw [Option.isSome_iff_ne_none, ← h.find? key, Ne, ← erase?_eq_none_iff, herase]
    exact Option.some_ne_none t'
  · rw [find?_erase? h.wellFormed herase, h.find? name, Function.update_apply]

/-- A key that is not there is not removed. -/
theorem erase?_eq_none {key : String} (h : t.Represents map) (herase : t.erase? key = none) :
    map key = none := by
  rw [← h.find? key]
  exact erase?_eq_none_iff.1 herase

end Represents

/-! ## Runs -/

/-- A call that returns answers like a map. -/
theorem Call.run?_represents (h : t.Represents map) {call : Call α} {answer : Answer α}
    (hrun : call.run? t = some (answer, t')) :
    call.Answers map answer ∧ t'.Represents (call.update map) := by
  cases call with
  | insert key value =>
    obtain ⟨⟨isNew, t₁⟩, hinsert, heq⟩ := Option.map_eq_some_iff.1 hrun
    cases heq
    rw [insert?_eq_insertUnder?] at hinsert
    obtain ⟨hnew, ht'⟩ := h.insertUnder? hinsert
    exact ⟨congrArg Answer.changed hnew, ht'⟩
  | insertUnder test growths key value =>
    obtain ⟨⟨isNew, t₁⟩, hinsert, heq⟩ := Option.map_eq_some_iff.1 hrun
    cases heq
    obtain ⟨hnew, ht'⟩ := h.insertUnder? hinsert
    exact ⟨congrArg Answer.changed hnew, ht'⟩
  | find key =>
    cases hrun
    exact ⟨congrArg Answer.value (h.find? key), h⟩
  | assign key value =>
    cases hrun
    exact ⟨congrArg Answer.value (h.find? key), h.assign key value⟩
  | erase key =>
    rw [run?] at hrun
    split at hrun
    · rename_i t₁ herase
      cases hrun
      obtain ⟨hsome, ht'⟩ := h.erase? herase
      exact ⟨congrArg Answer.changed hsome.symm, ht'⟩
    · rename_i herase
      cases hrun
      have habsent := h.erase?_eq_none herase
      refine ⟨?_, ?_⟩
      · rw [Answers, habsent]
        rfl
      · rwa [update, Function.update_eq_self_iff.2 habsent.symm]
  | entries =>
    cases hrun
    exact ⟨⟨t.entries, rfl, h.wellFormed.keys_nodup, h.mem_entries_iff⟩, h⟩

/-- Calls that return answer like a map, one after the other. -/
theorem runAll?_represents (h : t.Represents map) {calls : List (Call α)}
    {answers : List (Answer α)} (hrun : runAll? calls t = some (answers, t')) :
    AnswersAll map calls answers ∧ t'.Represents (updateAll calls map) := by
  induction calls generalizing t map answers with
  | nil =>
    cases hrun
    exact ⟨rfl, h⟩
  | cons call calls ih =>
    rw [runAll?, Option.bind_eq_some_iff] at hrun
    obtain ⟨⟨answer, t₁⟩, hcall, hrun⟩ := hrun
    obtain ⟨⟨rest, t₂⟩, hrest, heq⟩ := Option.map_eq_some_iff.1 hrun
    cases heq
    obtain ⟨hanswer, ht₁⟩ := Call.run?_represents h hcall
    obtain ⟨hanswers, ht'⟩ := ih ht₁ hrest
    exact ⟨⟨answer, rest, rfl, hanswer, hanswers⟩, ht'⟩

/-- A table is a map under any rule of probing and any growth tests. As long as the calls return,
they answer like the map that they make out of the one without keys: an insertion tells whether the
key was absent and keeps the value of one that is there, a search finds the live value, a removal
tells whether the key was there, and a list has every live pair once. The table behind them finds
what the map holds, its size is the number of live keys, and its capacity is a power of two, eight
or more. -/
theorem runAll?_map (probing : Probing) (limit : LoadFactor) {calls : List (Call α)}
    {answers : List (Answer α)} {t : HashTable probing α}
    (h : runAll? calls (withLimit limit) = some (answers, t)) :
    AnswersAll (noKeys α) calls answers ∧
      (∀ key, t.find? key = updateAll calls (noKeys α) key) ∧
      t.size = {key | (updateAll calls (noKeys α) key).isSome}.ncard ∧
      ∃ n, 3 ≤ n ∧ t.capacity = 2 ^ n := by
  obtain ⟨hanswers, ht⟩ := runAll?_represents (represents_blank limit) h
  exact ⟨hanswers, ht.find?, ht.size_eq, ht.wellFormed.capacity_eq⟩

/-- A rule whose chains, from the first slot on, miss every second of eight slots and reach only two
of sixteen. -/
def gappy : Probing where
  home _ _ := 0
  next previous _ capacity :=
    (previous + if capacity = 8 then 2 else if capacity = 16 then 8 else 1) % capacity

/-- The fifth key finds no free slot among eight, and the third of those that move finds none among
sixteen. -/
theorem runAll?_map_gappy :
    let calls : List (Call Nat) := [.insert "a" 0, .insert "b" 1, .insert "c" 2, .insert "d" 3,
      .erase "b", .insertUnder (fun _ _ => false) 2 "e" 4, .insert "f" 5, .assign "a" 9,
      .insert "a" 7, .entries]
    ∃ answers, ∃ t : HashTable gappy Nat,
      runAll? calls (withLimit .threeQuarters) = some (answers, t) ∧ t.capacity = 32 ∧
      AnswersAll (noKeys Nat) calls answers ∧ t.find? "a" = some 9 ∧ t.find? "b" = none := by
  intro calls
  have hcapacity : (runAll? calls (withLimit .threeQuarters : HashTable gappy Nat)).map
      (fun outcome => outcome.2.capacity) = some 32 := by decide +kernel
  obtain ⟨⟨answers, t⟩, hrun, ht⟩ := Option.map_eq_some_iff.1 hcapacity
  obtain ⟨hanswers, hfind, -⟩ := runAll?_map gappy .threeQuarters hrun
  exact ⟨answers, t, hrun, ht, hanswers, (hfind "a").trans (by decide +kernel),
    (hfind "b").trans (by decide +kernel)⟩

end StackMachine.HashTable
