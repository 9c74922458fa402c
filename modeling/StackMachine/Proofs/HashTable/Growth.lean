import Mathlib.Algebra.Order.Field.Rat
import Mathlib.Data.Rat.Cast.Order
import Mathlib.Tactic.NormNum
import StackMachine.Proofs.HashTable.Call
import StackMachine.Proofs.HashTable.Rolling

/-!
# When tables with rolling probes grow

A table with rolling probes doubles on an insertion that finds it too full, once and at no other
time. A free slot is then on the chain of the key, whatever marks the removals have left, so the
loops that double again in search of one are never entered.

* `Call.run?_shape`: what a call does to the size, the capacity and the load factor.
* `Loaded`: how full a table can be; `Loaded.run?` is the step and `runAll?_loaded` the run.
* `runAll?_growth`: when the tables of a history grow, how full they are, and that its calls return.
-/

namespace StackMachine

namespace LoadFactor

/-- The load factor as a number. -/
def ratio (q : LoadFactor) : ℚ :=
  q.num / q.den

theorem exceeded_iff_ratio (q : LoadFactor) {size capacity : Nat} (hpos : 0 < capacity) :
    q.exceeded size capacity = true ↔ q.ratio < size / capacity := by
  have hden : (0 : ℚ) < q.den := by exact_mod_cast Nat.zero_lt_of_lt q.num_lt_den
  have hcapacity : (0 : ℚ) < capacity := by exact_mod_cast hpos
  rw [exceeded_iff, ratio, div_lt_div_iff₀ hden hcapacity]
  exact_mod_cast Iff.rfl

theorem eighth_le_ratio_iff (q : LoadFactor) : 1 / 8 ≤ q.ratio ↔ q.den ≤ 8 * q.num := by
  have hden : (0 : ℚ) < q.den := by exact_mod_cast Nat.zero_lt_of_lt q.num_lt_den
  rw [ratio, div_le_div_iff₀ (by norm_num) hden, one_mul, mul_comm (q.num : ℚ)]
  exact_mod_cast Iff.rfl

theorem le_ratio_mul_add_one_iff (q : LoadFactor) (size capacity : Nat) :
    (size : ℚ) ≤ q.ratio * capacity + 1 ↔ size * q.den ≤ q.num * capacity + q.den := by
  have hden : (0 : ℚ) < q.den := by exact_mod_cast Nat.zero_lt_of_lt q.num_lt_den
  rw [← mul_le_mul_iff_left₀ hden, ratio, add_mul, one_mul, div_mul_eq_mul_div,
    div_mul_cancel₀ _ hden.ne']
  exact_mod_cast Iff.rfl

end LoadFactor

namespace HashTable

open Probing

variable {α : Type} {t t' : HashTable rolling α} {limit : LoadFactor} {call : Call α}
  {answer : Answer α}

/-! ## Calls -/

/-- Whether a call leaves the growth test to the table. -/
def Call.Regular : Call α → Prop
  | insertUnder .. => False
  | _ => True

/-- Whether a call inserts a pair. -/
def Call.isInsert : Call α → Bool
  | insert .. | insertUnder .. => true
  | _ => false

/-- The capacity that a call leaves: an insertion into a table that is too full doubles it. -/
def Call.capacityAfter (call : Call α) (t : HashTable rolling α) : Nat :=
  if call.isInsert && t.limit.exceeded t.size t.capacity then 2 * t.capacity else t.capacity

/-- What an insertion does to the capacity, the load factor and the size. -/
theorem WellFormed.insert?_shape (ht : t.WellFormed) {key : String} {value : α} {isNew : Bool}
    (hinsert : t.insert? key value = some (isNew, t')) :
    t'.capacity = (if t.limit.exceeded t.size t.capacity then 2 * t.capacity else t.capacity) ∧
      t'.limit = t.limit ∧ t'.size ≤ t.size + 1 := by
  obtain ⟨t₁, h⟩ := ht.exists_inserts key value
  obtain ⟨hwf₁, hperm⟩ := expandUnder?_spec ht (h.expanded 0)
  have hsize : t₁.size = t.size := ht.size_of_perm hwf₁ hperm
  rw [insert?_eq_insertUnder?] at hinsert
  cases hfind : t.find? key with
  | some old =>
    rw [h.known (by rw [hfind]; rfl)] at hinsert
    cases hinsert
    exact ⟨h.capacity_eq, h.limit_eq, by omega⟩
  | none =>
    rcases Nat.lt_or_ge t.size (2 ^ 64) with hroom | hfull
    · obtain ⟨i, -, hoccupy⟩ := h.new hfind hroom
      rw [hoccupy] at hinsert
      cases hinsert
      exact ⟨Array.size_setIfInBounds.trans h.capacity_eq, h.limit_eq,
        (congrArg (· + 1) hsize).le⟩
    · rw [h.full hfind hfull] at hinsert
      cases hinsert

theorem assign_shape (t : HashTable rolling α) (key : String) (value : α) :
    (t.assign key value).capacity = t.capacity ∧ (t.assign key value).limit = t.limit ∧
      (t.assign key value).size = t.size := by
  unfold assign
  split
  · exact ⟨Array.size_setIfInBounds, rfl, rfl⟩
  · exact ⟨rfl, rfl, rfl⟩

theorem erase?_shape {key : String} (h : t.erase? key = some t') :
    t'.capacity = t.capacity ∧ t'.limit = t.limit ∧ t'.size ≤ t.size := by
  unfold erase? at h
  split at h
  · cases h
    exact ⟨Array.size_setIfInBounds, rfl, Nat.sub_le _ _⟩
  · cases h

/-- What a call does to the capacity, the load factor and the size. -/
theorem Call.run?_shape (ht : t.WellFormed) (hcall : call.Regular)
    (hrun : call.run? t = some (answer, t')) :
    t'.capacity = call.capacityAfter t ∧ t'.limit = t.limit ∧
      t'.size ≤ t.size + if call.isInsert then 1 else 0 := by
  cases call with
  | insert key value =>
    obtain ⟨⟨isNew, t₁⟩, hinsert, heq⟩ := Option.map_eq_some_iff.1 hrun
    cases heq
    exact ht.insert?_shape hinsert
  | insertUnder => exact hcall.elim
  | find key =>
    cases hrun
    exact ⟨rfl, rfl, Nat.le_refl _⟩
  | assign key value =>
    cases hrun
    obtain ⟨hcapacity, hlimit, hsize⟩ := t.assign_shape key value
    exact ⟨hcapacity, hlimit, hsize.le⟩
  | erase key =>
    rw [run?] at hrun
    split at hrun
    · rename_i herase
      cases hrun
      exact erase?_shape herase
    · cases hrun
      exact ⟨rfl, rfl, Nat.le_refl _⟩
  | entries =>
    cases hrun
    exact ⟨rfl, rfl, Nat.le_refl _⟩

theorem Call.exists_run? (ht : t.WellFormed) (hcall : call.Regular) (hroom : t.size < 2 ^ 64) :
    ∃ answer t', call.run? t = some (answer, t') := by
  cases call with
  | insert key value =>
    have hinsert : t.insert? key value ≠ none := fun h =>
      Nat.not_le.2 hroom ((ht.insert?_eq_none_iff value).1 h).2
    obtain ⟨⟨isNew, t'⟩, h⟩ := Option.ne_none_iff_exists'.1 hinsert
    exact ⟨.changed isNew, t', by rw [run?, h]; rfl⟩
  | insertUnder => exact hcall.elim
  | find | assign | entries => exact ⟨_, _, rfl⟩
  | erase key =>
    rw [run?]
    split <;> exact ⟨_, _, rfl⟩

/-! ## How full a table is -/

/-- A table in order with the given load factor, which is at most one pair above it if it is an
eighth or more. -/
structure Loaded (limit : LoadFactor) (t : HashTable rolling α) : Prop where
  wellFormed : t.WellFormed
  limit_eq : t.limit = limit
  load_le : limit.den ≤ 8 * limit.num →
    t.size * limit.den ≤ limit.num * t.capacity + limit.den

theorem loaded_withLimit (limit : LoadFactor) :
    Loaded limit (withLimit limit : HashTable rolling α) :=
  ⟨blank_wellFormed (n := 3) (by decide) limit, rfl, fun _ => by simp [withLimit, blank]⟩

namespace Loaded

theorem size_le (h : Loaded limit t) : t.size ≤ t.capacity :=
  h.wellFormed.size_le_reach.trans (Nat.min_le_left _ _)

theorem eight_le_capacity (h : Loaded limit t) : 8 ≤ t.capacity := by
  obtain ⟨n, hn, hcapacity⟩ := h.wellFormed.capacity_eq
  exact hcapacity ▸ Nat.pow_le_pow_right (n := 2) (i := 3) (by decide) hn

/-- A pair more is too much by at most one pair: either there was room for it, or the table has
doubled, and twice the load factor is a pair more when the load factor is an eighth. -/
theorem load_le_succ (h : Loaded limit t) (heighth : limit.den ≤ 8 * limit.num) :
    (t.size + 1) * limit.den ≤ limit.num *
      (if limit.exceeded t.size t.capacity then 2 * t.capacity else t.capacity) + limit.den := by
  have hload := h.load_le heighth
  have hcapacity : 8 * limit.num ≤ limit.num * t.capacity := by
    rw [Nat.mul_comm]
    exact Nat.mul_le_mul_left _ h.eight_le_capacity
  rw [Nat.succ_mul]
  split
  · rw [Nat.mul_left_comm]
    omega
  · rename_i hexceeded
    rw [LoadFactor.exceeded_iff] at hexceeded
    omega

theorem run? (h : Loaded limit t) (hcall : call.Regular)
    (hrun : call.run? t = some (answer, t')) : Loaded limit t' := by
  obtain ⟨hcapacity, hlimit, hsize⟩ := Call.run?_shape h.wellFormed hcall hrun
  have ht : t.Represents t.find? := ⟨h.wellFormed, fun _ => rfl⟩
  refine ⟨(Call.run?_represents ht hrun).2.wellFormed, hlimit.trans h.limit_eq, fun heighth => ?_⟩
  rw [Call.capacityAfter, h.limit_eq] at hcapacity
  rw [hcapacity]
  cases hinsert : call.isInsert with
  | true =>
    rw [hinsert, if_pos rfl] at hsize
    rw [Bool.true_and]
    exact (Nat.mul_le_mul_right _ hsize).trans (h.load_le_succ heighth)
  | false =>
    rw [hinsert, if_neg Bool.false_ne_true] at hsize
    exact (Nat.mul_le_mul_right _ hsize).trans (h.load_le heighth)

end Loaded

theorem runAll?_loaded {calls : List (Call α)} {answers : List (Answer α)}
    (h : Loaded limit t) (hcalls : ∀ call ∈ calls, call.Regular)
    (hrun : runAll? calls t = some (answers, t')) : Loaded limit t' := by
  induction calls generalizing t answers with
  | nil =>
    cases hrun
    exact h
  | cons call calls ih =>
    rw [runAll?, Option.bind_eq_some_iff] at hrun
    obtain ⟨⟨answer, t₁⟩, hcall, hrun⟩ := hrun
    obtain ⟨⟨rest, t₂⟩, hrest, heq⟩ := Option.map_eq_some_iff.1 hrun
    cases heq
    obtain ⟨hregular, hcalls⟩ := List.forall_mem_cons.1 hcalls
    exact ih (h.run? hregular hcall) hcalls hrest

/-- A history that does not return has come to a table with more pairs than words can count. -/
theorem exists_of_runAll?_eq_none {calls : List (Call α)} (h : Loaded limit t)
    (hcalls : ∀ call ∈ calls, call.Regular) (hrun : runAll? calls t = none) :
    ∃ before answers t', before <+: calls ∧ runAll? before t = some (answers, t') ∧
      2 ^ 64 ≤ t'.size := by
  induction calls generalizing t with
  | nil => cases hrun
  | cons call calls ih =>
    obtain ⟨hregular, hcalls⟩ := List.forall_mem_cons.1 hcalls
    by_cases hroom : t.size < 2 ^ 64
    · obtain ⟨answer, t₁, hcall⟩ := Call.exists_run? h.wellFormed hregular hroom
      rw [runAll?, hcall, Option.bind_some, Option.map_eq_none_iff] at hrun
      obtain ⟨before, answers, t', hprefix, hbefore, hfull⟩ :=
        ih (h.run? hregular hcall) hcalls hrun
      refine ⟨call :: before, answer :: answers, t', List.cons_prefix_cons.2 ⟨rfl, hprefix⟩, ?_,
        hfull⟩
      simp [runAll?, hcall, hbefore]
    · exact ⟨[], [], t, List.nil_prefix, rfl, Nat.not_lt.1 hroom⟩

/-! ## Histories -/

/-- A call doubles the capacity once if it is an insertion and the ratio of pairs and slots is above
the load factor on entry, and leaves it alone otherwise. -/
theorem Loaded.capacityAfter_eq (h : Loaded limit t) (call : Call α) :
    call.capacityAfter t = if call.isInsert ∧ limit.ratio < t.size / t.capacity
      then 2 * t.capacity else t.capacity := by
  have hpos : 0 < t.capacity := Nat.lt_of_lt_of_le (by decide) h.eight_le_capacity
  rw [Call.capacityAfter, h.limit_eq]
  simp only [Bool.and_eq_true, limit.exceeded_iff_ratio hpos]

/-- Tables with rolling probes grow only when they should.

A history that does not return has come to a table with more pairs than words can count. A table
that a history leaves has no more pairs than slots, and at most one pair above the load factor if
that is an eighth or more. As long as words can count its pairs, every further call returns, and
doubles the capacity if it inserts a pair and the ratio of pairs and slots is above the load
factor; otherwise the capacity stays. Without any further doubling, of this table or of those that
its pairs move into, an insertion finds a key that is there, or else a free slot for it. -/
theorem runAll?_growth (limit : LoadFactor) {calls : List (Call α)}
    (hcalls : ∀ call ∈ calls, call.Regular) :
    (runAll? calls (withLimit limit : HashTable rolling α) = none →
      ∃ before answers, ∃ t : HashTable rolling α, before <+: calls ∧
        runAll? before (withLimit limit) = some (answers, t) ∧ 2 ^ 64 ≤ t.size) ∧
    ∀ answers, ∀ t : HashTable rolling α,
      runAll? calls (withLimit limit) = some (answers, t) →
      t.size ≤ t.capacity ∧
      (1 / 8 ≤ limit.ratio → t.size ≤ limit.ratio * t.capacity + 1) ∧
      (t.size < 2 ^ 64 →
        (∀ call : Call α, call.Regular → ∃ answer t', call.run? t = some (answer, t') ∧
          t'.capacity = if call.isInsert ∧ limit.ratio < t.size / t.capacity
            then 2 * t.capacity else t.capacity) ∧
        ∀ key value, ∃ t₁, (∀ growths, t.expandUnder? limit.exceeded growths = some t₁) ∧
          (∀ growths, t.insertUnder? limit.exceeded growths key value = t.insert? key value) ∧
          ((t.find? key).isSome → t.insert? key value = some (false, t₁)) ∧
          (t.find? key = none → ∃ i, (t₁.search key).vacant = some i ∧
            t.insert? key value = some (true, t₁.occupy i key value))) := by
  refine ⟨exists_of_runAll?_eq_none (loaded_withLimit limit) hcalls, fun answers t hrun => ?_⟩
  have h : Loaded limit t := runAll?_loaded (loaded_withLimit limit) hcalls hrun
  refine ⟨h.size_le, fun heighth => ?_, fun hroom => ⟨fun call hcall => ?_, fun key value => ?_⟩⟩
  · exact (limit.le_ratio_mul_add_one_iff _ _).2
      (h.load_le (limit.eighth_le_ratio_iff.1 heighth))
  · obtain ⟨answer, t', hrun'⟩ := Call.exists_run? h.wellFormed hcall hroom
    have hcapacity := (Call.run?_shape h.wellFormed hcall hrun').1
    exact ⟨answer, t', hrun', hcapacity.trans (h.capacityAfter_eq call)⟩
  · obtain ⟨t₁, hinserts⟩ := h.wellFormed.exists_inserts key value
    obtain ⟨hexpanded, -, -, hknown, hnew, -⟩ := hinserts
    rw [h.limit_eq] at hexpanded hknown hnew
    rw [insert?_eq_insertUnder?, h.limit_eq]
    refine ⟨t₁, hexpanded, fun growths => ?_, fun hsome => hknown hsome _, fun habsent => ?_⟩
    · cases hfind : t.find? key with
      | some old =>
        have hsome : (t.find? key).isSome := by rw [hfind]; rfl
        rw [hknown hsome growths, hknown hsome maxGrowths]
      | none =>
        obtain ⟨i, -, hoccupy⟩ := hnew hfind hroom
        rw [hoccupy growths, hoccupy maxGrowths]
    · obtain ⟨i, hi, hoccupy⟩ := hnew habsent hroom
      exact ⟨i, hi, hoccupy maxGrowths⟩

/-- Seven pairs are more than three quarters of eight slots, so inserting a key that is there
doubles the table. -/
theorem runAll?_growth_present :
    let calls : List (Call Nat) := [.insert "a" 0, .insert "b" 1, .insert "c" 2, .insert "d" 3,
      .insert "e" 4, .insert "f" 5, .erase "c", .insert "c" 6, .insert "g" 7]
    (∀ call ∈ calls, call.Regular) ∧
    ∃ answers, ∃ t : HashTable rolling Nat,
      runAll? calls (withLimit .threeQuarters) = some (answers, t) ∧
      t.find? "a" = some 0 ∧ t.size = 7 ∧ t.capacity = 8 ∧ (t.size : ℚ) ≤ 3 / 4 * t.capacity + 1 ∧
      ∃ answer t', (Call.insert "a" 9).run? t = some (answer, t') ∧ t'.capacity = 16 := by
  intro calls
  have hcalls : ∀ call ∈ calls, call.Regular := by simp [calls, Call.Regular]
  have hshape : (runAll? calls (withLimit .threeQuarters : HashTable rolling Nat)).map
      (fun (_, t) => (t.find? "a", t.size, t.capacity)) = some (some 0, 7, 8) := by
    decide +kernel
  obtain ⟨⟨answers, t⟩, hrun, hshape⟩ := Option.map_eq_some_iff.1 hshape
  obtain ⟨hfind, hshape⟩ := Prod.mk.inj hshape
  obtain ⟨hsize, hcapacity⟩ := Prod.mk.inj hshape
  obtain ⟨-, hload, hfurther⟩ := (runAll?_growth .threeQuarters hcalls).2 answers t hrun
  have hratio : LoadFactor.threeQuarters.ratio = 3 / 4 := by
    norm_num [LoadFactor.ratio, LoadFactor.threeQuarters]
  rw [hratio] at hload hfurther
  obtain ⟨answer, t', hinsert, hdoubled⟩ :=
    (hfurther (hsize ▸ by decide)).1 (.insert "a" 9) trivial
  refine ⟨hcalls, answers, t, hrun, hfind, hsize, hcapacity, hload (by norm_num), answer, t',
    hinsert, ?_⟩
  rw [hdoubled, hsize, hcapacity, if_pos ⟨rfl, by norm_num⟩]

end HashTable

end StackMachine
