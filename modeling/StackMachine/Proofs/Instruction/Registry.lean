import Mathlib.Data.List.Nodup
import Mathlib.Data.List.Perm.Subperm
import Mathlib.Data.List.Range
import StackMachine.Instruction.Standard

/-!
# Registries that registration builds

Registration keeps opcodes apart, and mnemonics with their operands too, so that both lookups have
one definition to tell.

* `Built`: the registries that come from the empty one by accepted registrations.
* `Consistent.mem_of_byOpcode?`, `Consistent.byOpcode?_of_mem`: the index of opcodes names exactly the
  definitions of the registry. A place always fits in the byte that the index has for it, since
  there are no more opcodes than bytes.
* `Consistent.bySignature?_eq_some_iff`: the lookup by mnemonic and operands tells the one
  definition that matches.
* `Built.consistent`: registration keeps all of this true.
-/

namespace StackMachine.Registry

/-- The registries that registration builds. -/
inductive Built : Registry → Prop
  | empty : Built empty
  | register {r r' : Registry} {d : Definition} :
      Built r → r.register d = .ok r' → Built r'

/-- What registration keeps true. -/
structure Consistent (r : Registry) : Prop where
  size_le : r.definitions.size ≤ 256
  /-- The index has the place of every definition. -/
  index_of_place : ∀ (i : Nat) (d : Definition), r.definitions[i]? = some d →
    r.index[d.opcode.toNat]? = some (some (UInt8.ofNat i))
  /-- Each entry of the index is the place of a definition with that opcode. -/
  place_of_index : ∀ (opcode place : UInt8), r.index[opcode.toNat]? = some (some place) →
    ∃ d, r.definitions[place.toNat]? = some d ∧ d.opcode = opcode
  signature_inj : ∀ (i j : Nat) (d e : Definition), r.definitions[i]? = some d →
    r.definitions[j]? = some e → d.mnemonic = e.mnemonic → d.operands = e.operands → i = j

theorem mem_toList {r : Registry} {d : Definition} :
    d ∈ r.toList ↔ ∃ i : Nat, r.definitions[i]? = some d := by
  simp only [toList, List.mem_iff_getElem?, Array.getElem?_toList]

namespace Consistent

variable {r : Registry} {d : Definition}

theorem place_lt (h : r.Consistent) {i : Nat} (hi : r.definitions[i]? = some d) : i < 256 :=
  (Array.getElem?_eq_some_iff.1 hi).1.trans_le h.size_le

theorem byOpcode?_of_mem (h : r.Consistent) (hd : d ∈ r.toList) :
    r.byOpcode? d.opcode = some d := by
  obtain ⟨i, hi⟩ := mem_toList.1 hd
  have hplace : (UInt8.ofNat i).toNat = i := by
    rw [UInt8.toNat_ofNat', Nat.mod_eq_of_lt (h.place_lt hi)]
  simp [byOpcode?, h.index_of_place i d hi, hplace, hi]

theorem mem_of_byOpcode? (h : r.Consistent) {opcode : UInt8} (hd : r.byOpcode? opcode = some d) :
    d ∈ r.toList ∧ d.opcode = opcode := by
  unfold byOpcode? at hd
  simp only [Option.bind_eq_bind, Option.bind_eq_some_iff] at hd
  obtain ⟨entry, hentry, place, rfl, hplace⟩ := hd
  obtain ⟨e, he, hopcode⟩ := h.place_of_index opcode place hentry
  rw [hplace] at he
  cases he
  exact ⟨mem_toList.2 ⟨_, hplace⟩, hopcode⟩

/-- The places of distinct definitions hold distinct opcodes, of which there are 256. -/
theorem size_lt (h : r.Consistent) {opcode : UInt8} (hnew : r.byOpcode? opcode = none) :
    r.definitions.size < 256 := by
  have hinj (i j : Nat) (hi : i < r.definitions.size) (hj : j < r.definitions.size)
      (heq : r.definitions[i].opcode = r.definitions[j].opcode) : i = j := by
    have hi' := h.index_of_place i _ (Array.getElem?_eq_getElem hi)
    have hj' := h.index_of_place j _ (Array.getElem?_eq_getElem hj)
    rw [heq, hj', Option.some.injEq, Option.some.injEq] at hi'
    have := congrArg UInt8.toNat hi'
    have := h.size_le
    simp only [UInt8.toNat_ofNat'] at *
    omega
  have hnodup : (opcode.toNat :: r.toList.map fun d => d.opcode.toNat).Nodup := by
    rw [List.nodup_cons]
    constructor
    · intro hmem
      obtain ⟨d, hd, hop⟩ := List.mem_map.1 hmem
      have hfound := h.byOpcode?_of_mem hd
      rw [UInt8.toNat_inj.1 hop, hnew] at hfound
      cases hfound
    · rw [List.nodup_iff_pairwise_ne, List.pairwise_map, List.pairwise_iff_getElem]
      intro i j hi hj hij heq
      have := hinj i j (by simpa [toList] using hi) (by simpa [toList] using hj)
        (UInt8.toNat_inj.1 heq)
      omega
  have hrange : (opcode.toNat :: r.toList.map fun d => d.opcode.toNat) ⊆ List.range 256 := by
    intro n hn
    rw [List.mem_range]
    rcases List.mem_cons.1 hn with rfl | hn
    · exact opcode.toNat_lt
    · obtain ⟨d, -, rfl⟩ := List.mem_map.1 hn
      exact d.opcode.toNat_lt
  have hlength := (List.subperm_of_subset hnodup hrange).length_le
  simp only [List.length_cons, List.length_map, List.length_range, toList,
    Array.length_toList] at hlength
  omega

theorem bySignature?_eq_some_iff (h : r.Consistent) {mnemonic : String}
    {operands : List OperandKind} : r.bySignature? mnemonic operands = some d ↔
      d ∈ r.toList ∧ d.mnemonic = mnemonic ∧ d.operands = operands := by
  unfold bySignature?
  constructor
  · intro hd
    have hmatch := Array.find?_some hd
    simp only [Bool.and_eq_true, beq_iff_eq] at hmatch
    exact ⟨Array.mem_toList_iff.2 (Array.mem_of_find?_eq_some hd), hmatch⟩
  · rintro ⟨hmem, rfl, rfl⟩
    cases hfound : r.definitions.find? _ with
    | none =>
      rw [Array.find?_eq_none] at hfound
      exact absurd (by simp) (hfound d (Array.mem_toList_iff.1 hmem))
    | some e =>
      have hmatch := Array.find?_some hfound
      simp only [Bool.and_eq_true, beq_iff_eq] at hmatch
      obtain ⟨i, hi⟩ := mem_toList.1 hmem
      obtain ⟨j, hj⟩ := mem_toList.1
        (Array.mem_toList_iff.2 (Array.mem_of_find?_eq_some hfound))
      have := h.signature_inj j i e d hj hi hmatch.1 hmatch.2
      subst this
      exact hj.symm.trans hi

theorem empty : Registry.empty.Consistent := by
  refine ⟨Nat.zero_le _, ?_, ?_, ?_⟩
  · intro i d hi
    simp [Registry.empty] at hi
  · intro opcode place h
    simp only [Registry.empty, Vector.getElem?_replicate] at h
    split at h <;> cases h
  · intro i j d e hi
    simp [Registry.empty] at hi

theorem register (h : r.Consistent) {r' : Registry} (hr : r.register d = .ok r') :
    r'.Consistent := by
  unfold Registry.register at hr
  split at hr
  · cases hr
  rename_i hopcode
  split at hr
  · cases hr
  rename_i hsignature
  cases hr
  have hlt := h.size_lt hopcode
  have hnew (i : Nat) (e : Definition) (hi : r.definitions[i]? = some e) :
      e.opcode ≠ d.opcode := by
    intro heq
    have hfound := h.byOpcode?_of_mem (mem_toList.2 ⟨i, hi⟩)
    rw [heq, hopcode] at hfound
    cases hfound
  have hunlike (i : Nat) (e : Definition) (hi : r.definitions[i]? = some e) :
      ¬ (e.mnemonic = d.mnemonic ∧ e.operands = d.operands) := by
    intro heq
    have hfound := h.bySignature?_eq_some_iff.2 ⟨mem_toList.2 ⟨i, hi⟩, heq.1, heq.2⟩
    rw [hsignature] at hfound
    cases hfound
  refine ⟨?_, ?_, ?_, ?_⟩
  · rw [Array.size_push]
    exact hlt
  · intro i e hi
    rw [Array.getElem?_push] at hi
    split at hi
    · rename_i hi'
      cases hi
      subst hi'
      simp [d.opcode.toNat_lt]
    · have hne : d.opcode.toNat ≠ e.opcode.toNat :=
        fun heq => hnew i e hi (UInt8.toNat_inj.1 heq.symm)
      rw [Vector.getElem?_setIfInBounds_ne hne]
      exact h.index_of_place i e hi
  · intro opcode place hplace
    by_cases heq : d.opcode = opcode
    · subst heq
      simp only [Vector.getElem?_setIfInBounds, d.opcode.toNat_lt, if_true,
        Option.some.injEq] at hplace
      refine ⟨d, ?_, rfl⟩
      rw [← hplace, UInt8.toNat_ofNat', Nat.mod_eq_of_lt hlt]
      simp
    · rw [Vector.getElem?_setIfInBounds_ne fun h => heq (UInt8.toNat_inj.1 h)] at hplace
      obtain ⟨e, he, hop⟩ := h.place_of_index opcode place hplace
      refine ⟨e, ?_, hop⟩
      rw [Array.getElem?_push_lt (Array.getElem?_eq_some_iff.1 he).1]
      exact (Array.getElem?_eq_getElem _).symm.trans he
  · intro i j a b hi hj hmnemonic hoperands
    rw [Array.getElem?_push] at hi hj
    split at hi <;> split at hj
    · rename_i hi' hj'
      rw [hi', hj']
    · cases hi
      exact absurd ⟨hmnemonic.symm, hoperands.symm⟩ (hunlike j b hj)
    · cases hj
      exact absurd ⟨hmnemonic, hoperands⟩ (hunlike i a hi)
    · exact h.signature_inj i j a b hi hj hmnemonic hoperands

end Consistent

/-! ## Registries built by registration -/

theorem Built.consistent {r : Registry} (h : r.Built) : r.Consistent := by
  induction h with
  | empty => exact .empty
  | register _ hr ih => exact ih.register hr

theorem Built.registerAll {r : Registry} (h : r.Built) (ds : List Definition) :
    (r.registerAll ds).Built := by
  induction ds generalizing r with
  | nil => exact h
  | cons d ds ih =>
    rw [Registry.registerAll, List.foldl_cons]
    apply ih
    cases hr : r.register d with
    | error e => exact h
    | ok r' => exact .register h hr

theorem mem_toList_of_register {r r' : Registry} {d e : Definition} (hr : r.register d = .ok r')
    (h : e ∈ r'.toList) : e ∈ r.toList ∨ e = d := by
  unfold Registry.register at hr
  split at hr
  · cases hr
  split at hr
  · cases hr
  cases hr
  simpa [toList] using h

/-- Every definition in a registry was there before, or is one of those that were offered. -/
theorem mem_of_mem_registerAll {r : Registry} {ds : List Definition} {d : Definition}
    (h : d ∈ (r.registerAll ds).toList) : d ∈ r.toList ∨ d ∈ ds := by
  induction ds generalizing r with
  | nil => exact .inl h
  | cons e ds ih =>
    rw [Registry.registerAll, List.foldl_cons] at h
    rcases ih h with h | h
    · cases hr : r.register e with
      | error error =>
        rw [hr] at h
        exact .inl h
      | ok r' =>
        rw [hr] at h
        rcases mem_toList_of_register hr h with h | rfl
        · exact .inl h
        · exact .inr List.mem_cons_self
    · exact .inr (List.mem_cons_of_mem _ h)

theorem mem_standard {d : Definition} (h : d ∈ standard.toList) : d ∈ Definition.standard := by
  rcases mem_of_mem_registerAll h with h | h
  · cases h
  · exact h

theorem standard_built : standard.Built :=
  Built.empty.registerAll _

end StackMachine.Registry
