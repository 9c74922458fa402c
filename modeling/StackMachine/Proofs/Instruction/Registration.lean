import StackMachine.Proofs.Instruction.Registry

/-!
# Histories of registrations

A registry is told by the definitions that were offered to it. One is kept if it has neither the
opcode, nor the mnemonic and operands, of one that was kept before; a refused one leaves no trace.

* `Conflict`: definitions that cannot stand in one registry.
* `kept`: what is kept of a list of definitions, behind some that stand already.
* `Consistent.register_eq_error_iff`: a definition is refused for a conflict, and only for one.
* `Consistent.toList_registerAll`: the definitions of a registry are those that were kept, in order.
* `registerAll_history`: what the look-ups, the index of opcodes and the next registration answer
  behind any history.
-/

namespace StackMachine.Registry

/-- Definitions that cannot stand in one registry: they share the opcode, or the mnemonic and the
operands. -/
def Conflict (d e : Definition) : Prop :=
  d.opcode = e.opcode ∨ d.mnemonic = e.mnemonic ∧ d.operands = e.operands

instance (d e : Definition) : Decidable (Conflict d e) :=
  inferInstanceAs (Decidable (_ ∨ _))

/-- The definitions that are kept of those that are offered in order, behind some that stand
already: each that has no conflict with the ones before it. -/
def kept (standing : List Definition) : List Definition → List Definition
  | [] => []
  | d :: ds =>
    if ∃ e ∈ standing, Conflict d e then kept standing ds
    else d :: kept (standing ++ [d]) ds

theorem kept_sublist (standing ds : List Definition) : (kept standing ds).Sublist ds := by
  induction ds generalizing standing with
  | nil => exact .slnil
  | cons d ds ih =>
    rw [kept]
    split
    · exact (ih standing).cons d
    · exact (ih (standing ++ [d])).cons_cons d

/-! ## One registration -/

namespace Consistent

variable {r r' : Registry} {d e : Definition}

theorem byOpcode?_eq_some_iff (h : r.Consistent) {opcode : UInt8} :
    r.byOpcode? opcode = some d ↔ d ∈ r.toList ∧ d.opcode = opcode := by
  refine ⟨h.mem_of_byOpcode?, ?_⟩
  rintro ⟨hmem, rfl⟩
  exact h.byOpcode?_of_mem hmem

/-- The index of opcodes has the place of a definition among all of them, whole. -/
theorem index_eq (h : r.Consistent) {place : Nat} (hd : r.toList[place]? = some d) :
    ∃ entry : UInt8, r.index[d.opcode.toNat]? = some (some entry) ∧ entry.toNat = place := by
  rw [toList, Array.getElem?_toList] at hd
  refine ⟨UInt8.ofNat place, h.index_of_place place d hd, ?_⟩
  rw [UInt8.toNat_ofNat', Nat.mod_eq_of_lt (h.place_lt hd)]

theorem entry_lt (h : r.Consistent) {opcode entry : UInt8}
    (hentry : r.index[opcode.toNat]? = some (some entry)) : entry.toNat < r.size := by
  obtain ⟨d, hd, -⟩ := h.place_of_index opcode entry hentry
  exact (Array.getElem?_eq_some_iff.1 hd).1

/-- An opcode that is taken is told first, with the mnemonic that has it. -/
theorem register_of_opcode (h : r.Consistent) (he : e ∈ r.toList) (hopcode : d.opcode = e.opcode) :
    r.register d = .error (.duplicateOpcode d.opcode d.mnemonic e.mnemonic) := by
  have hfound := h.byOpcode?_of_mem he
  rw [← hopcode] at hfound
  unfold Registry.register
  rw [hfound]

/-- A mnemonic that is taken with the same operands is told where the opcode is free. -/
theorem register_of_signature (h : r.Consistent) (hfree : ∀ e ∈ r.toList, d.opcode ≠ e.opcode)
    (he : e ∈ r.toList) (hsame : d.mnemonic = e.mnemonic ∧ d.operands = e.operands) :
    r.register d = .error (.duplicateSignature d.mnemonic d.operands) := by
  have hopcode : r.byOpcode? d.opcode = none := by
    rw [Option.eq_none_iff_forall_ne_some]
    intro found hfound
    obtain ⟨hmem, heq⟩ := h.mem_of_byOpcode? hfound
    exact hfree found hmem heq.symm
  have hsignature := h.bySignature?_eq_some_iff.2 ⟨he, hsame.1.symm, hsame.2.symm⟩
  unfold Registry.register
  rw [hopcode, hsignature]

/-- A definition without a conflict takes the place behind all others. -/
theorem register_of_new (h : r.Consistent) (hnew : ∀ e ∈ r.toList, ¬ Conflict d e) :
    ∃ r', r.register d = .ok r' ∧ r'.toList = r.toList ++ [d] := by
  have hopcode : r.byOpcode? d.opcode = none := by
    rw [Option.eq_none_iff_forall_ne_some]
    intro found hfound
    obtain ⟨hmem, heq⟩ := h.mem_of_byOpcode? hfound
    exact hnew found hmem (.inl heq.symm)
  have hsignature : r.bySignature? d.mnemonic d.operands = none := by
    rw [Option.eq_none_iff_forall_ne_some]
    intro found hfound
    obtain ⟨hmem, hmnemonic, hoperands⟩ := h.bySignature?_eq_some_iff.1 hfound
    exact hnew found hmem (.inr ⟨hmnemonic.symm, hoperands.symm⟩)
  unfold Registry.register
  rw [hopcode, hsignature]
  exact ⟨_, rfl, by simp [toList]⟩

theorem register_eq_error_iff (h : r.Consistent) :
    (∃ refusal, r.register d = .error refusal) ↔ ∃ e ∈ r.toList, Conflict d e := by
  constructor
  · rintro ⟨refusal, hrefusal⟩
    by_contra hnone
    push Not at hnone
    obtain ⟨r', hr', -⟩ := h.register_of_new hnone
    rw [hr'] at hrefusal
    cases hrefusal
  · rintro ⟨e, he, hconflict⟩
    by_cases htaken : ∃ e ∈ r.toList, d.opcode = e.opcode
    · obtain ⟨e, he, hopcode⟩ := htaken
      exact ⟨_, h.register_of_opcode he hopcode⟩
    · push Not at htaken
      exact ⟨_, h.register_of_signature htaken he (hconflict.resolve_left (htaken e he))⟩

theorem toList_register (h : r.Consistent) (hr : r.register d = .ok r') :
    r'.toList = r.toList ++ [d] := by
  have hnew : ∀ e ∈ r.toList, ¬ Conflict d e := by
    intro e he hconflict
    obtain ⟨refusal, hrefusal⟩ := h.register_eq_error_iff.2 ⟨e, he, hconflict⟩
    rw [hr] at hrefusal
    cases hrefusal
  obtain ⟨r'', hr'', htoList⟩ := h.register_of_new hnew
  rw [hr] at hr''
  cases hr''
  exact htoList

/-! ## Any number of registrations -/

theorem toList_registerAll (h : r.Consistent) (ds : List Definition) :
    (r.registerAll ds).toList = r.toList ++ kept r.toList ds := by
  induction ds generalizing r with
  | nil => exact (List.append_nil _).symm
  | cons d ds ih =>
    rw [registerAll, List.foldl_cons, kept]
    by_cases hconflict : ∃ e ∈ r.toList, Conflict d e
    · obtain ⟨refusal, hrefusal⟩ := h.register_eq_error_iff.2 hconflict
      rw [if_pos hconflict, hrefusal]
      exact ih h
    · have hnew : ∀ e ∈ r.toList, ¬ Conflict d e := by
        push Not at hconflict
        exact hconflict
      obtain ⟨r', hr', htoList⟩ := h.register_of_new hnew
      rw [if_neg hconflict, hr', List.append_cons, ← htoList]
      exact ih (h.register hr')

/-- No two definitions of a registry conflict. -/
theorem pairwise (h : r.Consistent) : r.toList.Pairwise fun d e => ¬ Conflict d e := by
  rw [List.pairwise_iff_getElem]
  intro i j hi hj hij hconflict
  have hi' : r.toList[i]? = some r.toList[i] := List.getElem?_eq_getElem hi
  have hj' : r.toList[j]? = some r.toList[j] := List.getElem?_eq_getElem hj
  rcases hconflict with hopcode | ⟨hmnemonic, hoperands⟩
  · obtain ⟨entry, hentry, rfl⟩ := h.index_eq hi'
    obtain ⟨entry', hentry', rfl⟩ := h.index_eq hj'
    rw [hopcode, hentry', Option.some.injEq, Option.some.injEq] at hentry
    subst hentry
    exact Nat.lt_irrefl _ hij
  · have := h.signature_inj i j _ _ (Array.getElem?_toList.symm.trans hi')
      (Array.getElem?_toList.symm.trans hj') hmnemonic hoperands
    omega

end Consistent

theorem registerAll_concat (r : Registry) (ds : List Definition) (d : Definition) :
    r.registerAll (ds ++ [d]) =
      ((r.registerAll ds).register d).toOption.getD (r.registerAll ds) := by
  rw [registerAll, registerAll, List.foldl_append]
  rfl

/-- Behind any history of registrations, accepted or refused: the registry has the definitions that
were kept, in the order of their registration, and no two of them conflict. Either look-up tells
exactly the definition that has what is asked for, so that both find each definition again; the
index of opcodes has every place whole. The next definition is refused exactly for a conflict, and
then the registry stays as it is. -/
theorem registerAll_history (ds : List Definition) :
    let r := empty.registerAll ds
    r.toList = kept [] ds ∧ (kept [] ds).Sublist ds ∧
    (r.toList.Pairwise fun d e =>
      d.opcode ≠ e.opcode ∧ ¬ (d.mnemonic = e.mnemonic ∧ d.operands = e.operands)) ∧
    (∀ opcode d, r.byOpcode? opcode = some d ↔ d ∈ r.toList ∧ d.opcode = opcode) ∧
    (∀ mnemonic operands d, r.bySignature? mnemonic operands = some d ↔
      d ∈ r.toList ∧ d.mnemonic = mnemonic ∧ d.operands = operands) ∧
    (∀ d ∈ r.toList,
      r.byOpcode? d.opcode = some d ∧ r.bySignature? d.mnemonic d.operands = some d) ∧
    r.size ≤ 256 ∧
    (∀ place d, r.toList[place]? = some d →
      ∃ entry : UInt8, r.index[d.opcode.toNat]? = some (some entry) ∧ entry.toNat = place) ∧
    (∀ opcode entry : UInt8, r.index[opcode.toNat]? = some (some entry) → entry.toNat < r.size) ∧
    ∀ d, ((∃ refusal, r.register d = .error refusal) ↔
        ∃ e ∈ r.toList, d.opcode = e.opcode ∨ d.mnemonic = e.mnemonic ∧ d.operands = e.operands) ∧
      (∀ refusal, r.register d = .error refusal → empty.registerAll (ds ++ [d]) = r) ∧
      (∀ r', r.register d = .ok r' →
        empty.registerAll (ds ++ [d]) = r' ∧ r'.toList = r.toList ++ [d]) := by
  intro r
  have h : r.Consistent := (Built.empty.registerAll ds).consistent
  refine ⟨Consistent.empty.toList_registerAll ds, kept_sublist [] ds, ?_,
    fun opcode d => h.byOpcode?_eq_some_iff, fun mnemonic operands d => h.bySignature?_eq_some_iff,
    fun d hd => ⟨h.byOpcode?_of_mem hd, h.bySignature?_eq_some_iff.2 ⟨hd, rfl, rfl⟩⟩, h.size_le,
    fun place d => h.index_eq, fun opcode entry => h.entry_lt,
    fun d => ⟨h.register_eq_error_iff, fun refusal hrefusal => ?_, fun r' hr' => ?_⟩⟩
  · exact h.pairwise.imp fun hconflict => not_or.1 hconflict
  · rw [registerAll_concat, hrefusal]
    rfl
  · refine ⟨?_, h.toList_register hr'⟩
    rw [registerAll_concat, hr']
    rfl

end StackMachine.Registry
