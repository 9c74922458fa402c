import Mathlib.Algebra.GroupWithZero.Nat
import StackMachine.Instruction.Decode
import StackMachine.Proofs.Bytes

/-!
# When instructions can be read

An instruction can be read where its opcode is known and all its bytes are there; its operands can
then be read as well, and they have the kinds that its definition asks for.

* `decode_of_size_le`, `decode_of_unknown`, `decode_of_cut`, `decode_of_fits`: the four cases.
* `decode_eq_ok`: what an instruction that was read tells of the bytes.
* `kinds_of_decode`: the kinds of its operands.
-/

namespace StackMachine

variable {bytes : Bytes} {registry : Registry} {offset : Nat}

theorem OperandKind.decode?_isSome (kind : OperandKind) (h : offset + kind.size ≤ bytes.size) :
    ∃ operand, kind.decode? bytes offset = some operand := by
  cases kind with
  | constant =>
    obtain ⟨w, hw⟩ := Bytes.read32?_isSome h
    exact ⟨.constant w, by rw [decode?, hw]; rfl⟩
  | register =>
    have hlt : offset < bytes.size := h
    refine ⟨.register bytes[offset], ?_⟩
    rw [decode?, Bytes.read8?, Array.getElem?_eq_getElem hlt]
    rfl
  | label =>
    obtain ⟨w, hw⟩ := Bytes.read16?_isSome h
    exact ⟨.label w, by rw [decode?, hw]; rfl⟩

namespace Instruction

theorem decodeOperands?_isSome (kinds : List OperandKind)
    (h : offset + (kinds.map OperandKind.size).sum ≤ bytes.size) :
    ∃ operands, decodeOperands? bytes kinds offset = some operands := by
  induction kinds generalizing offset with
  | nil => exact ⟨[], rfl⟩
  | cons kind kinds ih =>
    rw [List.map_cons, List.sum_cons] at h
    have hhead : offset + kind.size ≤ bytes.size := by omega
    have htail : offset + kind.size + (kinds.map OperandKind.size).sum ≤ bytes.size := by omega
    obtain ⟨operand, hoperand⟩ := kind.decode?_isSome hhead
    obtain ⟨operands, hoperands⟩ := ih htail
    exact ⟨operand :: operands, by simp [decodeOperands?, hoperand, hoperands]⟩

theorem kind_of_decode? {kind : OperandKind} {operand : Operand}
    (h : kind.decode? bytes offset = some operand) : operand.kind = kind := by
  cases kind <;> simp only [OperandKind.decode?, Option.map_eq_some_iff] at h <;>
    obtain ⟨_, _, rfl⟩ := h <;> rfl

theorem kinds_of_decodeOperands? {kinds : List OperandKind} {operands : List Operand}
    (h : decodeOperands? bytes kinds offset = some operands) :
    operands.map Operand.kind = kinds := by
  induction kinds generalizing offset operands with
  | nil =>
    cases h
    rfl
  | cons kind kinds ih =>
    simp only [decodeOperands?, Option.bind_eq_bind, Option.bind_eq_some_iff, Option.pure_def,
      Option.some.injEq] at h
    obtain ⟨operand, hoperand, rest, hrest, rfl⟩ := h
    rw [List.map_cons, kind_of_decode? hoperand, ih hrest]

theorem decodeOperands?_eq_cons {kinds : List OperandKind} {operand : Operand}
    {operands : List Operand}
    (h : decodeOperands? bytes kinds offset = some (operand :: operands)) :
    operand.kind.decode? bytes offset = some operand := by
  cases kinds with
  | nil => cases h
  | cons kind kinds =>
    simp only [decodeOperands?, Option.bind_eq_bind, Option.bind_eq_some_iff, Option.pure_def,
      Option.some.injEq, List.cons.injEq] at h
    obtain ⟨_, hoperand, _, _, rfl, _⟩ := h
    rw [kind_of_decode? hoperand, hoperand]

theorem decode_of_size_le (h : bytes.size ≤ offset) :
    decode registry bytes offset = .error .outOfBounds := by
  rw [decode, decodeUpTo, if_neg (by omega)]

variable {opcode : UInt8} {d : Definition}

theorem decode_of_unknown (hopcode : bytes[offset]? = some opcode)
    (h : registry.byOpcode? opcode = none) :
    decode registry bytes offset = .error (.unknownOpcode opcode) := by
  obtain ⟨hlt, _⟩ := Array.getElem?_eq_some_iff.1 hopcode
  simp only [decode, decodeUpTo, Bytes.read8?, if_pos hlt, hopcode, h]

theorem decode_of_cut (hopcode : bytes[offset]? = some opcode)
    (hd : registry.byOpcode? opcode = some d) (h : bytes.size < offset + d.size) :
    decode registry bytes offset =
      .error (.truncated d.mnemonic d.size (bytes.size - offset)) := by
  obtain ⟨hlt, _⟩ := Array.getElem?_eq_some_iff.1 hopcode
  simp only [decode, decodeUpTo, Bytes.read8?, if_pos hlt, hopcode, hd]
  rw [if_pos (by omega)]

/-- When the bytes of an instruction are there, its operands can be read. -/
theorem decode_of_fits (hopcode : bytes[offset]? = some opcode)
    (hd : registry.byOpcode? opcode = some d) (h : offset + d.size ≤ bytes.size) :
    ∃ operands, decodeOperands? bytes d.operands (offset + 1) = some operands ∧
      decode registry bytes offset = .ok ⟨d, operands⟩ := by
  obtain ⟨hlt, _⟩ := Array.getElem?_eq_some_iff.1 hopcode
  have hsum : offset + 1 + (d.operands.map OperandKind.size).sum ≤ bytes.size := by
    rwa [Definition.size, ← Nat.add_assoc] at h
  obtain ⟨operands, hoperands⟩ := decodeOperands?_isSome _ hsum
  refine ⟨operands, hoperands, ?_⟩
  simp only [decode, decodeUpTo, Bytes.read8?, if_pos hlt, hopcode, hd, hoperands]
  rw [if_neg (by omega)]

theorem decode_eq_ok {i : Instruction} (h : decode registry bytes offset = .ok i) :
    ∃ opcode, bytes[offset]? = some opcode ∧ registry.byOpcode? opcode = some i.definition ∧
      offset + i.definition.size ≤ bytes.size ∧
      decodeOperands? bytes i.definition.operands (offset + 1) = some i.operands := by
  by_cases hlt : offset < bytes.size
  · have hopcode := Array.getElem?_eq_getElem hlt
    cases hd : registry.byOpcode? bytes[offset] with
    | none =>
      rw [decode_of_unknown hopcode hd] at h
      cases h
    | some d =>
      by_cases hsize : offset + d.size ≤ bytes.size
      · obtain ⟨operands, hoperands, hdecode⟩ := decode_of_fits hopcode hd hsize
        rw [hdecode] at h
        cases h
        exact ⟨_, hopcode, hd, hsize, hoperands⟩
      · rw [decode_of_cut hopcode hd (by omega)] at h
        cases h
  · rw [decode_of_size_le (by omega)] at h
    cases h

end Instruction

end StackMachine
