import StackMachine.Proofs.Instruction.Decode
import StackMachine.Proofs.Machine.Layout

/-!
# Fetching an instruction

A machine fetches what the decoder reads at `ip` in the image, and the operand that it reads while
it carries the instruction out is the decoded one.

* `fetch_eq`: fetching is decoding.
* `readsOperand_of_decode`: the first operand stands right behind the opcode in memory.
* `run_executeNext`: an instruction is fetched, then `ip` moves past it, then it is performed.
-/

namespace StackMachine

/-- The fault of a machine that cannot read its next instruction. -/
def DecodeError.fault : DecodeError → Fault
  | unknownOpcode _ => .illegalInstruction
  | truncated _ _ _ | outOfBounds => .accessViolation

namespace Machine

variable {π : Type} {m : Machine} {c : π}

theorem size_image (h : m.Layout) : m.image.size = m.imageEnd := by
  have himage := h.imageEnd_le
  have hsp := h.sp_le
  rw [image, Array.size_extract]
  rw [Memory.size] at hsp
  omega

theorem getElem?_image {i : Nat} (hi : i < m.imageEnd) : m.image[i]? = m.memory.bytes[i]? :=
  Bytes.getElem?_extract_zero hi

theorem fetch_eq (h : m.Layout) :
    m.fetch =
      match Instruction.decode m.registry m.image m.ip with
      | .ok i => .ok i.definition
      | .error e => .error e.fault := by
  have himage := size_image h
  unfold fetch Memory.read8 Bytes.read8?
  by_cases hip : m.ip < m.imageEnd
  · have hlt : m.ip < m.image.size := by omega
    have hopcode := Array.getElem?_eq_getElem hlt
    rw [if_pos hip, ← getElem?_image hip, hopcode]
    cases hd : m.registry.byOpcode? m.image[m.ip] with
    | none => simp only [hd, Instruction.decode_of_unknown hopcode hd, DecodeError.fault]
    | some d =>
      by_cases hsize : m.ip + d.size ≤ m.imageEnd
      · obtain ⟨operands, _, hdecode⟩ := Instruction.decode_of_fits hopcode hd (by omega)
        simp only [hd, hsize, if_true, hdecode]
      · simp only [hd, hsize, if_false, Instruction.decode_of_cut hopcode hd (by omega),
          DecodeError.fault]
  · rw [if_neg hip, Instruction.decode_of_size_le (by omega)]
    rfl

/-! ## Operands -/

/-- Whether an operand stands in memory where the machine looks for it. -/
def ReadsOperand (m : Machine) : Operand → Prop
  | .constant w => m.memory.bytes.read32? m.ap = some w
  | .register index => m.memory.bytes[m.ap]? = some index
  | .label address => m.memory.bytes.read16? m.ap = some address

/-- The machine that has fetched an instruction of a given size. -/
def advanced (m : Machine) (size : Nat) : Machine :=
  { m with ap := m.ip + 1, ip := m.ip + size }

theorem advanced_layout (size : Nat) (h : m.Layout) : (m.advanced size).Layout :=
  ⟨h.imageEnd_le, h.sp_le, h.aligned⟩

theorem readsOperand_of_decode {i : Instruction} {operand : Operand} {operands : List Operand}
    (h : Instruction.decode m.registry m.image m.ip = .ok i)
    (hoperands : i.operands = operand :: operands) :
    (m.advanced i.definition.size).ReadsOperand operand := by
  obtain ⟨_, _, _, _, hread⟩ := Instruction.decode_eq_ok h
  rw [hoperands] at hread
  have hread := Instruction.decodeOperands?_eq_cons hread
  cases operand with
  | constant w =>
    simp only [Operand.kind, OperandKind.decode?, Option.map_eq_some_iff] at hread
    obtain ⟨_, hread, ⟨⟩⟩ := hread
    exact Bytes.read32?_of_extract hread
  | register index =>
    simp only [Operand.kind, OperandKind.decode?, Option.map_eq_some_iff] at hread
    obtain ⟨_, hread, ⟨⟩⟩ := hread
    exact Bytes.getElem?_of_extract hread
  | label address =>
    simp only [Operand.kind, OperandKind.decode?, Option.map_eq_some_iff] at hread
    obtain ⟨_, hread, ⟨⟩⟩ := hread
    exact Bytes.read16?_of_extract hread

open StackMachine.Machine.Action

theorem run_constantOperand {w : UInt32} (h : m.ReadsOperand (.constant w)) :
    (constantOperand : Action π UInt32).run (m, c) = .ok w (m, c) := by
  rw [ReadsOperand] at h
  simp only [constantOperand, EStateM.run_bind, EStateM.run_get, run_lift, Memory.read32, h]

theorem run_registerOperand {index : UInt8} (h : m.ReadsOperand (.register index)) :
    (registerOperand : Action π Nat).run (m, c) =
      if index.toNat < m.registers.size then .ok index.toNat (m, c)
      else .error (.fault .accessViolation) (m, c) := by
  rw [ReadsOperand] at h
  simp only [registerOperand, EStateM.run_bind, EStateM.run_get, run_lift, Memory.read8,
    Bytes.read8?, h]
  split <;> rfl

theorem run_labelOperand {address : UInt16} (h : m.ReadsOperand (.label address)) :
    (labelOperand : Action π Nat).run (m, c) = .ok address.toNat (m, c) := by
  rw [ReadsOperand] at h
  simp only [labelOperand, EStateM.run_bind, EStateM.run_get, run_lift, Memory.read16, h,
    EStateM.run_pure]

/-! ## Fetch and execution -/

theorem run_executeNext_fetch [Console π] :
    (executeNext : Action π Unit).run (m, c) =
      match m.fetch with
      | .ok definition =>
        (perform definition.effect).run (m.advanced definition.size, c)
      | .error fault => .error (.fault fault) (m, c) := by
  simp only [executeNext, EStateM.run_bind, EStateM.run_get, run_lift]
  cases m.fetch <;> rfl

theorem run_executeNext [Console π] (h : m.Layout) :
    (executeNext : Action π Unit).run (m, c) =
      match Instruction.decode m.registry m.image m.ip with
      | .ok i => (perform i.definition.effect).run (m.advanced i.definition.size, c)
      | .error e => .error (.fault e.fault) (m, c) := by
  rw [run_executeNext_fetch, fetch_eq h]
  cases Instruction.decode m.registry m.image m.ip <;> rfl

end Machine

end StackMachine
