import StackMachine.Proofs.Instruction.Registry
import StackMachine.Proofs.Machine.Fetch

/-!
# The stack machine of the instruction table

What a program can tell of a machine is less than the machine: the status, the address of the next
instruction, the registers, the image, and a stack that is a list of words with a bounded length.
The instruction table is written here for such states. It knows no addresses of the stack and no
bytes of words; numbers are those of `Int32`, and only floats are computed as a machine computes
them.

* `Instruction.kinds_of_decode_standard`: the operands of a standard instruction are those that its
  effect reads, so every instruction that can be read is in the table.
* `StackState.execute` is the instruction table, `StackState.step` a step.
-/

namespace StackMachine

/-! ## The operands of standard instructions -/

/-- The kinds of the operands that an effect reads. -/
def Effect.operandKinds : Effect → List OperandKind
  | .pushConstant => [.constant]
  | .pushRegister | .popRegister => [.register]
  | .call | .jump | .branch _ _ => [.label]
  | _ => []

theorem Registry.operands_of_standard {d : Definition} (h : d ∈ standard.toList) :
    d.operands = d.effect.operandKinds := by
  have hall : ∀ d ∈ Definition.standard, d.operands = d.effect.operandKinds := by
    decide
  exact hall d (mem_standard h)

theorem Instruction.kinds_of_decode_standard {bytes : Bytes} {offset : Nat} {i : Instruction}
    (h : decode Registry.standard bytes offset = .ok i) :
    i.operands.map Operand.kind = i.definition.effect.operandKinds := by
  obtain ⟨_, _, hopcode, _, hoperands⟩ := decode_eq_ok h
  have hmem := (Registry.standard_built.consistent.mem_of_byOpcode? hopcode).1
  rw [kinds_of_decodeOperands? hoperands, Registry.operands_of_standard hmem]

namespace Operand

variable {operands : List Operand}

theorem constant_of_kinds (h : operands.map kind = [.constant]) : ∃ w, operands = [constant w] := by
  match operands, h with
  | [constant w], _ => exact ⟨w, rfl⟩

theorem register_of_kinds (h : operands.map kind = [.register]) :
    ∃ index, operands = [register index] := by
  match operands, h with
  | [register index], _ => exact ⟨index, rfl⟩

theorem label_of_kinds (h : operands.map kind = [.label]) :
    ∃ target, operands = [label target] := by
  match operands, h with
  | [label target], _ => exact ⟨target, rfl⟩

end Operand

/-! ## States -/

/-- What a program can tell of a machine. -/
structure StackState where
  status : Status
  /-- The address of the next instruction. -/
  ip : Nat
  registers : List UInt32
  image : Bytes
  /-- The number of words that the stack has room for. -/
  capacity : Nat
  /-- The words on the stack, the top first. -/
  stack : List UInt32

namespace StackState

variable {π : Type}

/-- What an instruction comes to: what stopped it, if anything did, and what it leaves. -/
structure Outcome (π : Type) where
  trap : Option Trap
  state : StackState
  console : π

/-- The machine at the start of a program. -/
def start (image : Bytes) (header : Header) (memorySize : Nat) : StackState where
  status := .running
  ip := Header.size
  registers := List.replicate header.registerCount.toNat 0
  image
  capacity := (memorySize - image.size) / 4
  stack := []

/-! ## The stack -/

/-- Stop with a fault. -/
def fault (s : StackState) (fault : Fault) (c : π) : Outcome π :=
  ⟨some (.fault fault), s, c⟩

/-- Push a word, unless the stack is full. -/
def push (s : StackState) (w : UInt32) (c : π) : Outcome π :=
  if s.stack.length < s.capacity then ⟨none, { s with stack := w :: s.stack }, c⟩
  else s.fault .accessViolation c

/-- Pop a word and go on with it, unless the stack is empty. -/
def pop (s : StackState) (c : π) (next : UInt32 → StackState → Outcome π) : Outcome π :=
  match s.stack with
  | [] => s.fault .accessViolation c
  | w :: stack => next w { s with stack }

/-- Go on after a number was written to the console. -/
def written (s : StackState) : Option ConsoleError × π → Outcome π
  | (failure, c) => ⟨failure.map .console, s, c⟩

/-! ## Numbers -/

/-- Whether `left OP right` holds. -/
def holds (kind : NumberKind) (comparison : Comparison) (left right : UInt32) : Bool :=
  match kind, comparison with
  | .int, .above => left.toInt32 > right.toInt32
  | .int, .aboveEqual => left.toInt32 ≥ right.toInt32
  | .int, .below => left.toInt32 < right.toInt32
  | .int, .belowEqual => left.toInt32 ≤ right.toInt32
  | .int, .equal => left.toInt32 == right.toInt32
  | .int, .notEqual => left.toInt32 != right.toInt32
  | .float, _ => Machine.compareFloat comparison left right

/-- The value of `left OP right`, which only a division of integers by zero does not have. -/
def value? (kind : NumberKind) (operation : Arithmetic) (left right : UInt32) : Option UInt32 :=
  match kind, operation with
  | .int, .add => some (left.toInt32 + right.toInt32).toUInt32
  | .int, .sub => some (left.toInt32 - right.toInt32).toUInt32
  | .int, .mul => some (left.toInt32 * right.toInt32).toUInt32
  | .int, .div =>
    if right.toInt32 = 0 then none else some (left.toInt32 / right.toInt32).toUInt32
  | .int, .rem =>
    if right.toInt32 = 0 then none else some (left.toInt32 % right.toInt32).toUInt32
  | .float, _ => some (Machine.computeFloat operation left right)

/-! ## The instruction table -/

variable [Console π]

/-- Carry out an instruction, past which `ip` has been moved. In the last case the operands do not
fit the effect, which does not happen to an instruction that was read. -/
def execute (s : StackState) (i : Instruction) (c : π) : Outcome π :=
  match i.definition.effect, i.operands with
  | .halt, [] => ⟨none, { s with status := .halted }, c⟩
  | .pushConstant, [.constant w] => s.push w c
  | .pushRegister, [.register index] =>
    match s.registers[index.toNat]? with
    | some w => s.push w c
    | none => s.fault .accessViolation c
  | .popRegister, [.register index] =>
    if index.toNat < s.registers.length then
      s.pop c fun w s => ⟨none, { s with registers := s.registers.set index.toNat w }, c⟩
    else
      s.fault .accessViolation c
  | .readInt, [] => s.push (Console.readInt c).1 (Console.readInt c).2
  | .readFloat, [] => s.push (Console.readFloat c).1 (Console.readFloat c).2
  | .writeInt, [] => s.pop c fun w s => s.written (Console.writeInt w c)
  | .writeFloat, [] => s.pop c fun w s => s.written (Console.writeFloat w c)
  | .depart, [] => s.push (UInt32.ofNat s.ip) c
  | .call, [.label target] =>
    if s.stack.length < s.capacity then
      ⟨none, { s with ip := target.toNat, stack := UInt32.ofNat s.ip :: s.stack }, c⟩
    else
      s.fault .accessViolation c
  | .return, [] => s.pop c fun w s => ⟨none, { s with ip := w.toNat }, c⟩
  | .intToFloat, [] => s.pop c fun w s => s.push (Binary32.ofInt w.toInt32.toInt) c
  | .floatToInt, [] => s.pop c fun w s => s.push (Int32.ofInt (Binary32.toInt w)).toUInt32 c
  | .jump, [.label target] => ⟨none, { s with ip := target.toNat }, c⟩
  | .branch kind comparison, [.label target] =>
    s.pop c fun right s => s.pop c fun left s =>
      if holds kind comparison left right then ⟨none, { s with ip := target.toNat }, c⟩
      else ⟨none, s, c⟩
  | .arithmetic kind operation, [] =>
    s.pop c fun right s => s.pop c fun left s =>
      match value? kind operation left right with
      | some w => s.push w c
      | none => s.fault .divisionByZero c
  | .sqrt, [] => s.pop c fun w s => s.push (Binary32.sqrt w) c
  | _, _ => s.fault .accessViolation c

/-- Read the instruction at `ip` in the image, move past it, and carry it out. -/
def executeNext (s : StackState) (c : π) : Outcome π :=
  match Instruction.decode Registry.standard s.image s.ip with
  | .ok i => { s with ip := s.ip + i.definition.size }.execute i c
  | .error e => s.fault e.fault c

/-- One step. A machine that has stopped stays as it is, and one that is not ready cannot step. -/
def step (s : StackState) (c : π) : Except Machine.RunError Status × StackState × π :=
  match s.status with
  | .notReady => (.error .notReady, s, c)
  | .running =>
    match s.executeNext c with
    | ⟨none, s, c⟩ => (.ok s.status, s, c)
    | ⟨some (.fault fault), s, c⟩ =>
      (.ok (.faulted fault), { s with status := .faulted fault }, c)
    | ⟨some (.console error), s, c⟩ => (.error (.console error), s, c)
  | status => (.ok status, s, c)

/-- The state and the console after a number of steps. -/
def after (n : Nat) (s : StackState) (c : π) : StackState × π :=
  (fun p => (p.1.step p.2).2)^[n] (s, c)

theorem after_succ (n : Nat) (s : StackState) (c : π) :
    after (n + 1) s c = ((after n s c).1.step (after n s c).2).2 :=
  Function.iterate_succ_apply' ..

end StackState

end StackMachine
