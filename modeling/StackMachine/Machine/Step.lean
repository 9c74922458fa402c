import StackMachine.Machine.Basic
import StackMachine.Machine.Console

/-!
# Steps

One step of a machine fetches the instruction at `ip`, advances `ip` past it, and carries out its
effect. An effect that fails keeps what it has done before it failed.

* A fault of the fetch leaves the machine as it was, its status apart.
* A console that does not take output makes the step fail, and the machine goes on running.
-/

namespace StackMachine

/-- What stops an instruction. -/
inductive Trap where
  | fault (fault : Fault)
  | console (error : ConsoleError)
deriving DecidableEq, Repr

namespace Machine

/-- Part of a step: it acts on the machine and the console, and keeps both when it fails. -/
abbrev Action (π : Type) (α : Type) := EStateM Trap (Machine × π) α

variable {π : Type}

/-! ## Numbers -/

/-- Whether a comparison of integers holds. -/
def compareInt (comparison : Comparison) (left right : Int) : Bool :=
  match comparison with
  | .above => left > right
  | .aboveEqual => left ≥ right
  | .below => left < right
  | .belowEqual => left ≤ right
  | .equal => left == right
  | .notEqual => left != right

/-- Whether a comparison of floats holds. What is no number is unequal to everything. -/
def compareFloat (comparison : Comparison) (left right : UInt32) : Bool :=
  match comparison with
  | .above => Binary32.less right left
  | .aboveEqual => Binary32.less right left || Binary32.equal left right
  | .below => Binary32.less left right
  | .belowEqual => Binary32.less left right || Binary32.equal left right
  | .equal => Binary32.equal left right
  | .notEqual => !Binary32.equal left right

/-- Whether a comparison of two words holds. -/
def compareWords (kind : NumberKind) (comparison : Comparison) (left right : UInt32) : Bool :=
  match kind with
  | .int => compareInt comparison (Bytes.toSigned left) (Bytes.toSigned right)
  | .float => compareFloat comparison left right

/-- Arithmetic on integers, which goes round at both ends of their range; quotients are cut off. -/
def computeInt (operation : Arithmetic) (left right : UInt32) : Except Fault UInt32 :=
  match operation with
  | .add => .ok (left + right)
  | .sub => .ok (left - right)
  | .mul => .ok (left * right)
  | .div =>
    if right = 0 then .error .divisionByZero
    else .ok (Bytes.ofSigned ((Bytes.toSigned left).tdiv (Bytes.toSigned right)))
  | .rem =>
    if right = 0 then .error .divisionByZero
    else .ok (Bytes.ofSigned ((Bytes.toSigned left).tmod (Bytes.toSigned right)))

/-- Arithmetic on floats. -/
def computeFloat (operation : Arithmetic) (left right : UInt32) : UInt32 :=
  match operation with
  | .add => Binary32.add left right
  | .sub => Binary32.sub left right
  | .mul => Binary32.mul left right
  | .div => Binary32.div left right
  | .rem => Binary32.remainder left right

/-- Arithmetic on two words. -/
def computeWords (kind : NumberKind) (operation : Arithmetic) (left right : UInt32) :
    Except Fault UInt32 :=
  match kind with
  | .int => computeInt operation left right
  | .float => .ok (computeFloat operation left right)

/-! ## Parts of instructions -/

namespace Action

/-- Stop with a fault. -/
def fail {α : Type} (fault : Fault) : Action π α :=
  throw (.fault fault)

/-- Go on with a result, or stop with its fault. -/
def lift {α : Type} (result : Except Fault α) : Action π α :=
  match result with
  | .ok a => pure a
  | .error fault => fail fault

/-- Push a word; a violation if the stack would meet the image. -/
def push (w : UInt32) : Action π Unit := do
  let (m, console) ← get
  if m.imageEnd + 4 ≤ m.sp ∧ m.sp ≤ m.memory.size then
    set ({ m with memory := m.memory.store32 (m.sp - 4) w, sp := m.sp - 4 }, console)
  else
    fail .accessViolation

/-- Pop a word; a violation if the stack is empty. -/
def pop : Action π UInt32 := do
  let (m, console) ← get
  let w ← lift (m.memory.read32 m.sp)
  set ({ m with sp := m.sp + 4 }, console)
  return w

/-- Go on at an address. -/
def jump (address : Nat) : Action π Unit :=
  modify fun (m, console) => ({ m with ip := address }, console)

/-- The constant operand. -/
def constantOperand : Action π UInt32 := do
  let (m, _) ← get
  lift (m.memory.read32 m.ap)

/-- The register operand; a violation if there is no such register. -/
def registerOperand : Action π Nat := do
  let (m, _) ← get
  let index ← lift (m.memory.read8 m.ap)
  if index.toNat < m.registers.size then return index.toNat else fail .accessViolation

/-- The label operand. -/
def labelOperand : Action π Nat := do
  let (m, _) ← get
  let address ← lift (m.memory.read16 m.ap)
  return address.toNat

/-- The address of the next instruction, as a word. -/
def returnAddress : Action π UInt32 := do
  let (m, _) ← get
  return UInt32.ofNat m.ip

/-- Read from the console. -/
def input (read : π → UInt32 × π) : Action π UInt32 :=
  modifyGet fun (m, console) =>
    let (w, console) := read console
    (w, (m, console))

/-- Write to the console. -/
def output (write : π → Option ConsoleError × π) : Action π Unit := do
  let failure ← modifyGet fun (m, console) =>
    let (failure, console) := write console
    (failure, (m, console))
  match failure with
  | some error => throw (.console error)
  | none => pure ()

end Action

open StackMachine.Machine.Action

/-- Carry out an effect. -/
def perform [Console π] : Effect → Action π Unit
  | .halt => modify fun (m, console) => ({ m with status := .halted }, console)
  | .pushConstant => do push (← constantOperand)
  | .pushRegister => do
    let index ← registerOperand
    let (m, _) ← get
    push (m.registers.getD index 0)
  | .popRegister => do
    let index ← registerOperand
    let w ← pop
    modify fun (m, console) =>
      ({ m with registers := m.registers.setIfInBounds index w }, console)
  | .readInt => do push (← input Console.readInt)
  | .readFloat => do push (← input Console.readFloat)
  | .writeInt => do
    let w ← pop
    output (Console.writeInt w)
  | .writeFloat => do
    let w ← pop
    output (Console.writeFloat w)
  | .depart => do push (← returnAddress)
  | .call => do
    let target ← labelOperand
    push (← returnAddress)
    jump target
  | .return => do
    let address ← pop
    jump address.toNat
  | .intToFloat => do
    let w ← pop
    push (Binary32.ofInt (Bytes.toSigned w))
  | .floatToInt => do
    let w ← pop
    push (Bytes.ofSigned (Binary32.toInt w))
  | .jump => do jump (← labelOperand)
  | .branch kind comparison => do
    let right ← pop
    let left ← pop
    if compareWords kind comparison left right then
      jump (← labelOperand)
  | .arithmetic kind operation => do
    let right ← pop
    let left ← pop
    push (← lift (computeWords kind operation left right))
  | .sqrt => do
    let w ← pop
    push (Binary32.sqrt w)

/-- Fetch the definition of the instruction at `ip`, which has to lie wholly inside the image. -/
def fetch (m : Machine) : Except Fault Definition :=
  if m.ip < m.imageEnd then
    match m.memory.read8 m.ip with
    | .error fault => .error fault
    | .ok opcode =>
      match m.registry.byOpcode? opcode with
      | none => .error .illegalInstruction
      | some definition =>
        if m.ip + definition.size ≤ m.imageEnd then .ok definition else .error .accessViolation
  else
    .error .accessViolation

/-- Fetch and carry out one instruction. -/
def executeNext [Console π] : Action π Unit := do
  let (m, _) ← get
  let definition ← lift m.fetch
  modify fun (m, console) => ({ m with ap := m.ip + 1, ip := m.ip + definition.size }, console)
  perform definition.effect

/-- Why a step or a run ends without a halt or a fault. -/
inductive RunError where
  | notReady
  /-- The machine is still running after as many steps as it may take. -/
  | limitReached (steps : Nat)
  | console (error : ConsoleError)
deriving DecidableEq, Repr

/-- The text of such an error. -/
def RunError.message : RunError → String
  | notReady => "no program is loaded"
  | limitReached steps => "execution limit of " ++ Text.decimal steps ++ " steps exceeded"
  | console error => "console i/o failed: " ++ error.message

/-- One step. A machine that has stopped stays as it is, and one that is not ready cannot step. -/
def step [Console π] (m : Machine) (console : π) : Except RunError Status × Machine × π :=
  match m.status with
  | .notReady => (.error .notReady, m, console)
  | .running =>
    match executeNext.run (m, console) with
    | .ok () (m, console) => (.ok m.status, m, console)
    | .error (.fault fault) (m, console) =>
      (.ok (.faulted fault), { m with status := .faulted fault }, console)
    | .error (.console error) (m, console) => (.error (.console error), m, console)
  | status => (.ok status, m, console)

end Machine

end StackMachine
