import StackMachine.Text.Numeral

/-!
# Statuses and faults

A machine is not ready until an image is loaded, and runs until it halts or a fault stops it. A
status that is neither lasts until the next image is loaded.
-/

namespace StackMachine

/-- A condition that stops a machine. -/
inductive Fault where
  | illegalInstruction
  | accessViolation
  | divisionByZero
deriving DecidableEq, Repr

/-- The status of a machine. -/
inductive Status where
  | notReady
  | running
  /-- The program has ended by itself. -/
  | halted
  | faulted (fault : Fault)
deriving DecidableEq, Repr

/-- Where and how a machine has stopped. -/
structure Halt where
  status : Status
  /-- The address of the next instruction; of the faulty one if it could not be fetched. -/
  ip : Nat
  sp : Nat
deriving DecidableEq, Repr

/-- The text of a fault. -/
def Fault.message : Fault → String
  | illegalInstruction => "illegal instruction"
  | accessViolation => "access violation"
  | divisionByZero => "division by zero"

namespace Status

/-- Whether a machine with this status has stopped for good. -/
def isTerminal : Status → Bool
  | notReady | running => false
  | halted | faulted _ => true

/-- Whether a machine with this status was stopped by a fault. -/
def isFault : Status → Bool
  | faulted _ => true
  | _ => false

/-- The name of a status. -/
def name : Status → String
  | notReady => "not ready"
  | running => "running"
  | halted => "halted"
  | faulted fault => fault.message

end Status

namespace Halt

/-- Whether the program has ended by itself. -/
def isClean (h : Halt) : Bool :=
  h.status == .halted

/-- The status and the addresses. -/
def toText (h : Halt) : String :=
  h.status.name ++ ": ip = 0x" ++ Text.hex 8 h.ip ++ ", sp = 0x" ++ Text.hex 8 h.sp

end Halt

end StackMachine
