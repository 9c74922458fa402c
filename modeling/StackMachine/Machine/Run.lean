import StackMachine.Machine.Step

/-!
# Runs

A run repeats steps until the machine no longer runs, or a step fails, or the limit of steps is
reached. A tracer sees the machine before each step, and where it stops.

* `runFor` takes at most a given number of steps.
* `run?` is a run with a limit, or without one; in the second case it answers if the machine stops
  within a budget of steps, and the answer does not depend on the budget.
-/

namespace StackMachine

/-- What follows a run: an action before each step, and one at the halt. -/
structure Tracer (τ : Type) where
  beforeStep (m : Machine) (trace : τ) : τ
  atHalt (halt : Halt) (trace : τ) : τ

/-- The tracer that sees nothing. -/
def Tracer.silent : Tracer Unit :=
  ⟨fun _ _ => (), fun _ _ => ()⟩

namespace Machine

/-- How a number of steps ends. -/
inductive Ending where
  | halted (halt : Halt)
  | failed (error : RunError)
  /-- All steps were taken, and the machine is still running. -/
  | exhausted
deriving DecidableEq, Repr

/-- What a run leaves behind. -/
structure RunState (π τ : Type) where
  machine : Machine
  console : π
  trace : τ

variable {π τ : Type}

/-- Run for at most the given number of steps. -/
def runFor [Console π] (tracer : Tracer τ) :
    (steps : Nat) → (machine : Machine) → (console : π) → (trace : τ) → Ending × RunState π τ
  | steps, machine, console, trace =>
    if machine.status = .running then
      match steps with
      | 0 => (.exhausted, ⟨machine, console, trace⟩)
      | steps + 1 =>
        let trace := tracer.beforeStep machine trace
        match machine.step console with
        | (.ok _, machine, console) => runFor tracer steps machine console trace
        | (.error error, machine, console) => (.failed error, ⟨machine, console, trace⟩)
    else if machine.status = .notReady then
      (.failed .notReady, ⟨machine, console, trace⟩)
    else
      let halt := machine.halt
      (.halted halt, ⟨machine, console, tracer.atHalt halt trace⟩)

/-- The outcome of a run with a limit of steps. -/
def Ending.outcome (limit : Nat) : Ending → Except RunError Halt
  | halted halt => .ok halt
  | failed error => .error error
  | exhausted => .error (.limitReached limit)

/-- Run with a limit of steps, or without one for at most `budget` steps; `none` if the budget does
not suffice. -/
def run? [Console π] (tracer : Tracer τ) (limit : Option Nat) (budget : Nat) (machine : Machine)
    (console : π) (trace : τ) : Option (Except RunError Halt × RunState π τ) :=
  match limit with
  | some limit =>
    let (ending, state) := runFor tracer limit machine console trace
    some (ending.outcome limit, state)
  | none =>
    match runFor tracer budget machine console trace with
    | (.exhausted, _) => none
    | (ending, state) => some (ending.outcome budget, state)

end Machine

end StackMachine
