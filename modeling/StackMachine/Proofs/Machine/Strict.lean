import Mathlib.Tactic.SplitIfs
import StackMachine.Proofs.Machine.Fetch

/-!
# Strict machines

A machine never fails to look something up: a register that is not there counts as zero, and a byte
that is not there is not written. A strict machine gets stuck instead. It tests what a machine
tests, and then it relies on what it looks up: the byte at `ip`, the word on top of the stack, the
place for a pushed word, the operand that is inside memory, and the register that is below the
number of registers.

With the layout in order a strict machine is never stuck, whatever the registry is, and does what a
machine does.

* `Strict.perform_agrees`, `Strict.executeNext_agrees`: an effect, and an instruction.
* `strictStep_eq`: a step.
* `strictRunFor_eq`: a run, in which the tracer is shown the image before each step.
-/

namespace StackMachine.Machine

variable {π : Type}

/-- What stops an instruction of a strict machine. -/
inductive StrictTrap where
  | trap (trap : Trap)
  /-- The instruction has looked up what is not there. -/
  | outOfRange

/-- Part of a step of a strict machine. -/
abbrev StrictAction (π : Type) (α : Type) := EStateM StrictTrap (Machine × π) α

/-- What a strict machine comes to where a machine comes to a result. -/
def strictResult {α : Type} :
    EStateM.Result Trap (Machine × π) α → EStateM.Result StrictTrap (Machine × π) α
  | .ok a s => .ok a s
  | .error trap s => .error (.trap trap) s

/-- The same action, which looks nothing up, in a strict machine. -/
def Action.strictly {α : Type} (x : Action π α) : StrictAction π α :=
  fun s => strictResult (x.run s)

namespace Strict

variable {α β : Type}

/-! ## Parts of instructions -/

/-- Stop with a fault. -/
def fail (fault : Fault) : StrictAction π α :=
  throw (.trap (.fault fault))

/-- Go on with what is there. -/
def access (found : Option α) : StrictAction π α :=
  match found with
  | some a => pure a
  | none => throw .outOfRange

def push (w : UInt32) : StrictAction π Unit := do
  let (m, console) ← get
  if m.imageEnd + 4 ≤ m.sp then
    if m.sp ≤ m.memory.size then set (m.pushed w, console) else throw .outOfRange
  else
    fail .accessViolation

def pop : StrictAction π UInt32 := do
  let (m, console) ← get
  if m.sp + 4 ≤ m.memory.size then
    let w ← access (m.memory.bytes.read32? m.sp)
    set (m.popped, console)
    return w
  else
    fail .accessViolation

/-- An operand of a given width, which may not be wholly inside memory if the definition has no such
operand. -/
def operand (width : Nat) (read? : Bytes → Nat → Option α) : StrictAction π α := do
  let (m, _) ← get
  if m.ap + width ≤ m.memory.size then access (read? m.memory.bytes m.ap)
  else fail .accessViolation

def constantOperand : StrictAction π UInt32 :=
  operand 4 Bytes.read32?

def registerOperand : StrictAction π Nat := do
  let (m, _) ← get
  let index ← operand 1 Bytes.read8?
  if index.toNat < m.registers.size then return index.toNat else fail .accessViolation

def labelOperand : StrictAction π Nat := do
  let address ← operand 2 Bytes.read16?
  return address.toNat

def register (index : Nat) : StrictAction π UInt32 := do
  let (m, _) ← get
  access m.registers[index]?

def setRegister (index : Nat) (w : UInt32) : StrictAction π Unit := do
  let (m, console) ← get
  if index < m.registers.size then
    set ({ m with registers := m.registers.setIfInBounds index w }, console)
  else
    throw .outOfRange

def jump (address : Nat) : StrictAction π Unit :=
  (Action.jump address).strictly

/-- Carry out an effect. -/
def perform [Console π] : Effect → StrictAction π Unit
  | .halt => (Machine.perform .halt).strictly
  | .pushConstant => do push (← constantOperand)
  | .pushRegister => do
    let index ← registerOperand
    push (← register index)
  | .popRegister => do
    let index ← registerOperand
    let w ← pop
    setRegister index w
  | .readInt => do push (← (Action.input Console.readInt).strictly)
  | .readFloat => do push (← (Action.input Console.readFloat).strictly)
  | .writeInt => do
    let w ← pop
    (Action.output (Console.writeInt w)).strictly
  | .writeFloat => do
    let w ← pop
    (Action.output (Console.writeFloat w)).strictly
  | .depart => do push (← Action.returnAddress.strictly)
  | .call => do
    let target ← labelOperand
    push (← Action.returnAddress.strictly)
    jump target
  | .return => do
    let address ← pop
    jump address.toNat
  | .intToFloat => do
    let w ← pop
    push (Binary32.ofInt (Bytes.toSigned w))
  | .floatToInt => do
    let w ← pop
    push (Bytes.ofSigned (Binary32.toInt w))
  | .jump => do jump (← labelOperand)
  | .branch kind comparison => do
    let right ← pop
    let left ← pop
    if compareWords kind comparison left right then
      jump (← labelOperand)
  | .arithmetic kind operation => do
    let right ← pop
    let left ← pop
    push (← (Action.lift (computeWords kind operation left right)).strictly)
  | .sqrt => do
    let w ← pop
    push (Binary32.sqrt w)

/-- Fetch the definition of the instruction at `ip`. -/
def fetch : StrictAction π Definition := do
  let (m, _) ← get
  if m.ip < m.imageEnd then
    let opcode ← access m.memory.bytes[m.ip]?
    match m.registry.byOpcode? opcode with
    | none => fail .illegalInstruction
    | some definition =>
      if m.ip + definition.size ≤ m.imageEnd then return definition else fail .accessViolation
  else
    fail .accessViolation

/-- Fetch and carry out one instruction. -/
def executeNext [Console π] : StrictAction π Unit := do
  let definition ← fetch
  modify fun (m, console) => (m.advanced definition.size, console)
  perform definition.effect

end Strict

/-- One step of a strict machine; `none` if it is stuck. -/
def strictStep [Console π] (m : Machine) (c : π) :
    Option (Except RunError Status × Machine × π) :=
  match m.status with
  | .notReady => some (.error .notReady, m, c)
  | .running =>
    match Strict.executeNext.run (m, c) with
    | .ok () (m, c) => some (.ok m.status, m, c)
    | .error (.trap (.fault fault)) (m, c) =>
      some (.ok (.faulted fault), { m with status := .faulted fault }, c)
    | .error (.trap (.console error)) (m, c) => some (.error (.console error), m, c)
    | .error .outOfRange _ => none
  | status => some (.ok status, m, c)

/-- A run of a strict machine; `none` if it is stuck. It relies on the image that the tracer is
shown before a step. -/
def strictRunFor {τ : Type} [Console π] (tracer : Tracer τ) :
    (steps : Nat) → (machine : Machine) → (console : π) → (trace : τ) →
      Option (Ending × RunState π τ)
  | steps, machine, console, trace =>
    if machine.status = .running then
      match steps with
      | 0 => some (.exhausted, ⟨machine, console, trace⟩)
      | steps + 1 =>
        match machine.memory.bytes.slice? 0 machine.imageEnd with
        | none => none
        | some _ =>
          let trace := tracer.beforeStep machine trace
          match machine.strictStep console with
          | none => none
          | some (.ok _, machine, console) => strictRunFor tracer steps machine console trace
          | some (.error error, machine, console) =>
            some (.failed error, ⟨machine, console, trace⟩)
    else if machine.status = .notReady then
      some (.failed .notReady, ⟨machine, console, trace⟩)
    else
      let halt := machine.halt
      some (.halted halt, ⟨machine, console, tracer.atHalt halt trace⟩)

namespace Strict

variable {α β : Type} {m : Machine} {c : π}

/-! ## Agreement -/

/-- Whether a strict action does in a state what an action does. -/
def Agrees (s : Machine × π) (y : StrictAction π α) (x : Action π α) : Prop :=
  y.run s = strictResult (x.run s)

theorem agrees_strictly (s : Machine × π) (x : Action π α) : Agrees s x.strictly x :=
  rfl

theorem Agrees.bind {s : Machine × π} {y : StrictAction π α} {x : Action π α}
    {g : α → StrictAction π β} {f : α → Action π β} (h : Agrees s y x)
    (hrest : ∀ a s', x.run s = .ok a s' → Agrees s' (g a) (f a)) :
    Agrees s (y >>= g) (x >>= f) := by
  unfold Agrees at h ⊢
  rw [EStateM.run_bind, EStateM.run_bind, h]
  cases hrun : x.run s with
  | ok a s' => exact hrest a s' hrun
  | error trap s' => rfl

theorem agrees_push (w : UInt32) (h : m.Layout) : Agrees (m, c) (push w) (Action.push w) := by
  have hsp := h.sp_le
  unfold Agrees
  by_cases hroom : m.imageEnd + 4 ≤ m.sp
  · simp only [push, Action.push, EStateM.run_bind, EStateM.run_get, hroom, hsp, and_self, if_true]
    rfl
  · simp only [push, Action.push, EStateM.run_bind, EStateM.run_get, hroom, false_and, if_false]
    rfl

theorem agrees_pop : Agrees (m, c) pop Action.pop := by
  unfold Agrees
  by_cases hfits : m.sp + 4 ≤ m.memory.size
  · obtain ⟨w, hw⟩ := Bytes.read32?_isSome hfits
    simp only [pop, Action.pop, EStateM.run_bind, EStateM.run_get, hfits, if_true, access, hw,
      run_lift, Memory.read32]
    rfl
  · have hnone : m.memory.bytes.read32? m.sp = none := dif_neg hfits
    simp only [pop, Action.pop, EStateM.run_bind, EStateM.run_get, hfits, if_false, run_lift,
      Memory.read32, hnone]
    rfl

theorem agrees_get (s : Machine × π) :
    Agrees s (get : StrictAction π (Machine × π)) (get : Action π (Machine × π)) :=
  rfl

theorem agrees_pure (s : Machine × π) (a : α) :
    Agrees s (pure a : StrictAction π α) (pure a : Action π α) :=
  rfl

theorem agrees_fail (s : Machine × π) (fault : Fault) :
    Agrees s (fail fault : StrictAction π α) (Action.fail fault : Action π α) :=
  rfl

/-- An operand is looked up exactly where it is inside memory. -/
theorem agrees_operand {width : Nat} {read? : Bytes → Nat → Option α} {result : Except Fault α}
    (hok : m.ap + width ≤ m.memory.size →
      ∃ a, read? m.memory.bytes m.ap = some a ∧ result = .ok a)
    (herror : ¬ m.ap + width ≤ m.memory.size → result = .error .accessViolation) :
    Agrees (m, c) (operand width read?) (Action.lift result) := by
  unfold Agrees
  by_cases hfits : m.ap + width ≤ m.memory.size
  · obtain ⟨a, ha, rfl⟩ := hok hfits
    simp only [operand, EStateM.run_bind, EStateM.run_get, hfits, if_true, access, ha]
    rfl
  · obtain rfl := herror hfits
    simp only [operand, EStateM.run_bind, EStateM.run_get, hfits, if_false]
    rfl

theorem agrees_constantOperand : Agrees (m, c) constantOperand Action.constantOperand := by
  have hread : Agrees (m, c) (operand 4 Bytes.read32?) (Action.lift (m.memory.read32 m.ap)) := by
    refine agrees_operand (fun hfits => ?_) fun hfits => ?_
    · obtain ⟨w, hw⟩ := Bytes.read32?_isSome hfits
      exact ⟨w, hw, by rw [Memory.read32, hw]⟩
    · have hnone : m.memory.bytes.read32? m.ap = none := dif_neg hfits
      rw [Memory.read32, hnone]
  exact hread

theorem agrees_labelOperand : Agrees (m, c) labelOperand Action.labelOperand := by
  have hread : Agrees (m, c) (operand 2 Bytes.read16?) (Action.lift (m.memory.read16 m.ap)) := by
    refine agrees_operand (fun hfits => ?_) fun hfits => ?_
    · obtain ⟨w, hw⟩ := Bytes.read16?_isSome hfits
      exact ⟨w, hw, by rw [Memory.read16, hw]⟩
    · have hnone : m.memory.bytes.read16? m.ap = none := dif_neg hfits
      rw [Memory.read16, hnone]
  exact hread.bind fun address s' _ => agrees_pure s' address.toNat

theorem agrees_registerOperand : Agrees (m, c) registerOperand Action.registerOperand := by
  have hread : Agrees (m, c) (operand 1 Bytes.read8?) (Action.lift (m.memory.read8 m.ap)) := by
    refine agrees_operand (fun hlt => ?_) fun hlt => ?_
    · have hsome := Array.getElem?_eq_getElem hlt
      exact ⟨_, hsome, by rw [Memory.read8, Bytes.read8?, hsome]⟩
    · have hnone := Array.getElem?_eq_none (Nat.le_of_not_lt hlt)
      rw [Memory.read8, Bytes.read8?, hnone]
  refine (agrees_get (m, c)).bind fun s' _ hget => ?_
  cases hget
  refine hread.bind fun index s' _ => ?_
  split
  · exact agrees_pure s' index.toNat
  · exact agrees_fail s' .accessViolation

/-! ## Effects -/

theorem keeps_of_ok {x : Action π α} {a : α} {s' : Machine × π} (hx : x.Preserves)
    (h : m.Layout) (hrun : x.run (m, c) = .ok a s') : m.Keeps s'.1 := by
  have hkeeps := hx m c h
  unfold Action.leaves at hkeeps
  rwa [hrun] at hkeeps

/-- Each action starts with the layout in order, as the one before it has kept it so. -/
theorem Agrees.next {y : StrictAction π α} {x : Action π α} {g : α → StrictAction π β}
    {f : α → Action π β} (hfirst : Agrees (m, c) y x) (hx : x.Preserves) (h : m.Layout)
    (hrest : ∀ a (m' : Machine) (c' : π), m'.Layout → Agrees (m', c') (g a) (f a)) :
    Agrees (m, c) (y >>= g) (x >>= f) :=
  hfirst.bind fun a s' hrun => hrest a s'.1 s'.2 (keeps_of_ok hx h hrun).layout

theorem preserves_pop : (Action.pop : Action π UInt32).Preserves :=
  Action.maintains_pop stepwise_keeps

theorem preserves_returnAddress : (Action.returnAddress : Action π UInt32).Preserves :=
  Action.maintains_returnAddress stepwise_keeps

theorem agrees_input_push (read : π → UInt32 × π) (h : m.Layout) :
    Agrees (m, c) ((Action.input read).strictly >>= push) (Action.input read >>= Action.push) :=
  (agrees_strictly (m, c) (Action.input read)).next (Action.maintains_input stepwise_keeps read) h
    fun w _ _ h => agrees_push w h

theorem registerOperand_ok {index : Nat} {s' : Machine × π}
    (hrun : Action.registerOperand.run (m, c) = .ok index s') :
    s' = (m, c) ∧ index < m.registers.size := by
  simp only [Action.registerOperand, EStateM.run_bind, EStateM.run_get, run_lift] at hrun
  cases hread : m.memory.read8 m.ap with
  | error fault =>
    rw [hread] at hrun
    cases hrun
  | ok b =>
    rw [hread] at hrun
    dsimp only at hrun
    split at hrun
    · rename_i hlt
      cases hrun
      exact ⟨rfl, hlt⟩
    · cases hrun

theorem agrees_pushRegister (h : m.Layout) :
    Agrees (m, c) (registerOperand >>= fun index => register index >>= push)
      (Action.registerOperand >>= fun index => get >>= fun s : Machine × π =>
        Action.push (s.1.registers.getD index 0)) := by
  refine agrees_registerOperand.bind fun index s' hrun => ?_
  obtain ⟨rfl, hlt⟩ := registerOperand_ok hrun
  have hget : m.registers.getD index 0 = m.registers[index] := by
    rw [Array.getD_eq_getD_getElem?, Array.getElem?_eq_getElem hlt, Option.getD_some]
  simp only [Agrees, register, EStateM.run_bind, EStateM.run_get, access,
    Array.getElem?_eq_getElem hlt, hget]
  exact agrees_push _ h

theorem agrees_popRegister (h : m.Layout) :
    Agrees (m, c) (registerOperand >>= fun index => pop >>= fun w => setRegister index w)
      (Action.registerOperand >>= fun index => Action.pop >>= fun w =>
        modify fun (m, console) =>
          ({ m with registers := m.registers.setIfInBounds index w }, console)) := by
  refine agrees_registerOperand.bind fun index s' hrun => ?_
  obtain ⟨rfl, hlt⟩ := registerOperand_ok hrun
  refine agrees_pop.bind fun w s' hrun => ?_
  -- The index was tested in front of the pop, which leaves the number of registers as it was.
  have hkeeps := keeps_of_ok preserves_pop h hrun
  have hlt' : index < s'.1.registers.size := by
    rw [hkeeps.registers_size_eq]
    exact hlt
  simp only [Agrees, setRegister, EStateM.run_bind, EStateM.run_get, hlt', if_true]
  rfl

variable [Console π]

/-- An effect, whether or not the definition has the operands that it reads. -/
theorem perform_agrees (effect : Effect) (h : m.Layout) :
    Agrees (m, c) (perform effect) (Machine.perform effect) := by
  cases effect with
  | halt => exact agrees_strictly _ _
  | pushConstant =>
    exact agrees_constantOperand.next (Action.maintains_constantOperand stepwise_keeps) h
      fun w _ _ h => agrees_push w h
  | pushRegister => exact agrees_pushRegister h
  | popRegister => exact agrees_popRegister h
  | readInt => exact agrees_input_push _ h
  | readFloat => exact agrees_input_push _ h
  | writeInt => exact agrees_pop.bind fun w s' _ => agrees_strictly s' _
  | writeFloat => exact agrees_pop.bind fun w s' _ => agrees_strictly s' _
  | depart =>
    exact (agrees_strictly _ _).next preserves_returnAddress h fun w _ _ h => agrees_push w h
  | call =>
    refine agrees_labelOperand.next (Action.maintains_labelOperand stepwise_keeps) h
      fun target _ _ h => ?_
    refine (agrees_strictly _ _).next preserves_returnAddress h fun w _ _ h => ?_
    exact (agrees_push w h).bind fun _ s' _ => agrees_strictly s' _
  | «return» => exact agrees_pop.bind fun w s' _ => agrees_strictly s' _
  | intToFloat => exact agrees_pop.next preserves_pop h fun w _ _ h => agrees_push _ h
  | floatToInt => exact agrees_pop.next preserves_pop h fun w _ _ h => agrees_push _ h
  | jump => exact agrees_labelOperand.bind fun target s' _ => agrees_strictly s' _
  | branch kind comparison =>
    refine agrees_pop.bind fun right s' _ => agrees_pop.bind fun left t _ => ?_
    split
    · exact agrees_labelOperand.bind fun target u _ => agrees_strictly u _
    · exact agrees_pure t ()
  | arithmetic kind operation =>
    refine agrees_pop.next preserves_pop h fun right _ _ h => ?_
    refine agrees_pop.next preserves_pop h fun left _ _ h => ?_
    exact (agrees_strictly _ _).next (Action.maintains_lift stepwise_keeps _) h
      fun w _ _ h => agrees_push w h
  | sqrt => exact agrees_pop.next preserves_pop h fun w _ _ h => agrees_push _ h

omit [Console π] in
theorem agrees_fetch (h : m.Layout) :
    Agrees (m, c) fetch (Action.lift m.fetch : Action π Definition) := by
  unfold Agrees
  by_cases hip : m.ip < m.imageEnd
  · have hlt : m.ip < m.memory.bytes.size :=
      Nat.lt_of_lt_of_le hip (Nat.le_trans h.imageEnd_le h.sp_le)
    have hopcode := Array.getElem?_eq_getElem hlt
    simp only [fetch, Machine.fetch, EStateM.run_bind, EStateM.run_get, EStateM.run_pure, hip,
      if_true, access, Memory.read8, Bytes.read8?, hopcode]
    cases m.registry.byOpcode? m.memory.bytes[m.ip] with
    | none => rfl
    | some definition =>
      by_cases hsize : m.ip + definition.size ≤ m.imageEnd
      · simp only [hsize, if_true]
        rfl
      · simp only [hsize, if_false]
        rfl
  · simp only [fetch, Machine.fetch, EStateM.run_bind, EStateM.run_get, hip, if_false]
    rfl

theorem executeNext_agrees (h : m.Layout) :
    Agrees (m, c) executeNext Machine.executeNext := by
  have hexecute : Agrees (m, c) executeNext (Action.lift m.fetch >>= fun definition =>
      (modify fun (m, console) => (m.advanced definition.size, console)) >>= fun _ =>
        Machine.perform definition.effect) := by
    refine (agrees_fetch h).next (Action.maintains_lift stepwise_keeps _) h
      fun definition m' c' h => ?_
    have hadvance : Agrees (m', c')
        (modify fun (m, console) => (m.advanced definition.size, console))
        (modify fun (m, console) => (m.advanced definition.size, console)) := rfl
    refine hadvance.bind fun _ s' hrun => ?_
    cases hrun
    exact perform_agrees definition.effect (advanced_layout _ h)
  -- What `executeNext` gets first is the state that it starts in.
  exact hexecute

end Strict

/-- With the layout in order a strict machine is not stuck, and steps as a machine does. -/
theorem strictStep_eq [Console π] {m : Machine} (h : m.Layout) (c : π) :
    m.strictStep c = some (m.step c) := by
  have hagrees : Strict.executeNext.run (m, c) = strictResult (executeNext.run (m, c)) :=
    Strict.executeNext_agrees h
  unfold strictStep step
  cases hstatus : m.status with
  | notReady => rfl
  | halted => rfl
  | faulted fault => rfl
  | running =>
    simp only [hagrees]
    cases executeNext.run (m, c) with
    | ok _ s => rfl
    | error trap s => cases trap <;> rfl

theorem slice?_image {m : Machine} (h : m.imageEnd ≤ m.memory.size) :
    m.memory.bytes.slice? 0 m.imageEnd = some m.image := by
  rw [Bytes.slice?, Nat.zero_add]
  exact if_pos h

/-- A run, step by step: each one leaves the layout in order for the next one. -/
theorem strictRunFor_eq {τ : Type} [Console π] (tracer : Tracer τ) (n : Nat) {m : Machine}
    (h : m.Layout) (c : π) (trace : τ) :
    strictRunFor tracer n m c trace = some (runFor tracer n m c trace) := by
  induction n generalizing m c trace with
  | zero =>
    unfold strictRunFor runFor
    split_ifs <;> rfl
  | succ n ih =>
    have hkeeps := step_keeps c h
    have hslice := slice?_image (Nat.le_trans h.imageEnd_le h.sp_le)
    unfold strictRunFor runFor
    split_ifs
    · simp only [hslice, strictStep_eq h]
      rcases hstep : m.step c with ⟨result, m', c'⟩
      rw [hstep] at hkeeps
      cases result with
      | ok status => exact ih hkeeps.layout c' _
      | error error => rfl
    · rfl
    · rfl

end StackMachine.Machine
