import Mathlib.Algebra.Group.Nat.Defs
import StackMachine.Proofs.Machine.StackState

/-!
# The machine carries out the instruction table

What a program can tell of a machine is its view, a state of the stack machine. A step of the
machine is seen as a step of the stack machine, so a whole run is.

* `Bytes.toSigned_eq`, `Bytes.ofSigned_eq`: signed numbers are those of `Int32`, hence
  `compareWords_eq` and `computeWords_eq`.
* `seen_push`, `seen_pop_bind`: pushing and popping act on the list of words.
* `seen_perform`, `step_view`: the instruction table, and a step.
* `after_view`, `load_refines`: any number of steps from the start of a program.
-/

namespace StackMachine

/-! ## Signed numbers -/

namespace Bytes

theorem toSigned_eq (w : UInt32) : toSigned w = w.toInt32.toInt := by
  have hw := w.toNat_lt
  rw [← Int32.toInt_toBitVec, UInt32.toBitVec_toInt32, BitVec.toInt_eq_toNat_cond,
    UInt32.toNat_toBitVec, toSigned]
  split <;> split <;> omega

theorem toSigned_inj {v w : UInt32} : toSigned v = toSigned w ↔ v = w := by
  constructor
  · intro h
    rw [← ofSigned_toSigned v, h, ofSigned_toSigned]
  · exact congrArg toSigned

theorem toSigned_ofSigned (i : Int) : toSigned (ofSigned i) = i.bmod Int32.size := by
  simp only [toSigned, ofSigned, UInt32.toNat_ofNat', Int.bmod, Int32.size]
  split <;> split <;> omega

theorem ofSigned_eq (i : Int) : ofSigned i = (Int32.ofInt i).toUInt32 := by
  rw [← toSigned_inj, toSigned_ofSigned, toSigned_eq, Int32.toInt32_toUInt32, Int32.toInt_ofInt]

end Bytes

namespace Machine

theorem compareWords_eq (kind : NumberKind) (comparison : Comparison) (left right : UInt32) :
    compareWords kind comparison left right = StackState.holds kind comparison left right := by
  cases kind with
  | float => cases comparison <;> rfl
  | int =>
    simp only [compareWords, Bytes.toSigned_eq]
    cases comparison with
    | above => simp only [compareInt, StackState.holds, gt_iff_lt, Int32.lt_iff_toInt_lt]
    | aboveEqual => simp only [compareInt, StackState.holds, ge_iff_le, Int32.le_iff_toInt_le]
    | below => simp only [compareInt, StackState.holds, Int32.lt_iff_toInt_lt]
    | belowEqual => simp only [compareInt, StackState.holds, Int32.le_iff_toInt_le]
    | equal =>
      rw [compareInt, StackState.holds, Bool.eq_iff_iff, beq_iff_eq, beq_iff_eq, Int32.toInt_inj]
    | notEqual =>
      rw [compareInt, StackState.holds, Bool.eq_iff_iff, bne_iff_ne, bne_iff_ne, Ne, Ne,
        Int32.toInt_inj]

theorem computeWords_eq (kind : NumberKind) (operation : Arithmetic) (left right : UInt32) :
    computeWords kind operation left right =
      match StackState.value? kind operation left right with
      | some w => .ok w
      | none => .error .divisionByZero := by
  have hzero : right.toInt32 = 0 ↔ right = 0 := by
    constructor
    · intro h
      exact (UInt32.toUInt32_toInt32 right).symm.trans (congrArg Int32.toUInt32 h)
    · intro h
      rw [h]
      rfl
  cases kind with
  | float => cases operation <;> rfl
  | int =>
    cases operation with
    | add => simp only [computeWords, computeInt, StackState.value?, ← UInt32.toInt32_add,
        UInt32.toUInt32_toInt32]
    | sub => simp only [computeWords, computeInt, StackState.value?, ← UInt32.toInt32_sub,
        UInt32.toUInt32_toInt32]
    | mul => simp only [computeWords, computeInt, StackState.value?, ← UInt32.toInt32_mul,
        UInt32.toUInt32_toInt32]
    | div =>
      simp only [computeWords, computeInt, StackState.value?, hzero]
      split
      · rfl
      · have hdiv : Int32.ofInt (left.toInt32.toInt.tdiv right.toInt32.toInt) =
            left.toInt32 / right.toInt32 := by
          rw [← Int32.toInt_inj, Int32.toInt_ofInt, Int32.toInt_div]
        rw [Bytes.ofSigned_eq, Bytes.toSigned_eq, Bytes.toSigned_eq, hdiv]
    | rem =>
      simp only [computeWords, computeInt, StackState.value?, hzero]
      split
      · rfl
      · have hmod : Int32.ofInt (left.toInt32.toInt.tmod right.toInt32.toInt) =
            left.toInt32 % right.toInt32 := by
          rw [← Int32.toInt_mod, Int32.ofInt_toInt]
        rw [Bytes.ofSigned_eq, Bytes.toSigned_eq, Bytes.toSigned_eq, hmod]

/-! ## Views -/

variable {π : Type} {m : Machine} {c : π}

/-- What a program can tell of a machine. -/
def view (m : Machine) : StackState where
  status := m.status
  ip := m.ip
  registers := m.registers.toList
  image := m.image
  capacity := m.capacity
  stack := m.words

/-- What an action comes to, as a program sees it. -/
def seen (result : EStateM.Result Trap (Machine × π) Unit) : StackState.Outcome π :=
  match result with
  | .ok () (m, c) => ⟨none, m.view, c⟩
  | .error trap (m, c) => ⟨some trap, m.view, c⟩

theorem view_pushed {w : UInt32} (h : m.Layout) (hroom : m.words.length < m.capacity) :
    (m.pushed w).view = { m.view with stack := w :: m.words } := by
  simp only [view, words_pushed h hroom, (pushed_keeps h hroom).image_eq,
    (pushed_keeps h hroom).capacity_eq]
  simp only [pushed]

theorem view_popped {w : UInt32} {rest : List UInt32} (h : m.Layout)
    (hwords : m.words = w :: rest) : m.popped.view = { m.view with stack := rest } := by
  have hpopped := words_eq_cons h hwords
  simp only [view, hpopped.2.1, hpopped.2.2.image_eq, hpopped.2.2.capacity_eq]
  simp only [popped]

theorem view_registers (registers : Array UInt32) :
    view { m with registers } = { m.view with registers := registers.toList } :=
  rfl

theorem view_ip (ip : Nat) : view { m with ip } = { m.view with ip } :=
  rfl

open StackMachine.Machine.Action

theorem seen_push (w : UInt32) (h : m.Layout) : seen ((push w).run (m, c)) = m.view.push w c := by
  rw [run_push w h, StackState.push]
  by_cases hroom : m.words.length < m.capacity
  · rw [if_pos hroom, if_pos (show m.view.stack.length < m.view.capacity from hroom)]
    simp only [seen, view_pushed h hroom]
    rfl
  · rw [if_neg hroom, if_neg (show ¬ m.view.stack.length < m.view.capacity from hroom)]
    rfl

/-- An action that starts with a pop. Its rest is run in a machine that differs in the stack
only. -/
theorem seen_pop_bind {f : UInt32 → Action π Unit}
    {g : UInt32 → StackState → StackState.Outcome π} (h : m.Layout)
    (hf : ∀ w, m.popped.Layout → seen ((f w).run (m.popped, c)) = g w m.popped.view) :
    seen ((pop >>= f).run (m, c)) = m.view.pop c g := by
  rw [EStateM.run_bind, StackState.pop]
  simp only [view]
  cases hwords : m.words with
  | nil =>
    rw [run_pop_nil h hwords]
    simp only [seen, StackState.fault, view, hwords]
  | cons w rest =>
    have hlayout := (words_eq_cons h hwords).2.2.layout
    rw [run_pop_cons h hwords]
    exact (hf w hlayout).trans (congrArg (g w) (view_popped h hwords))

/-! ## Instructions -/

theorem readsOperand_popped {operand : Operand} :
    m.popped.ReadsOperand operand ↔ m.ReadsOperand operand := by
  cases operand <;> exact Iff.rfl

theorem run_output (write : π → Option ConsoleError × π) :
    (output write).run (m, c) =
      match (write c).1 with
      | some error => .error (.console error) (m, (write c).2)
      | none => .ok () (m, (write c).2) := by
  unfold output
  rw [EStateM.run_bind, EStateM.run_modifyGet]
  simp only
  cases (write c).1 <;> rfl

theorem seen_output (write : π → Option ConsoleError × π) :
    seen ((output write).run (m, c)) = m.view.written (write c) := by
  rw [run_output, StackState.written]
  cases (write c).1 <;> rfl

theorem seen_pushRegister {index : UInt8} (h : m.Layout)
    (hread : m.ReadsOperand (.register index)) :
    seen ((registerOperand >>= fun index => get >>= fun s : Machine × π =>
        push (s.1.registers.getD index 0)).run (m, c)) =
      match m.registers.toList[index.toNat]? with
      | some w => m.view.push w c
      | none => m.view.fault .accessViolation c := by
  rw [EStateM.run_bind, run_registerOperand hread, Array.getElem?_toList]
  by_cases hlt : index.toNat < m.registers.size
  · have hget : m.registers.getD index.toNat 0 = m.registers[index.toNat] := by
      rw [Array.getD_eq_getD_getElem?, Array.getElem?_eq_getElem hlt, Option.getD_some]
    rw [if_pos hlt, Array.getElem?_eq_getElem hlt]
    simp only [EStateM.run_bind, EStateM.run_get, hget]
    exact seen_push _ h
  · rw [if_neg hlt, Array.getElem?_eq_none (by omega)]
    rfl

theorem seen_popRegister {index : UInt8} (h : m.Layout)
    (hread : m.ReadsOperand (.register index)) :
    seen ((registerOperand >>= fun index => pop >>= fun w =>
        modify fun (m, console) =>
          ({ m with registers := m.registers.setIfInBounds index w }, console)).run (m, c)) =
      if index.toNat < m.registers.toList.length then
        m.view.pop c fun w s => ⟨none, { s with registers := s.registers.set index.toNat w }, c⟩
      else
        m.view.fault .accessViolation c := by
  rw [EStateM.run_bind, run_registerOperand hread, Array.length_toList]
  by_cases hlt : index.toNat < m.registers.size
  · rw [if_pos hlt, if_pos hlt]
    refine seen_pop_bind h fun w hpopped => ?_
    rw [EStateM.run_modify]
    simp only [seen, view_registers, Array.toList_setIfInBounds]
    rfl
  · rw [if_neg hlt, if_neg hlt]
    rfl

theorem run_returnAddress :
    (returnAddress : Action π UInt32).run (m, c) = .ok (UInt32.ofNat m.ip) (m, c) :=
  rfl

theorem seen_call {target : UInt16} (h : m.Layout) (hread : m.ReadsOperand (.label target)) :
    seen ((labelOperand >>= fun target => returnAddress >>= fun w => push w >>= fun _ =>
        jump target).run (m, c)) =
      if m.words.length < m.capacity then
        ⟨none, { m.view with ip := target.toNat, stack := UInt32.ofNat m.ip :: m.words }, c⟩
      else
        m.view.fault .accessViolation c := by
  simp only [EStateM.run_bind, run_labelOperand hread, run_returnAddress, run_push _ h]
  by_cases hroom : m.words.length < m.capacity
  · rw [if_pos hroom, if_pos hroom]
    simp only [jump, EStateM.run_modify, seen, view_ip, view_pushed h hroom]
  · rw [if_neg hroom, if_neg hroom]
    rfl

theorem seen_branch {kind : NumberKind} {comparison : Comparison} {target : UInt16} (h : m.Layout)
    (hread : m.ReadsOperand (.label target)) :
    seen ((pop >>= fun right => pop >>= fun left =>
        if compareWords kind comparison left right then labelOperand >>= jump else pure ()).run
        (m, c)) =
      m.view.pop c fun right s => s.pop c fun left s =>
        if StackState.holds kind comparison left right then
          ⟨none, { s with ip := target.toNat }, c⟩
        else ⟨none, s, c⟩ := by
  refine seen_pop_bind h fun right hpopped => ?_
  refine seen_pop_bind hpopped fun left _ => ?_
  rw [compareWords_eq]
  cases StackState.holds kind comparison left right
  · rfl
  · have htarget : m.popped.popped.ReadsOperand (.label target) :=
      readsOperand_popped.2 (readsOperand_popped.2 hread)
    simp only [if_true, EStateM.run_bind, run_labelOperand htarget]
    rfl

theorem seen_arithmetic {kind : NumberKind} {operation : Arithmetic} (h : m.Layout) :
    seen ((pop >>= fun right => pop >>= fun left =>
        lift (computeWords kind operation left right) >>= push).run (m, c)) =
      m.view.pop c fun right s => s.pop c fun left s =>
        match StackState.value? kind operation left right with
        | some w => s.push w c
        | none => s.fault .divisionByZero c := by
  refine seen_pop_bind h fun right hpopped => ?_
  refine seen_pop_bind hpopped fun left hpopped => ?_
  rw [EStateM.run_bind, run_lift, computeWords_eq]
  cases StackState.value? kind operation left right with
  | none => rfl
  | some w => exact seen_push w hpopped

variable [Console π]

theorem seen_perform {i : Instruction} (h : m.Layout)
    (hkinds : i.operands.map Operand.kind = i.definition.effect.operandKinds)
    (hread : ∀ operand ∈ i.operands.head?, m.ReadsOperand operand) :
    seen ((perform i.definition.effect).run (m, c)) = m.view.execute i c := by
  obtain ⟨⟨mnemonic, opcode, kinds, effect⟩, operands⟩ := i
  -- The effect tells how many operands there are, and of which kinds.
  cases effect with
  | halt =>
    obtain rfl := List.map_eq_nil_iff.1 hkinds
    rfl
  | pushConstant =>
    obtain ⟨w, rfl⟩ := Operand.constant_of_kinds hkinds
    have hw := hread _ rfl
    simp only [perform, StackState.execute, EStateM.run_bind, run_constantOperand hw]
    exact seen_push w h
  | pushRegister =>
    obtain ⟨index, rfl⟩ := Operand.register_of_kinds hkinds
    simp only [perform, StackState.execute]
    exact seen_pushRegister h (hread _ rfl)
  | popRegister =>
    obtain ⟨index, rfl⟩ := Operand.register_of_kinds hkinds
    simp only [perform, StackState.execute]
    exact seen_popRegister h (hread _ rfl)
  | readInt =>
    obtain rfl := List.map_eq_nil_iff.1 hkinds
    simp only [perform, StackState.execute, EStateM.run_bind, input, EStateM.run_modifyGet]
    exact seen_push _ h
  | readFloat =>
    obtain rfl := List.map_eq_nil_iff.1 hkinds
    simp only [perform, StackState.execute, EStateM.run_bind, input, EStateM.run_modifyGet]
    exact seen_push _ h
  | writeInt =>
    obtain rfl := List.map_eq_nil_iff.1 hkinds
    simp only [perform, StackState.execute]
    refine seen_pop_bind h fun w _ => ?_
    exact seen_output _
  | writeFloat =>
    obtain rfl := List.map_eq_nil_iff.1 hkinds
    simp only [perform, StackState.execute]
    refine seen_pop_bind h fun w _ => ?_
    exact seen_output _
  | depart =>
    obtain rfl := List.map_eq_nil_iff.1 hkinds
    simp only [perform, StackState.execute, EStateM.run_bind, run_returnAddress]
    exact seen_push _ h
  | call =>
    obtain ⟨target, rfl⟩ := Operand.label_of_kinds hkinds
    simp only [perform, StackState.execute]
    exact seen_call h (hread _ rfl)
  | «return» =>
    obtain rfl := List.map_eq_nil_iff.1 hkinds
    simp only [perform, StackState.execute]
    refine seen_pop_bind h fun w _ => ?_
    rfl
  | intToFloat =>
    obtain rfl := List.map_eq_nil_iff.1 hkinds
    simp only [perform, StackState.execute, Bytes.toSigned_eq]
    refine seen_pop_bind h fun w hpopped => ?_
    exact seen_push _ hpopped
  | floatToInt =>
    obtain rfl := List.map_eq_nil_iff.1 hkinds
    simp only [perform, StackState.execute, Bytes.ofSigned_eq]
    refine seen_pop_bind h fun w hpopped => ?_
    exact seen_push _ hpopped
  | jump =>
    obtain ⟨target, rfl⟩ := Operand.label_of_kinds hkinds
    have htarget := hread _ rfl
    simp only [perform, StackState.execute, EStateM.run_bind, run_labelOperand htarget]
    rfl
  | branch kind comparison =>
    obtain ⟨target, rfl⟩ := Operand.label_of_kinds hkinds
    simp only [perform, StackState.execute]
    exact seen_branch h (hread _ rfl)
  | arithmetic kind operation =>
    obtain rfl := List.map_eq_nil_iff.1 hkinds
    simp only [perform, StackState.execute]
    exact seen_arithmetic h
  | sqrt =>
    obtain rfl := List.map_eq_nil_iff.1 hkinds
    simp only [perform, StackState.execute]
    refine seen_pop_bind h fun w hpopped => ?_
    exact seen_push _ hpopped

/-! ## Steps -/

theorem seen_executeNext (hregistry : m.registry = Registry.standard) (h : m.Layout) :
    seen (executeNext.run (m, c)) = m.view.executeNext c := by
  rw [run_executeNext h, StackState.executeNext, ← hregistry]
  simp only [view]
  cases hdecode : Instruction.decode m.registry m.image m.ip with
  | error e => rfl
  | ok i =>
    have hkinds := Instruction.kinds_of_decode_standard (hregistry ▸ hdecode)
    refine seen_perform (advanced_layout _ h) hkinds fun operand hoperand => ?_
    obtain ⟨rest, hrest⟩ := List.head?_eq_some_iff.1 hoperand
    exact readsOperand_of_decode hdecode hrest

theorem step_view (hregistry : m.registry = Registry.standard) (h : m.Layout) (c : π) :
    ((m.step c).1, (m.step c).2.1.view, (m.step c).2.2) = m.view.step c := by
  have hseen := seen_executeNext (c := c) hregistry h
  unfold step StackState.step
  cases hstatus : m.status with
  | notReady => simp only [view, hstatus]
  | halted => simp only [view, hstatus]
  | faulted fault => simp only [view, hstatus]
  | running =>
    simp only [show m.view.status = .running from hstatus, ← hseen]
    cases executeNext.run (m, c) with
    | ok _ _ => rfl
    | error trap _ => cases trap <;> rfl

theorem after_view (hregistry : m.registry = Registry.standard) (h : m.Layout) (n : Nat) (c : π) :
    ((after n m c).1.view, (after n m c).2) = StackState.after n m.view c := by
  induction n with
  | zero => rfl
  | succ n ih =>
    have hkeeps := after_keeps n c h
    have hstep := step_view (hkeeps.registry_eq.trans hregistry) hkeeps.layout (after n m c).2
    rw [after_succ, StackState.after_succ, ← ih]
    exact congrArg Prod.snd hstep

/-! ## Programs -/

/-- How a machine with a loaded image and a state of the stack machine belong together. The words of
the stack stand in memory from `sp` on, and they reach to its end. -/
structure Refines (image : Bytes) (memorySize : Nat) (m : Machine) (s : StackState) : Prop where
  status_eq : m.status = s.status
  ip_eq : m.ip = s.ip
  registers_eq : m.registers.toList = s.registers
  size_eq : m.memory.size = memorySize
  image_eq : m.image = image ∧ s.image = image
  capacity_eq : s.capacity = (memorySize - image.size) / 4
  length_le : s.stack.length ≤ s.capacity
  sp_eq : m.sp + 4 * s.stack.length = memorySize
  word_eq : ∀ k w, s.stack[k]? = some w → m.memory.bytes.read32? (m.sp + 4 * k) = some w

theorem refines_view {image : Bytes} {memorySize : Nat} (h : m.Layout) (himage : m.image = image)
    (hsize : m.memory.size = memorySize) : Refines image memorySize m m.view := by
  have hlength := length_words h
  have hsp := h.sp_le
  refine ⟨rfl, rfl, rfl, hsize, ⟨himage, himage⟩, ?_, length_words_le h, ?_, ?_⟩
  · have himageSize := size_image h
    rw [himage] at himageSize
    rw [himageSize, ← hsize]
    rfl
  · show m.sp + 4 * m.words.length = memorySize
    omega
  · intro k w hw
    have hk : k < m.words.length := (List.getElem?_eq_some_iff.1 hw).1
    rw [← getElem?_words h hk]
    exact hw

theorem view_load {image : Bytes} {header : Header} {m' : Machine}
    (h : Started image header m m') : m'.view = .start image header m.memory.size := by
  rw [view, StackState.start, h.status_eq, h.ip_eq, h.registers_eq, h.image_eq, h.words_eq,
    capacity, h.size_eq, h.imageEnd_eq, Array.toList_replicate]

/-- A machine that was started with an image is the stack machine of the instruction table, step by
step and for any console. The address that `dep` and `call` push, which is behind the instruction at
`ip`, is not changed by being made a word. -/
theorem load_refines {image : Bytes} (hregistry : m.registry = Registry.standard)
    (himage : image.size < 2 ^ 32) (hload : (m.load image).1 = .ok ()) (c : π) :
    ∃ header, Header.check image = .ok header ∧ ∀ n,
      let t := after n (m.load image).2 c
      let s := StackState.after n (.start image header m.memory.size) c
      Refines image m.memory.size t.1 s.1 ∧ t.2 = s.2 ∧ (t.1.step t.2).1 = (s.1.step s.2).1 ∧
        ∀ i, Instruction.decode Registry.standard image s.1.ip = .ok i →
          (UInt32.ofNat (s.1.ip + i.definition.size)).toNat = s.1.ip + i.definition.size := by
  obtain ⟨⟨header, hcheck⟩, hfits⟩ := load_eq_ok_iff.1 hload
  refine ⟨header, hcheck, fun n => ?_⟩
  have hstarted := load_started hcheck hfits
  have hregistry' : (m.load image).2.registry = Registry.standard :=
    hstarted.registry_eq.trans hregistry
  have hkeeps := after_keeps n c hstarted.layout
  have hview := after_view hregistry' hstarted.layout n c
  rw [view_load hstarted] at hview
  have hstep := step_view (hkeeps.registry_eq.trans hregistry') hkeeps.layout
    (after n (m.load image).2 c).2
  rw [← hview]
  refine ⟨?_, rfl, congrArg Prod.fst hstep, ?_⟩
  · exact refines_view hkeeps.layout (hkeeps.image_eq.trans hstarted.image_eq)
      (hkeeps.size_eq.trans hstarted.size_eq)
  · intro i hi
    obtain ⟨_, _, _, hend, _⟩ := Instruction.decode_eq_ok hi
    exact UInt32.toNat_ofNat_of_lt (hend.trans_lt himage)

/-- `push 7`, then `dep`. -/
def pushThenDepart : Bytes :=
  (Header.withRegisters 1).toBytes ++ #[0x01, 7, 0, 0, 0, 0x07]

/-- With 19 bytes of memory there is room for one word, at the address 15, and `dep` finds none. -/
theorem load_refines_pushThenDepart :
    pushThenDepart.size < 2 ^ 32 ∧
      ((create Registry.standard 19).load pushThenDepart).1 = .ok () ∧
      let t := (after 2 ((create Registry.standard 19).load pushThenDepart).2
        (BufferedConsole.ofText "")).1
      t.status = .faulted .accessViolation ∧ t.ip = 14 ∧ t.sp = 15 ∧
        t.memory.bytes.read32? 15 = some 7 := by
  have hsize : pushThenDepart.size < 2 ^ 32 := by decide
  have hload : ((create Registry.standard 19).load pushThenDepart).1 = .ok () := by
    decide +kernel
  obtain ⟨header, hcheck, hrefines⟩ :=
    load_refines (registry_create ..) hsize hload (BufferedConsole.ofText "")
  have hheader : Header.check pushThenDepart = .ok (Header.withRegisters 1) := by decide +kernel
  obtain rfl : header = Header.withRegisters 1 := Except.ok.inj (hcheck.symm.trans hheader)
  have hend := (hrefines 2).1
  rw [size_create] at hend
  have hstack : (StackState.after 2 (.start pushThenDepart (Header.withRegisters 1) 19)
      (BufferedConsole.ofText "")).1.stack = [7] := by decide +kernel
  have hsp := hend.sp_eq
  have hword := hend.word_eq 0 7 (by rw [hstack]; rfl)
  rw [hstack] at hsp
  have hsp : (after 2 ((create Registry.standard 19).load pushThenDepart).2
    (BufferedConsole.ofText "")).1.sp = 15 := by simpa using hsp
  rw [hsp] at hword
  refine ⟨hsize, hload, hend.status_eq.trans ?_, hend.ip_eq.trans ?_, hsp, hword⟩
  · decide +kernel
  · decide +kernel

end Machine

end StackMachine
