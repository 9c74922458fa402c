import StackMachine.Proofs.Machine.Refinement
import StackMachine.Proofs.Machine.Run

/-!
# The size of memory

The stack starts at the end of memory, so each address on it depends on the size of memory. A
program sees no such address: it sees how many words there is room for, and it sees that only when
a push fails. So a run in which no access fails is the same in every larger memory.

* `StackState.execute_scales`: an instruction, unless it is an access violation.
* `Roomier.step`, `Roomier.after`: a step, and any number of steps.
* `load_run_larger`: the statement for runs of a program in two sizes of memory.
-/

namespace StackMachine

variable {π : Type}

/-! ## Stacks with more room -/

namespace StackState

/-- The same state with room for another number of words. -/
def withCapacity (s : StackState) (capacity : Nat) : StackState :=
  { s with capacity }

/-- An outcome that is an access violation, or does not change with the room on the stack. -/
def Scales (capacity : Nat) (o o' : Outcome π) : Prop :=
  o.trap = some (.fault .accessViolation) ∨
    o' = ⟨o.trap, o.state.withCapacity capacity, o.console⟩

variable {s : StackState} {c : π} {capacity : Nat}

theorem scales_push (w : UInt32) (h : s.capacity ≤ capacity) :
    Scales capacity (s.push w c) ((s.withCapacity capacity).push w c) := by
  unfold push
  by_cases hroom : s.stack.length < s.capacity
  · have hroom' : (s.withCapacity capacity).stack.length < (s.withCapacity capacity).capacity :=
      hroom.trans_le h
    rw [if_pos hroom, if_pos hroom']
    exact .inr rfl
  · rw [if_neg hroom]
    exact .inl rfl

theorem scales_pop {next : UInt32 → StackState → Outcome π}
    (h : ∀ w stack, Scales capacity (next w { s with stack })
      (next w (withCapacity { s with stack } capacity))) :
    Scales capacity (s.pop c next) ((s.withCapacity capacity).pop c next) := by
  unfold pop
  have hstack : (s.withCapacity capacity).stack = s.stack := rfl
  rw [hstack]
  split
  · exact .inl rfl
  · exact h _ _

variable [Console π]

theorem execute_scales {i : Instruction} (h : s.capacity ≤ capacity)
    (hkinds : i.operands.map Operand.kind = i.definition.effect.operandKinds) :
    Scales capacity (s.execute i c) ((s.withCapacity capacity).execute i c) := by
  obtain ⟨⟨mnemonic, opcode, kinds, effect⟩, operands⟩ := i
  cases effect with
  | halt =>
    obtain rfl := List.map_eq_nil_iff.1 hkinds
    exact .inr rfl
  | pushConstant =>
    obtain ⟨w, rfl⟩ := Operand.constant_of_kinds hkinds
    exact scales_push w h
  | pushRegister =>
    obtain ⟨index, rfl⟩ := Operand.register_of_kinds hkinds
    have hregisters : (s.withCapacity capacity).registers = s.registers := rfl
    simp only [execute, hregisters]
    split
    · exact scales_push _ h
    · exact .inl rfl
  | popRegister =>
    obtain ⟨index, rfl⟩ := Operand.register_of_kinds hkinds
    have hregisters : (s.withCapacity capacity).registers = s.registers := rfl
    simp only [execute, hregisters]
    split
    · exact scales_pop fun w stack => .inr rfl
    · exact .inl rfl
  | readInt =>
    obtain rfl := List.map_eq_nil_iff.1 hkinds
    exact scales_push _ h
  | readFloat =>
    obtain rfl := List.map_eq_nil_iff.1 hkinds
    exact scales_push _ h
  | writeInt =>
    obtain rfl := List.map_eq_nil_iff.1 hkinds
    exact scales_pop fun w stack => .inr rfl
  | writeFloat =>
    obtain rfl := List.map_eq_nil_iff.1 hkinds
    exact scales_pop fun w stack => .inr rfl
  | depart =>
    obtain rfl := List.map_eq_nil_iff.1 hkinds
    exact scales_push _ h
  | call =>
    obtain ⟨target, rfl⟩ := Operand.label_of_kinds hkinds
    simp only [execute]
    by_cases hroom : s.stack.length < s.capacity
    · have hroom' : (s.withCapacity capacity).stack.length < (s.withCapacity capacity).capacity :=
        hroom.trans_le h
      rw [if_pos hroom, if_pos hroom']
      exact .inr rfl
    · rw [if_neg hroom]
      exact .inl rfl
  | «return» =>
    obtain rfl := List.map_eq_nil_iff.1 hkinds
    exact scales_pop fun w stack => .inr rfl
  | intToFloat =>
    obtain rfl := List.map_eq_nil_iff.1 hkinds
    exact scales_pop fun w stack => scales_push _ h
  | floatToInt =>
    obtain rfl := List.map_eq_nil_iff.1 hkinds
    exact scales_pop fun w stack => scales_push _ h
  | jump =>
    obtain ⟨target, rfl⟩ := Operand.label_of_kinds hkinds
    exact .inr rfl
  | branch kind comparison =>
    obtain ⟨target, rfl⟩ := Operand.label_of_kinds hkinds
    refine scales_pop fun right stack => scales_pop fun left stack => ?_
    split <;> exact .inr rfl
  | arithmetic kind operation =>
    obtain rfl := List.map_eq_nil_iff.1 hkinds
    refine scales_pop fun right stack => scales_pop fun left stack => ?_
    split
    · exact scales_push _ h
    · exact .inr rfl
  | sqrt =>
    obtain rfl := List.map_eq_nil_iff.1 hkinds
    exact scales_pop fun w stack => scales_push _ h

theorem executeNext_scales (h : s.capacity ≤ capacity) (c : π) :
    Scales capacity (s.executeNext c) ((s.withCapacity capacity).executeNext c) := by
  unfold executeNext
  have himage : (s.withCapacity capacity).image = s.image := rfl
  have hip : (s.withCapacity capacity).ip = s.ip := rfl
  rw [himage, hip]
  cases hdecode : Instruction.decode Registry.standard s.image s.ip with
  | error e => exact .inr rfl
  | ok i =>
    have hkinds := Instruction.kinds_of_decode_standard hdecode
    exact execute_scales (s := { s with ip := s.ip + i.definition.size }) h hkinds

/-- A step that is no access violation does not depend on the room on the stack. -/
theorem step_withCapacity (h : s.capacity ≤ capacity) (c : π)
    (hfits : (s.step c).2.1.status ≠ .faulted .accessViolation) :
    (s.withCapacity capacity).step c =
      ((s.step c).1, (s.step c).2.1.withCapacity capacity, (s.step c).2.2) := by
  have hscales := executeNext_scales h c
  unfold step at hfits ⊢
  have hsame : (s.withCapacity capacity).status = s.status := rfl
  rw [hsame]
  cases hstatus : s.status with
  | notReady => rfl
  | halted => rfl
  | faulted fault => rfl
  | running =>
    rw [hstatus] at hfits
    rcases hnext : s.executeNext c with ⟨trap, s', c'⟩
    rw [hnext] at hscales hfits
    rcases hscales with hviolation | heq
    · cases hviolation
      exact absurd rfl hfits
    · simp only [heq]
      cases trap with
      | none => rfl
      | some trap => cases trap <;> rfl

end StackState

namespace Machine

variable [Console π] {m m' : Machine} {c : π}

/-! ## Machines with more memory -/

/-- Two machines with standard instructions, the second of which a program can tell from the first
only by the larger room on the stack. -/
structure Roomier (m m' : Machine) : Prop where
  registry_eq : m.registry = Registry.standard ∧ m'.registry = Registry.standard
  layout : m.Layout ∧ m'.Layout
  view_eq : m'.view = m.view.withCapacity m'.capacity
  capacity_le : m.capacity ≤ m'.capacity

namespace Roomier

theorem step (h : Roomier m m') (c : π)
    (hfits : (m.step c).2.1.status ≠ .faulted .accessViolation) :
    (m'.step c).1 = (m.step c).1 ∧ Roomier (m.step c).2.1 (m'.step c).2.1 ∧
      (m'.step c).2.2 = (m.step c).2.2 := by
  have hkeeps := step_keeps c h.layout.1
  have hkeeps' := step_keeps c h.layout.2
  have hstep := step_view h.registry_eq.1 h.layout.1 c
  have hstep' := step_view h.registry_eq.2 h.layout.2 c
  have hsame : m.view.step c = ((m.step c).1, (m.step c).2.1.view, (m.step c).2.2) := hstep.symm
  rw [h.view_eq, StackState.step_withCapacity h.capacity_le c (by rw [hsame]; exact hfits),
    hsame] at hstep'
  simp only [Prod.mk.injEq] at hstep'
  obtain ⟨hresult, hview, hconsole⟩ := hstep'
  refine ⟨hresult, ⟨?_, ⟨hkeeps.layout, hkeeps'.layout⟩, ?_, ?_⟩, hconsole⟩
  · exact ⟨hkeeps.registry_eq.trans h.registry_eq.1, hkeeps'.registry_eq.trans h.registry_eq.2⟩
  · rw [hview, hkeeps'.capacity_eq]
  · rw [hkeeps.capacity_eq, hkeeps'.capacity_eq]
    exact h.capacity_le

theorem fits_of_succ {n : Nat}
    (hfits : (after (n + 1) m c).1.status ≠ .faulted .accessViolation) :
    (after n m c).1.status ≠ .faulted .accessViolation := by
  intro hviolation
  have hstopped : (after n m c).1.status ≠ .running := by
    rw [hviolation]
    nofun
  rw [after_succ, step_of_stopped hstopped] at hfits
  exact hfits hviolation

/-- Any number of steps, if none is an access violation. -/
theorem after (h : Roomier m m') (n : Nat) (c : π)
    (hfits : (after n m c).1.status ≠ .faulted .accessViolation) :
    Roomier (after n m c).1 (after n m' c).1 ∧ (after n m' c).2 = (after n m c).2 := by
  induction n with
  | zero => exact ⟨h, rfl⟩
  | succ n ih =>
    obtain ⟨hroomier, hconsole⟩ := ih (fits_of_succ hfits)
    rw [after_succ] at hfits
    obtain ⟨-, hnext, hconsole'⟩ := hroomier.step _ hfits
    rw [after_succ, after_succ, hconsole]
    exact ⟨hnext, hconsole'⟩

theorem failure?_eq (h : Roomier m m') (n : Nat) (c : π)
    (hfits : (Machine.after n m c).1.status ≠ .faulted .accessViolation) :
    failure? m' c n = failure? m c n := by
  cases n with
  | zero => rfl
  | succ n =>
    obtain ⟨hroomier, hconsole⟩ := h.after n c (fits_of_succ hfits)
    rw [after_succ] at hfits
    obtain ⟨hresult, -, -⟩ := hroomier.step _ hfits
    rw [failure?, failure?, hconsole, hresult]

theorem status_eq (h : Roomier m m') : m'.status = m.status :=
  congrArg StackState.status h.view_eq

theorem ends_iff (h : Roomier m m') (n : Nat) (c : π)
    (hfits : (Machine.after n m c).1.status ≠ .faulted .accessViolation) :
    Ends none m' c n ↔ Ends none m c n := by
  unfold Ends
  rw [(h.after n c hfits).1.status_eq, h.failure?_eq n c hfits]

/-- A run that ends without an access violation ends after the same number of steps. -/
theorem isLeast_ends (h : Roomier m m') {k : Nat} (hk : IsLeast {k | Ends none m c k} k)
    (hfits : (Machine.after k m c).1.status ≠ .faulted .accessViolation) :
    IsLeast {k | Ends none m' c k} k := by
  refine ⟨(h.ends_iff k c hfits).2 hk.1, fun j hj => Nat.le_of_not_lt fun hlt => ?_⟩
  -- The run in less memory is still on its way then, so no access has failed either.
  have hgoes : ¬ Ends none m c j := fun hends => absurd (hk.2 hends) (Nat.not_le_of_lt hlt)
  have hrunning : (Machine.after j m c).1.status = .running := by
    by_contra hstopped
    exact hgoes (.inl hstopped)
  have hfits' : (Machine.after j m c).1.status ≠ .faulted .accessViolation := by
    rw [hrunning]
    nofun
  exact hgoes ((h.ends_iff j c hfits').1 hj)

/-- What a program can tell of the two machines. -/
theorem seen (h : Roomier m m') :
    m'.ip = m.ip ∧ m'.registers = m.registers ∧ m'.memory.size - m'.sp = m.memory.size - m.sp := by
  have hwords : m'.words = m.words := congrArg StackState.stack h.view_eq
  have hlength := length_words h.layout.1
  have hlength' := length_words h.layout.2
  rw [hwords] at hlength'
  refine ⟨congrArg StackState.ip h.view_eq, ?_, hlength'.symm.trans hlength⟩
  exact Array.toList_inj.1 (congrArg StackState.registers h.view_eq)

theorem of_load {image : Bytes} {header : Header} (hregistry : m.registry = Registry.standard)
    (hregistry' : m'.registry = Registry.standard) (hcheck : Header.check image = .ok header)
    (hfits : image.size ≤ m.memory.size) (hsize : m.memory.size ≤ m'.memory.size) :
    Roomier (m.load image).2 (m'.load image).2 := by
  have hstarted := load_started hcheck hfits
  have hstarted' := load_started hcheck (hfits.trans hsize)
  refine ⟨⟨?_, ?_⟩, ⟨hstarted.layout, hstarted'.layout⟩, ?_, ?_⟩
  · exact hstarted.registry_eq.trans hregistry
  · exact hstarted'.registry_eq.trans hregistry'
  · rw [view_load hstarted, view_load hstarted', capacity, hstarted'.size_eq, hstarted'.imageEnd_eq]
    rfl
  · rw [capacity, capacity, hstarted.size_eq, hstarted'.size_eq, hstarted.imageEnd_eq,
      hstarted'.imageEnd_eq]
    exact Nat.div_le_div_right (Nat.sub_le_sub_right hsize _)

end Roomier

/-- A run of a program that ends in some memory without an access violation ends in a larger memory
after the same number of steps and in the same way: with the same status, `ip` and registers, the
same failure of the console if there is one, the same depth of the stack, and the same console. -/
theorem load_run_larger {image : Bytes} (hregistry : m.registry = Registry.standard)
    (hregistry' : m'.registry = Registry.standard) (hload : (m.load image).1 = .ok ())
    (hsize : m.memory.size ≤ m'.memory.size) {k : Nat}
    (hk : IsLeast {k | Ends none (m.load image).2 c k} k)
    (hstatus : (after k (m.load image).2 c).1.status ≠ .faulted .accessViolation) :
    let t := after k (m.load image).2 c
    let t' := after k (m'.load image).2 c
    (m'.load image).1 = .ok () ∧ IsLeast {k | Ends none (m'.load image).2 c k} k ∧
      t'.1.status = t.1.status ∧
      failure? (m'.load image).2 c k = failure? (m.load image).2 c k ∧
      t'.1.ip = t.1.ip ∧ t'.1.registers = t.1.registers ∧ t'.2 = t.2 ∧
      m'.memory.size - t'.1.sp = m.memory.size - t.1.sp := by
  intro t t'
  obtain ⟨⟨header, hcheck⟩, hfits⟩ := load_eq_ok_iff.1 hload
  have hload' : (m'.load image).1 = .ok () := load_eq_ok_iff.2 ⟨⟨header, hcheck⟩, hfits.trans hsize⟩
  have hroomier := Roomier.of_load hregistry hregistry' hcheck hfits hsize
  obtain ⟨hend, hconsole⟩ := hroomier.after k c hstatus
  obtain ⟨hip, hregisters, hdepth⟩ := hend.seen
  have hmemory : t.1.memory.size = m.memory.size :=
    (after_keeps k c hroomier.layout.1).size_eq.trans (load_started hcheck hfits).size_eq
  have hmemory' : t'.1.memory.size = m'.memory.size :=
    (after_keeps k c hroomier.layout.2).size_eq.trans
      (load_started hcheck (hfits.trans hsize)).size_eq
  rw [hmemory, hmemory'] at hdepth
  exact ⟨hload', hroomier.isLeast_ends hk hstatus, hend.status_eq, hroomier.failure?_eq k c hstatus,
    hip, hregisters, hconsole, hdepth⟩

/-- `push 5`, a call that looks at its own address, and `out`. -/
def callAndWrite : Bytes :=
  (Header.withRegisters 1).toBytes ++
    #[0x01, 5, 0, 0, 0, 0x08, 18, 0, 0x05, 0x00, 0x07, 0x03, 0, 0x09]

/-- A program that fills the stack in 34 bytes of memory does the same in 57. -/
theorem load_run_larger_call :
    let m := create Registry.standard 34
    let m' := create Registry.standard 57
    let c := BufferedConsole.ofText ""
    (m.load callAndWrite).1 = .ok () ∧ m.memory.size ≤ m'.memory.size ∧
      IsLeast {k | Ends none (m.load callAndWrite).2 c k} 7 ∧
      (after 7 (m.load callAndWrite).2 c).1.status ≠ .faulted .accessViolation ∧
      let t := after 7 (m'.load callAndWrite).2 c
      t.1.status = .halted ∧ t.1.ip = 18 ∧ t.1.registers = #[19] ∧ t.2.output = "5\n" := by
  intro m m' c
  have hregistry : m.registry = Registry.standard := registry_create ..
  have hregistry' : m'.registry = Registry.standard := registry_create ..
  have hload : (m.load callAndWrite).1 = .ok () := by decide +kernel
  have hsize : m.memory.size ≤ m'.memory.size := by decide +kernel
  have hgoes : ∀ k < 7, (after k (m.load callAndWrite).2 c).1.status = .running ∧
      failure? (m.load callAndWrite).2 c k = none := by
    decide +kernel
  have hend : (after 7 (m.load callAndWrite).2 c).1.status = .halted ∧
      (after 7 (m.load callAndWrite).2 c).1.ip = 18 ∧
      (after 7 (m.load callAndWrite).2 c).1.registers = #[19] ∧
      (after 7 (m.load callAndWrite).2 c).2.output = "5\n" := by
    decide +kernel
  have hstopped : (after 7 (m.load callAndWrite).2 c).1.status ≠ .running := by
    rw [hend.1]
    nofun
  have hstatus : (after 7 (m.load callAndWrite).2 c).1.status ≠ .faulted .accessViolation := by
    rw [hend.1]
    nofun
  have hleast : IsLeast {k | Ends none (m.load callAndWrite).2 c k} 7 :=
    isLeast_ends_of_goes (.inl hstopped) hgoes nofun
  obtain ⟨-, -, hsame, -, hip, hregisters, hconsole, -⟩ :=
    load_run_larger hregistry hregistry' hload hsize hleast hstatus
  refine ⟨hload, hsize, hleast, hstatus, hsame.trans hend.1, hip.trans hend.2.1,
    hregisters.trans hend.2.2.1, ?_⟩
  rw [hconsole]
  exact hend.2.2.2

end Machine

end StackMachine
