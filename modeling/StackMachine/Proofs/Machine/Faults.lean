import StackMachine.Proofs.Machine.Effects
import StackMachine.Proofs.Machine.Reload

/-!
# Machines after a fault

A machine that a fault has stopped can be examined: nothing was written, and the addresses tell
whether the fetch has failed, or how far the instruction got. It stays so, whatever is done with it,
until an image is loaded.

* `eq_of_fetch_eq_error`: the faults of a fetch.
* `top_eq_zero`: a division by zero finds the zero on top of the stack.
* `step_eq_of_fault`: what a step leaves that ends in a fault.
* `Continued.eq`: a machine that a fault has stopped stays as it is.
* `step_faulted`: all of this about one step.
-/

namespace StackMachine.Machine

variable {π τ : Type} [Console π] {m m' : Machine} {c : π} {fault : Fault}

open StackMachine.Machine.Action

/-! ## Steps that end in a fault -/

/-- A fetch finds no instruction, or not all of it. -/
theorem eq_of_fetch_eq_error (h : m.fetch = .error fault) :
    fault = .illegalInstruction ∨ fault = .accessViolation := by
  unfold fetch at h
  split at h
  · split at h
    · rename_i hread
      cases h
      exact .inr (Memory.eq_of_read8_eq_error hread)
    · split at h
      · cases h
        exact .inl rfl
      · split at h
        · cases h
        · cases h
          exact .inr rfl
  · cases h
    exact .inr rfl

/-- Arithmetic that divides by zero finds the divisor on top of the stack. -/
theorem top_eq_zero {kind : NumberKind} {operation : Arithmetic} {s : Machine × π}
    (h : (perform (.arithmetic kind operation)).run (m, c) =
      .error (.fault .divisionByZero) s) : m.memory.read32 m.sp = .ok 0 := by
  simp only [perform] at h
  rw [EStateM.run_bind, run_pop] at h
  cases htop : m.memory.read32 m.sp with
  | error fault =>
    simp only [htop, Memory.eq_of_read32_eq_error htop] at h
    cases h
  | ok right =>
    simp only [htop] at h
    -- Behind the first pop all faults are violations, unless the divisor is zero.
    have hrest : (pop >>= fun left => lift (computeWords kind operation left right) >>= push :
        Action π Unit).Answers (fun fault => fault = .accessViolation ∨ right = 0) 1 1 id := by
      refine (pops_pop (.inl rfl)).bind_answers fun left => ?_
      refine Pops.bind_answers (pops_lift fun fault hfault => ?_) (answers_push (.inl rfl))
      exact .inr (computeWords_eq_error hfault).2.1
    have hanswer := hrest m.popped c
    rw [h] at hanswer
    cases hanswer with
    | fault hfault _ =>
      rcases hfault with hfault | rfl
      · cases hfault
      · rfl

/-- What a step leaves that ends in a fault: the fetch has failed, or the instruction that was
fetched has popped some of its words. -/
theorem step_eq_of_fault (hrunning : m.status = .running)
    (h : (m.step c).1 = .ok (.faulted fault)) :
    (m.fetch = .error fault ∧
      m.step c = (.ok (.faulted fault), { m with status := .faulted fault }, c)) ∨
    ∃ d n, m.fetch = .ok d ∧ n ≤ d.effect.pops ∧ d.effect.CanFault fault ∧
      (fault = .divisionByZero → m.memory.read32 m.sp = .ok 0) ∧
      m.step c = (.ok (.faulted fault),
        { m with
          ip := m.ip + d.size
          ap := m.ip + 1
          sp := m.sp + 4 * n
          status := .faulted fault }, d.effect.heard c) := by
  cases hfetch : m.fetch with
  | error found =>
    rw [step_of_fetch_error hrunning hfetch] at h ⊢
    cases h
    exact .inl ⟨rfl, rfl⟩
  | ok d =>
    have hstatus := executeNext_status m c
    rw [run_executeNext_fetch, hfetch, hrunning] at hstatus
    rw [step_of_fetch hrunning hfetch] at h ⊢
    have hanswer := perform_answers d.effect (m.advanced d.size) c
    have hzero {kind : NumberKind} {operation : Arithmetic} {s : Machine × π}
        (heffect : d.effect = .arithmetic kind operation)
        (hrun : (perform d.effect).run (m.advanced d.size, c) =
          .error (.fault .divisionByZero) s) : m.memory.read32 m.sp = .ok 0 := by
      rw [heffect] at hrun
      have htop := top_eq_zero hrun
      exact htop
    dsimp only at hstatus
    generalize (perform d.effect).run (m.advanced d.size, c) = result at h hstatus hanswer hzero ⊢
    cases hanswer with
    | ok _ =>
      -- An instruction that is carried out goes on, or ends the program.
      rcases hstatus with hstatus | hstatus
      · simp [settle, hstatus] at h
      · simp [settle, hstatus] at h
    | refused _ => cases h
    | @fault found n hfault hn =>
      cases h
      refine .inr ⟨d, n, rfl, hn, hfault, ?_, rfl⟩
      rintro rfl
      rcases hfault with hfault | ⟨-, heffect | heffect⟩
      · cases hfault
      · exact hzero heffect rfl
      · exact hzero heffect rfl

/-! ## What follows -/

/-- What comes of a machine by steps and runs, as long as no image is loaded. -/
inductive Continued : Machine → Machine → Prop
  | refl {m : Machine} : Continued m m
  | step {π : Type} [Console π] {m m' : Machine} (c : π) :
      Continued m m' → Continued m (m'.step c).2.1
  | run {π τ : Type} [Console π] {m m' : Machine} {tracer : Tracer τ} {limit : Option Nat}
      {budget : Nat} {c : π} {trace : τ} {outcome : Except RunError Halt} {s : RunState π τ} :
      Continued m m' → run? tracer limit budget m' c trace = some (outcome, s) →
      Continued m s.machine

theorem step_of_faulted (h : m.status = .faulted fault) (c : π) :
    m.step c = (.ok (.faulted fault), m, c) := by
  simp only [step, h]

theorem run?_of_faulted (h : m.status = .faulted fault) (tracer : Tracer τ) (limit : Option Nat)
    (budget : Nat) (c : π) (trace : τ) :
    run? tracer limit budget m c trace =
      some (.ok m.halt, ⟨m, c, tracer.atHalt m.halt trace⟩) := by
  have hrun (n : Nat) : runFor tracer n m c trace =
      (.halted m.halt, ⟨m, c, tracer.atHalt m.halt trace⟩) :=
    runFor_of_stopped tracer trace n (by rw [h]; nofun) (by rw [h]; nofun)
  cases limit <;> simp only [run?, hrun] <;> rfl

theorem Continued.eq (h : Continued m m') (hm : m.status = .faulted fault) : m' = m := by
  induction h with
  | refl => rfl
  | step c _ ih => rw [ih hm, step_of_faulted hm]
  | run _ hrun ih =>
    rw [ih hm, run?_of_faulted hm] at hrun
    cases hrun
    rfl

/-- What comes of a machine that a fault has stopped is the same machine, and every step and every
run tell the fault. -/
theorem Continued.stays (h : Continued m m') (hm : m.status = .faulted fault) :
    m' = m ∧ ∀ {π τ : Type} [Console π] (c : π),
      m'.step c = (.ok (.faulted fault), m', c) ∧
      ∀ (tracer : Tracer τ) (limit : Option Nat) (budget : Nat) (trace : τ),
        run? tracer limit budget m' c trace =
          some (.ok ⟨.faulted fault, m'.ip, m'.sp⟩, ⟨m', c, tracer.atHalt m'.halt trace⟩) := by
  obtain rfl := h.eq hm
  refine ⟨rfl, fun c => ⟨step_of_faulted hm c, fun tracer limit budget trace => ?_⟩⟩
  rw [run?_of_faulted hm, halt, hm]

/-- What can be told of a machine that a fault has stopped, and of its console. Memory and registers
are as they were before the step, and nothing was written to the console. If the fetch has failed,
nothing else has changed either, and the console was not read. Else `ip` is behind the instruction
and `ap` behind its opcode, and up to two words were popped. Only a fetch finds an instruction
illegal, and only an instruction that divides integers divides by zero: it was fetched, and the zero
was on top of the stack. All steps and runs from there on tell the same fault and change nothing. -/
theorem step_faulted (hrunning : m.status = .running)
    (h : (m.step c).1 = .ok (.faulted fault)) :
    (m.step c).2.1.memory = m.memory ∧ (m.step c).2.1.registers = m.registers ∧
    (∀ {ω : Type} (output : π → ω), (∀ s, output (Console.readInt s).2 = output s) →
      (∀ s, output (Console.readFloat s).2 = output s) → output (m.step c).2.2 = output c) ∧
    (m.fetch = .error fault ∧ (fault = .illegalInstruction ∨ fault = .accessViolation) ∧
      m.step c = (.ok (.faulted fault), { m with status := .faulted fault }, c) ∨
    ∃ d n, m.fetch = .ok d ∧ n ≤ 2 ∧
      m.step c = (.ok (.faulted fault),
        { m with
          ip := m.ip + d.size
          ap := m.ip + 1
          sp := m.sp + 4 * n
          status := .faulted fault }, d.effect.heard c)) ∧
    (fault = .illegalInstruction → m.fetch = .error .illegalInstruction) ∧
    (fault = .divisionByZero → ∃ d, m.fetch = .ok d ∧
      (d.effect = .arithmetic .int .div ∨ d.effect = .arithmetic .int .rem) ∧
        m.memory.read32 m.sp = .ok 0) ∧
    ∀ m', Continued (m.step c).2.1 m' → m' = (m.step c).2.1 ∧
      ∀ {π' τ : Type} [Console π'] (c' : π'),
        m'.step c' = (.ok (.faulted fault), m', c') ∧
        ∀ (tracer : Tracer τ) (limit : Option Nat) (budget : Nat) (trace : τ),
          run? tracer limit budget m' c' trace =
            some (.ok ⟨.faulted fault, m'.ip, m'.sp⟩,
              ⟨m', c', tracer.atHalt m'.halt trace⟩) := by
  obtain ⟨hfetch, hstep⟩ | ⟨d, n, hfetch, hn, hcan, hzero, hstep⟩ := step_eq_of_fault hrunning h
  · have hfault := eq_of_fetch_eq_error hfetch
    rw [hstep]
    refine ⟨rfl, rfl, fun _ _ _ => rfl, .inl ⟨hfetch, hfault, rfl⟩, ?_, ?_,
      fun m' hm' => hm'.stays rfl⟩
    · rintro rfl
      exact hfetch
    · rintro rfl
      rcases hfault with hfault | hfault <;> cases hfault
  · rw [hstep]
    refine ⟨rfl, rfl, fun output hint hfloat => ?_, .inr ⟨d, n, hfetch, ?_, rfl⟩, ?_, ?_,
      fun m' hm' => hm'.stays rfl⟩
    · exact d.effect.output_heard hint hfloat c
    · exact Nat.le_trans hn d.effect.pops_le
    · intro hfault
      exact absurd hfault hcan.ne_illegalInstruction
    · rintro rfl
      exact ⟨d, hfetch, hcan.of_divisionByZero, hzero rfl⟩

/-- `push 7`, `in` and `mod`. -/
def remaindering : Bytes :=
  (Header.withRegisters 1).toBytes ++ #[0x01, 7, 0, 0, 0, 0x04, 0x24]

/-- Without input, 7 is divided by zero: both operands were popped and are still in memory, and
the machine stays where it is. -/
theorem step_faulted_remaindering :
    let s := after 2 ((Machine.create Registry.standard 24).load remaindering).2
      (BufferedConsole.ofText "")
    let m' := (s.1.step s.2).2.1
    s.1.status = .running ∧ (s.1.step s.2).1 = .ok (.faulted .divisionByZero) ∧
      s.1.ip = 14 ∧ s.1.sp = 16 ∧ m'.ip = 15 ∧ m'.ap = 15 ∧ m'.sp = 24 ∧
      m'.memory = s.1.memory ∧ s.1.memory.read32 16 = .ok 0 ∧
      (s.1.step s.2).2.2.output = s.2.output ∧
      m'.step s.2 = (.ok (.faulted .divisionByZero), m', s.2) := by
  intro s m'
  have hrun : s.1.status = .running ∧ (s.1.step s.2).1 = .ok (.faulted .divisionByZero) ∧
      s.1.ip = 14 ∧ s.1.sp = 16 ∧ m'.ip = 15 ∧ m'.ap = 15 ∧ m'.sp = 24 := by
    decide +kernel
  obtain ⟨hrunning, hfault, hip, hsp, hip', hap', hsp'⟩ := hrun
  obtain ⟨hmemory, -, houtput, -, -, hdivision, hstays⟩ := step_faulted hrunning hfault
  have hoperand : s.1.memory.read32 16 = .ok 0 := by
    obtain ⟨d, -, -, hzero⟩ := hdivision rfl
    rwa [hsp] at hzero
  refine ⟨hrunning, hfault, hip, hsp, hip', hap', hsp', hmemory, hoperand, ?_, ?_⟩
  · refine houtput BufferedConsole.output (fun t => ?_) fun t => ?_
    · obtain ⟨_ | _, _⟩ := t <;> rfl
    · obtain ⟨_ | _, _⟩ := t <;> rfl
  · exact ((hstays m' .refl).2 (τ := Unit) s.2).1

end StackMachine.Machine
