import StackMachine.Machine.Trace
import StackMachine.Proofs.Machine.Effects
import StackMachine.Proofs.Machine.Refinement
import StackMachine.Proofs.Machine.Reload

/-!
# The trace shows what the machine does

A tracer decodes the instruction that comes next in the image, and a machine fetches it from memory.
Both take the same decision at every address, inside the image and outside of it, and the machine
then carries out what the tracer has shown.

* `Instruction.decodeUpTo_eq`: what is read up to an address is read from the bytes in front of it.
* `Announces`: what a tracer shows, and what the fetch comes to, in four cases.
* `readsOperand_of_image`: an operand is read from the image, whatever has become of the stack.
* `Reachable.nextInstruction_step`: the statement for all machines that loads, steps and runs lead
  to.
-/

namespace StackMachine

/-! ## Decoding the start of a byte string -/

variable {bytes : Bytes} {stop offset : Nat}

theorem OperandKind.decode?_extract (kind : OperandKind) (h : offset + kind.size ≤ stop) :
    kind.decode? (bytes.extract 0 stop) offset = kind.decode? bytes offset := by
  cases kind with
  | constant =>
    rw [decode?, decode?, Bytes.read32?_congr fun i hi => Bytes.getElem?_extract_zero ?_]
    exact Nat.lt_of_lt_of_le (Nat.add_lt_add_left hi offset) h
  | register =>
    rw [decode?, decode?, Bytes.read8?, Bytes.read8?, Bytes.getElem?_extract_zero h]
  | label =>
    rw [decode?, decode?, Bytes.read16?_congr fun i hi => Bytes.getElem?_extract_zero ?_]
    exact Nat.lt_of_lt_of_le (Nat.add_lt_add_left hi offset) h

namespace Instruction

theorem decodeOperands?_extract (kinds : List OperandKind)
    (h : offset + (kinds.map OperandKind.size).sum ≤ stop) :
    decodeOperands? (bytes.extract 0 stop) kinds offset = decodeOperands? bytes kinds offset := by
  induction kinds generalizing offset with
  | nil => rfl
  | cons kind kinds ih =>
    rw [List.map_cons, List.sum_cons] at h
    rw [decodeOperands?, decodeOperands?, kind.decode?_extract (by omega), ih (by omega)]

/-- What is read up to an address is read from the bytes in front of it. -/
theorem decodeUpTo_eq (registry : Registry) (hstop : stop ≤ bytes.size) (offset : Nat) :
    decodeUpTo registry bytes stop offset = decode registry (bytes.extract 0 stop) offset := by
  have hsize : (bytes.extract 0 stop).size = stop := by
    rw [Array.size_extract]
    omega
  unfold decode decodeUpTo
  rw [hsize]
  split
  · rename_i hlt
    simp only [Bytes.read8?, Bytes.getElem?_extract_zero hlt]
    split
    · rfl
    · split
      · rfl
      · rename_i definition _
        split
        · rfl
        · rename_i hfits
          have hsum : offset + 1 + (definition.operands.map OperandKind.size).sum ≤ stop := by
            rw [Definition.size, Nat.not_lt] at hfits
            change 1 + (definition.operands.map OperandKind.size).sum ≤ stop - offset at hfits
            omega
          rw [decodeOperands?_extract _ hsum]
  · rfl

end Instruction

namespace Machine

variable {π : Type} {m : Machine}

/-! ## What comes next -/

/-- What a tracer shows of a machine, with what the fetch comes to. -/
inductive Announces (m : Machine) : NextInstruction → Except Fault Definition → Prop
  | outside : m.imageEnd ≤ m.ip → Announces m .outOfImage (.error .accessViolation)
  | unknown {byte : UInt8} : m.ip < m.imageEnd → m.memory.bytes[m.ip]? = some byte →
      m.registry.byOpcode? byte = none → Announces m (.raw byte) (.error .illegalInstruction)
  | cut {byte : UInt8} {d : Definition} : m.ip < m.imageEnd →
      m.memory.bytes[m.ip]? = some byte → m.registry.byOpcode? byte = some d →
      m.imageEnd < m.ip + d.size → Announces m (.raw byte) (.error .accessViolation)
  | whole {i : Instruction} : Instruction.decode m.registry m.image m.ip = .ok i →
      Announces m (.decoded i) (.ok i.definition)

/-- The tracer and the machine take the same decision. -/
theorem announces (h : m.Layout) : Announces m m.nextInstruction m.fetch := by
  have himageEnd : m.imageEnd ≤ m.memory.bytes.size := Nat.le_trans h.imageEnd_le h.sp_le
  have hsize := size_image h
  unfold nextInstruction
  rw [fetch_eq h, Instruction.decodeUpTo_eq m.registry himageEnd, ← image]
  by_cases hip : m.ip < m.imageEnd
  · have hbyte := Array.getElem?_eq_getElem (Nat.lt_of_lt_of_le hip himageEnd)
    have hopcode := (getElem?_image hip).trans hbyte
    cases hd : m.registry.byOpcode? m.memory.bytes[m.ip] with
    | none =>
      simp only [Instruction.decode_of_unknown hopcode hd, if_pos hip, hbyte, DecodeError.fault]
      exact .unknown hip hbyte hd
    | some d =>
      by_cases hfits : m.ip + d.size ≤ m.imageEnd
      · obtain ⟨operands, -, hdecode⟩ := Instruction.decode_of_fits hopcode hd (by omega)
        simp only [hdecode]
        exact .whole hdecode
      · simp only [Instruction.decode_of_cut hopcode hd (by omega), if_pos hip, hbyte,
          DecodeError.fault]
        exact .cut hip hbyte hd (by omega)
  · have hout : m.image.size ≤ m.ip := by omega
    simp only [Instruction.decode_of_size_le hout, if_neg hip, DecodeError.fault]
    exact .outside (by omega)

namespace Announces

variable {next : NextInstruction} {fetched : Except Fault Definition}

theorem exists_decoded_iff (h : Announces m next fetched) :
    (∃ i, next = .decoded i) ↔ ∃ d, fetched = .ok d := by
  cases h with
  | outside | unknown | cut => exact iff_of_false nofun nofun
  | whole => exact iff_of_true ⟨_, rfl⟩ ⟨_, rfl⟩

theorem outOfImage_iff (h : Announces m next fetched) :
    next = .outOfImage ↔ fetched = .error .accessViolation ∧ m.imageEnd ≤ m.ip := by
  cases h with
  | outside hip => exact iff_of_true rfl ⟨rfl, hip⟩
  | unknown => exact iff_of_false nofun nofun
  | cut hip => exact iff_of_false nofun fun h => Nat.not_lt.2 h.2 hip
  | whole => exact iff_of_false nofun nofun

theorem raw_iff (h : Announces m next fetched) {byte : UInt8} :
    next = .raw byte ↔
      m.ip < m.imageEnd ∧ m.memory.bytes[m.ip]? = some byte ∧
        (fetched = .error .illegalInstruction ∧ m.registry.byOpcode? byte = none ∨
          fetched = .error .accessViolation ∧
            ∃ d, m.registry.byOpcode? byte = some d ∧ m.imageEnd < m.ip + d.size) := by
  cases h with
  | outside hip => exact iff_of_false nofun fun h => Nat.not_lt.2 hip h.1
  | @unknown found hip hfound hd =>
    constructor
    · rintro ⟨⟩
      exact ⟨hip, hfound, .inl ⟨rfl, hd⟩⟩
    · rintro ⟨-, hbyte, -⟩
      rw [Option.some.inj (hfound.symm.trans hbyte)]
  | @cut found d hip hfound hd hcut =>
    constructor
    · rintro ⟨⟩
      exact ⟨hip, hfound, .inr ⟨rfl, d, hd, hcut⟩⟩
    · rintro ⟨-, hbyte, -⟩
      rw [Option.some.inj (hfound.symm.trans hbyte)]
  | whole =>
    refine iff_of_false nofun ?_
    rintro ⟨-, -, ⟨hfault, -⟩ | ⟨hfault, -⟩⟩ <;> cases hfault

theorem of_decoded {i : Instruction} (h : Announces m (.decoded i) fetched) :
    Instruction.decode m.registry m.image m.ip = .ok i ∧ fetched = .ok i.definition := by
  cases h with
  | whole hdecode => exact ⟨hdecode, rfl⟩

end Announces

/-! ## Operands -/

/-- The operand of an instruction is read from the image, whatever else has changed since the
instruction was fetched. -/
theorem readsOperand_of_image {i : Instruction} {operand : Operand} {operands : List Operand}
    (h : Instruction.decode m.registry m.image m.ip = .ok i)
    (hoperands : i.operands = operand :: operands) {t : Machine} (himage : t.image = m.image)
    (hap : t.ap = m.ip + 1) : t.ReadsOperand operand := by
  have hread : ({ t with registry := m.registry, ip := m.ip }.advanced
      i.definition.size).ReadsOperand operand :=
    readsOperand_of_decode (himage ▸ h) hoperands
  unfold ReadsOperand at hread ⊢
  rw [hap]
  exact hread

theorem operands_eq_singleton {i : Instruction} {operand : Operand}
    (hkinds : i.operands.map Operand.kind = i.definition.effect.operandKinds)
    (hmem : operand ∈ i.operands) : i.operands = [operand] := by
  have hlength : i.operands.length ≤ 1 := by
    rw [← List.length_map (f := Operand.kind), hkinds]
    cases i.definition.effect <;> simp [Effect.operandKinds]
  match hoperands : i.operands with
  | [] => rw [hoperands] at hmem; cases hmem
  | [found] => rw [hoperands, List.mem_singleton] at hmem; rw [hmem]
  | _ :: _ :: _ => rw [hoperands] at hlength; simp at hlength

/-! ## Reachable machines -/

variable [Console π] {registry : Registry} {memorySize : Nat} {last : Option Bytes}

/-- What a tracer shows of a running machine is what the next step does, for every machine that
loads, steps and runs lead to. It shows an instruction exactly if the fetch succeeds, and the step
then carries out the definition of this instruction, with `ap` behind the opcode and `ip` behind the
instruction. It shows the end of the image exactly if the fetch fails because `ip` is not inside,
and the byte at `ip` exactly if the fetch fails because it is no opcode, or because the end of the
image cuts the instruction off. With the standard instructions the operands that were shown are
those that the instruction reads, so that their reads do not fail. -/
theorem Reachable.nextInstruction_step (h : Reachable registry memorySize m last)
    (hrunning : m.status = .running) (c : π) :
    (∀ i, m.nextInstruction = .decoded i →
      m.fetch = .ok i.definition ∧
      m.step c = settle ((perform i.definition.effect).run
        ({ m with ap := m.ip + 1, ip := m.ip + i.size }, c))) ∧
    ((∃ i, m.nextInstruction = .decoded i) ↔ ∃ d, m.fetch = .ok d) ∧
    (m.nextInstruction = .outOfImage ↔
      m.fetch = .error .accessViolation ∧ m.imageEnd ≤ m.ip) ∧
    (∀ byte, m.nextInstruction = .raw byte ↔
      m.ip < m.imageEnd ∧ m.memory.bytes[m.ip]? = some byte ∧
        (m.fetch = .error .illegalInstruction ∧ registry.byOpcode? byte = none ∨
          m.fetch = .error .accessViolation ∧
            ∃ d, registry.byOpcode? byte = some d ∧ m.imageEnd < m.ip + d.size)) ∧
    (∀ fault, m.fetch = .error fault →
      m.step c = (.ok (.faulted fault), { m with status := .faulted fault }, c)) ∧
    (registry = Registry.standard → ∀ i, m.nextInstruction = .decoded i →
      let t := { m with ap := m.ip + 1, ip := m.ip + i.size }
      i.operands.map Operand.kind = i.definition.effect.operandKinds ∧
      (∀ operand ∈ i.operands, ∀ t' : Machine, t'.image = t.image → t'.ap = t.ap →
        t'.ReadsOperand operand) ∧
      seen ((perform i.definition.effect).run (t, c)) = t.view.execute i c) := by
  have hlayout : m.Layout := by
    cases last with
    | none =>
      rw [h.inOrder.unready rfl] at hrunning
      cases hrunning
    | some image => exact (h.inOrder.carries image rfl).layout
  have hannounces := announces hlayout
  obtain rfl := h.registry_eq
  refine ⟨fun i hi => ?_, hannounces.exists_decoded_iff, hannounces.outOfImage_iff,
    fun byte => hannounces.raw_iff, fun fault hfault => step_of_fetch_error hrunning hfault c,
    fun hstandard i hi => ?_⟩
  · rw [hi] at hannounces
    have hfetch := hannounces.of_decoded.2
    exact ⟨hfetch, step_of_fetch hrunning hfetch c⟩
  · rw [hi] at hannounces
    have hdecode := hannounces.of_decoded.1
    have hkinds : i.operands.map Operand.kind = i.definition.effect.operandKinds :=
      Instruction.kinds_of_decode_standard (hstandard ▸ hdecode)
    have hread (operand : Operand) (hmem : operand ∈ i.operands) (t' : Machine)
        (himage : t'.image = m.image) (hap : t'.ap = m.ip + 1) : t'.ReadsOperand operand :=
      readsOperand_of_image hdecode (operands_eq_singleton hkinds hmem) himage hap
    refine ⟨hkinds, hread, ?_⟩
    refine seen_perform (advanced_layout i.size hlayout) hkinds fun operand hoperand => ?_
    exact hread operand (List.mem_of_mem_head? hoperand) _ rfl rfl

/-- `push 7`, and a `jmp` whose label is cut off. -/
def cutOff : Bytes :=
  (Header.withRegisters 1).toBytes ++ #[0x01, 7, 0, 0, 0, 0x10, 8]

/-- The first step carries out what the tracer shows, and the second one cannot be fetched. -/
theorem Reachable.nextInstruction_step_cutOff :
    let c := BufferedConsole.ofText ""
    let m := ((Machine.create Registry.standard 32).load cutOff).2
    let m' := (m.step c).2.1
    let push7 : Instruction := ⟨⟨"push", 0x01, [.constant], .pushConstant⟩, [.constant 7]⟩
    m.status = .running ∧ m.nextInstruction = .decoded push7 ∧
      m.step c = settle ((perform .pushConstant).run ({ m with ap := 9, ip := 13 }, c)) ∧
      ({ m with ap := 9, ip := 13 } : Machine).ReadsOperand (.constant 7) ∧
      m'.status = .running ∧ m'.ip = 13 ∧ m'.nextInstruction = .raw 0x10 ∧
      m'.step c = (.ok (.faulted .accessViolation),
        { m' with status := .faulted .accessViolation }, c) := by
  intro c m m' push7
  have hrun : m.status = .running ∧ m.nextInstruction = .decoded push7 ∧ m'.status = .running ∧
      m'.ip = 13 ∧ m'.ip < m'.imageEnd ∧ m'.memory.bytes[m'.ip]? = some 0x10 ∧
      m'.fetch = .error .accessViolation ∧
      Registry.standard.byOpcode? 0x10 = some ⟨"jmp", 0x10, [.label], .jump⟩ ∧
      m'.imageEnd < m'.ip + 3 := by
    decide +kernel
  obtain ⟨hrunning, hnext, hrunning', hip, hinside, hbyte, hfetch', hjump, hcut⟩ := hrun
  have hloaded : Reachable Registry.standard 32 m (some cutOff) := .load .create (by decide +kernel)
  obtain ⟨hdecoded, -, -, -, -, hstandard⟩ := hloaded.nextInstruction_step hrunning c
  have hstepped : Reachable Registry.standard 32 m' (some cutOff) := .step c hloaded
  obtain ⟨-, -, -, hraw, hfault, -⟩ := hstepped.nextInstruction_step hrunning' c
  obtain ⟨-, hreads, -⟩ := hstandard rfl push7 hnext
  refine ⟨hrunning, hnext, (hdecoded push7 hnext).2, hreads _ List.mem_cons_self _ rfl rfl,
    hrunning', hip, ?_, hfault _ hfetch'⟩
  exact (hraw 0x10).2 ⟨hinside, hbyte, .inr ⟨hfetch', _, hjump, hcut⟩⟩

end Machine

end StackMachine
