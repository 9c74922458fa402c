import StackMachine.Proofs.Assembly.Image
import StackMachine.Proofs.Machine.Refinement
import StackMachine.Proofs.Machine.Run

/-!
# Control flow of linked programs

A program that was linked and does not return from calls only goes where instructions start, or to
the end of its image. An instruction leads to the one behind it or to its label, and the linker has
put both there; the stack cannot reach the image, so the instructions stay what they were. Only
`ret` goes to an address that the program has computed.

* `StackState.execute_leads`: where an instruction can lead, and which faults it cannot end in.
* `Orderly`: an image whose labels lead to its instructions, and which has no `ret`.
* `Orderly.step`, `Orderly.after`: a step, and any number of steps, stay on its instructions.
* `link_ip_mem_offsets`: the statement for linked programs, with what it means for faults.
-/

namespace StackMachine

variable {π : Type}

/-! ## Where instructions lead -/

namespace StackState

/-- An outcome that has not changed the image, is at an address with a property, and is no illegal
instruction. -/
structure Leads (P : Nat → Prop) (s : StackState) (o : Outcome π) : Prop where
  image_eq : o.state.image = s.image
  ip : P o.state.ip
  status : o.state.status = s.status ∨ o.state.status = .halted
  trap : o.trap ≠ some (.fault .illegalInstruction)

variable {P : Nat → Prop} {s : StackState} {c : π}

theorem leads_fault {f : Fault} (hip : P s.ip) (hf : f ≠ .illegalInstruction) :
    Leads P s (s.fault f c) := by
  refine ⟨rfl, hip, .inl rfl, fun heq => ?_⟩
  cases heq
  exact hf rfl

theorem leads_next {s' : StackState} (himage : s'.image = s.image) (hip : P s'.ip)
    (hstatus : s'.status = s.status ∨ s'.status = .halted) :
    Leads P s (⟨none, s', c⟩ : Outcome π) :=
  ⟨himage, hip, hstatus, nofun⟩

theorem leads_push (w : UInt32) (hip : P s.ip) : Leads P s (s.push w c) := by
  unfold push
  split
  · exact leads_next rfl hip (.inl rfl)
  · exact leads_fault hip (by decide)

theorem leads_pop {next : UInt32 → StackState → Outcome π} (hip : P s.ip)
    (h : ∀ w stack, Leads P { s with stack } (next w { s with stack })) :
    Leads P s (s.pop c next) := by
  unfold pop
  split
  · exact leads_fault hip (by decide)
  · rename_i w stack _
    obtain ⟨himage, hip, hstatus, htrap⟩ := h w stack
    exact ⟨himage, hip, hstatus, htrap⟩

theorem leads_written (result : Option ConsoleError × π) (hip : P s.ip) :
    Leads P s (s.written result) := by
  obtain ⟨failure, c⟩ := result
  cases failure with
  | none => exact leads_next rfl hip (.inl rfl)
  | some error => exact ⟨rfl, hip, .inl rfl, nofun⟩

variable [Console π]

/-- An instruction other than `ret` leads to the address behind it, or to its label. -/
theorem execute_leads {i : Instruction} (hip : P s.ip)
    (hkinds : i.operands.map Operand.kind = i.definition.effect.operandKinds)
    (htarget : ∀ target, Operand.label target ∈ i.operands → P target.toNat)
    (hreturn : i.definition.effect ≠ .return) : Leads P s (s.execute i c) := by
  obtain ⟨⟨mnemonic, opcode, kinds, effect⟩, operands⟩ := i
  cases effect with
  | halt =>
    obtain rfl := List.map_eq_nil_iff.1 hkinds
    exact leads_next rfl hip (.inr rfl)
  | pushConstant =>
    obtain ⟨w, rfl⟩ := Operand.constant_of_kinds hkinds
    exact leads_push w hip
  | pushRegister =>
    obtain ⟨index, rfl⟩ := Operand.register_of_kinds hkinds
    simp only [execute]
    split
    · exact leads_push _ hip
    · exact leads_fault hip (by decide)
  | popRegister =>
    obtain ⟨index, rfl⟩ := Operand.register_of_kinds hkinds
    simp only [execute]
    split
    · exact leads_pop hip fun w stack => leads_next rfl hip (.inl rfl)
    · exact leads_fault hip (by decide)
  | readInt =>
    obtain rfl := List.map_eq_nil_iff.1 hkinds
    exact leads_push _ hip
  | readFloat =>
    obtain rfl := List.map_eq_nil_iff.1 hkinds
    exact leads_push _ hip
  | writeInt =>
    obtain rfl := List.map_eq_nil_iff.1 hkinds
    simp only [execute]
    exact leads_pop hip fun w stack => leads_written _ hip
  | writeFloat =>
    obtain rfl := List.map_eq_nil_iff.1 hkinds
    simp only [execute]
    exact leads_pop hip fun w stack => leads_written _ hip
  | depart =>
    obtain rfl := List.map_eq_nil_iff.1 hkinds
    exact leads_push _ hip
  | call =>
    obtain ⟨target, rfl⟩ := Operand.label_of_kinds hkinds
    have hlabel := htarget target List.mem_cons_self
    simp only [execute]
    split
    · exact leads_next rfl hlabel (.inl rfl)
    · exact leads_fault hip (by decide)
  | «return» => exact absurd rfl hreturn
  | intToFloat =>
    obtain rfl := List.map_eq_nil_iff.1 hkinds
    simp only [execute]
    exact leads_pop hip fun w stack => leads_push _ hip
  | floatToInt =>
    obtain rfl := List.map_eq_nil_iff.1 hkinds
    simp only [execute]
    exact leads_pop hip fun w stack => leads_push _ hip
  | jump =>
    obtain ⟨target, rfl⟩ := Operand.label_of_kinds hkinds
    have hlabel := htarget target List.mem_cons_self
    exact leads_next rfl hlabel (.inl rfl)
  | branch kind comparison =>
    obtain ⟨target, rfl⟩ := Operand.label_of_kinds hkinds
    have hlabel := htarget target List.mem_cons_self
    simp only [execute]
    refine leads_pop hip fun right stack => leads_pop hip fun left stack => ?_
    split
    · exact leads_next rfl hlabel (.inl rfl)
    · exact leads_next rfl hip (.inl rfl)
  | arithmetic kind operation =>
    obtain rfl := List.map_eq_nil_iff.1 hkinds
    simp only [execute]
    refine leads_pop hip fun right stack => leads_pop hip fun left stack => ?_
    split
    · exact leads_push _ hip
    · exact leads_fault hip (by decide)
  | sqrt =>
    obtain rfl := List.map_eq_nil_iff.1 hkinds
    simp only [execute]
    exact leads_pop hip fun w stack => leads_push _ hip

end StackState

/-! ## Orderly images -/

/-- The address of one of the instructions of an image, or its end. -/
def Boundary (bytes : Bytes) (steps : List (Nat × Instruction)) (address : Nat) : Prop :=
  address ∈ steps.map Prod.fst ∨ address = bytes.size

/-- An image that instructions fill up to the end, whose labels lead to these instructions or to the
end, and that has no `ret` among them. -/
structure Orderly (bytes : Bytes) (steps : List (Nat × Instruction)) : Prop where
  decodes : Listing.Decodes Registry.standard bytes Header.size steps
  target : ∀ i ∈ steps.map Prod.snd, ∀ target, Operand.label target ∈ i.operands →
    Boundary bytes steps target.toNat
  no_return : ∀ i ∈ steps.map Prod.snd, i.definition.effect ≠ .return

namespace Orderly

/-- A state of a run that stays on the instructions of an image. -/
structure Holds (bytes : Bytes) (steps : List (Nat × Instruction)) (s : StackState) : Prop where
  image_eq : s.image = bytes
  ip : Boundary bytes steps s.ip
  status : s.status ≠ .faulted .illegalInstruction

variable {bytes : Bytes} {steps : List (Nat × Instruction)} {s : StackState}

/-- At the offset of an instruction the instruction can be read, and then the next one is behind. -/
theorem decode_of_mem (h : Orderly bytes steps) {address : Nat}
    (haddress : address ∈ steps.map Prod.fst) :
    ∃ i ∈ steps.map Prod.snd, Instruction.decode Registry.standard bytes address = .ok i ∧
      Boundary bytes steps (address + i.definition.size) := by
  obtain ⟨⟨_, i⟩, hmem, rfl⟩ := List.mem_map.1 haddress
  exact ⟨i, List.mem_map_of_mem hmem, h.decodes.next hmem⟩

variable [Console π]

theorem executeNext (h : Orderly bytes steps) (hs : Holds bytes steps s) (c : π) :
    StackState.Leads (Boundary bytes steps) s (s.executeNext c) := by
  unfold StackState.executeNext
  rw [hs.image_eq]
  rcases hs.ip with hip | hip
  · obtain ⟨i, hi, hdecode, hnext⟩ := h.decode_of_mem hip
    rw [hdecode]
    -- `ip` is past the instruction before it is carried out, so also when it fails.
    have hleads : StackState.Leads (Boundary bytes steps)
        { s with ip := s.ip + i.definition.size }
        (StackState.execute { s with ip := s.ip + i.definition.size } i c) :=
      StackState.execute_leads hnext (Instruction.kinds_of_decode_standard hdecode)
        (h.target i hi) (h.no_return i hi)
    rw [hs.image_eq] at hleads
    exact ⟨hleads.image_eq.trans hs.image_eq.symm, hleads.ip, hleads.status, hleads.trap⟩
  · rw [Instruction.decode_of_size_le (Nat.le_of_eq hip.symm)]
    exact StackState.leads_fault (.inr hip) nofun

/-- One step stays on the instructions. -/
theorem step (h : Orderly bytes steps) (hs : Holds bytes steps s) (c : π) :
    Holds bytes steps (s.step c).2.1 := by
  obtain ⟨himage, hip, hstatus, htrap⟩ := h.executeNext hs c
  rw [hs.image_eq] at himage
  unfold StackState.step
  split
  · exact hs
  · rename_i hrunning
    have hlegal : (s.executeNext c).state.status ≠ .faulted .illegalInstruction := by
      rw [hrunning] at hstatus
      rcases hstatus with hstatus | hstatus <;> rw [hstatus] <;> nofun
    split <;> rename_i heq <;> rw [heq] at himage hip hlegal htrap
    · exact ⟨himage, hip, hlegal⟩
    · refine ⟨himage, hip, fun hfault => ?_⟩
      cases hfault
      exact htrap rfl
    · exact ⟨himage, hip, hlegal⟩
  · exact hs

/-- Any number of steps stay on the instructions. -/
theorem after (h : Orderly bytes steps) (hs : Holds bytes steps s) (n : Nat) (c : π) :
    Holds bytes steps (StackState.after n s c).1 := by
  induction n with
  | zero => exact hs
  | succ n ih =>
    rw [StackState.after_succ]
    exact h.step ih _

end Orderly

/-! ## Linked programs -/

theorem standard_return {d : Definition} (h : d ∈ Registry.standard.toList)
    (heffect : d.effect = .return) : d.mnemonic = "ret" := by
  have hall : ∀ d ∈ Definition.standard, d.effect = .return → d.mnemonic = "ret" := by
    decide
  exact hall d (Registry.mem_standard h) heffect

theorem orderly_of_link {files : List Assembly.SourceFile} {p : Program}
    (h : (Assembly.link Registry.standard files).outcome = .ok p)
    (hreturn : ∀ i ∈ (Listing.ofBytes Registry.standard p.bytes).instructions,
      i.definition.mnemonic ≠ "ret") :
    Orderly p.bytes (Listing.ofBytes Registry.standard p.bytes).steps := by
  obtain ⟨s, hs, rfl⟩ := Assembly.link_laidOut Registry.standard_built h
  obtain ⟨hfailure, hrealizes⟩ := hs.listing Registry.standard_built
  refine ⟨Listing.ofBytes_decodes hfailure, ?_, ?_⟩
  · intro i hi target htarget
    rw [Listing.map_snd_steps] at hi
    exact hs.target Registry.standard_built hi htarget
  · intro i hi heffect
    rw [Listing.map_snd_steps] at hi
    obtain ⟨statement, -, hstatement⟩ := Assembly.exists_of_forall₂ hrealizes hi
    exact hreturn i hi (standard_return hstatement.valid.mem heffect)

namespace Machine

variable [Console π]

/-- A run that stops leaves the machine that some steps leave. -/
theorem halted_eq_after {τ : Type} {tracer : Tracer τ} {n : Nat} {m : Machine} {c : π} {trace : τ}
    {halt : Halt} (h : (runFor tracer n m c trace).1 = .halted halt) :
    ∃ k ≤ n, halt = (after k m c).1.halt := by
  obtain ⟨k, hk, -, hstop⟩ := runFor_eq_after tracer trace n m c
  exact ⟨k, hk, hstop halt h⟩

/-- A linked program without `ret` stays on the instructions of its listing: whatever is read from
the console, after any number of steps `ip` is the offset of one of them, or the end of the image.
So an instruction can always be fetched but there, and no run stops at an illegal instruction. -/
theorem link_ip_mem_offsets {files : List Assembly.SourceFile} {p : Program}
    (h : (Assembly.link Registry.standard files).outcome = .ok p)
    (hreturn : ∀ i ∈ (Listing.ofBytes Registry.standard p.bytes).instructions,
      i.definition.mnemonic ≠ "ret")
    {m : Machine} (hregistry : m.registry = Registry.standard)
    (hsize : p.bytes.size ≤ m.memory.size) (c : π) (n : Nat) :
    let listing := Listing.ofBytes Registry.standard p.bytes
    let t := (after n (m.load p.bytes).2 c).1
    (t.ip ∈ listing.offsets ∨ t.ip = p.bytes.size) ∧
      (∀ fault, t.fetch = .error fault → t.ip = p.bytes.size) ∧
      t.status ≠ .faulted .illegalInstruction ∧
      ∀ (τ : Type) (tracer : Tracer τ) (trace : τ) (halt : Halt),
        (runFor tracer n (m.load p.bytes).2 c trace).1 = .halted halt →
          halt.status ≠ .faulted .illegalInstruction := by
  intro listing t
  have horderly := orderly_of_link h hreturn
  have hstarted := load_started p.check_eq hsize
  have hregistry' := hstarted.registry_eq.trans hregistry
  have hstart : Orderly.Holds p.bytes listing.steps (m.load p.bytes).2.view := by
    rw [view_load hstarted]
    exact ⟨rfl, horderly.decodes.offset_mem, nofun⟩
  have hholds (k : Nat) :
      Orderly.Holds p.bytes listing.steps (after k (m.load p.bytes).2 c).1.view := by
    have hview : (after k (m.load p.bytes).2 c).1.view =
        (StackState.after k (m.load p.bytes).2.view c).1 :=
      congrArg Prod.fst (after_view hregistry' hstarted.layout k c)
    rw [hview]
    exact horderly.after hstart k c
  have hkeeps := after_keeps n c hstarted.layout
  refine ⟨(hholds n).ip, ?_, (hholds n).status, ?_⟩
  · intro fault hfetch
    rcases (hholds n).ip with hip | hip
    · obtain ⟨i, -, hdecode, -⟩ := horderly.decode_of_mem hip
      have hread : Instruction.decode t.registry t.image t.ip = .ok i := by
        rw [hkeeps.registry_eq, hregistry', hkeeps.image_eq, hstarted.image_eq]
        exact hdecode
      rw [fetch_eq hkeeps.layout, hread] at hfetch
      cases hfetch
    · exact hip
  · intro τ tracer trace halt hhalt
    obtain ⟨k, -, rfl⟩ := halted_eq_after hhalt
    exact (hholds k).status

/-- A loop that ends with an input of zero, then one that fills the stack. -/
theorem link_ip_mem_offsets_loops :
    let files : List Assembly.SourceFile :=
      [⟨"a.asm", "again: in\npush 0\njne again\n"⟩, ⟨"b.asm", "fill: call next\nnext: jmp fill\n"⟩]
    let p := (files.foldl Assembly.LinkState.assemble (.start Registry.standard)).session.finish
    (Assembly.link Registry.standard files).outcome = .ok p ∧
      (∀ i ∈ (Listing.ofBytes Registry.standard p.bytes).instructions,
        i.definition.mnemonic ≠ "ret") ∧
      p.bytes.size ≤ (create Registry.standard 30).memory.size ∧
      ∀ input n, let t := (after n ((create Registry.standard 30).load p.bytes).2
          (BufferedConsole.ofText input)).1
        (t.ip ∈ [8, 9, 14, 17, 20] ∨ t.ip = 23) ∧ t.status ≠ .faulted .illegalInstruction := by
  intro files p
  have hrun :
      (files.foldl Assembly.LinkState.assemble (.start Registry.standard)).rejected = false ∧
      p.bytes.size = 23 ∧ (∀ i ∈ (Listing.ofBytes Registry.standard p.bytes).instructions,
        i.definition.mnemonic ≠ "ret") ∧
      (Listing.ofBytes Registry.standard p.bytes).offsets = [8, 9, 14, 17, 20] := by
    decide +kernel
  obtain ⟨haccepted, hlength, hreturn, hoffsets⟩ := hrun
  have h : (Assembly.link Registry.standard files).outcome = .ok p :=
    Assembly.link_eq_ok_iff.2 ⟨haccepted, rfl⟩
  have hsize : p.bytes.size ≤ (create Registry.standard 30).memory.size := by
    rw [hlength, size_create]
    decide
  refine ⟨h, hreturn, hsize, fun input n => ?_⟩
  obtain ⟨hip, -, hstatus, -⟩ := link_ip_mem_offsets h hreturn (registry_create ..) hsize
    (BufferedConsole.ofText input) n
  rw [hoffsets, hlength] at hip
  exact ⟨hip, hstatus⟩

end Machine

end StackMachine
