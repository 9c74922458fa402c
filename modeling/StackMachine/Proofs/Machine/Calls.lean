import StackMachine.Proofs.Instruction.Registry
import StackMachine.Proofs.Machine.Effects
import StackMachine.Proofs.Machine.Reload

/-!
# Calls that return

A subroutine that pops nothing of its caller, and not the return address either, leaves both in
place, so that `ret` finds the return address as soon as it is on top of the stack again. Words are
popped before others are written over them, so it suffices to look at what instructions pop.

* `PopsBelow`: that the next instruction only pops words below a floor.
* `Segment`: steps that only pop words below a floor.
* `Sheltered.step`, `Segment.sheltered`: the bytes from the floor on survive one step, and all
  steps of a segment.
* `Reachable.call_returns`: a `call`, such a segment, and a `ret`.
-/

namespace StackMachine.Machine

variable {π : Type} [Console π] {m t : Machine} {c : π} {d : Definition}

open StackMachine.Machine.Action

/-! ## Segments of runs -/

/-- Whether the next instruction pops nothing from the floor on. -/
def PopsBelow (floor : Nat) (m : Machine) : Prop :=
  ∀ d, m.fetch = .ok d → ∀ k < d.effect.pops, m.sp + 4 * k < floor

instance (floor : Nat) (m : Machine) : Decidable (m.PopsBelow floor) :=
  match hfetch : m.fetch with
  | .error _ => .isTrue fun _ h => nomatch hfetch.symm.trans h
  | .ok d =>
    decidable_of_iff (∀ k < d.effect.pops, m.sp + 4 * k < floor)
      ⟨fun h _ hd => Except.ok.inj (hfetch.symm.trans hd) ▸ h, fun h => h d hfetch⟩

/-- Steps of a running machine, none of which pops anything from the floor on. -/
inductive Segment (floor : Nat) : Machine → Machine → Prop
  | refl {m : Machine} : Segment floor m m
  | step {π : Type} [Console π] {m t : Machine} (c : π) :
      Segment floor m t → t.status = .running → t.PopsBelow floor →
      Segment floor m (t.step c).2.1

/-- That the floor is a whole number of words up the stack, and the bytes from there on are as they
were. -/
structure Sheltered (floor : Nat) (m t : Machine) : Prop where
  sp_eq : ∃ n, t.sp + 4 * n = floor
  byte_eq : ∀ i, floor ≤ i → t.memory.bytes[i]? = m.memory.bytes[i]?

/-- A step writes only in front of the words that it leaves on the stack. -/
theorem exists_framed_step (hrunning : m.status = .running) (c : π) :
    ∃ pops pushes, Framed pops pushes m (m.step c).2.1 ∧
      (pops = 0 ∨ ∃ d, m.fetch = .ok d ∧ pops ≤ d.effect.pops) := by
  cases hfetch : m.fetch with
  | error fault =>
    rw [step_of_fetch_error hrunning hfetch]
    exact ⟨0, 0, framed_of_eq rfl rfl, .inl rfl⟩
  | ok d =>
    rw [step_of_fetch hrunning hfetch]
    have hanswer := perform_answers d.effect (m.advanced d.size) c
    generalize (perform d.effect).run (m.advanced d.size, c) = result at hanswer ⊢
    cases hanswer with
    | ok hframed => exact ⟨_, _, ⟨hframed.sp_eq, hframed.byte_eq⟩, .inr ⟨d, rfl, Nat.le_refl _⟩⟩
    | refused hframed =>
      exact ⟨_, _, ⟨hframed.sp_eq, hframed.byte_eq⟩, .inr ⟨d, rfl, Nat.le_refl _⟩⟩
    | @fault fault n _ hn => exact ⟨n, 0, ⟨rfl, fun _ _ => rfl⟩, .inr ⟨d, rfl, hn⟩⟩

variable {floor : Nat}

theorem Sheltered.step (h : Sheltered floor m t) (hrunning : t.status = .running)
    (hpops : t.PopsBelow floor) (c : π) : Sheltered floor m (t.step c).2.1 := by
  obtain ⟨n, hn⟩ := h.sp_eq
  obtain ⟨pops, pushes, hframed, hcount⟩ := exists_framed_step hrunning c
  have hle : pops ≤ n := by
    rcases hcount with rfl | ⟨d, hfetch, hle⟩
    · exact Nat.zero_le n
    · by_contra hlt
      have := hpops d hfetch n (by omega)
      omega
  have hsp := hframed.sp_eq
  refine ⟨⟨pushes + n - pops, by omega⟩, fun i hi => ?_⟩
  rw [hframed.byte_eq i (by omega), h.byte_eq i hi]

theorem Segment.sheltered (h : Segment floor m t) (hsp : m.sp = floor) :
    Sheltered floor m t := by
  induction h with
  | refl => exact ⟨⟨0, hsp⟩, fun _ _ => rfl⟩
  | step c _ hrunning hpops ih => exact (ih hsp).step hrunning hpops c

theorem Segment.reachable {registry : Registry} {memorySize : Nat} {last : Option Bytes}
    (h : Segment floor m t) (hm : Reachable registry memorySize m last) :
    Reachable registry memorySize t last := by
  induction h with
  | refl => exact hm
  | step c _ _ _ ih => exact .step c (ih hm)

/-- A segment, taken step by step with one console. -/
theorem segment_after {n : Nat}
    (h : ∀ k < n, (after k m c).1.status = .running ∧ (after k m c).1.PopsBelow floor) :
    Segment floor m (after n m c).1 := by
  induction n with
  | zero => exact .refl
  | succ n ih =>
    obtain ⟨hrunning, hpops⟩ := h n (Nat.lt_succ_self n)
    rw [after_succ]
    exact .step _ (ih fun k hk => h k (by omega)) hrunning hpops

/-! ## Calls and returns -/

theorem fetch_eq_ok (h : m.fetch = .ok d) :
    m.ip + d.size ≤ m.imageEnd ∧ ∃ opcode, m.registry.byOpcode? opcode = some d := by
  unfold fetch at h
  split at h
  · split at h
    · cases h
    · split at h
      · cases h
      · rename_i opcode _ _ _ hd
        split at h
        · rename_i hfits
          cases h
          exact ⟨hfits, opcode, hd⟩
        · cases h
  · cases h

theorem mem_standard_of_fetch (hregistry : m.registry = Registry.standard)
    (h : m.fetch = .ok d) : d ∈ Definition.standard := by
  obtain ⟨-, opcode, hd⟩ := fetch_eq_ok h
  rw [hregistry] at hd
  exact Registry.mem_standard (Registry.standard_built.consistent.mem_of_byOpcode? hd).1

/-- A call that goes through has pushed the address behind it. -/
theorem step_call (hrunning : m.status = .running) (hfetch : m.fetch = .ok d)
    (heffect : d.effect = .call) (h : (m.step c).1 = .ok .running) :
    4 ≤ m.sp ∧ m.sp ≤ m.memory.size ∧ (m.step c).2.1.sp = m.sp - 4 ∧
      (m.step c).2.1.memory.bytes =
        m.memory.bytes.store32 (m.sp - 4) (UInt32.ofNat (m.ip + d.size)) := by
  rw [step_of_fetch hrunning hfetch, heffect] at h ⊢
  simp only [perform, labelOperand, returnAddress, push, advanced, EStateM.run_bind,
    EStateM.run_get, EStateM.run_pure, run_lift] at h ⊢
  cases htarget : m.memory.read16 (m.ip + 1) with
  | error fault =>
    rw [htarget] at h
    cases h
  | ok target =>
    simp only [htarget] at h ⊢
    by_cases hroom : m.imageEnd + 4 ≤ m.sp ∧ m.sp ≤ m.memory.size
    · simp only [if_pos hroom]
      exact ⟨by omega, hroom.2, rfl, rfl⟩
    · simp only [if_neg hroom] at h
      cases h

/-- A return pops an address and goes there. -/
theorem step_return (hrunning : m.status = .running) (hfetch : m.fetch = .ok d)
    (heffect : d.effect = .return) {w : UInt32} (htop : m.memory.bytes.read32? m.sp = some w)
    (c : π) :
    m.step c = (.ok .running, { (m.advanced d.size).popped with ip := w.toNat }, c) := by
  have hread : m.memory.read32 m.sp = .ok w := by
    rw [Memory.read32, htop]
  rw [step_of_fetch hrunning hfetch, heffect, perform, EStateM.run_bind, run_pop]
  simp only [advanced, hread]
  rw [← hrunning]
  rfl

/-- What a `call` has pushed is what `ret` pops, and the caller finds its stack as it was: from a
`call` that goes through, over any steps that pop nothing from the return address on, to a `ret`
with the return address on top of the stack. The `ret` goes to the address behind the `call`. -/
theorem Reachable.call_returns {memorySize : Nat} {image : Bytes} {d' : Definition}
    (h : Reachable Registry.standard memorySize m (some image)) (hsize : image.size < 2 ^ 32)
    (hrunning : m.status = .running) (hfetch : m.fetch = .ok d) (hcall : d.mnemonic = "call")
    (hstep : (m.step c).1 = .ok .running) (hsegment : Segment (m.sp - 4) (m.step c).2.1 t)
    (hrunning' : t.status = .running) (hfetch' : t.fetch = .ok d') (hreturn : d'.mnemonic = "ret")
    (hsp : t.sp = m.sp - 4) {π' : Type} [Console π'] (c' : π') :
    (m.step c).2.1.sp + 4 = m.sp ∧ (t.step c').1 = .ok .running ∧
      (t.step c').2.1.ip = m.ip + 3 ∧ (t.step c').2.1.sp = m.sp ∧
      ∀ i, m.sp ≤ i → (t.step c').2.1.memory.bytes[i]? = m.memory.bytes[i]? := by
  have hcalls : ∀ d ∈ Definition.standard, d.mnemonic = "call" → d.effect = .call ∧ d.size = 3 := by
    decide
  have hreturns : ∀ d ∈ Definition.standard, d.mnemonic = "ret" → d.effect = .return := by
    decide
  have ht := hsegment.reachable (.step c h)
  obtain ⟨heffect, hthree⟩ := hcalls d (mem_standard_of_fetch h.registry_eq hfetch) hcall
  have heffect' := hreturns d' (mem_standard_of_fetch ht.registry_eq hfetch') hreturn
  obtain ⟨hroom, hfits, hpushed, hbytes⟩ := step_call hrunning hfetch heffect hstep
  rw [hthree] at hbytes
  obtain ⟨-, hkept⟩ := hsegment.sheltered hpushed
  rw [hbytes] at hkept
  -- The return address is still on top, and it has not been cut off.
  have htop : t.memory.bytes.read32? t.sp = some (UInt32.ofNat (m.ip + 3)) := by
    rw [hsp, Bytes.read32?_congr fun i _ => hkept (m.sp - 4 + i) (by omega)]
    exact Bytes.read32?_store32_self _ (by rw [Memory.size] at hfits; omega)
  have haddress : (UInt32.ofNat (m.ip + 3)).toNat = m.ip + 3 := by
    have himage := (fetch_eq_ok hfetch).1
    rw [(h.inOrder.carries image rfl).imageEnd_eq, hthree] at himage
    exact UInt32.toNat_ofNat_of_lt' (by simp only [UInt32.size]; omega)
  rw [step_return hrunning' hfetch' heffect' htop c', hpushed]
  refine ⟨by omega, rfl, haddress, ?_, fun i hi => ?_⟩
  · simp only [popped, advanced]
    omega
  · exact (hkept i (by omega)).trans (Bytes.getElem?_store32_of_ne _ (by omega))

/-- `push 1`, `call 17` and `end`; from 17 on `push 7`, `call 27`, `out` and `ret`; at 27 `ret`. -/
def nested : Bytes :=
  (Header.withRegisters 1).toBytes ++ #[0x01, 1, 0, 0, 0, 0x08, 17, 0, 0x00] ++
    #[0x01, 7, 0, 0, 0, 0x08, 27, 0, 0x05, 0x09] ++ #[0x09]

/-- Between the outer `call` and its `ret` there are another `call` with its `ret`, and a word that
is pushed and popped. -/
theorem Reachable.call_returns_nested :
    let c := BufferedConsole.ofText ""
    let m := (((Machine.create Registry.standard 64).load nested).2.step c).2.1
    let t := (after 4 (m.step c).2.1 c).1
    m.status = .running ∧ m.ip = 13 ∧ m.sp = 60 ∧ (m.step c).2.1.sp = 56 ∧
      t.status = .running ∧ t.ip = 26 ∧ t.sp = 56 ∧
      (t.step c).2.1.ip = 16 ∧ (t.step c).2.1.sp = 60 ∧
      (t.step c).2.1.memory.bytes[60]? = some 1 := by
  intro c m t
  have hrun : m.status = .running ∧ m.ip = 13 ∧ m.sp = 60 ∧ m.memory.bytes[60]? = some 1 ∧
      m.fetch = .ok ⟨"call", 0x08, [.label], .call⟩ ∧ (m.step c).1 = .ok .running ∧
      (m.step c).2.1.sp = 56 ∧
      (∀ k < 4, (after k (m.step c).2.1 c).1.status = .running ∧
        (after k (m.step c).2.1 c).1.PopsBelow (m.sp - 4)) ∧
      t.status = .running ∧ t.ip = 26 ∧ t.sp = 56 ∧
      t.fetch = .ok ⟨"ret", 0x09, [], .return⟩ := by
    decide +kernel
  obtain ⟨hrunning, hip, hsp, hbyte, hfetch, hstep, hsp', hpops, hrunning', hip', hsp'', hfetch'⟩ :=
    hrun
  have hloaded : Reachable Registry.standard 64
      ((Machine.create Registry.standard 64).load nested).2 (some nested) :=
    .load .create (by decide +kernel)
  have hm : Reachable Registry.standard 64 m (some nested) := .step c hloaded
  have hsegment : Segment (m.sp - 4) (m.step c).2.1 t := segment_after hpops
  obtain ⟨-, -, hbehind, htop, hkept⟩ :=
    hm.call_returns (by decide +kernel) hrunning hfetch rfl hstep hsegment hrunning' hfetch' rfl
      (by rw [hsp'', hsp]) c
  rw [hip] at hbehind
  rw [hsp] at htop hkept
  have hkept' := hkept 60 (Nat.le_refl 60)
  rw [hbyte] at hkept'
  exact ⟨hrunning, hip, hsp, hsp', hrunning', hip', hsp'', hbehind, htop, hkept'⟩

end StackMachine.Machine
