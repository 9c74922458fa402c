import StackMachine.Proofs.Machine.Run
import StackMachine.Proofs.Machine.Strict

/-!
# The machines that loads, steps and runs lead to

A machine carries the image that was loaded last, and the layout is in order, whatever was done with
it since then: steps and runs with any consoles, and loads that failed.

* `InOrder.load`, `InOrder.reject`, `InOrder.after`: what each load and any steps keep.
* `Reachable.inOrder`: what every machine has that loads, steps and runs lead to.
* `Reachable.in_range`: such a machine looks up nothing that is not there.
-/

namespace StackMachine

theorem Header.registerCount_le {image : Bytes} {header : Header}
    (h : Header.check image = .ok header) : header.registerCount.toNat ≤ 8 := by
  unfold Header.check at h
  cases hheader : Header.ofBytes? image with
  | none =>
    rw [hheader] at h
    cases h
  | some found =>
    simp only [hheader] at h
    split at h
    · cases h
    · split at h
      · cases h
      · split at h
        · cases h
        · rename_i hle
          cases h
          exact UInt8.le_iff_toNat_le.1 (UInt8.not_lt.1 hle)

namespace Machine

variable {π τ : Type} [Console π] {m : Machine} {image : Bytes}

/-- The machines that loads, steps and runs lead to, each with the image that was loaded last. -/
inductive Reachable (registry : Registry) (memorySize : Nat) : Machine → Option Bytes → Prop
  | create : Reachable registry memorySize (create registry memorySize) none
  | load {m : Machine} {last : Option Bytes} {image : Bytes} :
      Reachable registry memorySize m last → (m.load image).1 = .ok () →
      Reachable registry memorySize (m.load image).2 (some image)
  | reject {m : Machine} {last : Option Bytes} {image : Bytes} {error : LoadError} :
      Reachable registry memorySize m last → (m.load image).1 = .error error →
      Reachable registry memorySize (m.load image).2 last
  | step {π : Type} [Console π] {m : Machine} {last : Option Bytes} (c : π) :
      Reachable registry memorySize m last → Reachable registry memorySize (m.step c).2.1 last
  | run {π τ : Type} [Console π] {m : Machine} {last : Option Bytes} {tracer : Tracer τ}
      {limit : Option Nat} {budget : Nat} {c : π} {trace : τ} {outcome : Except RunError Halt}
      {s : RunState π τ} :
      Reachable registry memorySize m last →
      run? tracer limit budget m c trace = some (outcome, s) →
      Reachable registry memorySize s.machine last

/-! ## Runs and loads -/

theorem run?_eq_after {tracer : Tracer τ} {limit : Option Nat} {budget : Nat} {c : π} {trace : τ}
    {outcome : Except RunError Halt} {s : RunState π τ}
    (h : run? tracer limit budget m c trace = some (outcome, s)) :
    ∃ k, s.machine = (after k m c).1 := by
  cases limit with
  | some n =>
    obtain ⟨k, -, hk, -⟩ := runFor_eq_after tracer trace n m c
    simp only [run?, Option.some.injEq, Prod.mk.injEq] at h
    exact ⟨k, by rw [← hk, h.2]⟩
  | none =>
    obtain ⟨k, -, hk, -⟩ := runFor_eq_after tracer trace budget m c
    rcases hrun : runFor tracer budget m c trace with ⟨ending, t⟩
    rw [hrun] at hk
    simp only [run?, hrun] at h
    split at h
    · cases h
    · rename_i heq
      cases heq
      cases h
      exact ⟨k, hk⟩

theorem after_of_stopped (h : m.status ≠ .running) (n : Nat) (c : π) : after n m c = (m, c) :=
  Function.iterate_fixed (step_of_stopped h c) n

theorem load_eq_of_error {error : LoadError} (h : (m.load image).1 = .error error) :
    (m.load image).2 = { m with status := .notReady } := by
  unfold load at h ⊢
  cases hcheck : Header.check image with
  | error e => rfl
  | ok header =>
    cases hload : m.memory.load image with
    | error fault => rfl
    | ok memory =>
      simp only [hcheck, hload] at h
      cases h

/-! ## What a machine carries -/

/-- That the layout is in order for an image, and there are as many registers as it asks for. -/
structure Carries (m : Machine) (image : Bytes) : Prop where
  layout : m.Layout
  imageEnd_eq : m.imageEnd = image.size
  image_eq : m.image = image
  registers : ∃ header, Header.check image = .ok header ∧
    m.registers.size = header.registerCount.toNat

namespace Carries

theorem of_keeps {m' : Machine} (h : m.Carries image) (hkeeps : m.Keeps m') : m'.Carries image where
  layout := hkeeps.layout
  imageEnd_eq := hkeeps.imageEnd_eq.trans h.imageEnd_eq
  image_eq := hkeeps.image_eq.trans h.image_eq
  registers := by
    rw [hkeeps.registers_size_eq]
    exact h.registers

theorem of_load (hload : (m.load image).1 = .ok ()) : (m.load image).2.Carries image := by
  obtain ⟨⟨header, hcheck⟩, hfits⟩ := load_eq_ok_iff.1 hload
  have hstarted := load_started hcheck hfits
  refine ⟨hstarted.layout, hstarted.imageEnd_eq, hstarted.image_eq, header, hcheck, ?_⟩
  rw [hstarted.registers_eq, Array.size_replicate]

end Carries

/-- What every machine has that loads, steps and runs lead to. Before the first image is loaded,
there may be no whole number of words between `sp` and the end of memory, but no step is taken. -/
structure InOrder (memorySize : Nat) (m : Machine) (last : Option Bytes) : Prop where
  size_eq : m.memory.size = memorySize
  unready : last = none → m.status = .notReady
  carries : ∀ image, last = some image → m.Carries image

namespace InOrder

variable {memorySize : Nat} {last : Option Bytes}

theorem create (registry : Registry) : InOrder memorySize (create registry memorySize) none :=
  ⟨size_create registry memorySize, fun _ => rfl, nofun⟩

theorem load (h : InOrder memorySize m last) (hload : (m.load image).1 = .ok ()) :
    InOrder memorySize (m.load image).2 (some image) := by
  obtain ⟨⟨header, hcheck⟩, hfits⟩ := load_eq_ok_iff.1 hload
  refine ⟨(load_started hcheck hfits).size_eq.trans h.size_eq, nofun, ?_⟩
  rintro _ ⟨⟩
  exact .of_load hload

theorem reject {error : LoadError} (h : InOrder memorySize m last)
    (hload : (m.load image).1 = .error error) : InOrder memorySize (m.load image).2 last := by
  rw [load_eq_of_error hload]
  refine ⟨h.size_eq, fun _ => rfl, fun image hlast => ?_⟩
  have hcarries := h.carries image hlast
  exact hcarries.of_keeps (.of_eq hcarries.layout rfl rfl rfl rfl rfl)

theorem after (h : InOrder memorySize m last) (n : Nat) (c : π) :
    InOrder memorySize (after n m c).1 last := by
  cases last with
  | none =>
    -- There is no layout to keep, but neither is there a step to take.
    have hstopped : m.status ≠ .running := by
      rw [h.unready rfl]
      nofun
    rw [after_of_stopped hstopped]
    exact h
  | some image =>
    have hcarries := h.carries image rfl
    have hkeeps := after_keeps n c hcarries.layout
    refine ⟨hkeeps.size_eq.trans h.size_eq, nofun, ?_⟩
    rintro _ ⟨⟩
    exact hcarries.of_keeps hkeeps

theorem strictStep_eq (h : InOrder memorySize m last) (c : π) :
    m.strictStep c = some (m.step c) := by
  cases last with
  | none =>
    unfold strictStep step
    simp only [h.unready rfl]
  | some image => exact Machine.strictStep_eq (h.carries image rfl).layout c

theorem strictRunFor_eq (h : InOrder memorySize m last) (tracer : Tracer τ) (n : Nat) (c : π)
    (trace : τ) : strictRunFor tracer n m c trace = some (runFor tracer n m c trace) := by
  cases last with
  | none =>
    unfold strictRunFor runFor
    simp only [h.unready rfl, reduceCtorEq, if_false, if_true]
  | some image => exact Machine.strictRunFor_eq tracer n (h.carries image rfl).layout c trace

end InOrder

/-! ## Reachable machines -/

variable {registry : Registry} {memorySize : Nat} {last : Option Bytes}

theorem Reachable.inOrder (h : Reachable registry memorySize m last) :
    InOrder memorySize m last := by
  induction h with
  | create => exact .create registry
  | load _ hload ih => exact ih.load hload
  | reject _ hload ih => exact ih.reject hload
  | step c _ ih => exact ih.after 1 c
  | run _ hrun ih =>
    obtain ⟨k, hk⟩ := run?_eq_after hrun
    rw [hk]
    exact ih.after k _

theorem reachable_runFor (h : Reachable registry memorySize m last) (tracer : Tracer τ) (n : Nat)
    (c : π) (trace : τ) :
    Reachable registry memorySize (runFor tracer n m c trace).2.machine last := by
  have hrun : run? tracer (some n) 0 m c trace =
      some ((runFor tracer n m c trace).1.outcome n, (runFor tracer n m c trace).2) := rfl
  exact .run h hrun

/-- Whatever the registry is, and whatever loads, steps and runs there have been, the size of memory
is what it was at first. Once an image has been loaded, memory starts with the image that was loaded
last, the stack of whole words lies between it and the end of memory, and there are as many
registers as its header asks for, which are at most eight. Nothing is looked up that is not there:
neither by a step, nor by a run that shows a tracer the image before each step. -/
theorem Reachable.in_range (h : Reachable registry memorySize m last) :
    m.memory.size = memorySize ∧
    (∀ image, last = some image →
      m.memory.bytes.slice? 0 m.imageEnd = some image ∧ m.imageEnd = image.size ∧
      m.imageEnd ≤ m.sp ∧ m.sp ≤ memorySize ∧ 4 ∣ memorySize - m.sp ∧
      ∃ header, Header.check image = .ok header ∧
        m.registers.size = header.registerCount.toNat ∧ m.registers.size ≤ 8) ∧
    ∀ {π τ : Type} [Console π] (c : π) (tracer : Tracer τ) (n : Nat) (trace : τ),
      m.strictStep c = some (m.step c) ∧
      strictRunFor tracer n m c trace = some (runFor tracer n m c trace) := by
  have horder := h.inOrder
  have hsize := horder.size_eq
  refine ⟨hsize, fun image hlast => ?_, fun c tracer n trace => ?_⟩
  · obtain ⟨⟨himageEnd, hsp, haligned⟩, hend, himage, header, hcheck, hregisters⟩ :=
      horder.carries image hlast
    have hslice := slice?_image (Nat.le_trans himageEnd hsp)
    rw [himage] at hslice
    rw [hsize] at hsp haligned
    refine ⟨hslice, hend, himageEnd, hsp, haligned, header, hcheck, hregisters, ?_⟩
    rw [hregisters]
    exact Header.registerCount_le hcheck
  · exact ⟨horder.strictStep_eq c, horder.strictRunFor_eq tracer n c trace⟩

/-- Instructions without operands, two of which read one nevertheless. -/
def borrowers : Registry :=
  Registry.empty.registerAll
    [⟨"grab", 0x01, [], .pushConstant⟩, ⟨"keep", 0x02, [], .popRegister⟩,
      ⟨"stay", 0x03, [], .depart⟩]

/-- `stay`, `grab` and `keep`: the constant is read across the end of the image, and the register
behind it, on the stack. -/
def borrowing : Bytes :=
  (Header.withRegisters 3).toBytes ++ #[0x03, 0x01, 0x02]

/-- Two steps, a run that ends with a violation, and a load that fails, in 19 bytes of memory. -/
theorem Reachable.in_range_borrowing :
    let c := BufferedConsole.ofText ""
    let m := ((Machine.create borrowers 19).load borrowing).2
    let m' := ((m.step c).2.1.step c).2.1
    let stopped := (runFor Tracer.silent 5 m' c ()).2.machine
    let rejected := (stopped.load #[]).2
    Reachable borrowers 19 m' (some borrowing) ∧ m'.sp = 11 ∧
      strictRunFor Tracer.silent 5 m' c () = some (runFor Tracer.silent 5 m' c ()) ∧
      Reachable borrowers 19 rejected (some borrowing) ∧ rejected.registers = #[0, 0, 2] ∧
      rejected.memory.bytes.slice? 0 rejected.imageEnd = some borrowing := by
  intro c m m' stopped rejected
  have hloaded : Reachable borrowers 19 m (some borrowing) := .load .create (by decide +kernel)
  have hstepped : Reachable borrowers 19 m' (some borrowing) := .step c (.step c hloaded)
  have hstopped : Reachable borrowers 19 stopped (some borrowing) :=
    reachable_runFor hstepped Tracer.silent 5 c ()
  have herror : (stopped.load #[]).1 = .error (.image (.tooSmall 0)) := by decide +kernel
  have hrejected : Reachable borrowers 19 rejected (some borrowing) := .reject hstopped herror
  obtain ⟨-, -, hstrict⟩ := hstepped.in_range
  obtain ⟨-, hcarries, -⟩ := hrejected.in_range
  obtain ⟨hslice, -⟩ := hcarries borrowing rfl
  exact ⟨hstepped, by decide +kernel, (hstrict c Tracer.silent 5 ()).2, hrejected,
    by decide +kernel, hslice⟩

end Machine

end StackMachine
