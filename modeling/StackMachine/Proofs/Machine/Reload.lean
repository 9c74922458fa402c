import StackMachine.Proofs.Machine.Reachable

/-!
# Loads and the past of a machine

A load that succeeds leaves nothing of what a machine has done before: the machine is the one that
starts with the image and with memory of that size. A load that fails only takes the machine out of
service. Until the next load succeeds, nothing that is asked of it reaches it or the console.

* `load_congr`: a load depends on the registry and on the size of memory, and on nothing else.
* `Reachable.registry_eq`: no load, step or run changes the registry.
* `Unserved.eq`: a machine that is not ready stays as it is until an image is loaded.
* `Reachable.load_erases`: what loads do to every machine that loads, steps and runs lead to.
-/

namespace StackMachine.Machine

variable {π τ : Type} [Console π] {registry : Registry} {memorySize : Nat} {m m' : Machine}
  {last : Option Bytes}

/-! ## Loads that succeed -/

theorem Memory.load_congr {memory memory' : Memory} (h : memory.size = memory'.size)
    (image : Bytes) : memory.load image = memory'.load image := by
  rw [Memory.load, Memory.load, h]

theorem load_fst_congr (hsize : m.memory.size = m'.memory.size) (image : Bytes) :
    (m.load image).1 = (m'.load image).1 := by
  unfold load
  rw [Memory.load_congr hsize]
  cases Header.check image with
  | error e => rfl
  | ok header =>
    cases m'.memory.load image with
    | error fault =>
      dsimp only
      rw [hsize]
    | ok memory => rfl

/-- A load overwrites every part of a machine that it does not ask for. -/
theorem load_congr (hregistry : m.registry = m'.registry)
    (hsize : m.memory.size = m'.memory.size) {image : Bytes} (h : (m.load image).1 = .ok ()) :
    (m.load image).2 = (m'.load image).2 := by
  obtain ⟨⟨header, hcheck⟩, hfits⟩ := load_eq_ok_iff.1 h
  have hmemory : m.memory.load image =
      .ok ⟨image ++ Array.replicate (m.memory.size - image.size) 0⟩ := if_pos hfits
  have hmemory' := Memory.load_congr hsize image ▸ hmemory
  simp only [load, hcheck, hmemory, hmemory', hregistry]

/-! ## The registry -/

theorem InOrder.registry_after (h : InOrder memorySize m last) (n : Nat) (c : π) :
    (Machine.after n m c).1.registry = m.registry := by
  cases last with
  | none =>
    have hstopped : m.status ≠ .running := by
      rw [h.unready rfl]
      nofun
    rw [after_of_stopped hstopped]
  | some image => exact (after_keeps n c (h.carries image rfl).layout).registry_eq

theorem registry_load (m : Machine) (image : Bytes) : (m.load image).2.registry = m.registry := by
  unfold load
  split
  · rfl
  · split <;> rfl

theorem Reachable.registry_eq (h : Reachable registry memorySize m last) :
    m.registry = registry := by
  induction h with
  | create => rfl
  | load _ _ ih => exact (registry_load _ _).trans ih
  | reject _ _ ih => exact (registry_load _ _).trans ih
  | step c h ih => exact (h.inOrder.registry_after 1 c).trans ih
  | run h hrun ih =>
    obtain ⟨k, hk⟩ := run?_eq_after hrun
    rw [hk]
    exact (h.inOrder.registry_after k _).trans ih

/-! ## Loads that fail -/

/-- What comes of a machine by steps, runs and loads, as long as no load succeeds. -/
inductive Unserved : Machine → Machine → Prop
  | refl {m : Machine} : Unserved m m
  | reject {m m' : Machine} {image : Bytes} {error : LoadError} :
      Unserved m m' → (m'.load image).1 = .error error → Unserved m (m'.load image).2
  | step {π : Type} [Console π] {m m' : Machine} (c : π) :
      Unserved m m' → Unserved m (m'.step c).2.1
  | run {π τ : Type} [Console π] {m m' : Machine} {tracer : Tracer τ} {limit : Option Nat}
      {budget : Nat} {c : π} {trace : τ} {outcome : Except RunError Halt} {s : RunState π τ} :
      Unserved m m' → run? tracer limit budget m' c trace = some (outcome, s) →
      Unserved m s.machine

theorem step_of_notReady (h : m.status = .notReady) (c : π) :
    m.step c = (.error .notReady, m, c) := by
  simp only [step, h]

theorem run?_of_notReady (h : m.status = .notReady) (tracer : Tracer τ) (limit : Option Nat)
    (budget : Nat) (c : π) (trace : τ) :
    run? tracer limit budget m c trace = some (.error .notReady, ⟨m, c, trace⟩) := by
  have hrun (n : Nat) : runFor tracer n m c trace = (.failed .notReady, ⟨m, c, trace⟩) := by
    unfold runFor
    simp only [h, reduceCtorEq, if_false, if_true]
  cases limit <;> simp only [run?, hrun] <;> rfl

theorem Unserved.eq (h : Unserved m m') (hm : m.status = .notReady) : m' = m := by
  induction h with
  | refl => rfl
  | reject _ hload ih =>
    rw [load_eq_of_error hload, ih hm, ← hm]
  | step c _ ih =>
    rw [ih hm, step_of_notReady hm]
  | run _ hrun ih =>
    rw [ih hm, run?_of_notReady hm] at hrun
    cases hrun
    rfl

/-- Whatever loads, steps and runs there have been, a load succeeds exactly if the header of the
image is in order and the image fits into memory. The machine is then, with its memory, registers
and addresses, the one that a new machine with memory of the same size becomes. Otherwise it is not
ready, and else as it was. No step and no run gets anything from it then, and none reaches the
machine or the console until a load succeeds. -/
theorem Reachable.load_erases (h : Reachable registry memorySize m last) (image : Bytes) :
    ((m.load image).1 = .ok () ↔
      (∃ header, Header.check image = .ok header) ∧ image.size ≤ memorySize) ∧
    (m.load image).1 = ((Machine.create registry memorySize).load image).1 ∧
    ((m.load image).1 = .ok () →
      (m.load image).2 = ((Machine.create registry memorySize).load image).2) ∧
    ∀ error, (m.load image).1 = .error error →
      (m.load image).2 = { m with status := .notReady } ∧
      ∀ m', Unserved (m.load image).2 m' →
        m' = { m with status := .notReady } ∧
        ∀ {π τ : Type} [Console π] (c : π) (tracer : Tracer τ) (limit : Option Nat) (budget : Nat)
          (trace : τ),
          m'.step c = (.error .notReady, m', c) ∧
          run? tracer limit budget m' c trace = some (.error .notReady, ⟨m', c, trace⟩) := by
  have hsize : m.memory.size = memorySize := h.inOrder.size_eq
  have hfresh : m.memory.size = (Machine.create registry memorySize).memory.size :=
    hsize.trans (size_create registry memorySize).symm
  refine ⟨?_, load_fst_congr hfresh image, fun hload => ?_, fun error hload => ?_⟩
  · rw [← hsize]
    exact load_eq_ok_iff
  · exact load_congr h.registry_eq hfresh hload
  · have hleft := load_eq_of_error hload
    refine ⟨hleft, fun m' hm' => ?_⟩
    obtain rfl : m' = { m with status := .notReady } := by
      rw [← hleft]
      refine hm'.eq ?_
      rw [hleft]
    exact ⟨rfl, fun c tracer limit budget trace =>
      ⟨step_of_notReady rfl c, run?_of_notReady rfl tracer limit budget c trace⟩⟩

/-- A program that has stopped with a violation, after it has changed a register. The machine loads
the program once more, or fails to load what is no image. -/
theorem Reachable.load_erases_borrowing :
    let c := BufferedConsole.ofText ""
    let m := ((Machine.create borrowers 19).load borrowing).2
    let stopped := (runFor Tracer.silent 5 m c ()).2.machine
    let rejected := (stopped.load #[]).2
    stopped.status = .faulted .accessViolation ∧ stopped.registers = #[0, 0, 2] ∧
      Reachable borrowers 19 stopped (some borrowing) ∧ (stopped.load borrowing).2 = m ∧
      (stopped.load #[]).1 = .error (.image (.tooSmall 0)) ∧ rejected.registers = #[0, 0, 2] ∧
      (rejected.step c).2.1.step c = (.error .notReady, rejected, c) := by
  intro c m stopped rejected
  have hloaded : Reachable borrowers 19 m (some borrowing) := .load .create (by decide +kernel)
  have hstopped : Reachable borrowers 19 stopped (some borrowing) :=
    reachable_runFor hloaded Tracer.silent 5 c ()
  have herror : (stopped.load #[]).1 = .error (.image (.tooSmall 0)) := by decide +kernel
  obtain ⟨-, -, hagain, -⟩ := hstopped.load_erases borrowing
  obtain ⟨-, -, -, hfailed⟩ := hstopped.load_erases #[]
  obtain ⟨hleft, hidle⟩ := hfailed _ herror
  obtain ⟨hsame, hanswers⟩ := hidle _ (.step c .refl)
  refine ⟨by decide +kernel, by decide +kernel, hstopped, hagain (by decide +kernel), herror,
    by decide +kernel, ?_⟩
  rw [(hanswers c Tracer.silent none 0 ()).1, hsame, ← hleft]

end StackMachine.Machine
