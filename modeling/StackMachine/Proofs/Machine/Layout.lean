import Mathlib.Logic.Function.Iterate
import StackMachine.Machine.Run
import StackMachine.Proofs.Bytes

/-!
# The layout of a machine

While a program runs, its image stays at the start of memory, and the stack, which consists of whole
words, stays between the image and the end of memory.

* `run_push`, `run_pop_nil`, `run_pop_cons`: pushing and popping, in terms of the words on the
  stack.
* `perform_maintains`: what each part of an instruction respects, a whole instruction respects, and
  also when it fails.
* `perform_preserves`: whatever an effect does, the layout is kept. This needs nothing from the
  registry.
* `step_keeps`, `after_keeps`: so does a step, and so do any number of steps.
* `load_eq_ok_iff`, `load_started`: which images can be loaded, and what the machine is then like.
-/

namespace StackMachine.Machine

variable {π : Type} {m m₁ m₂ m₃ : Machine} {c : π}

/-- The stack lies between the image and the end of memory, and it consists of whole words. -/
structure Layout (m : Machine) : Prop where
  imageEnd_le : m.imageEnd ≤ m.sp
  sp_le : m.sp ≤ m.memory.size
  aligned : 4 ∣ m.memory.size - m.sp

/-- All words on the stack, the top first. -/
def words (m : Machine) : List UInt32 :=
  m.stack m.memory.size

/-- The number of words that the stack has room for. -/
def capacity (m : Machine) : Nat :=
  (m.memory.size - m.imageEnd) / 4

/-- What a running program cannot change, and that the layout is as it should be. -/
structure Keeps (m m' : Machine) : Prop where
  registry_eq : m'.registry = m.registry
  size_eq : m'.memory.size = m.memory.size
  imageEnd_eq : m'.imageEnd = m.imageEnd
  image_eq : m'.image = m.image
  registers_size_eq : m'.registers.size = m.registers.size
  layout : m'.Layout

namespace Keeps

theorem refl (h : m.Layout) : m.Keeps m :=
  ⟨rfl, rfl, rfl, rfl, rfl, h⟩

/-- A change that leaves memory and the stack alone. -/
theorem of_eq {m' : Machine} (h : m.Layout) (hregistry : m'.registry = m.registry)
    (hmemory : m'.memory = m.memory) (himageEnd : m'.imageEnd = m.imageEnd) (hsp : m'.sp = m.sp)
    (hregisters : m'.registers.size = m.registers.size) : m.Keeps m' where
  registry_eq := hregistry
  size_eq := by rw [hmemory]
  imageEnd_eq := himageEnd
  image_eq := by rw [image, image, hmemory, himageEnd]
  registers_size_eq := hregisters
  layout := by
    refine ⟨?_, ?_, ?_⟩
    · rw [himageEnd, hsp]
      exact h.imageEnd_le
    · rw [hmemory, hsp]
      exact h.sp_le
    · rw [hmemory, hsp]
      exact h.aligned

theorem trans (h₁ : m₁.Keeps m₂) (h₂ : m₂.Keeps m₃) : m₁.Keeps m₃ where
  registry_eq := h₂.registry_eq.trans h₁.registry_eq
  size_eq := h₂.size_eq.trans h₁.size_eq
  imageEnd_eq := h₂.imageEnd_eq.trans h₁.imageEnd_eq
  image_eq := h₂.image_eq.trans h₁.image_eq
  registers_size_eq := h₂.registers_size_eq.trans h₁.registers_size_eq
  layout := h₂.layout

theorem capacity_eq (h : m₁.Keeps m₂) : m₂.capacity = m₁.capacity := by
  rw [capacity, capacity, h.size_eq, h.imageEnd_eq]

end Keeps

/-! ## The stack -/

theorem words_eq (m : Machine) :
    m.words = m.memory.bytes.wordsAt m.sp ((m.memory.size - m.sp) / 4) := by
  rw [words, stack, Nat.min_eq_right (by omega)]
  rfl

theorem length_words (h : m.Layout) : 4 * m.words.length = m.memory.size - m.sp := by
  have haligned := h.aligned
  have hsp := h.sp_le
  rw [words_eq, Bytes.length_wordsAt]
  · omega
  · rw [Memory.size] at *
    omega

theorem length_words_le (h : m.Layout) : m.words.length ≤ m.capacity := by
  have hlength := length_words h
  have himage := h.imageEnd_le
  rw [capacity]
  omega

theorem getElem?_words {k : Nat} (h : m.Layout) (hk : k < m.words.length) :
    m.words[k]? = m.memory.bytes.read32? (m.sp + 4 * k) := by
  have hlength := length_words h
  have hsp := h.sp_le
  have hfits : m.sp + 4 * ((m.memory.size - m.sp) / 4) ≤ m.memory.bytes.size := by
    rw [Memory.size] at *
    omega
  rw [words_eq, Bytes.getElem?_wordsAt hfits (by omega)]

/-- The machine with one more word on the stack. -/
def pushed (m : Machine) (w : UInt32) : Machine :=
  { m with memory := m.memory.store32 (m.sp - 4) w, sp := m.sp - 4 }

/-- The machine without the word on top of the stack. -/
def popped (m : Machine) : Machine :=
  { m with sp := m.sp + 4 }

@[simp]
theorem size_pushed (w : UInt32) : (m.pushed w).memory.size = m.memory.size := by
  rw [pushed, Memory.size_store32]

@[simp]
theorem bytes_pushed (w : UInt32) :
    (m.pushed w).memory.bytes = m.memory.bytes.store32 (m.sp - 4) w := by
  rw [pushed, Memory.store32]

@[simp]
theorem imageEnd_pushed (w : UInt32) : (m.pushed w).imageEnd = m.imageEnd := by
  simp only [pushed]

@[simp]
theorem sp_pushed (w : UInt32) : (m.pushed w).sp = m.sp - 4 := by
  simp only [pushed]

@[simp]
theorem registry_pushed (w : UInt32) : (m.pushed w).registry = m.registry := by
  simp only [pushed]

@[simp]
theorem registers_pushed (w : UInt32) : (m.pushed w).registers = m.registers := by
  simp only [pushed]

theorem image_pushed {w : UInt32} (h : m.imageEnd + 4 ≤ m.sp) :
    (m.pushed w).image = m.image := by
  rw [image, image, imageEnd_pushed, bytes_pushed, Bytes.extract_store32 w (by omega)]

theorem pushed_keeps {w : UInt32} (h : m.Layout) (hroom : m.words.length < m.capacity) :
    m.Keeps (m.pushed w) := by
  have hlength := length_words h
  have hsp := h.sp_le
  rw [capacity] at hroom
  have himage : m.imageEnd + 4 ≤ m.sp := by omega
  have hlayout : (m.pushed w).Layout := by
    refine ⟨?_, ?_, ?_⟩
    all_goals
      simp only [imageEnd_pushed, size_pushed, sp_pushed]
      omega
  exact ⟨registry_pushed w, size_pushed w, imageEnd_pushed w, image_pushed himage, by simp, hlayout⟩

theorem words_pushed {w : UInt32} (h : m.Layout) (hroom : m.words.length < m.capacity) :
    (m.pushed w).words = w :: m.words := by
  have hlength := length_words h
  have hsp := h.sp_le
  rw [capacity] at hroom
  have hcount : (m.memory.size - (m.sp - 4)) / 4 = (m.memory.size - m.sp) / 4 + 1 := by omega
  have hread : (m.memory.bytes.store32 (m.sp - 4) w).read32? (m.sp - 4) = some w :=
    Bytes.read32?_store32_self w (by rw [Memory.size] at *; omega)
  rw [words_eq, words_eq, bytes_pushed, size_pushed, sp_pushed]
  rw [hcount, Bytes.wordsAt_succ hread, show m.sp - 4 + 4 = m.sp by omega,
    Bytes.wordsAt_congr _ fun i hi => Bytes.getElem?_store32_of_ne w (by omega)]

theorem words_eq_cons {w : UInt32} {rest : List UInt32} (h : m.Layout)
    (hwords : m.words = w :: rest) :
    m.memory.bytes.read32? m.sp = some w ∧ m.popped.words = rest ∧ m.Keeps m.popped := by
  have hlength := length_words h
  rw [hwords, List.length_cons] at hlength
  have htop : m.sp + 4 ≤ m.memory.bytes.size := by
    rw [Memory.size] at hlength
    omega
  obtain ⟨v, hread⟩ := Bytes.read32?_isSome htop
  have hcount : (m.memory.size - m.sp) / 4 = (m.memory.size - (m.sp + 4)) / 4 + 1 := by omega
  rw [words_eq, hcount, Bytes.wordsAt_succ hread] at hwords
  obtain ⟨rfl, hrest⟩ := List.cons.inj hwords
  have himage := h.imageEnd_le
  have hlayout : m.popped.Layout := by
    refine ⟨?_, ?_, ?_⟩
    all_goals
      simp only [popped]
      omega
  exact ⟨hread, (words_eq _).trans hrest, rfl, rfl, rfl, rfl, rfl, hlayout⟩

theorem words_eq_nil (h : m.Layout) (hwords : m.words = []) :
    m.memory.bytes.read32? m.sp = none := by
  have hlength := length_words h
  rw [hwords, List.length_nil] at hlength
  have hsp := h.sp_le
  rw [Bytes.read32?, dif_neg]
  rw [Memory.size] at *
  omega

/-! ## Runs of the parts of an instruction -/

open StackMachine.Machine.Action

theorem run_push (w : UInt32) (h : m.Layout) :
    (push w).run (m, c) =
      if m.words.length < m.capacity then .ok () (m.pushed w, c)
      else .error (.fault .accessViolation) (m, c) := by
  have hlength := length_words h
  have himage := h.imageEnd_le
  have hsp := h.sp_le
  have hroom : (m.imageEnd + 4 ≤ m.sp ∧ m.sp ≤ m.memory.size) ↔
      m.words.length < m.capacity := by
    rw [capacity]
    omega
  by_cases hfull : m.words.length < m.capacity
  · rw [if_pos hfull]
    simp only [push, EStateM.run_bind, EStateM.run_get, hroom, hfull, if_true]
    rfl
  · rw [if_neg hfull]
    simp only [push, EStateM.run_bind, EStateM.run_get, hroom, hfull, if_false]
    rfl

theorem run_lift {α : Type} (result : Except Fault α) (s : Machine × π) :
    (lift result).run s =
      match result with
      | .ok a => .ok a s
      | .error fault => .error (.fault fault) s := by
  cases result <;> rfl

theorem run_pop_nil (h : m.Layout) (hwords : m.words = []) :
    (pop : Action π UInt32).run (m, c) = .error (.fault .accessViolation) (m, c) := by
  simp only [pop, EStateM.run_bind, EStateM.run_get, run_lift, Memory.read32,
    words_eq_nil h hwords]

theorem run_pop_cons {w : UInt32} {rest : List UInt32} (h : m.Layout)
    (hwords : m.words = w :: rest) :
    (pop : Action π UInt32).run (m, c) = .ok w (m.popped, c) := by
  simp only [pop, EStateM.run_bind, EStateM.run_get, run_lift, Memory.read32,
    (words_eq_cons h hwords).1]
  rfl

/-! ## What every action keeps -/

/-- A relation of machines that each change a part of an instruction can make respects. -/
structure Stepwise (R : Machine → Machine → Prop) : Prop where
  refl : ∀ m, R m m
  trans : ∀ {m₁ m₂ m₃}, R m₁ m₂ → R m₂ m₃ → R m₁ m₃
  push : ∀ (m : Machine) (w : UInt32), m.imageEnd + 4 ≤ m.sp → m.sp ≤ m.memory.size →
    R m (m.pushed w)
  pop : ∀ m : Machine, m.sp + 4 ≤ m.memory.size → R m m.popped
  jump : ∀ (m : Machine) (ip : Nat), R m { m with ip }
  assign : ∀ (m : Machine) (registers : Array UInt32), registers.size = m.registers.size →
    R m { m with registers }

namespace Action

variable {α β : Type} {R : Machine → Machine → Prop}

/-- The machine and the console that an action leaves, whether it fails or not. -/
def leaves (x : Action π α) (s : Machine × π) : Machine × π :=
  match x.run s with
  | .ok _ s => s
  | .error _ s => s

/-- Whether an action leaves a machine that is related to the one before, also when it fails. -/
def Maintains (R : Machine → Machine → Prop) (x : Action π α) : Prop :=
  ∀ (m : Machine) (c : π), R m (x.leaves (m, c)).1

/-- Whether an action, run in a machine with the right layout, keeps what no program can change. -/
def Preserves (x : Action π α) : Prop :=
  ∀ (m : Machine) (c : π), m.Layout → m.Keeps (x.leaves (m, c)).1

section

variable (hR : Stepwise R)
include hR

theorem maintains_of_leaves {x : Action π α} (h : ∀ s, x.leaves s = s) : x.Maintains R := by
  intro m c
  rw [h]
  exact hR.refl m

theorem Maintains.bind {x : Action π α} {f : α → Action π β} (hx : x.Maintains R)
    (hf : ∀ a, (f a).Maintains R) : (x >>= f).Maintains R := by
  intro m c
  have hfirst := hx m c
  unfold leaves at hfirst ⊢
  rw [EStateM.run_bind]
  cases hrun : x.run (m, c) with
  | ok a s =>
    rw [hrun] at hfirst
    exact hR.trans hfirst (hf a s.1 s.2)
  | error e s =>
    rw [hrun] at hfirst
    exact hfirst

theorem maintains_pure (a : α) : (pure a : Action π α).Maintains R :=
  maintains_of_leaves hR fun _ => rfl

theorem maintains_get : (get : Action π (Machine × π)).Maintains R :=
  maintains_of_leaves hR fun _ => rfl

theorem maintains_fail (fault : Fault) : (fail fault : Action π α).Maintains R :=
  maintains_of_leaves hR fun _ => rfl

theorem maintains_lift (result : Except Fault α) : (lift result : Action π α).Maintains R := by
  cases result with
  | ok a => exact maintains_pure hR a
  | error fault => exact maintains_fail hR fault

theorem maintains_push (w : UInt32) : (push w : Action π Unit).Maintains R := by
  intro m c
  by_cases hroom : m.imageEnd + 4 ≤ m.sp ∧ m.sp ≤ m.memory.size
  · have hleaves : (push w : Action π Unit).leaves (m, c) = (m.pushed w, c) := by
      simp only [leaves, push, EStateM.run_bind, EStateM.run_get, hroom, and_self, if_true]
      rfl
    rw [hleaves]
    exact hR.push m w hroom.1 hroom.2
  · have hleaves : (push w : Action π Unit).leaves (m, c) = (m, c) := by
      simp only [leaves, push, EStateM.run_bind, EStateM.run_get, hroom, if_false]
      rfl
    rw [hleaves]
    exact hR.refl m

theorem maintains_pop : (pop : Action π UInt32).Maintains R := by
  intro m c
  by_cases hfits : m.sp + 4 ≤ m.memory.size
  · obtain ⟨w, hw⟩ := Bytes.read32?_isSome hfits
    have hleaves : (pop : Action π UInt32).leaves (m, c) = (m.popped, c) := by
      simp only [leaves, pop, EStateM.run_bind, EStateM.run_get, run_lift, Memory.read32, hw]
      rfl
    rw [hleaves]
    exact hR.pop m hfits
  · have hnone : m.memory.bytes.read32? m.sp = none := dif_neg hfits
    have hleaves : (pop : Action π UInt32).leaves (m, c) = (m, c) := by
      simp only [leaves, pop, EStateM.run_bind, EStateM.run_get, run_lift, Memory.read32, hnone]
    rw [hleaves]
    exact hR.refl m

theorem maintains_jump (address : Nat) : (jump address : Action π Unit).Maintains R :=
  fun m _ => hR.jump m address

theorem maintains_constantOperand : (constantOperand : Action π UInt32).Maintains R :=
  (maintains_get hR).bind hR fun _ => maintains_lift hR _

theorem maintains_registerOperand : (registerOperand : Action π Nat).Maintains R := by
  refine (maintains_get hR).bind hR fun s => (maintains_lift hR _).bind hR fun index => ?_
  split
  · exact maintains_pure hR _
  · exact maintains_fail hR _

theorem maintains_labelOperand : (labelOperand : Action π Nat).Maintains R :=
  (maintains_get hR).bind hR fun _ => (maintains_lift hR _).bind hR fun _ => maintains_pure hR _

theorem maintains_returnAddress : (returnAddress : Action π UInt32).Maintains R :=
  (maintains_get hR).bind hR fun _ => maintains_pure hR _

theorem maintains_input (read : π → UInt32 × π) : (input read : Action π UInt32).Maintains R :=
  fun m _ => hR.refl m

theorem maintains_output (write : π → Option ConsoleError × π) :
    (output write : Action π Unit).Maintains R := by
  refine Maintains.bind hR (fun m _ => hR.refl m) fun failure => ?_
  cases failure with
  | none => exact maintains_pure hR ()
  | some error => exact maintains_of_leaves hR fun _ => rfl

end

end Action

variable [Console π]

/-- Only the effect that ends a program does something else than a part of an instruction. -/
theorem perform_maintains {R : Machine → Machine → Prop} (hR : Stepwise R) {effect : Effect}
    (h : effect ≠ .halt) : (perform effect : Action π Unit).Maintains R := by
  have push (w : UInt32) : (push w : Action π Unit).Maintains R := maintains_push hR w
  have jump (address : Nat) : (jump address : Action π Unit).Maintains R :=
    maintains_jump hR address
  cases effect with
  | halt => exact absurd rfl h
  | pushConstant => exact (maintains_constantOperand hR).bind hR push
  | pushRegister =>
    exact (maintains_registerOperand hR).bind hR fun _ => (maintains_get hR).bind hR fun _ => push _
  | popRegister =>
    refine (maintains_registerOperand hR).bind hR fun index => ?_
    refine (maintains_pop hR).bind hR fun w => ?_
    exact fun m _ => hR.assign m _ (Array.size_setIfInBounds ..)
  | readInt => exact (maintains_input hR _).bind hR push
  | readFloat => exact (maintains_input hR _).bind hR push
  | writeInt => exact (maintains_pop hR).bind hR fun _ => maintains_output hR _
  | writeFloat => exact (maintains_pop hR).bind hR fun _ => maintains_output hR _
  | depart => exact (maintains_returnAddress hR).bind hR push
  | call =>
    refine (maintains_labelOperand hR).bind hR fun target => ?_
    refine (maintains_returnAddress hR).bind hR fun w => ?_
    exact (push w).bind hR fun _ => jump target
  | «return» => exact (maintains_pop hR).bind hR fun _ => jump _
  | intToFloat => exact (maintains_pop hR).bind hR fun _ => push _
  | floatToInt => exact (maintains_pop hR).bind hR fun _ => push _
  | jump => exact (maintains_labelOperand hR).bind hR jump
  | branch kind comparison =>
    refine (maintains_pop hR).bind hR fun right => (maintains_pop hR).bind hR fun left => ?_
    split
    · exact (maintains_labelOperand hR).bind hR jump
    · exact maintains_pure hR ()
  | arithmetic kind operation =>
    refine (maintains_pop hR).bind hR fun right => (maintains_pop hR).bind hR fun left => ?_
    exact (maintains_lift hR _).bind hR push
  | sqrt => exact (maintains_pop hR).bind hR fun _ => push _

/-- What a running program cannot change is kept by each part of an instruction. -/
theorem stepwise_keeps : Stepwise fun m m' => m.Layout → m.Keeps m' where
  refl _ h := .refl h
  trans h₁ h₂ h := (h₁ h).trans (h₂ (h₁ h).layout)
  push m w himage _ h := by
    have hlength := length_words h
    refine pushed_keeps h ?_
    rw [capacity]
    omega
  pop m hfits h := by
    have hlength := length_words h
    cases hwords : m.words with
    | nil =>
      rw [hwords, List.length_nil] at hlength
      omega
    | cons w rest => exact (words_eq_cons h hwords).2.2
  jump _ _ h := .of_eq h rfl rfl rfl rfl rfl
  assign _ _ hsize h := .of_eq h rfl rfl rfl rfl hsize

theorem perform_preserves (effect : Effect) : (perform effect : Action π Unit).Preserves := by
  by_cases h : effect = .halt
  · subst h
    exact fun _ _ hm => .of_eq hm rfl rfl rfl rfl rfl
  · exact perform_maintains stepwise_keeps h

theorem executeNext_preserves : (executeNext : Action π Unit).Preserves := by
  have hadvance (size : Nat) : (modify fun s : Machine × π =>
      ({ s.1 with ap := s.1.ip + 1, ip := s.1.ip + size }, s.2) : Action π Unit).Preserves :=
    fun _ _ hm => .of_eq hm rfl rfl rfl rfl rfl
  refine (maintains_get stepwise_keeps).bind stepwise_keeps fun s => ?_
  refine (maintains_lift stepwise_keeps _).bind stepwise_keeps fun definition => ?_
  exact Maintains.bind stepwise_keeps (hadvance _) fun _ => perform_preserves _

/-! ## Steps -/

theorem step_keeps (c : π) (h : m.Layout) : m.Keeps (m.step c).2.1 := by
  have hkeeps := executeNext_preserves m c h
  unfold leaves at hkeeps
  unfold step
  split
  · exact .refl h
  · split <;> rename_i hrun <;> rw [hrun] at hkeeps
    · exact hkeeps
    · exact hkeeps.trans (.of_eq hkeeps.layout rfl rfl rfl rfl rfl)
    · exact hkeeps
  · exact .refl h

/-- The machine and the console after a number of steps. -/
def after (n : Nat) (m : Machine) (c : π) : Machine × π :=
  (fun s => (s.1.step s.2).2)^[n] (m, c)

theorem after_succ (n : Nat) (m : Machine) (c : π) :
    after (n + 1) m c = ((after n m c).1.step (after n m c).2).2 :=
  Function.iterate_succ_apply' ..

theorem after_succ_start (n : Nat) (m : Machine) (c : π) :
    after (n + 1) m c = after n (m.step c).2.1 (m.step c).2.2 :=
  rfl

theorem after_keeps (n : Nat) (c : π) (h : m.Layout) : m.Keeps (after n m c).1 := by
  induction n with
  | zero => exact .refl h
  | succ n ih =>
    rw [after_succ]
    exact ih.trans (step_keeps _ ih.layout)

/-! ## Loading -/

theorem registry_create (registry : Registry) (memorySize : Nat) :
    (create registry memorySize).registry = registry :=
  rfl

theorem size_create (registry : Registry) (memorySize : Nat) :
    (create registry memorySize).memory.size = memorySize :=
  Array.size_replicate

/-- A machine that has just been started with an image. -/
structure Started (image : Bytes) (header : Header) (m m' : Machine) : Prop where
  registry_eq : m'.registry = m.registry
  size_eq : m'.memory.size = m.memory.size
  imageEnd_eq : m'.imageEnd = image.size
  image_eq : m'.image = image
  registers_eq : m'.registers = Array.replicate header.registerCount.toNat 0
  status_eq : m'.status = .running
  ip_eq : m'.ip = Header.size
  words_eq : m'.words = []
  layout : m'.Layout

theorem load_eq_ok_iff {image : Bytes} :
    (m.load image).1 = .ok () ↔
      (∃ header, Header.check image = .ok header) ∧ image.size ≤ m.memory.size := by
  unfold load Memory.load
  cases Header.check image with
  | error e => simp
  | ok header => by_cases hsize : image.size ≤ m.memory.size <;> simp [hsize]

theorem load_started {image : Bytes} {header : Header} (hcheck : Header.check image = .ok header)
    (hsize : image.size ≤ m.memory.size) : Started image header m (m.load image).2 := by
  have hzeros : image.size + (m.memory.size - image.size) = m.memory.size := by omega
  simp only [load, hcheck, Memory.load, hsize, if_true]
  refine ⟨rfl, ?_, rfl, ?_, rfl, rfl, rfl, ?_, ?_, ?_, ?_⟩
  · simpa [Memory.size] using hzeros
  · simp [Machine.image]
  · simp [words, stack]
  all_goals simp [Memory.size]

end StackMachine.Machine
