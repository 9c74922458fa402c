import StackMachine.Proofs.Machine.Fetch

/-!
# What effects take from the stack and leave in memory

An effect pops up to two words, and after that pushes up to one. It writes into the words that it
has popped or below them, so that memory behind them is as it was. A fault strikes before anything
is written: an effect that ends in a fault has popped some of its words, it may have read from the
console, and it has done nothing else.

* `Effect.pops`, `Effect.pushes`, `Effect.heard`: what an effect takes from the stack, puts there,
  and reads from the console.
* `Action.Pops`: actions that do nothing but pop; `Action.Answers`: actions that pop before they
  write, and that cannot fail any more once they have written.
* `perform_answers`: every effect is such an action.
* `step_of_fetch`, `step_of_fetch_error`: a step is a fetch, and then an effect.
-/

namespace StackMachine

variable {π : Type}

/-! ## Effects -/

namespace Effect

/-- The number of words that an effect pops. -/
def pops : Effect → Nat
  | .halt | .pushConstant | .pushRegister | .readInt | .readFloat | .depart | .call | .jump => 0
  | .popRegister | .writeInt | .writeFloat | .return | .intToFloat | .floatToInt | .sqrt => 1
  | .branch _ _ | .arithmetic _ _ => 2

/-- The number of words that an effect pushes. -/
def pushes : Effect → Nat
  | .pushConstant | .pushRegister | .readInt | .readFloat | .depart | .call => 1
  | .intToFloat | .floatToInt | .arithmetic _ _ | .sqrt => 1
  | .halt | .popRegister | .writeInt | .writeFloat | .return | .jump | .branch _ _ => 0

/-- The console after an effect has read from it what it reads. -/
def heard [Console π] : Effect → π → π
  | .readInt, c => (Console.readInt c).2
  | .readFloat, c => (Console.readFloat c).2
  | _, c => c

/-- The faults that an effect can end in. -/
def CanFault (effect : Effect) (fault : Fault) : Prop :=
  fault = .accessViolation ∨ fault = .divisionByZero ∧
    (effect = .arithmetic .int .div ∨ effect = .arithmetic .int .rem)

theorem CanFault.ne_illegalInstruction {effect : Effect} {fault : Fault}
    (h : effect.CanFault fault) : fault ≠ .illegalInstruction := by
  rintro rfl
  rcases h with h | ⟨h, -⟩ <;> cases h

theorem CanFault.of_divisionByZero {effect : Effect} (h : effect.CanFault .divisionByZero) :
    effect = .arithmetic .int .div ∨ effect = .arithmetic .int .rem := by
  rcases h with h | ⟨-, h⟩
  · cases h
  · exact h

/-- A console that is read keeps what reading it keeps. -/
theorem output_heard [Console π] {ω : Type} {output : π → ω}
    (hint : ∀ c, output (Console.readInt c).2 = output c)
    (hfloat : ∀ c, output (Console.readFloat c).2 = output c) (effect : Effect) (c : π) :
    output (effect.heard c) = output c := by
  cases effect <;> first | exact hint c | exact hfloat c | rfl

theorem pops_le (effect : Effect) : effect.pops ≤ 2 := by
  cases effect <;> simp only [pops] <;> omega

end Effect

namespace Memory

variable {memory : Memory} {address : Nat} {fault : Fault}

theorem eq_of_read8_eq_error (h : memory.read8 address = .error fault) :
    fault = .accessViolation := by
  unfold read8 at h
  split at h <;> cases h
  rfl

theorem eq_of_read16_eq_error (h : memory.read16 address = .error fault) :
    fault = .accessViolation := by
  unfold read16 at h
  split at h <;> cases h
  rfl

theorem eq_of_read32_eq_error (h : memory.read32 address = .error fault) :
    fault = .accessViolation := by
  unfold read32 at h
  split at h <;> cases h
  rfl

end Memory

namespace Machine

variable {m m₁ m₂ : Machine} {c : π}

/-! ## Machines before and after an effect -/

/-- The machine without some of the words on top of the stack. -/
def dropped (m : Machine) (count : Nat) : Machine :=
  { m with sp := m.sp + 4 * count }

theorem dropped_dropped (m : Machine) (n k : Nat) :
    (m.dropped n).dropped k = m.dropped (k + n) := by
  simp only [dropped, Nat.mul_add, Nat.add_assoc, Nat.add_comm (4 * k)]

/-- That some words were popped and some pushed, and memory behind the popped words is as it was. -/
structure Framed (pops pushes : Nat) (m m' : Machine) : Prop where
  sp_eq : m'.sp + 4 * pushes = m.sp + 4 * pops
  byte_eq : ∀ i, m.sp + 4 * pops ≤ i → m'.memory.bytes[i]? = m.memory.bytes[i]?

theorem framed_of_eq {m' : Machine} (hsp : m'.sp = m.sp) (hmemory : m'.memory = m.memory) :
    Framed 0 0 m m' :=
  ⟨by rw [hsp], fun _ _ => by rw [hmemory]⟩

theorem framed_dropped (m : Machine) (count : Nat) : Framed count 0 m (m.dropped count) :=
  ⟨rfl, fun _ _ => rfl⟩

theorem framed_pushed {w : UInt32} (h : 4 ≤ m.sp) : Framed 0 1 m (m.pushed w) := by
  refine ⟨by rw [sp_pushed]; omega, fun i hi => ?_⟩
  rw [bytes_pushed, Bytes.getElem?_store32_of_ne w (by omega)]

theorem Framed.trans {pops pushes pops' pushes' : Nat} (h₁ : Framed pops pushes m m₁)
    (h₂ : Framed pops' pushes' m₁ m₂) : Framed (pops' + pops) (pushes' + pushes) m m₂ := by
  have hsp₁ := h₁.sp_eq
  have hsp₂ := h₂.sp_eq
  refine ⟨by omega, fun i hi => ?_⟩
  rw [h₂.byte_eq i (by omega), h₁.byte_eq i (by omega)]

/-! ## Actions that pop before they write -/

/-- What an action comes to that only pops: it has popped a number of words, or has failed after
some of them. -/
inductive Popped {α : Type} (F : Fault → Prop) (count : Nat) (m : Machine) (c : π) :
    EStateM.Result Trap (Machine × π) α → Prop
  | ok (a : α) : Popped F count m c (.ok a (m.dropped count, c))
  | fault {fault : Fault} {n : Nat} : F fault → n ≤ count →
      Popped F count m c (.error (.fault fault) (m.dropped n, c))

/-- What an action comes to that pops and then pushes. A console that does not take output has not
disturbed it, and a fault has struck before anything was written. -/
inductive Answered {α : Type} (F : Fault → Prop) (pops pushes : Nat) (heard : π → π) (m : Machine)
    (c : π) : EStateM.Result Trap (Machine × π) α → Prop
  | ok {a : α} {m' : Machine} {c' : π} : Framed pops pushes m m' →
      Answered F pops pushes heard m c (.ok a (m', c'))
  | refused {error : ConsoleError} {m' : Machine} {c' : π} : Framed pops pushes m m' →
      Answered F pops pushes heard m c (.error (.console error) (m', c'))
  | fault {fault : Fault} {n : Nat} : F fault → n ≤ pops →
      Answered F pops pushes heard m c (.error (.fault fault) (m.dropped n, heard c))

namespace Action

variable {α β : Type} {F : Fault → Prop} {pops pushes n k : Nat} {heard : π → π}
  {x : Action π α} {f : α → Action π β}

/-- Whether an action does nothing but pop a number of words. -/
def Pops (F : Fault → Prop) (count : Nat) (x : Action π α) : Prop :=
  ∀ (m : Machine) (c : π), Popped F count m c (x.run (m, c))

/-- Whether an action pops and then pushes a number of words. -/
def Answers (F : Fault → Prop) (pops pushes : Nat) (heard : π → π) (x : Action π α) : Prop :=
  ∀ (m : Machine) (c : π), Answered F pops pushes heard m c (x.run (m, c))

/-- Whether an action does not fail, and leaves the stack and memory alone. -/
def Calm (x : Action π α) : Prop :=
  ∀ (m : Machine) (c : π), ∃ a m' c', x.run (m, c) = .ok a (m', c') ∧ m'.sp = m.sp ∧
    m'.memory = m.memory

theorem Pops.bind (hx : x.Pops F n) (hf : ∀ a, (f a).Pops F k) : (x >>= f).Pops F (k + n) := by
  intro m c
  have hfirst := hx m c
  rw [EStateM.run_bind]
  generalize x.run (m, c) = result at hfirst ⊢
  cases hfirst with
  | ok a =>
    have hrest := hf a (m.dropped n) c
    dsimp only
    generalize (f a).run (m.dropped n, c) = result at hrest ⊢
    cases hrest with
    | ok b =>
      rw [dropped_dropped]
      exact .ok b
    | fault hfault hle =>
      rw [dropped_dropped]
      exact .fault hfault (by omega)
  | fault hfault hle => exact .fault hfault (by omega)

/-- Words that are popped first are popped in addition. -/
theorem Pops.bind_answers (hx : x.Pops F n) (hf : ∀ a, (f a).Answers F pops pushes id) :
    (x >>= f).Answers F (pops + n) pushes id := by
  intro m c
  have hfirst := hx m c
  rw [EStateM.run_bind]
  generalize x.run (m, c) = result at hfirst ⊢
  cases hfirst with
  | ok a =>
    have hrest := hf a (m.dropped n) c
    have hframed {m' : Machine} (h : Framed pops pushes (m.dropped n) m') :
        Framed (pops + n) pushes m m' :=
      (framed_dropped m n).trans h
    dsimp only
    generalize (f a).run (m.dropped n, c) = result at hrest ⊢
    cases hrest with
    | ok h => exact .ok (hframed h)
    | refused h => exact .refused (hframed h)
    | fault hfault hle =>
      rw [dropped_dropped]
      exact .fault hfault (by omega)
  | fault hfault hle => exact .fault hfault (by omega)

/-- What cannot fail can stand behind what is written. -/
theorem Answers.bind_calm (hx : x.Answers F pops pushes heard) (hf : ∀ a, (f a).Calm) :
    (x >>= f).Answers F pops pushes heard := by
  intro m c
  have hfirst := hx m c
  rw [EStateM.run_bind]
  generalize x.run (m, c) = result at hfirst ⊢
  cases hfirst with
  | @ok a m₁ c₁ h =>
    obtain ⟨b, m₂, c₂, hrun, hsp, hmemory⟩ := hf a m₁ c₁
    dsimp only
    rw [hrun]
    have hframed := h.trans (framed_of_eq hsp hmemory)
    rw [Nat.zero_add, Nat.zero_add] at hframed
    exact .ok hframed
  | refused h => exact .refused h
  | fault hfault hle => exact .fault hfault hle

theorem Calm.answers (hx : x.Calm) : x.Answers F 0 0 id := by
  intro m c
  obtain ⟨a, m', c', hrun, hsp, hmemory⟩ := hx m c
  rw [hrun]
  exact .ok (framed_of_eq hsp hmemory)

/-! ## Parts of instructions -/

theorem calm_jump (address : Nat) : (jump address : Action π Unit).Calm :=
  fun _ _ => ⟨_, _, _, rfl, rfl, rfl⟩

theorem calm_pure (a : α) : (pure a : Action π α).Calm :=
  fun _ _ => ⟨_, _, _, rfl, rfl, rfl⟩

theorem pops_pure (a : α) : (pure a : Action π α).Pops F 0 :=
  fun _ _ => .ok a

theorem pops_get : (get : Action π (Machine × π)).Pops F 0 :=
  fun _ _ => .ok _

theorem pops_returnAddress : (returnAddress : Action π UInt32).Pops F 0 :=
  fun _ _ => .ok _

theorem pops_fail {fault : Fault} (h : F fault) : (fail fault : Action π α).Pops F 0 :=
  fun _ _ => .fault (n := 0) h (Nat.le_refl 0)

theorem pops_lift {result : Except Fault α} (h : ∀ fault, result = .error fault → F fault) :
    (lift result : Action π α).Pops F 0 := by
  cases result with
  | ok a => exact pops_pure a
  | error fault => exact pops_fail (h fault rfl)

theorem run_pop (m : Machine) (c : π) :
    (pop : Action π UInt32).run (m, c) =
      match m.memory.read32 m.sp with
      | .ok w => .ok w (m.popped, c)
      | .error fault => .error (.fault fault) (m, c) := by
  simp only [pop, EStateM.run_bind, EStateM.run_get, run_lift]
  cases m.memory.read32 m.sp <;> rfl

theorem answers_output (write : π → Option ConsoleError × π) :
    (output write : Action π Unit).Answers F 0 0 id := by
  intro m c
  unfold output
  rw [EStateM.run_bind, EStateM.run_modifyGet]
  dsimp only
  cases (write c).1 with
  | none => exact .ok (framed_of_eq rfl rfl)
  | some error => exact .refused (framed_of_eq rfl rfl)

section

variable (hF : F .accessViolation)
include hF

theorem pops_constantOperand : (constantOperand : Action π UInt32).Pops F 0 := by
  refine pops_get.bind fun s => pops_lift fun fault hfault => ?_
  rwa [Memory.eq_of_read32_eq_error hfault]

theorem pops_registerOperand : (registerOperand : Action π Nat).Pops F 0 := by
  refine pops_get.bind fun s => Pops.bind (pops_lift fun fault hfault => ?_) fun index => ?_
  · rwa [Memory.eq_of_read8_eq_error hfault]
  · split
    · exact pops_pure _
    · exact pops_fail hF

theorem pops_labelOperand : (labelOperand : Action π Nat).Pops F 0 := by
  refine pops_get.bind fun s => Pops.bind (pops_lift fun fault hfault => ?_) fun _ => pops_pure _
  rwa [Memory.eq_of_read16_eq_error hfault]

theorem pops_pop : (pop : Action π UInt32).Pops F 1 := by
  intro m c
  rw [run_pop]
  cases htop : m.memory.read32 m.sp with
  | error fault =>
    rw [Memory.eq_of_read32_eq_error htop]
    exact .fault (n := 0) hF (by omega)
  | ok w => exact .ok w

theorem answers_push (w : UInt32) : (push w : Action π Unit).Answers F 0 1 id := by
  intro m c
  simp only [push, EStateM.run_bind, EStateM.run_get]
  by_cases hroom : m.imageEnd + 4 ≤ m.sp ∧ m.sp ≤ m.memory.size
  · rw [if_pos hroom]
    exact .ok (framed_pushed (w := w) (by omega))
  · rw [if_neg hroom]
    exact .fault (n := 0) hF (Nat.le_refl 0)

theorem answers_input_push (read : π → UInt32 × π) :
    (input read >>= push : Action π Unit).Answers F 0 1 fun c => (read c).2 := by
  intro m c
  have hpush := answers_push hF (read c).1 m (read c).2
  simp only [EStateM.run_bind, input, EStateM.run_modifyGet]
  generalize (push (read c).1 : Action π Unit).run (m, (read c).2) = result at hpush ⊢
  cases hpush with
  | ok h => exact .ok h
  | refused h => exact .refused h
  | fault hfault hle => exact .fault hfault hle

end

end Action

/-! ## Effects -/

theorem computeWords_eq_error {kind : NumberKind} {operation : Arithmetic} {left right : UInt32}
    {fault : Fault} (h : computeWords kind operation left right = .error fault) :
    fault = .divisionByZero ∧ right = 0 ∧ kind = .int ∧ (operation = .div ∨ operation = .rem) := by
  cases kind with
  | float => cases h
  | int =>
    by_cases hright : right = 0
    · cases operation <;> simp_all [computeWords, computeInt]
    · cases operation <;> simp_all [computeWords, computeInt]

open StackMachine.Machine.Action

variable [Console π]

/-- Every effect pops before it writes, and what it does once it has written cannot fail. -/
theorem perform_answers (effect : Effect) :
    (perform effect : Action π Unit).Answers effect.CanFault effect.pops effect.pushes
      effect.heard := by
  have hF : effect.CanFault .accessViolation := .inl rfl
  have push (w : UInt32) : (push w : Action π Unit).Answers effect.CanFault 0 1 id :=
    answers_push hF w
  have jump (address : Nat) : (jump address : Action π Unit).Answers effect.CanFault 0 0 id :=
    (calm_jump address).answers
  have pop : (pop : Action π UInt32).Pops effect.CanFault 1 := pops_pop hF
  cases effect with
  | halt => exact Calm.answers fun _ _ => ⟨_, _, _, rfl, rfl, rfl⟩
  | pushConstant => exact (pops_constantOperand hF).bind_answers push
  | pushRegister =>
    exact (pops_registerOperand hF).bind_answers fun _ => pops_get.bind_answers fun _ => push _
  | popRegister =>
    refine ((pops_registerOperand hF).bind_answers fun index => ?_)
    refine pop.bind_answers fun w => Calm.answers fun _ _ => ⟨_, _, _, rfl, rfl, rfl⟩
  | readInt => exact answers_input_push hF _
  | readFloat => exact answers_input_push hF _
  | writeInt => exact pop.bind_answers fun w => answers_output _
  | writeFloat => exact pop.bind_answers fun w => answers_output _
  | depart => exact pops_returnAddress.bind_answers push
  | call =>
    refine (pops_labelOperand hF).bind_answers fun target => ?_
    refine pops_returnAddress.bind_answers fun w => ?_
    exact (push w).bind_calm fun _ => calm_jump target
  | «return» => exact pop.bind_answers fun w => jump _
  | intToFloat => exact pop.bind_answers fun w => push _
  | floatToInt => exact pop.bind_answers fun w => push _
  | jump => exact (pops_labelOperand hF).bind_answers jump
  | branch kind comparison =>
    refine pop.bind_answers fun right => pop.bind_answers fun left => ?_
    split
    · exact (pops_labelOperand hF).bind_answers jump
    · exact (calm_pure ()).answers
  | arithmetic kind operation =>
    refine pop.bind_answers fun right => pop.bind_answers fun left => ?_
    refine Pops.bind_answers (pops_lift fun fault hfault => ?_) push
    obtain ⟨rfl, -, rfl, hoperation⟩ := computeWords_eq_error hfault
    exact .inr ⟨rfl, by rcases hoperation with rfl | rfl <;> simp⟩
  | sqrt => exact pop.bind_answers fun w => push _

/-! ## Steps -/

/-- What a step tells and leaves, once its instruction has come to a result. -/
def settle (result : EStateM.Result Trap (Machine × π) Unit) :
    Except RunError Status × Machine × π :=
  match result with
  | .ok () (m, c) => (.ok m.status, m, c)
  | .error (.fault fault) (m, c) => (.ok (.faulted fault), { m with status := .faulted fault }, c)
  | .error (.console error) (m, c) => (.error (.console error), m, c)

theorem step_of_running (h : m.status = .running) (c : π) :
    m.step c = settle (executeNext.run (m, c)) := by
  cases hrun : executeNext.run (m, c) with
  | ok _ s => simp only [step, settle, h, hrun]
  | error trap s => cases trap <;> simp only [step, settle, h, hrun]

theorem step_of_fetch {d : Definition} (h : m.status = .running) (hfetch : m.fetch = .ok d)
    (c : π) : m.step c = settle ((perform d.effect).run (m.advanced d.size, c)) := by
  rw [step_of_running h, run_executeNext_fetch, hfetch]

theorem step_of_fetch_error {fault : Fault} (h : m.status = .running)
    (hfetch : m.fetch = .error fault) (c : π) :
    m.step c = (.ok (.faulted fault), { m with status := .faulted fault }, c) := by
  rw [step_of_running h, run_executeNext_fetch, hfetch]
  rfl

end Machine

end StackMachine
