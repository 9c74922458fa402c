import Mathlib.Order.Bounds.Basic
import StackMachine.Instruction.Standard
import StackMachine.Proofs.Machine.Fetch

/-!
# A run is a number of steps

A run ends after the least number of steps at which the machine has stopped, a step has failed, or
the limit is reached, and it leaves what these steps leave.

* `executeNext_status`: an instruction goes on, or ends the program; a failure goes on.
* `Ends`: after how many steps a run can end.
* `runFor_eq`: a run ends after the least such number of steps.
* `runFor_add`: the steps of a run can be taken in two runs.
* `run?_iterates`: both, for runs with a limit and without one.
-/

namespace StackMachine.Machine

variable {π τ : Type} [Console π] {m : Machine} {c : π}

/-! ## The status -/

theorem stepwise_status : Stepwise fun m m' => m'.status = m.status where
  refl _ := rfl
  trans h₁ h₂ := h₂.trans h₁
  push _ _ _ _ := rfl
  pop _ _ := rfl
  jump _ _ := rfl
  assign _ _ _ := rfl

theorem executeNext_status (m : Machine) (c : π) :
    match (executeNext : Action π Unit).run (m, c) with
    | .ok () (m', _) => m'.status = m.status ∨ m'.status = .halted
    | .error _ (m', _) => m'.status = m.status := by
  rw [run_executeNext_fetch]
  cases m.fetch with
  | error fault => rfl
  | ok definition =>
    dsimp only
    by_cases h : definition.effect = .halt
    · rw [h]
      exact .inr rfl
    · have hstatus := perform_maintains stepwise_status h (m.advanced definition.size) c
      unfold Action.leaves at hstatus
      cases hrun : (perform definition.effect).run (m.advanced definition.size, c) with
      | ok _ s =>
        rw [hrun] at hstatus
        exact .inl hstatus
      | error _ s =>
        rw [hrun] at hstatus
        exact hstatus

/-- A step that fails does so at the console, and the machine goes on running. -/
theorem step_eq_error {e : RunError} (hrunning : m.status = .running)
    (h : (m.step c).1 = .error e) :
    (∃ e', e = .console e') ∧ (m.step c).2.1.status = .running := by
  have hstatus := executeNext_status m c
  unfold step at h ⊢
  simp only [hrunning] at h ⊢ hstatus
  cases hrun : (executeNext : Action π Unit).run (m, c) with
  | ok _ s =>
    rw [hrun] at h
    cases h
  | error trap s =>
    rw [hrun] at h hstatus
    cases trap with
    | fault fault => cases h
    | console error =>
      cases h
      exact ⟨⟨error, rfl⟩, hstatus⟩

theorem step_of_stopped (h : m.status ≠ .running) (c : π) : (m.step c).2 = (m, c) := by
  unfold step
  cases hstatus : m.status with
  | running => exact absurd hstatus h
  | notReady | halted | faulted _ => rfl

theorem running_of_console_error {e : ConsoleError} (h : (m.step c).1 = .error (.console e)) :
    m.status = .running := by
  cases hstatus : m.status with
  | running => rfl
  | notReady | halted | faulted _ =>
    simp only [step, hstatus] at h
    cases h

theorem step_ready (hready : m.status ≠ .notReady) (c : π) :
    (m.step c).2.1.status ≠ .notReady := by
  have hstatus := executeNext_status m c
  unfold step
  cases hm : m.status with
  | notReady => exact absurd hm hready
  | halted => exact hready
  | faulted fault => exact hready
  | running =>
    rw [hm] at hstatus
    cases hrun : (executeNext : Action π Unit).run (m, c) with
    | ok _ s =>
      rw [hrun] at hstatus
      rcases hstatus with hstatus | hstatus <;> simp [hstatus]
    | error trap s =>
      rw [hrun] at hstatus
      cases trap with
      | fault fault => simp
      | console error => simp [hstatus]

/-! ## The steps of a run -/

/-- The failure of the last of a number of steps, if it has failed. -/
def failure? (m : Machine) (c : π) : (steps : Nat) → Option ConsoleError
  | 0 => none
  | steps + 1 =>
    match ((after steps m c).1.step (after steps m c).2).1 with
    | .error (.console e) => some e
    | _ => none

/-- Whether a run with a limit, or without one, can end after a number of steps: the machine has
stopped, or the last step has failed, or the limit is reached. -/
def Ends (limit : Option Nat) (m : Machine) (c : π) (steps : Nat) : Prop :=
  (after steps m c).1.status ≠ .running ∨ (∃ e, failure? m c steps = some e) ∨ limit = some steps

/-- What a tracer has told before each of a number of steps. -/
def traced (tracer : Tracer τ) (m : Machine) (c : π) (trace : τ) (steps : Nat) : τ :=
  (List.range steps).foldl (fun trace k => tracer.beforeStep (after k m c).1 trace) trace

/-- How a run ends that ends after a number of steps. -/
def endingAfter (m : Machine) (c : π) (steps : Nat) : Ending :=
  if (after steps m c).1.status = .running then
    match failure? m c steps with
    | some e => .failed (.console e)
    | none => .exhausted
  else
    .halted (after steps m c).1.halt

/-- What a run leaves that ends after a number of steps. -/
def leftAfter (tracer : Tracer τ) (m : Machine) (c : π) (trace : τ) (steps : Nat) :
    RunState π τ where
  machine := (after steps m c).1
  console := (after steps m c).2
  trace :=
    if (after steps m c).1.status = .running then traced tracer m c trace steps
    else tracer.atHalt (after steps m c).1.halt (traced tracer m c trace steps)

theorem traced_succ_start (tracer : Tracer τ) (m : Machine) (c : π) (trace : τ) (steps : Nat) :
    traced tracer m c trace (steps + 1) =
      traced tracer (m.step c).2.1 (m.step c).2.2 (tracer.beforeStep m trace) steps := by
  rw [traced, List.range_succ_eq_map, List.foldl_cons, List.foldl_map]
  rfl

theorem failure?_succ_eq_some_iff {e : ConsoleError} {steps : Nat} :
    failure? m c (steps + 1) = some e ↔
      ((after steps m c).1.step (after steps m c).2).1 = .error (.console e) := by
  rw [failure?]
  cases ((after steps m c).1.step (after steps m c).2).1 with
  | ok status => simp
  | error error => cases error <;> simp

theorem failure?_succ_start {status : Status} (hstep : (m.step c).1 = .ok status) (steps : Nat) :
    failure? m c (steps + 1) = failure? (m.step c).2.1 (m.step c).2.2 steps := by
  apply Option.ext
  intro e
  rw [failure?_succ_eq_some_iff]
  cases steps with
  | zero =>
    show (m.step c).1 = .error (.console e) ↔ none = some e
    rw [hstep]
    exact ⟨nofun, nofun⟩
  | succ steps => rw [failure?_succ_eq_some_iff, after_succ_start]

section

variable {status : Status} (hstep : (m.step c).1 = .ok status)
include hstep

theorem ends_succ_iff (n steps : Nat) :
    Ends (some (n + 1)) m c (steps + 1) ↔
      Ends (some n) (m.step c).2.1 (m.step c).2.2 steps := by
  unfold Ends
  rw [after_succ_start, failure?_succ_start hstep, Option.some.injEq, Option.some.injEq,
    Nat.add_right_cancel_iff]

theorem endingAfter_succ_start (steps : Nat) :
    endingAfter m c (steps + 1) = endingAfter (m.step c).2.1 (m.step c).2.2 steps := by
  unfold endingAfter
  rw [after_succ_start, failure?_succ_start hstep]

omit hstep in
theorem leftAfter_succ_start (tracer : Tracer τ) (trace : τ) (steps : Nat) :
    leftAfter tracer m c trace (steps + 1) =
      leftAfter tracer (m.step c).2.1 (m.step c).2.2 (tracer.beforeStep m trace) steps := by
  unfold leftAfter
  rw [after_succ_start, traced_succ_start]

end

/-- A number of steps is the least after which a run can end, if the run goes on until then. -/
theorem isLeast_ends_of_goes {limit : Option Nat} {k : Nat} (hends : Ends limit m c k)
    (hgoes : ∀ j < k, (after j m c).1.status = .running ∧ failure? m c j = none)
    (hlimit : ∀ j < k, limit ≠ some j) : IsLeast {k | Ends limit m c k} k := by
  refine ⟨hends, fun j hj => Nat.le_of_not_lt fun hlt => ?_⟩
  obtain ⟨hrunning, hnone⟩ := hgoes j hlt
  rcases hj with hstopped | ⟨e, he⟩ | hreached
  · exact hstopped hrunning
  · rw [hnone] at he
    cases he
  · exact hlimit j hlt hreached

theorem failure?_status {e : ConsoleError} {steps : Nat} (h : failure? m c steps = some e) :
    (after steps m c).1.status = .running := by
  cases steps with
  | zero => cases h
  | succ steps =>
    have hstep := failure?_succ_eq_some_iff.1 h
    rw [after_succ]
    exact (step_eq_error (running_of_console_error hstep) hstep).2

theorem ends_some_iff {n steps : Nat} :
    Ends (some n) m c steps ↔ Ends none m c steps ∨ steps = n := by
  simp only [Ends, Option.some.injEq, reduceCtorEq, or_false, or_assoc, eq_comm]

theorem isLeast_ends_zero {limit : Option Nat} (h : Ends limit m c 0) :
    IsLeast {k | Ends limit m c k} 0 :=
  ⟨h, fun _ _ => Nat.zero_le _⟩

theorem not_ends_zero {n : Nat} (hrunning : m.status = .running) :
    ¬ Ends (some (n + 1)) m c 0 := by
  rintro (hstopped | ⟨e, hfailure⟩ | hlimit)
  · exact hstopped hrunning
  · cases hfailure
  · cases hlimit

/-! ## Runs -/

section

variable (tracer : Tracer τ) (trace : τ)

theorem runFor_of_stopped (n : Nat) (hstopped : m.status ≠ .running)
    (hready : m.status ≠ .notReady) :
    runFor tracer n m c trace = (.halted m.halt, ⟨m, c, tracer.atHalt m.halt trace⟩) := by
  unfold runFor
  rw [if_neg hstopped, if_neg hready]

theorem runFor_zero (hrunning : m.status = .running) :
    runFor tracer 0 m c trace = (.exhausted, ⟨m, c, trace⟩) := by
  unfold runFor
  rw [if_pos hrunning]

theorem runFor_succ_of_ok {status : Status} (n : Nat) (hrunning : m.status = .running)
    (hstep : (m.step c).1 = .ok status) :
    runFor tracer (n + 1) m c trace =
      runFor tracer n (m.step c).2.1 (m.step c).2.2 (tracer.beforeStep m trace) := by
  rw [runFor, if_pos hrunning]
  rcases hresult : m.step c with ⟨result, m', c'⟩
  rw [hresult] at hstep
  cases hstep
  rfl

theorem runFor_succ_of_error {e : RunError} (n : Nat) (hrunning : m.status = .running)
    (hstep : (m.step c).1 = .error e) :
    runFor tracer (n + 1) m c trace =
      (.failed e, ⟨(m.step c).2.1, (m.step c).2.2, tracer.beforeStep m trace⟩) := by
  rw [runFor, if_pos hrunning]
  rcases hresult : m.step c with ⟨result, m', c'⟩
  rw [hresult] at hstep
  cases hstep
  rfl

/-- A machine that has stopped, or has no step left to take, takes none. -/
theorem runFor_eq_zero {n : Nat} (hready : m.status ≠ .notReady)
    (h : m.status = .running → n = 0) :
    runFor tracer n m c trace = (endingAfter m c 0, leftAfter tracer m c trace 0) := by
  by_cases hrunning : m.status = .running
  · obtain rfl := h hrunning
    rw [runFor_zero tracer trace hrunning]
    simp [endingAfter, leftAfter, after, failure?, traced, hrunning]
  · rw [runFor_of_stopped tracer trace n hrunning hready]
    simp [endingAfter, leftAfter, after, traced, hrunning]

/-- A run ends after the least number of steps after which it can end. -/
theorem runFor_eq (hready : m.status ≠ .notReady) (n : Nat) (c : π) :
    ∃ k, IsLeast {k | Ends (some n) m c k} k ∧
      runFor tracer n m c trace = (endingAfter m c k, leftAfter tracer m c trace k) := by
  -- A step that does not fail leaves a run with one step less to take.
  induction n generalizing m c trace with
  | zero =>
    exact ⟨0, isLeast_ends_zero (.inr (.inr rfl)), runFor_eq_zero tracer trace hready fun _ => rfl⟩
  | succ n ih =>
    by_cases hrunning : m.status = .running
    · cases hstep : (m.step c).1 with
      | ok status =>
        obtain ⟨k, ⟨hends, hleast⟩, hrun⟩ :=
          ih (tracer.beforeStep m trace) (step_ready hready c) (m.step c).2.2
        refine ⟨k + 1, ⟨(ends_succ_iff hstep n k).2 hends, fun j hj => ?_⟩, ?_⟩
        · cases j with
          | zero => exact absurd hj (not_ends_zero hrunning)
          | succ j => exact Nat.succ_le_succ (hleast ((ends_succ_iff hstep n j).1 hj))
        · rw [runFor_succ_of_ok tracer trace n hrunning hstep, hrun,
            endingAfter_succ_start hstep, leftAfter_succ_start]
      | error e =>
        obtain ⟨⟨e, rfl⟩, hgoes⟩ := step_eq_error hrunning hstep
        have hfailure : failure? m c 1 = some e := failure?_succ_eq_some_iff.2 hstep
        refine ⟨1, ⟨.inr (.inl ⟨e, hfailure⟩), fun j hj => ?_⟩, ?_⟩
        · cases j with
          | zero => exact absurd hj (not_ends_zero hrunning)
          | succ j => exact Nat.succ_le_succ (Nat.zero_le j)
        · have hstatus : (after 1 m c).1.status = .running := hgoes
          rw [runFor_succ_of_error tracer trace n hrunning hstep, endingAfter, if_pos hstatus,
            hfailure, leftAfter, if_pos hstatus]
          rfl
    · refine ⟨0, isLeast_ends_zero (.inl hrunning), runFor_eq_zero tracer trace hready fun h => ?_⟩
      exact absurd h hrunning

/-- A run leaves a machine that some of its steps leave, and tells no other halt, also when the
machine is not ready. -/
theorem runFor_eq_after (n : Nat) (m : Machine) (c : π) :
    ∃ k ≤ n, (runFor tracer n m c trace).2.machine = (after k m c).1 ∧
      ∀ halt, (runFor tracer n m c trace).1 = .halted halt → halt = (after k m c).1.halt := by
  by_cases hready : m.status = .notReady
  · unfold runFor
    simp only [hready, reduceCtorEq, if_false, if_true]
    exact ⟨0, Nat.zero_le n, rfl, nofun⟩
  · obtain ⟨k, hk, hrun⟩ := runFor_eq tracer trace hready n c
    rw [hrun]
    refine ⟨k, hk.2 (.inr (.inr rfl)), rfl, fun halt hhalt => ?_⟩
    unfold endingAfter at hhalt
    split at hhalt
    · split at hhalt <;> cases hhalt
    · cases hhalt
      rfl

/-- The steps of a run can be taken in two runs, if the first one reaches its limit. -/
theorem runFor_add (n k : Nat) (m : Machine) (c : π) :
    runFor tracer (n + k) m c trace =
      match runFor tracer n m c trace with
      | (.exhausted, s) => runFor tracer k s.machine s.console s.trace
      | result => result := by
  induction n generalizing m c trace with
  | zero =>
    rw [Nat.zero_add]
    by_cases hrunning : m.status = .running
    · rw [runFor_zero tracer trace hrunning]
    · unfold runFor
      simp only [if_neg hrunning]
      split <;> rfl
  | succ n ih =>
    rw [Nat.add_right_comm]
    by_cases hrunning : m.status = .running
    · cases hstep : (m.step c).1 with
      | ok status =>
        rw [runFor_succ_of_ok tracer trace _ hrunning hstep,
          runFor_succ_of_ok tracer trace _ hrunning hstep, ih]
      | error e =>
        rw [runFor_succ_of_error tracer trace _ hrunning hstep,
          runFor_succ_of_error tracer trace _ hrunning hstep]
    · unfold runFor
      simp only [if_neg hrunning]
      split <;> rfl

end

/-! ## Runs with a limit and without one -/

theorem isLeast_ends_some {n k : Nat} (h : IsLeast {k | Ends none m c k} k) (hk : k ≤ n) :
    IsLeast {k | Ends (some n) m c k} k := by
  refine ⟨ends_some_iff.2 (.inl h.1), fun j hj => ?_⟩
  rcases ends_some_iff.1 hj with hends | rfl
  · exact h.2 hends
  · exact hk

theorem endingAfter_eq_exhausted_iff {k : Nat} :
    endingAfter m c k = .exhausted ↔ ¬ Ends none m c k := by
  unfold endingAfter Ends
  by_cases hrunning : (after k m c).1.status = .running
  · cases failure? m c k <;> simp [hrunning]
  · simp [hrunning]

theorem run?_eq {limit : Option Nat} {budget k : Nat} (hready : m.status ≠ .notReady)
    (tracer : Tracer τ) (trace : τ) (hk : IsLeast {k | Ends limit m c k} k)
    (hbudget : limit = none → k ≤ budget) :
    run? tracer limit budget m c trace =
      some ((endingAfter m c k).outcome k, leftAfter tracer m c trace k) := by
  cases limit with
  | some n =>
    obtain ⟨j, hj, hrun⟩ := runFor_eq tracer trace hready n c
    obtain rfl := hk.unique hj
    have houtcome : (endingAfter m c k).outcome n = (endingAfter m c k).outcome k := by
      rcases ends_some_iff.1 hk.1 with hends | rfl
      · cases hending : endingAfter m c k with
        | exhausted => exact absurd hends (endingAfter_eq_exhausted_iff.1 hending)
        | halted halt => rfl
        | failed e => rfl
      · rfl
    simp only [run?, hrun, houtcome]
  | none =>
    obtain ⟨j, hj, hrun⟩ := runFor_eq tracer trace hready budget c
    obtain rfl := (isLeast_ends_some hk (hbudget rfl)).unique hj
    simp only [run?, hrun]
    cases hending : endingAfter m c k with
    | exhausted => exact absurd hk.1 (endingAfter_eq_exhausted_iff.1 hending)
    | halted halt => rfl
    | failed e => rfl

theorem runFor_of_limitReached {tracer : Tracer τ} {trace : τ} {n budget : Nat} {s : RunState π τ}
    (hready : m.status ≠ .notReady)
    (h : run? tracer (some n) budget m c trace = some (.error (.limitReached n), s)) :
    runFor tracer n m c trace = (.exhausted, s) := by
  obtain ⟨k, -, hrun⟩ := runFor_eq tracer trace hready n c
  simp only [run?, hrun, Option.some.injEq, Prod.mk.injEq] at h
  obtain ⟨houtcome, rfl⟩ := h
  rw [hrun]
  unfold endingAfter at houtcome ⊢
  split at houtcome
  · rename_i hrunning
    rw [if_pos hrunning]
    cases hfailure : failure? m c k with
    | none => rfl
    | some e =>
      rw [hfailure] at houtcome
      cases houtcome
  · cases houtcome

/-- A run takes the least number of steps after which it can end. It tells the tracer what is before
each of them, and it answers with the halt if the machine has stopped, also at the last step that
the limit allows, with the failure if the last step has failed, and else that the limit is reached.
With a limit there is always such a number, and without one the budget has to suffice for it. A run
that has reached its limit can be taken up again: two runs leave what one run leaves with twice the
limit. -/
theorem run?_iterates (hready : m.status ≠ .notReady) (tracer : Tracer τ) (c : π) (trace : τ) :
    (∀ limit budget k, IsLeast {k | Ends limit m c k} k → (limit = none → k ≤ budget) →
      let t := after k m c
      let told := traced tracer m c trace k
      let result := run? tracer limit budget m c trace
      (t.1.status ≠ .running →
        result = some (.ok t.1.halt, ⟨t.1, t.2, tracer.atHalt t.1.halt told⟩)) ∧
      (∀ e, failure? m c k = some e →
        t.1.status = .running ∧ result = some (.error (.console e), ⟨t.1, t.2, told⟩)) ∧
      (t.1.status = .running → failure? m c k = none →
        limit = some k ∧ result = some (.error (.limitReached k), ⟨t.1, t.2, told⟩))) ∧
    (∀ n, ∃ k ≤ n, IsLeast {k | Ends (some n) m c k} k) ∧
    (∀ budget, (∀ k ≤ budget, ¬ Ends none m c k) → run? tracer none budget m c trace = none) ∧
    ∀ n budget s, run? tracer (some n) budget m c trace = some (.error (.limitReached n), s) →
      (run? tracer (some n) budget s.machine s.console s.trace).map Prod.snd =
        (run? tracer (some (2 * n)) budget m c trace).map Prod.snd := by
  refine ⟨fun limit budget k hk hbudget => ?_, fun n => ?_, fun budget hgoes => ?_,
    fun n budget s hlimit => ?_⟩
  · intro t told result
    have hresult : result = some ((endingAfter m c k).outcome k, leftAfter tracer m c trace k) :=
      run?_eq hready tracer trace hk hbudget
    refine ⟨fun hstopped => ?_, fun e he => ?_, fun hrunning hfailure => ?_⟩
    · rw [hresult, endingAfter, if_neg hstopped, leftAfter, if_neg hstopped]
      rfl
    · have hrunning := failure?_status he
      rw [hresult, endingAfter, if_pos hrunning, he, leftAfter, if_pos hrunning]
      exact ⟨hrunning, rfl⟩
    · rw [hresult, endingAfter, if_pos hrunning, hfailure, leftAfter, if_pos hrunning]
      refine ⟨?_, rfl⟩
      rcases hk.1 with hstopped | ⟨e, he⟩ | hlimit
      · exact absurd hrunning hstopped
      · rw [hfailure] at he
        cases he
      · exact hlimit
  · obtain ⟨k, hk, -⟩ := runFor_eq Tracer.silent () hready n c
    exact ⟨k, hk.2 (.inr (.inr rfl)), hk⟩
  · obtain ⟨k, hk, hrun⟩ := runFor_eq tracer trace hready budget c
    have hle : k ≤ budget := hk.2 (.inr (.inr rfl))
    simp only [run?, hrun, endingAfter_eq_exhausted_iff.2 (hgoes k hle)]
  · have hfirst : runFor tracer n m c trace = (.exhausted, s) :=
      runFor_of_limitReached hready hlimit
    rw [Nat.two_mul]
    simp only [run?, runFor_add, hfirst, Option.map_some]

/-- `push 7`, `out` and back again. -/
def writeForever : Bytes :=
  (Header.withRegisters 0).toBytes ++ #[0x01, 7, 0, 0, 0, 0x05, 0x10, 8, 0]

/-- A run whose fifth step fails, since the console takes only the first number. -/
theorem run?_iterates_closed :
    let m := ((create Registry.standard 32).load writeForever).2
    let c : StreamingConsole := ⟨[], "", some 2⟩
    let tracer : Tracer (List Nat) := ⟨fun m ips => ips ++ [m.ip], fun _ ips => ips⟩
    m.status ≠ .notReady ∧ IsLeast {k | Ends (some 9) m c k} 5 ∧
      failure? m c 5 = some StreamingConsole.closed ∧
      run? tracer (some 9) 0 m c [] =
        some (.error (.console StreamingConsole.closed),
          ⟨(after 5 m c).1, (after 5 m c).2, [8, 13, 14, 8, 13]⟩) := by
  intro m c tracer
  have hready : m.status ≠ .notReady := by decide +kernel
  have hgoes : ∀ k < 5, (after k m c).1.status = .running ∧ failure? m c k = none := by
    decide +kernel
  have hfailure : failure? m c 5 = some StreamingConsole.closed := by decide +kernel
  have htold : traced tracer m c [] 5 = [8, 13, 14, 8, 13] := by decide +kernel
  have hleast : IsLeast {k | Ends (some 9) m c k} 5 :=
    isLeast_ends_of_goes (.inr (.inl ⟨_, hfailure⟩)) hgoes (by decide)
  have hrun := ((run?_iterates hready tracer c []).1 (some 9) 0 5 hleast nofun).2.1 _ hfailure
  rw [htold] at hrun
  exact ⟨hready, hleast, hfailure, hrun.2⟩

end StackMachine.Machine
