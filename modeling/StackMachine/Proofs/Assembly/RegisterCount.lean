import Mathlib.Order.Bounds.Basic
import StackMachine.Proofs.Assembly.Concatenation

/-!
# The number of registers of a linked program

Both passes over a file make its requests, the first request of all files may lower the default, and
later ones can only raise the number. What comes out does not depend on any order: it is the largest
number that a directive asks for, brought into the range that a program can have.

* `RegisterSettings.toNat_clamp`: a request counts as the nearest number from zero to eight.
* `RegisterSettings.foldl_request_isGreatest`: behind a first request, the number of registers is
  the largest of those asked for since.
* `foldl_assemble_registers`: the files of a link make their requests one after the other.
* `link_registerCount`: the number of registers of a linked program.
-/

namespace StackMachine.Assembly

open Session

/-! ## Requests one after the other -/

namespace RegisterSettings

variable {settings : RegisterSettings}

theorem toNat_clamp (requested : Int) :
    ((clamp requested).toNat : Int) = max 0 (min requested 8) := by
  unfold clamp
  split
  · rw [UInt8.toNat_zero]
    omega
  · split
    · have height : (8 : UInt8).toNat = 8 := rfl
      rw [height]
      omega
    · rw [UInt8.toNat_ofNat', Nat.mod_eq_of_lt (by omega)]
      omega

theorem request_of_first (h : settings.requested = false) (requested : Int) :
    (settings.request requested).count = clamp requested := by
  unfold request
  rw [if_neg (by simp [h])]

theorem toNat_request (h : settings.requested = true) (requested : Int) :
    ((settings.request requested).count.toNat : Int) =
      max (settings.count.toNat : Int) (max 0 (min requested 8)) := by
  rw [← toNat_clamp]
  unfold request
  split
  · rename_i hlt
    have := UInt8.lt_iff_toNat_lt.1 hlt.2
    omega
  · rename_i hlt
    have hle : settings.count ≤ clamp requested := UInt8.not_lt.1 fun hlt' => hlt ⟨h, hlt'⟩
    have := UInt8.le_iff_toNat_le.1 hle
    dsimp only
    omega

/-- Behind a first request the number is the largest of those asked for, and the order of the
requests is forgotten. -/
theorem foldl_request_isGreatest (h : settings.requested = true) (requests : List Int) :
    IsGreatest {n : Int | n = settings.count.toNat ∨
        ∃ requested ∈ requests, n = max 0 (min requested 8)}
      (requests.foldl request settings).count.toNat := by
  induction requests generalizing settings with
  | nil => simp [IsGreatest, upperBounds]
  | cons first requests ih =>
    obtain ⟨hmem, hupper⟩ := ih (request_requested settings first)
    have hfirst := toNat_request h first
    rw [List.foldl_cons]
    constructor
    · rcases hmem with heq | ⟨requested, hrequested, heq⟩
      · -- The number after the first of these requests is one of the two that it compares.
        rcases max_choice (settings.count.toNat : Int) (max 0 (min first 8)) with hmax | hmax
        · exact .inl (by rw [heq, hfirst, hmax])
        · exact .inr ⟨first, List.mem_cons_self, by rw [heq, hfirst, hmax]⟩
      · exact .inr ⟨requested, List.mem_cons_of_mem _ hrequested, heq⟩
    · have hcount := hupper (.inl rfl)
      rw [hfirst] at hcount
      rintro n (rfl | ⟨requested, hrequested, rfl⟩)
      · exact (le_max_left _ _).trans hcount
      · rcases List.mem_cons.1 hrequested with rfl | hrequested
        · exact (le_max_right _ _).trans hcount
        · exact hupper (.inr ⟨requested, hrequested, rfl⟩)

/-- Where nothing was asked for before, the number is the largest of those asked for. -/
theorem foldl_first_isGreatest (h : settings.requested = false) {requests : List Int}
    (hne : requests ≠ []) :
    IsGreatest {n : Int | ∃ requested ∈ requests, n = max 0 (min requested 8)}
      (requests.foldl request settings).count.toNat := by
  cases requests with
  | nil => exact absurd rfl hne
  | cons first requests =>
    have hgreatest := foldl_request_isGreatest (request_requested settings first) requests
    rw [request_of_first h first, toNat_clamp] at hgreatest
    rw [List.foldl_cons]
    simpa only [List.exists_mem_cons_iff] using hgreatest

end RegisterSettings

/-! ## Links -/

variable {registry : Registry} {files : List SourceFile}

/-- The files of a link make their requests one after the other, each file all of its own. -/
theorem foldl_assemble_registers {state : LinkState} (hs : state.session.symbols.WellFormed)
    (h : (files.foldl LinkState.assemble state).rejected = false) :
    (files.foldl LinkState.assemble state).session.registers =
      (files.flatMap SourceFile.requests).foldl .request state.session.registers := by
  induction files generalizing state with
  | nil => rfl
  | cons file files ih =>
    obtain ⟨haccepted, hrest⟩ := foldl_cons_accepted h
    have hsound : (file.assemble state.session).session.Sound state.session.registry :=
      file.assemble_sound ⟨rfl, hs⟩
    have hfirst : (state.assemble file).session.registers =
        file.requests.foldl .request state.session.registers :=
      (SourceFile.accepted_within hs haccepted).1
    rw [List.foldl_cons, ih hsound.symbols hrest, hfirst, List.flatMap_cons, List.foldl_append]

/-- The number of registers of a linked program is what the requests of its files make of the
default. -/
theorem registerCount_eq {p : Program} (h : (link registry files).outcome = .ok p) :
    p.registerCount =
      ((files.flatMap SourceFile.requests).foldl RegisterSettings.request .standard).count := by
  obtain ⟨haccepted, rfl⟩ := link_eq_ok_iff.1 h
  have hempty : (LinkState.start registry).session.symbols.WellFormed := HashTable.empty_wellFormed
  exact congrArg RegisterSettings.count (foldl_assemble_registers hempty haccepted)

theorem registerCount_of_no_request {p : Program} (h : (link registry files).outcome = .ok p)
    (hnone : files.flatMap SourceFile.requests = []) : p.registerCount = 4 := by
  rw [registerCount_eq h, hnone]
  rfl

theorem registerCount_isGreatest {p : Program} (h : (link registry files).outcome = .ok p)
    (hne : files.flatMap SourceFile.requests ≠ []) :
    IsGreatest {n : Int | ∃ requested ∈ files.flatMap SourceFile.requests,
      n = max 0 (min requested 8)} p.registerCount.toNat := by
  rw [registerCount_eq h]
  exact RegisterSettings.foldl_first_isGreatest rfl hne

/-- The number of registers of a linked program is the largest that a directive of its files asks
for, each brought into the range from zero to eight, and four if none asks. So it is the same in
whatever order the files are linked. -/
theorem link_registerCount {p : Program} (h : (link registry files).outcome = .ok p) :
    let requests := files.flatMap SourceFile.requests
    (requests = [] → p.registerCount = 4) ∧
    (requests ≠ [] →
      IsGreatest {n : Int | ∃ requested ∈ requests, n = max 0 (min requested 8)}
        p.registerCount.toNat) ∧
    ∀ files' p', files'.Perm files → (link registry files').outcome = .ok p' →
      p'.registerCount = p.registerCount := by
  intro requests
  refine ⟨registerCount_of_no_request h, registerCount_isGreatest h, fun files' p' hperm h' => ?_⟩
  have hrequests : (files'.flatMap SourceFile.requests).Perm requests :=
    hperm.flatMap_right SourceFile.requests
  by_cases hnone : requests = []
  · have hnone' : files'.flatMap SourceFile.requests = [] := List.perm_nil.1 (hnone ▸ hrequests)
    rw [registerCount_of_no_request h hnone, registerCount_of_no_request h' hnone']
  · have hne : files'.flatMap SourceFile.requests ≠ [] := by
      intro hnone'
      exact hnone (List.nil_perm.1 (hnone' ▸ hrequests))
    -- Both numbers are the largest of the same ones, since the files are the same.
    have hgreatest := registerCount_isGreatest h' hne
    simp only [hrequests.mem_iff] at hgreatest
    have heq := hgreatest.unique (registerCount_isGreatest h hnone)
    exact UInt8.toNat_inj.1 (Int.ofNat_inj.1 heq)

/-- A request below the default, one out of range, and a file without any, in two orders. -/
theorem link_registerCount_orders :
    let first : SourceFile := ⟨"a.asm", "start: .registers -3\n.registers 2 # two\npush r1\n"⟩
    let second : SourceFile := ⟨"b.asm", ".registers 6\npop r5"⟩
    let third : SourceFile := ⟨"c.asm", "end\n"⟩
    let p := ([first, second, third].foldl LinkState.assemble (.start Registry.standard)).session.finish
    let p' := ([third, second, first].foldl LinkState.assemble (.start Registry.standard)).session.finish
    (link Registry.standard [first, second, third]).outcome = .ok p ∧
    (link Registry.standard [third, second, first]).outcome = .ok p' ∧
    [third, second, first].Perm [first, second, third] ∧
    [first, second, third].flatMap SourceFile.requests = [-3, 2, 6] ∧
    IsGreatest {n : Int | ∃ requested ∈ [-3, 2, 6], n = max 0 (min requested 8)}
      p.registerCount.toNat ∧
    p'.registerCount = p.registerCount := by
  intro first second third p p'
  have h : (link Registry.standard [first, second, third]).outcome = .ok p :=
    link_eq_ok_iff.2 ⟨by decide +kernel, rfl⟩
  have h' : (link Registry.standard [third, second, first]).outcome = .ok p' :=
    link_eq_ok_iff.2 ⟨by decide +kernel, rfl⟩
  have hperm : [third, second, first].Perm [first, second, third] :=
    List.reverse_perm [first, second, third]
  have hrequests : [first, second, third].flatMap SourceFile.requests = [-3, 2, 6] := by
    decide +kernel
  obtain ⟨-, hgreatest, horder⟩ := link_registerCount h
  rw [hrequests] at hgreatest
  exact ⟨h, h', hperm, hrequests, hgreatest (by decide), horder _ _ hperm h'⟩

end StackMachine.Assembly
