import Mathlib.Data.List.Forall2
import StackMachine.Instruction.Standard
import StackMachine.Proofs.Assembly.Link
import StackMachine.Proofs.Text.Decoding

/-!
# Links of paths

A link of paths meets three kinds of paths. Where it finds a text, it assembles a source file. Where
it finds bytes that are no text, it tells so and fails in the end, but goes on as if the path were
not there. Where it cannot read, it stops.

* `LinkState.verdicts`: what a link finds out about each path that it reads.
* `LinkState.Marred.assemblePaths`: a link goes on after a rejection as it would without.
* `linkPaths_by_kind`: the result of a link, by the kinds of its paths.
-/

namespace StackMachine.Assembly

variable {registry : Registry} {read : String → Except String Bytes} {path : String}
  {bytes : Bytes} {paths : List String} {state state' : LinkState}

/-! ## Kinds of paths -/

/-- That something can be read at a path. -/
def IsReadable (read : String → Except String Bytes) (path : String) : Prop :=
  ∃ bytes, read path = .ok bytes

/-- That the bytes at a path are the text of a source file. -/
def IsTextAt (read : String → Except String Bytes) (path : String) (file : SourceFile) : Prop :=
  file.path = path ∧ ∃ bytes, read path = .ok bytes ∧ Text.decode bytes = .ok file.text

theorem SourceFile.ofBytes_eq_ok (path : String) {text : String}
    (h : Text.decode bytes = .ok text) :
    ofBytes path bytes = .ok ⟨path, text⟩ := by
  simp [ofBytes, h]

theorem SourceFile.ofBytes_eq_error (path : String) {offset : Nat}
    (h : Text.decode bytes = .error offset) :
    ofBytes path bytes = .error ⟨path, 1 + (bytes.extract 0 offset).count 0x0a, offset⟩ := by
  simp [ofBytes, h]

/-! ## Verdicts -/

/-- What a link finds out about a path that it reads. -/
structure PathVerdict where
  path : String
  accepted : Bool
  diagnostics : Diagnostics

namespace LinkState

/-- What a link finds out about one more path. -/
def verdict (state : LinkState) (path : String) (bytes : Bytes) : PathVerdict :=
  match SourceFile.ofBytes path bytes with
  | .ok file =>
    let result := file.assemble state.session
    ⟨path, result.accepted, result.diagnostics⟩
  | .error e =>
    ⟨path, false, #[Diagnostic.ofKind .invalidEncoding e.path e.line ⟨0, 0⟩ e.message]⟩

/-- What a link finds out about paths, up to the first one that it cannot read. -/
def verdicts (read : String → Except String Bytes) (state : LinkState) :
    List String → List PathVerdict
  | [] => []
  | path :: rest =>
    match read path with
    | .ok bytes => state.verdict path bytes :: verdicts read (state.assembleBytes path bytes) rest
    | .error _ => []

theorem assembleBytes_diagnostics :
    (state.assembleBytes path bytes).report.diagnostics =
      state.report.diagnostics ++ (state.verdict path bytes).diagnostics := by
  unfold assembleBytes verdict
  cases SourceFile.ofBytes path bytes with
  | ok file => rfl
  | error e => exact Array.push_eq_append

theorem assembleBytes_rejected :
    (state.assembleBytes path bytes).rejected =
      (state.rejected || !(state.verdict path bytes).accepted) := by
  unfold assembleBytes verdict
  cases SourceFile.ofBytes path bytes with
  | ok file => rfl
  | error e => exact (Bool.or_true _).symm

/-- The report goes through the verdicts in order. -/
theorem assemblePaths_diagnostics :
    (state.assemblePaths read paths).report.diagnostics.toList =
      state.report.diagnostics.toList ++
        (state.verdicts read paths).flatMap fun v => v.diagnostics.toList := by
  induction paths generalizing state with
  | nil => simp [assemblePaths, verdicts, finish]
  | cons path rest ih =>
    rw [assemblePaths, verdicts]
    cases read path with
    | ok bytes =>
      dsimp only
      rw [ih, assembleBytes_diagnostics, Array.toList_append, List.flatMap_cons,
        List.append_assoc]
    | error cause => simp

/-- A link has a program if it can read all paths, and accepts them. -/
theorem assemblePaths_outcome_ok_iff :
    (∃ p, (state.assemblePaths read paths).outcome = .ok p) ↔
      state.rejected = false ∧ (∀ path ∈ paths, IsReadable read path) ∧
        ∀ v ∈ state.verdicts read paths, v.accepted = true := by
  induction paths generalizing state with
  | nil => cases h : state.rejected <;> simp [assemblePaths, verdicts, finish, h]
  | cons path rest ih =>
    rw [assemblePaths, verdicts]
    simp only [List.forall_mem_cons, IsReadable]
    cases hread : read path with
    | ok bytes =>
      simp only [List.forall_mem_cons, ih, assembleBytes_rejected, Bool.or_eq_false_iff,
        Bool.not_eq_false', Except.ok.injEq, exists_eq', true_and, IsReadable]
      tauto
    | error cause => simp

/-- A link gets behind paths that it can read. -/
theorem exists_behind {before : List String} (h : ∀ path ∈ before, IsReadable read path)
    (state : LinkState) :
    ∃ middle : LinkState, ∀ rest,
      state.assemblePaths read (before ++ rest) = middle.assemblePaths read rest ∧
      state.verdicts read (before ++ rest) =
        state.verdicts read before ++ middle.verdicts read rest := by
  induction before generalizing state with
  | nil => exact ⟨state, fun rest => ⟨rfl, rfl⟩⟩
  | cons path before ih =>
    rw [List.forall_mem_cons] at h
    obtain ⟨⟨bytes, hread⟩, hbefore⟩ := h
    obtain ⟨middle, hmiddle⟩ := ih hbefore (state.assembleBytes path bytes)
    refine ⟨middle, fun rest => ?_⟩
    obtain ⟨hassemble, hverdicts⟩ := hmiddle rest
    simp only [List.cons_append, assemblePaths, verdicts, hread]
    exact ⟨hassemble, congrArg (state.verdict path bytes :: ·) hverdicts⟩

/-! ## Links with and without a rejection -/

/-- That the second state is the first one, but for a rejection and what was told about it. -/
structure Marred (state state' : LinkState) : Prop where
  session : state'.session = state.session
  sources : state'.report.sources = state.report.sources
  rejected : state'.rejected = true

theorem marred_reject (state : LinkState) (e : EncodingError) : Marred state (state.reject e) :=
  ⟨rfl, rfl, rfl⟩

theorem Marred.verdict (h : Marred state state') :
    state'.verdict path bytes = state.verdict path bytes := by
  simp only [LinkState.verdict, h.session]

theorem Marred.assembleBytes (h : Marred state state') :
    Marred (state.assembleBytes path bytes) (state'.assembleBytes path bytes) := by
  unfold LinkState.assembleBytes
  cases SourceFile.ofBytes path bytes with
  | ok file =>
    refine ⟨?_, ?_, ?_⟩
    · simp only [assemble, h.session]
    · simp only [assemble, h.sources]
    · simp only [assemble, h.rejected, Bool.true_or]
  | error e => exact ⟨h.session, h.sources, rfl⟩

theorem Marred.verdicts (h : Marred state state') :
    state'.verdicts read paths = state.verdicts read paths := by
  induction paths generalizing state state' with
  | nil => rfl
  | cons path rest ih =>
    rw [LinkState.verdicts, LinkState.verdicts]
    cases read path with
    | ok bytes =>
      dsimp only
      rw [h.verdict, ih h.assembleBytes]
    | error cause => rfl

/-- After a rejection a link fails where it would have a program, and ends the same way where it
would have none. -/
theorem Marred.assemblePaths (h : Marred state state') :
    (state'.assemblePaths read paths).report.sources =
      (state.assemblePaths read paths).report.sources ∧
    (∀ p, (state.assemblePaths read paths).outcome = .ok p →
      (state'.assemblePaths read paths).outcome = .error .failed) ∧
    ∀ e, (state.assemblePaths read paths).outcome = .error e →
      (state'.assemblePaths read paths).outcome = .error e := by
  induction paths generalizing state state' with
  | nil =>
    have hfailed : state'.finish.outcome = .error .failed := by
      simp [finish, h.rejected]
    refine ⟨h.sources, fun p _ => hfailed, fun e he => ?_⟩
    rw [LinkState.assemblePaths, finish] at he
    dsimp only at he
    split at he
    · cases he
      exact hfailed
    · cases he
  | cons path rest ih =>
    rw [LinkState.assemblePaths, LinkState.assemblePaths]
    cases read path with
    | ok bytes => exact ih h.assembleBytes
    | error cause => exact ⟨h.sources, fun p hp => (by cases hp), fun e he => he⟩

/-- A link of texts assembles source files. -/
theorem assemblePaths_of_forall₂ {files : List SourceFile}
    (h : List.Forall₂ (IsTextAt read) paths files) (state : LinkState) :
    state.assemblePaths read paths = (files.foldl assemble state).finish := by
  induction h generalizing state with
  | nil => rfl
  | @cons path file paths files hfile _ ih =>
    obtain ⟨rfl, bytes, hread, htext⟩ := hfile
    rw [assemblePaths, hread, List.foldl_cons, ← ih]
    simp only [assembleBytes, SourceFile.ofBytes_eq_ok file.path htext]

end LinkState

/-! ## Links -/

/-- What a link finds out about paths, up to the first one that it cannot read. -/
def pathVerdicts (registry : Registry) (read : String → Except String Bytes)
    (paths : List String) : List PathVerdict :=
  (LinkState.start registry).verdicts read paths

/-- The result of a link, by the kinds of its paths. The report goes through the verdicts on the
paths, and there is a program if all are read and accepted.

* If every path leads to a text, this is the link of the source files.
* The first path that cannot be read ends the link, with the report on the paths in front of it.
* A path with bytes that are no text has one error, on the line of the first bad byte, and makes the
  link fail; there is nothing else that it changes. -/
theorem linkPaths_by_kind (registry : Registry) (read : String → Except String Bytes) :
    (∀ paths,
      (linkPaths registry read paths).report.diagnostics.toList =
        (pathVerdicts registry read paths).flatMap (fun v => v.diagnostics.toList) ∧
      ((∃ p, (linkPaths registry read paths).outcome = .ok p) ↔
        (∀ path ∈ paths, IsReadable read path) ∧
          ∀ v ∈ pathVerdicts registry read paths, v.accepted = true)) ∧
    (∀ paths files, List.Forall₂ (IsTextAt read) paths files →
      linkPaths registry read paths = link registry files) ∧
    (∀ before path cause after, (∀ p ∈ before, IsReadable read p) → read path = .error cause →
      linkPaths registry read (before ++ path :: after) =
        ⟨.error (.unreadable path cause), (linkPaths registry read before).report⟩) ∧
    ∀ before path bytes after, (∀ p ∈ before, IsReadable read p) → read path = .ok bytes →
      (∀ text, Text.decode bytes ≠ .ok text) →
      ∃ offset, Text.IsLongestText bytes offset ∧ offset < bytes.size ∧
        let line := 1 + (bytes.extract 0 offset).count 0x0a
        let message := "source is not valid UTF-8: bad byte at offset " ++ Text.decimal offset
        let told : Diagnostic := ⟨.invalidEncoding, .error, path, line, ⟨0, 0⟩, message⟩
        let result := linkPaths registry read (before ++ path :: after)
        let without := linkPaths registry read (before ++ after)
        (∃ behind,
          pathVerdicts registry read (before ++ after) =
            pathVerdicts registry read before ++ behind ∧
          pathVerdicts registry read (before ++ path :: after) =
            pathVerdicts registry read before ++ ⟨path, false, #[told]⟩ :: behind) ∧
        result.report.sources = without.report.sources ∧
        (∀ p, without.outcome = .ok p → result.outcome = .error .failed) ∧
        ∀ e, without.outcome = .error e → result.outcome = .error e := by
  refine ⟨fun paths => ⟨LinkState.assemblePaths_diagnostics, ?_⟩,
    fun paths files hfiles => LinkState.assemblePaths_of_forall₂ hfiles _,
    fun before path cause after hbefore hread => ?_,
    fun before path bytes after hbefore hread hbad => ?_⟩
  · rw [linkPaths, LinkState.assemblePaths_outcome_ok_iff]
    exact and_iff_right rfl
  · obtain ⟨middle, hmiddle⟩ := LinkState.exists_behind hbefore (.start registry)
    have hfront := (hmiddle []).1
    rw [List.append_nil] at hfront
    rw [linkPaths, linkPaths, (hmiddle (path :: after)).1, hfront]
    simp only [LinkState.assemblePaths, hread, LinkState.finish]
  · obtain ⟨offset, hdecode⟩ : ∃ offset, Text.decode bytes = .error offset := by
      cases hdecode : Text.decode bytes with
      | ok text => exact absurd hdecode (hbad text)
      | error offset => exact ⟨offset, rfl⟩
    obtain ⟨hlongest, hlt⟩ := Text.decode_eq_error hdecode
    refine ⟨offset, hlongest, hlt, ?_⟩
    intro line message told result without
    have hfile := SourceFile.ofBytes_eq_error path hdecode
    obtain ⟨middle, hmiddle⟩ := LinkState.exists_behind hbefore (.start registry)
    have hmarred : LinkState.Marred middle (middle.assembleBytes path bytes) := by
      simp only [LinkState.assembleBytes, hfile]
      exact LinkState.marred_reject middle _
    have hverdict : middle.verdict path bytes = ⟨path, false, #[told]⟩ := by
      simp only [LinkState.verdict, hfile]
      rfl
    obtain ⟨hassemble, hverdicts⟩ := hmiddle (path :: after)
    simp only [LinkState.assemblePaths, LinkState.verdicts, hread] at hassemble hverdicts
    refine ⟨⟨middle.verdicts read after, (hmiddle after).2, ?_⟩, ?_⟩
    · rw [pathVerdicts, hverdicts, hverdict, hmarred.verdicts]
      rfl
    · unfold result without linkPaths
      rw [hassemble, (hmiddle after).1]
      exact hmarred.assemblePaths

/-- A text, bytes that stop being a text on their second line, and a path that leads nowhere. -/
theorem linkPaths_by_kind_three_paths :
    let bad : Bytes := #[0x0a, 0xc3, 0x0a]
    let read : String → Except String Bytes := fun path =>
      if path = "a.asm" then .ok (Bytes.ofString "push 1\n")
      else if path = "b.asm" then .ok bad
      else .error "No such file or directory (os error 2)"
    let registry := Registry.standard
    let told : Diagnostic := ⟨.invalidEncoding, .error, "b.asm", 2, ⟨0, 0⟩,
      "source is not valid UTF-8: bad byte at offset 1"⟩
    linkPaths registry read ["a.asm"] = link registry [⟨"a.asm", "push 1\n"⟩] ∧
    (∃ p, (linkPaths registry read ["a.asm"]).outcome = .ok p) ∧
    pathVerdicts registry read ["a.asm", "b.asm"] =
      pathVerdicts registry read ["a.asm"] ++ [⟨"b.asm", false, #[told]⟩] ∧
    (linkPaths registry read ["a.asm", "b.asm"]).outcome = .error .failed ∧
    linkPaths registry read ["a.asm", "b.asm", "c.asm"] =
      ⟨.error (.unreadable "c.asm" "No such file or directory (os error 2)"),
        (linkPaths registry read ["a.asm", "b.asm"]).report⟩ := by
  intro bad read registry told
  have hdecode : Text.decode bad = .error 1 := by decide +kernel
  have htext : IsTextAt read "a.asm" ⟨"a.asm", "push 1\n"⟩ :=
    ⟨rfl, Bytes.ofString "push 1\n", rfl, Text.decode_ofString _⟩
  have hfirst : ∀ p ∈ ["a.asm"], IsReadable read p := by
    simpa using ⟨_, htext.2.choose_spec.1⟩
  have hboth : ∀ p ∈ ["a.asm", "b.asm"], IsReadable read p := by
    simpa using ⟨hfirst "a.asm" (by simp), bad, rfl⟩
  obtain ⟨-, htexts, hunreadable, hbad⟩ := linkPaths_by_kind registry read
  have hlink := htexts ["a.asm"] _ (.cons htext .nil)
  have hprogram : ∃ p, (linkPaths registry read ["a.asm"]).outcome = .ok p := by
    rw [hlink]
    exact ⟨_, link_eq_ok_iff.2 ⟨by decide +kernel, rfl⟩⟩
  obtain ⟨offset, hlongest, -, ⟨behind, hwithout, hwith⟩, -, hfails, -⟩ :=
    hbad ["a.asm"] "b.asm" bad [] hfirst rfl (by simp [hdecode])
  obtain rfl : offset = 1 := hlongest.unique (Text.decode_eq_error hdecode).1
  obtain rfl : behind = [] := by simpa using hwithout
  obtain ⟨p, hp⟩ := hprogram
  exact ⟨hlink, ⟨p, hp⟩, hwith, hfails p hp, hunreadable ["a.asm", "b.asm"] "c.asm" _ [] hboth rfl⟩

end StackMachine.Assembly
