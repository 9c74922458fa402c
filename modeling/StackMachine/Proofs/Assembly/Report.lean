import StackMachine.Proofs.Assembly.Rejection
import StackMachine.Proofs.Assembly.Warnings

/-!
# The report of a link

A file has at most one error. It stands behind the warnings of the file, and rejects it. So the
diagnostics of a link tell its verdict.

* `SourceFile.assemble_diagnostics`: the diagnostics of one file.
* `LinkState.foldl_diagnostics`: the report goes through the files in order.
* `link_report`: the report of a link, its verdict and the number of its errors.
-/

namespace StackMachine.Assembly

open Session

variable {s : Session}

theorem AssemblyError.severity_kind (e : AssemblyError) : e.kind.severity = .error := by
  cases e <;> rfl

/-! ## Files -/

namespace SourceFile

/-- The lines of a file that discovery gets through. -/
def reached (s : Session) (file : SourceFile) : List SourceLine :=
  Pass.reached file.path (SourceLine.ofText file.text) ⟨s, #[], #[]⟩

/-- The diagnostics of a file: the warnings of the lines that discovery gets through, and behind
them one error if the file is rejected. -/
theorem assemble_diagnostics (hs : s.offset ≤ 65535) (file : SourceFile) :
    let told := SourceLine.allWarnings file.path s.registers (file.reached s)
    let result := file.assemble s
    (result.accepted = true → result.diagnostics.toList = told ∧
      file.reached s = SourceLine.ofText file.text) ∧
    (result.accepted = false → ∃ e, result.diagnostics.toList = told ++ [e] ∧
      e.severity = .error ∧ e.path = file.path) := by
  have hstart : (⟨s, #[], #[]⟩ : Progress).session.offset ≤ 65535 := hs
  obtain ⟨htold, hall⟩ :=
    Pass.lines_diagnostics hstart file.path (SourceLine.ofText file.text)
  rw [Array.toList_empty, List.nil_append] at htold
  intro told result
  -- Either pass can fail, and only discovery has told anything until then.
  have hreject {p : Progress} (hp : p.diagnostics.toList = told) (number : Nat)
      (located : Located) :
      ∃ e, (reject file.path s.checkpoint number located p).diagnostics.toList = told ++ [e] ∧
        e.severity = .error ∧ e.path = file.path := by
    rw [reject, Array.toList_push, hp]
    exact ⟨_, rfl, located.error.severity_kind, rfl⟩
  unfold result assemble
  dsimp only
  split
  · rename_i number located p hdiscovery
    rw [hdiscovery] at htold
    exact ⟨fun h => (by cases h), fun _ => hreject htold number located⟩
  · rename_i p hdiscovery
    rw [hdiscovery] at htold hall
    have hlink : (Pass.link.lines file.path (SourceLine.ofText file.text)
        { p with session := p.session.truncate s.checkpoint.offset }).2.diagnostics =
          p.diagnostics := by
      rw [Pass.lines_eq_runAll]
      exact Act.runAll_keeps Progress.diagnostics
        (fun act _ _ q => Act.run_link_diagnostics act.2 q) _
    split
    · rename_i number located q hrun
      rw [hrun] at hlink
      exact ⟨fun h => (by cases h), fun _ => hreject (by rw [hlink]; exact htold) number located⟩
    · rename_i q hrun
      rw [hrun] at hlink
      refine ⟨fun _ => ⟨?_, hall rfl⟩, fun h => (by cases h)⟩
      rw [hlink]
      exact htold

/-- A rejected file has one error, and an accepted one has none. -/
theorem countP_isError (hs : s.offset ≤ 65535) (file : SourceFile) :
    (file.assemble s).diagnostics.toList.countP Diagnostic.isError =
      if (file.assemble s).accepted then 0 else 1 := by
  obtain ⟨haccepted, hrejected⟩ := assemble_diagnostics hs file
  have hwarnings : (SourceLine.allWarnings file.path s.registers (file.reached s)).countP
      Diagnostic.isError = 0 := by
    rw [List.countP_eq_zero]
    intro d hd
    rw [Diagnostic.isError, SourceLine.severity_of_mem_allWarnings hd]
    decide
  cases h : (file.assemble s).accepted with
  | true => rw [(haccepted h).1, hwarnings, if_pos rfl]
  | false =>
    obtain ⟨e, htold, hseverity, -⟩ := hrejected h
    have he : e.isError = true := by
      rw [Diagnostic.isError, hseverity]
      decide
    rw [htold, List.countP_append, hwarnings, List.countP_singleton, if_pos he]
    rfl

/-- The code of a session stays in the reach of labels. -/
theorem assemble_offset_le (hs : s.symbols.WellFormed) (hle : s.offset ≤ 65535)
    (file : SourceFile) : (file.assemble s).session.offset ≤ 65535 := by
  cases h : (file.assemble s).accepted with
  | false =>
    rw [(assemble_rejected hs h).offset]
    exact hle
  | true =>
    rcases file.assemble_cases hs with ⟨number, located, p, -, heq⟩ |
      ⟨d, q, -, hlink, hd, -, heq⟩
    · rw [heq] at h
      cases h
    · rw [heq]
      refine Pass.lines_offset_le hlink ?_
      have hoffset : (d.session.truncate s.checkpoint.offset).offset = s.offset := by
        rw [offset, offset, hd.truncate.2]
      exact hoffset.trans_le hle

end SourceFile

/-! ## Links -/

namespace LinkState

variable {state : LinkState}

theorem foldl_offset_le {files : List SourceFile} (hs : state.session.symbols.WellFormed)
    (hle : state.session.offset ≤ 65535) :
    (files.foldl assemble state).session.offset ≤ 65535 := by
  induction files generalizing state with
  | nil => exact hle
  | cons file files ih =>
    have hsound : (file.assemble state.session).session.Sound state.session.registry :=
      file.assemble_sound ⟨rfl, hs⟩
    exact ih hsound.symbols (SourceFile.assemble_offset_le hs hle file)

/-- The report has the diagnostics of the files in order. -/
theorem foldl_diagnostics (files : List SourceFile) (state : LinkState) :
    (files.foldl assemble state).report.diagnostics.toList =
      state.report.diagnostics.toList ++
        (SourceFile.results state.session files).flatMap fun r => r.diagnostics.toList := by
  induction files generalizing state with
  | nil => simp [SourceFile.results]
  | cons file files ih =>
    rw [List.foldl_cons, ih, SourceFile.results, List.flatMap_cons, ← List.append_assoc]
    simp [assemble]

theorem foldl_rejected (files : List SourceFile) (state : LinkState) :
    (files.foldl assemble state).rejected =
      (state.rejected || (SourceFile.results state.session files).any fun r => !r.accepted) := by
  induction files generalizing state with
  | nil => simp [SourceFile.results]
  | cons file files ih =>
    rw [List.foldl_cons, ih, SourceFile.results, List.any_cons, ← Bool.or_assoc]
    rfl

/-- The result of a file is that of its assembly behind the files in front of it. -/
theorem results_append_cons (before : List SourceFile) (file : SourceFile)
    (after : List SourceFile) (state : LinkState) :
    (SourceFile.results state.session (before ++ file :: after))[before.length]? =
      some (file.assemble (before.foldl assemble state).session) := by
  induction before generalizing state with
  | nil => rfl
  | cons first before ih =>
    rw [List.cons_append, SourceFile.results, List.length_cons, List.getElem?_cons_succ,
      List.foldl_cons]
    exact ih (state.assemble first)

/-- There are as many errors as rejected files. -/
theorem countP_results {s : Session} (hs : s.symbols.WellFormed) (hle : s.offset ≤ 65535)
    (files : List SourceFile) :
    ((SourceFile.results s files).flatMap fun r => r.diagnostics.toList).countP
        Diagnostic.isError =
      (SourceFile.results s files).countP fun r => !r.accepted := by
  induction files generalizing s with
  | nil => rfl
  | cons file files ih =>
    have hsound : (file.assemble s).session.Sound s.registry := file.assemble_sound ⟨rfl, hs⟩
    rw [SourceFile.results, List.flatMap_cons, List.countP_append, List.countP_cons,
      ih hsound.symbols (SourceFile.assemble_offset_le hs hle file),
      SourceFile.countP_isError hle, Nat.add_comm]
    cases (file.assemble s).accepted <;> rfl

end LinkState

/-- The verdict of a link is that of its report: there is a program exactly when there is no error,
and otherwise as many errors as rejected files. The report goes through the files in order. Each
file has its warnings first, those of the lines that discovery gets through, and then an error if it
is rejected. -/
theorem link_report (registry : Registry) (files : List SourceFile) :
    let results := SourceFile.results (start registry) files
    let report := (link registry files).report
    let rejections := results.countP fun r => !r.accepted
    ((∃ p, (link registry files).outcome = .ok p) ↔
      ∀ d ∈ report.diagnostics, d.severity ≠ .error) ∧
    report.diagnostics.errorCount = rejections ∧
    (∀ e, (link registry files).outcome = .error e →
      e.message report = "assembly failed with " ++ Text.decimal rejections ++ " errors") ∧
    report.diagnostics.toList = results.flatMap (fun r => r.diagnostics.toList) ∧
    ∀ before file after, files = before ++ file :: after →
      let s := (before.foldl LinkState.assemble (.start registry)).session
      let told := SourceLine.allWarnings file.path s.registers (file.reached s)
      let result := file.assemble s
      results[before.length]? = some result ∧
      file.reached s <+: SourceLine.ofText file.text ∧
      (∀ d ∈ told, d.severity = .warning) ∧
      (result.accepted = true → result.diagnostics.toList = told ∧
        file.reached s = SourceLine.ofText file.text) ∧
      (result.accepted = false → ∃ e, result.diagnostics.toList = told ++ [e] ∧
        e.severity = .error ∧ e.path = file.path) := by
  intro results report rejections
  have hsymbols : (start registry).symbols.WellFormed := HashTable.empty_wellFormed
  have hle : (start registry).offset ≤ 65535 := by
    show Header.size ≤ 65535
    decide
  have hdiagnostics : report.diagnostics.toList = results.flatMap fun r => r.diagnostics.toList :=
    LinkState.foldl_diagnostics files (.start registry)
  have hcount : report.diagnostics.errorCount = rejections := by
    rw [Diagnostics.errorCount, ← Array.countP_toList, hdiagnostics]
    exact LinkState.countP_results hsymbols hle files
  refine ⟨?_, hcount, fun e he => ?_, hdiagnostics, ?_⟩
  · have herrors : (∀ d ∈ report.diagnostics, d.severity ≠ .error) ↔ rejections = 0 := by
      rw [← hcount, Diagnostics.errorCount, Array.countP_eq_zero]
      simp [Diagnostic.isError]
    have hrejected := LinkState.foldl_rejected files (.start registry)
    rw [herrors, List.countP_eq_zero]
    simp only [link_eq_ok_iff, exists_and_left, exists_eq', and_true, hrejected]
    exact List.any_eq_false
  · obtain ⟨-, rfl⟩ := link_eq_error_iff.1 he
    exact congrArg (fun n => "assembly failed with " ++ Text.decimal n ++ " errors") hcount
  · rintro before file after rfl s told result
    have hs : s.offset ≤ 65535 := LinkState.foldl_offset_le hsymbols hle
    have hresult := LinkState.results_append_cons before file after (.start registry)
    have htold := SourceFile.assemble_diagnostics hs file
    refine ⟨hresult, Pass.reached_prefix, fun d hd => ?_, htold⟩
    exact SourceLine.severity_of_mem_allWarnings hd

/-- Warnings of an accepted file, and of a file that only the link pass rejects. -/
theorem link_report_two_files :
    let first : SourceFile := ⟨"a.asm", ".friday_asm 2\n.registers 9\n"⟩
    let second : SourceFile := ⟨"b.asm", ".registers 4\njmp nowhere\n"⟩
    let result := link Registry.standard [first, second]
    let s := (LinkState.assemble (.start Registry.standard) first).session
    result.outcome = .error .failed ∧ result.report.diagnostics.errorCount = 1 ∧
    LinkError.failed.message result.report = "assembly failed with 1 errors" ∧
    result.report.diagnostics.toList.map Diagnostic.kind =
      [.versionMismatch, .registerCountClamped, .registersDirective, .registersDirective,
        .unresolvedLabel] ∧
    (second.assemble s).accepted = false ∧
    ∃ e, (second.assemble s).diagnostics.toList =
        SourceLine.allWarnings second.path s.registers (second.reached s) ++ [e] ∧
      e.severity = .error ∧ e.path = "b.asm" := by
  intro first second result s
  have hrun : ([first, second].foldl LinkState.assemble (.start Registry.standard)).rejected =
        true ∧
      result.report.diagnostics.toList.map Diagnostic.kind =
        [.versionMismatch, .registerCountClamped, .registersDirective, .registersDirective,
          .unresolvedLabel] ∧
      (second.assemble s).accepted = false := by decide +kernel
  obtain ⟨hrejected, hkinds, hsecond⟩ := hrun
  have hfailed : result.outcome = .error .failed := link_eq_error_iff.2 ⟨hrejected, rfl⟩
  obtain ⟨-, hcount, hmessage, -, hfiles⟩ := link_report Registry.standard [first, second]
  have hone : (SourceFile.results (start Registry.standard) [first, second]).countP
      (fun r => !r.accepted) = 1 := by decide +kernel
  rw [hone] at hcount hmessage
  obtain ⟨-, -, -, -, herror⟩ := hfiles [first] second [] rfl
  exact ⟨hfailed, hcount, (hmessage _ hfailed).trans (by decide), hkinds, hsecond,
    herror hsecond⟩

end StackMachine.Assembly
