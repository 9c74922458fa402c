import StackMachine.Instruction.Standard
import StackMachine.Proofs.Assembly.Progress

/-!
# Rejected files

A file that is rejected cannot be told from one that was never assembled. It may leave tombstones in
the symbol table, or a table that has grown; no later operation tells them from vacant slots.

* `Act.run_alike`, `Act.runAll_alike`: an act, and a pass, ends the same way on alike sessions, and
  leaves alike sessions.
* `assemble_alike`, `results_alike`: so does the assembly of a file, and of any files one after the
  other.
* `rejected_file_invisible`: after a rejected file, image, registers and labels are as before, and
  whatever files come next have the results that they have without it.
-/

namespace StackMachine.Assembly

open Session

/-- Progresses that are told apart by the slots of their symbol tables at most. -/
structure Progress.Alike (p q : Progress) : Prop where
  session : p.session.Alike q.session
  defined : p.defined = q.defined
  diagnostics : p.diagnostics = q.diagnostics

variable {registry : Registry} {s t : Session} {pass : Pass} {path : String} {line : Nat}

/-! ## Acts -/

theorem Progress.Alike.warned {p q : Progress} (h : p.Alike q) (kind : DiagnosticKind) (span : Span)
    (message : String) :
    (p.warned pass path line kind span message).Alike
      (q.warned pass path line kind span message) := by
  cases pass with
  | discovery => exact { h with diagnostics := by simp only [Progress.warned, h.diagnostics] }
  | link => exact h

theorem Progress.Alike.withSession {p q : Progress} (h : p.Alike q) {s t : Session}
    (hs : s.Alike t) : Alike { p with session := s } { q with session := t } :=
  { h with session := hs }

namespace Act

/-- An act ends the same way on alike sessions. -/
theorem run_alike (pass : Pass) (path : String) (line : Nat) {p q : Progress} (h : p.Alike q)
    (act : Act) :
    (act.run pass path line p).1 = (act.run pass path line q).1 ∧
      (act.run pass path line p).2.Alike (act.run pass path line q).2 := by
  cases act with
  | refuse error span => exact ⟨rfl, h⟩
  | label name span =>
    cases pass with
    | discovery =>
      obtain ⟨hresult, hsession⟩ := h.session.define name
      simp only [run]
      cases hp : p.session.define name with
      | mk result session =>
        cases hq : q.session.define name with
        | mk result' session' =>
          rw [hp, hq] at hresult hsession
          cases hresult
          cases result with
          | ok offset =>
            exact ⟨rfl, hsession, congrArg (·.push name) h.defined, h.diagnostics⟩
          | error e => exact ⟨rfl, h.withSession hsession⟩
    | link =>
      simp only [run, h.session.confirm name]
      cases q.session.confirm name <;> exact ⟨rfl, h⟩
  | version number span => exact ⟨rfl, h.warned ..⟩
  | registers requested span =>
    have hrequest := h.withSession (h.session.requestRegisters requested)
    have hcount : (p.session.requestRegisters requested).registers =
      (q.session.requestRegisters requested).registers := hrequest.session.registers
    simp only [run, hcount]
    refine ⟨trivial, ?_⟩
    split
    · exact (hrequest.warned ..).warned ..
    · exact hrequest.warned ..
  | instruction mnemonic operands span =>
    simp only [run, h.session.encode]
    split
    · exact ⟨rfl, h.withSession (h.session.append _)⟩
    · exact ⟨rfl, h⟩
  | bound span =>
    simp only [run, h.session.checkedOffset]
    cases q.session.checkedOffset <;> exact ⟨rfl, h⟩

/-- A pass ends the same way on alike sessions. -/
theorem runAll_alike (pass : Pass) (path : String) {p q : Progress} (h : p.Alike q)
    (acts : List (Nat × Act)) :
    (runAll pass path acts p).1 = (runAll pass path acts q).1 ∧
      (runAll pass path acts p).2.Alike (runAll pass path acts q).2 := by
  induction acts generalizing p q with
  | nil => exact ⟨rfl, h⟩
  | cons head acts ih =>
    obtain ⟨line, act⟩ := head
    obtain ⟨hend, hnext⟩ := run_alike pass path line h act
    rw [runAll, runAll]
    cases hp : act.run pass path line p with
    | mk outcome p' =>
      cases hq : act.run pass path line q with
      | mk outcome' q' =>
        rw [hp, hq] at hend hnext
        cases hend
        cases outcome with
        | none => exact ih hnext
        | some located => exact ⟨rfl, hnext⟩

end Act

theorem Pass.lines_alike (pass : Pass) (path : String) {p q : Progress} (h : p.Alike q)
    (sources : List SourceLine) :
    (pass.lines path sources p).1 = (pass.lines path sources q).1 ∧
      (pass.lines path sources p).2.Alike (pass.lines path sources q).2 := by
  rw [Pass.lines_eq_runAll, Pass.lines_eq_runAll]
  exact Act.runAll_alike pass path h _

/-! ## Files -/

/-- Results that are told apart by the slots of symbol tables at most. -/
structure FileResult.Alike (r r' : FileResult) : Prop where
  session : r.session.Alike r'.session
  accepted : r.accepted = r'.accepted
  diagnostics : r.diagnostics = r'.diagnostics

namespace SourceFile

theorem reject_alike {p q : Progress} (h : p.Alike q) (point : Checkpoint) (line : Nat)
    (located : Located) :
    (reject path point line located p).Alike (reject path point line located q) := by
  refine ⟨?_, rfl, ?_⟩
  · rw [reject, reject, h.defined]
    exact h.session.rollback point _
  · rw [reject, reject, h.diagnostics]

/-- The assembly of a file has the same result from alike sessions. -/
theorem assemble_alike (h : s.Alike t) (file : SourceFile) :
    (file.assemble s).Alike (file.assemble t) := by
  obtain ⟨hend, hdiscovery⟩ := Pass.lines_alike .discovery file.path
    (p := ⟨s, #[], #[]⟩) (q := ⟨t, #[], #[]⟩) ⟨h, rfl, rfl⟩ (SourceLine.ofText file.text)
  unfold assemble
  simp only [h.checkpoint]
  cases hs : Pass.discovery.lines file.path (SourceLine.ofText file.text) ⟨s, #[], #[]⟩ with
  | mk outcome d =>
    cases ht : Pass.discovery.lines file.path (SourceLine.ofText file.text) ⟨t, #[], #[]⟩ with
    | mk outcome' d' =>
      rw [hs, ht] at hend hdiscovery
      cases hend
      cases outcome with
      | some located => exact reject_alike hdiscovery ..
      | none =>
        dsimp only
        have htruncated := hdiscovery.withSession
          (hdiscovery.session.truncate t.checkpoint.offset)
        obtain ⟨hend, hlink⟩ := Pass.lines_alike .link file.path htruncated
          (SourceLine.ofText file.text)
        generalize Pass.link.lines file.path (SourceLine.ofText file.text)
          { d with session := d.session.truncate t.checkpoint.offset } = x at hend hlink
        generalize Pass.link.lines file.path (SourceLine.ofText file.text)
          { d' with session := d'.session.truncate t.checkpoint.offset } = y at hend hlink
        obtain ⟨outcome, q⟩ := x
        obtain ⟨outcome', q'⟩ := y
        cases hend
        cases outcome with
        | some located => exact reject_alike hlink ..
        | none => exact ⟨hlink.session, rfl, hlink.diagnostics⟩

/-- The results of files that are assembled one after the other. -/
def results (s : Session) : List SourceFile → List FileResult
  | [] => []
  | file :: rest => file.assemble s :: results (file.assemble s).session rest

theorem results_alike (h : s.Alike t) (files : List SourceFile) :
    List.Forall₂ FileResult.Alike (results s files) (results t files) := by
  induction files generalizing s t with
  | nil => exact .nil
  | cons file files ih =>
    have hfile := assemble_alike h file
    exact .cons hfile (ih hfile.session)

theorem assemble_rejected (hs : s.symbols.WellFormed) {file : SourceFile}
    (h : (file.assemble s).accepted = false) : (file.assemble s).session.Alike s := by
  rcases file.assemble_cases hs with ⟨number, located, p, hp, heq⟩ | ⟨d, q, -, -, -, -, heq⟩
  · rw [heq]
    exact rollback_alike hs hp
  · rw [heq] at h
    cases h

/-- What a caller can see of the result of a file: the verdict, the diagnostics, the image, the
registers and the labels. -/
structure SameResult (r r' : FileResult) : Prop where
  accepted : r.accepted = r'.accepted
  diagnostics : r.diagnostics = r'.diagnostics
  image : r.session.image = r'.session.image
  registers : r.session.registers = r'.session.registers
  label : ∀ name, r.session.label? name = r'.session.label? name

/-- A rejected file is invisible: image, registers and labels are as before, and the files behind it
have the same results as without it. -/
theorem rejected_file_invisible (hs : Reachable registry s) (file : SourceFile)
    (h : (file.assemble s).accepted = false) :
    (file.assemble s).session.image = s.image ∧
    (file.assemble s).session.registers = s.registers ∧
    (∀ name, (file.assemble s).session.label? name = s.label? name) ∧
    ∀ files, List.Forall₂ SameResult (results (file.assemble s).session files)
      (results s files) := by
  have halike := assemble_rejected hs.sound.symbols h
  refine ⟨halike.image, halike.registers, halike.label, fun files => ?_⟩
  refine (results_alike halike files).imp fun r r' hr => ?_
  exact ⟨hr.accepted, hr.diagnostics, hr.session.image, hr.session.registers, hr.session.label⟩

/-- A file that fails in the link pass, behind a new label and a request for registers. -/
theorem rejected_file_invisible_unresolved :
    let s := (assemble (start Registry.standard) ⟨"a.asm", "a: push r3\n"⟩).session
    let file : SourceFile := ⟨"b.asm", "b: .registers 8\npush r7\njmp c\n"⟩
    (file.assemble s).accepted = false ∧
    (file.assemble s).session.image = s.image ∧
    (file.assemble s).session.label? "b" = s.label? "b" ∧
    ∀ files, List.Forall₂ SameResult (results (file.assemble s).session files)
      (results s files) := by
  intro s file
  have h : (file.assemble s).accepted = false := by decide +kernel
  obtain ⟨himage, -, hlabel, hresults⟩ :=
    rejected_file_invisible (.assemble _ .start) file h
  exact ⟨h, himage, hlabel "b", hresults⟩

end SourceFile

end StackMachine.Assembly
