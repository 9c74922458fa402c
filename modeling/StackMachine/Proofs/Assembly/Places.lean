import StackMachine.Proofs.Assembly.Effect

/-!
# What assembly makes of places

Spans, the numbers of lines and the path of a file only serve to say where a diagnostic points.
Neither pass looks at them to decide anything: without them, and without the lines that are blank,
it does the same and says the same.

* `Diagnostic.unplaced`, `FileResult.unplaced`: what is said, wherever it points.
* `Act.run_unplaced`, `Act.runAll_unplaced`: acts without their places are carried out alike.
* `Pass.lines_congr`: lines that say the same have the same outcome in a pass, but for places.
* `SourceFile.assemble_unplaced_congr`: so have files.
-/

namespace StackMachine.Assembly

/-- The diagnostic, wherever it points. -/
def Diagnostic.unplaced (d : Diagnostic) : Diagnostic :=
  { d with path := "", line := 0, span := ⟨0, 0⟩ }

/-- The progress, wherever its diagnostics point. -/
def Progress.unplaced (p : Progress) : Progress :=
  { p with diagnostics := p.diagnostics.map Diagnostic.unplaced }

/-- The result of a file, wherever its diagnostics point. -/
def FileResult.unplaced (r : FileResult) : FileResult :=
  { r with diagnostics := r.diagnostics.map Diagnostic.unplaced }

/-- The error, wherever it was found. -/
def Located.unplaced (located : Located) : Located :=
  ⟨located.error, ⟨0, 0⟩⟩

/-- How some acts end, wherever they stand. -/
def unplacedOutcome (outcome : Option (Nat × Located) × Progress) :
    Option (Nat × Located) × Progress :=
  (outcome.1.map fun found => (0, found.2.unplaced), outcome.2.unplaced)

variable {pass : Pass} {path path' : String} {lines lines' : List SourceLine} {p q : Progress}

theorem Diagnostic.unplaced_ofKind (kind : DiagnosticKind) (path : String) (line : Nat)
    (span : Span) (message : String) :
    (ofKind kind path line span message).unplaced = ofKind kind "" 0 ⟨0, 0⟩ message := rfl

theorem Progress.unplaced_push (p : Progress) (d : Diagnostic) :
    unplaced { p with diagnostics := p.diagnostics.push d } =
      { p.unplaced with diagnostics := p.unplaced.diagnostics.push d.unplaced } := by
  simp [unplaced]

theorem Progress.unplaced_warned (pass : Pass) (path : String) (line : Nat) (kind : DiagnosticKind)
    (span : Span) (message : String) (p : Progress) :
    (p.warned pass path line kind span message).unplaced =
      p.unplaced.warned pass "" 0 kind ⟨0, 0⟩ message := by
  cases pass with
  | discovery => exact p.unplaced_push _
  | link => rfl

/-! ## Acts -/

namespace Act

theorem faultSpan_unplaced (operands : List Token) (e : EncodeError) :
    faultSpan (operands.map Token.unplaced) ⟨0, 0⟩ e = ⟨0, 0⟩ := by
  unfold faultSpan
  cases e.operand with
  | none => rfl
  | some index =>
    rw [Option.bind_some, List.getElem?_map]
    cases operands[index]? <;> rfl

/-- An act that has lost its place does what it does at its place. -/
theorem run_unplaced (pass : Pass) (path : String) (line : Nat) (act : Act) (p : Progress) :
    act.unplaced.run pass "" 0 p.unplaced =
      ((act.run pass path line p).1.map Located.unplaced,
        (act.run pass path line p).2.unplaced) := by
  cases act with
  | refuse error span => rfl
  | label name span =>
    have hsession : p.unplaced.session = p.session := rfl
    cases pass with
    | discovery =>
      simp only [unplaced, run, hsession]
      cases p.session.define name with
      | mk result session => cases result <;> rfl
    | link =>
      simp only [unplaced, run, hsession]
      cases p.session.confirm name <;> rfl
  | version number span =>
    simp only [unplaced, run, Progress.unplaced_warned]
    rfl
  | registers requested span =>
    have hsession : p.unplaced.session = p.session := rfl
    have hrequest : { p.unplaced with session := p.session.requestRegisters requested } =
        Progress.unplaced { p with session := p.session.requestRegisters requested } := rfl
    simp only [unplaced, run, hsession, Progress.unplaced_warned, apply_ite Progress.unplaced,
      hrequest]
    rfl
  | instruction mnemonic operands span =>
    have hsession : p.unplaced.session = p.session := rfl
    have htexts : (operands.map Token.unplaced).map Token.text = operands.map Token.text := by
      rw [List.map_map]
      rfl
    simp only [unplaced, run, hsession, htexts, faultSpan_unplaced]
    cases p.session.encode (pass == .link) mnemonic (operands.map Token.text) <;> rfl
  | bound span =>
    have hsession : p.unplaced.session = p.session := rfl
    simp only [unplaced, run, hsession]
    cases p.session.checkedOffset <;> rfl

/-- Acts that have lost their places do what they do at their places. -/
theorem runAll_unplaced (pass : Pass) (path : String) (acts : List (Nat × Act)) (p : Progress) :
    runAll pass "" (acts.map fun act => (0, act.2.unplaced)) p.unplaced =
      unplacedOutcome (runAll pass path acts p) := by
  induction acts generalizing p with
  | nil => rfl
  | cons head acts ih =>
    obtain ⟨line, act⟩ := head
    rw [List.map_cons, runAll, runAll, run_unplaced pass path line]
    cases act.run pass path line p with
    | mk outcome p' =>
      cases outcome with
      | none => exact ih p'
      | some located => rfl

end Act

/-! ## Passes -/

theorem SourceLine.numberedActs_contents (lines : List SourceLine) :
    numberedActs (contents lines) =
      (numberedActs lines).map fun act => (0, act.2.unplaced) := by
  have hnumbers : numberedActs (contents lines) = ((contents lines).flatMap acts).map ((0, ·)) := by
    rw [numberedActs, List.map_flatMap]
    refine List.flatMap_congr fun line hline => ?_
    obtain ⟨original, -, rfl⟩ := List.mem_map.1 hline
    rfl
  rw [hnumbers, flatMap_acts_contents, numberedActs, List.map_map, List.map_flatMap,
    List.map_flatMap]
  refine List.flatMap_congr fun line _ => ?_
  rw [List.map_map]
  rfl

/-- A pass over lines ends as it does over what they say. -/
theorem Pass.lines_contents (pass : Pass) (path : String) (lines : List SourceLine)
    (p : Progress) :
    pass.lines "" (SourceLine.contents lines) p.unplaced =
      unplacedOutcome (pass.lines path lines p) := by
  rw [lines_eq_runAll, lines_eq_runAll, SourceLine.numberedActs_contents]
  exact Act.runAll_unplaced pass path _ p

/-- Lines that say the same have the same outcome in a pass, but for places. -/
theorem Pass.lines_congr (pass : Pass) (path path' : String)
    (h : SourceLine.contents lines = SourceLine.contents lines') (hp : p.unplaced = q.unplaced) :
    unplacedOutcome (pass.lines path lines p) = unplacedOutcome (pass.lines path' lines' q) := by
  rw [← Pass.lines_contents, ← Pass.lines_contents, h, hp]

/-- Outcomes that are the same but for places: both are errors, and the same ones, or neither is. -/
theorem unplacedOutcome_cases {outcome outcome' : Option (Nat × Located)}
    (h : unplacedOutcome (outcome, p) = unplacedOutcome (outcome', q)) :
    p.unplaced = q.unplaced ∧
      ((∃ number located number' located', outcome = some (number, located) ∧
        outcome' = some (number', located') ∧ located.error = located'.error) ∨
      (outcome = none ∧ outcome' = none)) := by
  obtain ⟨hend, hprogress⟩ := Prod.mk.inj h
  refine ⟨hprogress, ?_⟩
  match outcome, outcome', hend with
  | none, none, _ => exact .inr ⟨rfl, rfl⟩
  | some (number, located), some (number', located'), hend =>
    refine .inl ⟨number, located, number', located', rfl, rfl, ?_⟩
    simpa [Located.unplaced] using hend

/-! ## Files -/

namespace SourceFile

theorem reject_unplaced_congr {point : Checkpoint} {number number' : Nat}
    {located located' : Located} (hp : p.unplaced = q.unplaced)
    (herror : located.error = located'.error) :
    (reject path point number located p).unplaced =
      (reject path' point number' located' q).unplaced := by
  obtain ⟨hsession, hdefined, hdiagnostics⟩ := Progress.mk.inj hp
  simp only [reject, FileResult.unplaced, Array.map_push, Diagnostic.unplaced_ofKind, hsession,
    hdefined, hdiagnostics, herror]

/-- Files whose lines say the same have the same result, but for the places in their diagnostics. -/
theorem assemble_unplaced_congr (s : Session) {file file' : SourceFile}
    (h : SourceLine.contents (SourceLine.ofText file.text) =
      SourceLine.contents (SourceLine.ofText file'.text)) :
    (file.assemble s).unplaced = (file'.assemble s).unplaced := by
  have hdiscovery := Pass.lines_congr .discovery file.path file'.path (p := ⟨s, #[], #[]⟩) h rfl
  unfold assemble
  dsimp only
  generalize Pass.discovery.lines file.path (SourceLine.ofText file.text) ⟨s, #[], #[]⟩ = x
    at hdiscovery
  generalize Pass.discovery.lines file'.path (SourceLine.ofText file'.text) ⟨s, #[], #[]⟩ = y
    at hdiscovery
  obtain ⟨outcome, d⟩ := x
  obtain ⟨outcome', d'⟩ := y
  obtain ⟨hd, ⟨number, located, number', located', rfl, rfl, herror⟩ | ⟨rfl, rfl⟩⟩ :=
    unplacedOutcome_cases hdiscovery
  · exact reject_unplaced_congr hd herror
  dsimp only
  -- Behind discovery the code is cut at the same offset, so the link pass starts alike too.
  have hcut : Progress.unplaced { d with session := d.session.truncate s.checkpoint.offset } =
      Progress.unplaced { d' with session := d'.session.truncate s.checkpoint.offset } := by
    obtain ⟨hsession, hdefined, hdiagnostics⟩ := Progress.mk.inj hd
    simp only [Progress.unplaced, hsession, hdefined, hdiagnostics]
  have hlink := Pass.lines_congr .link file.path file'.path h hcut
  generalize Pass.link.lines file.path (SourceLine.ofText file.text)
    { d with session := d.session.truncate s.checkpoint.offset } = x at hlink
  generalize Pass.link.lines file'.path (SourceLine.ofText file'.text)
    { d' with session := d'.session.truncate s.checkpoint.offset } = y at hlink
  obtain ⟨outcome, q⟩ := x
  obtain ⟨outcome', q'⟩ := y
  obtain ⟨hq, ⟨number, located, number', located', rfl, rfl, herror⟩ | ⟨rfl, rfl⟩⟩ :=
    unplacedOutcome_cases hlink
  · exact reject_unplaced_congr hq herror
  · obtain ⟨hsession, -, hdiagnostics⟩ := Progress.mk.inj hq
    simp only [FileResult.unplaced, hsession, hdiagnostics]

end SourceFile

end StackMachine.Assembly
