import StackMachine.Proofs.Assembly.Act
import StackMachine.Proofs.Assembly.InPlace

/-!
# Sealing a session in place

A session in place has the number of registers twice, and nothing but its operations keeps the byte
in the header and the number in the settings the same. They do: whatever operations have been
carried out, also those that failed, they have come to the same as on a session whose header is made
from its settings. So the header is in order, and the image can be sealed.

* `InPlaceSession.assemble`: the assembly of a file in place.
* `SourceFile.assemble_inPlace`: it does what the assembly of the file does to the session.
* `InPlaceSession.Reachable`: the sessions in place that operations lead to.
* `InPlaceSession.Reachable.sealable`: all of them have a header in order, and can be sealed.
-/

namespace StackMachine.Assembly

/-! ## Assembly in place -/

/-- What the passes over a file have done so far, to a session in place. -/
structure InPlaceProgress where
  session : InPlaceSession
  /-- The labels that this file has defined. -/
  defined : Array String
  diagnostics : Diagnostics

/-- The progress with a warning told, in the discovery pass. -/
def InPlaceProgress.warned (pass : Pass) (path : String) (line : Nat) (kind : DiagnosticKind)
    (span : Span) (message : String) (p : InPlaceProgress) : InPlaceProgress :=
  match pass with
  | .discovery =>
    { p with diagnostics := p.diagnostics.push (.ofKind kind path line span message) }
  | .link => p

namespace Act

/-- Carry out an act in place. -/
def runInPlace (pass : Pass) (path : String) (line : Nat) :
    Act → InPlaceProgress → Option Located × InPlaceProgress
  | refuse error span, p => (some ⟨error, span⟩, p)
  | label name span, p =>
    match pass with
    | .discovery =>
      match p.session.define name with
      | (.ok _, session) => (none, { p with session, defined := p.defined.push name })
      | (.error e, session) => (some ⟨e, span⟩, { p with session })
    | .link =>
      match p.session.confirm name with
      | .ok () => (none, p)
      | .error e => (some ⟨e, span⟩, p)
  | version number span, p =>
    (none, p.warned pass path line .versionMismatch span (Pass.versionMessage number))
  | registers requested span, p =>
    let p := { p with session := p.session.requestRegisters requested }
    let message := Pass.clampMessage requested p.session.registers.count
    let p :=
      if RegisterSettings.isClamped requested then
        p.warned pass path line .registerCountClamped span message
      else p
    (none, p.warned pass path line .registersDirective span Pass.registersMessage)
  | instruction mnemonic operands span, p =>
    match p.session.encode (pass == .link) mnemonic (operands.map Token.text) with
    | (.ok (), session) => (none, { p with session })
    | (.error e, session) => (some ⟨e.error, faultSpan operands span e⟩, { p with session })
  | bound span, p =>
    match p.session.checkedOffset with
    | .ok _ => (none, p)
    | .error e => (some ⟨e, span⟩, p)

/-- Carry out acts in place in order, up to the first that fails. -/
def runAllInPlace (pass : Pass) (path : String) :
    List (Nat × Act) → InPlaceProgress → Option (Nat × Located) × InPlaceProgress
  | [], p => (none, p)
  | (line, act) :: rest, p =>
    match act.runInPlace pass path line p with
    | (none, p) => runAllInPlace pass path rest p
    | (some located, p) => (some (line, located), p)

end Act

/-- The result of the assembly of a file in place. -/
structure InPlaceResult where
  session : InPlaceSession
  accepted : Bool
  diagnostics : Diagnostics

namespace InPlaceSession

/-- Undo a file that has an error, and tell the error behind the warnings. -/
def reject (path : String) (point : InPlaceCheckpoint) (line : Nat) (located : Located)
    (progress : InPlaceProgress) : InPlaceResult where
  session := progress.session.rollback point progress.defined.toList
  accepted := false
  diagnostics := progress.diagnostics.push
    (.ofKind located.error.kind path line located.span located.error.message)

/-- Assemble a file in two passes. -/
def assemble (session : InPlaceSession) (file : SourceFile) : InPlaceResult :=
  let acts := SourceLine.numberedActs (SourceLine.ofText file.text)
  let point := session.checkpoint
  match Act.runAllInPlace .discovery file.path acts ⟨session, #[], #[]⟩ with
  | (some (number, located), progress) => reject file.path point number located progress
  | (none, progress) =>
    let progress := { progress with session := progress.session.truncate point.offset }
    match Act.runAllInPlace .link file.path acts progress with
    | (some (number, located), progress) => reject file.path point number located progress
    | (none, progress) => ⟨progress.session, true, progress.diagnostics⟩

end InPlaceSession

/-! ## Assembly does in place what it does to a session -/

/-- The progress with its session as it is in place. -/
def Progress.inPlace (p : Progress) : InPlaceProgress :=
  ⟨p.session.inPlace, p.defined, p.diagnostics⟩

/-- The result with its session as it is in place. -/
def FileResult.inPlace (result : FileResult) : InPlaceResult :=
  ⟨result.session.inPlace, result.accepted, result.diagnostics⟩

@[simp]
theorem Progress.inPlace_session (p : Progress) : p.inPlace.session = p.session.inPlace := rfl

section

variable {pass : Pass} {path : String} {line : Nat}

theorem Progress.warned_inPlace (kind : DiagnosticKind) (span : Span) (message : String)
    (p : Progress) :
    p.inPlace.warned pass path line kind span message =
      (p.warned pass path line kind span message).inPlace := by
  cases pass <;> rfl

namespace Act

theorem runInPlace_inPlace (act : Act) (p : Progress) :
    act.runInPlace pass path line p.inPlace =
      ((act.run pass path line p).1, (act.run pass path line p).2.inPlace) := by
  cases act with
  | refuse error span => rfl
  | label name span =>
    simp only [runInPlace, run, Progress.inPlace_session]
    cases pass with
    | discovery =>
      simp only [Session.define_inPlace]
      rcases p.session.define name with ⟨_ | _, session⟩ <;> rfl
    | link =>
      simp only [Session.confirm_inPlace]
      cases p.session.confirm name <;> rfl
  | version number span =>
    simp only [runInPlace, run, Progress.warned_inPlace]
  | registers requested span =>
    simp only [runInPlace, run, Progress.inPlace_session, Session.requestRegisters_inPlace]
    cases pass <;> split <;> rfl
  | instruction mnemonic operands span =>
    simp only [runInPlace, run, Progress.inPlace_session, Session.encode_inPlace]
    cases p.session.encode (pass == .link) mnemonic (operands.map Token.text) <;> rfl
  | bound span =>
    simp only [runInPlace, run, Progress.inPlace_session, Session.checkedOffset_inPlace]
    cases p.session.checkedOffset <;> rfl

theorem runAllInPlace_inPlace (acts : List (Nat × Act)) (p : Progress) :
    runAllInPlace pass path acts p.inPlace =
      ((runAll pass path acts p).1, (runAll pass path acts p).2.inPlace) := by
  induction acts generalizing p with
  | nil => rfl
  | cons head acts ih =>
    obtain ⟨line, act⟩ := head
    rw [runAllInPlace, runAll, runInPlace_inPlace]
    rcases act.run pass path line p with ⟨_ | located, p⟩
    · exact ih p
    · rfl

end Act

end

theorem SourceFile.assemble_inPlace (s : Session) (file : SourceFile) :
    s.inPlace.assemble file = (file.assemble s).inPlace := by
  have hreject (number : Nat) (located : Located) (p : Progress) :
      InPlaceSession.reject file.path s.inPlace.checkpoint number located p.inPlace =
        (reject file.path s.checkpoint number located p).inPlace := by
    rw [InPlaceSession.reject, Progress.inPlace_session, Session.rollback_inPlace]
    rfl
  have htruncate (p : Progress) : { p.inPlace with
      session := p.inPlace.session.truncate s.inPlace.checkpoint.offset } =
      Progress.inPlace { p with session := p.session.truncate s.checkpoint.offset } := by
    rw [Progress.inPlace_session, Session.checkpoint_inPlace, Session.truncate_inPlace]
    rfl
  have hstart : InPlaceProgress.mk s.inPlace #[] #[] = Progress.inPlace ⟨s, #[], #[]⟩ := rfl
  simp only [InPlaceSession.assemble, assemble, Pass.lines_eq_runAll, hstart,
    Act.runAllInPlace_inPlace]
  rcases Act.runAll .discovery file.path _ ⟨s, #[], #[]⟩ with ⟨_ | ⟨number, located⟩, p⟩
  · dsimp only
    rw [htruncate, Act.runAllInPlace_inPlace]
    rcases Act.runAll .link file.path _ _ with ⟨_ | ⟨number, located⟩, q⟩
    · rfl
    · exact hreject number located q
  · exact hreject number located p

/-! ## Sessions in place that operations lead to -/

namespace InPlaceSession

/-- The sessions in place that operations lead to, also by operations that fail. -/
inductive Reachable : InPlaceSession → Prop
  | start (registry : Registry) : Reachable (start registry)
  | writeHeader {s : InPlaceSession} : Reachable s → Reachable s.writeHeader
  | encode {s : InPlaceSession} (resolving : Bool) (mnemonic : String) (tokens : List String) :
      Reachable s → Reachable (s.encode resolving mnemonic tokens).2
  | emit {s : InPlaceSession} (mnemonic : String) (operands : List Operand) :
      Reachable s → Reachable (s.emit mnemonic operands).2
  | define {s : InPlaceSession} (name : String) : Reachable s → Reachable (s.define name).2
  | forget {s : InPlaceSession} (name : String) : Reachable s → Reachable (s.forget name).2
  | truncate {s : InPlaceSession} (offset : Nat) : Reachable s → Reachable (s.truncate offset)
  | requestRegisters {s : InPlaceSession} (requested : Int) :
      Reachable s → Reachable (s.requestRegisters requested)
  | rollback {s point : InPlaceSession} (labels : List String) :
      Reachable s → Reachable point → Reachable (s.rollback point.checkpoint labels)
  | assemble {s : InPlaceSession} (file : SourceFile) :
      Reachable s → Reachable (s.assemble file).session

/-- A session in place that operations lead to is a session as it is in place: each operation comes
to the same as the operation on the session. -/
theorem Reachable.exists_session {s : InPlaceSession} (h : s.Reachable) :
    ∃ t : Session, t.inPlace = s := by
  induction h with
  | start registry => exact ⟨.start registry, (Session.start_inPlace registry).symm⟩
  | writeHeader _ ih =>
    obtain ⟨t, rfl⟩ := ih
    exact ⟨t.clearCode, t.writeHeader_inPlace.symm⟩
  | encode resolving mnemonic tokens _ ih =>
    obtain ⟨t, rfl⟩ := ih
    rw [Session.encode_inPlace]
    split
    · exact ⟨_, rfl⟩
    · exact ⟨t, rfl⟩
  | emit mnemonic operands _ ih =>
    obtain ⟨t, rfl⟩ := ih
    rw [Session.emit_inPlace]
    split
    · exact ⟨_, rfl⟩
    · exact ⟨t, rfl⟩
  | define name _ ih =>
    obtain ⟨t, rfl⟩ := ih
    rw [Session.define_inPlace]
    exact ⟨_, rfl⟩
  | forget name _ ih =>
    obtain ⟨t, rfl⟩ := ih
    rw [Session.forget_inPlace]
    exact ⟨_, rfl⟩
  | truncate offset _ ih =>
    obtain ⟨t, rfl⟩ := ih
    exact ⟨_, (t.truncate_inPlace offset).symm⟩
  | requestRegisters requested _ ih =>
    obtain ⟨t, rfl⟩ := ih
    exact ⟨_, (t.requestRegisters_inPlace requested).symm⟩
  | rollback labels _ _ ih ihpoint =>
    obtain ⟨t, rfl⟩ := ih
    obtain ⟨point, rfl⟩ := ihpoint
    exact ⟨_, (t.rollback_inPlace point labels).symm⟩
  | assemble file _ ih =>
    obtain ⟨t, rfl⟩ := ih
    rw [SourceFile.assemble_inPlace]
    exact ⟨_, rfl⟩

end InPlaceSession

/-- A session that operations lead to is in place where the same operations in place lead to. -/
theorem Session.Reachable.inPlace {registry : Registry} {s : Session}
    (h : Session.Reachable registry s) : s.inPlace.Reachable := by
  induction h with
  | start =>
    rw [← Session.start_inPlace]
    exact .start registry
  | clearCode _ ih =>
    rw [← Session.writeHeader_inPlace]
    exact ih.writeHeader
  | @encode s resolving mnemonic tokens bytes _ hencode ih =>
    have hnext := ih.encode resolving mnemonic tokens
    rwa [Session.encode_inPlace, hencode] at hnext
  | @emit s mnemonic operands bytes _ hbytes ih =>
    have hnext := ih.emit mnemonic operands
    rwa [Session.emit_inPlace, hbytes] at hnext
  | define name _ ih =>
    have hnext := ih.define name
    rwa [Session.define_inPlace] at hnext
  | @forget s s' name _ hforget ih =>
    have hnext := ih.forget name
    rwa [Session.forget_inPlace, hforget] at hnext
  | truncate offset _ ih =>
    rw [← Session.truncate_inPlace]
    exact ih.truncate offset
  | requestRegisters requested _ ih =>
    rw [← Session.requestRegisters_inPlace]
    exact ih.requestRegisters requested
  | rollback labels _ _ ih ihpoint =>
    rw [← Session.rollback_inPlace]
    exact ih.rollback labels ihpoint
  | @assemble s file _ ih =>
    have hnext := ih.assemble file
    rwa [SourceFile.assemble_inPlace] at hnext

/-! ## The header of an image -/

theorem Session.extract_image (s : Session) : s.image.extract 0 Header.size = s.header.toBytes := by
  rw [image, ← Header.size_toBytes s.header]
  simp

theorem Session.toBytes_header (s : Session) :
    s.header.toBytes = #[0x46, 0x52, 0x44, 0x59, 1, 0, s.registers.count, 0] := by
  simp [header, Header.withRegisters, Header.toBytes, Header.expectedMagic, Header.expectedVersion]

/-- Whatever operations have been carried out on a session in place, its image begins with a header
that is in order and has the number of registers in force, so it can be sealed; the program has this
number of registers, and what is behind the header for its code. -/
theorem InPlaceSession.Reachable.sealable {s : InPlaceSession} (h : s.Reachable) :
    8 ≤ s.image.size ∧
    s.image.extract 0 8 = #[0x46, 0x52, 0x44, 0x59, 1, 0, s.registers.count, 0] ∧
    s.registers.count ≤ 8 ∧
    ∃ t : Session, t.inPlace = s ∧ s.finish = .ok t.finish ∧
      t.finish.registerCount = s.registers.count ∧
      t.finish.code = s.image.extract 8 s.image.size := by
  obtain ⟨t, rfl⟩ := h.exists_session
  have hsize : t.inPlace.image.size = Header.size + t.code.size := t.inPlace_offset
  exact ⟨hsize ▸ Nat.le_add_right _ _, t.extract_image.trans t.toBytes_header,
    t.registers.count_le, t, rfl, t.finish_inPlace, rfl, rfl⟩

/-- A rejected file, a cut below the header, and then a checkpoint of a session that has asked for
more registers and has more code. -/
theorem InPlaceSession.Reachable.sealable_taken_back :
    let late := ((InPlaceSession.start .standard).requestRegisters 9).encode false "push" ["r7"]
    let rejected := (InPlaceSession.start .standard).assemble ⟨"a.asm", ".registers 2\njmp a"⟩
    let s := (rejected.session.truncate 3).rollback late.2.checkpoint ["a"]
    late.2.image.size = 10 ∧ rejected.accepted = false ∧ s.Reachable ∧
    s.image = #[0x46, 0x52, 0x44, 0x59, 1, 0, 8, 0] ∧
    ∃ t : Session, s.finish = .ok t.finish ∧ t.finish.registerCount = 8 ∧ t.finish.code = #[] := by
  intro late rejected s
  have hs : s.Reachable :=
    (((Reachable.start .standard).assemble _).truncate 3).rollback ["a"]
      (((Reachable.start .standard).requestRegisters 9).encode false "push" ["r7"])
  have himage : s.image = #[0x46, 0x52, 0x44, 0x59, 1, 0, 8, 0] := by decide +kernel
  have hregisters : s.registers.count = 8 := by decide +kernel
  obtain ⟨-, -, -, t, -, hfinish, hcount, hcode⟩ := hs.sealable
  rw [hregisters] at hcount
  rw [himage] at hcode
  exact ⟨by decide +kernel, by decide +kernel, hs, himage, t, hfinish, hcount, hcode⟩

end StackMachine.Assembly
