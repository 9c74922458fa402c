import StackMachine.Proofs.Assembly.Session

/-!
# Lines as sequences of acts

What a pass does on a line is a sequence of elementary acts, and which acts these are is told from
the tokens of the line alone. Both passes over a file carry out the same acts, in the same order, on
different sessions; the first act that fails ends the pass. Statements about passes are proved act
by act.

* `SourceLine.acts`: the acts of a line.
* `Act.run`: what an act does in either pass.
* `lines_eq_runAll`: a pass over some lines carries out their acts one after the other.
-/

namespace StackMachine.Assembly

/-- An elementary act of a pass. -/
inductive Act where
  /-- Refuse the line for a mistake in its tokens. -/
  | refuse (error : AssemblyError) (span : Span)
  /-- Define a label, or look at it again. -/
  | label (name : String) (span : Span)
  /-- Warn of another version of the instruction set. -/
  | version (number : Int) (span : Span)
  /-- Ask for a number of registers. -/
  | registers (requested : Int) (span : Span)
  /-- Encode an instruction. -/
  | instruction (mnemonic : String) (operands : List Token) (span : Span)
  /-- Check that labels can reach the end of the line. -/
  | bound (span : Span)

/-! ## The acts of a line -/

namespace Act

/-- The definition of a label. -/
def ofLabel (token : Token) : Act :=
  let name := Pass.labelName token
  if name.isEmpty || Literal.startsWithDigit name then
    refuse (.syntaxError (.invalidLabelName token.text)) token.span
  else
    label name token.span

/-- What a directive asks for. -/
def ofDirective (name : String) (first : Token) (rest : List Token) : List Act :=
  match rest.find? fun token => token.kind == .comma with
  | some comma => [refuse (.syntaxError .commaInDirective) comma.span]
  | none =>
    match Directive.read name (rest.map Token.text) with
    | .error e => [refuse e (Token.spanOf first rest)]
    | .ok (.version none) => []
    | .ok (.version (some number)) =>
      if number = Header.expectedVersion.toNat then []
      else [version number (Token.spanOf first rest)]
    | .ok (.registers requested) => [registers requested (Token.spanOf first rest)]

/-- An instruction with its operands. -/
def ofInstruction (first : Token) (rest : List Token) : Act :=
  match operandTokens first.kind [] rest with
  | .error located => refuse located.error located.span
  | .ok operands => instruction first.text operands (Token.spanOf first rest)

/-- A directive or an instruction. -/
def ofStatement (first : Token) (rest : List Token) : List Act :=
  if first.kind = .comma then
    [refuse (.syntaxError .commaBeforeInstruction) first.span]
  else
    match first.text.toList with
    | '.' :: name => ofDirective (String.ofList name) first rest
    | _ => [ofInstruction first rest]

end Act

/-! A word with a point in front names a directive, and any other an instruction. -/

section

variable {first : Token} {rest : List Token} {name : List Char}

theorem Act.ofStatement_eq_directive (hcomma : first.kind ≠ .comma)
    (hname : first.text.toList = '.' :: name) :
    ofStatement first rest = ofDirective (String.ofList name) first rest := by
  rw [ofStatement, if_neg hcomma, hname]
  rfl

theorem Act.ofStatement_eq_instruction (hcomma : first.kind ≠ .comma)
    (hname : ∀ name, first.text.toList ≠ '.' :: name) :
    ofStatement first rest = [ofInstruction first rest] := by
  rw [ofStatement, if_neg hcomma]
  split
  · rename_i heq
    exact absurd heq (hname _)
  · rfl

theorem Pass.statement_eq_directive {pass : Pass} {path : String} {line : Nat}
    (hcomma : first.kind ≠ .comma) (hname : first.text.toList = '.' :: name) :
    pass.statement path line first rest =
      pass.directive path line (String.ofList name) first rest := by
  rw [statement, if_neg hcomma, hname]
  rfl

theorem Pass.statement_eq_instruction {pass : Pass} {path : String} {line : Nat}
    (hcomma : first.kind ≠ .comma) (hname : ∀ name, first.text.toList ≠ '.' :: name) :
    pass.statement path line first rest = pass.instruction first rest := by
  rw [statement, if_neg hcomma]
  split
  · rename_i heq
    exact absurd heq (hname _)
  · rfl

end

/-- The acts of a line. -/
def SourceLine.acts (line : SourceLine) : List Act :=
  match line.tokens with
  | [] => []
  | first :: rest =>
    match line.tokens.find? fun token => token.kind == .garbage with
    | some garbage => [.refuse (.syntaxError .unexpectedCharacters) garbage.span]
    | none =>
      if Pass.isLabel first then
        Act.ofLabel first ::
          (match rest with
          | [] => []
          | first :: rest => Act.ofStatement first rest) ++ [.bound line.span]
      else
        Act.ofStatement first rest ++ [.bound line.span]

/-- The acts of some lines, each with the number of its line. -/
def SourceLine.numberedActs (lines : List SourceLine) : List (Nat × Act) :=
  lines.flatMap fun line => line.acts.map (line.number, ·)

/-! ## Carrying out acts -/

/-- The progress with a warning told, in the discovery pass. -/
def Progress.warned (pass : Pass) (path : String) (line : Nat) (kind : DiagnosticKind) (span : Span)
    (message : String) (p : Progress) : Progress :=
  match pass with
  | .discovery =>
    { p with diagnostics := p.diagnostics.push (.ofKind kind path line span message) }
  | .link => p

theorem Progress.warned_session (pass : Pass) (path : String) (line : Nat) (kind : DiagnosticKind)
    (span : Span) (message : String) (p : Progress) :
    (p.warned pass path line kind span message).session = p.session := by
  cases pass <;> rfl

namespace Act

/-- The place of an error in an instruction: the operand at fault, if there is one. -/
def faultSpan (operands : List Token) (span : Span) (e : EncodeError) : Span :=
  match e.operand.bind (operands[·]?) with
  | some token => token.span
  | none => span

/-- Carry out an act. -/
def run (pass : Pass) (path : String) (line : Nat) : Act → Progress → Option Located × Progress
  | refuse error span, p => (some ⟨error, span⟩, p)
  | label name span, p =>
    match pass with
    | .discovery =>
      match p.session.define name with
      | (.ok _, session) => (none, { p with session, defined := p.defined.push name })
      | (.error e, session) => (some ⟨e, span⟩, { p with session })
    | .link =>
      match p.session.confirm name with
      | .ok () => (none, p)
      | .error e => (some ⟨e, span⟩, p)
  | version number span, p =>
    (none, p.warned pass path line .versionMismatch span (Pass.versionMessage number))
  | registers requested span, p =>
    let p := { p with session := p.session.requestRegisters requested }
    let message := Pass.clampMessage requested p.session.registers.count
    let p :=
      if RegisterSettings.isClamped requested then
        p.warned pass path line .registerCountClamped span message
      else p
    (none, p.warned pass path line .registersDirective span Pass.registersMessage)
  | instruction mnemonic operands span, p =>
    match p.session.encode (pass == .link) mnemonic (operands.map Token.text) with
    | .ok bytes => (none, { p with session := p.session.append bytes })
    | .error e => (some ⟨e.error, faultSpan operands span e⟩, p)
  | bound span, p =>
    match p.session.checkedOffset with
    | .ok _ => (none, p)
    | .error e => (some ⟨e, span⟩, p)

/-- Carry out acts in order, up to the first that fails. -/
def runAll (pass : Pass) (path : String) :
    List (Nat × Act) → Progress → Option (Nat × Located) × Progress
  | [], p => (none, p)
  | (line, act) :: rest, p =>
    match act.run pass path line p with
    | (none, p) => runAll pass path rest p
    | (some located, p) => (some (line, located), p)

variable {pass : Pass} {path : String} {line : Nat}

/-- A request does to the session what it says, in either pass; only its warnings differ. -/
theorem run_registers (pass : Pass) (path : String) (line : Nat) (requested : Int) (span : Span)
    (p : Progress) :
    ((registers requested span).run pass path line p).1 = none ∧
      ((registers requested span).run pass path line p).2.session =
        p.session.requestRegisters requested := by
  simp only [run]
  refine ⟨trivial, ?_⟩
  split
  · rw [Progress.warned_session, Progress.warned_session]
  · rw [Progress.warned_session]

theorem runAll_append (acts acts' : List (Nat × Act)) (p : Progress) :
    runAll pass path (acts ++ acts') p =
      match runAll pass path acts p with
      | (none, p) => runAll pass path acts' p
      | (some e, p) => (some e, p) := by
  induction acts generalizing p with
  | nil => rfl
  | cons head acts ih =>
    obtain ⟨line, act⟩ := head
    simp only [List.cons_append, runAll]
    split
    · exact ih _
    · rfl

end Act

/-! ## Passes carry out acts -/

/-- The outcome of a part of a pass on a line, in the form in which acts have one. -/
def PassAction.told (line : Nat) (x : PassAction Unit) (p : Progress) :
    Option (Nat × Located) × Progress :=
  match x.run p with
  | .ok () p => (none, p)
  | .error located p => (some (line, located), p)

section

open PassAction Act

variable {pass : Pass} {path : String} {line : Nat}

theorem told_bind (x y : PassAction Unit) (p : Progress) :
    told line (x >>= fun _ => y) p =
      match told line x p with
      | (none, p) => told line y p
      | (some e, p) => (some e, p) := by
  simp only [told, EStateM.run, bind, EStateM.bind]
  cases x p <;> rfl

theorem told_pure (p : Progress) : told line (pure ()) p = (none, p) := rfl

theorem told_modify (f : Progress → Progress) (p : Progress) :
    told line (modify f) p = (none, f p) := rfl

theorem told_get_bind (f : Progress → PassAction Unit) (p : Progress) :
    told line (get >>= f) p = told line (f p) p := rfl

theorem told_modifyGet_bind {α : Type} (g : Progress → α × Progress) (f : α → PassAction Unit)
    (p : Progress) : told line (modifyGet g >>= f) p = told line (f (g p).1) (g p).2 := rfl

theorem told_lift_bind {α : Type} (result : Except AssemblyError α) (span : Span)
    (f : α → PassAction Unit) (p : Progress) :
    told line (lift result span >>= f) p =
      match result with
      | .ok a => told line (f a) p
      | .error e => (some (line, ⟨e, span⟩), p) := by
  cases result <;> rfl

theorem told_lift (result : Except AssemblyError Unit) (span : Span) (p : Progress) :
    told line (lift result span) p =
      match result with
      | .ok _ => (none, p)
      | .error e => (some (line, ⟨e, span⟩), p) := by
  cases result <;> rfl

theorem told_warn (kind : DiagnosticKind) (span : Span) (message : String) (p : Progress) :
    told line (pass.warn path line kind span message) p =
      (none, p.warned pass path line kind span message) := by
  cases pass <;> rfl

theorem runAll_singleton (act : Act) (p : Progress) :
    runAll pass path [(line, act)] p =
      match act.run pass path line p with
      | (none, p) => (none, p)
      | (some located, p) => (some (line, located), p) := by
  rfl

theorem told_label (token : Token) (p : Progress) :
    told line (pass.label token) p = runAll pass path [(line, ofLabel token)] p := by
  unfold Pass.label ofLabel
  dsimp only
  split
  · rfl
  · rw [runAll_singleton]
    cases pass with
    | discovery =>
      simp only [told_modifyGet_bind, told_lift_bind, told_modify, Act.run]
      cases p.session.define (Pass.labelName token) with
      | mk result session => cases result <;> rfl
    | link =>
      simp only [told_get_bind, told_lift, Act.run]
      cases p.session.confirm (Pass.labelName token) <;> rfl

theorem told_directive (name : String) (first : Token) (rest : List Token) (p : Progress) :
    told line (pass.directive path line name first rest) p =
      runAll pass path ((ofDirective name first rest).map (line, ·)) p := by
  unfold Pass.directive ofDirective
  cases rest.find? fun token => token.kind == .comma with
  | some comma => rfl
  | none =>
    dsimp only
    rw [told_lift_bind]
    cases Directive.read name (rest.map Token.text) with
    | error e => rfl
    | ok directive =>
      match directive with
      | .version none => rfl
      | .version (some number) =>
        by_cases hnumber : number = Header.expectedVersion.toNat
        · simp only [hnumber, if_true, told_pure, List.map_nil, runAll]
        · simp only [hnumber, if_false, told_warn, List.map_cons, List.map_nil,
            runAll_singleton, Act.run]
      | .registers requested =>
        dsimp only
        rw [List.map_cons, List.map_nil, runAll_singleton, modifySession, told_bind, told_modify]
        dsimp only [Act.run]
        by_cases hclamped : RegisterSettings.isClamped requested = true
        · rw [if_pos hclamped, if_pos hclamped, told_get_bind, told_bind, told_warn]
          exact told_warn ..
        · rw [if_neg hclamped, if_neg hclamped]
          exact told_warn ..

theorem told_instruction (first : Token) (rest : List Token) (p : Progress) :
    told line (pass.instruction first rest) p =
      runAll pass path [(line, ofInstruction first rest)] p := by
  unfold Pass.instruction ofInstruction
  rw [runAll_singleton]
  cases operandTokens first.kind [] rest with
  | error located => rfl
  | ok operands =>
    dsimp only
    rw [told_get_bind, Act.run]
    cases p.session.encode (pass == .link) first.text (operands.map Token.text) <;> rfl

theorem told_statement (first : Token) (rest : List Token) (p : Progress) :
    told line (pass.statement path line first rest) p =
      runAll pass path ((ofStatement first rest).map (line, ·)) p := by
  by_cases hcomma : first.kind = .comma
  · rw [Pass.statement, ofStatement, if_pos hcomma, if_pos hcomma]
    rfl
  · by_cases hdot : ∃ name, first.text.toList = '.' :: name
    · obtain ⟨name, hname⟩ := hdot
      rw [Pass.statement_eq_directive hcomma hname, ofStatement_eq_directive hcomma hname]
      exact told_directive _ first rest p
    · rw [not_exists] at hdot
      rw [Pass.statement_eq_instruction hcomma hdot, ofStatement_eq_instruction hcomma hdot]
      exact told_instruction first rest p

theorem told_bound (pass : Pass) (path : String) (line : Nat) (span : Span) (p : Progress) :
    told line (do let _ ← lift (← get).session.checkedOffset span) p =
      runAll pass path [(line, .bound span)] p := by
  rw [told_get_bind, told_lift_bind, runAll_singleton, Act.run]
  cases p.session.checkedOffset <;> rfl

theorem told_seq {x y : PassAction Unit} {acts acts' : List (Nat × Act)}
    (hx : ∀ p, told line x p = runAll pass path acts p)
    (hy : ∀ p, told line y p = runAll pass path acts' p) (p : Progress) :
    told line (x >>= fun _ => y) p = runAll pass path (acts ++ acts') p := by
  rw [told_bind, runAll_append, hx]
  simp only [hy]

/-- A pass on one line carries out the acts of the line. -/
theorem told_line (source : SourceLine) (p : Progress) :
    told source.number (pass.line path source) p =
      runAll pass path (source.acts.map (source.number, ·)) p := by
  unfold Pass.line SourceLine.acts
  cases source.tokens with
  | nil => rfl
  | cons first rest =>
    cases (first :: rest).find? fun token => token.kind == .garbage with
    | some garbage => rfl
    | none =>
      dsimp only
      have hend := told_bound pass path source.number source.span
      by_cases hlabel : Pass.isLabel first = true
      · rw [if_pos hlabel, if_pos hlabel, List.map_append, List.map_cons, List.cons_append]
        cases rest with
        | nil => exact told_seq (told_label first) hend p
        | cons first' rest =>
          exact told_seq (told_label first) (told_seq (told_statement first' rest) hend) p
      · rw [if_neg hlabel, if_neg hlabel, List.map_append]
        exact told_seq (told_statement first rest) hend p

end

/-- A pass carries out the acts of its lines in order. -/
theorem Pass.lines_eq_runAll (pass : Pass) (path : String) (sources : List SourceLine)
    (p : Progress) :
    pass.lines path sources p = Act.runAll pass path (SourceLine.numberedActs sources) p := by
  induction sources generalizing p with
  | nil => rfl
  | cons source sources ih =>
    rw [SourceLine.numberedActs, List.flatMap_cons, Act.runAll_append, ← told_line, Pass.lines,
      PassAction.told]
    cases (pass.line path source).run p with
    | ok _ p => exact ih p
    | error located p => rfl

theorem Pass.lines_append (pass : Pass) (path : String) (before after : List SourceLine)
    (p : Progress) :
    pass.lines path (before ++ after) p =
      match pass.lines path before p with
      | (none, p) => pass.lines path after p
      | (some e, p) => (some e, p) := by
  simp only [Pass.lines_eq_runAll, SourceLine.numberedActs, List.flatMap_append,
    Act.runAll_append]

/-- A pass that gets through some lines gets through the first of them, and then the others. -/
theorem Pass.lines_append_eq_none {pass : Pass} {path : String} {before after : List SourceLine}
    {p r : Progress} (h : pass.lines path (before ++ after) p = (none, r)) :
    ∃ q, pass.lines path before p = (none, q) ∧ pass.lines path after q = (none, r) := by
  rw [Pass.lines_append] at h
  split at h
  · rename_i q hq
    exact ⟨q, hq, h⟩
  · cases h

end StackMachine.Assembly
