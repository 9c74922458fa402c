import StackMachine.Proofs.Assembly.Act

/-!
# The parts of a line

A line has at most one label and at most one instruction, the label first. All else on a line that
can be read, a directive and the check at its end, touches neither labels nor code.

* `SourceLine.label?`, `SourceLine.instruction?`, `SourceLine.request?`: the label, the instruction
  and the request for registers of a line, told from its tokens.
* `SourceLine.acts_eq`: the acts of a line that can be read are those of its parts.
* `Pass.lines_cons_eq_none`: what a pass does to the session on each line that it gets through.
-/

namespace StackMachine.Assembly

/-- The number of registers that a directive with some arguments asks for. -/
def Directive.request? (name : String) (arguments : List String) : Option Int :=
  match Directive.read name arguments with
  | .ok (.registers requested) => some requested
  | _ => none

namespace SourceLine

/-- The word that defines a label: only the first one can. -/
def labelToken? (line : SourceLine) : Option Token :=
  line.tokens.head?.filter Pass.isLabel

/-- The label that a line defines. -/
def label? (line : SourceLine) : Option String :=
  line.labelToken?.map Pass.labelName

/-- The tokens behind the label. -/
def statement (line : SourceLine) : List Token :=
  match line.tokens with
  | [] => []
  | first :: rest => if Pass.isLabel first then rest else first :: rest

/-- The mnemonic and the operands of the instruction on a line. A word with a point in front names a
directive, and commas are no operands. -/
def instruction? (line : SourceLine) : Option (Token × List Token) :=
  match line.statement with
  | [] => none
  | first :: rest =>
    if first.text.toList.head? = some '.' then none
    else some (first, rest.filter fun token => token.kind != .comma)

/-- The number of registers that the directive on a line asks for. -/
def request? (line : SourceLine) : Option Int :=
  match line.statement with
  | [] => none
  | first :: rest =>
    match first.text.toList with
    | '.' :: name => Directive.request? (String.ofList name) (rest.map Token.text)
    | _ => none

end SourceLine

namespace Act

/-- Whether an act touches neither labels nor code. -/
def Quiet : Act → Prop
  | version _ _ => True
  | registers _ _ => True
  | bound _ => True
  | _ => False

/-- The number of registers that an act asks for. -/
def request? : Act → Option Int
  | registers requested _ => some requested
  | _ => none

theorem operandTokens_eq {previous : TokenKind} {done rest operands : List Token}
    (h : operandTokens previous done rest = .ok operands) :
    operands = done.reverse ++ rest.filter fun token => token.kind != .comma := by
  induction rest generalizing previous done with
  | nil =>
    cases h
    simp
  | cons token rest ih =>
    rw [operandTokens] at h
    by_cases hcomma : token.kind = .comma
    · rw [if_pos hcomma] at h
      split at h
      · cases h
      split at h
      · cases h
      rw [ih h]
      simp [hcomma]
    · rw [if_neg hcomma] at h
      rw [ih h]
      simp [hcomma]

theorem ofDirective_quiet {name : String} {first : Token} {rest : List Token}
    (h : ∀ error span, refuse error span ∉ ofDirective name first rest) :
    (∀ act ∈ ofDirective name first rest, act.Quiet) ∧
      (ofDirective name first rest).filterMap request? =
        (Directive.request? name (rest.map Token.text)).toList := by
  unfold ofDirective at h ⊢
  split at h
  · exact absurd (List.mem_singleton_self _) (h _ _)
  · split at h
    · exact absurd (List.mem_singleton_self _) (h _ _)
    · rename_i hread
      simp [Directive.request?, hread]
    · rename_i hread
      split <;> simp [Directive.request?, hread, Quiet, request?]
    · rename_i hread
      simp [Directive.request?, hread, Quiet, request?]

/-- A statement that can be read is a directive or an instruction, as its first character tells. -/
theorem ofStatement_eq {first : Token} {rest : List Token}
    (h : ∀ error span, refuse error span ∉ ofStatement first rest) :
    (∃ name, first.text.toList = '.' :: name ∧
      (∀ act ∈ ofStatement first rest, act.Quiet) ∧
      (ofStatement first rest).filterMap request? =
        (Directive.request? (String.ofList name) (rest.map Token.text)).toList) ∨
    first.text.toList.head? ≠ some '.' ∧ ∃ span, ofStatement first rest =
      [instruction first.text (rest.filter fun token => token.kind != .comma) span] := by
  have hcomma : first.kind ≠ .comma := by
    intro hcomma
    rw [ofStatement, if_pos hcomma] at h
    exact h _ _ (List.mem_singleton_self _)
  by_cases hdot : ∃ name, first.text.toList = '.' :: name
  · obtain ⟨name, hname⟩ := hdot
    rw [ofStatement_eq_directive hcomma hname] at h ⊢
    exact .inl ⟨name, hname, ofDirective_quiet h⟩
  · rw [not_exists] at hdot
    rw [ofStatement_eq_instruction hcomma hdot] at h ⊢
    refine .inr ⟨fun hhead => ?_, ?_⟩
    · obtain ⟨name, hname⟩ := List.head?_eq_some_iff.1 hhead
      exact hdot name hname
    · unfold ofInstruction at h ⊢
      cases hoperands : operandTokens first.kind [] rest with
      | error located =>
        rw [hoperands] at h
        exact absurd (List.mem_singleton_self _) (h _ _)
      | ok operands =>
        rw [operandTokens_eq hoperands]
        exact ⟨_, rfl⟩

end Act

namespace SourceLine

/-- A line whose tokens no pass refuses. -/
def Readable (line : SourceLine) : Prop :=
  ∀ error span, Act.refuse error span ∉ line.acts

/-- The acts of the label of a line. -/
def labelActs (line : SourceLine) : List Act :=
  line.labelToken?.toList.map fun token => .label (Pass.labelName token) token.span

/-- The acts of the instruction of a line, told at a span. -/
def instructionActs (line : SourceLine) (span : Span) : List Act :=
  line.instruction?.toList.map fun (mnemonic, operands) => .instruction mnemonic.text operands span

theorem labelActs_eq {line : SourceLine} {first : Token} {rest : List Token}
    (htokens : line.tokens = first :: rest) (hlabel : Pass.isLabel first = true)
    (h : ∀ error span, Act.ofLabel first ≠ .refuse error span) :
    line.labelActs = [Act.ofLabel first] := by
  unfold Act.ofLabel at h ⊢
  dsimp only at h ⊢
  split at h
  · exact absurd rfl (h _ _)
  · rename_i hname
    rw [if_neg hname]
    simp [labelActs, labelToken?, htokens, Option.filter, hlabel]

theorem statement_acts {line : SourceLine} {first : Token} {rest : List Token}
    (hstatement : line.statement = first :: rest)
    (h : ∀ error span, Act.refuse error span ∉ Act.ofStatement first rest) :
    ∃ span quiet, (∀ act ∈ quiet, act.Quiet) ∧
      quiet.filterMap Act.request? = line.request?.toList ∧
      Act.ofStatement first rest = line.instructionActs span ++ quiet := by
  unfold instructionActs instruction? request?
  rw [hstatement]
  dsimp only
  rcases Act.ofStatement_eq h with ⟨name, htext, hquiet, hrequest⟩ | ⟨hhead, span, hacts⟩
  · rw [htext, List.head?_cons, if_pos rfl]
    exact ⟨⟨0, 0⟩, _, hquiet, hrequest, rfl⟩
  · rw [if_neg hhead]
    refine ⟨span, [], by simp, ?_, by simp [hacts]⟩
    split
    · rename_i name htext
      rw [htext] at hhead
      exact absurd rfl hhead
    · rfl

/-- The acts of a line that can be read: its label, its instruction, and acts that touch neither
labels nor code. -/
theorem acts_eq {line : SourceLine} (h : line.Readable) :
    ∃ span quiet, (∀ act ∈ quiet, act.Quiet) ∧
      quiet.filterMap Act.request? = line.request?.toList ∧
      line.acts = line.labelActs ++ (line.instructionActs span ++ quiet) := by
  unfold Readable at h
  unfold acts at h ⊢
  cases htokens : line.tokens with
  | nil =>
    have hlabel : line.labelActs = [] := by simp [labelActs, labelToken?, htokens]
    have hstatement : line.statement = [] := by simp [statement, htokens]
    refine ⟨⟨0, 0⟩, [], by simp, ?_, ?_⟩
    · simp [request?, hstatement]
    · simp [hlabel, instructionActs, instruction?, hstatement]
  | cons first rest =>
    rw [htokens] at h
    dsimp only at h ⊢
    split at h
    · exact absurd (List.mem_singleton_self _) (h _ _)
    by_cases hlabel : Pass.isLabel first = true
    · rw [if_pos hlabel] at h ⊢
      have hacts : line.labelActs = [Act.ofLabel first] :=
        labelActs_eq htokens hlabel fun error span heq => h error span (by simp [heq])
      have hstatement : line.statement = rest := by simp [statement, htokens, hlabel]
      cases rest with
      | nil =>
        refine ⟨⟨0, 0⟩, [.bound line.span], by simp [Act.Quiet], ?_, ?_⟩
        · simp [request?, hstatement, Act.request?]
        · rw [hacts]
          simp [instructionActs, instruction?, hstatement]
      | cons first' rest =>
        obtain ⟨span, quiet, hquiet, hrequest, heq⟩ := statement_acts hstatement
          fun error span hmem => h error span (by simp [hmem])
        refine ⟨span, quiet ++ [.bound line.span], ?_, ?_, ?_⟩
        · simpa [or_imp, forall_and, Act.Quiet] using hquiet
        · rw [List.filterMap_append, hrequest]
          exact List.append_nil _
        · dsimp only
          rw [heq, hacts]
          simp
    · rw [if_neg hlabel] at h ⊢
      have hacts : line.labelActs = [] := by simp [labelActs, labelToken?, htokens, hlabel]
      have hstatement : line.statement = first :: rest := by simp [statement, htokens, hlabel]
      obtain ⟨span, quiet, hquiet, hrequest, heq⟩ := statement_acts hstatement
        fun error span hmem => h error span (by simp [hmem])
      refine ⟨span, quiet ++ [.bound line.span], ?_, ?_, ?_⟩
      · simpa [or_imp, forall_and, Act.Quiet] using hquiet
      · rw [List.filterMap_append, hrequest]
        exact List.append_nil _
      · rw [heq, hacts]
        simp

/-- The instruction among the acts of a line is the one that its tokens tell. -/
theorem instruction?_of_mem {line : SourceLine} (h : line.Readable) {mnemonic : String}
    {operands : List Token} {span : Span}
    (hmem : Act.instruction mnemonic operands span ∈ line.acts) :
    ∃ token, line.instruction? = some (token, operands) ∧ token.text = mnemonic := by
  obtain ⟨span', quiet, hquiet, -, heq⟩ := acts_eq h
  rw [heq, List.mem_append, List.mem_append] at hmem
  rcases hmem with hmem | hmem | hmem
  · obtain ⟨token, -, heq⟩ := List.mem_map.1 hmem
    cases heq
  · obtain ⟨⟨token, words⟩, hinstruction, heq⟩ := List.mem_map.1 hmem
    cases heq
    exact ⟨token, Option.mem_toList.1 hinstruction, rfl⟩
  · exact (hquiet _ hmem).elim

end SourceLine

/-! ## Lines that a pass gets through -/

variable {pass : Pass} {path : String}

theorem Act.refuse_not_mem {acts : List (Nat × Act)} {p p' : Progress}
    (h : Act.runAll pass path acts p = (none, p')) (line : Nat) (error : AssemblyError)
    (span : Span) : (line, Act.refuse error span) ∉ acts := by
  induction acts generalizing p with
  | nil => simp
  | cons head acts ih =>
    obtain ⟨number, act⟩ := head
    rw [Act.runAll] at h
    split at h
    · rename_i hrun
      rw [List.mem_cons, not_or]
      refine ⟨fun heq => ?_, ih h⟩
      cases heq
      cases hrun
    · cases h

theorem SourceLine.mem_numberedActs {lines : List SourceLine} {number : Nat} {act : Act} :
    (number, act) ∈ SourceLine.numberedActs lines ↔
      ∃ line ∈ lines, line.number = number ∧ act ∈ line.acts := by
  simp only [SourceLine.numberedActs, List.mem_flatMap, List.mem_map, Prod.mk.injEq]
  constructor
  · rintro ⟨line, hline, act, hact, rfl, rfl⟩
    exact ⟨line, hline, rfl, hact⟩
  · rintro ⟨line, hline, rfl, hact⟩
    exact ⟨line, hline, act, hact, rfl, rfl⟩

/-- A pass only gets through lines that it can read. -/
theorem Pass.readable {sources : List SourceLine} {p p' : Progress}
    (h : pass.lines path sources p = (none, p')) {line : SourceLine} (hline : line ∈ sources) :
    line.Readable := by
  intro error span hmem
  rw [Pass.lines_eq_runAll] at h
  exact Act.refuse_not_mem h line.number error span
    (SourceLine.mem_numberedActs.2 ⟨line, hline, rfl, hmem⟩)

namespace SourceLine

/-- What a pass does to a session at the label of a line: discovery records it. -/
def LabelStep (pass : Pass) (line : SourceLine) (s t : Session) : Prop :=
  match pass, line.label? with
  | .discovery, some name => ∃ offset, s.define name = (.ok offset, t)
  | _, _ => t = s

/-- The code that a pass appends at the instruction of a line. -/
def CodeStep (pass : Pass) (line : SourceLine) (s : Session) (bytes : List UInt8) : Prop :=
  match line.instruction? with
  | some (mnemonic, operands) =>
    s.encode (pass == .link) mnemonic.text (operands.map Token.text) = .ok bytes
  | none => bytes = []

variable {line : SourceLine} {number : Nat} {p p' : Progress}

theorem runAll_labelActs
    (h : Act.runAll pass path (line.labelActs.map (number, ·)) p = (none, p')) :
    line.LabelStep pass p.session p'.session := by
  unfold LabelStep label?
  unfold labelActs at h
  cases htoken : line.labelToken? with
  | none =>
    rw [htoken] at h
    cases h
    cases pass <;> rfl
  | some token =>
    rw [htoken] at h
    simp only [Option.toList_some, List.map_cons, List.map_nil, runAll_singleton, Act.run] at h
    cases pass with
    | discovery =>
      cases hdefine : p.session.define (Pass.labelName token) with
      | mk result session =>
        simp only [hdefine] at h
        cases result with
        | error e => cases h
        | ok offset =>
          cases h
          exact ⟨offset, hdefine⟩
    | link =>
      simp only at h
      cases hconfirm : p.session.confirm (Pass.labelName token) with
      | error e =>
        rw [hconfirm] at h
        cases h
      | ok _ =>
        rw [hconfirm] at h
        cases h
        rfl

theorem runAll_instructionActs {span : Span}
    (h : Act.runAll pass path ((line.instructionActs span).map (number, ·)) p = (none, p')) :
    ∃ bytes, line.CodeStep pass p.session bytes ∧ p'.session = p.session.append bytes := by
  unfold CodeStep
  unfold instructionActs at h
  cases hinstruction : line.instruction? with
  | none =>
    rw [hinstruction] at h
    cases h
    exact ⟨[], rfl, by simp [Session.append]⟩
  | some parts =>
    obtain ⟨mnemonic, operands⟩ := parts
    rw [hinstruction] at h
    simp only [Option.toList_some, List.map_cons, List.map_nil, runAll_singleton, Act.run] at h
    cases hbytes : p.session.encode (pass == .link) mnemonic.text (operands.map Token.text) with
    | error e =>
      rw [hbytes] at h
      cases h
    | ok bytes =>
      rw [hbytes] at h
      cases h
      exact ⟨bytes, hbytes, rfl⟩

theorem runAll_quiet {quiet : List Act} (hquiet : ∀ act ∈ quiet, act.Quiet)
    (h : Act.runAll pass path (quiet.map (number, ·)) p = (none, p')) :
    p'.session = { p.session with
      registers := (quiet.filterMap Act.request?).foldl .request p.session.registers } := by
  induction quiet generalizing p with
  | nil =>
    cases h
    rfl
  | cons act quiet ih =>
    rw [List.forall_mem_cons] at hquiet
    rw [List.map_cons, Act.runAll] at h
    split at h
    · rename_i p₁ hact
      rw [ih hquiet.2 h]
      cases act with
      | version version span =>
        cases hact
        rw [Progress.warned_session]
        rfl
      | registers requested span =>
        have hrun := (Act.run_registers pass path number requested span p).2
        rw [hact] at hrun
        dsimp only at hrun
        rw [hrun]
        rfl
      | bound span =>
        simp only [Act.run] at hact
        split at hact <;> cases hact
        rfl
      | refuse _ _ => exact hquiet.1.elim
      | label _ _ => exact hquiet.1.elim
      | instruction _ _ _ => exact hquiet.1.elim
    · cases h

/-- What a pass does to a session on a line that it gets through: the label, then the code, and
then a request for registers. -/
theorem runAll_acts (hline : line.Readable)
    (h : Act.runAll pass path (line.acts.map (line.number, ·)) p = (none, p')) :
    ∃ t bytes, line.LabelStep pass p.session t ∧ line.CodeStep pass t bytes ∧
      p'.session = { t.append bytes with
        registers := line.request?.toList.foldl .request t.registers } := by
  obtain ⟨span, quiet, hquiet, hrequest, hacts⟩ := acts_eq hline
  rw [hacts, List.map_append, List.map_append, Act.runAll_append] at h
  split at h
  · rename_i p₁ hlabel
    rw [Act.runAll_append] at h
    split at h
    · rename_i p₂ hinstruction
      obtain ⟨bytes, hbytes, hp₂⟩ := runAll_instructionActs hinstruction
      refine ⟨p₁.session, bytes, runAll_labelActs hlabel, hbytes, ?_⟩
      rw [runAll_quiet hquiet h, hp₂, hrequest]
      rfl
    · cases h
  · cases h

end SourceLine

/-- A pass gets through lines one by one. -/
theorem Pass.lines_cons_eq_none {line : SourceLine} {sources : List SourceLine}
    {p p' : Progress} (h : pass.lines path (line :: sources) p = (none, p')) :
    ∃ q t bytes, line.LabelStep pass p.session t ∧ line.CodeStep pass t bytes ∧
      q.session = { t.append bytes with
        registers := line.request?.toList.foldl .request t.registers } ∧
      pass.lines path sources q = (none, p') := by
  have hreadable := Pass.readable h List.mem_cons_self
  rw [← List.singleton_append] at h
  obtain ⟨q, hfirst, hrest⟩ := Pass.lines_append_eq_none h
  rw [Pass.lines_eq_runAll] at hfirst
  simp only [SourceLine.numberedActs, List.flatMap_cons, List.flatMap_nil, List.append_nil]
    at hfirst
  obtain ⟨t, bytes, hlabel, hcode, hq⟩ := SourceLine.runAll_acts hreadable hfirst
  exact ⟨q, t, bytes, hlabel, hcode, hq, hrest⟩

end StackMachine.Assembly
