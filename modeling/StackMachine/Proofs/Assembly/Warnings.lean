import StackMachine.Proofs.Assembly.Image
import StackMachine.Proofs.Assembly.RegisterBound

/-!
# The warnings of a file

Which warnings a file has can be told from its lines: they are those of the directives on the lines
that discovery gets through. Each is told once, although both passes carry the directives out. The
line with an error has no warning, since on a line with a directive only its label can fail.

* `Directive.warnings`, `SourceLine.allWarnings`: the warnings of a directive, and of lines in order.
* `Act.runAll_warnings`: what discovery tells on one line.
* `Pass.reached`, `Pass.lines_diagnostics`: discovery tells the warnings of the lines that it gets
  through, and no others.
-/

namespace StackMachine.Assembly

open Session

variable {registry : Registry} {s : Session} {path : String} {number : Nat} {line : SourceLine}
  {lines : List SourceLine} {settings : RegisterSettings} {p p' : Progress}

/-! ## The warnings of lines -/

namespace Directive

/-- What a directive warns of, where the number of registers is as given. -/
def warnings (path : String) (line : Nat) (settings : RegisterSettings) (span : Span) :
    Directive → List Diagnostic
  | version none => []
  | version (some number) =>
    if number = Header.expectedVersion.toNat then []
    else [.ofKind .versionMismatch path line span (Pass.versionMessage number)]
  | registers requested =>
    let count := (settings.request requested).count
    (if RegisterSettings.isClamped requested then
      [.ofKind .registerCountClamped path line span (Pass.clampMessage requested count)]
    else []) ++ [.ofKind .registersDirective path line span Pass.registersMessage]

/-- The directive that some tokens make, and its place. -/
def ofTokens? (first : Token) (rest : List Token) : Option (Directive × Span) :=
  match first.text.toList with
  | '.' :: name =>
    match read (String.ofList name) (rest.map Token.text) with
    | .ok directive => some (directive, Token.spanOf first rest)
    | .error _ => none
  | _ => none

theorem ofTokens?_eq_some {first : Token} {rest : List Token} {name : List Char}
    {directive : Directive} (hname : first.text.toList = '.' :: name)
    (hread : read (String.ofList name) (rest.map Token.text) = .ok directive) :
    ofTokens? first rest = some (directive, Token.spanOf first rest) := by
  unfold ofTokens?
  simp only [hname, hread]

theorem ofTokens?_eq_none {first : Token} {rest : List Token}
    (hname : ∀ name, first.text.toList ≠ '.' :: name) : ofTokens? first rest = none := by
  unfold ofTokens?
  split
  · rename_i heq
    exact absurd heq (hname _)
  · rfl

theorem severity_of_mem_warnings {directive : Directive} {span : Span} {d : Diagnostic}
    (h : d ∈ directive.warnings path number settings span) : d.severity = .warning := by
  match directive with
  | .version none => cases h
  | .version (some other) =>
    rw [warnings] at h
    split at h
    · cases h
    · cases List.mem_singleton.1 h
      rfl
  | .registers requested =>
    rcases List.mem_append.1 h with h | h
    · split at h
      · cases List.mem_singleton.1 h
        rfl
      · cases h
    · cases List.mem_singleton.1 h
      rfl

end Directive

namespace SourceLine

/-- The directive on a line, and its place. -/
def directive? (line : SourceLine) : Option (Directive × Span) :=
  match line.statement with
  | [] => none
  | first :: rest => Directive.ofTokens? first rest

/-- The warnings of a line, where the number of registers is as given. -/
def warnings (path : String) (settings : RegisterSettings) (line : SourceLine) :
    List Diagnostic :=
  match line.directive? with
  | some (directive, span) => directive.warnings path line.number settings span
  | none => []

/-- The warnings of lines in order. Each line has the number of registers that the requests on the
lines before it have made. -/
def allWarnings (path : String) : RegisterSettings → List SourceLine → List Diagnostic
  | _, [] => []
  | settings, line :: rest =>
    line.warnings path settings ++
      allWarnings path (line.request?.toList.foldl .request settings) rest

theorem severity_of_mem_allWarnings {d : Diagnostic} (h : d ∈ allWarnings path settings lines) :
    d.severity = .warning := by
  induction lines generalizing settings with
  | nil => cases h
  | cons line lines ih =>
    rcases List.mem_append.1 h with h | h
    · unfold warnings at h
      split at h
      · exact Directive.severity_of_mem_warnings h
      · cases h
    · exact ih h

end SourceLine

/-! ## The warnings of acts -/

namespace Act

/-- Whether an act never warns. -/
def Silent : Act → Prop
  | version _ _ => False
  | registers _ _ => False
  | _ => True

/-- What discovery warns of when it carries out an act. -/
def warnings (path : String) (line : Nat) (settings : RegisterSettings) : Act → List Diagnostic
  | version number span =>
    [.ofKind .versionMismatch path line span (Pass.versionMessage number)]
  | registers requested span =>
    (Directive.registers requested).warnings path line settings span
  | _ => []

theorem Silent.warnings_eq {act : Act} (h : act.Silent) : act.warnings path number settings = [] := by
  cases act with
  | version _ _ => exact h.elim
  | registers _ _ => exact h.elim
  | refuse _ _ => rfl
  | label _ _ => rfl
  | instruction _ _ _ => rfl
  | bound _ => rfl

theorem run_silent {pass : Pass} {act : Act} (h : act.Silent) (p : Progress) :
    (act.run pass path number p).2.diagnostics = p.diagnostics := by
  cases act with
  | version _ _ => exact h.elim
  | registers _ _ => exact h.elim
  | refuse error span => rfl
  | label name span =>
    cases pass with
    | discovery =>
      simp only [run]
      cases p.session.define name with
      | mk result session => cases result <;> rfl
    | link =>
      simp only [run]
      cases p.session.confirm name <;> rfl
  | instruction mnemonic operands span =>
    simp only [run]
    split <;> rfl
  | bound span =>
    simp only [run]
    split <;> rfl

/-- The link pass warns of nothing. -/
theorem run_link_diagnostics (act : Act) (p : Progress) :
    (act.run .link path number p).2.diagnostics = p.diagnostics := by
  by_cases hsilent : act.Silent
  · exact run_silent hsilent p
  · cases act with
    | version number span => rfl
    | registers requested span =>
      simp only [run]
      split <;> rfl
    | refuse _ _ => exact absurd trivial hsilent
    | label _ _ => exact absurd trivial hsilent
    | instruction _ _ _ => exact absurd trivial hsilent
    | bound _ => exact absurd trivial hsilent

/-- What every act keeps, a run of acts keeps, also when the last of them fails. -/
theorem runAll_keeps {α : Type} {pass : Pass} {acts : List (Nat × Act)} (f : Progress → α)
    (h : ∀ act ∈ acts, ∀ number p, f (act.2.run pass path number p).2 = f p) (p : Progress) :
    f (runAll pass path acts p).2 = f p := by
  induction acts generalizing p with
  | nil => rfl
  | cons head acts ih =>
    obtain ⟨line, act⟩ := head
    rw [List.forall_mem_cons] at h
    have hact := h.1 line p
    rw [runAll]
    split
    · rename_i hrun
      rw [hrun] at hact
      rw [ih h.2, hact]
    · rename_i hrun
      rw [hrun] at hact
      exact hact

theorem runAll_map_keeps {α : Type} {pass : Pass} {acts : List Act} (f : Progress → α)
    (h : ∀ act ∈ acts, ∀ number p, f (act.run pass path number p).2 = f p) (number : Nat)
    (p : Progress) : f (runAll pass path (acts.map (number, ·)) p).2 = f p := by
  refine runAll_keeps f (fun numbered hmem => ?_) p
  obtain ⟨act, hact, rfl⟩ := List.mem_map.1 hmem
  exact h act hact

/-- A warning is told, and then nothing is in the way: a directive adds no code. -/
theorem run_loud {act : Act} (h : ¬ act.Silent) (path : String) (number : Nat) (p : Progress) :
    ∃ p', act.run .discovery path number p = (none, p') ∧
      p'.session.offset = p.session.offset ∧
      p'.diagnostics.toList =
        p.diagnostics.toList ++ act.warnings path number p.session.registers := by
  cases act with
  | version version span => exact ⟨_, rfl, rfl, by simp [Progress.warned, warnings]⟩
  | registers requested span =>
    simp only [run, warnings, Directive.warnings]
    refine ⟨_, rfl, ?_, ?_⟩
    · rw [Session.offset, Session.offset, Progress.warned_session]
      split <;> rfl
    · split <;> simp [Progress.warned, requestRegisters]
  | refuse _ _ => exact absurd trivial h
  | label _ _ => exact absurd trivial h
  | instruction _ _ _ => exact absurd trivial h
  | bound _ => exact absurd trivial h

theorem ofLabel_silent (token : Token) : (ofLabel token).Silent := by
  unfold ofLabel
  dsimp only
  split <;> trivial

/-- The label of a line is no reason to warn, and touches neither registers nor code. -/
theorem run_ofLabel (token : Token) (number : Nat) (p : Progress) :
    let q := ((ofLabel token).run .discovery path number p).2
    (q.diagnostics, q.session.registers, q.session.offset) =
      (p.diagnostics, p.session.registers, p.session.offset) := by
  unfold ofLabel
  dsimp only
  split
  · rfl
  · have hregisters := define_registers p.session (Pass.labelName token)
    have hcode := define_offset p.session (Pass.labelName token)
    simp only [run]
    cases hdefine : p.session.define (Pass.labelName token) with
    | mk result session =>
      rw [hdefine] at hregisters hcode
      dsimp only at hregisters hcode
      cases result <;> rw [hregisters, hcode]

/-- A statement is one act, if any. -/
theorem ofStatement_silent (first : Token) (rest : List Token) :
    (∀ act ∈ ofStatement first rest, act.Silent) ∨
      ∃ act, ofStatement first rest = [act] ∧ ¬ act.Silent := by
  by_cases hcomma : first.kind = .comma
  · rw [ofStatement, if_pos hcomma]
    exact .inl (by simp [Silent])
  · by_cases hdot : ∃ name, first.text.toList = '.' :: name
    · obtain ⟨name, hname⟩ := hdot
      rw [ofStatement_eq_directive hcomma hname]
      unfold ofDirective
      split
      · exact .inl (by simp [Silent])
      · split
        · exact .inl (by simp [Silent])
        · exact .inl (by simp)
        · split
          · exact .inl (by simp)
          · exact .inr ⟨_, rfl, by simp [Silent]⟩
        · exact .inr ⟨_, rfl, by simp [Silent]⟩
    · rw [not_exists] at hdot
      rw [ofStatement_eq_instruction hcomma hdot]
      unfold ofInstruction
      split <;> exact .inl (by simp [Silent])

end Act

/-- A line that warns has one act that does, with at most a label in front of it and only the check
of the offset behind it. -/
theorem SourceLine.acts_silent (line : SourceLine) :
    (∀ act ∈ line.acts, act.Silent) ∨
      ∃ labels act span, line.acts = labels ++ [act, .bound span] ∧ ¬ act.Silent ∧
        ∀ label ∈ labels, ∃ token, label = Act.ofLabel token := by
  have hbound : (Act.bound line.span).Silent := trivial
  unfold acts
  cases line.tokens with
  | nil => exact .inl (by simp)
  | cons first rest =>
    dsimp only
    split
    · exact .inl (by simp [Act.Silent])
    · split
      · cases rest with
        | nil =>
          rw [List.singleton_append, List.forall_mem_cons, List.forall_mem_singleton]
          exact .inl ⟨Act.ofLabel_silent first, hbound⟩
        | cons first' rest =>
          rcases Act.ofStatement_silent first' rest with hsilent | ⟨act, hact, hloud⟩
          · rw [List.cons_append, List.forall_mem_cons, List.forall_mem_append,
              List.forall_mem_singleton]
            exact .inl ⟨Act.ofLabel_silent first, hsilent, hbound⟩
          · exact .inr ⟨[Act.ofLabel first], act, line.span, by simp [hact], hloud, by simp⟩
      · rcases Act.ofStatement_silent first rest with hsilent | ⟨act, hact, hloud⟩
        · rw [List.forall_mem_append, List.forall_mem_singleton]
          exact .inl ⟨hsilent, hbound⟩
        · exact .inr ⟨[], act, line.span, by simp [hact], hloud, by simp⟩

/-! ## The warnings of discovery -/

theorem Act.ofStatement_warnings {first : Token} {rest : List Token}
    (h : ∀ error span, Act.refuse error span ∉ Act.ofStatement first rest) :
    (Act.ofStatement first rest).flatMap (Act.warnings path number settings) =
      match Directive.ofTokens? first rest with
      | some (directive, span) => directive.warnings path number settings span
      | none => [] := by
  by_cases hcomma : first.kind = .comma
  · rw [ofStatement, if_pos hcomma] at h
    exact absurd (List.mem_singleton_self _) (h _ _)
  · by_cases hdot : ∃ name, first.text.toList = '.' :: name
    · obtain ⟨name, hname⟩ := hdot
      rw [ofStatement_eq_directive hcomma hname] at h ⊢
      unfold ofDirective at h ⊢
      split at h
      · exact absurd (List.mem_singleton_self _) (h _ _)
      · split at h
        · exact absurd (List.mem_singleton_self _) (h _ _)
        · rename_i hread
          rw [Directive.ofTokens?_eq_some hname hread]
          rfl
        · rename_i other hread
          rw [Directive.ofTokens?_eq_some hname hread]
          dsimp only [Directive.warnings]
          split <;> rfl
        · rename_i hread
          rw [Directive.ofTokens?_eq_some hname hread]
          exact List.flatMap_singleton ..
    · rw [not_exists] at hdot
      rw [ofStatement_eq_instruction hcomma hdot, Directive.ofTokens?_eq_none hdot]
      unfold ofInstruction
      split <;> rfl

/-- The warnings of the acts of a line are those of its directive. -/
theorem SourceLine.acts_warnings (h : line.Readable) :
    line.acts.flatMap (Act.warnings path line.number settings) = line.warnings path settings := by
  have hlabel (token : Token) :
      (Act.ofLabel token).warnings path line.number settings = [] :=
    (Act.ofLabel_silent token).warnings_eq
  unfold Readable acts at h
  unfold acts warnings directive? statement
  cases htokens : line.tokens with
  | nil => rfl
  | cons first rest =>
    rw [htokens] at h
    dsimp only at h ⊢
    split at h
    · exact absurd (List.mem_singleton_self _) (h _ _)
    · by_cases hfirst : Pass.isLabel first = true
      · rw [if_pos hfirst] at h ⊢
        rw [if_pos hfirst]
        cases rest with
        | nil =>
          rw [List.flatMap_append, List.flatMap_singleton, hlabel]
          rfl
        | cons first' rest =>
          dsimp only at h ⊢
          have hstatement : ∀ error span, Act.refuse error span ∉ Act.ofStatement first' rest :=
            fun error span hmem => h error span (by simp [hmem])
          rw [List.cons_append, List.flatMap_cons, hlabel, List.flatMap_append,
            Act.ofStatement_warnings hstatement, List.flatMap_singleton]
          exact List.append_nil _
      · rw [if_neg hfirst] at h ⊢
        rw [if_neg hfirst]
        have hstatement : ∀ error span, Act.refuse error span ∉ Act.ofStatement first rest :=
          fun error span hmem => h error span (by simp [hmem])
        rw [List.flatMap_append, Act.ofStatement_warnings hstatement, List.flatMap_singleton]
        exact List.append_nil _

/-- Discovery tells the warnings of the acts of a line that it gets through. On a line with an error
it tells none: a directive comes behind anything that can fail, since the code has not grown beyond
the reach of labels before it. -/
theorem Act.runAll_warnings (hp : p.session.offset ≤ 65535) (path : String) (line : SourceLine) :
    match runAll .discovery path (line.acts.map (line.number, ·)) p with
    | (none, p') => p'.diagnostics.toList = p.diagnostics.toList ++
        line.acts.flatMap (warnings path line.number p.session.registers)
    | (some _, p') => p'.diagnostics = p.diagnostics := by
  rcases line.acts_silent with hsilent | ⟨labels, act, span, hacts, hloud, hlabels⟩
  · have hkeeps : (runAll .discovery path (line.acts.map (line.number, ·)) p).2.diagnostics =
        p.diagnostics :=
      runAll_map_keeps Progress.diagnostics (fun act hact _ q => run_silent (hsilent act hact) q) _ p
    have hnone : line.acts.flatMap (warnings path line.number p.session.registers) = [] :=
      List.flatMap_eq_nil_iff.2 fun act hmem => (hsilent act hmem).warnings_eq
    split
    · rename_i hrun
      rw [hrun] at hkeeps
      rw [hnone, hkeeps, List.append_nil]
    · rename_i hrun
      rw [hrun] at hkeeps
      exact hkeeps
  · have hkeeps : let q := (runAll .discovery path (labels.map (line.number, ·)) p).2
        (q.diagnostics, q.session.registers, q.session.offset) =
          (p.diagnostics, p.session.registers, p.session.offset) := by
      refine runAll_map_keeps
        (fun q => (q.diagnostics, q.session.registers, q.session.offset)) ?_ _ p
      intro label hlabel number q
      obtain ⟨token, rfl⟩ := hlabels label hlabel
      exact run_ofLabel token number q
    have hnone : labels.flatMap (warnings path line.number p.session.registers) = [] := by
      refine List.flatMap_eq_nil_iff.2 fun label hmem => ?_
      obtain ⟨token, rfl⟩ := hlabels label hmem
      exact (ofLabel_silent token).warnings_eq
    rw [hacts, List.map_append, runAll_append, List.flatMap_append, hnone, List.nil_append]
    generalize runAll .discovery path (labels.map (line.number, ·)) p = before at hkeeps
    obtain ⟨outcome, q⟩ := before
    simp only [Prod.mk.injEq] at hkeeps
    obtain ⟨hdiagnostics, hregisters, hoffset⟩ := hkeeps
    cases outcome with
    | some located => exact hdiagnostics
    | none =>
      obtain ⟨q', hrun, hsame, htold⟩ := run_loud hloud path line.number q
      have hchecked : q'.session.checkedOffset = .ok (UInt16.ofNat q'.session.offset) := by
        rw [checkedOffset, if_pos (by omega)]
      have hrest : runAll .discovery path [(line.number, act), (line.number, .bound span)] q =
          (none, q') := by
        rw [runAll, hrun]
        dsimp only
        rw [runAll_singleton, run, hchecked]
      simp only [List.map_cons, List.map_nil, hrest]
      rw [htold, hdiagnostics, hregisters]
      simp [warnings]

namespace Pass

/-- The lines that discovery gets through. -/
def reached (path : String) : List SourceLine → Progress → List SourceLine
  | [], _ => []
  | line :: rest, p =>
    match (Pass.discovery.line path line).run p with
    | .ok () p => line :: reached path rest p
    | .error _ _ => []

theorem reached_prefix : reached path lines p <+: lines := by
  induction lines generalizing p with
  | nil => exact List.prefix_rfl
  | cons line lines ih =>
    rw [reached]
    split
    · exact List.prefix_cons_inj line |>.2 ih
    · exact List.nil_prefix

/-- Discovery tells the warnings of the lines that it gets through, and no others. -/
theorem lines_diagnostics (hp : p.session.offset ≤ 65535) (path : String)
    (lines : List SourceLine) :
    (Pass.discovery.lines path lines p).2.diagnostics.toList = p.diagnostics.toList ++
        SourceLine.allWarnings path p.session.registers (reached path lines p) ∧
      ((Pass.discovery.lines path lines p).1 = none → reached path lines p = lines) := by
  induction lines generalizing p with
  | nil => exact ⟨by simp [Pass.lines, reached, SourceLine.allWarnings], fun _ => rfl⟩
  | cons line lines ih =>
    have hwarnings := Act.runAll_warnings hp path line
    rw [← told_line, PassAction.told] at hwarnings
    rw [Pass.lines, reached]
    cases hrun : (Pass.discovery.line path line).run p with
    | error located p' =>
      rw [hrun] at hwarnings
      refine ⟨?_, fun h => by cases h⟩
      dsimp only at hwarnings ⊢
      rw [hwarnings]
      exact (List.append_nil _).symm
    | ok _ p' =>
      rw [hrun] at hwarnings
      dsimp only at hwarnings ⊢
      have hfirst : Pass.discovery.lines path [line] p = (none, p') := by
        rw [Pass.lines, hrun]
        rfl
      have hregisters := Pass.lines_registers hfirst
      have hreadable := Pass.readable hfirst List.mem_cons_self
      obtain ⟨hrest, hall⟩ := ih (Pass.lines_offset_le hfirst hp)
      refine ⟨?_, fun h => by rw [hall h]⟩
      rw [SourceLine.acts_warnings hreadable] at hwarnings
      rw [hrest, hwarnings, hregisters, SourceLine.allWarnings, List.append_assoc]
      rw [List.filterMap_cons]
      cases line.request? <;> rfl

end Pass

end StackMachine.Assembly
