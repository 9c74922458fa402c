import StackMachine.Proofs.Assembly.Act
import StackMachine.Proofs.Assembly.Lexing

/-!
# What a pass does to a session

The session that a pass leaves depends on the session that it starts with and on what the lines say:
not on their numbers and places, not on the path, and not on the warnings told so far. So a pass is
also a partial function on sessions, which is defined where the pass has no error.

* `Act.effect?`, `Pass.effect?`: what an act, and a pass over some lines, does to a session.
* `effect?_eq_some_iff`: the effect is defined exactly for a pass without an error.
* `effect?_congr`: lines that say the same have the same effect.
* `effects?_related`: two runs of the same acts stay related if every act keeps them so.
* `assemble_eq_iff`: a file is accepted when the effects of both passes are defined.
-/

namespace StackMachine.Assembly

open Session

namespace Act

/-- What an act does to a session, if it has no error. -/
def effect? (pass : Pass) : Act → Session → Option Session
  | refuse _ _, _ => none
  | label name _, s =>
    match pass with
    | .discovery =>
      match s.define name with
      | (.ok _, t) => some t
      | (.error _, _) => none
    | .link =>
      match s.confirm name with
      | .ok () => some s
      | .error _ => none
  | version _ _, s => some s
  | registers requested _, s => some (s.requestRegisters requested)
  | instruction mnemonic operands _, s =>
    match s.encode (pass == .link) mnemonic (operands.map Token.text) with
    | .ok bytes => some (s.append bytes)
    | .error _ => none
  | bound _, s => if s.offset ≤ 65535 then some s else none

/-- What acts do to a session one after the other, if none of them has an error. -/
def effects? (pass : Pass) (acts : List Act) (s : Session) : Option Session :=
  acts.foldlM (fun s act => act.effect? pass s) s

/-- The act, wherever it stands. -/
def unplaced : Act → Act
  | refuse error _ => refuse error ⟨0, 0⟩
  | label name _ => label name ⟨0, 0⟩
  | version number _ => version number ⟨0, 0⟩
  | registers requested _ => registers requested ⟨0, 0⟩
  | instruction mnemonic operands _ =>
    instruction mnemonic (operands.map Token.unplaced) ⟨0, 0⟩
  | bound _ => bound ⟨0, 0⟩

variable {pass : Pass} {path : String} {line : Nat} {s t : Session} {p : Progress}

theorem discovery_label_iff {name : String} {span : Span} :
    (label name span).effect? .discovery s = some t ↔
      ∃ offset, s.define name = (.ok offset, t) := by
  unfold effect?
  dsimp only
  cases s.define name with
  | mk result session =>
    cases result with
    | ok offset => simp
    | error e => simp

theorem link_label_iff {name : String} {span : Span} :
    (label name span).effect? .link s = some t ↔ s.confirm name = .ok () ∧ s = t := by
  unfold effect?
  dsimp only
  cases s.confirm name with
  | ok _ => simp
  | error e => simp

theorem instruction_iff {mnemonic : String} {operands : List Token} {span : Span} :
    (instruction mnemonic operands span).effect? pass s = some t ↔
      ∃ bytes, s.encode (pass == .link) mnemonic (operands.map Token.text) = .ok bytes ∧
        s.append bytes = t := by
  unfold effect?
  dsimp only
  cases s.encode (pass == .link) mnemonic (operands.map Token.text) with
  | ok bytes => simp
  | error e => simp

theorem bound_iff {span : Span} :
    (bound span).effect? pass s = some t ↔ s.offset ≤ 65535 ∧ s = t := by
  unfold effect?
  simp

theorem effects?_cons (act : Act) (acts : List Act) (s : Session) :
    effects? pass (act :: acts) s = (act.effect? pass s).bind (effects? pass acts) := rfl

theorem effects?_append (acts acts' : List Act) (s : Session) :
    effects? pass (acts ++ acts') s = (effects? pass acts s).bind (effects? pass acts') :=
  List.foldlM_append

theorem effect?_unplaced (act : Act) : act.unplaced.effect? pass = act.effect? pass := by
  cases act with
  | instruction mnemonic operands span =>
    have htexts : (operands.map Token.unplaced).map Token.text = operands.map Token.text := by
      rw [List.map_map]
      rfl
    funext s
    rw [unplaced, effect?, effect?, htexts]
  | refuse _ _ => rfl
  | label _ _ => rfl
  | version _ _ => rfl
  | registers _ _ => rfl
  | bound _ => rfl

theorem effects?_unplaced (acts : List Act) (s : Session) :
    effects? pass (acts.map unplaced) s = effects? pass acts s := by
  induction acts generalizing s with
  | nil => rfl
  | cons act acts ih =>
    rw [List.map_cons, effects?_cons, effects?_cons, effect?_unplaced]
    exact congrArg _ (funext ih)

/-- An act has an error, or its effect is the session that it leaves. -/
theorem run_cases (pass : Pass) (path : String) (line : Nat) (act : Act) (p : Progress) :
    (∃ located p', act.run pass path line p = (some located, p') ∧
      act.effect? pass p.session = none) ∨
    ∃ p', act.run pass path line p = (none, p') ∧ act.effect? pass p.session = some p'.session := by
  cases act with
  | refuse error span => exact .inl ⟨_, _, rfl, rfl⟩
  | label name span =>
    cases pass with
    | discovery =>
      simp only [run, effect?]
      cases p.session.define name with
      | mk result session =>
        cases result with
        | ok offset => exact .inr ⟨_, rfl, rfl⟩
        | error e => exact .inl ⟨_, _, rfl, rfl⟩
    | link =>
      simp only [run, effect?]
      cases p.session.confirm name with
      | ok _ => exact .inr ⟨_, rfl, rfl⟩
      | error e => exact .inl ⟨_, _, rfl, rfl⟩
  | version number span =>
    refine .inr ⟨_, rfl, ?_⟩
    rw [Progress.warned_session]
    rfl
  | registers requested span =>
    obtain ⟨hnone, hsession⟩ := run_registers pass path line requested span p
    refine .inr ⟨((registers requested span).run pass path line p).2, Prod.ext hnone rfl, ?_⟩
    rw [hsession]
    rfl
  | instruction mnemonic operands span =>
    simp only [run, effect?]
    cases p.session.encode (pass == .link) mnemonic (operands.map Token.text) with
    | ok bytes => exact .inr ⟨_, rfl, rfl⟩
    | error e => exact .inl ⟨_, _, rfl, rfl⟩
  | bound span =>
    rw [run, effect?, checkedOffset]
    by_cases hle : p.session.offset ≤ 65535
    · rw [if_pos hle, if_pos hle]
      exact .inr ⟨_, rfl, rfl⟩
    · rw [if_neg hle, if_neg hle]
      exact .inl ⟨_, _, rfl, rfl⟩

/-- The effect of acts is defined exactly when none of them has an error. -/
theorem effects?_eq_some_iff {acts : List (Nat × Act)} :
    effects? pass (acts.map Prod.snd) p.session = some t ↔
      ∃ p', runAll pass path acts p = (none, p') ∧ p'.session = t := by
  induction acts generalizing p with
  | nil =>
    constructor
    · intro h
      cases h
      exact ⟨p, rfl, rfl⟩
    · rintro ⟨p', h, rfl⟩
      cases h
      rfl
  | cons head acts ih =>
    obtain ⟨line, act⟩ := head
    rw [List.map_cons, effects?_cons, runAll]
    rcases run_cases pass path line act p with ⟨located, p', hrun, heffect⟩ | ⟨p', hrun, heffect⟩
    · rw [hrun, heffect]
      simp
    · rw [hrun, heffect]
      exact ih

/-! ## Two runs of the same acts -/

/-- Two runs of the same acts, whichever passes they belong to, stay related if every act keeps them
so. The step may use that the first run goes on to its end. -/
theorem effects?_related {pass' : Pass} {R : Session → Session → Prop} {acts : List Act}
    {final : Session}
    (hstep : ∀ act ∈ acts, ∀ s s' t, R s t → act.effect? pass s = some s' →
      (∃ rest, effects? pass rest s' = some final) →
      ∃ t', act.effect? pass' t = some t' ∧ R s' t')
    (h : R s t) (hrun : effects? pass acts s = some final) :
    ∃ t', effects? pass' acts t = some t' ∧ R final t' := by
  induction acts generalizing s t with
  | nil =>
    cases hrun
    exact ⟨t, rfl, h⟩
  | cons act acts ih =>
    rw [effects?_cons] at hrun
    obtain ⟨s', hact, hrest⟩ := Option.bind_eq_some_iff.1 hrun
    obtain ⟨t', hact', h'⟩ := hstep act List.mem_cons_self s s' t h hact ⟨acts, hrest⟩
    obtain ⟨t'', hrest', h''⟩ := ih (fun act hmem => hstep act (List.mem_cons_of_mem _ hmem)) h' hrest
    refine ⟨t'', ?_, h''⟩
    rw [effects?_cons, hact']
    exact hrest'

/-! ## Acts and places -/

theorem spanOf_unplaced (first : Token) (rest : List Token) :
    Token.spanOf first.unplaced (rest.map Token.unplaced) = ⟨0, 0⟩ := by
  rw [Token.spanOf, List.getLast?_map]
  cases rest.getLast? <;> rfl

theorem find?_unplaced (kind : TokenKind) (tokens : List Token) :
    (tokens.map Token.unplaced).find? (fun token => token.kind == kind) =
      (tokens.find? fun token => token.kind == kind).map Token.unplaced :=
  List.find?_map ..

theorem ofLabel_unplaced (token : Token) : ofLabel token.unplaced = (ofLabel token).unplaced := by
  unfold ofLabel
  dsimp only [Token.unplaced, Pass.labelName]
  split <;> rfl

theorem ofDirective_unplaced (name : String) (first : Token) (rest : List Token) :
    ofDirective name first.unplaced (rest.map Token.unplaced) =
      (ofDirective name first rest).map unplaced := by
  have htexts : (rest.map Token.unplaced).map Token.text = rest.map Token.text := by
    rw [List.map_map]
    rfl
  unfold ofDirective
  rw [find?_unplaced, htexts, spanOf_unplaced]
  cases rest.find? fun token => token.kind == .comma with
  | some comma => rfl
  | none =>
    dsimp only [Option.map_none]
    cases Directive.read name (rest.map Token.text) with
    | error e => rfl
    | ok directive =>
      match directive with
      | .version none => rfl
      | .version (some number) =>
        dsimp only
        split <;> rfl
      | .registers requested => rfl

theorem operandTokens_unplaced (previous : TokenKind) (done rest : List Token) :
    operandTokens previous (done.map Token.unplaced) (rest.map Token.unplaced) =
      match operandTokens previous done rest with
      | .ok operands => .ok (operands.map Token.unplaced)
      | .error located => .error ⟨located.error, ⟨0, 0⟩⟩ := by
  induction rest generalizing previous done with
  | nil => simp [operandTokens]
  | cons token rest ih =>
    rw [List.map_cons, operandTokens, operandTokens, List.isEmpty_map]
    by_cases hcomma : token.kind = .comma
    · have hcomma' : token.unplaced.kind = .comma := hcomma
      rw [if_pos hcomma, if_pos hcomma']
      by_cases hprevious : previous = .comma
      · rw [if_pos hprevious, if_pos hprevious]
        rfl
      · rw [if_neg hprevious, if_neg hprevious]
        split
        · rfl
        · exact ih .comma done
    · have hcomma' : token.unplaced.kind ≠ .comma := hcomma
      rw [if_neg hcomma, if_neg hcomma', ← List.map_cons]
      exact ih _ _

theorem ofInstruction_unplaced (first : Token) (rest : List Token) :
    ofInstruction first.unplaced (rest.map Token.unplaced) =
      (ofInstruction first rest).unplaced := by
  have hoperands := operandTokens_unplaced first.kind [] rest
  rw [List.map_nil] at hoperands
  have hkind : first.unplaced.kind = first.kind := rfl
  unfold ofInstruction
  rw [hkind, hoperands, spanOf_unplaced]
  cases operandTokens first.kind [] rest <;> rfl

theorem ofStatement_unplaced (first : Token) (rest : List Token) :
    ofStatement first.unplaced (rest.map Token.unplaced) =
      (ofStatement first rest).map unplaced := by
  by_cases hcomma : first.kind = .comma
  · have hcomma' : first.unplaced.kind = .comma := hcomma
    rw [ofStatement, ofStatement, if_pos hcomma, if_pos hcomma']
    rfl
  · have hcomma' : first.unplaced.kind ≠ .comma := hcomma
    by_cases hdot : ∃ name, first.text.toList = '.' :: name
    · obtain ⟨name, hname⟩ := hdot
      have hname' : first.unplaced.text.toList = '.' :: name := hname
      rw [ofStatement_eq_directive hcomma hname, ofStatement_eq_directive hcomma' hname']
      exact ofDirective_unplaced _ first rest
    · rw [not_exists] at hdot
      have hdot' : ∀ name, first.unplaced.text.toList ≠ '.' :: name := hdot
      rw [ofStatement_eq_instruction hcomma hdot, ofStatement_eq_instruction hcomma' hdot']
      exact congrArg (fun act => [act]) (ofInstruction_unplaced first rest)

end Act

namespace SourceLine

/-- The acts of a line do not depend on its place but for the places that they tell. -/
theorem acts_unplaced (line : SourceLine) : line.unplaced.acts = line.acts.map Act.unplaced := by
  obtain ⟨number, span, tokens⟩ := line
  unfold acts unplaced
  dsimp only
  cases tokens with
  | nil => rfl
  | cons first rest =>
    rw [List.map_cons]
    dsimp only
    rw [← List.map_cons, Act.find?_unplaced]
    cases (first :: rest).find? fun token => token.kind == .garbage with
    | some garbage => rfl
    | none =>
      dsimp only [Option.map_none]
      have hlabel : Pass.isLabel first.unplaced = Pass.isLabel first := rfl
      rw [hlabel]
      split
      · rw [Act.ofLabel_unplaced]
        cases rest with
        | nil => rfl
        | cons first' rest =>
          simp only [List.map_cons, List.map_append, Act.ofStatement_unplaced, List.cons_append]
          rfl
      · rw [Act.ofStatement_unplaced, List.map_append]
        rfl

theorem flatMap_acts_contents (lines : List SourceLine) :
    (contents lines).flatMap acts = (lines.flatMap acts).map Act.unplaced := by
  induction lines with
  | nil => rfl
  | cons line lines ih =>
    rw [← List.singleton_append, contents_append, List.flatMap_append, ih, List.flatMap_append,
      List.map_append, contents_singleton]
    congr 1
    split
    · rename_i hblank
      have hacts : line.acts = [] := by
        rw [acts, List.isEmpty_iff.1 hblank]
      rw [List.flatMap_singleton, hacts]
      rfl
    · rw [List.flatMap_singleton, List.flatMap_singleton, acts_unplaced]

end SourceLine

/-! ## Passes -/

namespace Pass

/-- What a pass over some lines does to a session, if it has no error. -/
def effect? (pass : Pass) (lines : List SourceLine) (s : Session) : Option Session :=
  Act.effects? pass (lines.flatMap SourceLine.acts) s

variable {pass : Pass} {lines lines' : List SourceLine} {s d t : Session}

theorem effect?_append (lines lines' : List SourceLine) (s : Session) :
    pass.effect? (lines ++ lines') s = (pass.effect? lines s).bind (pass.effect? lines') := by
  rw [effect?, List.flatMap_append, Act.effects?_append]
  rfl

theorem effect?_append_cons (lines : List SourceLine) (line : SourceLine)
    (lines' : List SourceLine) (s : Session) :
    pass.effect? (lines ++ line :: lines') s =
      (pass.effect? lines s).bind fun t => (pass.effect? [line] t).bind (pass.effect? lines') := by
  rw [effect?_append]
  congr 1
  funext t
  rw [← List.singleton_append, effect?_append]

theorem effect?_eq_some_iff (path : String) (p : Progress) :
    pass.effect? lines p.session = some t ↔
      ∃ p', pass.lines path lines p = (none, p') ∧ p'.session = t := by
  have hacts : lines.flatMap SourceLine.acts = (SourceLine.numberedActs lines).map Prod.snd := by
    rw [SourceLine.numberedActs, List.map_flatMap]
    congr 1
    funext line
    rw [List.map_map]
    exact (List.map_id _).symm
  rw [effect?, hacts, lines_eq_runAll]
  exact Act.effects?_eq_some_iff

theorem effect?_contents (lines : List SourceLine) (s : Session) :
    pass.effect? (SourceLine.contents lines) s = pass.effect? lines s := by
  rw [effect?, SourceLine.flatMap_acts_contents, Act.effects?_unplaced]
  rfl

/-- Lines that say the same have the same effect. -/
theorem effect?_congr (h : SourceLine.contents lines = SourceLine.contents lines') (s : Session) :
    pass.effect? lines s = pass.effect? lines' s := by
  rw [← effect?_contents, h, effect?_contents]

/-- The passes of a file, where the effects of both are defined. -/
theorem exists_passes (path : String) (hd : discovery.effect? lines s = some d)
    (ht : link.effect? lines (d.truncate s.offset) = some t) :
    ∃ p q, discovery.lines path lines ⟨s, #[], #[]⟩ = (none, p) ∧
      link.lines path lines { p with session := p.session.truncate s.checkpoint.offset } =
        (none, q) ∧
      p.session = d ∧ q.session = t := by
  obtain ⟨p, hdiscovery, rfl⟩ := (effect?_eq_some_iff path ⟨s, #[], #[]⟩).1 hd
  obtain ⟨q, hlink, hq⟩ := (effect?_eq_some_iff path
    { p with session := p.session.truncate s.checkpoint.offset }).1 ht
  exact ⟨p, q, hdiscovery, hlink, rfl, hq⟩

end Pass

/-! ## Files -/

namespace SourceFile

variable {file : SourceFile} {s t : Session} {p q : Progress}

theorem assemble_of_passes
    (hdiscovery : Pass.discovery.lines file.path (SourceLine.ofText file.text) ⟨s, #[], #[]⟩ =
      (none, p))
    (hlink : Pass.link.lines file.path (SourceLine.ofText file.text)
      { p with session := p.session.truncate s.checkpoint.offset } = (none, q)) :
    file.assemble s = ⟨q.session, true, q.diagnostics⟩ := by
  unfold assemble
  dsimp only
  rw [hdiscovery]
  dsimp only
  rw [hlink]

theorem passes_of_accepted (h : (file.assemble s).accepted = true) :
    ∃ p q,
      Pass.discovery.lines file.path (SourceLine.ofText file.text) ⟨s, #[], #[]⟩ = (none, p) ∧
      Pass.link.lines file.path (SourceLine.ofText file.text)
        { p with session := p.session.truncate s.checkpoint.offset } = (none, q) := by
  unfold assemble at h
  dsimp only at h
  split at h
  · cases h
  · rename_i p hdiscovery
    split at h
    · cases h
    · rename_i q hlink
      exact ⟨p, q, hdiscovery, hlink⟩

/-- A file is accepted when the effects of both passes are defined, and then leaves the session
behind them. -/
theorem assemble_eq_iff :
    (file.assemble s).accepted = true ∧ (file.assemble s).session = t ↔
      ∃ d, Pass.discovery.effect? (SourceLine.ofText file.text) s = some d ∧
        Pass.link.effect? (SourceLine.ofText file.text) (d.truncate s.offset) = some t := by
  constructor
  · rintro ⟨haccepted, rfl⟩
    obtain ⟨p, q, hdiscovery, hlink⟩ := passes_of_accepted haccepted
    rw [assemble_of_passes hdiscovery hlink]
    exact ⟨p.session, (Pass.effect?_eq_some_iff _ _).2 ⟨p, hdiscovery, rfl⟩,
      (Pass.effect?_eq_some_iff _ _).2 ⟨q, hlink, rfl⟩⟩
  · rintro ⟨d, hd, ht⟩
    obtain ⟨p, q, hdiscovery, hlink, -, rfl⟩ := Pass.exists_passes file.path hd ht
    rw [assemble_of_passes hdiscovery hlink]
    exact ⟨rfl, rfl⟩

end SourceFile

end StackMachine.Assembly
