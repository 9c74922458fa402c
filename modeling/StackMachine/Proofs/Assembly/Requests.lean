import StackMachine.Proofs.Assembly.Literals
import StackMachine.Proofs.Assembly.RegisterCount
import StackMachine.Proofs.Assembly.Warnings

/-!
# Lines that ask for registers

A line that asks for registers with an integer literal is followed through the reader of directives,
which gives up on magnitudes beyond 63 bits, and through the session, which brings what is left into
the range that a program can have. So it is not every literal out of that range that is clamped.

* `isWord_of_isInteger`: an integer literal is a word of a line.
* `Directive.read_registers`: what the directive asks for.
* `Pass.line_of_requests`: what a pass does on the line.
* `registers_accepted_iff`: which literals are accepted, and what becomes of them.
* `not_registers_accepted`: not all of them are.
-/

namespace StackMachine.Assembly

open Text

variable {literal : String} {n : Int}

/-! ## Literals as words -/

theorem isPrinted_of_isDigit {base d : Nat} {c : Char} (hbase : base ≤ 16)
    (h : IsDigit base c d) : isPrinted c = true := by
  have hall : ∀ d < 16, isPrinted (Nat.digitChar d) = true ∧
      isPrinted (Nat.digitChar d).toUpper = true := by
    decide
  obtain ⟨hd, hc⟩ := h
  obtain ⟨hlower, hupper⟩ := hall d (hd.trans_le hbase)
  rcases hc with rfl | rfl
  · exact hlower
  · exact hupper

theorem all_isPrinted_of_isNumeral {base m : Nat} {cs : List Char} (hbase : base ≤ 16)
    (h : IsNumeral base cs m) : cs.all isPrinted = true := by
  obtain ⟨-, digits, hdigits, -⟩ := h
  induction hdigits with
  | nil => rfl
  | cons hc _ ih => rw [List.all_cons, isPrinted_of_isDigit hbase hc, ih, Bool.and_self]

theorem all_isPrinted_of_isUnsignedInteger {m : Nat} {cs : List Char}
    (h : IsUnsignedInteger cs m) : cs.all isPrinted = true := by
  rcases h with h | ⟨digits, hcs, hdigits⟩
  · exact all_isPrinted_of_isNumeral (by decide) h
  · have hall := all_isPrinted_of_isNumeral (by decide) hdigits
    rcases hcs with rfl | rfl
    all_goals
      rw [List.all_cons, List.all_cons, hall]
      rfl

theorem isWord_of_isInteger (h : IsInteger literal.toList n) : IsWord literal := by
  obtain ⟨sign, body, negative, m, hliteral, hsign, hbody, -⟩ := h
  have hne : body ≠ [] := by
    rintro rfl
    rcases hbody with ⟨hnil, -⟩ | ⟨digits, hcs | hcs, -⟩
    · exact hnil rfl
    · cases hcs
    · cases hcs
  have hsigns : sign.all isPrinted = true := by cases hsign <;> rfl
  refine isWord_of_isPrinted ?_ ?_
  · rw [hliteral]
    exact List.append_ne_nil_of_right_ne_nil _ hne
  · rw [hliteral, List.all_append, hsigns, all_isPrinted_of_isUnsignedInteger hbody, Bool.and_self]

/-! ## The line -/

/-- That the tokens of a line are the name of the directive for registers and a literal. -/
structure SourceLine.Requests (line : SourceLine) (first argument : Token) (literal : String) :
    Prop where
  tokens_eq : line.tokens = [first, argument]
  first_eq : first.unplaced = Token.word ".registers"
  argument_eq : argument.unplaced = Token.word literal

/-- The directive with a literal behind a space is such a line. -/
theorem SourceLine.exists_requests (h : IsInteger literal.toList n) :
    ∃ line first argument, ofText (".registers " ++ literal) = [line] ∧
      line.Requests first argument literal := by
  have hwords : ∀ word ∈ [".registers", literal], IsWord word := by
    simp only [List.forall_mem_cons, List.not_mem_nil, false_implies, implies_true, and_true]
    exact ⟨isWord_of_isPrinted (by decide) (by decide), isWord_of_isInteger h⟩
  obtain ⟨line, htext, htokens⟩ := ofText_words (List.cons_ne_nil _ _) hwords
  have hsame : ".registers " ++ literal = " ".intercalate [".registers", literal] := by
    rw [← String.toList_inj]
    simp [String.intercalate_cons_cons]
  obtain ⟨first, rest, hline, hfirst, hrest⟩ := List.map_eq_cons_iff.1 htokens
  obtain ⟨argument, rfl, hargument⟩ := List.map_eq_singleton_iff.1 hrest
  exact ⟨line, first, argument, hsame ▸ htext, hline, hfirst, hargument⟩

/-- The reader of directives takes an integer literal whose magnitude fits in 63 bits. -/
theorem Directive.read_registers (h : IsInteger literal.toList n) :
    read registersName [literal] =
      if n.natAbs < 2 ^ 63 then .ok (.registers n)
      else .error (.syntaxError (.integerExpected registersName literal)) := by
  have hname : registersName ≠ versionName := by decide
  have hmoderate : Literal.isModerate n = decide (n.natAbs < 2 ^ 63) := rfl
  rw [read, if_neg hname, if_pos rfl, readArgument, Literal.integer?_eq_some_iff.2 h]
  dsimp only
  rw [hmoderate]
  by_cases hfits : n.natAbs < 2 ^ 63
  · rw [if_pos (decide_eq_true hfits), if_pos hfits]
  · rw [if_neg (by simpa using hfits), if_neg hfits]

/-- What a line asks for with the literal of a number: registers, unless the number is too large. -/
def Act.ofRequest (literal : String) (n : Int) (span : Span) : Act :=
  if n.natAbs < 2 ^ 63 then registers n span
  else refuse (.syntaxError (.integerExpected Directive.registersName literal)) span

theorem Act.ofDirective_registers {first argument : Token} (hkind : argument.kind = .word)
    (h : IsInteger argument.text.toList n) :
    ofDirective Directive.registersName first [argument] =
      [ofRequest argument.text n (Token.spanOf first [argument])] := by
  have hcomma : [argument].find? (fun token => token.kind == .comma) = none := by
    simp [hkind]
  rw [ofDirective, hcomma, List.map_singleton, Directive.read_registers h, ofRequest]
  by_cases hfits : n.natAbs < 2 ^ 63
  · rw [if_pos hfits, if_pos hfits]
  · rw [if_neg hfits, if_neg hfits]

theorem SourceLine.Requests.acts_eq {line : SourceLine} {first argument : Token}
    (hline : line.Requests first argument literal) (h : IsInteger literal.toList n) :
    line.acts =
      [Act.ofRequest literal n (Token.spanOf first [argument]), .bound line.span] := by
  obtain ⟨htokens, hfirst, hargument⟩ := hline
  have hkind : first.kind = .word := congrArg Token.kind hfirst
  have hkind' : argument.kind = .word := congrArg Token.kind hargument
  have htext : argument.text = literal := congrArg Token.text hargument
  have hname : first.text.toList = '.' :: Directive.registersName.toList := by
    have hfirstText : first.text = ".registers" := congrArg Token.text hfirst
    rw [hfirstText]
    decide
  have hgarbage : [first, argument].find? (fun token => token.kind == .garbage) = none := by
    simp [hkind, hkind']
  have hlabel : Pass.isLabel first = false := by
    simp [Pass.isLabel, hname]
  subst htext
  rw [acts, htokens]
  dsimp only
  rw [hgarbage, hlabel, Act.ofStatement_eq_directive (by rw [hkind]; decide) hname,
    String.ofList_toList, Act.ofDirective_registers hkind' h]
  rfl

/-! ## Passes over the line -/

section

variable {number number' : Nat} {x : PassAction Unit} {p p' : Progress} {located : Located}

theorem run_of_told_none (h : PassAction.told number x p = (none, p')) : x.run p = .ok () p' := by
  unfold PassAction.told at h
  split at h
  · rename_i hrun
    cases h
    exact hrun
  · cases h

theorem run_of_told_some (h : PassAction.told number x p = (some (number', located), p')) :
    x.run p = .error located p' := by
  unfold PassAction.told at h
  split at h
  · cases h
  · rename_i hrun
    cases h
    exact hrun

end

/-- A request tells its warnings in discovery. -/
theorem Act.run_registers_diagnostics (pass : Pass) (path : String) (number : Nat) (n : Int)
    (span : Span) (p : Progress) :
    ((registers n span).run pass path number p).2.diagnostics.toList = p.diagnostics.toList ++
      match pass with
      | .discovery => (Directive.registers n).warnings path number p.session.registers span
      | .link => [] := by
  cases pass with
  | discovery =>
    have hloud : ¬ (registers n span).Silent := id
    obtain ⟨p', hrun, -, htold⟩ := run_loud hloud path number p
    rw [hrun]
    exact htold
  | link =>
    rw [run_link_diagnostics]
    exact (List.append_nil _).symm

/-- A pass gets through the line, or is stopped by it before anything has changed. -/
theorem Pass.line_of_requests {line : SourceLine} {first argument : Token}
    (hline : line.Requests first argument literal) (h : IsInteger literal.toList n) (pass : Pass)
    (path : String) {p : Progress} (hs : p.session.offset ≤ 65535) :
    (pass.line path line).run p =
      if n.natAbs < 2 ^ 63 then
        .ok () ((Act.registers n (Token.spanOf first [argument])).run pass path line.number p).2
      else
        .error ⟨.syntaxError (.integerExpected Directive.registersName literal),
          Token.spanOf first [argument]⟩ p := by
  have htold : PassAction.told line.number (pass.line path line) p =
      Act.runAll pass path (line.acts.map (line.number, ·)) p := told_line line p
  rw [hline.acts_eq h, Act.ofRequest] at htold
  by_cases hfits : n.natAbs < 2 ^ 63
  · obtain ⟨hnone, hsession⟩ :=
      Act.run_registers pass path line.number n (Token.spanOf first [argument]) p
    rw [if_pos hfits] at htold ⊢
    generalize hafter : (Act.registers n (Token.spanOf first [argument])).run pass path
      line.number p = after at hnone hsession ⊢
    obtain ⟨outcome, p'⟩ := after
    cases hnone
    dsimp only at hsession
    have hchecked : p'.session.checkedOffset = .ok (UInt16.ofNat p.session.offset) := by
      rw [hsession]
      exact if_pos hs
    rw [List.map_cons, List.map_singleton, Act.runAll, hafter] at htold
    dsimp only at htold
    rw [runAll_singleton, Act.run, hchecked] at htold
    exact run_of_told_none htold
  · rw [if_neg hfits] at htold ⊢
    exact run_of_told_some htold

/-- A file of this line alone is accepted exactly if both passes get through the line. -/
theorem SourceFile.accepted_of_request_iff (h : IsInteger literal.toList n) (path : String)
    {s : Session} (hs : s.offset ≤ 65535) :
    (assemble s ⟨path, ".registers " ++ literal⟩).accepted = true ↔ n.natAbs < 2 ^ 63 := by
  obtain ⟨line, first, argument, htext, hline⟩ := SourceLine.exists_requests h
  have hlines (pass : Pass) (p : Progress) (hp : p.session.offset ≤ 65535) :
      pass.lines path [line] p = if n.natAbs < 2 ^ 63 then
        (none, ((Act.registers n (Token.spanOf first [argument])).run pass path line.number p).2)
      else
        (some (line.number, ⟨.syntaxError (.integerExpected Directive.registersName literal),
          Token.spanOf first [argument]⟩), p) := by
    rw [Pass.lines, Pass.line_of_requests hline h pass path hp]
    by_cases hfits : n.natAbs < 2 ^ 63
    · rw [if_pos hfits, if_pos hfits]
      rfl
    · rw [if_neg hfits, if_neg hfits]
  unfold assemble
  dsimp only
  rw [htext, hlines .discovery ⟨s, #[], #[]⟩ hs]
  by_cases hfits : n.natAbs < 2 ^ 63
  · obtain ⟨-, hsession⟩ := Act.run_registers .discovery path line.number n
      (Token.spanOf first [argument]) ⟨s, #[], #[]⟩
    have hcut : ((s.requestRegisters n).truncate s.checkpoint.offset).offset ≤ 65535 := by
      refine le_trans ?_ hs
      simp [Session.offset, Session.truncate, Session.requestRegisters]
    rw [if_pos hfits]
    dsimp only
    rw [hsession, hlines .link _ hcut, if_pos hfits]
    exact iff_of_true rfl hfits
  · rw [if_neg hfits]
    exact iff_of_false Bool.false_ne_true hfits

/-- A number of registers is reported as clamped if it is not from zero to eight. -/
theorem Directive.registers_warnings (path : String) (number : Nat) (settings : RegisterSettings)
    (span : Span) (n : Int) :
    (Directive.registers n).warnings path number settings span =
      (if n < 0 ∨ 8 < n then
        [.ofKind .registerCountClamped path number span
          (Pass.clampMessage n (settings.request n).count)]
      else []) ++ [.ofKind .registersDirective path number span Pass.registersMessage] := by
  have hclamped : RegisterSettings.isClamped n = true ↔ n < 0 ∨ 8 < n := by
    simp [RegisterSettings.isClamped]
  simp only [Directive.warnings, hclamped]

/-- The number of registers behind a request: the first one sets it, a later one can only raise it. -/
theorem RegisterSettings.toNat_count_request (settings : RegisterSettings) (n : Int) :
    ((settings.request n).count.toNat : Int) =
      if settings.requested then max (settings.count.toNat : Int) (max 0 (min n 8))
      else max 0 (min n 8) := by
  cases hrequested : settings.requested with
  | true => exact toNat_request hrequested n
  | false =>
    rw [request_of_first hrequested, toNat_clamp]
    rfl

/-- A line that asks for registers with an integer literal is accepted exactly if the magnitude of
its number fits in 63 bits; else it is refused as no integer, and nothing has changed. An accepted
line asks for the nearest number from zero to eight, and discovery reports a number that is out of
this range as clamped. -/
theorem registers_accepted_iff (h : IsInteger literal.toList n) :
    (∃ line first argument, SourceLine.ofText (".registers " ++ literal) = [line] ∧
      line.Requests first argument literal) ∧
    (∀ path (s : Session), s.offset ≤ 65535 →
      ((SourceFile.assemble s ⟨path, ".registers " ++ literal⟩).accepted = true ↔
        n.natAbs < 2 ^ 63)) ∧
    ∀ (pass : Pass) (path : String) (line : SourceLine) (first argument : Token) (p : Progress),
      line.Requests first argument literal → p.session.offset ≤ 65535 →
      let run := (pass.line path line).run p
      let span : Span := ⟨first.span.start, argument.span.stop⟩
      let settings := p.session.registers
      let nearest := max 0 (min n 8)
      (n.natAbs < 2 ^ 63 → ∃ p', run = .ok () p' ∧
        p'.session = p.session.requestRegisters n ∧
        p'.session.registers.requested = true ∧
        (p'.session.registers.count.toNat : Int) =
          (if settings.requested then max (settings.count.toNat : Int) nearest else nearest) ∧
        p'.diagnostics.toList = p.diagnostics.toList ++
          match pass with
          | .discovery =>
            (if n < 0 ∨ 8 < n then
              [.ofKind .registerCountClamped path line.number span
                (Pass.clampMessage n p'.session.registers.count)]
            else []) ++ [.ofKind .registersDirective path line.number span Pass.registersMessage]
          | .link => []) ∧
      (2 ^ 63 ≤ n.natAbs →
        run = .error ⟨.syntaxError (.integerExpected "registers" literal), span⟩ p) := by
  refine ⟨SourceLine.exists_requests h,
    fun path s hs => SourceFile.accepted_of_request_iff h path hs,
    fun pass path line first argument p hline hs => ?_⟩
  intro run span settings nearest
  have hrun := Pass.line_of_requests hline h pass path hs
  refine ⟨fun hfits => ?_, fun hlarge => ?_⟩
  · obtain ⟨-, hsession⟩ :=
      Act.run_registers pass path line.number n (Token.spanOf first [argument]) p
    have hdiagnostics := Act.run_registers_diagnostics pass path line.number n span p
    rw [Directive.registers_warnings] at hdiagnostics
    refine ⟨_, hrun.trans (if_pos hfits), hsession, ?_, ?_, ?_⟩
    · rw [hsession]
      exact RegisterSettings.request_requested _ n
    · rw [hsession]
      exact RegisterSettings.toNat_count_request _ n
    · rw [hsession]
      exact hdiagnostics
  · exact hrun.trans (if_neg (Nat.not_lt.2 hlarge))

/-- The least number that is accepted, and the one below it. -/
theorem registers_accepted_iff_limits :
    let literal := "-0x7fffffffffffffff"
    let s := Session.start Registry.standard
    let first : Token := ⟨.word, ⟨0, 10⟩, ".registers"⟩
    let argument : Token := ⟨.word, ⟨11, 30⟩, literal⟩
    let line : SourceLine := ⟨1, ⟨0, 30⟩, [first, argument]⟩
    IsInteger literal.toList (1 - 2 ^ 63) ∧ s.offset ≤ 65535 ∧
    SourceLine.ofText (".registers " ++ literal) = [line] ∧
    (∃ p', (Pass.discovery.line "a.asm" line).run ⟨s, #[], #[]⟩ = .ok () p' ∧
      (p'.session.registers.count.toNat : Int) = 0 ∧
      p'.diagnostics.toList.map Diagnostic.kind = [.registerCountClamped, .registersDirective]) ∧
    IsInteger "-0x8000000000000000".toList (-2 ^ 63) ∧
    (SourceFile.assemble s ⟨"a.asm", ".registers -0x8000000000000000"⟩).accepted = false := by
  intro literal s first argument line
  have hleast : IsInteger literal.toList (1 - 2 ^ 63) :=
    Literal.integer?_eq_some_iff.1 (by decide)
  have hbelow : IsInteger "-0x8000000000000000".toList (-2 ^ 63) :=
    Literal.integer?_eq_some_iff.1 (by decide)
  have hs : s.offset ≤ 65535 := by decide
  refine ⟨hleast, hs, by decide +kernel, ?_, hbelow, ?_⟩
  · obtain ⟨-, -, hline⟩ := registers_accepted_iff hleast
    obtain ⟨p', hrun, -, -, hcount, hdiagnostics⟩ :=
      (hline .discovery "a.asm" line first argument ⟨s, #[], #[]⟩ ⟨rfl, rfl, rfl⟩ hs).1 (by decide)
    refine ⟨p', hrun, hcount, ?_⟩
    rw [hdiagnostics]
    rfl
  · obtain ⟨-, haccepted, -⟩ := registers_accepted_iff hbelow
    have hiff := haccepted "a.asm" s hs
    rw [Bool.eq_false_iff]
    exact fun h => absurd (hiff.1 h) (by decide)

/-- A number of more than 63 bits is no integer to the directive. -/
theorem not_registers_accepted :
    ¬ ∀ (literal : String) (n : Int) (path : String) (s : Session), IsInteger literal.toList n →
      s.offset ≤ 65535 →
      (SourceFile.assemble s ⟨path, ".registers " ++ literal⟩).accepted = true := by
  intro h
  have hn : IsInteger "9223372036854775808".toList (2 ^ 63) :=
    Literal.integer?_eq_some_iff.1 (by decide)
  have hs : (Session.start Registry.standard).offset ≤ 65535 := by decide
  have hfits := (SourceFile.accepted_of_request_iff hn "a.asm" hs).1 (h _ _ "a.asm" _ hn hs)
  exact absurd hfits (by decide)

end StackMachine.Assembly
