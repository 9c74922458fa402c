import StackMachine.Proofs.Assembly.Parts

/-!
# Commas between operands

A comma stands behind an operand and says nothing. An instruction is refused for its commas if they
begin its operands or follow one another, and then the first comma that does so is told; else what
becomes of it depends on the other tokens alone.

* `Punctuated`, `Misplaced`: commas in order, and a comma that is not.
* `operandTokens_append`: how far the reader of operands comes with commas in order.
* `punctuated_or_misplaced`: some comma is the first that is misplaced, or there is none.
* `Session.encode_not_isCommaError`: the encoder complains of other things.
* `Pass.statement_commas`: what this says of an instruction.
-/

namespace StackMachine.Assembly

/-! ## Commas in order -/

/-- That a token behind some others is a misplaced comma: nothing stands in front of it, or another
comma. -/
def Misplaced (front : List Token) (token : Token) : Prop :=
  token.kind = .comma ∧ ∀ last ∈ front.getLast?, last.kind = .comma

/-- Tokens that do not begin with a comma, and of which no two neighbours are commas. They may end
with a comma. -/
structure Punctuated (tokens : List Token) : Prop where
  head : ∀ token ∈ tokens.head?, token.kind ≠ .comma
  neighbours : tokens.IsChain fun a b => ¬ (a.kind = .comma ∧ b.kind = .comma)

/-- The error that a misplaced comma makes, behind some tokens. -/
def commaError (front : List Token) (comma : Token) : Located :=
  ⟨.syntaxError (if front = [] then .commaBeforeArgument else .commaAfterComma), comma.span⟩

/-- The tokens that are no commas. -/
def withoutCommas (tokens : List Token) : List Token :=
  tokens.filter fun token => token.kind != .comma

variable {front rest tokens : List Token} {token : Token} {previous : TokenKind}
  {done : List Token}

theorem punctuated_withoutCommas (tokens : List Token) : Punctuated (withoutCommas tokens) := by
  have hall : ∀ token ∈ withoutCommas tokens, token.kind ≠ .comma := by
    intro token htoken
    simpa using (List.mem_filter.1 htoken).2
  refine ⟨fun token htoken => hall token (List.mem_of_mem_head? htoken), ?_⟩
  refine List.Pairwise.isChain (List.Pairwise.imp_of_mem ?_ (List.pairwise_of_forall
    fun _ _ => trivial))
  rintro a b ha - - ⟨hcomma, -⟩
  exact hall a ha hcomma

theorem withoutCommas_idem (tokens : List Token) :
    withoutCommas (withoutCommas tokens) = withoutCommas tokens := by
  simp [withoutCommas]

theorem Punctuated.concat (h : Punctuated front) (htoken : ¬ Misplaced front token) :
    Punctuated (front ++ [token]) := by
  refine ⟨fun first hfirst => ?_, ?_⟩
  · cases front with
    | nil =>
      cases hfirst
      exact fun hcomma => htoken ⟨hcomma, nofun⟩
    | cons first' front => exact h.head first hfirst
  · rw [List.isChain_append]
    refine ⟨h.neighbours, .singleton _, ?_⟩
    rintro last hlast _ ⟨⟩ ⟨hcomma, hcomma'⟩
    refine htoken ⟨hcomma', fun last' hlast' => ?_⟩
    rw [Option.mem_unique hlast' hlast]
    exact hcomma

/-- There is a first misplaced comma, or none. -/
theorem punctuated_or_misplaced (tokens : List Token) : Punctuated tokens ∨
    ∃ front comma back, tokens = front ++ comma :: back ∧ Punctuated front ∧
      Misplaced front comma := by
  induction tokens using List.reverseRecOn with
  | nil => exact .inl ⟨nofun, .nil⟩
  | append_singleton tokens token ih =>
    rcases ih with h | ⟨front, comma, back, rfl, hfront, hcomma⟩
    · by_cases htoken : Misplaced tokens token
      · exact .inr ⟨tokens, token, [], rfl, h, htoken⟩
      · exact .inl (h.concat htoken)
    · exact .inr ⟨front, comma, back ++ [token], by simp, hfront, hcomma⟩

/-! ## Reading operands -/

/-- Commas in order are passed over. What the reader keeps in mind is the kind of the last token and
whether there was an operand; behind a comma in order there was one. -/
theorem operandTokens_append
    (hhead : ∀ token ∈ front.head?, token.kind = .comma → previous ≠ .comma ∧ done ≠ [])
    (hneighbours : front.IsChain fun a b => ¬ (a.kind = .comma ∧ b.kind = .comma))
    (rest : List Token) :
    operandTokens previous done (front ++ rest) =
      operandTokens ((front.getLast?.map Token.kind).getD previous)
        ((withoutCommas front).reverse ++ done) rest := by
  induction front generalizing previous done with
  | nil => rfl
  | cons token front ih =>
    rw [List.isChain_cons] at hneighbours
    obtain ⟨hnext, hneighbours⟩ := hneighbours
    have hlast : (((token :: front).getLast?.map Token.kind).getD previous) =
        (front.getLast?.map Token.kind).getD token.kind := by
      rw [List.getLast?_cons]
      cases front.getLast? <;> rfl
    rw [List.cons_append, operandTokens, hlast]
    by_cases hcomma : token.kind = .comma
    · obtain ⟨hprevious, hdone⟩ := hhead token rfl hcomma
      have hempty : done.isEmpty = false := by simpa using hdone
      have hcommas : withoutCommas (token :: front) = withoutCommas front := by
        simp [withoutCommas, hcomma]
      rw [if_pos hcomma, if_neg hprevious, hempty, if_neg Bool.false_ne_true, hcommas, hcomma]
      exact ih (fun next hnext' hcomma' => absurd ⟨hcomma, hcomma'⟩ (hnext next hnext')) hneighbours
    · have hwords : withoutCommas (token :: front) = token :: withoutCommas front := by
        simp [withoutCommas, hcomma]
      rw [if_neg hcomma, hwords, List.reverse_cons, List.append_assoc, List.singleton_append]
      exact ih (fun _ _ _ => ⟨hcomma, List.cons_ne_nil _ _⟩) hneighbours

theorem Punctuated.operandTokens_append (h : Punctuated front) (previous : TokenKind)
    (rest : List Token) :
    operandTokens previous [] (front ++ rest) =
      operandTokens ((front.getLast?.map Token.kind).getD previous)
        (withoutCommas front).reverse rest := by
  have hhead : ∀ token ∈ front.head?, token.kind = .comma →
      previous ≠ .comma ∧ ([] : List Token) ≠ [] :=
    fun token htoken hcomma => absurd hcomma (h.head token htoken)
  rw [Assembly.operandTokens_append hhead h.neighbours, List.append_nil]

theorem Punctuated.operandTokens_eq (h : Punctuated tokens) (previous : TokenKind) :
    operandTokens previous [] tokens = .ok (withoutCommas tokens) := by
  have hread := h.operandTokens_append previous []
  rw [List.append_nil] at hread
  rw [hread, operandTokens, List.reverse_reverse]

/-- The first misplaced comma ends the reading, and is told. -/
theorem Misplaced.operandTokens_eq {comma : Token} (h : Misplaced front comma)
    (hfront : Punctuated front) (hprevious : previous ≠ .comma) (back : List Token) :
    operandTokens previous [] (front ++ comma :: back) = .error (commaError front comma) := by
  rw [hfront.operandTokens_append, operandTokens, if_pos h.1, commaError]
  cases hlast : front.getLast? with
  | none =>
    obtain rfl := List.getLast?_eq_none_iff.1 hlast
    exact if_neg hprevious
  | some last =>
    have hne : front ≠ [] := by
      rintro rfl
      cases hlast
    rw [if_neg hne]
    exact if_pos (h.2 last hlast)

/-! ## Errors that commas make -/

/-- Whether an error is about a comma between operands. -/
def AssemblyError.IsCommaError (e : AssemblyError) : Prop :=
  e = .syntaxError .commaBeforeArgument ∨ e = .syntaxError .commaAfterComma

theorem OperandToken.classify_not_isCommaError {token : String} {count : UInt8}
    {e : AssemblyError} (h : OperandToken.classify token count = .error e) :
    ¬ e.IsCommaError := by
  unfold OperandToken.classify Literal.constant at h
  split at h
  · rename_i hconstant
    cases h
    split at hconstant
    · split at hconstant <;> cases hconstant
      rintro (h | h) <;> cases h
    · cases hconstant
  · cases h
  · split at h <;> split at h <;> cases h
    · rintro (h | h) <;> cases h
    · rintro (h | h) <;> cases h

namespace Session

variable {s : Session} {resolving : Bool}

theorem operand_not_isCommaError {token : String} {e : AssemblyError}
    (h : s.operand resolving token = .error e) : ¬ e.IsCommaError := by
  unfold Session.operand at h
  split at h
  · unfold resolve at h
    split at h
    · cases h
    · cases h
    · split at h
      · split at h <;> cases h
        rintro (h | h) <;> cases h
      · cases h
  · rename_i hclassify
    cases h
    exact OperandToken.classify_not_isCommaError hclassify

/-- The encoder never complains of commas. -/
theorem encode_not_isCommaError {mnemonic : String} {tokens : List String} {e : EncodeError}
    (h : s.encode resolving mnemonic tokens = .error e) : ¬ e.error.IsCommaError := by
  rw [encode_eq] at h
  split at h
  · rename_i hoperands
    cases h
    obtain ⟨index, token, -, -, htoken⟩ := operandsFrom_eq_error hoperands
    exact operand_not_isCommaError htoken
  · unfold instructionBytes at h
    split at h
    · cases h
    · cases h
      rintro (h | h) <;> cases h

end Session

/-! ## Instructions -/

namespace Pass

/-- What becomes of an instruction whose operands go to the encoder: its code is appended, or the
pass fails at the operand at fault, or else at the whole instruction. -/
def encoded (pass : Pass) (mnemonic : String) (operands : List Token) (span : Span)
    (p : Progress) : EStateM.Result Located Progress Unit :=
  match p.session.encode (pass == .link) mnemonic (operands.map Token.text) with
  | .ok bytes => .ok () { p with session := p.session.append bytes }
  | .error e => .error ⟨e.error, Act.faultSpan operands span e⟩ p

variable {pass : Pass} {first comma : Token} {p : Progress}

theorem encoded_not_isCommaError {mnemonic : String} {operands : List Token} {span : Span}
    {located : Located} {p' : Progress}
    (h : pass.encoded mnemonic operands span p = .error located p') :
    ¬ located.error.IsCommaError := by
  unfold encoded at h
  split at h
  · cases h
  · rename_i hencode
    cases h
    exact Session.encode_not_isCommaError hencode

theorem instruction_of_punctuated (pass : Pass) (first : Token) (h : Punctuated rest)
    (p : Progress) :
    (pass.instruction first rest).run p =
      pass.encoded first.text (withoutCommas rest) (Token.spanOf first rest) p := by
  have hget (f : Progress → PassAction Unit) : (get >>= f).run p = (f p).run p := rfl
  unfold instruction
  rw [h.operandTokens_eq]
  dsimp only
  rw [hget, encoded]
  cases p.session.encode (pass == .link) first.text ((withoutCommas rest).map Token.text) <;> rfl

theorem commaError_isCommaError (front : List Token) (comma : Token) :
    (commaError front comma).error.IsCommaError := by
  unfold commaError AssemblyError.IsCommaError
  dsimp only
  split
  · exact .inl rfl
  · exact .inr rfl

theorem instruction_of_not_punctuated (pass : Pass) (hfirst : first.kind ≠ .comma)
    (h : ¬ Punctuated rest) (p : Progress) :
    ∃ front comma back, rest = front ++ comma :: back ∧ Punctuated front ∧ Misplaced front comma ∧
      (pass.instruction first rest).run p = .error (commaError front comma) p := by
  obtain ⟨front, comma, back, rfl, hfront, hcomma⟩ :=
    (punctuated_or_misplaced rest).resolve_left h
  refine ⟨front, comma, back, rfl, hfront, hcomma, ?_⟩
  unfold instruction
  rw [hcomma.operandTokens_eq hfront hfirst]
  rfl

/-- Told by the tokens behind its mnemonic, an instruction is refused for its commas exactly if they
are not in order, and then at the first comma that stands in front of all operands or right behind
another. With commas in order the encoder is handed all the other tokens, and without any comma the
instruction makes the same code, or the same error with the same text. -/
theorem statement_commas (pass : Pass) (path : String) (line : Nat) {first : Token}
    (hfirst : first.kind = .word) (hname : first.text.toList.head? ≠ some '.') (rest : List Token)
    (p : Progress) :
    let run (tokens : List Token) := (pass.statement path line first tokens).run p
    ((∀ located p', run rest = .error located p' → ¬ located.error.IsCommaError) ↔
      Punctuated rest) ∧
    (Punctuated rest →
      run rest = pass.encoded first.text (withoutCommas rest) (Token.spanOf first rest) p ∧
      (∀ p', run rest = .ok () p' ↔ run (withoutCommas rest) = .ok () p') ∧
      ∀ error p', (∃ span, run rest = .error ⟨error, span⟩ p') ↔
        ∃ span, run (withoutCommas rest) = .error ⟨error, span⟩ p') ∧
    (¬ Punctuated rest → ∃ front comma back, rest = front ++ comma :: back ∧ Punctuated front ∧
      Misplaced front comma ∧ run rest = .error (commaError front comma) p) := by
  intro run
  have hkind : first.kind ≠ .comma := by
    rw [hfirst]
    decide
  have hstatement (tokens : List Token) : run tokens = (pass.instruction first tokens).run p := by
    have hword : ∀ name, first.text.toList ≠ '.' :: name := by
      intro name hdot
      rw [hdot] at hname
      exact hname rfl
    exact congrArg (·.run p) (statement_eq_instruction hkind hword)
  have hencoded {tokens : List Token} (h : Punctuated tokens) : run tokens =
      pass.encoded first.text (withoutCommas tokens) (Token.spanOf first tokens) p := by
    rw [hstatement, instruction_of_punctuated pass first h]
  refine ⟨⟨fun h => ?_, fun h located p' hrun => ?_⟩, fun h => ⟨hencoded h, ?_⟩, fun h => ?_⟩
  · by_contra hrest
    obtain ⟨front, comma, -, -, -, -, hrun⟩ := instruction_of_not_punctuated pass hkind hrest p
    rw [← hstatement] at hrun
    exact h _ _ hrun (commaError_isCommaError front comma)
  · rw [hencoded h] at hrun
    exact encoded_not_isCommaError hrun
  · rw [hencoded h, hencoded (punctuated_withoutCommas rest), withoutCommas_idem]
    unfold encoded
    cases p.session.encode (pass == .link) first.text ((withoutCommas rest).map Token.text) with
    | ok bytes => exact ⟨fun _ => .rfl, fun _ _ => by simp⟩
    | error e => exact ⟨fun _ => by simp, fun _ _ => by simp⟩
  · rw [hstatement]
    exact instruction_of_not_punctuated pass hkind h p

/-- A comma at the end of a line, and one more. -/
theorem statement_commas_pair :
    let first : Token := ⟨.word, ⟨0, 4⟩, "push"⟩
    let word : Token := ⟨.word, ⟨5, 6⟩, "1"⟩
    let comma : Token := ⟨.comma, ⟨6, 7⟩, ","⟩
    let comma' : Token := ⟨.comma, ⟨7, 8⟩, ","⟩
    let p : Progress := ⟨Session.start Registry.standard, #[], #[]⟩
    Token.ofLine 0 "push 1,,".toList = [first, word, comma, comma'] ∧
      (discovery.statement "a" 1 first [word, comma]).run p =
        .ok () { p with session := p.session.append [1, 1, 0, 0, 0] } ∧
      (discovery.statement "a" 1 first [word, comma, comma']).run p =
        .error ⟨.syntaxError .commaAfterComma, ⟨7, 8⟩⟩ p := by
  intro first word comma comma' p
  have hfirst : first.kind = .word := rfl
  have hname : first.text.toList.head? ≠ some '.' := by decide
  refine ⟨by decide +kernel, ?_, ?_⟩
  · have hone : Punctuated [word, comma] := ⟨by rintro _ ⟨⟩ ⟨⟩, by simp [word]⟩
    have hcode : p.session.encode (discovery == .link) first.text
        ((withoutCommas [word, comma]).map Token.text) = .ok [1, 1, 0, 0, 0] := by decide +kernel
    obtain ⟨-, hgood, -⟩ := statement_commas discovery "a" 1 hfirst hname [word, comma] p
    refine (hgood hone).1.trans ?_
    rw [encoded, hcode]
  · have htwo : ¬ Punctuated [word, comma, comma'] := fun h => by
      simpa [comma, comma'] using h.neighbours
    obtain ⟨-, -, hbad⟩ := statement_commas discovery "a" 1 hfirst hname [word, comma, comma'] p
    obtain ⟨front, found, back, hrest, -, hfound, hrun⟩ := hbad htwo
    -- Of the places in front of three tokens, only the last has a comma behind a comma.
    rcases front with _ | ⟨a, _ | ⟨b, _ | ⟨c, front⟩⟩⟩
    · obtain ⟨rfl, -⟩ := List.cons.inj hrest
      cases hfound.1
    · obtain ⟨rfl, -⟩ := List.cons.inj hrest
      cases hfound.2 word rfl
    · obtain ⟨rfl, -⟩ := List.cons.inj (List.cons.inj (List.cons.inj hrest).2).2
      exact hrun
    · simp at hrest

end Pass

end StackMachine.Assembly
