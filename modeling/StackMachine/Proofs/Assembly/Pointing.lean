import StackMachine.Assembly.Excerpt
import StackMachine.Proofs.Assembly.Partition
import StackMachine.Proofs.Assembly.Warnings
import StackMachine.Proofs.Text.Decoding

/-!
# Where diagnostics point to

A diagnostic has a span and the number of a line. The span is that of a token, of the tokens of a
statement or of a whole line, and both passes tell it with the number of the line that these tokens
stand on. So it marks some characters of this line, and an excerpt that is cut out by the span alone
shows the same line.

* `Marks`: that a span is that of some characters of a line.
* `SourceLine.acts_inside`: the acts of a line point to parts of the line.
* `Act.runAll_spans`, `SourceFile.assemble_told`: a diagnostic points to where an act does.
* `ShownLine.number_find`: the number of the line in an excerpt.
* `Diagnostic.exists_toText_eq`: the printed text has the path and the number of the line.
* `SourceFile.assemble_pointsInto`: what this says of each diagnostic of a file.
-/

namespace StackMachine

/-! ## The bytes in front of a place -/

namespace Text

theorem encode_append (cs cs' : List Char) : encode (cs ++ cs') = encode cs ++ encode cs' :=
  List.flatMap_append

theorem length_encode (cs : List Char) : (encode cs).length = byteSize cs := by
  induction cs with
  | nil => rfl
  | cons c cs ih =>
    rw [encode_cons, List.length_append, String.length_utf8EncodeChar, ih, byteSize_cons]

theorem count_newline_utf8EncodeChar (c : Char) :
    (String.utf8EncodeChar c).count 0x0a = [c].count '\n' := by
  rcases eq_or_ne c '\n' with rfl | hne
  · decide
  · have hbytes : 0x0a ∉ String.utf8EncodeChar c := by
      intro hmem
      rcases toNat_of_mem_utf8EncodeChar hmem with hval | ⟨hval, -⟩
      · exact hne (Char.ext (UInt32.toNat_inj.1 hval.symm))
      · exact absurd hval (by decide)
    have hchars : '\n' ∉ [c] := by simpa using hne.symm
    rw [List.count_eq_zero.2 hbytes, List.count_eq_zero.2 hchars]

/-- A line feed is one byte, and no byte of another character looks like it. -/
theorem count_newline_encode (cs : List Char) : (encode cs).count 0x0a = cs.count '\n' := by
  induction cs with
  | nil => rfl
  | cons c cs ih =>
    rw [encode_cons, List.count_append, ih, count_newline_utf8EncodeChar, ← List.count_append,
      List.singleton_append]

/-- The line feeds in front of a place in a text, counted in its bytes. -/
theorem count_newline_extract {text : String} {front rest : List Char}
    (h : text.toList = front ++ rest) :
    ((Bytes.ofString text).extract 0 (byteSize front)).count 0x0a = front.count '\n' := by
  have hbytes : ((Bytes.ofString text).extract 0 (byteSize front)).toList = encode front := by
    rw [toList_extract_zero, toList_ofString, h, encode_append, ← length_encode, List.take_left]
  rw [← Array.count_toList, hbytes, count_newline_encode]

end Text

namespace Assembly

open Text

variable {front segment : List Char}

/-! ## Parts of a line -/

/-- That a span is that of some characters of a line, which has others in front of it in its
text. -/
def Marks (front segment : List Char) (span : Span) : Prop :=
  ∃ before marked behind, segment = before ++ marked ++ behind ∧ marked ≠ [] ∧
    span = .behind (front ++ before) marked

/-- From one part of a line to the end of a later one. -/
theorem Marks.join {a b : Span} (ha : Marks front segment a) (hb : Marks front segment b)
    (h : a.start < b.stop) : Marks front segment ⟨a.start, b.stop⟩ := by
  obtain ⟨before, marked, behind, hsegment, -, rfl⟩ := ha
  obtain ⟨before', marked', behind', hsegment', -, rfl⟩ := hb
  simp only [Span.behind, byteSize_append] at h
  have hprefix : before <+: segment := ⟨marked ++ behind, by simp [hsegment]⟩
  have hprefix' : before' ++ marked' <+: segment := ⟨behind', hsegment'.symm⟩
  rcases List.prefix_or_prefix_of_prefix hprefix hprefix' with ⟨middle, hmiddle⟩ | ⟨middle, hmiddle⟩
  · have hsize := congrArg byteSize hmiddle
    rw [byteSize_append, byteSize_append] at hsize
    refine ⟨before, middle, behind', by rw [hmiddle, hsegment'], ?_, ?_⟩
    · rintro rfl
      rw [byteSize_nil] at hsize
      omega
    · simp only [Span.behind, byteSize_append, Span.mk.injEq, true_and]
      omega
  · have hsize := congrArg byteSize hmiddle
    rw [byteSize_append, byteSize_append] at hsize
    omega

theorem Marks.lt {span : Span} (h : Marks front segment span) : span.start < span.stop := by
  obtain ⟨before, marked, behind, -, hne, rfl⟩ := h
  exact Nat.lt_add_of_pos_right (byteSize_pos hne)

/-- The whole line, if it has characters. -/
theorem marks_behind (hne : segment ≠ []) : Marks front segment (.behind front segment) :=
  ⟨[], segment, [], by simp, hne, by simp⟩

theorem Marks.ne_nil {span : Span} (h : Marks front segment span) : segment ≠ [] := by
  obtain ⟨before, marked, behind, rfl, hne, -⟩ := h
  simp [hne]

/-- Tokens that mark parts of a line, in order. -/
structure Placed (front segment : List Char) (tokens : List Token) : Prop where
  marks : ∀ token ∈ tokens, Marks front segment token.span
  ascending : tokens.Pairwise fun a b => a.span.stop ≤ b.span.start

namespace Placed

variable {first : Token} {rest : List Token}

theorem head (h : Placed front segment (first :: rest)) : Marks front segment first.span :=
  h.marks first List.mem_cons_self

theorem tail (h : Placed front segment (first :: rest)) : Placed front segment rest :=
  ⟨fun token htoken => h.marks token (List.mem_cons_of_mem _ htoken), h.ascending.of_cons⟩

/-- The span from the first to the last of some tokens. -/
theorem spanOf (h : Placed front segment (first :: rest)) :
    Marks front segment (Token.spanOf first rest) := by
  have hfirst := h.head
  rw [Token.spanOf]
  cases hlast : rest.getLast? with
  | none => exact hfirst
  | some last =>
    have hmem : last ∈ rest := List.mem_of_getLast? hlast
    have hmarks := h.tail.marks last hmem
    have hafter := List.rel_of_pairwise_cons h.ascending hmem
    have hlt := hfirst.lt
    have hlt' := hmarks.lt
    rw [Option.getD_some]
    exact hfirst.join hmarks (by omega)

end Placed

theorem IsLexed.placed {tokens : List Token} (h : IsLexed front segment tokens) :
    Placed front segment tokens := by
  refine ⟨fun token htoken => ?_, h.ascending⟩
  obtain ⟨before, run, behind, hsegment, hne, -, hspan⟩ := h.inside token htoken
  exact ⟨before, run, behind, hsegment, hne, hspan⟩

/-! ## Acts -/

namespace Act

/-- The spans that an act can point to. -/
def spans : Act → List Span
  | refuse _ span | label _ span | version _ span | registers _ span | bound span => [span]
  | instruction _ operands span => span :: operands.map Token.span

/-- That an act can only point to parts of a line. -/
def Inside (front segment : List Char) (act : Act) : Prop :=
  ∀ span ∈ act.spans, Marks front segment span

variable {act : Act} {first : Token} {rest : List Token}

theorem inside_of_spans_eq {span : Span} (h : act.spans = [span])
    (hspan : Marks front segment span) : act.Inside front segment := by
  rw [Inside, h]
  exact List.forall_mem_singleton.2 hspan

theorem ofLabel_inside {token : Token} (h : Marks front segment token.span) :
    (ofLabel token).Inside front segment := by
  unfold ofLabel
  dsimp only
  split
  · exact inside_of_spans_eq rfl h
  · exact inside_of_spans_eq rfl h

/-- A directive points to a comma, or to all of its tokens. -/
theorem ofDirective_inside {name : String} (h : Placed front segment (first :: rest)) :
    ∀ act ∈ ofDirective name first rest, act.Inside front segment := by
  have hspan := h.spanOf
  unfold ofDirective
  cases hcomma : rest.find? fun token => token.kind == .comma with
  | some comma =>
    have hmarks := h.tail.marks comma (List.mem_of_find?_eq_some hcomma)
    exact List.forall_mem_singleton.2 (inside_of_spans_eq rfl hmarks)
  | none =>
    dsimp only
    split
    · exact List.forall_mem_singleton.2 (inside_of_spans_eq rfl hspan)
    · exact List.forall_mem_nil _
    · split
      · exact List.forall_mem_nil _
      · exact List.forall_mem_singleton.2 (inside_of_spans_eq rfl hspan)
    · exact List.forall_mem_singleton.2 (inside_of_spans_eq rfl hspan)

/-- A misplaced comma is one of the tokens. -/
theorem exists_of_operandTokens_error {previous : TokenKind} {done : List Token}
    {located : Located} (h : operandTokens previous done rest = .error located) :
    ∃ token ∈ rest, located.span = token.span := by
  induction rest generalizing previous done with
  | nil => cases h
  | cons token rest ih =>
    have hrest {previous : TokenKind} {done : List Token}
        (h : operandTokens previous done rest = .error located) :
        ∃ token' ∈ token :: rest, located.span = token'.span := by
      obtain ⟨token', htoken', hspan⟩ := ih h
      exact ⟨token', List.mem_cons_of_mem _ htoken', hspan⟩
    rw [operandTokens] at h
    split at h
    · split at h
      · cases h
        exact ⟨token, List.mem_cons_self, rfl⟩
      · split at h
        · cases h
          exact ⟨token, List.mem_cons_self, rfl⟩
        · exact hrest h
    · exact hrest h

theorem ofInstruction_inside (h : Placed front segment (first :: rest)) :
    (ofInstruction first rest).Inside front segment := by
  rw [ofInstruction]
  cases hoperands : operandTokens first.kind [] rest with
  | error located =>
    obtain ⟨token, htoken, hspan⟩ := exists_of_operandTokens_error hoperands
    exact inside_of_spans_eq rfl (hspan ▸ h.tail.marks token htoken)
  | ok operands =>
    intro span hmem
    rcases List.mem_cons.1 hmem with rfl | hmem
    · exact h.spanOf
    · obtain ⟨token, htoken, rfl⟩ := List.mem_map.1 hmem
      rw [operandTokens_eq hoperands] at htoken
      exact h.tail.marks token (List.mem_of_mem_filter htoken)

theorem ofStatement_inside (h : Placed front segment (first :: rest)) :
    ∀ act ∈ ofStatement first rest, act.Inside front segment := by
  by_cases hcomma : first.kind = .comma
  · rw [ofStatement, if_pos hcomma]
    exact List.forall_mem_singleton.2 (inside_of_spans_eq rfl h.head)
  · by_cases hdot : ∃ name, first.text.toList = '.' :: name
    · obtain ⟨name, hname⟩ := hdot
      rw [ofStatement_eq_directive hcomma hname]
      exact ofDirective_inside h
    · rw [not_exists] at hdot
      rw [ofStatement_eq_instruction hcomma hdot]
      exact List.forall_mem_singleton.2 (ofInstruction_inside h)

end Act

/-- The acts of a line point to parts of the line. -/
theorem SourceLine.acts_inside {line : SourceLine} (hspan : line.span = .behind front segment)
    (h : Placed front segment line.tokens) : ∀ act ∈ line.acts, act.Inside front segment := by
  rw [acts]
  cases htokens : line.tokens with
  | nil => exact List.forall_mem_nil _
  | cons first rest =>
    rw [htokens] at h
    -- A line with a token is not empty, so its own span marks a part of it too.
    have hline : Marks front segment line.span := hspan ▸ marks_behind h.head.ne_nil
    have hbound : (Act.bound line.span).Inside front segment := Act.inside_of_spans_eq rfl hline
    have hlabel : (Act.ofLabel first).Inside front segment := Act.ofLabel_inside h.head
    cases hgarbage : (first :: rest).find? fun token => token.kind == .garbage with
    | some garbage =>
      have hmarks := h.marks garbage (List.mem_of_find?_eq_some hgarbage)
      exact List.forall_mem_singleton.2 (Act.inside_of_spans_eq rfl hmarks)
    | none =>
      dsimp only
      split
      · cases rest with
        | nil =>
          simp only [List.cons_append, List.nil_append, List.forall_mem_cons]
          exact ⟨hlabel, hbound, List.forall_mem_nil _⟩
        | cons first' rest =>
          simp only [List.cons_append, List.forall_mem_cons, List.forall_mem_append]
          exact ⟨hlabel, Act.ofStatement_inside h.tail, hbound, List.forall_mem_nil _⟩
      · rw [List.forall_mem_append, List.forall_mem_singleton]
        exact ⟨Act.ofStatement_inside h, hbound⟩

/-! ## Diagnostics -/

theorem Progress.mem_warned {pass : Pass} {path : String} {line : Nat} {kind : DiagnosticKind}
    {span : Span} {message : String} {p : Progress} {d : Diagnostic}
    (h : d ∈ (p.warned pass path line kind span message).diagnostics) :
    d ∈ p.diagnostics ∨ d.path = path ∧ d.line = line ∧ d.span = span := by
  cases pass with
  | discovery =>
    rcases Array.mem_push.1 h with h | rfl
    · exact .inl h
    · exact .inr ⟨rfl, rfl, rfl⟩
  | link => exact .inl h

namespace Act

variable {pass : Pass} {path : String} {line : Nat}

/-- The operand at fault, or the whole instruction. -/
theorem faultSpan_mem (mnemonic : String) (operands : List Token) (span : Span) (e : EncodeError) :
    faultSpan operands span e ∈ (instruction mnemonic operands span).spans := by
  unfold faultSpan
  split
  · next token htoken =>
    obtain ⟨index, -, hindex⟩ := Option.bind_eq_some_iff.1 htoken
    exact List.mem_cons_of_mem _ (List.mem_map_of_mem (List.mem_of_getElem? hindex))
  · exact List.mem_cons_self

/-- An act that fails points to one of its spans. -/
theorem run_located {act : Act} {p p' : Progress} {located : Located}
    (h : act.run pass path line p = (some located, p')) : located.span ∈ act.spans := by
  cases act with
  | refuse error span =>
    cases h
    exact List.mem_singleton_self _
  | label name span =>
    cases pass with
    | discovery =>
      simp only [run] at h
      split at h <;> cases h
      exact List.mem_singleton_self _
    | link =>
      simp only [run] at h
      split at h <;> cases h
      exact List.mem_singleton_self _
  | version number span => cases h
  | registers requested span => cases h
  | instruction mnemonic operands span =>
    simp only [run] at h
    split at h <;> cases h
    exact faultSpan_mem mnemonic operands span _
  | bound span =>
    simp only [run] at h
    split at h <;> cases h
    exact List.mem_singleton_self _

/-- What an act warns of is told of one of its spans. -/
theorem mem_run_diagnostics {act : Act} {p : Progress} {d : Diagnostic}
    (h : d ∈ (act.run pass path line p).2.diagnostics) :
    d ∈ p.diagnostics ∨ d.path = path ∧ d.line = line ∧ d.span ∈ act.spans := by
  by_cases hsilent : act.Silent
  · rw [run_silent hsilent] at h
    exact .inl h
  · cases act with
    | version number span =>
      refine (Progress.mem_warned h).imp_right ?_
      rintro ⟨hpath, hline, rfl⟩
      exact ⟨hpath, hline, List.mem_singleton_self _⟩
    | registers requested span =>
      simp only [run] at h
      rcases Progress.mem_warned h with h | ⟨hpath, hline, rfl⟩
      · split at h
        · refine (Progress.mem_warned h).imp_right ?_
          rintro ⟨hpath, hline, rfl⟩
          exact ⟨hpath, hline, List.mem_singleton_self _⟩
        · exact .inl h
      · exact .inr ⟨hpath, hline, List.mem_singleton_self _⟩
    | refuse _ _ => exact absurd trivial hsilent
    | label _ _ => exact absurd trivial hsilent
    | instruction _ _ _ => exact absurd trivial hsilent
    | bound _ => exact absurd trivial hsilent

/-- What a run of acts tells is told of a span of one of them, with the number of its line. -/
theorem runAll_spans (pass : Pass) (path : String) (acts : List (Nat × Act)) (p : Progress) :
    (∀ number located, (runAll pass path acts p).1 = some (number, located) →
      ∃ act, (number, act) ∈ acts ∧ located.span ∈ act.spans) ∧
    ∀ d ∈ (runAll pass path acts p).2.diagnostics, d ∈ p.diagnostics ∨
      d.path = path ∧ ∃ act, (d.line, act) ∈ acts ∧ d.span ∈ act.spans := by
  induction acts generalizing p with
  | nil => exact ⟨nofun, fun d hd => .inl hd⟩
  | cons head acts ih =>
    obtain ⟨line, act⟩ := head
    have hdiagnostics {d : Diagnostic} (h : d ∈ (act.run pass path line p).2.diagnostics) :
        d ∈ p.diagnostics ∨
          d.path = path ∧ ∃ act', (d.line, act') ∈ (line, act) :: acts ∧ d.span ∈ act'.spans := by
      refine (mem_run_diagnostics h).imp_right ?_
      rintro ⟨hpath, rfl, hspan⟩
      exact ⟨hpath, act, List.mem_cons_self, hspan⟩
    rw [runAll]
    split
    · next p' hrun =>
      rw [hrun] at hdiagnostics
      obtain ⟨hfailed, htold⟩ := ih p'
      refine ⟨fun number located h => ?_, fun d hd => ?_⟩
      · obtain ⟨act', hmem, hspan⟩ := hfailed number located h
        exact ⟨act', List.mem_cons_of_mem _ hmem, hspan⟩
      · rcases htold d hd with hd | ⟨hpath, act', hmem, hspan⟩
        · exact hdiagnostics hd
        · exact .inr ⟨hpath, act', List.mem_cons_of_mem _ hmem, hspan⟩
    · next located p' hrun =>
      rw [hrun] at hdiagnostics
      refine ⟨fun number located' h => ?_, fun d hd => hdiagnostics hd⟩
      cases h
      exact ⟨act, List.mem_cons_self, run_located hrun⟩

end Act

/-- That an act of the line with a number can point to a span. -/
def Targets (lines : List SourceLine) (number : Nat) (span : Span) : Prop :=
  ∃ line ∈ lines, line.number = number ∧ ∃ act ∈ line.acts, span ∈ act.spans

/-- That a diagnostic is told of what an act can point to, with the number of its line. -/
def Diagnostic.Told (path : String) (lines : List SourceLine) (d : Diagnostic) : Prop :=
  d.path = path ∧ Targets lines d.line d.span

/-- A pass goes on telling so, and what ends it is told so too. -/
theorem Pass.lines_told {pass : Pass} {path : String} {lines : List SourceLine} {p p' : Progress}
    {outcome : Option (Nat × Located)} (h : pass.lines path lines p = (outcome, p'))
    (hp : ∀ d ∈ p.diagnostics, d.Told path lines) :
    (∀ d ∈ p'.diagnostics, d.Told path lines) ∧
      ∀ number located, outcome = some (number, located) → Targets lines number located.span := by
  have htargets {number : Nat} {span : Span}
      (h : ∃ act, (number, act) ∈ SourceLine.numberedActs lines ∧ span ∈ act.spans) :
      Targets lines number span := by
    obtain ⟨act, hmem, hspan⟩ := h
    obtain ⟨line, hline, hnumber, hact⟩ := SourceLine.mem_numberedActs.1 hmem
    exact ⟨line, hline, hnumber, act, hact, hspan⟩
  obtain ⟨hfailed, htold⟩ :=
    Act.runAll_spans pass path (SourceLine.numberedActs lines) p
  rw [← lines_eq_runAll, h] at hfailed htold
  refine ⟨fun d hd => ?_, fun number located houtcome => htargets (hfailed _ _ houtcome)⟩
  rcases htold d hd with hd | ⟨hpath, hspan⟩
  · exact hp d hd
  · exact ⟨hpath, htargets hspan⟩

theorem SourceFile.reject_told {path : String} {lines : List SourceLine} {point : Checkpoint}
    {number : Nat} {located : Located} {p : Progress}
    (hp : ∀ d ∈ p.diagnostics, d.Told path lines) (h : Targets lines number located.span) :
    ∀ d ∈ (reject path point number located p).diagnostics, d.Told path lines := by
  intro d hd
  rcases Array.mem_push.1 hd with hd | rfl
  · exact hp d hd
  · exact ⟨rfl, h⟩

/-- The warnings of discovery, and the error that ends either pass. -/
theorem SourceFile.assemble_told (session : Session) (file : SourceFile) :
    ∀ d ∈ (file.assemble session).diagnostics, d.Told file.path (SourceLine.ofText file.text) := by
  unfold assemble
  dsimp only
  split
  · next number located p hdiscovery =>
    obtain ⟨hp, hfailed⟩ := Pass.lines_told hdiscovery nofun
    exact reject_told hp (hfailed _ _ rfl)
  · next p hdiscovery =>
    obtain ⟨hp, -⟩ := Pass.lines_told hdiscovery nofun
    split
    · next number located q hlink =>
      obtain ⟨hq, hfailed⟩ := Pass.lines_told hlink hp
      exact reject_told hq (hfailed _ _ rfl)
    · next q hlink => exact (Pass.lines_told hlink hp).1

/-! ## Excerpts -/

namespace ShownLine

theorem ofPieces_eq (number start : Nat) (done : List ShownLine) (pieces : List (List Char)) :
    ofPieces number start done pieces = done.reverse ++ ofPieces number start [] pieces := by
  induction pieces generalizing number start done with
  | nil => simp [ofPieces]
  | cons piece pieces ih =>
    rw [ofPieces, ih, ofPieces, ih _ _ [_]]
    simp

theorem ofPieces_cons (number start : Nat) (piece : List Char) (pieces : List (List Char)) :
    ofPieces number start [] (piece :: pieces) =
      ⟨number, start, start + byteSize piece, contentOf piece⟩ ::
        ofPieces (number + 1) (start + byteSize piece) [] pieces := by
  rw [ofPieces, ofPieces_eq]
  rfl

/-- A place in a line is found in the line with its number. -/
theorem find?_ofPieces {cs front segment back : List Char} (number start : Nat) {offset : Nat}
    (h : IsLine cs front segment back) (hle : start + byteSize front ≤ offset)
    (hlt : offset < start + byteSize front + byteSize segment) :
    ∃ line, (ofPieces number start [] (SourceLine.pieces cs)).find?
        (fun line => offset < line.next) = some line ∧
      line.number = number + front.count '\n' := by
  induction cs using SourceLine.text_induction generalizing number start front with
  | hlast line hline =>
    obtain ⟨rfl, rfl, rfl⟩ := (isSegment_of_no_newline hline).1 h.toIsSegment
    have hne : segment ≠ [] := h.ne_nil.resolve_right (not_not.2 rfl)
    rw [byteSize_nil, Nat.add_zero] at hlt
    rw [SourceLine.pieces_of_no_newline hline hne, ofPieces_cons]
    exact ⟨_, List.find?_cons_of_pos (decide_eq_true hlt), rfl⟩
  | hline line rest hline ih =>
    rw [SourceLine.pieces_append_newline hline, ofPieces_cons]
    rcases (isLine_line_iff hline).1 h with ⟨rfl, rfl, rfl⟩ | ⟨front, rfl, hrest⟩
    · have hnext : offset < start + byteSize (segment ++ ['\n']) := by
        rw [byteSize_nil] at hlt
        rw [byteSize_append]
        omega
      exact ⟨_, List.find?_cons_of_pos (decide_eq_true hnext), rfl⟩
    · have hsize : byteSize (line ++ '\n' :: front) =
          byteSize (line ++ ['\n']) + byteSize front := by
        rw [← byteSize_append, List.append_assoc, List.singleton_append]
      have hnext : ¬ offset < start + byteSize (line ++ ['\n']) := by omega
      obtain ⟨found, hfound, hnumber⟩ := ih (number + 1) (start + byteSize (line ++ ['\n'])) hrest
        (by omega) (by omega)
      refine ⟨found, ?_, ?_⟩
      · rw [List.find?_cons_of_neg (by simpa using hnext)]
        exact hfound
      · have hcount : line.count '\n' = 0 := List.count_eq_zero.2 hline
        rw [hnumber, List.count_append, List.count_cons_self, hcount]
        omega

/-- The line that a place in a line is shown with. -/
theorem number_find {text : String} {front segment back : List Char} {offset : Nat}
    (h : IsLine text.toList front segment back) (hle : byteSize front ≤ offset)
    (hlt : offset < byteSize front + byteSize segment) :
    (find (ofText text) offset).number = front.count '\n' + 1 := by
  have hle' : 0 + byteSize front ≤ offset := by omega
  obtain ⟨line, hline, hnumber⟩ := find?_ofPieces 1 0 h hle' (by omega)
  rw [find, ofText, hline]
  exact hnumber.trans (Nat.add_comm _ _)

end ShownLine

theorem Excerpt.clampSpan_of_lt {span : Span} {size : Nat} (hlt : span.start < span.stop)
    (hle : span.stop ≤ size) : clampSpan span size = span := by
  rw [clampSpan, Nat.min_eq_left hle, Nat.min_eq_left (by omega), if_neg (by omega)]

/-- How a diagnostic is told where it points to: by its path and the number of its line. -/
def Diagnostic.place (d : Diagnostic) : String :=
  d.path ++ ":" ++ Text.decimal d.line ++ ":"

theorem Diagnostic.exists_toText_eq (d : Diagnostic) : ∃ rest, d.toText = d.place ++ rest := by
  have hspace : ": " = ":" ++ " " := by decide
  refine ⟨" " ++ d.severity.name ++ ": " ++ d.message, ?_⟩
  rw [toText, hspace, place]
  simp only [String.append_assoc]

/-- An excerpt begins with its path, the number of its line and its column. -/
theorem Excerpt.exists_toText_eq (style : ExcerptStyle) {d : Diagnostic} {e : Excerpt}
    (h : e.number = d.line) : ∃ below, e.toText style d.severity d.path =
      spaces (Text.decimal d.line).length ++ style.frame ++ "--> " ++ style.reset ++
        (d.place ++ Text.decimal e.column ++ "\n") ++ below := by
  unfold toText Diagnostic.place
  rw [h]
  simp only [String.append_assoc]
  exact ⟨_, rfl⟩

/-! ## Whole files -/

/-- Where a diagnostic of a file points to. -/
structure Diagnostic.PointsInto (file : SourceFile) (d : Diagnostic) : Prop where
  path_eq : d.path = file.path
  /-- There is a line with the number of the diagnostic. -/
  exists_line : ∃ line ∈ SourceLine.ofText file.text, line.number = d.line
  /-- The span lies inside of the span of this line. -/
  inside : ∀ line ∈ SourceLine.ofText file.text, line.number = d.line →
    line.span.start ≤ d.span.start ∧ d.span.stop ≤ line.span.stop
  /-- The span is that of some whole characters of the text, at least one. -/
  characters : ∃ front marked back, file.text.toList = front ++ marked ++ back ∧ marked ≠ [] ∧
    d.span = .behind front marked
  nonempty : d.span.start < d.span.stop
  /-- The number tells how many line feeds there are in the bytes in front of the span. -/
  line_eq : d.line = 1 + ((Bytes.ofString file.text).extract 0 d.span.start).count 0x0a
  /-- A diagnostic without an excerpt begins with its place. -/
  plain : ∃ rest, d.toText = d.place ++ rest
  /-- The excerpt, which is cut out by the span alone, has the number that a diagnostic without an
  excerpt tells, and begins with the same place. -/
  excerpt : ∃ e : Excerpt, e.number = d.line ∧ ∀ style,
    d.withExcerpt style (.ofSource file) =
      d.title style ++ "\n" ++ e.toText style d.severity d.path ∧
    ∃ below, e.toText style d.severity d.path =
      Excerpt.spaces (Text.decimal d.line).length ++ style.frame ++ "--> " ++ style.reset ++
        (d.place ++ Text.decimal e.column ++ "\n") ++ below

theorem SourceLine.eq_of_number_eq {text : String} {line line' : SourceLine}
    (hline : line ∈ ofText text) (hline' : line' ∈ ofText text)
    (h : line.number = line'.number) : line = line' := by
  have hnodup : ((ofText text).map number).Nodup := by
    rw [numbers_ofText]
    exact List.nodup_range'
  exact List.inj_on_of_nodup_map hnodup hline hline' h

/-- A diagnostic with the number of a line and a span that marks a part of it. -/
theorem Diagnostic.pointsInto_of_marks {file : SourceFile} {d : Diagnostic}
    {front segment back : List Char} (hpath : d.path = file.path)
    (hplace : IsLine file.text.toList front segment back)
    (hnumber : front.count '\n' + 1 = d.line) (hmarks : Marks front segment d.span) :
    d.PointsInto file := by
  have hlt := hmarks.lt
  obtain ⟨before, marked, behind, hsegment, hne, hspan⟩ := hmarks
  have htext : file.text.toList = front ++ before ++ (marked ++ (behind ++ back)) := by
    rw [hplace.eq, hsegment]
    simp
  have hstart : d.span.start = byteSize (front ++ before) := by rw [hspan]; rfl
  have hstop : d.span.stop = byteSize (front ++ before) + byteSize marked := by rw [hspan]; rfl
  have hsize : byteSize segment = byteSize before + byteSize marked + byteSize behind := by
    rw [hsegment, byteSize_append, byteSize_append]
  rw [byteSize_append] at hstart hstop
  have hfound := (SourceLine.mem_ofText_iff file.text _).2 ⟨front, segment, back, hplace, rfl⟩
  refine ⟨hpath, ⟨_, hfound, hnumber⟩, fun line hline hline' => ?_, ?_, hlt, ?_,
    d.exists_toText_eq, ?_⟩
  · obtain rfl := SourceLine.eq_of_number_eq hfound hline (hnumber.trans hline'.symm)
    dsimp only [Span.behind]
    omega
  · exact ⟨front ++ before, marked, behind ++ back, by rw [htext]; simp, hne, hspan⟩
  · have hbefore : before.count '\n' = 0 := by
      rw [List.count_eq_zero]
      intro hmem
      exact hplace.newline_notMem (hsegment ▸ by simp [hmem])
    rw [hstart, ← byteSize_append, count_newline_extract htext, List.count_append, hbefore]
    omega
  · have htotal : file.text.utf8ByteSize = byteSize file.text.toList := by
      rw [byteSize, String.ofList_toList]
    have hclamp : Excerpt.clampSpan d.span file.text.utf8ByteSize = d.span := by
      apply Excerpt.clampSpan_of_lt hlt
      rw [htotal, htext, byteSize_append, byteSize_append, byteSize_append]
      omega
    have hline : (ShownLine.find (ShownLine.ofText file.text) d.span.start).number = d.line :=
      (ShownLine.number_find hplace (by omega) (by omega)).trans hnumber
    refine ⟨Excerpt.ofLine (ShownLine.find (ShownLine.ofText file.text) d.span.start) d.span,
      hline, fun style => ⟨?_, Excerpt.exists_toText_eq style hline⟩⟩
    rw [withExcerpt, ShownFile.ofSource]
    dsimp only
    rw [hclamp]

/-- Whatever a session holds, each diagnostic of a file points into the line with its number. -/
theorem SourceFile.assemble_pointsInto (session : Session) (file : SourceFile) :
    ∀ d ∈ (file.assemble session).diagnostics, d.PointsInto file := by
  intro d hd
  obtain ⟨hpath, line, hline, hnumber, act, hact, hspan⟩ := file.assemble_told session d hd
  obtain ⟨front, segment, back, hplace, rfl⟩ := (SourceLine.mem_ofText_iff _ line).1 hline
  have hinside := SourceLine.acts_inside rfl (Token.ofLine_isLexed front segment).placed act hact
  exact Diagnostic.pointsInto_of_marks hpath hplace hnumber (hinside d.span hspan)

/-- A label that the link pass does not find, behind a character of two bytes. -/
theorem SourceFile.assemble_pointsInto_operand :
    let file : SourceFile := ⟨"a", "end # µ\njmp nowhere\n.registers 99"⟩
    let d : Diagnostic :=
      ⟨.unresolvedLabel, .error, "a", 2, ⟨13, 20⟩, "label not found: `nowhere`"⟩
    d ∈ (file.assemble (Session.start Registry.standard)).diagnostics ∧ d.PointsInto file := by
  intro file d
  have hmem : d ∈ (file.assemble (Session.start Registry.standard)).diagnostics := by
    decide +kernel
  exact ⟨hmem, assemble_pointsInto _ file d hmem⟩

end Assembly

end StackMachine
