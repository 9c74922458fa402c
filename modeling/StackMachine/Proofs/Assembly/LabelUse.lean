import StackMachine.Proofs.Assembly.Acceptance
import StackMachine.Proofs.Assembly.Layout

/-!
# Labels that can be jumped to

A line may define a label whose name an operand cannot spell: a definition only refuses names that
are empty or start with a digit, while an operand that reads as a number or as a register is no
label. For any other name, one more line that jumps to the label leaves the file in order.

* `SourceLine.isWord_of_label?`: a label that is defined is a word that does not start with a digit.
* `jump_accepted_iff`: which labels of an accepted file can be jumped to, and the code of the jump.
* `not_jump_accepted`: not all of them can.
-/

namespace StackMachine.Assembly

open Session

variable {s t d : Session} {name : String} {line : SourceLine}

/-! ## Labels -/

/-- The label of a line that can be read is a word that does not start with a digit. -/
theorem SourceLine.isWord_of_label? {text : String} (hline : line ∈ ofText text)
    (hreadable : line.Readable) (hname : line.label? = some name) :
    IsWord name ∧ Literal.startsWithDigit name = false := by
  obtain ⟨token, htoken, rfl⟩ := Option.map_eq_some_iff.1 hname
  obtain ⟨hhead, hlabel⟩ := Option.filter_eq_some_iff.1 htoken
  obtain ⟨rest, htokens⟩ := List.head?_eq_some_iff.1 hhead
  have hmem : token ∈ line.tokens := by rw [htokens]; exact List.mem_cons_self
  unfold Readable acts at hreadable
  rw [htokens] at hreadable
  dsimp only at hreadable
  split at hreadable
  · exact absurd (List.mem_singleton_self _) (hreadable _ _)
  · rw [if_pos hlabel] at hreadable
    unfold Act.ofLabel at hreadable
    dsimp only at hreadable
    split at hreadable
    · exact absurd List.mem_cons_self (hreadable _ _)
    · rename_i hvalid
      rw [Bool.or_eq_true, not_or, Bool.not_eq_true, Bool.not_eq_true] at hvalid
      have hkind : token.kind = .word := by
        simp only [Pass.isLabel, Bool.and_eq_true, beq_iff_eq] at hlabel
        exact hlabel.1.1
      have hword := isWord_of_mem_ofText hline hmem hkind
      have hsub : ∀ c ∈ (Pass.labelName token).toList, c ∈ token.text.toList := by
        intro c hc
        rw [Pass.labelName, String.toList_ofList] at hc
        exact List.dropLast_subset _ hc
      refine ⟨⟨?_, fun c hc => hword.class_eq c (hsub c hc), fun hc =>
        hword.hash_notMem (hsub _ hc)⟩, hvalid.2⟩
      intro hnil
      rw [String.toList_eq_nil_iff] at hnil
      rw [hnil] at hvalid
      exact absurd hvalid.1 (by decide)

/-! ## Jumps -/

/-- The line that jumps to a label. -/
def jumpLine (name : String) : SourceLine :=
  ⟨0, ⟨0, 0⟩, [Token.word "jmp", Token.word name]⟩

theorem contents_jump (h : IsWord name) :
    SourceLine.contents (SourceLine.ofText ("jmp " ++ name)) = [jumpLine name] := by
  have hwords : ∀ word ∈ ["jmp", name], IsWord word := by
    simp only [List.forall_mem_cons, List.not_mem_nil, false_implies, implies_true, and_true]
    exact ⟨isWord_of_isPrinted (by decide) (by decide), h⟩
  obtain ⟨line, htext, htokens⟩ := SourceLine.ofText_words (by simp) hwords
  have hsame : "jmp " ++ name = " ".intercalate ["jmp", name] := by
    rw [← String.toList_inj]
    simp [String.intercalate_cons_cons]
  have hne : line.tokens.isEmpty = false := by
    rw [← List.isEmpty_map (f := Token.unplaced), htokens]
    rfl
  rw [hsame, htext, SourceLine.contents_singleton, hne, SourceLine.unplaced, htokens]
  rfl

/-- What a text says with one more line that jumps. -/
theorem contents_jumping (h : IsWord name) (before after : List String) :
    SourceLine.contents
        (SourceLine.ofText ("\n".intercalate (before ++ ("jmp " ++ name) :: after))) =
      SourceLine.contents
        (before.flatMap SourceLine.ofText ++ jumpLine name :: after.flatMap SourceLine.ofText) := by
  have hjump : SourceLine.contents (SourceLine.ofText ("jmp " ++ name)) =
      SourceLine.contents [jumpLine name] := contents_jump h
  rw [SourceLine.contents_intercalate, List.flatMap_append, List.flatMap_cons,
    SourceLine.contents_append, SourceLine.contents_append, hjump, ← SourceLine.contents_append,
    ← SourceLine.contents_append, List.singleton_append]

theorem acts_jumpLine (name : String) : (jumpLine name).acts =
    [.instruction "jmp" [Token.word name] ⟨0, 0⟩, .bound ⟨0, 0⟩] := rfl

theorem standard_jump : ∀ d ∈ Definition.standard, d.mnemonic = "jmp" →
    d = ⟨"jmp", 0x10, [.label], .jump⟩ := by
  decide

theorem bySignature?_jump {kinds : List OperandKind} {definition : Definition} :
    Registry.standard.bySignature? "jmp" kinds = some definition ↔
      kinds = [.label] ∧ definition = ⟨"jmp", 0x10, [.label], .jump⟩ := by
  constructor
  · intro h
    obtain ⟨hmem, hmnemonic, rfl⟩ :=
      Registry.standard_built.consistent.bySignature?_eq_some_iff.1 h
    cases standard_jump definition (Registry.mem_standard hmem) hmnemonic
    exact ⟨rfl, rfl⟩
  · rintro ⟨rfl, rfl⟩
    decide +kernel

/-- A jump can be encoded to labels only, and takes three bytes. -/
theorem encode_jump_iff (hregistry : s.registry = Registry.standard) {bytes : List UInt8} :
    s.encode false "jmp" [name] = .ok bytes ↔
      OperandToken.meaning? name = some (.label name) ∧ bytes = 0x10 :: Bytes.bytes16 0 := by
  rw [encode_eq_ok_iff, hregistry]
  constructor
  · rintro ⟨operands, definition, hoperands, hdefinition, rfl⟩
    obtain ⟨hkinds, rfl⟩ := bySignature?_jump.1 hdefinition
    obtain ⟨operand, rest, hoperand, hrest, rfl⟩ := List.forall₂_cons_left_iff.1 hoperands
    cases hrest
    obtain ⟨found, hmeaning, -, hresolve⟩ := operand_eq_ok_iff.1 hoperand
    have hkind : found.kind = .label := by
      rw [← resolve_kind hresolve]
      exact List.head_eq_of_cons_eq hkinds
    cases found with
    | label other =>
      cases OperandToken.meaning?_label hmeaning
      cases hresolve
      exact ⟨hmeaning, rfl⟩
    | constant bits => cases hkind
    | register index => cases hkind
  · rintro ⟨hmeaning, rfl⟩
    refine ⟨[.label 0], _, .cons ?_ .nil, bySignature?_jump.2 ⟨rfl, rfl⟩, rfl⟩
    exact operand_eq_ok_iff.2 ⟨_, hmeaning, trivial, rfl⟩

/-- Discovery gets through a jump to a plain name, where there is room for it. -/
theorem effect?_jump (hregistry : s.registry = Registry.standard) :
    Pass.discovery.effect? [jumpLine name] s = some t ↔
      OperandToken.meaning? name = some (.label name) ∧ s.offset + 3 ≤ 65535 ∧
        s.append (0x10 :: Bytes.bytes16 0) = t := by
  rw [Pass.effect?, List.flatMap_singleton, acts_jumpLine, Act.effects?_cons]
  constructor
  · intro h
    obtain ⟨u, hinstruction, hrest⟩ := Option.bind_eq_some_iff.1 h
    obtain ⟨v, hbound, hend⟩ := Option.bind_eq_some_iff.1 hrest
    cases hend
    obtain ⟨bytes, hbytes, rfl⟩ := Act.instruction_iff.1 hinstruction
    obtain ⟨hle, rfl⟩ := Act.bound_iff.1 hbound
    obtain ⟨hmeaning, rfl⟩ := (encode_jump_iff hregistry).1 hbytes
    rw [offset_append] at hle
    exact ⟨hmeaning, hle, rfl⟩
  · rintro ⟨hmeaning, hle, rfl⟩
    refine Option.bind_eq_some_iff.2 ⟨_, Act.instruction_iff.2
      ⟨_, (encode_jump_iff hregistry).2 ⟨hmeaning, rfl⟩, rfl⟩, ?_⟩
    refine Option.bind_eq_some_iff.2 ⟨_, Act.bound_iff.2 ⟨?_, rfl⟩, rfl⟩
    rw [offset_append]
    exact hle

theorem encodes_jumpLine {labels : String → Option UInt16} {address : UInt16} {bytes : List UInt8}
    (hmeaning : OperandToken.meaning? name = some (.label name)) (hlabel : labels name = some address)
    (h : (jumpLine name).Encodes Registry.standard labels bytes) :
    bytes = 0x10 :: Bytes.bytes16 address := by
  cases h with
  | blank hnone => cases hnone
  | @instruction mnemonic words operands definition hsome hoperands hdefinition =>
    cases hsome
    obtain ⟨operand, rest, hoperand, hrest, rfl⟩ := List.forall₂_cons_left_iff.1 hoperands
    cases hrest
    have hlabel' : operandAt? labels name = some (.label address) := by
      simp only [operandAt?, hmeaning, hlabel, Option.map_some]
    cases hlabel'.symm.trans hoperand
    obtain ⟨hmem, hmnemonic, -⟩ := (hdefinition definition).1 rfl
    rw [standard_jump definition (Registry.mem_standard hmem) hmnemonic]
    rfl

/-! ## Files with a jump -/

/-- The link pass behind discovery appends the bytes of the lines. -/
theorem link_effect_encodes {registry : Registry} (hregistry : registry.Consistent)
    (hs : s.Sound registry) {lines : List SourceLine}
    (hd : Pass.discovery.effect? lines s = some d)
    (ht : Pass.link.effect? lines (d.truncate s.offset) = some t) :
    t.label? = d.label? ∧ ∃ chunks,
      List.Forall₂ (SourceLine.Encodes registry d.label?) lines chunks ∧
      t.code.toList = s.code.toList ++ chunks.flatten := by
  obtain ⟨p, q, hdiscovery, hlink, rfl, rfl⟩ := Pass.exists_passes "" hd ht
  have hp := Pass.lines_extends (.start hs.symbols) hdiscovery
  have hregistries : (p.session.truncate s.checkpoint.offset).registry = registry :=
    hp.registry.trans hs.registry_eq
  obtain ⟨hsymbols, chunks, hchunks, hcode⟩ := link_encodes (hregistries ▸ hregistry) hlink
  dsimp only at hsymbols hchunks hcode
  rw [hregistries] at hchunks
  have htruncate : (p.session.truncate s.checkpoint.offset).code = s.code := hp.truncate.2
  rw [htruncate] at hcode
  refine ⟨?_, chunks, hchunks, hcode⟩
  funext name
  rw [label?, label?, hsymbols]
  rfl

theorem flatten_encodes_cons {registry : Registry} {labels : String → Option UInt16}
    {before after : List SourceLine} {chunks : List (List UInt8)}
    (h : List.Forall₂ (SourceLine.Encodes registry labels) (before ++ line :: after) chunks) :
    ∃ front bytes back, chunks.flatten = front ++ bytes ++ back ∧
      line.Encodes registry labels bytes ∧
      front.length = (before.map SourceLine.codeSize).sum := by
  have hfront := (List.forall₂_take_append _ _ _ h.flip).flip
  have hback := (List.forall₂_drop_append _ _ _ h.flip).flip
  obtain ⟨bytes, rest, hline, -, hdrop⟩ := List.forall₂_cons_left_iff.1 hback
  refine ⟨(chunks.take before.length).flatten, bytes, rest.flatten, ?_, hline, ?_⟩
  · conv_lhs => rw [← List.take_append_drop before.length chunks, hdrop]
    simp
  · rw [List.length_flatten, encodes_lengths hfront]

/-- The labels of an accepted file are known behind its discovery. -/
theorem label?_ne_none (hs : s.symbols.WellFormed) {lines : List SourceLine}
    (hd : Pass.discovery.effect? lines s = some d) (hline : line ∈ lines)
    (hname : line.label? = some name) : d.label? name ≠ none := by
  obtain ⟨p, hdiscovery, rfl⟩ := (Pass.effect?_eq_some_iff "" ⟨s, #[], #[]⟩).1 hd
  obtain ⟨haddress, -, hfresh⟩ := discovery_layout hs hdiscovery
  obtain ⟨-, offset, -, hlayout⟩ := hfresh name (List.mem_filterMap.2 ⟨line, hline, hname⟩)
  rw [haddress, address, hlayout]
  exact Option.some_ne_none _

theorem Pass.effect?_sound {registry : Registry} (hs : s.Sound registry) {pass : Pass}
    {lines : List SourceLine} (h : pass.effect? lines s = some t) : t.Sound registry := by
  obtain ⟨p, hlines, rfl⟩ := (effect?_eq_some_iff "" ⟨s, #[], #[]⟩).1 h
  have hp := lines_extends (.start hs.symbols) hlines
  exact ⟨hp.registry.trans hs.registry_eq, hp.symbols⟩

section

variable {before after : List SourceLine}

/-- Discovery gets through lines with a jump to a plain name among them, where there is room. -/
theorem discovery_jump (hs : s.Sound Registry.standard)
    (hd : Pass.discovery.effect? (before ++ after) s = some d) (hroom : d.offset + 3 ≤ 65535)
    (hmeaning : OperandToken.meaning? name = some (.label name)) :
    ∃ d', Pass.discovery.effect? (before ++ jumpLine name :: after) s = some d' ∧
      Shifted 3 d d' := by
  rw [Pass.effect?_append] at hd
  obtain ⟨u, hbefore, hafter⟩ := Option.bind_eq_some_iff.1 hd
  have hu := Pass.effect?_sound hs hbefore
  have hle := Act.effects?_offset_le hafter
  have hjump := (effect?_jump hu.registry_eq).2 ⟨hmeaning, by omega, rfl⟩
  -- Behind the jump the rest of the lines is only further away, by the three bytes of the jump.
  have hshifted := shifted_append hu.symbols (0x10 :: Bytes.bytes16 0)
  obtain ⟨d', hd', hend⟩ := Pass.effect?_shifted hshifted hafter (.inr hroom)
  refine ⟨d', ?_, hend⟩
  rw [Pass.effect?_append_cons, hbefore, Option.bind_some, hjump]
  exact hd'

theorem meaning?_of_discovery_jump (hs : s.Sound Registry.standard)
    (hd : Pass.discovery.effect? (before ++ jumpLine name :: after) s = some d) :
    OperandToken.meaning? name = some (.label name) := by
  rw [Pass.effect?_append_cons] at hd
  obtain ⟨u, hbefore, hrest⟩ := Option.bind_eq_some_iff.1 hd
  obtain ⟨v, hjump, -⟩ := Option.bind_eq_some_iff.1 hrest
  exact ((effect?_jump (Pass.effect?_sound hs hbefore).registry_eq).1 hjump).1

theorem mem_operandWords_jump {word : String} :
    word ∈ SourceLine.operandWords (before ++ jumpLine name :: after) ↔
      word ∈ SourceLine.operandWords (before ++ after) ∨ word = name := by
  have hjump : SourceLine.operandWords [jumpLine name] = [name] := rfl
  rw [← List.singleton_append, SourceLine.operandWords_append, SourceLine.operandWords_append,
    SourceLine.operandWords_append, hjump]
  simp only [List.mem_append, List.mem_singleton]
  tauto

/-- With a jump among them, lines that were accepted are accepted exactly when the jump is to a label,
since that label is known. -/
theorem accepted_jump_iff (hs : s.Sound Registry.standard)
    (hd : Pass.discovery.effect? (before ++ after) s = some d)
    (hresolves : ∀ word ∈ SourceLine.operandWords (before ++ after), d.Resolves word)
    (hroom : d.offset + 3 ≤ 65535) (hknown : d.label? name ≠ none) :
    (∃ d', Pass.discovery.effect? (before ++ jumpLine name :: after) s = some d' ∧
      ∀ word ∈ SourceLine.operandWords (before ++ jumpLine name :: after), d'.Resolves word) ↔
      OperandToken.meaning? name = some (.label name) := by
  constructor
  · rintro ⟨d', hd', -⟩
    exact meaning?_of_discovery_jump hs hd'
  · intro hmeaning
    obtain ⟨d', hd', hshifted⟩ := discovery_jump hs hd hroom hmeaning
    refine ⟨d', hd', fun word hword => ?_⟩
    rcases mem_operandWords_jump.1 hword with hword | rfl
    · exact (hresolves word hword).mono hshifted.within
    · refine resolves_iff.2 ⟨_, hmeaning, trivial, fun other hother => ?_⟩
      cases hother
      exact mt (hshifted.known _).2 hknown

/-- The code of lines with a jump to a label among them. -/
theorem link_effect_jump (hs : s.Sound Registry.standard)
    (hd : Pass.discovery.effect? (before ++ jumpLine name :: after) s = some d)
    (ht : Pass.link.effect? (before ++ jumpLine name :: after) (d.truncate s.offset) = some t)
    (hmeaning : OperandToken.meaning? name = some (.label name)) (hknown : d.label? name ≠ none) :
    ∃ address front back, t.label? name = some address ∧
      t.code.toList = s.code.toList ++ (front ++ 0x10 :: Bytes.bytes16 address ++ back) ∧
      front.length = (before.map SourceLine.codeSize).sum := by
  obtain ⟨hlabels, chunks, hchunks, hcode⟩ :=
    link_effect_encodes Registry.standard_built.consistent hs hd ht
  obtain ⟨front, bytes, back, hflat, hjump, hlength⟩ := flatten_encodes_cons hchunks
  obtain ⟨address, haddress⟩ := Option.ne_none_iff_exists'.1 hknown
  refine ⟨address, front, back, ?_, ?_, hlength⟩
  · rw [hlabels, haddress]
  · rw [hcode, hflat, encodes_jumpLine hmeaning haddress hjump]

end

/-- A file that defines a label can be given one more line that jumps to it exactly when the name is
plain, as long as there is room for the jump. Its code then stands in between, with the offset that
the label has now. -/
theorem jump_accepted_iff (hs : Reachable Registry.standard s) {file : SourceFile}
    (h : (file.assemble s).accepted = true) {before after : List String}
    (htext : file.text = "\n".intercalate (before ++ after))
    (hline : line ∈ SourceLine.ofText file.text) (hname : line.label? = some name)
    (hroom : (file.assemble s).session.offset + 3 ≤ 65535) :
    let jumping : SourceFile :=
      ⟨file.path, "\n".intercalate (before ++ ("jmp " ++ name) :: after)⟩
    let s' := (jumping.assemble s).session
    (∀ count, OperandToken.classify name count = .ok (.label name) ↔ PlainName name) ∧
    ((jumping.assemble s).accepted = true ↔ PlainName name) ∧
    (PlainName name → ∃ address front back, s'.label? name = some address ∧
      s'.code.toList = s.code.toList ++ (front ++ 0x10 :: Bytes.bytes16 address ++ back) ∧
      front.length = ((before.flatMap SourceLine.ofText).map SourceLine.codeSize).sum) := by
  intro jumping s'
  have hsound := hs.sound
  obtain ⟨d, hd, hresolves, hbehind⟩ := SourceFile.shifted_of_accepted hsound.symbols h
  have hreadable : line.Readable := by
    obtain ⟨p, hdiscovery, -⟩ := (Pass.effect?_eq_some_iff "" ⟨s, #[], #[]⟩).1 hd
    exact Pass.readable hdiscovery hline
  obtain ⟨hword, hdigit⟩ := SourceLine.isWord_of_label? hline hreadable hname
  have hplain : OperandToken.meaning? name = some (.label name) ↔ PlainName name := by
    rw [OperandToken.meaning?_eq_some_iff, classify_eq_label_iff hdigit]
  have hknown := label?_ne_none hsound.symbols hd hline hname
  have hroom' : d.offset + 3 ≤ 65535 := by
    rw [hbehind.offset] at hroom
    exact hroom
  -- In both files the lines matter for what they say only.
  have hlines : SourceLine.contents (SourceLine.ofText file.text) = SourceLine.contents
      (before.flatMap SourceLine.ofText ++ after.flatMap SourceLine.ofText) := by
    rw [htext, SourceLine.contents_intercalate, List.flatMap_append]
  have hlines' := contents_jumping hword before after
  rw [Pass.effect?_congr hlines] at hd
  rw [SourceLine.operandWords_congr hlines] at hresolves
  have hiff : (jumping.assemble s).accepted = true ↔ PlainName name := by
    rw [SourceFile.accepted_iff hsound.symbols, Pass.effect?_congr hlines',
      SourceLine.operandWords_congr hlines', ← hplain]
    exact accepted_jump_iff hsound hd hresolves hroom' hknown
  refine ⟨fun count => classify_eq_label_iff hdigit, hiff, fun hname' => ?_⟩
  obtain ⟨d', hd', ht⟩ := SourceFile.assemble_eq_iff.1 ⟨hiff.2 hname', rfl⟩
  rw [Pass.effect?_congr hlines'] at hd' ht
  obtain ⟨d₁, hd₁, hshifted⟩ := discovery_jump hsound hd hroom' (hplain.2 hname')
  cases hd₁.symm.trans hd'
  exact link_effect_jump hsound hd' ht (hplain.2 hname') (mt (hshifted.known name).2 hknown)

/-- A jump back over one instruction. -/
theorem jump_accepted_iff_loop :
    let s := start Registry.standard
    let file : SourceFile := ⟨"a.asm", "loop: push 1\n"⟩
    let jumping : SourceFile := ⟨"a.asm", "loop: push 1\njmp loop\n"⟩
    (file.assemble s).accepted = true ∧ (file.assemble s).session.offset + 3 ≤ 65535 ∧
    (jumping.assemble s).accepted = true ∧
    ∃ address front back, (jumping.assemble s).session.label? "loop" = some address ∧
      (jumping.assemble s).session.code.toList =
        s.code.toList ++ (front ++ 0x10 :: Bytes.bytes16 address ++ back) ∧
      front.length = 5 := by
  intro s file jumping
  have hfile : (file.assemble s).accepted = true ∧ (file.assemble s).session.offset + 3 ≤ 65535 ∧
      ∃ line ∈ SourceLine.ofText file.text, line.label? = some "loop" := by decide +kernel
  obtain ⟨haccepted, hroom, line, hline, hname⟩ := hfile
  have hplain : PlainName "loop" := ⟨by decide +kernel, by decide +kernel, by decide +kernel⟩
  have htext : file.text = "\n".intercalate (["loop: push 1"] ++ [""]) := by decide
  have hjumping : "\n".intercalate (["loop: push 1"] ++ ("jmp " ++ "loop") :: [""]) =
      jumping.text := by decide
  obtain ⟨-, hiff, hcode⟩ := jump_accepted_iff .start haccepted htext hline hname hroom
  rw [hjumping] at hiff hcode
  obtain ⟨address, front, back, haddress, hcode, hlength⟩ := hcode hplain
  exact ⟨haccepted, hroom, hiff.2 hplain, address, front, back, haddress, hcode,
    hlength.trans (by decide +kernel)⟩

/-- A label can be defined that no instruction can name: the operand is a register. -/
theorem not_jump_accepted :
    ¬ ∀ (file : SourceFile) (line : SourceLine) (name : String),
      (file.assemble (start Registry.standard)).accepted = true →
      line ∈ SourceLine.ofText file.text → line.label? = some name →
      (file.assemble (start Registry.standard)).session.offset + 3 ≤ 65535 →
      (SourceFile.assemble (start Registry.standard)
        ⟨file.path, "\n".intercalate [file.text, "jmp " ++ name]⟩).accepted = true := by
  intro h
  let file : SourceFile := ⟨"a.asm", "r1: push 1"⟩
  have hfile : (file.assemble (start Registry.standard)).accepted = true ∧
      (file.assemble (start Registry.standard)).session.offset + 3 ≤ 65535 ∧
      ∃ line ∈ SourceLine.ofText file.text, line.label? = some "r1" := by decide +kernel
  obtain ⟨haccepted, hroom, line, hline, hname⟩ := hfile
  exact absurd (h file line "r1" haccepted hline hname hroom) (by decide +kernel)

end StackMachine.Assembly
