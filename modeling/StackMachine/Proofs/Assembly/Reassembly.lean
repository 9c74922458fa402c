import StackMachine.Proofs.Assembly.Lexing
import StackMachine.Proofs.Assembly.Progress
import StackMachine.Proofs.Instruction.RoundTrip

/-!
# Assembling what a listing shows

The text of an instruction is a line of words, each of which is told to be an operand of its own
kind: a constant is printed as a signed number that has its bit pattern, a register by its index,
and the printed offset of a label is a name like any other. So an instruction that was read from
code can be assembled from its text, by a session that knows this name.

* `Operand.isWord_toText`, `Instruction.toText_eq`: the text of an instruction, word by word.
* `integer?_signedDecimal`: a signed number is read as itself.
* `operand_toText`: the text of an operand stands for the operand.
* `reassemble`: the text of an instruction that was read is encoded as the bytes it was read from.
-/

namespace StackMachine

open Assembly

/-! ## Words -/

namespace Operand

theorem toList_constant (bits : UInt32) : (constant bits).toText.toList =
    (if Bytes.toSigned bits < 0 then ['-'] else []) ++
      Nat.toDigits 10 (Bytes.toSigned bits).natAbs := by
  rw [toText, Text.signedDecimal]
  split <;> simp [Text.decimal]

theorem toList_register (index : UInt8) :
    (register index).toText.toList = 'r' :: Nat.toDigits 10 index.toNat := by
  simp [toText, Text.decimal]

theorem toList_label (address : UInt16) : (label address).toText.toList =
    "<file_start+".toList ++ (Text.padLeft '0' 4 (Nat.toDigits 16 address.toNat) ++ ['>']) := by
  simp [toText, Text.hex]

theorem isWord_toText (operand : Operand) : IsWord operand.toText := by
  cases operand with
  | constant bits =>
    apply isWord_of_isPrinted
    · rw [toList_constant]
      exact List.append_ne_nil_of_right_ne_nil _ Nat.toDigits_ne_nil
    · rw [toList_constant, List.all_append, Bool.and_eq_true]
      refine ⟨?_, all_isPrinted_toDigits (by decide) (by decide) _⟩
      split <;> decide
  | register index =>
    apply isWord_of_isPrinted
    · rw [toList_register]
      exact List.cons_ne_nil _ _
    · rw [toList_register, List.all_cons, Bool.and_eq_true]
      exact ⟨by decide, all_isPrinted_toDigits (by decide) (by decide) _⟩
  | label address =>
    apply isWord_of_isPrinted
    · rw [toList_label]
      exact List.append_ne_nil_of_left_ne_nil (by decide) _
    · have hdigits := all_isPrinted_hex 4 address.toNat
      rw [Text.hex, String.toList_ofList] at hdigits
      rw [toList_label, List.all_append, List.all_append, hdigits]
      decide

end Operand

theorem Definition.standard_printed : ∀ d ∈ Definition.standard,
    d.mnemonic.toList ≠ [] ∧ d.mnemonic.toList.all isPrinted = true ∧ d.operands.length ≤ 1 := by
  decide +kernel

/-- With at most one operand there are no commas in the text of an instruction. -/
theorem Instruction.toText_eq {i : Instruction} (h : i.operands.length ≤ 1) :
    i.toText = String.intercalate " " (i.definition.mnemonic :: i.operands.map Operand.toText) := by
  obtain ⟨definition, operands⟩ := i
  match operands, h with
  | [], _ => rw [toText, List.map_nil, String.intercalate_singleton]
  | [operand], _ =>
    change definition.mnemonic ++ " " ++ String.intercalate ", " [operand.toText] =
      String.intercalate " " [definition.mnemonic, operand.toText]
    rw [String.intercalate_singleton, String.intercalate_cons_cons, String.intercalate_singleton]

/-! ## Operands -/

namespace Assembly

theorem isDigit_of_toDigits {n : Nat} {c : Char} (h : c ∈ Nat.toDigits 10 n) : c.isDigit = true :=
  Nat.isDigit_of_mem_toDigits (by decide) (by decide) h

theorem unsigned?_toDigits (n : Nat) : Literal.unsigned? (Nat.toDigits 10 n) = some n := by
  unfold Literal.unsigned?
  split
  -- The digits hold no letter that would make them hexadecimal.
  · rename_i digits hdigits
    have hx : 'x' ∈ Nat.toDigits 10 n := by simp [hdigits]
    exact absurd (isDigit_of_toDigits hx) (by decide)
  · rename_i digits hdigits
    have hx : 'X' ∈ Nat.toDigits 10 n := by simp [hdigits]
    exact absurd (isDigit_of_toDigits hx) (by decide)
  · exact Text.readDecimal?_toDigits n

theorem splitSign_toDigits (n : Nat) :
    Text.splitSign (Nat.toDigits 10 n) = (false, Nat.toDigits 10 n) := by
  unfold Text.splitSign
  split
  · rename_i rest hdigits
    have hminus : '-' ∈ Nat.toDigits 10 n := by simp [hdigits]
    exact absurd (isDigit_of_toDigits hminus) (by decide)
  · rename_i rest hdigits
    have hplus : '+' ∈ Nat.toDigits 10 n := by simp [hdigits]
    exact absurd (isDigit_of_toDigits hplus) (by decide)
  · rfl

theorem integer?_signedDecimal (i : Int) : Literal.integer? (Text.signedDecimal i) = some i := by
  unfold Literal.integer?
  by_cases hneg : i < 0
  · rw [Text.signedDecimal, if_pos hneg, String.toList_ofList]
    change (Literal.unsigned? (Nat.toDigits 10 i.natAbs)).map (Text.applySign true) = some i
    rw [unsigned?_toDigits, Option.map_some, Text.applySign, if_pos rfl]
    congr 1
    omega
  · rw [Text.signedDecimal, if_neg hneg, Text.decimal, String.toList_ofList, splitSign_toDigits]
    change (Literal.unsigned? (Nat.toDigits 10 i.natAbs)).map (Text.applySign false) = some i
    rw [unsigned?_toDigits, Option.map_some, Text.applySign, if_neg (by decide)]
    congr 1
    omega

theorem classify_constant (bits : UInt32) (count : UInt8) :
    OperandToken.classify (Operand.constant bits).toText count = .ok (.constant bits) := by
  have hrange : -2147483648 ≤ Bytes.toSigned bits ∧ Bytes.toSigned bits < 4294967296 := by
    have hlt := bits.toNat_lt
    unfold Bytes.toSigned
    split <;> omega
  unfold OperandToken.classify Literal.constant
  rw [Operand.toText, integer?_signedDecimal]
  dsimp only
  rw [if_pos hrange, Bytes.ofSigned_toSigned]

/-- What does not start like a number is none. -/
theorem constant_of_head {token : String} {c : Char} {cs : List Char}
    (htoken : token.toList = c :: cs) (hdigit : c.isDigit = false)
    (hsign : c ≠ '+' ∧ c ≠ '-' ∧ c ≠ '.') : Literal.constant token = .ok none := by
  obtain ⟨hplus, hminus, hpoint⟩ := hsign
  have hsplit : Text.splitSign (c :: cs) = (false, c :: cs) := by
    unfold Text.splitSign
    split
    · rename_i heq
      exact absurd (List.head_eq_of_cons_eq heq) hminus
    · rename_i heq
      exact absurd (List.head_eq_of_cons_eq heq) hplus
    · rfl
  have hzero : c ≠ '0' := by
    rintro rfl
    cases hdigit
  have hunsigned : Literal.unsigned? (c :: cs) = none := by
    unfold Literal.unsigned?
    split
    · rename_i heq
      exact absurd (List.head_eq_of_cons_eq heq) hzero
    · rename_i heq
      exact absurd (List.head_eq_of_cons_eq heq) hzero
    · simp [Text.readDecimal?, hdigit]
  rw [constant_eq_none_iff]
  constructor
  · rw [Literal.integer?, htoken, hsplit]
    dsimp only
    rw [hunsigned, Option.map_none]
  · have hbody : (c :: cs).dropWhile (fun c => c == '+' || c == '-') = c :: cs :=
      List.dropWhile_cons_of_neg (by simp [hplus, hminus])
    have hlooks : Literal.looksNumeric token = false := by
      rw [Literal.looksNumeric, htoken, hbody]
      simp [hdigit, hpoint]
    rw [Literal.float?, hlooks]
    rfl

theorem classify_register {index count : UInt8} (h : index < count) :
    OperandToken.classify (Operand.register index).toText count = .ok (.register index) := by
  have hconstant : Literal.constant (Operand.register index).toText = .ok none :=
    constant_of_head (Operand.toList_register index) (by decide) (by decide)
  have hregister : Literal.register? (Operand.register index).toText = some index.toNat := by
    rw [Literal.register?, Operand.toList_register]
    exact Text.readDecimal?_toDigits index.toNat
  unfold OperandToken.classify
  rw [hconstant, hregister]
  dsimp only
  rw [if_pos (UInt8.lt_iff_toNat_lt.1 h), UInt8.ofNat_toNat]

theorem classify_label (address : UInt16) (count : UInt8) :
    OperandToken.classify (Operand.label address).toText count =
      .ok (.label (Operand.label address).toText) := by
  have hhead : ∃ cs, (Operand.label address).toText.toList = '<' :: cs :=
    ⟨_, Operand.toList_label address⟩
  obtain ⟨cs, hcs⟩ := hhead
  obtain ⟨hinteger, hfloat⟩ :=
    constant_eq_none_iff.1 (constant_of_head hcs (by decide) (by decide))
  rw [classify_eq_label_iff]
  · refine ⟨hinteger, hfloat, ?_⟩
    rw [Literal.register?, hcs]
    rfl
  · rw [Literal.startsWithDigit, hcs]
    rfl

namespace Session

variable {s : Session}

/-- The text of an operand stands for the operand, where its register is there and its label is
known by the offset that is printed. -/
theorem operand_toText {operand : Operand}
    (hregister : ∀ index, operand = .register index → index < s.registers.count)
    (hlabel : ∀ address, operand = .label address →
      s.label? (Operand.label address).toText = some address) :
    s.operand true operand.toText = .ok operand := by
  unfold Session.operand classify
  cases operand with
  | constant bits =>
    rw [classify_constant]
    rfl
  | register index =>
    rw [classify_register (hregister index rfl)]
    rfl
  | label address =>
    rw [classify_label]
    simp only [resolve, hlabel address rfl, if_true]

end Session

end Assembly

/-! ## Instructions -/

namespace Instruction

theorem isWord_of_valid {i : Instruction} (h : i.Valid Registry.standard) :
    i.operands.length ≤ 1 ∧
      ∀ word ∈ i.definition.mnemonic :: i.operands.map Operand.toText, IsWord word := by
  obtain ⟨hne, hprinted, hlength⟩ :=
    Definition.standard_printed _ (Registry.mem_standard h.mem)
  rw [h.operands, List.length_map] at hlength
  refine ⟨hlength, ?_⟩
  rw [List.forall_mem_cons]
  refine ⟨isWord_of_isPrinted hne hprinted, fun word hword => ?_⟩
  obtain ⟨operand, -, rfl⟩ := List.mem_map.1 hword
  exact operand.isWord_toText

/-- The words of the text of an instruction, in the one line that it is. -/
theorem words_of_toText {i : Instruction} (h : i.Valid Registry.standard) :
    ∃ line mnemonic words, SourceLine.ofText i.toText = [line] ∧
      line.tokens = mnemonic :: words ∧ (∀ token ∈ line.tokens, token.kind = .word) ∧
      mnemonic.text = i.definition.mnemonic ∧
      words.map Token.text = i.operands.map Operand.toText := by
  obtain ⟨hlength, hwords⟩ := isWord_of_valid h
  obtain ⟨line, hline, htokens⟩ := SourceLine.ofText_words (List.cons_ne_nil _ _) hwords
  rw [← toText_eq hlength] at hline
  obtain ⟨mnemonic, words, htokens', hmnemonic, hrest⟩ := List.map_eq_cons_iff.1 htokens
  refine ⟨line, mnemonic, words, hline, htokens', ?_, ?_, ?_⟩
  · intro token htoken
    have hmem : token.unplaced ∈ line.tokens.map Token.unplaced := List.mem_map_of_mem htoken
    rw [htokens] at hmem
    obtain ⟨word, -, hword⟩ := List.mem_map.1 hmem
    exact (congrArg Token.kind hword).symm
  · exact congrArg Token.text hmnemonic
  · have htexts := congrArg (List.map Token.text) hrest
    rw [List.map_map, List.map_map] at htexts
    exact htexts.trans (List.map_id _)

variable {s : Session} {bytes : Bytes} {offset : Nat} {i : Instruction}

theorem encode_toText (hs : s.registry = Registry.standard) (h : i.Valid Registry.standard)
    (hoperands : ∀ operand ∈ i.operands, s.operand true operand.toText = .ok operand) :
    s.encode true i.definition.mnemonic (i.operands.map Operand.toText) = .ok i.encode := by
  rw [Session.encode_eq_ok_iff]
  refine ⟨i.operands, i.definition, ?_, ?_, rfl⟩
  · rw [List.forall₂_map_left_iff, List.forall₂_same]
    exact hoperands
  · rw [hs, Registry.standard_built.consistent.bySignature?_eq_some_iff]
    exact ⟨h.mem, rfl, h.operands⟩

/-- An instruction that was read, printed as a line of source, is assembled to the bytes that it was
read from, by a session that has its register and knows its label by the offset that is printed. -/
theorem reassemble (h : decode Registry.standard bytes offset = .ok i)
    (hs : s.registry = Registry.standard)
    (hregister : ∀ index, .register index ∈ i.operands → index < s.registers.count)
    (hlabel : ∀ address, .label address ∈ i.operands →
      s.label? ("<file_start+" ++ Text.hex 4 address.toNat ++ ">") = some address) :
    let code := bytes.extract offset (offset + i.size)
    offset + i.size ≤ bytes.size ∧
    ∃ line mnemonic words, SourceLine.ofText i.toText = [line] ∧
      line.tokens = mnemonic :: words ∧ (∀ token ∈ line.tokens, token.kind = .word) ∧
      s.encode true mnemonic.text (words.map Token.text) = .ok code.toList ∧
      (s.append code.toList).image = s.image ++ code := by
  intro code
  have hregistry := Registry.standard_built.consistent
  obtain ⟨hvalid, -⟩ := (decode_eq_ok_iff hregistry).1 h
  obtain ⟨hsize, hcode⟩ := extract_of_decode hregistry h
  obtain ⟨line, mnemonic, words, hline, htokens, hkinds, hmnemonic, hwords⟩ :=
    words_of_toText hvalid
  refine ⟨hsize, line, mnemonic, words, hline, htokens, hkinds, ?_, ?_⟩
  · rw [hmnemonic, hwords, hcode]
    apply encode_toText hs hvalid
    intro operand hoperand
    apply Session.operand_toText
    · rintro index rfl
      exact hregister index hoperand
    · rintro address rfl
      exact hlabel address hoperand
  · rw [(s.image_append code.toList).1]
    simp

/-- A jump, read in the middle of other bytes and assembled where its target has a name. -/
theorem reassemble_jump :
    let bytes : Bytes := #[0xff, 0x10, 0x08, 0x00, 0x01]
    let i : Instruction := ⟨⟨"jmp", 0x10, [.label], .jump⟩, [.label 8]⟩
    let s := ((Session.start Registry.standard).define "<file_start+0008>").2
    decode Registry.standard bytes 1 = .ok i ∧ i.toText = "jmp <file_start+0008>" ∧
    s.label? "<file_start+0008>" = some 8 ∧
    ∃ line mnemonic words, SourceLine.ofText i.toText = [line] ∧
      line.tokens = mnemonic :: words ∧ (∀ token ∈ line.tokens, token.kind = .word) ∧
      s.encode true mnemonic.text (words.map Token.text) = .ok [0x10, 0x08, 0x00] ∧
      (s.append [0x10, 0x08, 0x00]).image = s.image ++ #[0x10, 0x08, 0x00] := by
  intro bytes i s
  have hdecode : decode Registry.standard bytes 1 = .ok i := by decide +kernel
  have hknown : s.label? "<file_start+0008>" = some 8 := by decide +kernel
  have hreachable : Session.Reachable Registry.standard s := Session.Reachable.start.define _
  obtain ⟨-, hresult⟩ := reassemble hdecode hreachable.sound.registry_eq
    (by
      intro index hindex
      cases List.mem_singleton.1 hindex)
    (by
      intro address haddress
      cases List.mem_singleton.1 haddress
      exact hknown)
  exact ⟨hdecode, by decide +kernel, hknown, hresult⟩

end Instruction

end StackMachine
