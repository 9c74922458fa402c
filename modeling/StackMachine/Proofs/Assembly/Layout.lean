import StackMachine.Proofs.Assembly.Parts
import StackMachine.Proofs.Assembly.Progress
import StackMachine.Proofs.Instruction.Registry

/-!
# The layout of a file

What the code of a file has to be, told from its lines alone and without passes: each instruction is
as long as its operand words say, so that the offset of every label is known before anything is
encoded, and each line is encoded with these offsets for its labels.

* `layout?`: the offset of a label of the file; `address`: that, or the offset of an earlier label.
* `SourceLine.Encodes`: the bytes of a line, where labels have given addresses.
* `discovery_layout`: the discovery pass records each label where the layout puts it.
* `link_encodes`: the link pass appends the bytes of each line.
* `assemble_layout`: a file that is accepted appends the bytes of its lines in order, with the
  addresses of the layout, and leaves these addresses in the symbol table.
-/

namespace StackMachine

/-- The place of the number of registers in an image. -/
def Header.registerCountOffset : Nat := 6

theorem Header.toBytes_withRegisters {i : Nat} (hi : i ≠ registerCountOffset) (count count' : UInt8) :
    (withRegisters count).toBytes[i]? = (withRegisters count').toBytes[i]? := by
  match i, hi with
  | 0, _ | 1, _ | 2, _ | 3, _ | 4, _ | 5, _ | 7, _ => rfl
  | 6, hi => exact absurd rfl hi
  | _ + 8, _ => rfl

namespace Assembly

open Session

/-! ## The layout -/

/-- The operand that a word stands for, where labels have the given addresses. -/
def operandAt? (address : String → Option UInt16) (word : String) : Option Operand :=
  match OperandToken.meaning? word with
  | some (.constant bits) => some (.constant bits)
  | some (.register index) => some (.register index)
  | some (.label name) => (address name).map .label
  | none => none

/-- The number of bytes of the operand that a word stands for. -/
def wordSize (word : String) : Nat :=
  match (OperandToken.meaning? word).map OperandToken.kind with
  | some kind => kind.size
  | none => 0

namespace SourceLine

/-- The number of bytes of the instruction on a line. -/
def codeSize (line : SourceLine) : Nat :=
  match line.instruction? with
  | some (_, words) => 1 + (words.map fun word => wordSize word.text).sum
  | none => 0

/-- The bytes of a line, where labels have the given addresses: the opcode of the one definition
with the mnemonic and the kinds of operands of its instruction, and then the operands. -/
inductive Encodes (registry : Registry) (address : String → Option UInt16) (line : SourceLine) :
    List UInt8 → Prop
  | blank : line.instruction? = none → Encodes registry address line []
  | instruction {mnemonic : Token} {words : List Token} {operands : List Operand}
      {definition : Definition} : line.instruction? = some (mnemonic, words) →
      List.Forall₂ (fun word operand => operandAt? address word.text = some operand) words
        operands →
      (∀ d, d = definition ↔ d ∈ registry.toList ∧ d.mnemonic = mnemonic.text ∧
        d.operands = operands.map Operand.kind) →
      Encodes registry address line (definition.opcode :: operands.flatMap Operand.encode)

end SourceLine

/-- The offset of a label among lines whose code starts at an offset: the instructions on the lines
before the one that defines it come before it. -/
def layout? (start : Nat) : List SourceLine → String → Option Nat
  | [], _ => none
  | line :: rest, name =>
    if line.label? = some name then some start else layout? (start + line.codeSize) rest name

/-- The address of a label: that in the layout of the lines, or the one that it had before. -/
def address (labels : String → Option UInt16) (start : Nat) (lines : List SourceLine)
    (name : String) : Option UInt16 :=
  match layout? start lines name with
  | some offset => some (UInt16.ofNat offset)
  | none => labels name

variable {registry : Registry} {s : Session} {path : String} {line : SourceLine}

section

variable {start : Nat} {rest : List SourceLine} {name : String}

theorem layout?_cons_self (h : line.label? = some name) :
    layout? start (line :: rest) name = some start := by
  rw [layout?, if_pos h]

theorem layout?_cons_of_ne (h : line.label? ≠ some name) :
    layout? start (line :: rest) name = layout? (start + line.codeSize) rest name := by
  rw [layout?, if_neg h]

end

theorem layout?_eq_none_iff {start : Nat} {lines : List SourceLine} {name : String} :
    layout? start lines name = none ↔ name ∉ lines.filterMap SourceLine.label? := by
  induction lines generalizing start with
  | nil => simp [layout?]
  | cons line lines ih =>
    rw [layout?, List.filterMap_cons]
    cases hname : line.label? with
    | none => simpa using ih
    | some defined =>
      by_cases hne : defined = name
      · simp [hne]
      · simp [hne, Ne.symm hne, ih]

theorem sum_wordSize {words : List Token} {kinds : List OperandKind}
    (h : words.map (fun word => (OperandToken.meaning? word.text).map OperandToken.kind) =
      kinds.map some) :
    (words.map fun word => wordSize word.text).sum = (kinds.map OperandKind.size).sum := by
  induction words generalizing kinds with
  | nil =>
    cases kinds with
    | nil => rfl
    | cons _ _ => cases h
  | cons word words ih =>
    cases kinds with
    | nil => cases h
    | cons kind kinds =>
      rw [List.map_cons, List.map_cons, List.cons.injEq] at h
      have hsize : wordSize word.text = kind.size := by rw [wordSize, h.1]
      rw [List.map_cons, List.map_cons, List.sum_cons, List.sum_cons, hsize, ih h.2]

theorem operandAt?_kinds {labels : String → Option UInt16} {words : List Token}
    {operands : List Operand}
    (h : List.Forall₂ (fun word operand => operandAt? labels word.text = some operand) words
      operands) :
    words.map (fun word => (OperandToken.meaning? word.text).map OperandToken.kind) =
      (operands.map Operand.kind).map some := by
  induction h with
  | nil => rfl
  | @cons word operand words operands hword _ ih =>
    have hkind : (OperandToken.meaning? word.text).map OperandToken.kind = some operand.kind := by
      unfold operandAt? at hword
      split at hword
      · rename_i hmeaning
        cases hword
        rw [hmeaning]
        rfl
      · rename_i hmeaning
        cases hword
        rw [hmeaning]
        rfl
      · rename_i hmeaning
        obtain ⟨offset, -, rfl⟩ := Option.map_eq_some_iff.1 hword
        rw [hmeaning]
        rfl
      · cases hword
    simp only [List.map_cons, ih, hkind]

/-- The bytes of a line are as many as the layout has for it. -/
theorem SourceLine.Encodes.length_eq {labels : String → Option UInt16} {bytes : List UInt8}
    (h : line.Encodes registry labels bytes) : bytes.length = line.codeSize := by
  cases h with
  | blank hnone => simp [codeSize, hnone]
  | @instruction mnemonic words operands definition hsome hoperands _ =>
    simp only [codeSize, hsome, sum_wordSize (operandAt?_kinds hoperands)]
    exact Instruction.length_encode ⟨definition, operands⟩

theorem encodes_lengths {labels : String → Option UInt16} {lines : List SourceLine}
    {chunks : List (List UInt8)}
    (h : List.Forall₂ (SourceLine.Encodes registry labels) lines chunks) :
    chunks.map List.length = lines.map SourceLine.codeSize := by
  induction h with
  | nil => rfl
  | cons hline _ ih => rw [List.map_cons, List.map_cons, hline.length_eq, ih]

/-! ## Discovery -/

theorem codeStep_length {pass : Pass} {bytes : List UInt8} (h : line.CodeStep pass s bytes) :
    bytes.length = line.codeSize := by
  unfold SourceLine.CodeStep at h
  split at h
  · rename_i mnemonic words hinstruction
    obtain ⟨operands, definition, hoperands, -, rfl⟩ := encode_eq_ok_iff.1 h
    have hkinds := operands_kinds hoperands
    rw [List.map_map] at hkinds
    rw [Instruction.length_encode, SourceLine.codeSize, hinstruction, ← sum_wordSize hkinds]
  · rename_i hnone
    rw [h, SourceLine.codeSize, hnone]
    rfl

/-- What discovery does at the label of a line, if there is one: it was unknown, and has the current
offset then. -/
theorem labelStep_discovery (hs : s.symbols.WellFormed) {t : Session}
    (h : line.LabelStep .discovery s t) :
    t.symbols.WellFormed ∧ t.code = s.code ∧
    match line.label? with
    | some name => s.offset ≤ 65535 ∧ s.label? name = none ∧
        ∀ k, t.label? k = if k = name then some (UInt16.ofNat s.offset) else s.label? k
    | none => ∀ k, t.label? k = s.label? k := by
  unfold SourceLine.LabelStep at h
  cases hname : line.label? with
  | none =>
    rw [hname] at h
    cases h
    exact ⟨hs, rfl, fun _ => rfl⟩
  | some name =>
    rw [hname] at h
    obtain ⟨offset, hdefine⟩ := h
    obtain ⟨heq, hwf, hspec⟩ := define_spec hs name
    rw [hdefine] at heq hwf hspec
    dsimp only at heq hwf hspec
    obtain ⟨hle, rfl, hnew, hspec⟩ := hspec
    have hcode : t.code = s.code := by rw [heq]
    exact ⟨hwf, hcode, hle, hnew, hspec⟩

/-- Discovery records the labels of the lines where the layout puts them: each was unknown, is
defined once, and has an offset that fits. -/
theorem discovery_layout {p p' : Progress} (hp : p.session.symbols.WellFormed)
    {sources : List SourceLine} (h : Pass.discovery.lines path sources p = (none, p')) :
    (∀ name, p'.session.label? name =
      address p.session.label? p.session.offset sources name) ∧
    (sources.filterMap SourceLine.label?).Nodup ∧
    ∀ name ∈ sources.filterMap SourceLine.label?, p.session.label? name = none ∧
      ∃ offset ≤ 65535, layout? p.session.offset sources name = some offset := by
  induction sources generalizing p with
  | nil =>
    cases h
    exact ⟨fun _ => rfl, List.nodup_nil, by simp⟩
  | cons line sources ih =>
    obtain ⟨q, t, bytes, hlabel, hcode, hq, hrest⟩ := Pass.lines_cons_eq_none h
    obtain ⟨hwf, hsame, hlabel⟩ := labelStep_discovery hp hlabel
    have hsymbols : q.session.symbols = t.symbols := by
      rw [hq]
      rfl
    have hlabels : q.session.label? = t.label? := by
      funext name
      rw [label?, label?, hsymbols]
    have hoffset : q.session.offset = p.session.offset + line.codeSize := by
      have ht : t.offset = p.session.offset := by rw [offset, offset, hsame]
      rw [← codeStep_length hcode, ← ht, ← offset_append, hq]
      rfl
    obtain ⟨haddress, hnodup, hfresh⟩ := ih (hsymbols ▸ hwf) hrest
    rw [hoffset, hlabels] at haddress hfresh
    rw [List.filterMap_cons]
    cases hname : line.label? with
    | none =>
      rw [hname] at hlabel
      have hne (name : String) : line.label? ≠ some name := by simp [hname]
      refine ⟨fun name => ?_, hnodup, fun name hmem => ?_⟩
      · rw [haddress, address, address, layout?_cons_of_ne (hne name), hlabel]
      · rw [layout?_cons_of_ne (hne name), ← hlabel]
        exact hfresh name hmem
    | some defined =>
      rw [hname] at hlabel
      obtain ⟨hle, hnew, hlabel⟩ := hlabel
      -- A label that is known behind this line cannot be defined again on a later one.
      have hlater (name : String) (hmem : name ∈ sources.filterMap SourceLine.label?) :
          name ≠ defined ∧ p.session.label? name = none := by
        have hunknown := (hfresh name hmem).1
        rw [hlabel] at hunknown
        split at hunknown
        · cases hunknown
        · rename_i hne
          exact ⟨hne, hunknown⟩
      have hne (name : String) (hname' : name ≠ defined) : line.label? ≠ some name := by
        rw [hname]
        exact fun heq => hname' (Option.some.inj heq).symm
      refine ⟨fun name => ?_, ?_, fun name hmem => ?_⟩
      · rw [haddress, address, address, hlabel]
        by_cases hname' : name = defined
        · subst hname'
          have habsent : layout? (p.session.offset + line.codeSize) sources name = none :=
            layout?_eq_none_iff.2 fun hmem => (hlater name hmem).1 rfl
          rw [habsent, layout?_cons_self hname, if_pos rfl]
        · rw [layout?_cons_of_ne (hne name hname'), if_neg hname']
      · exact List.nodup_cons.2 ⟨fun hmem => (hlater _ hmem).1 rfl, hnodup⟩
      · rcases List.mem_cons.1 hmem with rfl | hmem
        · exact ⟨hnew, _, hle, layout?_cons_self hname⟩
        · obtain ⟨hname', hunknown⟩ := hlater name hmem
          rw [layout?_cons_of_ne (hne name hname')]
          exact ⟨hunknown, (hfresh name hmem).2⟩

/-! ## The link pass -/

theorem operandAt?_of_operand {word : String} {operand : Operand}
    (h : s.operand true word = .ok operand) : operandAt? s.label? word = some operand := by
  obtain ⟨found, hmeaning, -, hresolve⟩ := operand_eq_ok_iff.1 h
  rw [operandAt?, hmeaning]
  cases found with
  | constant bits =>
    cases hresolve
    rfl
  | register index =>
    cases hresolve
    rfl
  | label name =>
    rw [resolve, if_pos rfl] at hresolve
    split at hresolve
    · rename_i offset hoffset
      cases hresolve
      simp [hoffset]
    · cases hresolve

/-- What the link pass appends at a line is its encoding with the labels of the session. -/
theorem codeStep_encodes (hregistry : s.registry.Consistent) {bytes : List UInt8}
    (h : line.CodeStep .link s bytes) : line.Encodes s.registry s.label? bytes := by
  unfold SourceLine.CodeStep at h
  split at h
  · rename_i mnemonic words hinstruction
    obtain ⟨operands, definition, hoperands, hdefinition, rfl⟩ := encode_eq_ok_iff.1 h
    rw [List.forall₂_map_left_iff] at hoperands
    refine .instruction hinstruction (hoperands.imp fun _ _ => operandAt?_of_operand) fun d => ?_
    rw [← hregistry.bySignature?_eq_some_iff, hdefinition, Option.some.injEq, eq_comm]
  · rename_i hnone
    rw [h]
    exact .blank hnone

/-- The link pass appends the bytes of the lines in order. -/
theorem link_encodes {p p' : Progress} (hregistry : p.session.registry.Consistent)
    {sources : List SourceLine} (h : Pass.link.lines path sources p = (none, p')) :
    p'.session.symbols = p.session.symbols ∧ ∃ chunks,
      List.Forall₂ (SourceLine.Encodes p.session.registry p.session.label?) sources chunks ∧
      p'.session.code.toList = p.session.code.toList ++ chunks.flatten := by
  induction sources generalizing p with
  | nil =>
    cases h
    exact ⟨rfl, [], .nil, by simp⟩
  | cons line sources ih =>
    obtain ⟨q, t, bytes, hlabel, hcode, hq, hrest⟩ := Pass.lines_cons_eq_none h
    unfold SourceLine.LabelStep at hlabel
    cases hlabel
    have hencodes := codeStep_encodes hregistry hcode
    have hcodes : q.session.code.toList = p.session.code.toList ++ bytes := by
      rw [hq]
      exact toList_append _ _
    have hlabels : q.session.label? = p.session.label? := by
      rw [hq]
      rfl
    have hregistries : q.session.registry = p.session.registry := by
      rw [hq]
      rfl
    obtain ⟨hsymbols, chunks, hchunks, hflat⟩ := ih (hregistries ▸ hregistry) hrest
    rw [hregistries, hlabels] at hchunks
    refine ⟨?_, bytes :: chunks, .cons hencodes hchunks, ?_⟩
    · rw [hsymbols, hq]
      rfl
    · rw [hflat, hcodes, List.flatten_cons, List.append_assoc]

/-! ## Files -/

/-- A file that is accepted is assembled by its layout. Its lines append their bytes in order, as
many as the layout has for them, with the offset of the layout for each label of the file and the
address before for any other; the symbol table then has these addresses. The labels of the file are
distinct, were unknown before, and have offsets that fit. In front of the new code nothing changes
but the number of registers. -/
theorem assemble_layout (hregistry : registry.Built) (hs : Reachable registry s)
    (file : SourceFile) (h : (file.assemble s).accepted = true) :
    let lines := SourceLine.ofText file.text
    let s' := (file.assemble s).session
    (∃ chunks,
      List.Forall₂ (SourceLine.Encodes registry (address s.label? s.offset lines)) lines chunks ∧
      chunks.map List.length = lines.map SourceLine.codeSize ∧
      s'.image.toList.drop s.offset = chunks.flatten) ∧
    (∀ name, s'.label? name = address s.label? s.offset lines name) ∧
    (lines.filterMap SourceLine.label?).Nodup ∧
    (∀ name ∈ lines.filterMap SourceLine.label?, s.label? name = none ∧
      ∃ offset ≤ 65535, layout? s.offset lines name = some offset) ∧
    ∀ i < s.offset, i ≠ Header.registerCountOffset → s'.image[i]? = s.image[i]? := by
  intro lines s'
  have hsound := hs.sound
  rcases file.assemble_cases hsound.symbols with ⟨number, located, p, -, heq⟩ |
    ⟨d, q, hdiscovery, hlink, hd, -, heq⟩
  · rw [heq] at h
    cases h
  have hs' : s' = q.session := by
    simp only [s', heq]
  obtain ⟨haddress, hnodup, hfresh⟩ := discovery_layout hsound.symbols hdiscovery
  have hregistries : (d.session.truncate s.checkpoint.offset).registry = registry :=
    hd.registry.trans hsound.registry_eq
  obtain ⟨hsymbols, chunks, hchunks, hflat⟩ :=
    link_encodes (hregistries ▸ hregistry.consistent) hlink
  dsimp only at hsymbols hchunks hflat haddress
  rw [hd.truncate.2] at hflat
  have hlabels : (d.session.truncate s.checkpoint.offset).label? =
      address s.label? s.offset lines := funext haddress
  rw [hregistries, hlabels] at hchunks
  refine ⟨⟨chunks, hchunks, encodes_lengths hchunks, ?_⟩, fun name => ?_, hnodup, hfresh,
    fun i hi hne => ?_⟩
  · have hoffset : s.offset = (q.session.header.toBytes.toList ++ s.code.toList).length := by
      rw [List.length_append, Array.length_toList, Array.length_toList, Header.size_toBytes]
      rfl
    rw [hs', toList_image, hflat, ← List.append_assoc, hoffset, List.drop_left]
  · rw [hs', label?, hsymbols]
    exact haddress name
  · rw [hs', ← Array.getElem?_toList, ← Array.getElem?_toList, toList_image, toList_image, hflat,
      ← List.append_assoc]
    have hlength : i < (q.session.header.toBytes.toList ++ s.code.toList).length := by
      simpa [offset, Header.size_toBytes] using hi
    rw [List.getElem?_append_left hlength]
    by_cases hheader : i < Header.size
    · rw [List.getElem?_append_left (by simpa [Header.size_toBytes] using hheader),
        List.getElem?_append_left (by simpa [Header.size_toBytes] using hheader),
        Array.getElem?_toList, Array.getElem?_toList]
      exact Header.toBytes_withRegisters hne _ _
    · rw [List.getElem?_append_right (by simpa [Header.size_toBytes] using hheader),
        List.getElem?_append_right (by simpa [Header.size_toBytes] using hheader)]
      rfl

/-- A label behind its use, and a label of an earlier file. -/
theorem assemble_layout_forward :
    let s := (SourceFile.assemble (start Registry.standard) ⟨"a.asm", "a: end\n"⟩).session
    let file : SourceFile := ⟨"b.asm", "jmp b\npush r1\nb: jmp a\n"⟩
    let lines := SourceLine.ofText file.text
    let s' := (file.assemble s).session
    (file.assemble s).accepted = true ∧
    (∃ chunks, List.Forall₂
      (SourceLine.Encodes Registry.standard (address s.label? s.offset lines)) lines chunks ∧
      chunks.map List.length = lines.map SourceLine.codeSize ∧
      s'.image.toList.drop s.offset = chunks.flatten) ∧
    s'.label? "a" = some 8 ∧ s'.label? "b" = some 14 := by
  intro s file lines s'
  have h : (file.assemble s).accepted = true := by decide +kernel
  obtain ⟨hchunks, hlabel, -⟩ :=
    assemble_layout Registry.standard_built (.assemble _ .start) file h
  exact ⟨h, hchunks, (hlabel "a").trans (by decide +kernel),
    (hlabel "b").trans (by decide +kernel)⟩

end Assembly

end StackMachine
