import StackMachine.Proofs.Assembly.Layout
import StackMachine.Proofs.Assembly.Link
import StackMachine.Proofs.Instruction.Listing
import StackMachine.Proofs.Machine.Layout

/-!
# The images of linked programs

A program that was linked is laid out as if the lines of its files were those of one file: every
label has the offset that these lines give it, whichever file defines or uses it. So what was
written can be read by a listing and by a machine, and its labels lead to instructions.

* `layout?_append`, `address_append`: the layout of lines that follow one another.
* `Pass.lines_offset_le`: code that a pass gets through ends in the reach of labels.
* `LaidOut`: the session is that of the lines so far; `LaidOut.assemble` adds a file, and
  `link_laidOut` all of them.
* `LaidOut.listing`, `LaidOut.target`: the listing shows the instructions of the lines, and their
  labels are offsets that it shows, or the end.
* `link_listing`: what the linker writes, the other tools read.
-/

namespace StackMachine.Assembly

open Session

variable {registry : Registry} {s : Session} {path : String} {line : SourceLine}
  {lines lines' : List SourceLine} {labels labels' : String → Option UInt16}

/-! ## Layouts of lines that follow one another -/

theorem layout?_append (start : Nat) (lines lines' : List SourceLine) (name : String) :
    layout? start (lines ++ lines') name =
      (layout? start lines name).or
        (layout? (start + (lines.map SourceLine.codeSize).sum) lines' name) := by
  induction lines generalizing start with
  | nil => rfl
  | cons line lines ih =>
    rw [List.cons_append, layout?, layout?]
    split
    · rfl
    · rw [ih, List.map_cons, List.sum_cons, Nat.add_assoc]

theorem address_append {start : Nat}
    (hfresh : ∀ name ∈ lines'.filterMap SourceLine.label?,
      name ∉ lines.filterMap SourceLine.label?) :
    address (address labels start lines) (start + (lines.map SourceLine.codeSize).sum) lines' =
      address labels start (lines ++ lines') := by
  funext name
  rw [address, address, address, layout?_append]
  cases hlater : layout? (start + (lines.map SourceLine.codeSize).sum) lines' name with
  | none => rw [Option.or_none]
  | some offset =>
    have hmem : name ∈ lines'.filterMap SourceLine.label? := by
      by_contra hmem
      rw [layout?_eq_none_iff.2 hmem] at hlater
      cases hlater
    rw [layout?_eq_none_iff.2 (hfresh name hmem), Option.none_or]

/-- A label of a layout stands in front of some of its lines. -/
theorem layout?_eq_some {start offset : Nat} {name : String}
    (h : layout? start lines name = some offset) :
    ∃ before after, lines = before ++ after ∧
      offset = start + (before.map SourceLine.codeSize).sum := by
  induction lines generalizing start with
  | nil => cases h
  | cons line lines ih =>
    rw [layout?] at h
    split at h
    · cases h
      exact ⟨[], line :: lines, rfl, rfl⟩
    · obtain ⟨before, after, rfl, hoffset⟩ := ih h
      refine ⟨line :: before, after, rfl, ?_⟩
      rw [hoffset, List.map_cons, List.sum_cons, Nat.add_assoc]

/-! ## More labels -/

theorem operandAt?_mono (hlabels : ∀ name a, labels name = some a → labels' name = some a)
    {word : String} {operand : Operand} (h : operandAt? labels word = some operand) :
    operandAt? labels' word = some operand := by
  unfold operandAt? at h ⊢
  split at h
  · exact h
  · exact h
  · obtain ⟨a, ha, rfl⟩ := Option.map_eq_some_iff.1 h
    rw [hlabels _ a ha]
    rfl
  · cases h

theorem operandAt?_eq_label {word : String} {a : UInt16}
    (h : operandAt? labels word = some (.label a)) : ∃ name, labels name = some a := by
  unfold operandAt? at h
  split at h
  · cases h
  · cases h
  · rename_i name _
    obtain ⟨a', ha', heq⟩ := Option.map_eq_some_iff.1 h
    cases heq
    exact ⟨name, ha'⟩
  · cases h

theorem SourceLine.Encodes.mono (hlabels : ∀ name a, labels name = some a → labels' name = some a)
    {bytes : List UInt8} (h : line.Encodes registry labels bytes) :
    line.Encodes registry labels' bytes := by
  cases h with
  | blank hnone => exact .blank hnone
  | instruction hsome hoperands hdefinition =>
    exact .instruction hsome (hoperands.imp fun _ _ => operandAt?_mono hlabels) hdefinition

/-! ## The reach of labels -/

theorem SourceLine.acts_bound (line : SourceLine) :
    line.acts = [] ∨ (∃ error span, line.acts = [.refuse error span]) ∨
      ∃ acts span, line.acts = acts ++ [.bound span] := by
  unfold acts
  split
  · exact .inl rfl
  · split
    · exact .inr (.inl ⟨_, _, rfl⟩)
    · split
      · exact .inr (.inr ⟨_, _, rfl⟩)
      · exact .inr (.inr ⟨_, _, rfl⟩)

theorem Act.runAll_bound {pass : Pass} {number : Nat} {acts : List (Nat × Act)} {span : Span}
    {p p' : Progress}
    (h : runAll pass path (acts ++ [(number, .bound span)]) p = (none, p')) :
    p'.session.offset ≤ 65535 := by
  rw [runAll_append] at h
  split at h
  · rename_i q _
    rw [runAll_singleton, run, checkedOffset] at h
    by_cases hle : q.session.offset ≤ 65535
    · rw [if_pos hle] at h
      cases h
      exact hle
    · rw [if_neg hle] at h
      cases h
  · cases h

/-- A pass that gets through its lines leaves code that ends in the reach of labels: each line that
is not blank is checked, and the others add nothing. -/
theorem Pass.lines_offset_le {pass : Pass} {p p' : Progress}
    (h : pass.lines path lines p = (none, p')) (hp : p.session.offset ≤ 65535) :
    p'.session.offset ≤ 65535 := by
  induction lines generalizing p with
  | nil =>
    cases h
    exact hp
  | cons line lines ih =>
    rw [← List.singleton_append] at h
    obtain ⟨q, hfirst, hrest⟩ := Pass.lines_append_eq_none h
    refine ih hrest ?_
    rw [Pass.lines_eq_runAll, SourceLine.numberedActs, List.flatMap_singleton] at hfirst
    rcases line.acts_bound with hacts | ⟨error, span, hacts⟩ | ⟨acts, span, hacts⟩
    · rw [hacts] at hfirst
      cases hfirst
      exact hp
    · rw [hacts] at hfirst
      cases hfirst
    · rw [hacts, List.map_append] at hfirst
      exact Act.runAll_bound hfirst

/-! ## Sessions that are laid out -/

/-- A session whose code is that of some lines, as if they were the lines of one file: each label
has the offset that these lines give it, and each line is encoded with these offsets. -/
structure LaidOut (registry : Registry) (lines : List SourceLine) (s : Session) : Prop where
  sound : s.Sound registry
  label_eq : s.label? = address (fun _ => none) Header.size lines
  code_eq : ∃ chunks, List.Forall₂ (SourceLine.Encodes registry s.label?) lines chunks ∧
    s.code.toList = chunks.flatten
  offset_le : s.offset ≤ 65535

namespace LaidOut

theorem offset_eq (h : LaidOut registry lines s) :
    s.offset = Header.size + (lines.map SourceLine.codeSize).sum := by
  obtain ⟨chunks, hchunks, hcode⟩ := h.code_eq
  rw [offset, ← encodes_lengths hchunks, ← List.length_flatten, ← hcode, Array.length_toList]

theorem start : LaidOut registry [] (Session.start registry) where
  sound := Reachable.start.sound
  label_eq := funext fun name => HashTable.find?_blank (n := 3) (by decide) _ name
  code_eq := ⟨[], .nil, rfl⟩
  offset_le := by
    show Header.size ≤ 65535
    decide

/-- Lines that both passes get through go on with the layout. -/
theorem passes (hregistry : registry.Built) (h : LaidOut registry lines s) {d q : Progress}
    (hdiscovery : Pass.discovery.lines path lines' ⟨s, #[], #[]⟩ = (none, d))
    (hlink : Pass.link.lines path lines'
      { d with session := d.session.truncate s.checkpoint.offset } = (none, q)) :
    LaidOut registry (lines ++ lines') q.session := by
  have hd := Pass.lines_extends (.start h.sound.symbols) hdiscovery
  have hq := Pass.lines_extends hd.truncate.1 hlink
  obtain ⟨haddress, -, hfresh⟩ := discovery_layout h.sound.symbols hdiscovery
  have hregistries : (d.session.truncate s.checkpoint.offset).registry = registry :=
    hd.registry.trans h.sound.registry_eq
  obtain ⟨hsymbols, chunks', hchunks', hflat⟩ :=
    link_encodes (hregistries ▸ hregistry.consistent) hlink
  obtain ⟨chunks, hchunks, hcode⟩ := h.code_eq
  dsimp only at haddress hfresh hsymbols hchunks' hflat
  rw [hd.truncate.2, hcode] at hflat
  rw [hregistries] at hchunks'
  have hlabels : q.session.label? = d.session.label? := by
    funext name
    rw [label?, label?, hsymbols]
    rfl
  -- The lines cannot define a label again, so the code of earlier lines keeps its addresses.
  have hknown : ∀ name a, s.label? name = some a → d.session.label? name = some a := by
    intro name a ha
    have habsent : layout? s.offset lines' name = none := by
      rw [layout?_eq_none_iff]
      intro hmem
      rw [(hfresh name hmem).1] at ha
      cases ha
    rw [haddress, address, habsent]
    exact ha
  refine ⟨⟨hq.registry.trans h.sound.registry_eq, hq.symbols⟩, ?_, ⟨chunks ++ chunks', ?_, ?_⟩, ?_⟩
  · rw [hlabels, ← address_append, ← h.label_eq, ← h.offset_eq]
    · exact funext haddress
    · intro name hmem hold
      have hunknown := (hfresh name hmem).1
      rw [h.label_eq, address] at hunknown
      split at hunknown
      · cases hunknown
      · rename_i hnone
        exact layout?_eq_none_iff.1 hnone hold
  · rw [hlabels]
    exact List.rel_append (hchunks.imp fun _ _ => .mono hknown) hchunks'
  · rw [hflat, List.flatten_append]
  · refine Pass.lines_offset_le hlink ?_
    have hoffset : (d.session.truncate s.checkpoint.offset).offset = s.offset := by
      rw [offset, offset, hd.truncate.2]
    dsimp only
    rw [hoffset]
    exact h.offset_le

/-- A file that is accepted goes on with the layout. -/
theorem assemble (hregistry : registry.Built) (h : LaidOut registry lines s) {file : SourceFile}
    (haccepted : (file.assemble s).accepted = true) :
    LaidOut registry (lines ++ SourceLine.ofText file.text) (file.assemble s).session := by
  rcases file.assemble_cases h.sound.symbols with ⟨number, located, p, -, heq⟩ |
    ⟨d, q, hdiscovery, hlink, -, -, heq⟩
  · rw [heq] at haccepted
    cases haccepted
  · rw [heq]
    exact h.passes hregistry hdiscovery hlink

theorem foldl_assemble (hregistry : registry.Built) {files : List SourceFile} {state : LinkState}
    (h : LaidOut registry lines state.session)
    (haccepted : (files.foldl LinkState.assemble state).rejected = false) :
    LaidOut registry (lines ++ files.flatMap fun file => SourceLine.ofText file.text)
      (files.foldl LinkState.assemble state).session := by
  induction files generalizing lines state with
  | nil => rwa [List.flatMap_nil, List.append_nil]
  | cons file files ih =>
    obtain ⟨hfirst, hrest⟩ := foldl_cons_accepted haccepted
    have hfile := h.assemble hregistry hfirst
    rw [List.foldl_cons, List.flatMap_cons, ← List.append_assoc]
    exact ih hfile hrest

end LaidOut

theorem link_laidOut (hregistry : registry.Built) {files : List SourceFile} {p : Program}
    (h : (link registry files).outcome = .ok p) :
    ∃ s, LaidOut registry (files.flatMap fun file => SourceLine.ofText file.text) s ∧
      s.finish = p := by
  obtain ⟨haccepted, hfinish⟩ := link_eq_ok_iff.1 h
  have hstart : LaidOut registry [] (LinkState.start registry).session := LaidOut.start
  exact ⟨_, hstart.foldl_assemble hregistry haccepted, hfinish⟩

/-! ## The instructions of lines -/

/-- An instruction says what the statement says: it has the one definition with the mnemonic and the
kinds of operands, and the operands that the words stand for, where labels have given addresses. -/
structure Realizes (registry : Registry) (labels : String → Option UInt16)
    (statement : Token × List Token) (i : Instruction) : Prop where
  definition : ∀ d, d = i.definition ↔ d ∈ registry.toList ∧ d.mnemonic = statement.1.text ∧
    d.operands = i.operands.map Operand.kind
  operands : List.Forall₂ (fun word operand => operandAt? labels word.text = some operand)
    statement.2 i.operands

theorem Realizes.valid {statement : Token × List Token} {i : Instruction}
    (h : Realizes registry labels statement i) : i.Valid registry := by
  obtain ⟨hmem, -, hkinds⟩ := (h.definition i.definition).1 rfl
  exact ⟨hmem, hkinds⟩

theorem Realizes.codeSize_eq {statement : Token × List Token} {i : Instruction}
    (h : Realizes registry labels statement i) (hline : line.instruction? = some statement) :
    line.codeSize = i.definition.size := by
  simp only [SourceLine.codeSize, hline, sum_wordSize (operandAt?_kinds h.operands),
    Definition.size, h.valid.operands]
  rfl

theorem exists_of_forall₂ {α β : Type} {R : α → β → Prop} {l : List α} {l' : List β} {b : β}
    (h : List.Forall₂ R l l') (hb : b ∈ l') : ∃ a ∈ l, R a b := by
  induction h with
  | nil => cases hb
  | cons hfirst _ ih =>
    rcases List.mem_cons.1 hb with rfl | hb
    · exact ⟨_, List.mem_cons_self, hfirst⟩
    · obtain ⟨a, ha, hR⟩ := ih hb
      exact ⟨a, List.mem_cons_of_mem _ ha, hR⟩

theorem encodes_realizes {chunks : List (List UInt8)}
    (h : List.Forall₂ (SourceLine.Encodes registry labels) lines chunks) :
    ∃ code, List.Forall₂ (Realizes registry labels) (lines.filterMap SourceLine.instruction?) code ∧
      chunks.flatten = code.flatMap Instruction.encode := by
  induction h with
  | nil => exact ⟨[], .nil, rfl⟩
  | @cons line bytes lines chunks hline _ ih =>
    obtain ⟨code, hcode, hflat⟩ := ih
    cases hline with
    | blank hnone =>
      rw [List.filterMap_cons_none hnone]
      exact ⟨code, hcode, hflat⟩
    | @instruction mnemonic words operands definition hsome hoperands hdefinition =>
      rw [List.filterMap_cons_some hsome]
      refine ⟨⟨definition, operands⟩ :: code, .cons ⟨hdefinition, hoperands⟩ hcode, ?_⟩
      rw [List.flatten_cons, List.flatMap_cons, hflat]
      rfl

theorem sum_codeSize {code : List Instruction}
    (h : List.Forall₂ (Realizes registry labels) (lines.filterMap SourceLine.instruction?) code) :
    (lines.map SourceLine.codeSize).sum = (code.map fun i => i.definition.size).sum := by
  induction lines generalizing code with
  | nil =>
    cases h
    rfl
  | cons line lines ih =>
    rw [List.map_cons, List.sum_cons]
    cases hline : line.instruction? with
    | none =>
      rw [List.filterMap_cons_none hline] at h
      rw [ih h, SourceLine.codeSize, hline, Nat.zero_add]
    | some statement =>
      rw [List.filterMap_cons_some hline] at h
      cases h with
      | cons hfirst hrest => rw [List.map_cons, List.sum_cons, hfirst.codeSize_eq hline, ih hrest]

namespace LaidOut

/-- The listing of the image goes through it, and shows the instructions of the lines. -/
theorem listing (hregistry : registry.Built) (h : LaidOut registry lines s) :
    (Listing.ofBytes registry s.image).failure = none ∧
      List.Forall₂ (Realizes registry (address (fun _ => none) Header.size lines))
        (lines.filterMap SourceLine.instruction?)
        (Listing.ofBytes registry s.image).instructions := by
  obtain ⟨chunks, hchunks, hcode⟩ := h.code_eq
  obtain ⟨code, hrealizes, hflat⟩ := encodes_realizes hchunks
  have himage : s.image.toList.drop Header.size = code.flatMap Instruction.encode := by
    rw [toList_image, ← hflat, ← hcode]
    rfl
  have hvalid : ∀ i ∈ code, i.Valid registry := by
    intro i hi
    obtain ⟨statement, -, hstatement⟩ := exists_of_forall₂ hrealizes hi
    exact hstatement.valid
  obtain ⟨hfailure, hinstructions⟩ :=
    Listing.ofBytes_encode hregistry.consistent hvalid s.check_image himage
  rw [hinstructions, ← h.label_eq]
  exact ⟨hfailure, hrealizes⟩

/-- The listing shows the instructions of the first lines up to the offset of the others. -/
theorem boundary (hregistry : registry.Built) {before after : List SourceLine}
    (h : LaidOut registry (before ++ after) s) :
    let address := Header.size + (before.map SourceLine.codeSize).sum
    address ∈ (Listing.ofBytes registry s.image).offsets ∨ address = s.image.size := by
  obtain ⟨hfailure, hrealizes⟩ := h.listing hregistry
  have hdecodes := Listing.ofBytes_decodes hfailure
  rw [List.filterMap_append] at hrealizes
  -- The lines before the offset have as many bytes of code as the instructions that they make.
  have hfirst := (List.forall₂_take_append _ _ _ hrealizes.flip).flip
  rw [sum_codeSize hfirst]
  apply hdecodes.boundary
  rw [Listing.map_snd_steps, List.take_append_drop]

/-- Every label that an instruction of the listing holds leads to an instruction of the listing, or
to the end of the image. -/
theorem target (hregistry : registry.Built) (h : LaidOut registry lines s) {i : Instruction}
    (hi : i ∈ (Listing.ofBytes registry s.image).instructions) {label : UInt16}
    (hlabel : Operand.label label ∈ i.operands) :
    label.toNat ∈ (Listing.ofBytes registry s.image).offsets ∨ label.toNat = s.image.size := by
  obtain ⟨hfailure, hrealizes⟩ := h.listing hregistry
  obtain ⟨statement, -, hstatement⟩ := exists_of_forall₂ hrealizes hi
  obtain ⟨word, -, hword⟩ := exists_of_forall₂ hstatement.operands hlabel
  obtain ⟨name, hname⟩ := operandAt?_eq_label hword
  rw [address] at hname
  cases hlayout : layout? Header.size lines name with
  | none =>
    rw [hlayout] at hname
    cases hname
  | some offset =>
    rw [hlayout] at hname
    cases hname
    obtain ⟨before, after, rfl, hoffset⟩ := layout?_eq_some hlayout
    -- Only the end of the code is known to be in reach, but no label stands behind it.
    have hle : offset ≤ 65535 := by
      have hend := h.offset_eq
      have hreach := h.offset_le
      rw [List.map_append, List.sum_append] at hend
      omega
    have hnat : (UInt16.ofNat offset).toNat = offset := by
      rw [UInt16.toNat_ofNat', Nat.mod_eq_of_lt (by omega)]
    rw [hnat, hoffset]
    exact h.boundary hregistry

end LaidOut

/-! ## Linked programs -/

theorem size_finish (s : Session) : s.finish.size = s.offset := by
  show s.image.size = s.offset
  rw [image, Array.size_append, Header.size_toBytes, offset]

/-- What the linker writes, the other tools read. The image of a linked program is in the reach of
labels, and has a header in order; a machine loads it if it has room for it; its listing goes
through all of it and shows the statements of the files one by one, where a label has the offset that
the lines of all files together give it; and these labels are offsets of the listing, or the end. -/
theorem link_listing (hregistry : registry.Built) {files : List SourceFile} {p : Program}
    (h : (link registry files).outcome = .ok p) :
    let lines := files.flatMap fun file => SourceLine.ofText file.text
    let listing := Listing.ofBytes registry p.bytes
    p.bytes.size ≤ 65535 ∧ Header.check p.bytes = .ok p.header ∧
      (∀ m : Machine, (m.load p.bytes).1 = .ok () ↔ p.bytes.size ≤ m.memory.size) ∧
      listing.failure = none ∧
      List.Forall₂ (Realizes registry (address (fun _ => none) Header.size lines))
        (lines.filterMap SourceLine.instruction?) listing.instructions ∧
      ∀ i ∈ listing.instructions, ∀ target, Operand.label target ∈ i.operands →
        target.toNat ∈ listing.offsets ∨ target.toNat = p.bytes.size := by
  obtain ⟨s, hs, rfl⟩ := link_laidOut hregistry h
  obtain ⟨hfailure, hrealizes⟩ := hs.listing hregistry
  refine ⟨?_, s.check_image, ?_, hfailure, hrealizes, ?_⟩
  · have hsize : s.finish.bytes.size = s.offset := size_finish s
    rw [hsize]
    exact hs.offset_le
  · intro m
    rw [Machine.load_eq_ok_iff]
    exact and_iff_right ⟨s.header, s.check_image⟩
  · intro i hi target htarget
    exact hs.target hregistry hi htarget

/-- A label of the first file that both files use, and a label at the end of the second file. -/
theorem link_listing_two_files :
    let files : List SourceFile :=
      [⟨"a.asm", "start: push 1\njmp start\n"⟩, ⟨"b.asm", "jmp done\ncall start\ndone:\n"⟩]
    let p := (files.foldl LinkState.assemble (.start Registry.standard)).session.finish
    let listing := Listing.ofBytes Registry.standard p.bytes
    (link Registry.standard files).outcome = .ok p ∧ p.bytes.size = 22 ∧
      ((Machine.create Registry.standard 22).load p.bytes).1 = .ok () ∧
      listing.offsets = [8, 13, 16, 19] ∧
      ∀ i ∈ listing.instructions, ∀ target, Operand.label target ∈ i.operands →
        target.toNat ∈ listing.offsets ∨ target.toNat = 22 := by
  intro files p listing
  have hrun : (files.foldl LinkState.assemble (.start Registry.standard)).rejected = false ∧
      p.bytes.size = 22 ∧ listing.offsets = [8, 13, 16, 19] := by decide +kernel
  obtain ⟨haccepted, hsize, hoffsets⟩ := hrun
  have h : (link Registry.standard files).outcome = .ok p := link_eq_ok_iff.2 ⟨haccepted, rfl⟩
  obtain ⟨-, -, hload, -, -, htarget⟩ := link_listing Registry.standard_built h
  rw [hsize] at hload htarget
  have hfits : 22 ≤ (Machine.create Registry.standard 22).memory.size :=
    Nat.le_of_eq (Machine.size_create ..).symm
  exact ⟨h, hsize, (hload _).2 hfits, hoffsets, htarget⟩

end StackMachine.Assembly
