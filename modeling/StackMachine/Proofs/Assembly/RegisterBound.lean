import StackMachine.Instruction.Standard
import StackMachine.Proofs.Assembly.Agreement
import StackMachine.Proofs.Assembly.Link

/-!
# The register bound of linked programs

The header of a program has the number of registers in force behind the last file. The link pass
checks every register of a file against the number in force behind that file, and once there was a
request the number only grows. But the first request may lower it, and the files in front of it are
not looked at again.

* `link_code`: the link pass appends the instructions of the lines, with registers that are there.
* `foldl_assemble_spec`: what the files of a link add to code, registers and the number of them.
* `link_registers_lt_iff`: the registers of a linked program are all there exactly when those of the
  files in front of the first request are.
* `not_link_registers_lt`: they need not be.
-/

namespace StackMachine

/-! ## Registers in words and instructions -/

/-- The register that an operand is. -/
def Operand.register? : Operand → Option UInt8
  | register index => some index
  | _ => none

/-- The registers among the operands of an instruction. -/
def Instruction.registers (i : Instruction) : List UInt8 :=
  i.operands.filterMap Operand.register?

namespace Assembly

open Session

/-- The register that a word stands for. -/
def register? (word : String) : Option UInt8 :=
  match OperandToken.meaning? word with
  | some (.register index) => some index
  | _ => none

/-- The registers that the instruction on a line names. -/
def SourceLine.registers (line : SourceLine) : List UInt8 :=
  match line.instruction? with
  | some (_, words) => words.filterMap fun word => register? word.text
  | none => []

namespace SourceFile

/-- The registers that the instructions of a file name. -/
def registers (file : SourceFile) : List UInt8 :=
  (SourceLine.ofText file.text).flatMap SourceLine.registers

/-- The numbers of registers that the directives of a file ask for. -/
def requests (file : SourceFile) : List Int :=
  (SourceLine.ofText file.text).filterMap SourceLine.request?

end SourceFile

/-! ## Several requests -/

namespace RegisterSettings

variable {settings : RegisterSettings}

theorem foldl_request_keeps (requests : List Int) (h : settings.requested = true) :
    (requests.foldl request settings).requested = true ∧
      settings.count ≤ (requests.foldl request settings).count := by
  induction requests generalizing settings with
  | nil => exact ⟨h, UInt8.le_refl _⟩
  | cons requested requests ih =>
    obtain ⟨hrequested, hcount⟩ := ih (request_requested settings requested)
    exact ⟨hrequested, UInt8.le_trans (count_le_request h) hcount⟩

theorem foldl_request_requested {requests : List Int} (h : requests ≠ []) :
    (requests.foldl request settings).requested = true := by
  cases requests with
  | nil => exact absurd rfl h
  | cons requested requests =>
    exact (foldl_request_keeps requests (request_requested settings requested)).1

/-- Requests that were made have no effect when they are made again. -/
theorem foldl_request_absorbs {requests : List Int} {requested : Int} (h : requested ∈ requests) :
    (requests.foldl request settings).request requested = requests.foldl request settings := by
  induction requests generalizing settings with
  | nil => cases h
  | cons first requests ih =>
    rcases List.mem_cons.1 h with rfl | h
    · obtain ⟨hrequested, hcount⟩ :=
        foldl_request_keeps requests (request_requested settings requested)
      exact request_eq_self hrequested
        (UInt8.le_trans (clamp_le_request settings requested) hcount)
    · exact ih h

theorem foldl_request_eq_self {requests : List Int}
    (h : ∀ requested ∈ requests, settings.request requested = settings) :
    requests.foldl request settings = settings := by
  induction requests with
  | nil => rfl
  | cons requested requests ih =>
    rw [List.forall_mem_cons] at h
    rw [List.foldl_cons, h.1, ih h.2]

end RegisterSettings

variable {registry : Registry} {s : Session} {path : String} {line : SourceLine}

/-! ## Passes -/

theorem labelStep_registers {pass : Pass} {t : Session} (h : line.LabelStep pass s t) :
    t.registers = s.registers := by
  unfold SourceLine.LabelStep at h
  split at h
  · obtain ⟨offset, hdefine⟩ := h
    rw [← define_registers s, hdefine]
  · rw [h]

/-- A pass makes the requests of the lines in order. -/
theorem Pass.lines_registers {pass : Pass} {sources : List SourceLine} {p p' : Progress}
    (h : pass.lines path sources p = (none, p')) :
    p'.session.registers =
      (sources.filterMap SourceLine.request?).foldl .request p.session.registers := by
  induction sources generalizing p with
  | nil =>
    cases h
    rfl
  | cons line sources ih =>
    obtain ⟨q, t, bytes, hlabel, -, hq, hrest⟩ := Pass.lines_cons_eq_none h
    have hregisters : q.session.registers =
        line.request?.toList.foldl .request p.session.registers := by
      rw [hq, ← labelStep_registers hlabel]
    rw [ih hrest, hregisters, List.filterMap_cons]
    cases line.request? <;> rfl

theorem operands_registers {words : List Token} {operands : List Operand}
    (h : List.Forall₂ (fun word operand => s.operand true word.text = .ok operand) words
      operands) :
    operands.filterMap Operand.register? = words.filterMap (fun word => register? word.text) ∧
      ∀ index ∈ operands.filterMap Operand.register?, index < s.registers.count := by
  induction h with
  | nil => exact ⟨rfl, by simp⟩
  | @cons word operand words operands hword _ ih =>
    obtain ⟨heq, hlt⟩ := ih
    obtain ⟨found, hmeaning, hrange, hresolve⟩ := operand_eq_ok_iff.1 hword
    have hregister : operand.register? = register? word.text ∧
        ∀ index ∈ operand.register?, index < s.registers.count := by
      rw [register?, hmeaning]
      cases found with
      | constant bits =>
        cases hresolve
        exact ⟨rfl, by simp [Operand.register?]⟩
      | register index =>
        cases hresolve
        exact ⟨rfl, by simpa [Operand.register?, OperandToken.InRange] using hrange⟩
      | label name =>
        have hkind := resolve_kind hresolve
        cases operand with
        | label address => exact ⟨rfl, by simp [Operand.register?]⟩
        | constant bits => cases hkind
        | register index => cases hkind
    rw [List.filterMap_cons, List.filterMap_cons, ← hregister.1]
    cases hindex : operand.register? with
    | none => exact ⟨heq, hlt⟩
    | some index =>
      rw [hindex] at hregister
      refine ⟨congrArg (index :: ·) heq, ?_⟩
      rw [List.forall_mem_cons]
      exact ⟨hregister.2 index rfl, hlt⟩

/-- What the link pass appends at a line is an instruction, or nothing. -/
theorem codeStep_code (hregistry : s.registry.Consistent) {bytes : List UInt8}
    (h : line.CodeStep .link s bytes) :
    ∃ code : List Instruction, bytes = code.flatMap Instruction.encode ∧
      (∀ i ∈ code, i.Valid s.registry) ∧ code.flatMap Instruction.registers = line.registers ∧
      ∀ index ∈ line.registers, index < s.registers.count := by
  unfold SourceLine.CodeStep at h
  split at h
  · rename_i mnemonic words hinstruction
    obtain ⟨operands, definition, hoperands, hdefinition, rfl⟩ := encode_eq_ok_iff.1 h
    rw [List.forall₂_map_left_iff] at hoperands
    obtain ⟨hmem, -, hkinds⟩ := hregistry.bySignature?_eq_some_iff.1 hdefinition
    obtain ⟨heq, hlt⟩ := operands_registers hoperands
    have hregisters : line.registers = operands.filterMap Operand.register? := by
      rw [SourceLine.registers, hinstruction, heq]
    refine ⟨[⟨definition, operands⟩], by simp, ?_, ?_, ?_⟩
    · rw [List.forall_mem_singleton]
      exact ⟨hmem, hkinds⟩
    · rw [hregisters, List.flatMap_cons, List.flatMap_nil, List.append_nil]
      rfl
    · rw [hregisters]
      exact hlt
  · rename_i hnone
    have hregisters : line.registers = [] := by rw [SourceLine.registers, hnone]
    exact ⟨[], h, by simp, hregisters.symm, by simp [hregisters]⟩

/-- The link pass appends the instructions of the lines. Where no request has an effect any more,
their registers are below the number that the pass starts with. -/
theorem link_code {p p' : Progress} (hregistry : p.session.registry.Consistent)
    {sources : List SourceLine} (habsorbs : ∀ requested ∈ sources.filterMap SourceLine.request?,
      p.session.registers.request requested = p.session.registers)
    (h : Pass.link.lines path sources p = (none, p')) :
    ∃ code : List Instruction,
      p'.session.code.toList = p.session.code.toList ++ code.flatMap Instruction.encode ∧
      (∀ i ∈ code, i.Valid p.session.registry) ∧
      code.flatMap Instruction.registers = sources.flatMap SourceLine.registers ∧
      ∀ index ∈ sources.flatMap SourceLine.registers, index < p.session.registers.count := by
  induction sources generalizing p with
  | nil =>
    cases h
    exact ⟨[], by simp, by simp, rfl, by simp⟩
  | cons line sources ih =>
    obtain ⟨q, t, bytes, hlabel, hstep, hq, hrest⟩ := Pass.lines_cons_eq_none h
    unfold SourceLine.LabelStep at hlabel
    cases hlabel
    obtain ⟨first, rfl, hvalid, hregisters, hlt⟩ := codeStep_code hregistry hstep
    have hcode : q.session.code.toList =
        p.session.code.toList ++ first.flatMap Instruction.encode := by
      rw [hq]
      exact toList_append _ _
    have hregistries : q.session.registry = p.session.registry := by
      rw [hq]
      rfl
    -- All lines are checked against one number, since no request changes it any more.
    have hsettings : q.session.registers = p.session.registers := by
      rw [hq]
      cases hrequest : line.request? with
      | none => rfl
      | some requested => exact habsorbs requested (by simp [hrequest])
    have habsorbs' : ∀ requested ∈ sources.filterMap SourceLine.request?,
        q.session.registers.request requested = q.session.registers := by
      intro requested hmem
      rw [hsettings]
      refine habsorbs requested ?_
      obtain ⟨other, hother, hrequest⟩ := List.mem_filterMap.1 hmem
      exact List.mem_filterMap.2 ⟨other, List.mem_cons_of_mem _ hother, hrequest⟩
    obtain ⟨code, hflat, hvalid', hregisters', hlt'⟩ := ih (hregistries ▸ hregistry) habsorbs' hrest
    rw [hregistries] at hvalid'
    rw [hsettings] at hlt'
    refine ⟨first ++ code, ?_, ?_, ?_, ?_⟩
    · rw [hflat, hcode, List.flatMap_append, List.append_assoc]
    · exact List.forall_mem_append.2 ⟨hvalid, hvalid'⟩
    · rw [List.flatMap_append, List.flatMap_cons, hregisters, hregisters']
    · rw [List.flatMap_cons]
      exact List.forall_mem_append.2 ⟨hlt, hlt'⟩

/-! ## Files -/

/-- What an accepted file adds: instructions with registers that are there, and its requests. -/
theorem accepted_code (hregistry : registry.Built) (hs : s.Sound registry) {file : SourceFile}
    (h : (file.assemble s).accepted = true) :
    (file.assemble s).session.registers = file.requests.foldl .request s.registers ∧
    ∃ code : List Instruction,
      (file.assemble s).session.code.toList =
        s.code.toList ++ code.flatMap Instruction.encode ∧
      (∀ i ∈ code, i.Valid registry) ∧
      code.flatMap Instruction.registers = file.registers ∧
      ∀ index ∈ file.registers, index < (file.assemble s).session.registers.count := by
  rcases file.assemble_cases hs.symbols with ⟨number, located, p, -, heq⟩ |
    ⟨d, q, hdiscovery, hlink, hd, -, heq⟩
  · rw [heq] at h
    cases h
  have hrequests : d.session.registers = file.requests.foldl .request s.registers :=
    Pass.lines_registers hdiscovery
  have habsorbs : ∀ requested ∈ file.requests,
      d.session.registers.request requested = d.session.registers := by
    intro requested hmem
    rw [hrequests]
    exact RegisterSettings.foldl_request_absorbs hmem
  have hregistries : (d.session.truncate s.checkpoint.offset).registry = registry :=
    hd.registry.trans hs.registry_eq
  have hsettings : q.session.registers = d.session.registers := by
    rw [Pass.lines_registers hlink]
    exact RegisterSettings.foldl_request_eq_self habsorbs
  obtain ⟨code, hcode, hvalid, hregisters, hlt⟩ :=
    link_code (p := { d with session := d.session.truncate s.checkpoint.offset })
      (hregistries ▸ hregistry.consistent) habsorbs hlink
  dsimp only at hcode hvalid hlt
  rw [hd.truncate.2] at hcode
  rw [hregistries] at hvalid
  rw [heq]
  refine ⟨hsettings.trans hrequests, code, hcode, hvalid, hregisters, ?_⟩
  rw [hsettings]
  exact hlt

/-! ## Links -/

/-- What files add to a session when none of them is rejected. Their registers are below the final
number if there was a request before them, and in any case from the first file with a request on. -/
theorem foldl_assemble_spec (hregistry : registry.Built) (files : List SourceFile)
    (state : LinkState) (hs : state.session.Sound registry)
    (h : (files.foldl LinkState.assemble state).rejected = false) :
    let final := (files.foldl LinkState.assemble state).session
    final.registers = (files.flatMap SourceFile.requests).foldl .request state.session.registers ∧
    (∃ code : List Instruction,
      final.code.toList = state.session.code.toList ++ code.flatMap Instruction.encode ∧
      (∀ i ∈ code, i.Valid registry) ∧
      code.flatMap Instruction.registers = files.flatMap SourceFile.registers) ∧
    (state.session.registers.requested = true →
      ∀ index ∈ files.flatMap SourceFile.registers, index < final.registers.count) ∧
    ∀ index ∈ (files.dropWhile fun file => file.requests.isEmpty).flatMap SourceFile.registers,
      index < final.registers.count := by
  induction files generalizing state with
  | nil => exact ⟨rfl, ⟨[], by simp, by simp, rfl⟩, by simp, by simp⟩
  | cons file files ih =>
    obtain ⟨haccepted, h⟩ := foldl_cons_accepted h
    rw [List.foldl_cons]
    obtain ⟨hsettings, code, hcode, hvalid, hregisters, hlt⟩ :=
      accepted_code hregistry hs haccepted
    obtain ⟨hsettings', ⟨code', hcode', hvalid', hregisters'⟩, hbound, hdrop⟩ :=
      ih (state.assemble file) (file.assemble_sound hs) h
    have hsession : (state.assemble file).session = (file.assemble state.session).session := rfl
    rw [hsession, hsettings] at hsettings'
    rw [hsession] at hcode' hbound
    rw [hsettings] at hlt hbound
    intro final
    -- Once there was a request the number only grows, so the check behind this file is enough.
    have hall (hrequested :
        (file.requests.foldl .request state.session.registers).requested = true) :
        ∀ index ∈ (file :: files).flatMap SourceFile.registers,
          index < final.registers.count := by
      rw [List.flatMap_cons]
      refine List.forall_mem_append.2 ⟨fun index hmem => ?_, hbound hrequested⟩
      refine UInt8.lt_of_lt_of_le (hlt index hmem) ?_
      have hkeeps := RegisterSettings.foldl_request_keeps
        (files.flatMap SourceFile.requests) hrequested
      rw [← hsettings'] at hkeeps
      exact hkeeps.2
    refine ⟨?_, ⟨code ++ code', ?_, ?_, ?_⟩, fun hrequested => ?_, ?_⟩
    · rw [List.flatMap_cons, List.foldl_append]
      exact hsettings'
    · rw [hcode', hcode, List.flatMap_append, List.append_assoc]
    · exact List.forall_mem_append.2 ⟨hvalid, hvalid'⟩
    · rw [List.flatMap_append, List.flatMap_cons, hregisters, hregisters']
    · exact hall (RegisterSettings.foldl_request_keeps file.requests hrequested).1
    · rw [List.dropWhile_cons]
      split
      · exact hdrop
      · rename_i hrequests
        rw [List.isEmpty_iff] at hrequests
        exact hall (RegisterSettings.foldl_request_requested hrequests)

/-- The number of registers of a linked program is what the requests of its files make of the
default. Its image is made of instructions altogether, and their registers are all below that number
exactly when those of the files in front of the first request are. -/
theorem link_registers_lt_iff {files : List SourceFile} {p : Program}
    (h : (link Registry.standard files).outcome = .ok p) :
    let listing := Listing.ofBytes Registry.standard p.bytes
    p.registerCount =
      ((files.flatMap SourceFile.requests).foldl RegisterSettings.request .standard).count ∧
    listing.failure = none ∧
    ((∀ i ∈ listing.instructions, ∀ index ∈ i.registers, index < p.registerCount) ↔
      ∀ index ∈ (files.takeWhile fun file => file.requests.isEmpty).flatMap SourceFile.registers,
        index < p.registerCount) := by
  obtain ⟨haccepted, rfl⟩ := link_eq_ok_iff.1 h
  have hs : (Session.start Registry.standard).Sound Registry.standard := Reachable.start.sound
  obtain ⟨hsettings, ⟨code, hcode, hvalid, hregisters⟩, -, hdrop⟩ :=
    foldl_assemble_spec Registry.standard_built files (.start Registry.standard) hs haccepted
  generalize (files.foldl LinkState.assemble (.start Registry.standard)).session = final at *
  have himage : final.image.toList.drop Header.size = code.flatMap Instruction.encode := by
    rw [toList_image, hcode]
    rfl
  obtain ⟨hfailure, hinstructions⟩ :=
    Listing.ofBytes_encode Registry.standard_built.consistent hvalid final.check_image himage
  intro listing
  have hcount : final.finish.registerCount = final.registers.count := rfl
  refine ⟨congrArg RegisterSettings.count hsettings, hfailure, ?_⟩
  have hbound : (∀ i ∈ listing.instructions, ∀ index ∈ i.registers,
      index < final.registers.count) ↔
      ∀ index ∈ files.flatMap SourceFile.registers, index < final.registers.count := by
    rw [← hregisters, ← hinstructions]
    simp only [List.forall_mem_flatMap]
    rfl
  rw [hcount, hbound]
  conv_lhs => rw [← List.takeWhile_append_dropWhile (p := fun file => file.requests.isEmpty)
    (l := files), List.flatMap_append, List.forall_mem_append]
  exact and_iff_left hdrop

/-- A request that raises the number leaves the registers of the files in front of it in reach. -/
theorem link_registers_lt_of_raise :
    let files : List SourceFile := [⟨"a.asm", "push r3\n"⟩, ⟨"b.asm", ".registers 6\npop r5\n"⟩]
    let p := (files.foldl LinkState.assemble (.start Registry.standard)).session.finish
    (link Registry.standard files).outcome = .ok p ∧ p.registerCount = 6 ∧
      ∀ i ∈ (Listing.ofBytes Registry.standard p.bytes).instructions, ∀ index ∈ i.registers,
        index < p.registerCount := by
  intro files p
  have h : (link Registry.standard files).outcome = .ok p :=
    link_eq_ok_iff.2 ⟨by decide +kernel, rfl⟩
  obtain ⟨hcount, -, hiff⟩ := link_registers_lt_iff h
  exact ⟨h, hcount.trans (by decide +kernel), hiff.2 (by decide +kernel)⟩

/-- The register bound is not enforced at assembly time: a first request below the default, in a
later file, leaves a register of an earlier file out of reach. -/
theorem not_link_registers_lt :
    ¬ ∀ files p, (link Registry.standard files).outcome = .ok p →
      ∀ i ∈ (Listing.ofBytes Registry.standard p.bytes).instructions, ∀ index ∈ i.registers,
        index < p.registerCount := by
  intro h
  let files : List SourceFile := [⟨"a.asm", "push r3\n"⟩, ⟨"b.asm", ".registers 2\n"⟩]
  let p := (files.foldl LinkState.assemble (.start Registry.standard)).session.finish
  have hlink : (link Registry.standard files).outcome = .ok p :=
    link_eq_ok_iff.2 ⟨by decide +kernel, rfl⟩
  have hpush : ⟨⟨"push", 0x02, [.register], .pushRegister⟩, [.register 3]⟩ ∈
      (Listing.ofBytes Registry.standard p.bytes).instructions := by decide +kernel
  exact absurd (h files p hlink _ hpush 3 (by decide +kernel)) (by decide +kernel)

end Assembly

end StackMachine
