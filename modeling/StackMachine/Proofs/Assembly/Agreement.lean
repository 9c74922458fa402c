import StackMachine.Instruction.Standard
import StackMachine.Proofs.Assembly.Parts
import StackMachine.Proofs.Assembly.Progress

/-!
# Agreement of the two passes

The link pass starts with the labels and the number of registers that discovery ends with. Labels
stay where they are recorded, and a request for registers that was made once has no effect when it is
made again. So the link pass follows discovery step by step, with as much code at each of them.

* `Persists`: what a later session keeps of an earlier one; `runAll_persists` is the run lemma.
* `Mirrors`: how a session of the link pass is related to one of discovery; `run_mirrors` is the step
  and `runAll_mirrors` the run.
* `passes_agree`: the code offsets of both passes are the same at the start of every line, and the
  link pass can only fail for an operand: a label that is unknown or a register that is not there.
-/

namespace StackMachine.Assembly

open Session

/-- The labels and the request for registers of a session still stand in a later one. -/
structure Session.Persists (s t : Session) : Prop where
  label : ∀ name address, s.label? name = some address → t.label? name = some address
  registers : s.registers.requested = true →
    t.registers.requested = true ∧ s.registers.count ≤ t.registers.count

/-- A session of the link pass stands where one of discovery stood, with the labels and registers
that discovery ends with. -/
structure Session.Mirrors (final d q : Session) : Prop where
  registry : q.registry = d.registry
  offset : q.offset = d.offset
  registers : q.registers = final.registers
  label : ∀ name, q.label? name = final.label? name

variable {registry : Registry} {s final : Session} {path : String} {line : Nat}

/-! ## Discovery -/

namespace Session

theorem Persists.refl (s : Session) : s.Persists s :=
  ⟨fun _ _ h => h, fun h => ⟨h, UInt8.le_refl _⟩⟩

theorem Persists.trans {s t u : Session} (h : s.Persists t) (h' : t.Persists u) :
    s.Persists u := by
  refine ⟨fun name address hlabel => h'.label _ _ (h.label _ _ hlabel), fun hs => ?_⟩
  obtain ⟨ht, hst⟩ := h.registers hs
  obtain ⟨hu, htu⟩ := h'.registers ht
  exact ⟨hu, UInt8.le_trans hst htu⟩

theorem persists_define (hs : s.symbols.WellFormed) (name : String) :
    s.Persists (s.define name).2 := by
  obtain ⟨heq, -, hlabel⟩ := define_spec hs name
  refine ⟨fun k address hk => ?_, fun h => ?_⟩
  · cases hresult : (s.define name).1 with
    | error e =>
      rw [hresult] at hlabel
      exact (hlabel k).trans hk
    | ok offset =>
      rw [hresult] at hlabel
      obtain ⟨-, -, hnew, hlabel⟩ := hlabel
      by_cases hname : k = name
      · rw [hname, hnew] at hk
        cases hk
      · rw [hlabel, if_neg hname, hk]
  · rw [heq]
    exact ⟨h, UInt8.le_refl _⟩

theorem persists_request (s : Session) (requested : Int) :
    s.Persists (s.requestRegisters requested) :=
  ⟨fun _ _ h => h, fun h => ⟨RegisterSettings.request_requested ..,
    RegisterSettings.count_le_request h⟩⟩

end Session

namespace Act

/-- Discovery takes no label and no request back. -/
theorem run_persists (path : String) (line : Nat) {p : Progress} (h : p.Extends s) (act : Act) :
    p.session.Persists (act.run .discovery path line p).2.session := by
  cases act with
  | refuse error span => exact .refl _
  | label name span =>
    have hdefine := persists_define h.symbols name
    simp only [run]
    cases hresult : p.session.define name with
    | mk result session =>
      rw [hresult] at hdefine
      cases result <;> exact hdefine
  | version number span => exact .refl _
  | registers requested span =>
    rw [(run_registers ..).2]
    exact persists_request _ _
  | instruction mnemonic operands span =>
    simp only [run]
    split
    · exact { Persists.refl p.session with }
    · exact .refl _
  | bound span =>
    simp only [run]
    split <;> exact .refl _

theorem runAll_persists {acts : List (Nat × Act)} {outcome : Option (Nat × Located)}
    {p p' : Progress} (h : p.Extends s) (hrun : runAll .discovery path acts p = (outcome, p')) :
    p.session.Persists p'.session := by
  induction acts generalizing p with
  | nil =>
    cases hrun
    exact .refl _
  | cons head acts ih =>
    obtain ⟨line, act⟩ := head
    have hact := run_persists path line h act
    have hnext := run_extends .discovery path line h act
    rw [runAll] at hrun
    split at hrun
    · rename_i heq
      rw [heq] at hact hnext
      exact hact.trans (ih hnext hrun)
    · rename_i heq
      cases hrun
      rw [heq] at hact
      exact hact

end Act

/-! ## The link pass behind discovery -/

namespace Session.Mirrors

variable {d d' q : Session}

/-- A label that discovery records is confirmed: it stays where it is until the end. -/
theorem define (h : final.Mirrors d q) (hd : d.symbols.WellFormed) {name : String}
    {offset : UInt16} (hdefine : d.define name = (.ok offset, d')) (hfinal : d'.Persists final) :
    q.confirm name = .ok () ∧ final.Mirrors d' q := by
  obtain ⟨heq, -, hlabel⟩ := define_spec hd name
  rw [hdefine] at heq hlabel
  dsimp only at heq hlabel
  obtain ⟨hle, rfl, -, hlabel⟩ := hlabel
  have hrecorded : q.label? name = some (UInt16.ofNat d.offset) := by
    rw [h.label]
    exact hfinal.label _ _ ((hlabel name).trans (if_pos rfl))
  have htoNat : (UInt16.ofNat d.offset).toNat = q.offset := by
    rw [h.offset, UInt16.toNat_ofNat', Nat.mod_eq_of_lt (by omega)]
  refine ⟨?_, ?_⟩
  · rw [confirm, hrecorded]
    exact if_pos htoNat
  · rw [heq]
    exact { h with }

/-- A request that discovery made has no effect any more. -/
theorem requestRegisters (h : final.Mirrors d q) {requested : Int}
    (hfinal : (d.requestRegisters requested).Persists final) :
    final.Mirrors (d.requestRegisters requested) (q.requestRegisters requested) := by
  obtain ⟨hrequested, hcount⟩ :=
    hfinal.registers (RegisterSettings.request_requested d.registers requested)
  have hle := RegisterSettings.clamp_le_request d.registers requested
  refine ⟨h.registry, h.offset, ?_, h.label⟩
  rw [Session.requestRegisters, h.registers]
  exact RegisterSettings.request_eq_self hrequested (UInt8.le_trans hle hcount)

/-- An instruction has as many bytes in the link pass as in discovery. -/
theorem append (h : final.Mirrors d q) {resolving resolving' : Bool} {mnemonic : String}
    {tokens : List String} {bytes bytes' : List UInt8}
    (hbytes : d.encode resolving mnemonic tokens = .ok bytes)
    (hbytes' : q.encode resolving' mnemonic tokens = .ok bytes') :
    final.Mirrors (d.append bytes) (q.append bytes') := by
  refine ⟨h.registry, ?_, h.registers, h.label⟩
  rw [offset_append, offset_append, h.offset, length_encode_eq hbytes hbytes']

end Session.Mirrors

namespace Act

/-- The errors that the link pass can tell of an act: those of single operands of an instruction. -/
def Blames (final : Session) : Act → Located → Prop
  | instruction _ operands _, located =>
    ∃ token ∈ operands, located.span = token.span ∧ final.OperandFault token.text located.error
  | _, _ => False

theorem operandFault_congr {s t : Session} {token : String} {e : AssemblyError}
    (hregisters : s.registers = t.registers) (hlabel : ∀ name, s.label? name = t.label? name)
    (h : s.OperandFault token e) : t.OperandFault token e := by
  unfold OperandFault at h ⊢
  rwa [← hregisters, ← hlabel]

theorem faultSpan_eq {operands : List Token} {span : Span} {e : EncodeError} {index : Nat}
    {token : Token} (hindex : operands[index]? = some token) (he : e.operand = some index) :
    faultSpan operands span e = token.span := by
  simp [faultSpan, he, hindex]

/-- Where discovery carries out an act, the link pass carries it out too, or blames an operand. -/
theorem run_mirrors {d d' q : Progress} (hd : d.Extends s) {act : Act}
    (hrun : act.run .discovery path line d = (none, d')) (hfinal : d'.session.Persists final)
    (h : final.Mirrors d.session q.session) :
    match act.run .link path line q with
    | (none, q') => final.Mirrors d'.session q'.session
    | (some located, _) => act.Blames final located := by
  cases act with
  | refuse error span => cases hrun
  | label name span =>
    simp only [run] at hrun ⊢
    cases hdefine : d.session.define name with
    | mk result session =>
      rw [hdefine] at hrun
      cases result with
      | error e => cases hrun
      | ok offset =>
        cases hrun
        obtain ⟨hconfirm, hmirrors⟩ := h.define hd.symbols hdefine hfinal
        rw [hconfirm]
        exact hmirrors
  | version number span =>
    cases hrun
    exact { h with }
  | registers requested span =>
    have hd' := (run_registers .discovery path line requested span d).2
    rw [hrun] at hd'
    dsimp only at hd'
    rw [hd'] at hfinal ⊢
    have hq := run_registers .link path line requested span q
    generalize (registers requested span).run .link path line q = outcome at hq
    obtain ⟨result, q'⟩ := outcome
    obtain ⟨rfl, hq⟩ := hq
    dsimp only at hq ⊢
    rw [hq]
    exact h.requestRegisters hfinal
  | instruction mnemonic operands span =>
    simp only [run] at hrun ⊢
    cases hbytes : d.session.encode (Pass.discovery == .link) mnemonic (operands.map Token.text) with
    | error e =>
      rw [hbytes] at hrun
      cases hrun
    | ok bytes =>
      rw [hbytes] at hrun
      cases hrun
      cases hlink : q.session.encode (Pass.link == .link) mnemonic (operands.map Token.text) with
      | ok bytes' => exact h.append hbytes hlink
      | error e =>
        obtain ⟨index, text, hindex, he, hfault⟩ := encode_fault h.registry hbytes hlink
        rw [List.getElem?_map, Option.map_eq_some_iff] at hindex
        obtain ⟨token, hindex, rfl⟩ := hindex
        exact ⟨token, List.mem_of_getElem? hindex, faultSpan_eq hindex he,
          operandFault_congr h.registers h.label hfault⟩
  | bound span =>
    simp only [run] at hrun ⊢
    have hchecked : q.session.checkedOffset = d.session.checkedOffset := by
      rw [checkedOffset, checkedOffset, h.offset]
    rw [hchecked]
    cases hoffset : d.session.checkedOffset with
    | ok offset =>
      rw [hoffset] at hrun
      cases hrun
      exact h
    | error e =>
      rw [hoffset] at hrun
      cases hrun

/-- The link pass follows discovery to the end, or blames an operand on the way. -/
theorem runAll_mirrors {d d' q : Progress} (hd : d.Extends s) {acts : List (Nat × Act)}
    (hrun : runAll .discovery path acts d = (none, d')) (hfinal : d'.session.Persists final)
    (h : final.Mirrors d.session q.session) :
    match runAll .link path acts q with
    | (none, q') => final.Mirrors d'.session q'.session
    | (some (line, located), _) => ∃ act, (line, act) ∈ acts ∧ act.Blames final located := by
  induction acts generalizing d q with
  | nil =>
    cases hrun
    exact h
  | cons head acts ih =>
    obtain ⟨line, act⟩ := head
    have hnext := run_extends .discovery path line hd act
    rw [runAll] at hrun
    split at hrun
    · rename_i d₁ hact
      rw [hact] at hnext
      -- What this act records stays until the end of discovery.
      have hpersists : d₁.session.Persists final := (runAll_persists hnext hrun).trans hfinal
      have hmirrors := run_mirrors hd hact hpersists h
      rw [runAll]
      cases hlink : act.run .link path line q with
      | mk outcome q₁ =>
        rw [hlink] at hmirrors
        cases outcome with
        | some located => exact ⟨act, List.mem_cons_self, hmirrors⟩
        | none =>
          have hrest := ih hnext hrun hmirrors
          dsimp only at hrest ⊢
          split
          · rename_i heq
            rw [heq] at hrest
            exact hrest
          · rename_i heq
            rw [heq] at hrest
            obtain ⟨act', hmem, hblames⟩ := hrest
            exact ⟨act', List.mem_cons_of_mem _ hmem, hblames⟩
    · cases hrun

end Act

theorem Pass.lines_mirrors {d d' q : Progress} (hd : d.Extends s) {sources : List SourceLine}
    (hrun : Pass.discovery.lines path sources d = (none, d')) (hfinal : d'.session.Persists final)
    (h : final.Mirrors d.session q.session) :
    match Pass.link.lines path sources q with
    | (none, q') => final.Mirrors d'.session q'.session
    | (some (number, located), _) => ∃ line ∈ sources, line.number = number ∧
        ∃ mnemonic operands, line.instruction? = some (mnemonic, operands) ∧
          ∃ token ∈ operands, located.span = token.span ∧
            final.OperandFault token.text located.error := by
  have hacts := hrun
  rw [Pass.lines_eq_runAll] at hacts ⊢
  have hmirrors := Act.runAll_mirrors hd hacts hfinal h
  split
  · rename_i heq
    rw [heq] at hmirrors
    exact hmirrors
  · rename_i number located q' heq
    rw [heq] at hmirrors
    obtain ⟨act, hmem, hblames⟩ := hmirrors
    obtain ⟨line, hline, hnumber, hact⟩ := SourceLine.mem_numberedActs.1 hmem
    cases act with
    | instruction mnemonic operands span =>
      obtain ⟨token, hinstruction, -⟩ :=
        SourceLine.instruction?_of_mem (Pass.readable hrun hline) hact
      exact ⟨line, hline, hnumber, token, operands, hinstruction, hblames⟩
    | refuse _ _ => exact hblames.elim
    | label _ _ => exact hblames.elim
    | version _ _ => exact hblames.elim
    | registers _ _ => exact hblames.elim
    | bound _ => exact hblames.elim

/-- The passes agree: behind a discovery without errors, the link pass is at the same code offset at
the start of every line, and the only errors that it can tell are those of an operand of an
instruction, which is a label without an offset or a register that is not there. -/
theorem passes_agree (hs : Reachable registry s) (file : SourceFile) {final : Progress}
    (hfinal : Pass.discovery.lines file.path (SourceLine.ofText file.text) ⟨s, #[], #[]⟩ =
      (none, final)) :
    let start := { final with session := final.session.truncate s.checkpoint.offset }
    (∀ before after q, SourceLine.ofText file.text = before ++ after →
      Pass.link.lines file.path before start = (none, q) →
      ∃ d, Pass.discovery.lines file.path before ⟨s, #[], #[]⟩ = (none, d) ∧
        q.session.offset = d.session.offset) ∧
    ∀ number located q,
      Pass.link.lines file.path (SourceLine.ofText file.text) start = (some (number, located), q) →
      ∃ line ∈ SourceLine.ofText file.text, line.number = number ∧
        ∃ mnemonic operands, line.instruction? = some (mnemonic, operands) ∧
          ∃ token ∈ operands, located.span = token.span ∧
            (located.error = .unresolvedLabel token.text ∧
                final.session.label? token.text = none ∨
              located.error = .registerOutOfRange token.text final.session.registers.count) := by
  intro start
  have hextends := Progress.Extends.start hs.sound.symbols
  have hend := Pass.lines_extends hextends hfinal
  -- The code of the file is cut before the link pass, so both passes start at the same offset.
  have hmirrors : final.session.Mirrors s start.session := by
    refine ⟨hend.registry, ?_, rfl, fun _ => rfl⟩
    rw [offset, offset, hend.truncate.2]
  refine ⟨fun before after q hsources hq => ?_, fun number located q hq => ?_⟩
  · rw [hsources] at hfinal
    obtain ⟨d, hd, hafter⟩ := Pass.lines_append_eq_none hfinal
    have hpersists : d.session.Persists final.session := by
      rw [Pass.lines_eq_runAll] at hafter
      exact Act.runAll_persists (Pass.lines_extends hextends hd) hafter
    have hlink := Pass.lines_mirrors hextends hd hpersists hmirrors
    rw [hq] at hlink
    exact ⟨d, hd, hlink.offset⟩
  · have hlink := Pass.lines_mirrors hextends hfinal (.refl _) hmirrors
    rw [hq] at hlink
    exact hlink

/-- A register that is there in discovery, and no longer in the link pass. -/
theorem passes_agree_lowered :
    let s := start Registry.standard
    let file : SourceFile := ⟨"a.asm", "push r3\n.registers 2\n"⟩
    let lines := SourceLine.ofText file.text
    let discovery := Pass.discovery.lines file.path lines ⟨s, #[], #[]⟩
    let link := Pass.link.lines file.path lines
      { discovery.2 with session := discovery.2.session.truncate s.checkpoint.offset }
    discovery.1 = none ∧ link.1 = some (1, ⟨.registerOutOfRange "r3" 2, ⟨5, 7⟩⟩) ∧
      ∃ line ∈ lines, line.number = 1 ∧
        ∃ mnemonic operands, line.instruction? = some (mnemonic, operands) ∧
          ∃ token ∈ operands, token.span = ⟨5, 7⟩ := by
  intro s file lines discovery link
  have hdiscovery : discovery.1 = none := by decide +kernel
  have hlink : link.1 = some (1, ⟨.registerOutOfRange "r3" 2, ⟨5, 7⟩⟩) := by decide +kernel
  obtain ⟨line, hline, hnumber, mnemonic, operands, hinstruction, token, htoken, hspan, -⟩ :=
    (passes_agree Reachable.start file (Prod.ext hdiscovery rfl)).2 1 _ link.2
      (Prod.ext hlink rfl)
  exact ⟨hdiscovery, hlink, line, hline, hnumber, mnemonic, operands, hinstruction, token, htoken,
    hspan.symm⟩

end StackMachine.Assembly
