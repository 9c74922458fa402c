import StackMachine.Proofs.Assembly.Agreement
import StackMachine.Proofs.Assembly.Effect

/-!
# When a file is accepted

Discovery asks how far the code has come, how many registers there are and which labels are known.
It does not ask what the code is, nor where the labels are. The link pass behind it goes through
when each operand stands for something in the session that discovery ends with. So whether a file is
accepted can be carried over to other sessions, and to other texts that say the same.

* `Session.Shifted`: two sessions that discovery can tell apart only by the offset, which is larger
  in the second by a constant.
* `Pass.effect?_shifted`: discovery gets through the same lines from shifted sessions.
* `Session.Resolves`, `SourceLine.operandWords`: what the link pass asks of the operands of lines.
* `SourceFile.accepted_iff`: a file is accepted when discovery gets through it and its operands
  resolve behind it.
-/

namespace StackMachine.Assembly

open Session

variable {s s' t u d d' q final : Session} {k m : Nat} {pass : Pass} {lines : List SourceLine}

/-! ## Shifted sessions -/

/-- The second session has `k` more bytes of code, and the same registers and known labels. -/
structure Session.Shifted (k : Nat) (s t : Session) : Prop where
  registry : t.registry = s.registry
  offset : t.offset = s.offset + k
  registers : t.registers = s.registers
  known : ∀ name, s.label? name = none ↔ t.label? name = none
  left : s.symbols.WellFormed
  right : t.symbols.WellFormed

namespace Session

theorem Shifted.refl (hs : s.symbols.WellFormed) : Shifted 0 s s :=
  ⟨rfl, rfl, rfl, fun _ => Iff.rfl, hs, hs⟩

theorem Shifted.symm (h : Shifted 0 s t) : Shifted 0 t s :=
  ⟨h.registry.symm, h.offset.symm, h.registers.symm, fun name => (h.known name).symm, h.right,
    h.left⟩

theorem Shifted.trans (h : Shifted k s t) (h' : Shifted m t u) : Shifted (k + m) s u := by
  refine ⟨h'.registry.trans h.registry, ?_, h'.registers.trans h.registers,
    fun name => (h.known name).trans (h'.known name), h.left, h'.right⟩
  rw [h'.offset, h.offset, Nat.add_assoc]

/-- Code alone shifts a session. -/
theorem shifted_append (hs : s.symbols.WellFormed) (bytes : List UInt8) :
    Shifted bytes.length s (s.append bytes) :=
  ⟨rfl, offset_append s bytes, rfl, fun _ => Iff.rfl, hs, hs⟩

/-- Without resolving labels, an encoding depends on the registry and the number of registers. -/
theorem encode_unresolved_congr (hregistry : t.registry = s.registry)
    (hregisters : t.registers = s.registers) (mnemonic : String) (words : List String) :
    t.encode false mnemonic words = s.encode false mnemonic words := by
  have hoperand : t.operand false = s.operand false := by
    funext word
    unfold Session.operand classify
    rw [hregisters]
    split
    · rename_i found _
      cases found <;> rfl
    · rfl
  have hbytes : t.instructionBytes mnemonic = s.instructionBytes mnemonic := by
    funext operands
    rw [instructionBytes, instructionBytes, hregistry]
  rw [encode_eq, encode_eq, operandsFrom, operandsFrom, hoperand, hbytes]

namespace Shifted

theorem append (h : Shifted k s t) (bytes : List UInt8) :
    Shifted k (s.append bytes) (t.append bytes) := by
  refine { h with offset := ?_ }
  rw [offset_append, offset_append, h.offset, Nat.add_right_comm]

theorem requestRegisters (h : Shifted k s t) (requested : Int) :
    Shifted k (s.requestRegisters requested) (t.requestRegisters requested) :=
  { h with registers := congrArg (·.request requested) h.registers }

/-- A label that is new in one of the sessions is new in the other, where there is as much room. -/
theorem define (h : Shifted k s t) {name : String} {offset : UInt16}
    (hdefine : s.define name = (.ok offset, s')) (hle : t.offset ≤ 65535) :
    ∃ offset' t', t.define name = (.ok offset', t') ∧ Shifted k s' t' := by
  obtain ⟨-, hnew, hroom⟩ := (define_eq_ok_iff h.left name).1 ⟨_, _, hdefine⟩
  rw [h.left.size_congr h.right h.known] at hroom
  obtain ⟨offset', t', hdefine'⟩ :=
    (define_eq_ok_iff h.right name).2 ⟨hle, (h.known name).1 hnew, hroom⟩
  obtain ⟨heq, hwf, hs⟩ := define_spec h.left name
  obtain ⟨heq', hwf', ht⟩ := define_spec h.right name
  rw [hdefine] at heq hwf hs
  rw [hdefine'] at heq' hwf' ht
  dsimp only at heq hwf hs heq' hwf' ht
  refine ⟨offset', t', hdefine', ?_, ?_, ?_, fun other => ?_, hwf, hwf'⟩
  · rw [heq, heq']
    exact h.registry
  · rw [heq, heq']
    exact h.offset
  · rw [heq, heq']
    exact h.registers
  · rw [hs.2.2.2, ht.2.2.2]
    by_cases hother : other = name
    · simp [hother]
    · rw [if_neg hother, if_neg hother]
      exact h.known other

end Shifted

end Session

/-! ## Discovery from shifted sessions -/

namespace Act

theorem effect?_iff_run (path : String) (line : Nat) (p : Progress) {act : Act} :
    act.effect? pass p.session = some t ↔
      ∃ p', act.run pass path line p = (none, p') ∧ p'.session = t := by
  rcases run_cases pass path line act p with ⟨located, p', hrun, heffect⟩ | ⟨p', hrun, heffect⟩
  · rw [hrun, heffect]
    simp
  · rw [hrun, heffect]
    simp

/-- No act takes code back. -/
theorem effect?_offset_le {act : Act} (h : act.effect? pass s = some t) :
    s.offset ≤ t.offset := by
  cases act with
  | refuse error span => cases h
  | label name span =>
    cases pass with
    | discovery =>
      obtain ⟨offset, hdefine⟩ := discovery_label_iff.1 h
      have hcode := define_offset s name
      rw [hdefine] at hcode
      exact Nat.le_of_eq hcode.symm
    | link =>
      obtain ⟨-, rfl⟩ := link_label_iff.1 h
      exact Nat.le_refl _
  | version number span =>
    cases h
    exact Nat.le_refl _
  | registers requested span =>
    cases h
    exact Nat.le_refl _
  | instruction mnemonic operands span =>
    obtain ⟨bytes, -, rfl⟩ := instruction_iff.1 h
    rw [offset_append]
    exact Nat.le_add_right _ _
  | bound span =>
    obtain ⟨-, rfl⟩ := bound_iff.1 h
    exact Nat.le_refl _

theorem effects?_offset_le {acts : List Act} (h : effects? pass acts s = some t) :
    s.offset ≤ t.offset := by
  induction acts generalizing s with
  | nil =>
    cases h
    exact Nat.le_refl _
  | cons act acts ih =>
    rw [effects?_cons] at h
    obtain ⟨s', hact, hrest⟩ := Option.bind_eq_some_iff.1 h
    exact Nat.le_trans (effect?_offset_le hact) (ih hrest)

/-- Discovery carries out an act on the shifted session too, where there is room for its code. -/
theorem effect?_shifted (h : Shifted k s t) {act : Act}
    (hact : act.effect? .discovery s = some s') (hroom : k = 0 ∨ s'.offset + k ≤ 65535) :
    ∃ t', act.effect? .discovery t = some t' ∧ Shifted k s' t' := by
  have hle (hs : s.offset ≤ 65535) : t.offset ≤ 65535 := by
    have hoffset := effect?_offset_le hact
    rw [h.offset]
    omega
  cases act with
  | refuse error span => cases hact
  | label name span =>
    obtain ⟨offset, hdefine⟩ := discovery_label_iff.1 hact
    have hs := ((define_eq_ok_iff h.left name).1 ⟨offset, s', hdefine⟩).1
    obtain ⟨offset', t', hdefine', hshifted⟩ := h.define hdefine (hle hs)
    exact ⟨t', discovery_label_iff.2 ⟨offset', hdefine'⟩, hshifted⟩
  | version number span =>
    cases hact
    exact ⟨t, rfl, h⟩
  | registers requested span =>
    cases hact
    exact ⟨_, rfl, h.requestRegisters requested⟩
  | instruction mnemonic operands span =>
    obtain ⟨bytes, hbytes, rfl⟩ := instruction_iff.1 hact
    refine ⟨_, instruction_iff.2 ⟨bytes, ?_, rfl⟩, h.append bytes⟩
    rw [← hbytes]
    exact encode_unresolved_congr h.registry h.registers ..
  | bound span =>
    obtain ⟨hs, rfl⟩ := bound_iff.1 hact
    exact ⟨t, bound_iff.2 ⟨hle hs, rfl⟩, h⟩

end Act

/-- Discovery gets through the same lines from a shifted session, where there is room for the code
that it leaves. -/
theorem Pass.effect?_shifted (h : Shifted k s t)
    (hrun : Pass.discovery.effect? lines s = some s') (hroom : k = 0 ∨ s'.offset + k ≤ 65535) :
    ∃ t', Pass.discovery.effect? lines t = some t' ∧ Shifted k s' t' := by
  refine Act.effects?_related (R := Shifted k) ?_ h hrun
  rintro act - s₁ s₂ t₁ hshifted hact ⟨rest, hrest⟩
  refine Act.effect?_shifted hshifted hact ?_
  have hle := Act.effects?_offset_le hrest
  omega

/-! ## Operands that resolve -/

/-- Whether a word stands for an operand: a label that is known, a register that is there, or a
constant. -/
def Session.Resolves (s : Session) (word : String) : Prop :=
  ∃ operand, s.operand true word = .ok operand

/-- The second session has at least the registers and the labels of the first. -/
structure Session.Within (s t : Session) : Prop where
  count_le : s.registers.count ≤ t.registers.count
  known : ∀ name, t.label? name = none → s.label? name = none

namespace Session

theorem resolves_iff {word : String} : s.Resolves word ↔
    ∃ found, OperandToken.meaning? word = some found ∧ found.InRange s.registers.count ∧
      ∀ name, found = .label name → s.label? name ≠ none := by
  constructor
  · rintro ⟨operand, hoperand⟩
    obtain ⟨found, hmeaning, hrange, hresolve⟩ := operand_eq_ok_iff.1 hoperand
    refine ⟨found, hmeaning, hrange, ?_⟩
    rintro name rfl hnone
    rw [resolve, if_pos rfl, hnone] at hresolve
    cases hresolve
  · rintro ⟨found, hmeaning, hrange, hknown⟩
    have hresolve : ∃ operand, s.resolve true found = .ok operand := by
      cases found with
      | constant bits => exact ⟨_, rfl⟩
      | register index => exact ⟨_, rfl⟩
      | label name =>
        obtain ⟨address, haddress⟩ := Option.ne_none_iff_exists'.1 (hknown name rfl)
        rw [resolve, if_pos rfl, haddress]
        exact ⟨_, rfl⟩
    obtain ⟨operand, hoperand⟩ := hresolve
    exact ⟨operand, operand_eq_ok_iff.2 ⟨found, hmeaning, hrange, hoperand⟩⟩

theorem Within.refl (s : Session) : s.Within s :=
  ⟨UInt8.le_refl _, fun _ h => h⟩

theorem Within.trans (h : s.Within t) (h' : t.Within u) : s.Within u :=
  ⟨UInt8.le_trans h.count_le h'.count_le, fun name hnone => h.known name (h'.known name hnone)⟩

theorem Shifted.within (h : Shifted k s t) : s.Within t :=
  ⟨by rw [h.registers]; exact UInt8.le_refl _, fun name => (h.known name).2⟩

/-- More registers and more labels leave an operand in reach. -/
theorem Resolves.mono {word : String} (h : s.Resolves word) (hwithin : s.Within t) :
    t.Resolves word := by
  obtain ⟨found, hmeaning, hrange, hlabel⟩ := resolves_iff.1 h
  refine resolves_iff.2 ⟨found, hmeaning, ?_, fun name hname hnone =>
    hlabel name hname (hwithin.known name hnone)⟩
  cases found with
  | register index => exact UInt8.lt_of_lt_of_le hrange hwithin.count_le
  | constant bits => trivial
  | label name => trivial

theorem resolves_words_iff {words : List String} : (∀ word ∈ words, s.Resolves word) ↔
    ∃ operands, List.Forall₂ (fun word operand => s.operand true word = .ok operand) words
      operands := by
  induction words with
  | nil => exact iff_of_true (by simp) ⟨[], .nil⟩
  | cons word words ih =>
    rw [List.forall_mem_cons, ih]
    constructor
    · rintro ⟨⟨operand, hoperand⟩, operands, hoperands⟩
      exact ⟨operand :: operands, .cons hoperand hoperands⟩
    · rintro ⟨_, _ | ⟨hoperand, hoperands⟩⟩
      exact ⟨⟨_, hoperand⟩, _, hoperands⟩

/-- An instruction that has an encoding without its labels has one with them if all its operands
resolve, and only then. -/
theorem encode_resolving_iff (hregistry : q.registry = d.registry) {mnemonic : String}
    {words : List String} {bytes : List UInt8} (h : d.encode false mnemonic words = .ok bytes) :
    (∃ bytes, q.encode true mnemonic words = .ok bytes) ↔ ∀ word ∈ words, q.Resolves word := by
  obtain ⟨operands, definition, hoperands, hdefinition, -⟩ := encode_eq_ok_iff.1 h
  rw [resolves_words_iff]
  constructor
  · rintro ⟨bytes', h'⟩
    obtain ⟨operands', -, hoperands', -⟩ := encode_eq_ok_iff.1 h'
    exact ⟨operands', hoperands'⟩
  · rintro ⟨operands', hoperands'⟩
    refine ⟨_, encode_eq_ok_iff.2 ⟨operands', definition, hoperands', ?_, rfl⟩⟩
    rw [hregistry, ← operands_kinds_eq hoperands hoperands', hdefinition]

end Session

/-- The operands of an instruction. -/
def Act.words : Act → List String
  | instruction _ operands _ => operands.map Token.text
  | _ => []

/-- The operands of the instructions on some lines. -/
def SourceLine.operandWords (lines : List SourceLine) : List String :=
  (lines.flatMap acts).flatMap Act.words

namespace SourceLine

theorem operandWords_append (lines lines' : List SourceLine) :
    operandWords (lines ++ lines') = operandWords lines ++ operandWords lines' := by
  rw [operandWords, List.flatMap_append, List.flatMap_append]
  rfl

theorem operandWords_contents (lines : List SourceLine) :
    operandWords (contents lines) = operandWords lines := by
  have hwords (act : Act) : act.unplaced.words = act.words := by
    cases act with
    | instruction mnemonic operands span => simp [Act.unplaced, Act.words, Token.unplaced]
    | refuse _ _ => rfl
    | label _ _ => rfl
    | version _ _ => rfl
    | registers _ _ => rfl
    | bound _ => rfl
  rw [operandWords, flatMap_acts_contents, List.flatMap_map]
  exact congrArg (fun f => List.flatMap f _) (funext hwords)

theorem operandWords_congr {lines' : List SourceLine} (h : contents lines = contents lines') :
    operandWords lines = operandWords lines' := by
  rw [← operandWords_contents, h, operandWords_contents]

end SourceLine

/-! ## The link pass behind discovery -/

namespace Act

/-- Discovery keeps the symbol table in order, and takes no label and no request back. -/
theorem effect?_persists (hs : s.symbols.WellFormed) {act : Act}
    (h : act.effect? .discovery s = some t) : t.symbols.WellFormed ∧ s.Persists t := by
  obtain ⟨p, hrun, rfl⟩ := (effect?_iff_run "" 0 ⟨s, #[], #[]⟩).1 h
  have hextends := run_extends .discovery "" 0 (.start hs) act
  have hpersists := run_persists "" 0 (.start hs) act
  rw [hrun] at hextends hpersists
  exact ⟨hextends.symbols, hpersists⟩

theorem effects?_persists (hs : s.symbols.WellFormed) {acts : List Act}
    (h : effects? .discovery acts s = some t) : t.symbols.WellFormed ∧ s.Persists t := by
  induction acts generalizing s with
  | nil =>
    cases h
    exact ⟨hs, .refl _⟩
  | cons act acts ih =>
    rw [effects?_cons] at h
    obtain ⟨s', hact, hrest⟩ := Option.bind_eq_some_iff.1 h
    obtain ⟨hs', hfirst⟩ := effect?_persists hs hact
    obtain ⟨ht, hpersists⟩ := ih hs' hrest
    exact ⟨ht, hfirst.trans hpersists⟩

theorem resolves_congr {word : String} (hregisters : q.registers = final.registers)
    (hlabel : ∀ name, q.label? name = final.label? name) : q.Resolves word ↔ final.Resolves word := by
  rw [resolves_iff, resolves_iff, hregisters]
  simp only [hlabel]

/-- The link pass carries out an act behind discovery if its operands resolve, and only then. -/
theorem effect?_mirrors (hd : d.symbols.WellFormed) {act : Act}
    (hact : act.effect? .discovery d = some d') (hfinal : d'.Persists final)
    (h : final.Mirrors d q) :
    match act.effect? .link q with
    | some q' => final.Mirrors d' q' ∧ ∀ word ∈ act.words, final.Resolves word
    | none => ∃ word ∈ act.words, ¬ final.Resolves word := by
  cases act with
  | refuse error span => cases hact
  | label name span =>
    obtain ⟨offset, hdefine⟩ := discovery_label_iff.1 hact
    obtain ⟨hconfirm, hmirrors⟩ := h.define hd hdefine hfinal
    rw [link_label_iff.2 ⟨hconfirm, rfl⟩]
    exact ⟨hmirrors, by simp [words]⟩
  | version number span =>
    cases hact
    exact ⟨h, by simp [words]⟩
  | registers requested span =>
    cases hact
    exact ⟨h.requestRegisters hfinal, by simp [words]⟩
  | instruction mnemonic operands span =>
    obtain ⟨bytes, hbytes, rfl⟩ := instruction_iff.1 hact
    have hiff := encode_resolving_iff h.registry hbytes
    simp only [resolves_congr h.registers h.label] at hiff
    cases hlink : (instruction mnemonic operands span).effect? .link q with
    | some q' =>
      obtain ⟨bytes', hbytes', rfl⟩ := instruction_iff.1 hlink
      exact ⟨h.append hbytes hbytes', hiff.1 ⟨bytes', hbytes'⟩⟩
    | none =>
      have hnot : ¬ ∀ word ∈ operands.map Token.text, final.Resolves word := by
        intro hresolves
        obtain ⟨bytes', hbytes'⟩ := hiff.2 hresolves
        rw [instruction_iff.2 ⟨bytes', hbytes', rfl⟩] at hlink
        cases hlink
      push Not at hnot
      exact hnot
  | bound span =>
    obtain ⟨hle, rfl⟩ := bound_iff.1 hact
    rw [← h.offset] at hle
    rw [bound_iff.2 ⟨hle, rfl⟩]
    exact ⟨h, by simp [words]⟩

/-- The link pass follows discovery to the end if the operands on the way resolve, and only then. -/
theorem effects?_mirrors (hd : d.symbols.WellFormed) {acts : List Act}
    (hrun : effects? .discovery acts d = some d') (hfinal : d'.Persists final)
    (h : final.Mirrors d q) :
    match effects? .link acts q with
    | some q' => final.Mirrors d' q' ∧ ∀ word ∈ acts.flatMap words, final.Resolves word
    | none => ∃ word ∈ acts.flatMap words, ¬ final.Resolves word := by
  induction acts generalizing d q with
  | nil =>
    cases hrun
    exact ⟨h, by simp⟩
  | cons act acts ih =>
    rw [effects?_cons] at hrun
    obtain ⟨d₁, hact, hrest⟩ := Option.bind_eq_some_iff.1 hrun
    obtain ⟨hd₁, -⟩ := effect?_persists hd hact
    -- What this act records stays until the end of discovery.
    have hpersists : d₁.Persists final := (effects?_persists hd₁ hrest).2.trans hfinal
    have hmirrors := effect?_mirrors hd hact hpersists h
    rw [effects?_cons, List.flatMap_cons]
    cases hlink : act.effect? .link q with
    | none =>
      rw [hlink] at hmirrors
      obtain ⟨word, hword, hfault⟩ := hmirrors
      exact ⟨word, List.mem_append_left _ hword, hfault⟩
    | some q₁ =>
      rw [hlink] at hmirrors
      have hend := ih hd₁ hrest hmirrors.1
      rw [Option.bind_some]
      split
      · rename_i heq
        rw [heq] at hend
        exact ⟨hend.1, List.forall_mem_append.2 ⟨hmirrors.2, hend.2⟩⟩
      · rename_i heq
        rw [heq] at hend
        obtain ⟨word, hword, hfault⟩ := hend
        exact ⟨word, List.mem_append_right _ hword, hfault⟩

end Act

/-! ## Files -/

namespace SourceFile

variable {file : SourceFile}

/-- Discovery leaves the code from before in front of its own. -/
theorem mirrors_truncate (hs : s.symbols.WellFormed)
    (h : Pass.discovery.effect? (SourceLine.ofText file.text) s = some d) :
    d.Mirrors s (d.truncate s.offset) := by
  obtain ⟨p, hlines, rfl⟩ := (Pass.effect?_eq_some_iff file.path ⟨s, #[], #[]⟩).1 h
  have hextends := Pass.lines_extends (.start hs) hlines
  have hcode : (p.session.truncate s.offset).code = s.code := hextends.truncate.2
  refine ⟨hextends.registry, ?_, rfl, fun _ => rfl⟩
  exact congrArg (Header.size + ·.size) hcode

/-- A file is accepted when discovery gets through it and its operands resolve behind it. -/
theorem accepted_iff (hs : s.symbols.WellFormed) :
    (file.assemble s).accepted = true ↔
      ∃ d, Pass.discovery.effect? (SourceLine.ofText file.text) s = some d ∧
        ∀ word ∈ SourceLine.operandWords (SourceLine.ofText file.text), d.Resolves word := by
  have hlink {d} (hd : Pass.discovery.effect? (SourceLine.ofText file.text) s = some d) :=
    Act.effects?_mirrors hs hd (.refl d) (mirrors_truncate hs hd)
  constructor
  · intro haccepted
    obtain ⟨d, hd, ht⟩ := assemble_eq_iff.1 ⟨haccepted, rfl⟩
    have hmirrors := hlink hd
    rw [Pass.effect?] at ht
    rw [ht] at hmirrors
    exact ⟨d, hd, hmirrors.2⟩
  · rintro ⟨d, hd, hresolves⟩
    have hmirrors := hlink hd
    split at hmirrors
    · rename_i t ht
      exact (assemble_eq_iff.2 ⟨d, hd, ht⟩).1
    · obtain ⟨word, hword, hfault⟩ := hmirrors
      exact absurd (hresolves word hword) hfault

/-- An accepted file leaves a session as far as discovery has come. -/
theorem shifted_of_accepted (hs : s.symbols.WellFormed) (h : (file.assemble s).accepted = true) :
    ∃ d, Pass.discovery.effect? (SourceLine.ofText file.text) s = some d ∧
      (∀ word ∈ SourceLine.operandWords (SourceLine.ofText file.text), d.Resolves word) ∧
      Shifted 0 d (file.assemble s).session := by
  obtain ⟨d, hd, ht⟩ := assemble_eq_iff.1 ⟨h, rfl⟩
  have hmirrors := Act.effects?_mirrors hs hd (.refl d) (mirrors_truncate hs hd)
  rw [Pass.effect?] at ht
  rw [ht] at hmirrors
  obtain ⟨hmirrors, hresolves⟩ := hmirrors
  have hsound : (file.assemble s).session.Sound s.registry := file.assemble_sound ⟨rfl, hs⟩
  refine ⟨d, hd, hresolves, hmirrors.registry, hmirrors.offset, hmirrors.registers, fun name => ?_,
    (Act.effects?_persists hs hd).1, hsound.symbols⟩
  rw [hmirrors.label]

end SourceFile

end StackMachine.Assembly
