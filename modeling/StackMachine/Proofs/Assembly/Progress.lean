import StackMachine.Proofs.Assembly.Act

/-!
# What a pass leaves of the session before

Whatever acts a pass has carried out, also when the last of them failed, the code from before is
still there in front of the new code, and the labels from before are still there beside those that
the pass has told. So a checkpoint and the list of labels told are enough to undo the pass.

* `Progress.Extends`: the progress made from a session keeps its code and its labels.
* `Act.run_extends`, `Act.runAll_extends`: every act keeps it so, and so does every pass.
* `rollback_alike`: undoing leads to a session that is alike to the one before.
* `Reachable.sound`: every session that operations lead to is in order.
-/

namespace StackMachine.Assembly

open Session

/-- The progress only adds to a session: code behind the code, and the labels that it tells. -/
structure Progress.Extends (s : Session) (p : Progress) : Prop where
  registry : p.session.registry = s.registry
  symbols : p.session.symbols.WellFormed
  code : s.code.toList <+: p.session.code.toList
  fresh : ∀ name ∈ p.defined, s.label? name = none
  label : ∀ name, name ∉ p.defined → p.session.label? name = s.label? name

variable {registry : Registry} {s : Session} {pass : Pass} {path : String} {line : Nat}

namespace Progress

theorem Extends.start (hs : s.symbols.WellFormed) : Extends s ⟨s, #[], #[]⟩ :=
  ⟨rfl, hs, List.prefix_rfl, by simp, fun _ _ => rfl⟩

theorem Extends.warned {p : Progress} (h : p.Extends s) (kind : DiagnosticKind) (span : Span)
    (message : String) : (p.warned pass path line kind span message).Extends s := by
  cases pass with
  | discovery => exact { h with }
  | link => exact h

theorem Extends.append {p : Progress} (h : p.Extends s) (bytes : List UInt8) :
    Extends s { p with session := p.session.append bytes } where
  registry := h.registry
  symbols := h.symbols
  code := by
    rw [toList_append]
    exact h.code.trans (List.prefix_append _ _)
  fresh := h.fresh
  label := h.label

/-- A label that is recorded joins those that are told; one that is refused changes no label. -/
theorem Extends.define {p : Progress} (h : p.Extends s) (name : String) :
    match (p.session.define name).1 with
    | .ok _ =>
      Extends s { p with session := (p.session.define name).2, defined := p.defined.push name }
    | .error _ => Extends s { p with session := (p.session.define name).2 } := by
  obtain ⟨heq, hwf, hlabel⟩ := define_spec h.symbols name
  have hregistry : (p.session.define name).2.registry = s.registry := by
    rw [heq]
    exact h.registry
  have hcode : s.code.toList <+: (p.session.define name).2.code.toList := by
    rw [heq]
    exact h.code
  cases hresult : (p.session.define name).1 with
  | ok offset =>
    rw [hresult] at hlabel
    obtain ⟨-, -, hnew, hlabel⟩ := hlabel
    refine ⟨hregistry, hwf, hcode, fun k hk => ?_, fun k hk => ?_⟩
    · rcases Array.mem_push.1 hk with hk | rfl
      · exact h.fresh k hk
      · by_cases hk : k ∈ p.defined
        · exact h.fresh k hk
        · rw [← h.label k hk, hnew]
    · rw [Array.mem_push, not_or] at hk
      rw [hlabel, if_neg hk.2, h.label k hk.1]
  | error e =>
    rw [hresult] at hlabel
    exact ⟨hregistry, hwf, hcode, h.fresh, fun k hk => (hlabel k).trans (h.label k hk)⟩

theorem Extends.truncate {p : Progress} (h : p.Extends s) :
    Extends s { p with session := p.session.truncate s.checkpoint.offset } ∧
      (p.session.truncate s.checkpoint.offset).code = s.code := by
  have hcode : (p.session.truncate s.checkpoint.offset).code = s.code := by
    rw [← Array.toList_inj]
    have hoffset : s.checkpoint.offset - Header.size = s.code.toList.length := by
      simp [checkpoint, offset]
    simp only [Session.truncate, hoffset, Array.toList_extract, List.extract_eq_take_drop,
      List.drop_zero, Nat.sub_zero]
    exact (List.prefix_iff_eq_take.1 h.code).symm
  refine ⟨{ h with code := ?_ }, hcode⟩
  rw [hcode]

end Progress

namespace Act

/-- An act keeps code and labels from before, also when it fails. -/
theorem run_extends (pass : Pass) (path : String) (line : Nat) {p : Progress} (h : p.Extends s)
    (act : Act) :
    (act.run pass path line p).2.Extends s := by
  cases act with
  | refuse error span => exact h
  | label name span =>
    cases pass with
    | discovery =>
      have hdefine := h.define name
      simp only [run]
      cases hresult : p.session.define name with
      | mk result session =>
        rw [hresult] at hdefine
        cases result <;> exact hdefine
    | link =>
      simp only [run]
      cases p.session.confirm name <;> exact h
  | version number span => exact h.warned ..
  | registers requested span =>
    have hrequest : Progress.Extends s
        { p with session := p.session.requestRegisters requested } := { h with }
    simp only [run]
    split
    · exact (hrequest.warned ..).warned ..
    · exact hrequest.warned ..
  | instruction mnemonic operands span =>
    simp only [run]
    split
    · exact h.append _
    · exact h
  | bound span =>
    simp only [run]
    split <;> exact h

/-- A pass keeps code and labels from before, also when it fails. -/
theorem runAll_extends (pass : Pass) (path : String) {p : Progress} (h : p.Extends s)
    (acts : List (Nat × Act)) :
    (runAll pass path acts p).2.Extends s := by
  induction acts generalizing p with
  | nil => exact h
  | cons head acts ih =>
    obtain ⟨line, act⟩ := head
    have hact := run_extends pass path line h act
    rw [runAll]
    split
    · rename_i hrun
      rw [hrun] at hact
      exact ih hact
    · rename_i hrun
      rw [hrun] at hact
      exact hact

end Act

theorem Pass.lines_extends {sources : List SourceLine} {outcome : Option (Nat × Located)}
    {p p' : Progress} (h : p.Extends s) (hrun : pass.lines path sources p = (outcome, p')) :
    p'.Extends s := by
  rw [Pass.lines_eq_runAll] at hrun
  have hacts := Act.runAll_extends pass path h (SourceLine.numberedActs sources)
  rwa [hrun] at hacts

/-! ## Undoing -/

/-- Undoing a progress leads to a session that is alike to the one before it. -/
theorem rollback_alike (hs : s.symbols.WellFormed) {p : Progress} (h : p.Extends s) :
    Alike (p.session.rollback s.checkpoint p.defined.toList) s := by
  obtain ⟨htruncate, hcode⟩ := h.truncate
  obtain ⟨heq, hwf, hlabel⟩ := forgetAll_spec htruncate.symbols p.defined.toList
  refine ⟨?_, ?_, rfl, fun name => ?_, hwf, hs⟩
  · rw [rollback, heq]
    exact h.registry
  · rw [rollback, heq]
    exact hcode
  · refine (hlabel name).trans ?_
    -- A label that was told was unknown before, so forgetting it is all there is to undo.
    by_cases hname : name ∈ p.defined
    · rw [if_pos (Array.mem_toList_iff.2 hname), h.fresh name hname]
    · rw [if_neg fun hmem => hname (Array.mem_toList_iff.1 hmem)]
      exact h.label name hname

/-! ## Assembly of a file -/

/-- The two ends of an assembly: an error undoes the progress of the pass that it struck, and
without one both passes reach the end of the file. -/
theorem SourceFile.assemble_cases (hs : s.symbols.WellFormed) (file : SourceFile) :
    (∃ number located p, p.Extends s ∧
      file.assemble s = reject file.path s.checkpoint number located p) ∨
    ∃ d q,
      Pass.discovery.lines file.path (SourceLine.ofText file.text) ⟨s, #[], #[]⟩ = (none, d) ∧
      Pass.link.lines file.path (SourceLine.ofText file.text)
        { d with session := d.session.truncate s.checkpoint.offset } = (none, q) ∧
      d.Extends s ∧ q.Extends s ∧ file.assemble s = ⟨q.session, true, q.diagnostics⟩ := by
  unfold assemble
  dsimp only
  split
  · rename_i number located d hdiscovery
    exact .inl ⟨number, located, d, Pass.lines_extends (.start hs) hdiscovery, rfl⟩
  · rename_i d hdiscovery
    have hd := Pass.lines_extends (.start hs) hdiscovery
    split
    · rename_i number located q hlink
      exact .inl ⟨number, located, q, Pass.lines_extends hd.truncate.1 hlink, rfl⟩
    · rename_i q hlink
      exact .inr ⟨d, q, hdiscovery, hlink, hd, Pass.lines_extends hd.truncate.1 hlink, rfl⟩

theorem SourceFile.assemble_sound (hs : s.Sound registry) (file : SourceFile) :
    (file.assemble s).session.Sound registry := by
  rcases file.assemble_cases hs.symbols with ⟨number, located, p, h, heq⟩ |
    ⟨d, q, -, -, -, h, heq⟩
  · have halike := rollback_alike hs.symbols h
    rw [heq]
    exact ⟨halike.registry.trans hs.registry_eq, halike.left⟩
  · rw [heq]
    exact ⟨h.registry.trans hs.registry_eq, h.symbols⟩

namespace Session

/-- Every session that operations lead to is in order. -/
theorem Reachable.sound (h : Reachable registry s) : s.Sound registry := by
  induction h with
  | start => exact ⟨rfl, HashTable.empty_wellFormed⟩
  | clearCode _ ih => exact { ih with }
  | encode _ _ ih => exact { ih with }
  | emit _ _ ih => exact { ih with }
  | @define s name _ ih =>
    obtain ⟨heq, hwf, -⟩ := define_spec ih.symbols name
    refine ⟨?_, hwf⟩
    rw [heq]
    exact ih.registry_eq
  | forget _ hforget ih =>
    obtain ⟨heq, hwf, -⟩ := forget?_eq_some ih.symbols hforget
    refine ⟨?_, hwf⟩
    rw [heq]
    exact ih.registry_eq
  | truncate offset _ ih => exact { ih with }
  | requestRegisters requested _ ih => exact { ih with }
  | @rollback s point labels _ _ ih _ =>
    have hs : (s.truncate point.checkpoint.offset).symbols.WellFormed := ih.symbols
    obtain ⟨heq, hwf, -⟩ := forgetAll_spec hs labels
    refine ⟨?_, hwf⟩
    rw [Session.rollback, heq]
    exact ih.registry_eq
  | assemble file _ ih => exact file.assemble_sound ih

end Session

end StackMachine.Assembly
