import StackMachine.Proofs.Assembly.Acceptance
import StackMachine.Proofs.Assembly.Image
import StackMachine.Proofs.Assembly.RegisterBound

/-!
# Files in one

Files that can be linked can as well be written into one file, one after the other. Its discovery
pass stands, at the end of each file, where the assembly of that file has come to. Its link pass
knows the labels of all files and not only of those so far, and has the last number of registers.
Both are no less than what the operands of each file were resolved with, as long as no request takes
registers away.

* `RegisterSettings.count_le_foldl_request`: requests for the default number or more only add
  registers.
* `foldl_discovery`: one discovery pass over the lines of all files behind the files of a link.
* `link_joined`: the files written into one file are linked to the same program.
-/

namespace StackMachine.Assembly

open Session

variable {registry : Registry} {s t : Session} {lines : List SourceLine}

/-! ## Requests that only add registers -/

namespace RegisterSettings

variable {settings : RegisterSettings}

theorem default_le_clamp {requested : Int} (h : 4 ≤ requested) :
    Header.defaultRegisterCount ≤ clamp requested := by
  rw [UInt8.le_iff_toNat_le]
  unfold clamp
  rw [if_neg (by omega)]
  split
  · decide
  · have hdefault : Header.defaultRegisterCount.toNat = 4 := rfl
    rw [hdefault, UInt8.toNat_ofNat']
    omega

/-- The first request sets the number, so it has to ask for no less than there are before it. -/
theorem count_le_foldl_request {requests : List Int}
    (h : settings.requested = true ∨ settings = standard)
    (hrequests : ∀ requested ∈ requests, 4 ≤ requested) :
    settings.count ≤ (requests.foldl request settings).count := by
  cases requests with
  | nil => exact UInt8.le_refl _
  | cons requested requests =>
    have hfirst : settings.count ≤ (settings.request requested).count := by
      rcases h with h | rfl
      · exact count_le_request h
      · exact UInt8.le_trans (default_le_clamp (hrequests requested List.mem_cons_self))
          (clamp_le_request standard requested)
    have hrest := foldl_request_keeps requests (request_requested settings requested)
    exact UInt8.le_trans hfirst hrest.2

theorem foldl_request_regular (requests : List Int)
    (h : settings.requested = true ∨ settings = standard) :
    (requests.foldl request settings).requested = true ∨
      requests.foldl request settings = standard := by
  cases requests with
  | nil => exact h
  | cons requested requests => exact .inl (foldl_request_requested (List.cons_ne_nil _ _))

end RegisterSettings

/-! ## The sessions of a link -/

theorem Pass.effect?_registers {pass : Pass} (h : pass.effect? lines s = some t) :
    t.registers = (lines.filterMap SourceLine.request?).foldl .request s.registers := by
  obtain ⟨p, hlines, rfl⟩ := (effect?_eq_some_iff "" ⟨s, #[], #[]⟩).1 h
  exact lines_registers hlines

/-- Behind an accepted file the requests of its lines are made, and the labels from before are
known. -/
theorem SourceFile.accepted_within (hs : s.symbols.WellFormed) {file : SourceFile}
    (h : (file.assemble s).accepted = true) :
    (file.assemble s).session.registers = file.requests.foldl .request s.registers ∧
      ∀ name, (file.assemble s).session.label? name = none → s.label? name = none := by
  obtain ⟨d, hd, -, hshifted⟩ := shifted_of_accepted hs h
  refine ⟨?_, fun name hnone => ?_⟩
  · rw [hshifted.registers, Pass.effect?_registers hd]
    rfl
  · by_contra hknown
    obtain ⟨address, haddress⟩ := Option.ne_none_iff_exists'.1 hknown
    have hlater := (Act.effects?_persists hs hd).2.label name address haddress
    rw [(hshifted.known name).2 hnone] at hlater
    cases hlater

/-- One discovery pass over the lines of the files behind the files of a link: it ends where they
end, and there each operand of the files resolves. -/
theorem foldl_discovery {files : List SourceFile} {state : LinkState} {e : Session}
    (hsettings : state.session.registers.requested = true ∨ state.session.registers = .standard)
    (hrequests : ∀ file ∈ files, ∀ requested ∈ file.requests, 4 ≤ requested)
    (he : Shifted 0 state.session e)
    (h : (files.foldl LinkState.assemble state).rejected = false) :
    let lines := files.flatMap fun file => SourceLine.ofText file.text
    let final := (files.foldl LinkState.assemble state).session
    state.session.Within final ∧
    ∃ d, Pass.discovery.effect? lines e = some d ∧ Shifted 0 final d ∧
      ∀ word ∈ SourceLine.operandWords lines, d.Resolves word := by
  induction files generalizing state e with
  | nil => exact ⟨.refl _, e, rfl, he, by simp [SourceLine.operandWords]⟩
  | cons file files ih =>
    obtain ⟨haccepted, hrest⟩ := foldl_cons_accepted h
    rw [List.forall_mem_cons] at hrequests
    have hsession : (state.assemble file).session = (file.assemble state.session).session := rfl
    obtain ⟨hregisters, hknown⟩ := SourceFile.accepted_within he.left haccepted
    obtain ⟨d, hd, hresolves, hbehind⟩ := SourceFile.shifted_of_accepted he.left haccepted
    obtain ⟨d', hd', hshifted⟩ := Pass.effect?_shifted he hd (.inl rfl)
    have he' : Shifted 0 (state.assemble file).session d' := hbehind.symm.trans hshifted
    have hsettings' : (state.assemble file).session.registers.requested = true ∨
        (state.assemble file).session.registers = .standard := by
      rw [hsession, hregisters]
      exact RegisterSettings.foldl_request_regular _ hsettings
    have hfirst : state.session.Within (state.assemble file).session := by
      refine ⟨?_, hknown⟩
      rw [hsession, hregisters]
      exact RegisterSettings.count_le_foldl_request hsettings hrequests.1
    obtain ⟨hwithin, last, hlast, hend, hlater⟩ := ih hsettings' hrequests.2 he' hrest
    intro lines final
    refine ⟨hfirst.trans hwithin, last, ?_, hend, ?_⟩
    · simp only [lines, List.flatMap_cons, Pass.effect?_append, hd']
      exact hlast
    · simp only [lines, List.flatMap_cons, SourceLine.operandWords_append, List.forall_mem_append]
      -- What resolved behind this file resolves behind all of them.
      have hgrows : d.Within last := (hbehind.within.trans hwithin).trans hend.within
      exact ⟨fun word hword => (hresolves word hword).mono hgrows, hlater⟩

/-! ## Code from a layout -/

theorem operandAt?_words_unique {labels : String → Option UInt16} {words : List Token}
    {operands operands' : List Operand}
    (h : List.Forall₂ (fun word operand => operandAt? labels word.text = some operand) words
      operands)
    (h' : List.Forall₂ (fun word operand => operandAt? labels word.text = some operand) words
      operands') : operands = operands' := by
  refine List.right_unique_forall₂' ?_ h h'
  intro word operand operand' hword hword'
  rw [hword] at hword'
  exact Option.some.inj hword'

/-- Where labels have given addresses, a line has no two encodings. -/
theorem SourceLine.Encodes.unique {labels : String → Option UInt16} {line : SourceLine}
    {bytes bytes' : List UInt8} (h : line.Encodes registry labels bytes)
    (h' : line.Encodes registry labels bytes') : bytes = bytes' := by
  cases h with
  | blank hnone =>
    cases h' with
    | blank _ => rfl
    | instruction hsome _ _ =>
      rw [hnone] at hsome
      cases hsome
  | @instruction mnemonic words operands definition hsome hoperands hdefinition =>
    cases h' with
    | blank hnone =>
      rw [hnone] at hsome
      cases hsome
    | @instruction mnemonic' words' operands' definition' hsome' hoperands' hdefinition' =>
      rw [hsome] at hsome'
      cases hsome'
      cases operandAt?_words_unique hoperands hoperands'
      have heq := (hdefinition' definition).2 ((hdefinition definition).1 rfl)
      rw [heq]

/-- Lines that both passes get through go on with the layout. -/
theorem LaidOut.effects (hregistry : registry.Built) (h : LaidOut registry lines s)
    {lines' : List SourceLine} {d : Session} (hd : Pass.discovery.effect? lines' s = some d)
    (ht : Pass.link.effect? lines' (d.truncate s.offset) = some t) :
    LaidOut registry (lines ++ lines') t := by
  obtain ⟨p, q, hdiscovery, hlink, -, rfl⟩ := Pass.exists_passes "" hd ht
  exact h.passes hregistry hdiscovery hlink

/-- Lines lay out one code only. -/
theorem LaidOut.code_unique (hs : LaidOut registry lines s) (ht : LaidOut registry lines t) :
    s.code = t.code := by
  obtain ⟨chunks, hchunks, hcode⟩ := hs.code_eq
  obtain ⟨chunks', hchunks', hcode'⟩ := ht.code_eq
  rw [ht.label_eq, ← hs.label_eq] at hchunks'
  have hunique : chunks = chunks' := by
    refine List.right_unique_forall₂' ?_ hchunks hchunks'
    intro line bytes bytes' hline hline'
    exact hline.unique hline'
  rw [← Array.toList_inj, hcode, hcode', hunique]

/-! ## Files in one -/

theorem SourceFile.contents_joined (files : List SourceFile) :
    SourceLine.contents (SourceLine.ofText ("\n".intercalate (files.map text))) =
      SourceLine.contents (files.flatMap fun file => SourceLine.ofText file.text) := by
  rw [SourceLine.contents_intercalate, List.flatMap_map]

theorem finish_congr (hcode : s.code = t.code) (hregisters : s.registers = t.registers) :
    s.finish = t.finish := by
  have himage : s.image = t.image := by
    rw [Session.image, Session.image, header, header, hcode, hregisters]
  have hheader : s.header = t.header := by rw [header, header, hregisters]
  unfold finish
  congr

/-- Files that are linked are linked to the same program when they are written into one file, joined
by line feeds, if all of them ask for at least the default number of registers where they ask for
any. -/
theorem link_joined (hregistry : registry.Built) {files : List SourceFile} {p : Program}
    (h : (link registry files).outcome = .ok p)
    (hrequests : ∀ file ∈ files, ∀ requested ∈ file.requests, 4 ≤ requested) (path : String) :
    (link registry [⟨path, "\n".intercalate (files.map SourceFile.text)⟩]).outcome = .ok p := by
  obtain ⟨haccepted, rfl⟩ := link_eq_ok_iff.1 h
  let joined : SourceFile := ⟨path, "\n".intercalate (files.map SourceFile.text)⟩
  let lines := files.flatMap fun file => SourceLine.ofText file.text
  have hcontents := SourceFile.contents_joined files
  have hempty : (Session.start registry).symbols.WellFormed := HashTable.empty_wellFormed
  have hstart : (LinkState.start registry).session.registers = .standard := rfl
  obtain ⟨-, d, hd, hshifted, hresolves⟩ :=
    foldl_discovery (.inr hstart) hrequests (.refl hempty) haccepted
  have hjoined : (joined.assemble (start registry)).accepted = true := by
    refine (SourceFile.accepted_iff hempty).2 ⟨d, ?_, ?_⟩
    · rw [Pass.effect?_congr hcontents]
      exact hd
    · rw [SourceLine.operandWords_congr hcontents]
      exact hresolves
  obtain ⟨d', hd', ht⟩ := SourceFile.assemble_eq_iff.1 ⟨hjoined, rfl⟩
  rw [Pass.effect?_congr hcontents] at hd' ht
  have hfinal : LaidOut registry lines (files.foldl LinkState.assemble (.start registry)).session :=
    LaidOut.start.foldl_assemble hregistry haccepted
  have hcode := hfinal.code_unique (LaidOut.start.effects hregistry hd' ht)
  obtain ⟨d₁, hd₁, -, hend⟩ := SourceFile.shifted_of_accepted hempty hjoined
  rw [Pass.effect?_congr hcontents] at hd₁
  cases hd.symm.trans hd₁
  have hregisters := hend.registers.trans hshifted.registers
  refine link_eq_ok_iff.2 ⟨?_, (finish_congr hcode hregisters.symm).symm⟩
  simp [LinkState.assemble, LinkState.start, joined, hjoined]

/-- Two files that ask for more registers and use the labels of one another. -/
theorem link_joined_requests :
    let files : List SourceFile :=
      [⟨"a.asm", "start: push r1\n.registers 5\npop r4"⟩, ⟨"b.asm", "# b\njmp start\n.registers 4\n"⟩]
    let p := (files.foldl LinkState.assemble (.start Registry.standard)).session.finish
    (link Registry.standard files).outcome = .ok p ∧
    (∀ file ∈ files, ∀ requested ∈ file.requests, 4 ≤ requested) ∧
    (link Registry.standard
      [⟨"c.asm", "start: push r1\n.registers 5\npop r4\n# b\njmp start\n.registers 4\n"⟩]).outcome =
        .ok p := by
  intro files p
  have h : (link Registry.standard files).outcome = .ok p :=
    link_eq_ok_iff.2 ⟨by decide +kernel, rfl⟩
  have hrequests : ∀ file ∈ files, ∀ requested ∈ file.requests, 4 ≤ requested := by decide +kernel
  exact ⟨h, hrequests, link_joined Registry.standard_built h hrequests "c.asm"⟩

end StackMachine.Assembly
