import StackMachine.Assembly.File
import StackMachine.Proofs.Assembly.Operand
import StackMachine.Proofs.HashTable.Rolling

/-!
# Sessions and their operations

The sessions that operations can lead to, and what each operation on labels does to the look-up of
every name. The slots of the symbol table, its tombstones and its capacity, are not seen from
outside: `Alike` sessions may differ in them and in nothing else.

* `Reachable`: the sessions that come from the start by any operations, in any order.
* `define_spec`, `forgetAll_spec`: a definition adds one label, at the current offset, or changes no
  label; forgetting takes away the labels that are named.
* `Alike.define`: what is told about a definition is the same for alike sessions.
* `request_eq_self`, `count_le_request`: after the first request, the number of registers is the
  largest that was asked for.
-/

namespace StackMachine.Assembly

/-! ## Requests for registers -/

namespace RegisterSettings

variable (settings : RegisterSettings) (requested : Int)

theorem request_requested : (settings.request requested).requested = true := by
  unfold request
  split
  · rename_i h
    exact h.1
  · rfl

theorem clamp_le_request : clamp requested ≤ (settings.request requested).count := by
  unfold request
  split
  · rename_i h
    exact UInt8.le_of_lt h.2
  · exact UInt8.le_refl _

variable {settings requested}

theorem count_le_request (h : settings.requested = true) :
    settings.count ≤ (settings.request requested).count := by
  unfold request
  split
  · exact UInt8.le_refl _
  · rename_i hlt
    exact UInt8.not_lt.1 fun hlt' => hlt ⟨h, hlt'⟩

/-- A request for no more registers than were asked for changes nothing. -/
theorem request_eq_self (h : settings.requested = true) (hle : clamp requested ≤ settings.count) :
    settings.request requested = settings := by
  unfold request
  split
  · rfl
  · rename_i hlt
    have hcount : clamp requested = settings.count :=
      UInt8.le_antisymm hle (UInt8.not_lt.1 fun hlt' => hlt ⟨h, hlt'⟩)
    obtain ⟨count, asked, hmax⟩ := settings
    cases h
    cases hcount
    rfl

end RegisterSettings

namespace Session

/-- The sessions that operations lead to, with one registry. -/
inductive Reachable (registry : Registry) : Session → Prop
  | start : Reachable registry (start registry)
  | clearCode {s : Session} : Reachable registry s → Reachable registry s.clearCode
  | encode {s : Session} {resolving : Bool} {mnemonic : String} {tokens : List String}
      {bytes : List UInt8} : Reachable registry s →
      s.encode resolving mnemonic tokens = .ok bytes → Reachable registry (s.append bytes)
  | emit {s : Session} {mnemonic : String} {operands : List Operand} {bytes : List UInt8} :
      Reachable registry s → s.instructionBytes mnemonic operands = .ok bytes →
      Reachable registry (s.append bytes)
  | define {s : Session} (name : String) :
      Reachable registry s → Reachable registry (s.define name).2
  | forget {s s' : Session} {name : String} :
      Reachable registry s → s.forget? name = some s' → Reachable registry s'
  | truncate {s : Session} (offset : Nat) :
      Reachable registry s → Reachable registry (s.truncate offset)
  | requestRegisters {s : Session} (requested : Int) :
      Reachable registry s → Reachable registry (s.requestRegisters requested)
  | rollback {s point : Session} (labels : List String) : Reachable registry s →
      Reachable registry point → Reachable registry (s.rollback point.checkpoint labels)
  | assemble {s : Session} (file : SourceFile) :
      Reachable registry s → Reachable registry (file.assemble s).session

/-- What every operation keeps: the registry, and a symbol table in order. -/
structure Sound (registry : Registry) (s : Session) : Prop where
  registry_eq : s.registry = registry
  symbols : s.symbols.WellFormed

/-- Sessions that differ at most in the slots of their symbol tables. -/
structure Alike (s t : Session) : Prop where
  registry : s.registry = t.registry
  code : s.code = t.code
  registers : s.registers = t.registers
  label : ∀ name, s.label? name = t.label? name
  left : s.symbols.WellFormed
  right : t.symbols.WellFormed

variable {registry : Registry} {s t : Session} {name : String}

/-! ## Code -/

theorem toList_image (s : Session) : s.image.toList = s.header.toBytes.toList ++ s.code.toList := by
  simp [image]

theorem toList_append (s : Session) (bytes : List UInt8) :
    (s.append bytes).code.toList = s.code.toList ++ bytes := by
  simp [append]

theorem offset_append (s : Session) (bytes : List UInt8) :
    (s.append bytes).offset = s.offset + bytes.length := by
  rw [offset, offset, ← Array.length_toList, toList_append, List.length_append,
    Array.length_toList, Nat.add_assoc]

/-! ## Definitions of labels -/

theorem define_registers (s : Session) (name : String) :
    (s.define name).2.registers = s.registers := by
  unfold define
  split
  · rfl
  · split <;> rfl

theorem define_offset (s : Session) (name : String) : (s.define name).2.offset = s.offset := by
  unfold define
  split
  · rfl
  · split <;> rfl

/-- The outcome of a definition: a label that was unknown now has the current offset, or the labels
are as before. -/
theorem define_spec (hs : s.symbols.WellFormed) (name : String) :
    (s.define name).2 = { s with symbols := (s.define name).2.symbols } ∧
    (s.define name).2.symbols.WellFormed ∧
    match (s.define name).1 with
    | .ok offset => s.offset ≤ 65535 ∧ offset = UInt16.ofNat s.offset ∧ s.label? name = none ∧
        ∀ k, (s.define name).2.label? k = if k = name then some offset else s.label? k
    | .error _ => ∀ k, (s.define name).2.label? k = s.label? k := by
  unfold define checkedOffset
  split
  · exact ⟨rfl, hs, fun _ => rfl⟩
  · rename_i offset hoffset
    split at hoffset
    · rename_i hle
      cases hoffset
      split
      · rename_i symbols hinsert
        obtain ⟨hsymbols, habsent, hperm⟩ := HashTable.insert?_spec hs hinsert
        exact ⟨rfl, hsymbols, hle, rfl, habsent, hs.find?_of_perm_cons hsymbols hperm⟩
      · rename_i symbols hinsert
        obtain ⟨hsymbols, -, hperm⟩ := HashTable.insert?_spec hs hinsert
        exact ⟨rfl, hsymbols, hs.find?_of_perm hsymbols hperm⟩
      · exact ⟨rfl, hs, fun _ => rfl⟩
    · cases hoffset

/-- What is told about a definition: the label has to be new, and there has to be room for it. -/
theorem define_fst (hs : s.symbols.WellFormed) (name : String) :
    (s.define name).1 =
      match s.checkedOffset with
      | .error e => .error e
      | .ok offset =>
        if s.label? name = none ∧ s.symbols.size < 2 ^ 64 then .ok offset
        else .error (.duplicateLabel name ((s.label? name).getD 0)) := by
  unfold define
  cases s.checkedOffset with
  | error e => rfl
  | ok offset =>
    have hnew : (s.symbols.insert? name offset).map Prod.fst = some true ↔
        s.label? name = none ∧ s.symbols.size < 2 ^ 64 := hs.insert?_isNew_iff offset
    dsimp only
    split
    · rename_i symbols hinsert
      rw [hinsert] at hnew
      rw [if_pos (hnew.1 rfl)]
    · rename_i symbols hinsert
      obtain ⟨hsymbols, -, hperm⟩ := HashTable.insert?_spec hs hinsert
      rw [hinsert] at hnew
      rw [if_neg (hnew.not.1 (by simp)), label?, hs.find?_of_perm hsymbols hperm]
    · rename_i hinsert
      have habsent : s.label? name = none := ((hs.insert?_eq_none_iff _).1 hinsert).1
      rw [hinsert] at hnew
      rw [if_neg (hnew.not.1 (by simp)), habsent, Option.getD_none]

/-- A label can be defined where it is new and can be reached, unless the table is full. -/
theorem define_eq_ok_iff (hs : s.symbols.WellFormed) (name : String) :
    (∃ offset t, s.define name = (.ok offset, t)) ↔
      s.offset ≤ 65535 ∧ s.label? name = none ∧ s.symbols.size < 2 ^ 64 := by
  have hfst := define_fst hs name
  unfold checkedOffset at hfst
  constructor
  · rintro ⟨offset, t, hdefine⟩
    rw [hdefine] at hfst
    split at hfst
    · cases hfst
    · rename_i hoffset
      split at hoffset
      · rename_i hle
        split at hfst
        · rename_i hnew
          exact ⟨hle, hnew⟩
        · cases hfst
      · cases hoffset
  · rintro ⟨hle, hnew⟩
    rw [if_pos hle] at hfst
    dsimp only at hfst
    rw [if_pos hnew] at hfst
    exact ⟨_, _, Prod.ext hfst rfl⟩

/-! ## Forgetting -/

theorem forget?_eq_some {s' : Session} (hs : s.symbols.WellFormed) (h : s.forget? name = some s') :
    s' = { s with symbols := s'.symbols } ∧ s'.symbols.WellFormed ∧
      ∀ k, s'.label? k = if k = name then none else s.label? k := by
  obtain ⟨symbols, hsymbols, rfl⟩ := Option.map_eq_some_iff.1 h
  exact ⟨rfl, (HashTable.erase?_spec hs hsymbols).1, HashTable.find?_erase? hs hsymbols⟩

theorem forgetAll_spec (hs : s.symbols.WellFormed) (names : List String) :
    s.forgetAll names = { s with symbols := (s.forgetAll names).symbols } ∧
      (s.forgetAll names).symbols.WellFormed ∧
      ∀ k, (s.forgetAll names).label? k = if k ∈ names then none else s.label? k := by
  induction names generalizing s with
  | nil => exact ⟨rfl, hs, fun k => by simp [forgetAll]⟩
  | cons name names ih =>
    cases h : s.forget? name with
    | none =>
      have habsent : s.label? name = none := by
        rwa [forget?, Option.map_eq_none_iff, HashTable.erase?_eq_none_iff] at h
      have hnext : s.forgetAll (name :: names) = s.forgetAll names := by
        rw [forgetAll, List.foldl_cons, h]
        rfl
      rw [hnext]
      obtain ⟨heq, hwf, hlabel⟩ := ih hs
      refine ⟨heq, hwf, fun k => ?_⟩
      rw [hlabel]
      by_cases hk : k = name
      · subst hk
        simp [habsent]
      · simp [hk]
    | some s' =>
      have hnext : s.forgetAll (name :: names) = s'.forgetAll names := by
        rw [forgetAll, List.foldl_cons, h]
        rfl
      rw [hnext]
      obtain ⟨heq', hwf', hlabel'⟩ := forget?_eq_some hs h
      obtain ⟨heq, hwf, hlabel⟩ := ih hwf'
      refine ⟨?_, hwf, fun k => ?_⟩
      · rw [heq, heq']
      · rw [hlabel, hlabel']
        by_cases hk : k = name <;> simp [hk]

/-! ## Alike sessions -/

namespace Alike

theorem offset (h : Alike s t) : s.offset = t.offset := by
  rw [Session.offset, Session.offset, h.code]

theorem checkedOffset (h : Alike s t) : s.checkedOffset = t.checkedOffset := by
  rw [Session.checkedOffset, Session.checkedOffset, h.offset]

theorem image (h : Alike s t) : s.image = t.image := by
  rw [Session.image, Session.image, header, header, h.code, h.registers]

theorem encode (h : Alike s t) (resolving : Bool) (mnemonic : String) (tokens : List String) :
    s.encode resolving mnemonic tokens = t.encode resolving mnemonic tokens :=
  encode_congr h.registry (congrArg RegisterSettings.count h.registers) h.label _ _ _

theorem append (h : Alike s t) (bytes : List UInt8) : Alike (s.append bytes) (t.append bytes) :=
  { h with code := by rw [Session.append, Session.append, h.code] }

theorem requestRegisters (h : Alike s t) (requested : Int) :
    Alike (s.requestRegisters requested) (t.requestRegisters requested) :=
  { h with registers := congrArg (·.request requested) h.registers }

theorem truncate (h : Alike s t) (offset : Nat) : Alike (s.truncate offset) (t.truncate offset) :=
  { h with code := by rw [Session.truncate, Session.truncate, h.code] }

theorem checkpoint (h : Alike s t) : s.checkpoint = t.checkpoint := by
  rw [Session.checkpoint, Session.checkpoint, h.offset, h.registers]

theorem confirm (h : Alike s t) (name : String) : s.confirm name = t.confirm name := by
  rw [Session.confirm, Session.confirm, h.label, h.offset]

theorem forgetAll (h : Alike s t) (names : List String) :
    Alike (s.forgetAll names) (t.forgetAll names) := by
  obtain ⟨heq, hwf, hlabel⟩ := forgetAll_spec h.left names
  obtain ⟨heq', hwf', hlabel'⟩ := forgetAll_spec h.right names
  refine ⟨?_, ?_, ?_, fun k => ?_, hwf, hwf'⟩
  · rw [heq, heq']
    exact h.registry
  · rw [heq, heq']
    exact h.code
  · rw [heq, heq']
    exact h.registers
  · rw [hlabel, hlabel', h.label]

theorem rollback (h : Alike s t) (point : Checkpoint) (labels : List String) :
    Alike (s.rollback point labels) (t.rollback point labels) :=
  { (h.truncate point.offset).forgetAll labels with registers := rfl }

theorem size_symbols (h : Alike s t) : s.symbols.size = t.symbols.size :=
  h.left.size_congr h.right fun key => by rw [← label?, ← label?, h.label]

theorem define (h : Alike s t) (name : String) :
    (s.define name).1 = (t.define name).1 ∧ Alike (s.define name).2 (t.define name).2 := by
  have hresult : (s.define name).1 = (t.define name).1 := by
    rw [define_fst h.left, define_fst h.right, h.checkedOffset, h.label name, h.size_symbols]
  obtain ⟨heq, hwf, hs⟩ := define_spec h.left name
  obtain ⟨heq', hwf', ht⟩ := define_spec h.right name
  rw [hresult] at hs
  refine ⟨hresult, ?_, ?_, ?_, fun k => ?_, hwf, hwf'⟩
  · rw [heq, heq']
    exact h.registry
  · rw [heq, heq']
    exact h.code
  · rw [heq, heq']
    exact h.registers
  · cases hr : (t.define name).1 with
    | ok offset =>
      rw [hr] at hs ht
      rw [hs.2.2.2, ht.2.2.2, h.label]
    | error e =>
      rw [hr] at hs ht
      rw [hs, ht, h.label]

end Alike

end Session

end StackMachine.Assembly
