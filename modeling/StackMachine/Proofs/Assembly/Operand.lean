import Mathlib.Data.List.Forall2
import StackMachine.Assembly.Session
import StackMachine.Proofs.Instruction.Codec

/-!
# Operands of an instruction

What an operand token stands for does not depend on the number of registers, as long as it stands
for something: another number can only put a register out of range. The encoding of an instruction
is opened here once, into the operands that its tokens stand for and the definition that matches
them.

* `meaning?`: what a token stands for in a program with as many registers as a program can have.
* `classify_eq_ok_iff`: a token is accepted exactly when it has a meaning, and the register that it
  may mean is there.
* `PlainName`, `classify_eq_label_iff`: the names that stand for labels as operands.
* `encode_eq_ok_iff`, `encode_eq_error`: when an instruction has an encoding, and what is told when
  it has none.
* `length_encode_eq`, `encode_fault`: all encodings of the same tokens are equally long, and where
  there is one, another session can only miss a label or a register.
-/

namespace StackMachine.Assembly

/-! ## Tokens -/

namespace OperandToken

/-- The kind of operand that a token is encoded as. -/
def kind : OperandToken → OperandKind
  | constant _ => .constant
  | register _ => .register
  | label _ => .label

/-- What a token stands for, in a program with the largest number of registers. -/
def meaning? (token : String) : Option OperandToken :=
  (classify token Header.maxRegisterCount).toOption

/-- Whether a number of registers suffices. -/
def InRange (count : UInt8) : OperandToken → Prop
  | register index => index < count
  | _ => True

theorem meaning?_eq_some_iff {token : String} {found : OperandToken} :
    meaning? token = some found ↔ classify token Header.maxRegisterCount = .ok found := by
  unfold meaning?
  cases classify token Header.maxRegisterCount <;> simp [Except.toOption]

theorem ofNat_lt_iff {index : Nat} {count : UInt8} (h : index < Header.maxRegisterCount.toNat) :
    UInt8.ofNat index < count ↔ index < count.toNat := by
  have : Header.maxRegisterCount.toNat = 8 := rfl
  rw [UInt8.lt_iff_toNat_lt, UInt8.toNat_ofNat', Nat.mod_eq_of_lt (by omega)]

theorem classify_eq_ok_iff {token : String} {count : UInt8} {found : OperandToken}
    (hcount : count ≤ Header.maxRegisterCount) :
    classify token count = .ok found ↔ meaning? token = some found ∧ found.InRange count := by
  have hle := UInt8.le_iff_toNat_le.1 hcount
  rw [meaning?_eq_some_iff]
  unfold classify
  cases Literal.constant token with
  | error cause => simp
  | ok constant =>
    cases constant with
    | some bits =>
      simp only [Except.ok.injEq]
      refine ⟨fun h => ⟨h, ?_⟩, And.left⟩
      subst h
      trivial
    | none =>
      cases Literal.register? token with
      | none =>
        dsimp only
        split
        · simp
        · simp only [Except.ok.injEq]
          refine ⟨fun h => ⟨h, ?_⟩, And.left⟩
          subst h
          trivial
      | some index =>
        dsimp only
        by_cases hmax : index < Header.maxRegisterCount.toNat
        · rw [if_pos hmax, Except.ok.injEq]
          split
          · rename_i hlt
            rw [Except.ok.injEq]
            refine ⟨fun h => ⟨h, ?_⟩, And.left⟩
            subst h
            exact (ofNat_lt_iff hmax).2 hlt
          · rename_i hge
            refine iff_of_false (fun h => by cases h) fun h => ?_
            obtain ⟨rfl, hrange⟩ := h
            exact hge ((ofNat_lt_iff hmax).1 hrange)
        · rw [if_neg hmax, if_neg (by omega)]
          simp

/-- A token with a meaning is refused only for a register that is not there. -/
theorem classify_of_meaning? {token : String} {count : UInt8} {found : OperandToken}
    (hcount : count ≤ Header.maxRegisterCount) (h : meaning? token = some found) :
    classify token count = .ok found ∨
      classify token count = .error (.registerOutOfRange token count) := by
  by_cases hrange : found.InRange count
  · exact .inl ((classify_eq_ok_iff hcount).2 ⟨h, hrange⟩)
  · rw [meaning?_eq_some_iff] at h
    right
    unfold classify at h ⊢
    cases hconstant : Literal.constant token with
    | error cause =>
      rw [hconstant] at h
      cases h
    | ok constant =>
      rw [hconstant] at h
      cases constant with
      | some bits =>
        cases h
        exact absurd trivial hrange
      | none =>
        cases hregister : Literal.register? token with
        | none =>
          simp only [hregister] at h
          split at h <;> cases h
          exact absurd trivial hrange
        | some index =>
          simp only [hregister] at h ⊢
          split at h <;> cases h
          rename_i hmax
          rw [if_neg fun hlt => hrange ((ofNat_lt_iff hmax).2 hlt)]

theorem meaning?_label {token name : String} (h : meaning? token = some (label name)) :
    name = token := by
  rw [meaning?_eq_some_iff] at h
  unfold classify at h
  split at h
  · cases h
  · cases h
  · split at h
    · split at h <;> cases h
    · split at h <;> cases h
      rfl

end OperandToken

/-! ## Names -/

/-- Whether a name reads neither as a number nor as a register. -/
structure PlainName (name : String) : Prop where
  integer : Literal.integer? name = none
  float : Literal.float? name = none
  register : Literal.register? name = none

theorem constant_eq_none_iff {token : String} : Literal.constant token = .ok none ↔
    Literal.integer? token = none ∧ Literal.float? token = none := by
  unfold Literal.constant
  cases Literal.integer? token with
  | some i =>
    dsimp only
    split <;> simp
  | none => simp

/-- As an operand, a plain name stands for the label of that name, and no other name does. -/
theorem classify_eq_label_iff {name : String} {count : UInt8}
    (hdigit : Literal.startsWithDigit name = false) :
    OperandToken.classify name count = .ok (.label name) ↔ PlainName name := by
  unfold OperandToken.classify
  constructor
  · intro h
    split at h
    · cases h
    · cases h
    · rename_i hconstant
      split at h
      · split at h <;> cases h
      · rename_i hregister
        obtain ⟨hinteger, hfloat⟩ := constant_eq_none_iff.1 hconstant
        exact ⟨hinteger, hfloat, hregister⟩
  · rintro ⟨hinteger, hfloat, hregister⟩
    rw [constant_eq_none_iff.2 ⟨hinteger, hfloat⟩, hregister, hdigit]
    rfl

/-! ## Operands -/

namespace Session

variable {s : Session} {resolving : Bool} {token : String}

theorem resolve_kind {found : OperandToken} {operand : Operand}
    (h : s.resolve resolving found = .ok operand) : operand.kind = found.kind := by
  cases found with
  | constant bits =>
    cases h
    rfl
  | register index =>
    cases h
    rfl
  | label name =>
    rw [resolve] at h
    split at h
    · split at h <;> cases h
      rfl
    · cases h
      rfl

theorem operand_eq_ok_iff {operand : Operand} : s.operand resolving token = .ok operand ↔
    ∃ found, OperandToken.meaning? token = some found ∧ found.InRange s.registers.count ∧
      s.resolve resolving found = .ok operand := by
  unfold Session.operand classify
  constructor
  · intro h
    split at h
    · rename_i found hfound
      obtain ⟨hmeaning, hrange⟩ :=
        (OperandToken.classify_eq_ok_iff s.registers.count_le).1 hfound
      exact ⟨found, hmeaning, hrange, h⟩
    · cases h
  · rintro ⟨found, hmeaning, hrange, h⟩
    rw [(OperandToken.classify_eq_ok_iff s.registers.count_le).2 ⟨hmeaning, hrange⟩]
    exact h

/-- The operands that tokens stand for, with errors told by the places of the tokens. -/
def operandsFrom (s : Session) (resolving : Bool) (tokens : List String) (place : Nat) :
    Except EncodeError (List Operand) :=
  (tokens.zipIdx place).mapM fun (token, index) =>
    (s.operand resolving token).mapError (⟨·, some index⟩)

theorem operandsFrom_cons (s : Session) (resolving : Bool) (token : String)
    (tokens : List String) (place : Nat) :
    s.operandsFrom resolving (token :: tokens) place =
      match s.operand resolving token with
      | .error e => .error ⟨e, some place⟩
      | .ok operand =>
        match s.operandsFrom resolving tokens (place + 1) with
        | .error e => .error e
        | .ok operands => .ok (operand :: operands) := by
  rw [operandsFrom, List.zipIdx_cons, List.mapM_cons]
  dsimp only
  cases s.operand resolving token with
  | error e => rfl
  | ok operand =>
    change (s.operandsFrom resolving tokens (place + 1)).bind _ = _
    cases s.operandsFrom resolving tokens (place + 1) <;> rfl

theorem operandsFrom_eq_ok_iff {tokens : List String} {place : Nat} {operands : List Operand} :
    s.operandsFrom resolving tokens place = .ok operands ↔
      List.Forall₂ (fun token operand => s.operand resolving token = .ok operand) tokens
        operands := by
  induction tokens generalizing place operands with
  | nil =>
    constructor
    · intro h
      cases h
      exact .nil
    · intro h
      cases h
      rfl
  | cons token tokens ih =>
    rw [operandsFrom_cons]
    constructor
    · intro h
      split at h
      · cases h
      · rename_i operand hoperand
        split at h
        · cases h
        · rename_i rest hrest
          cases h
          exact .cons hoperand (ih.1 hrest)
    · rintro (_ | ⟨hoperand, hrest⟩)
      rw [hoperand, ih.2 hrest]

theorem operandsFrom_eq_error {tokens : List String} {place : Nat} {e : EncodeError}
    (h : s.operandsFrom resolving tokens place = .error e) :
    ∃ index token, tokens[index]? = some token ∧ e.operand = some (place + index) ∧
      s.operand resolving token = .error e.error := by
  induction tokens generalizing place with
  | nil => cases h
  | cons token tokens ih =>
    rw [operandsFrom_cons] at h
    split at h
    · rename_i hoperand
      cases h
      exact ⟨0, token, rfl, rfl, hoperand⟩
    · split at h
      · rename_i hrest
        cases h
        obtain ⟨index, other, hindex, he, hoperand⟩ := ih hrest
        exact ⟨index + 1, other, hindex, by rw [he, Nat.add_assoc, Nat.add_comm 1],
          hoperand⟩
      · cases h

/-! ## Instructions -/

theorem encode_eq (s : Session) (resolving : Bool) (mnemonic : String) (tokens : List String) :
    s.encode resolving mnemonic tokens =
      match s.operandsFrom resolving tokens 0 with
      | .error e => .error e
      | .ok operands => (s.instructionBytes mnemonic operands).mapError (⟨·, none⟩) := by
  change (s.operandsFrom resolving tokens 0).bind _ = _
  cases s.operandsFrom resolving tokens 0 <;> rfl

theorem encode_eq_ok_iff {mnemonic : String} {tokens : List String} {bytes : List UInt8} :
    s.encode resolving mnemonic tokens = .ok bytes ↔
      ∃ operands definition,
        List.Forall₂ (fun token operand => s.operand resolving token = .ok operand) tokens
          operands ∧
        s.registry.bySignature? mnemonic (operands.map Operand.kind) = some definition ∧
        bytes = Instruction.encode ⟨definition, operands⟩ := by
  rw [encode_eq]
  constructor
  · intro h
    split at h
    · cases h
    · rename_i operands hoperands
      unfold instructionBytes at h
      split at h
      · rename_i definition hdefinition
        cases h
        exact ⟨operands, definition, operandsFrom_eq_ok_iff.1 hoperands, hdefinition, rfl⟩
      · cases h
  · rintro ⟨operands, definition, hoperands, hdefinition, rfl⟩
    rw [operandsFrom_eq_ok_iff.2 hoperands]
    simp only [instructionBytes, hdefinition]
    rfl

/-- Either an operand is at fault, which is told with its place, or no definition matches. -/
theorem encode_eq_error {mnemonic : String} {tokens : List String} {e : EncodeError}
    (h : s.encode resolving mnemonic tokens = .error e) :
    (∃ index token, tokens[index]? = some token ∧ e.operand = some index ∧
      s.operand resolving token = .error e.error) ∨
    ∃ operands,
      List.Forall₂ (fun token operand => s.operand resolving token = .ok operand) tokens
        operands ∧
      s.registry.bySignature? mnemonic (operands.map Operand.kind) = none := by
  rw [encode_eq] at h
  split at h
  · rename_i hoperands
    cases h
    obtain ⟨index, token, hindex, he, hoperand⟩ := operandsFrom_eq_error hoperands
    rw [Nat.zero_add] at he
    exact .inl ⟨index, token, hindex, he, hoperand⟩
  · rename_i operands hoperands
    unfold instructionBytes at h
    split at h
    · cases h
    · rename_i hnone
      exact .inr ⟨operands, operandsFrom_eq_ok_iff.1 hoperands, hnone⟩

/-- An encoding depends on the registry, the number of registers and the labels alone. -/
theorem encode_congr {s t : Session} (hregistry : s.registry = t.registry)
    (hcount : s.registers.count = t.registers.count) (hlabel : ∀ name, s.label? name = t.label? name)
    (resolving : Bool) (mnemonic : String) (tokens : List String) :
    s.encode resolving mnemonic tokens = t.encode resolving mnemonic tokens := by
  have hoperand : s.operand resolving = t.operand resolving := by
    funext token
    unfold Session.operand classify
    rw [hcount]
    split
    · rename_i found _
      cases found with
      | constant bits => rfl
      | register index => rfl
      | label name => simp only [resolve, hlabel]
    · rfl
  have hbytes : s.instructionBytes mnemonic = t.instructionBytes mnemonic := by
    funext operands
    rw [instructionBytes, instructionBytes, hregistry]
  rw [encode_eq, encode_eq, operandsFrom, operandsFrom, hoperand, hbytes]

/-! ## Encodings of the same tokens -/

theorem operand_kind {operand : Operand} (h : s.operand resolving token = .ok operand) :
    (OperandToken.meaning? token).map OperandToken.kind = some operand.kind := by
  obtain ⟨found, hmeaning, -, hresolve⟩ := operand_eq_ok_iff.1 h
  rw [hmeaning, Option.map_some, resolve_kind hresolve]

theorem operands_kinds {tokens : List String} {operands : List Operand}
    (h : List.Forall₂ (fun token operand => s.operand resolving token = .ok operand) tokens
      operands) :
    tokens.map (fun token => (OperandToken.meaning? token).map OperandToken.kind) =
      (operands.map Operand.kind).map some := by
  induction h with
  | nil => rfl
  | cons hoperand _ ih => simp only [List.map_cons, operand_kind hoperand, ih]

/-- The kinds of operands depend on their tokens alone. -/
theorem operands_kinds_eq {s t : Session} {resolving resolving' : Bool} {tokens : List String}
    {operands operands' : List Operand}
    (h : List.Forall₂ (fun token operand => s.operand resolving token = .ok operand) tokens
      operands)
    (h' : List.Forall₂ (fun token operand => t.operand resolving' token = .ok operand) tokens
      operands') :
    operands.map Operand.kind = operands'.map Operand.kind := by
  have hkinds := (operands_kinds h).symm.trans (operands_kinds h')
  exact List.map_injective_iff.2 (fun _ _ => Option.some.inj) hkinds

theorem length_encode_eq {s t : Session} {resolving resolving' : Bool} {mnemonic : String}
    {tokens : List String} {bytes bytes' : List UInt8}
    (h : s.encode resolving mnemonic tokens = .ok bytes)
    (h' : t.encode resolving' mnemonic tokens = .ok bytes') : bytes'.length = bytes.length := by
  obtain ⟨operands, definition, hoperands, -, rfl⟩ := encode_eq_ok_iff.1 h
  obtain ⟨operands', definition', hoperands', -, rfl⟩ := encode_eq_ok_iff.1 h'
  rw [Instruction.length_encode, Instruction.length_encode, operands_kinds_eq hoperands hoperands']

/-- What can be wrong with an operand whose token has a meaning: it is a label that is unknown, or a
register that is not there. -/
def OperandFault (s : Session) (token : String) (e : AssemblyError) : Prop :=
  e = .unresolvedLabel token ∧ s.label? token = none ∨
    e = .registerOutOfRange token s.registers.count

theorem operand_fault {found : OperandToken} {e : AssemblyError}
    (hmeaning : OperandToken.meaning? token = some found)
    (h : s.operand resolving token = .error e) : s.OperandFault token e := by
  unfold Session.operand classify at h
  rcases OperandToken.classify_of_meaning? s.registers.count_le hmeaning with hfound | hfound
  · rw [hfound] at h
    cases found with
    | constant bits => cases h
    | register index => cases h
    | label name =>
      cases OperandToken.meaning?_label hmeaning
      dsimp only [resolve] at h
      split at h
      · split at h
        · cases h
        · rename_i hnone
          cases h
          exact .inl ⟨rfl, hnone⟩
      · cases h
  · rw [hfound] at h
    cases h
    exact .inr rfl

/-- Where an instruction has an encoding in one session, the errors of another session with the same
registry are faults of single operands. -/
theorem encode_fault {s t : Session} {resolving resolving' : Bool} {mnemonic : String}
    {tokens : List String} {bytes : List UInt8} {e : EncodeError}
    (hregistry : t.registry = s.registry) (h : s.encode resolving mnemonic tokens = .ok bytes)
    (h' : t.encode resolving' mnemonic tokens = .error e) :
    ∃ index token, tokens[index]? = some token ∧ e.operand = some index ∧
      t.OperandFault token e.error := by
  obtain ⟨operands, definition, hoperands, hdefinition, -⟩ := encode_eq_ok_iff.1 h
  rcases encode_eq_error h' with ⟨index, token, hindex, he, herror⟩ | ⟨operands', hoperands', hnone⟩
  · obtain ⟨operand, hoperand⟩ : ∃ operand, s.operand resolving token = .ok operand := by
      have hlt := (List.getElem?_eq_some_iff.1 hindex).1
      have hget := hoperands.get hlt (hoperands.length_eq ▸ hlt)
      rw [List.get_eq_getElem, (List.getElem?_eq_some_iff.1 hindex).2] at hget
      exact ⟨_, hget⟩
    obtain ⟨found, hmeaning, -, -⟩ := operand_eq_ok_iff.1 hoperand
    exact ⟨index, token, hindex, he, operand_fault hmeaning herror⟩
  · rw [hregistry, ← operands_kinds_eq hoperands hoperands', hdefinition] at hnone
    cases hnone

end Session

end StackMachine.Assembly
