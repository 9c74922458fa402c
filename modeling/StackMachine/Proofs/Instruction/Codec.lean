import Mathlib.Algebra.GroupWithZero.Nat
import StackMachine.Listing
import StackMachine.Proofs.Instruction.Registry

/-!
# Reading back what was encoded

An instruction of a registry is read back from its encoding, wherever the encoding stands, so that a
listing shows exactly the instructions that code was made of.

* `decode_of_prefix`: an instruction is read at every offset where its encoding starts.
* `Listing.readFrom_encode`: the listing of the encodings of instructions shows these instructions
  and has no failure.
-/

namespace StackMachine

namespace Bytes

variable {bytes : Bytes} {offset : Nat}

theorem getElem?_of_prefix {l : List UInt8} (h : l <+: bytes.toList.drop offset) {i : Nat}
    (hi : i < l.length) : bytes[offset + i]? = some l[i] := by
  obtain ⟨rest, hrest⟩ := h
  rw [← Array.getElem?_toList, ← List.getElem?_drop, ← hrest, List.getElem?_append_left hi,
    List.getElem?_eq_getElem hi]

theorem add_length_le_of_prefix {l : List UInt8} (h : l <+: bytes.toList.drop offset)
    (hl : l ≠ []) : offset + l.length ≤ bytes.size := by
  have hlength := h.length_le
  have hpos := List.length_pos_of_ne_nil hl
  have hsize : bytes.toList.length = bytes.size := Array.length_toList
  rw [List.length_drop] at hlength
  omega

theorem read16?_of_prefix {word : UInt16} (h : bytes16 word <+: bytes.toList.drop offset) :
    bytes.read16? offset = some word := by
  have hsize : offset + 2 ≤ bytes.size := add_length_le_of_prefix h (by simp [bytes16])
  have h₀ : bytes[offset]? = some (UInt8.ofNat word.toNat) :=
    getElem?_of_prefix h (i := 0) (by simp [bytes16])
  have h₁ : bytes[offset + 1]? = some (UInt8.ofNat (word.toNat / 256)) :=
    getElem?_of_prefix h (i := 1) (by simp [bytes16])
  rw [read16?, dif_pos hsize, (Array.getElem?_eq_some_iff.1 h₀).2,
    (Array.getElem?_eq_some_iff.1 h₁).2, word16_bytes16]

theorem read32?_of_prefix {word : UInt32} (h : bytes32 word <+: bytes.toList.drop offset) :
    bytes.read32? offset = some word := by
  have hsize : offset + 4 ≤ bytes.size := add_length_le_of_prefix h (by simp [bytes32])
  have h₀ : bytes[offset]? = some (UInt8.ofNat word.toNat) :=
    getElem?_of_prefix h (i := 0) (by simp [bytes32])
  have h₁ : bytes[offset + 1]? = some (UInt8.ofNat (word.toNat / 256)) :=
    getElem?_of_prefix h (i := 1) (by simp [bytes32])
  have h₂ : bytes[offset + 2]? = some (UInt8.ofNat (word.toNat / 65536)) :=
    getElem?_of_prefix h (i := 2) (by simp [bytes32])
  have h₃ : bytes[offset + 3]? = some (UInt8.ofNat (word.toNat / 16777216)) :=
    getElem?_of_prefix h (i := 3) (by simp [bytes32])
  rw [read32?, dif_pos hsize, (Array.getElem?_eq_some_iff.1 h₀).2,
    (Array.getElem?_eq_some_iff.1 h₁).2, (Array.getElem?_eq_some_iff.1 h₂).2,
    (Array.getElem?_eq_some_iff.1 h₃).2, word32_bytes32]

end Bytes

variable {registry : Registry} {bytes : Bytes} {offset : Nat}

/-! ## Operands -/

theorem OperandKind.decode?_of_prefix {operand : Operand}
    (h : operand.encode <+: bytes.toList.drop offset) :
    operand.kind.decode? bytes offset = some operand := by
  cases operand with
  | constant bits =>
    rw [Operand.kind, decode?, Bytes.read32?_of_prefix h]
    rfl
  | register index =>
    have hread : bytes.read8? offset = some index :=
      Bytes.getElem?_of_prefix h (i := 0) (by simp [Operand.encode])
    rw [Operand.kind, decode?, hread]
    rfl
  | label address =>
    rw [Operand.kind, decode?, Bytes.read16?_of_prefix h]
    rfl

namespace Instruction

theorem decodeOperands?_of_prefix {operands : List Operand}
    (h : operands.flatMap Operand.encode <+: bytes.toList.drop offset) :
    decodeOperands? bytes (operands.map Operand.kind) offset = some operands := by
  induction operands generalizing offset with
  | nil => rfl
  | cons operand operands ih =>
    rw [List.flatMap_cons] at h
    have hoperand := OperandKind.decode?_of_prefix ((List.prefix_append _ _).trans h)
    have hrest : operands.flatMap Operand.encode <+:
        bytes.toList.drop (offset + operand.kind.size) := by
      obtain ⟨rest, hrest⟩ := h
      rw [← List.drop_drop, ← hrest, ← operand.length_encode, List.append_assoc, List.drop_left]
      exact List.prefix_append _ _
    rw [List.map_cons, decodeOperands?, hoperand, ih hrest]
    rfl

/-! ## Instructions -/

/-- An instruction whose definition is registered, with operands of the kinds that it asks for. -/
structure Valid (registry : Registry) (i : Instruction) : Prop where
  mem : i.definition ∈ registry.toList
  operands : i.definition.operands = i.operands.map Operand.kind

theorem length_encode (i : Instruction) :
    i.encode.length = 1 + ((i.operands.map Operand.kind).map OperandKind.size).sum := by
  rw [encode, List.length_cons, List.length_flatMap, List.map_map, Nat.add_comm]
  simp only [Operand.length_encode, Function.comp_def]

theorem Valid.length_encode_eq {i : Instruction} (h : i.Valid registry) :
    i.encode.length = i.definition.size := by
  rw [length_encode, Definition.size, h.operands]
  rfl

/-- An instruction is read wherever its encoding starts. -/
theorem decode_of_prefix (hregistry : registry.Consistent) {i : Instruction}
    (hi : i.Valid registry) (h : i.encode <+: bytes.toList.drop offset) :
    decode registry bytes offset = .ok i := by
  have hsize := Bytes.add_length_le_of_prefix h (by simp [encode])
  rw [hi.length_encode_eq] at hsize
  have hpos := i.definition.size_pos
  have hopcode : bytes.read8? offset = some i.definition.opcode :=
    Bytes.getElem?_of_prefix h (i := 0) (by simp [encode])
  have hoperands : decodeOperands? bytes i.definition.operands (offset + 1) = some i.operands := by
    rw [hi.operands]
    apply decodeOperands?_of_prefix
    obtain ⟨rest, hrest⟩ := h
    rw [← List.drop_drop, ← hrest]
    exact List.prefix_append _ _
  rw [decode, decodeUpTo, if_pos (by omega), hopcode]
  dsimp only
  rw [hregistry.byOpcode?_of_mem hi.mem]
  dsimp only
  rw [if_neg (by omega), hoperands]

end Instruction

/-! ## Listings -/

namespace Listing

/-- The instructions that a listing shows. -/
def instructions (listing : Listing) : List Instruction :=
  listing.lines.toList.filterMap fun
    | .instruction _ _ content => some content
    | .header _ _ => none

theorem readFrom_encode (hregistry : registry.Consistent) {code : List Instruction}
    (hcode : ∀ i ∈ code, i.Valid registry) (hoffset : offset ≤ bytes.size)
    (h : bytes.toList.drop offset = code.flatMap Instruction.encode)
    (lines : Array ListingLine) :
    (readFrom registry bytes offset lines).failure = none ∧
      (readFrom registry bytes offset lines).instructions =
        (Listing.mk lines none).instructions ++ code := by
  induction code generalizing offset lines with
  | nil =>
    rw [List.flatMap_nil, List.drop_eq_nil_iff, Array.length_toList] at h
    rw [readFrom, if_neg (by omega)]
    exact ⟨rfl, by simp⟩
  | cons i code ih =>
    rw [List.forall_mem_cons] at hcode
    rw [List.flatMap_cons] at h
    have hprefix : i.encode <+: bytes.toList.drop offset := h ▸ List.prefix_append _ _
    have hsize := Bytes.add_length_le_of_prefix hprefix (by simp [Instruction.encode])
    rw [hcode.1.length_encode_eq] at hsize
    have hpos := i.definition.size_pos
    have hrest : bytes.toList.drop (offset + i.definition.size) =
        code.flatMap Instruction.encode := by
      rw [← List.drop_drop, h, ← hcode.1.length_encode_eq, List.drop_left]
    rw [readFrom, if_pos (by omega), Instruction.decode_of_prefix hregistry hcode.1 hprefix]
    obtain ⟨hfailure, hinstructions⟩ := ih hcode.2 hsize hrest
      (lines.push (.instruction offset (bytes.extract offset (offset + i.definition.size)) i))
    refine ⟨hfailure, hinstructions.trans ?_⟩
    simp [instructions]

/-- The listing of an image with a header in order shows the instructions of its code. -/
theorem ofBytes_encode (hregistry : registry.Consistent) {code : List Instruction}
    (hcode : ∀ i ∈ code, i.Valid registry) {header : Header}
    (hheader : Header.check bytes = .ok header)
    (h : bytes.toList.drop Header.size = code.flatMap Instruction.encode) :
    (ofBytes registry bytes).failure = none ∧ (ofBytes registry bytes).instructions = code := by
  unfold Header.check at hheader
  split at hheader
  · cases hheader
  · rename_i header' hread
    split at hheader
    · cases hheader
    · rename_i hmagic
      have hsize : Header.size ≤ bytes.size := by
        unfold Header.ofBytes? at hread
        split at hread
        · assumption
        · cases hread
      rw [ofBytes, hread]
      dsimp only
      rw [if_pos (by simpa using hmagic)]
      exact readFrom_encode hregistry hcode hsize h _

end Listing

end StackMachine
