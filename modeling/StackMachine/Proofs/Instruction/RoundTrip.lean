import StackMachine.Assembly.Session
import StackMachine.Proofs.Instruction.Codec
import StackMachine.Proofs.Instruction.Decode

/-!
# Reading undoes encoding, and encoding undoes reading

A reader answers with what is encoded where it reads, and with nothing else. So an operand, a list
of operands and an instruction each have one equivalence: it is read exactly where its encoding
starts. The failures are told apart by the opcode and by the number of bytes that are left.

* `Operand.decode?_eq_some_iff`, `decodeOperands?_eq_some_iff`: operands, by the kinds asked for.
* `decode_eq_ok_iff`: an instruction is read exactly where it is encoded.
* `decode_eq_outOfBounds_iff`, `decode_eq_unknownOpcode_iff`, `decode_eq_truncated_iff`: the
  failures.
* `decode_roundTrip`: all of this for the bytes that a session writes, with anything around them.
-/

namespace StackMachine

variable {bytes : Bytes} {offset : Nat}

/-! ## Words -/

namespace Bytes

theorem bytes16_word16 (b₀ b₁ : UInt8) : bytes16 (word16 b₀ b₁) = [b₀, b₁] := by
  have h₀ := b₀.toNat_lt
  have h₁ := b₁.toNat_lt
  simp only [bytes16, word16, UInt16.toNat_ofNat', List.cons.injEq, and_true, ← UInt8.toNat_inj,
    UInt8.toNat_ofNat']
  omega

theorem bytes32_word32 (b₀ b₁ b₂ b₃ : UInt8) :
    bytes32 (word32 b₀ b₁ b₂ b₃) = [b₀, b₁, b₂, b₃] := by
  have h₀ := b₀.toNat_lt
  have h₁ := b₁.toNat_lt
  have h₂ := b₂.toNat_lt
  have h₃ := b₃.toNat_lt
  simp only [bytes32, word32, UInt32.toNat_ofNat', List.cons.injEq, and_true, ← UInt8.toNat_inj,
    UInt8.toNat_ofNat']
  omega

theorem drop_eq_cons {i : Nat} (h : i < bytes.size) :
    bytes.toList.drop i = bytes[i] :: bytes.toList.drop (i + 1) := by
  rw [List.drop_eq_getElem_cons (by simpa using h), Array.getElem_toList]

theorem prefix_of_read16? {w : UInt16} (h : bytes.read16? offset = some w) :
    bytes16 w <+: bytes.toList.drop offset := by
  unfold read16? at h
  split at h
  · rename_i hsize
    cases h
    rw [bytes16_word16, drop_eq_cons (by omega), drop_eq_cons (by omega)]
    exact ⟨_, rfl⟩
  · cases h

theorem prefix_of_read32? {w : UInt32} (h : bytes.read32? offset = some w) :
    bytes32 w <+: bytes.toList.drop offset := by
  unfold read32? at h
  split at h
  · rename_i hsize
    cases h
    rw [bytes32_word32, drop_eq_cons (by omega), drop_eq_cons (by omega), drop_eq_cons (by omega),
      drop_eq_cons (by omega)]
    exact ⟨_, rfl⟩
  · cases h

theorem append_prefix_drop_iff {a b : List UInt8} :
    a ++ b <+: bytes.toList.drop offset ↔
      a <+: bytes.toList.drop offset ∧ b <+: bytes.toList.drop (offset + a.length) := by
  constructor
  · rintro ⟨rest, hrest⟩
    rw [← List.drop_drop, ← hrest, List.append_assoc, List.drop_left]
    exact ⟨List.prefix_append _ _, List.prefix_append _ _⟩
  · rintro ⟨⟨rest, hrest⟩, hb⟩
    rw [← List.drop_drop, ← hrest, List.drop_left] at hb
    rw [← hrest]
    exact (List.prefix_append_right_inj a).2 hb

theorem prefix_drop_append (before after : Bytes) (l : List UInt8) :
    l <+: (before ++ l.toArray ++ after).toList.drop before.size := by
  rw [Array.toList_append, Array.toList_append, List.append_assoc, ← Array.length_toList,
    List.drop_left]
  exact List.prefix_append _ _

end Bytes

/-! ## The code of a session -/

theorem Assembly.Session.image_append (s : Assembly.Session) (code : List UInt8) :
    (s.append code).image = s.image ++ code.toArray ++ #[] ∧ s.offset = s.image.size := by
  constructor
  · apply Array.toList_inj.1
    simp [image, append, header]
  · rw [offset, image, Array.size_append, Header.size_toBytes]

/-! ## Operands -/

theorem Operand.decode?_eq_some_iff {kind : OperandKind} {operand : Operand} :
    kind.decode? bytes offset = some operand ↔
      operand.kind = kind ∧ operand.encode <+: bytes.toList.drop offset := by
  constructor
  · intro h
    refine ⟨Instruction.kind_of_decode? h, ?_⟩
    cases kind with
    | constant =>
      obtain ⟨w, hw, rfl⟩ := Option.map_eq_some_iff.1 h
      exact Bytes.prefix_of_read32? hw
    | register =>
      obtain ⟨index, hindex, rfl⟩ := Option.map_eq_some_iff.1 h
      obtain ⟨hlt, rfl⟩ := Array.getElem?_eq_some_iff.1 hindex
      rw [Bytes.drop_eq_cons hlt]
      exact ⟨_, rfl⟩
    | label =>
      obtain ⟨w, hw, rfl⟩ := Option.map_eq_some_iff.1 h
      exact Bytes.prefix_of_read16? hw
  · rintro ⟨rfl, h⟩
    exact OperandKind.decode?_of_prefix h

namespace Instruction

theorem decodeOperands?_eq_some_iff {kinds : List OperandKind} {operands : List Operand} :
    decodeOperands? bytes kinds offset = some operands ↔
      operands.map Operand.kind = kinds ∧
        operands.flatMap Operand.encode <+: bytes.toList.drop offset := by
  constructor
  · intro h
    refine ⟨kinds_of_decodeOperands? h, ?_⟩
    induction kinds generalizing offset operands with
    | nil =>
      cases h
      exact List.nil_prefix
    | cons kind kinds ih =>
      simp only [decodeOperands?, Option.bind_eq_bind, Option.bind_eq_some_iff, Option.pure_def,
        Option.some.injEq] at h
      obtain ⟨operand, hoperand, rest, hrest, rfl⟩ := h
      obtain ⟨hkind, hbytes⟩ := Operand.decode?_eq_some_iff.1 hoperand
      rw [List.flatMap_cons, Bytes.append_prefix_drop_iff, operand.length_encode, hkind]
      exact ⟨hbytes, ih hrest⟩
  · rintro ⟨rfl, h⟩
    exact decodeOperands?_of_prefix h

/-! ## Instructions -/

variable {registry : Registry}

/-- An instruction is read exactly where it is encoded. -/
theorem decode_eq_ok_iff (hregistry : registry.Consistent) {i : Instruction} :
    decode registry bytes offset = .ok i ↔
      i.Valid registry ∧ i.encode <+: bytes.toList.drop offset := by
  constructor
  · intro h
    obtain ⟨opcode, hopcode, hdefinition, -, hoperands⟩ := decode_eq_ok h
    obtain ⟨hmem, rfl⟩ := hregistry.mem_of_byOpcode? hdefinition
    obtain ⟨hkinds, hbytes⟩ := decodeOperands?_eq_some_iff.1 hoperands
    obtain ⟨hlt, hfirst⟩ := Array.getElem?_eq_some_iff.1 hopcode
    refine ⟨⟨hmem, hkinds.symm⟩, ?_⟩
    rw [encode, Bytes.drop_eq_cons hlt, hfirst, List.cons_prefix_cons]
    exact ⟨rfl, hbytes⟩
  · rintro ⟨hvalid, h⟩
    exact decode_of_prefix hregistry hvalid h

/-- The bytes of an instruction that was read. -/
theorem extract_of_decode (hregistry : registry.Consistent) {i : Instruction}
    (h : decode registry bytes offset = .ok i) :
    offset + i.size ≤ bytes.size ∧
      (bytes.extract offset (offset + i.size)).toList = i.encode := by
  obtain ⟨hvalid, hbytes⟩ := (decode_eq_ok_iff hregistry).1 h
  have hlength : i.encode.length = i.size := hvalid.length_encode_eq
  have hsize := Bytes.add_length_le_of_prefix hbytes (by simp [encode])
  rw [hlength] at hsize
  refine ⟨hsize, ?_⟩
  rw [Array.toList_extract, List.extract_eq_take_drop, Nat.add_sub_cancel_left, ← hlength]
  exact (List.prefix_iff_eq_take.1 hbytes).symm

/-! ## Failures -/

theorem byOpcode?_eq_none_iff (hregistry : registry.Consistent) {opcode : UInt8} :
    registry.byOpcode? opcode = none ↔ ∀ d ∈ registry.toList, d.opcode ≠ opcode := by
  constructor
  · rintro h d hd rfl
    rw [hregistry.byOpcode?_of_mem hd] at h
    cases h
  · intro h
    cases hd : registry.byOpcode? opcode with
    | none => rfl
    | some d =>
      obtain ⟨hmem, hopcode⟩ := hregistry.mem_of_byOpcode? hd
      exact absurd hopcode (h d hmem)

/-- What reading at an offset comes to, by what is there. -/
inductive Reading (registry : Registry) (bytes : Bytes) (offset : Nat) : Prop
  | past (hsize : bytes.size ≤ offset)
      (h : decode registry bytes offset = .error .outOfBounds)
  | unknown {opcode : UInt8} (hopcode : bytes[offset]? = some opcode)
      (hunknown : registry.byOpcode? opcode = none)
      (h : decode registry bytes offset = .error (.unknownOpcode opcode))
  | cut {d : Definition} (hopcode : bytes[offset]? = some d.opcode) (hd : d ∈ registry.toList)
      (hleft : bytes.size - offset < d.size)
      (h : decode registry bytes offset =
        .error (.truncated d.mnemonic d.size (bytes.size - offset)))
  | whole {i : Instruction} (h : decode registry bytes offset = .ok i)

theorem reading (hregistry : registry.Consistent) (bytes : Bytes) (offset : Nat) :
    Reading registry bytes offset := by
  by_cases hlt : offset < bytes.size
  · have hopcode := Array.getElem?_eq_getElem hlt
    cases hd : registry.byOpcode? bytes[offset] with
    | none => exact .unknown hopcode hd (decode_of_unknown hopcode hd)
    | some d =>
      obtain ⟨hmem, heq⟩ := hregistry.mem_of_byOpcode? hd
      by_cases hsize : offset + d.size ≤ bytes.size
      · obtain ⟨operands, -, h⟩ := decode_of_fits hopcode hd hsize
        exact .whole h
      · have hleft : bytes.size - offset < d.size := by omega
        exact .cut (heq ▸ hopcode) hmem hleft (decode_of_cut hopcode hd (by omega))
  · have hsize : bytes.size ≤ offset := by omega
    exact .past hsize (decode_of_size_le hsize)

theorem decode_eq_outOfBounds_iff (hregistry : registry.Consistent) :
    decode registry bytes offset = .error .outOfBounds ↔ bytes.size ≤ offset := by
  refine ⟨fun herror => ?_, decode_of_size_le⟩
  cases reading hregistry bytes offset with
  | past hsize _ => exact hsize
  | unknown _ _ h => rw [h] at herror; cases herror
  | cut _ _ _ h => rw [h] at herror; cases herror
  | whole h => rw [h] at herror; cases herror

theorem decode_eq_unknownOpcode_iff (hregistry : registry.Consistent) {opcode : UInt8} :
    decode registry bytes offset = .error (.unknownOpcode opcode) ↔
      bytes[offset]? = some opcode ∧ ∀ d ∈ registry.toList, d.opcode ≠ opcode := by
  rw [← byOpcode?_eq_none_iff hregistry]
  refine ⟨fun herror => ?_, fun h => decode_of_unknown h.1 h.2⟩
  cases reading hregistry bytes offset with
  | past _ h => rw [h] at herror; cases herror
  | unknown hopcode hunknown h =>
    rw [h] at herror
    cases herror
    exact ⟨hopcode, hunknown⟩
  | cut _ _ _ h => rw [h] at herror; cases herror
  | whole h => rw [h] at herror; cases herror

theorem decode_eq_truncated_iff (hregistry : registry.Consistent) {mnemonic : String}
    {needed available : Nat} :
    decode registry bytes offset = .error (.truncated mnemonic needed available) ↔
      ∃ d ∈ registry.toList, bytes[offset]? = some d.opcode ∧ bytes.size - offset < d.size ∧
        mnemonic = d.mnemonic ∧ needed = d.size ∧ available = bytes.size - offset := by
  constructor
  · intro herror
    cases reading hregistry bytes offset with
    | past _ h => rw [h] at herror; cases herror
    | unknown _ _ h => rw [h] at herror; cases herror
    | cut hopcode hd hleft h =>
      rw [h] at herror
      cases herror
      exact ⟨_, hd, hopcode, hleft, rfl, rfl, rfl⟩
    | whole h => rw [h] at herror; cases herror
  · rintro ⟨d, hd, hopcode, hleft, rfl, rfl, rfl⟩
    exact decode_of_cut hopcode (hregistry.byOpcode?_of_mem hd) (by omega)

/-- What is written is read back wherever it stands, and so are the bytes that a session emits. What
is read stands in the bytes as it would be written. Reading fails behind the end, at the opcode of
no definition, and where fewer bytes are left than the definition asks for; when they are all there,
the operands can always be read. -/
theorem decode_roundTrip (hregistry : registry.Built) :
    (∀ d ∈ registry.toList, ∀ operands : List Operand, operands.map Operand.kind = d.operands →
      let code := d.opcode :: operands.flatMap Operand.encode
      (∀ before after : Bytes,
        decode registry (before ++ code.toArray ++ after) before.size = .ok ⟨d, operands⟩) ∧
      ∀ s : Assembly.Session, s.registry = registry →
        s.instructionBytes d.mnemonic operands = .ok code ∧
        decode registry (s.append code).image s.offset = .ok ⟨d, operands⟩) ∧
    ∀ (bytes : Bytes) (offset : Nat),
      (∀ i, decode registry bytes offset = .ok i →
        i.definition ∈ registry.toList ∧ i.operands.map Operand.kind = i.definition.operands ∧
        offset + i.size ≤ bytes.size ∧
        (bytes.extract offset (offset + i.size)).toList =
          i.definition.opcode :: i.operands.flatMap Operand.encode) ∧
      (decode registry bytes offset = .error .outOfBounds ↔ bytes.size ≤ offset) ∧
      (∀ opcode, decode registry bytes offset = .error (.unknownOpcode opcode) ↔
        bytes[offset]? = some opcode ∧ ∀ d ∈ registry.toList, d.opcode ≠ opcode) ∧
      (∀ mnemonic needed available,
        decode registry bytes offset = .error (.truncated mnemonic needed available) ↔
          ∃ d ∈ registry.toList, bytes[offset]? = some d.opcode ∧ bytes.size - offset < d.size ∧
            mnemonic = d.mnemonic ∧ needed = d.size ∧ available = bytes.size - offset) ∧
      ∀ d ∈ registry.toList, bytes[offset]? = some d.opcode → offset + d.size ≤ bytes.size →
        (decodeOperands? bytes d.operands (offset + 1)).isSome := by
  have hconsistent := hregistry.consistent
  constructor
  · intro d hd operands hkinds code
    have hvalid : Valid registry ⟨d, operands⟩ := ⟨hd, hkinds.symm⟩
    have hread (before after : Bytes) :
        decode registry (before ++ code.toArray ++ after) before.size = .ok ⟨d, operands⟩ :=
      decode_of_prefix hconsistent hvalid (Bytes.prefix_drop_append before after _)
    refine ⟨hread, fun s hs => ⟨?_, ?_⟩⟩
    · have hfound : s.registry.bySignature? d.mnemonic (operands.map Operand.kind) = some d := by
        rw [hs, hconsistent.bySignature?_eq_some_iff]
        exact ⟨hd, rfl, hkinds.symm⟩
      rw [Assembly.Session.instructionBytes, hfound]
      rfl
    · obtain ⟨himage, hoffset⟩ := s.image_append code
      rw [himage, hoffset]
      exact hread s.image #[]
  · intro bytes offset
    refine ⟨fun i hi => ?_, decode_eq_outOfBounds_iff hconsistent,
      fun opcode => decode_eq_unknownOpcode_iff hconsistent,
      fun mnemonic needed available => decode_eq_truncated_iff hconsistent,
      fun d hd hopcode hsize => ?_⟩
    · obtain ⟨hvalid, -⟩ := (decode_eq_ok_iff hconsistent).1 hi
      obtain ⟨hsize, hbytes⟩ := extract_of_decode hconsistent hi
      exact ⟨hvalid.mem, hvalid.operands.symm, hsize, hbytes⟩
    · obtain ⟨operands, hoperands, -⟩ :=
        decode_of_fits hopcode (hconsistent.byOpcode?_of_mem hd) hsize
      rw [hoperands]
      rfl

/-- The standard instructions, and one with operands of all kinds. -/
def withSwitch : Registry :=
  Registry.standard.registerAll [⟨"switch", 0x40, [.label, .constant, .register], .jump⟩]

/-- An instruction of three operands in the middle of other bytes, and what is left of it when its
last byte is missing. -/
theorem decode_roundTrip_switch :
    let operands : List Operand := [.label 0x0102, .constant 0xfffffffe, .register 7]
    withSwitch.Built ∧
      (decode withSwitch #[0xff, 0x40, 0x02, 0x01, 0xfe, 0xff, 0xff, 0xff, 7, 0x40] 1 =
        .ok ⟨⟨"switch", 0x40, [.label, .constant, .register], .jump⟩, operands⟩) ∧
      decode withSwitch #[0xff, 0x40, 0x02, 0x01, 0xfe, 0xff, 0xff, 0xff] 1 =
        .error (.truncated "switch" 8 7) := by
  intro operands
  have hbuilt : withSwitch.Built := Registry.standard_built.registerAll _
  have hmem : (⟨"switch", 0x40, [.label, .constant, .register], .jump⟩ : Definition) ∈
      withSwitch.toList := by
    decide +kernel
  obtain ⟨hwritten, hread⟩ := decode_roundTrip hbuilt
  have hwhole := (hwritten _ hmem operands rfl).1 #[0xff] #[0x40]
  obtain ⟨-, -, -, htruncated, -⟩ :=
    hread #[0xff, 0x40, 0x02, 0x01, 0xfe, 0xff, 0xff, 0xff] 1
  refine ⟨hbuilt, hwhole, ?_⟩
  rw [htruncated]
  exact ⟨_, hmem, rfl, by decide, rfl, rfl, rfl⟩

end Instruction

end StackMachine
