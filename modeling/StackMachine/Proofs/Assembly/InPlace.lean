import StackMachine.Proofs.Assembly.Session

/-!
# Sessions in place

An image can be built in place: its header is written first, code is appended to it, and what is
taken back is cut off. The number of registers is then in two places, in the settings and in a byte
of the header, and whatever changes the one has to change the other. A session does not have to,
since its header is made from its settings; but both come to the same at every operation.

* `InPlaceSession`: a session with its image in one byte string, and its operations.
* `Session.inPlace`: the session as it is in place.
* `setRegisters_inPlace`, `truncate_inPlace`, …, `rollback_inPlace`: each operation in place does
  what it does to the session.
-/

namespace StackMachine.Assembly

/-- The number of registers of a program, and whether a source has asked for it; nothing keeps the
number in its range. -/
structure InPlaceSettings where
  count : UInt8
  requested : Bool

/-- A session with its image in one byte string. -/
structure InPlaceSession where
  registry : Registry
  /-- The header and the code behind it. -/
  image : Bytes
  symbols : SymbolTable
  registers : InPlaceSettings

/-- A point that a session in place can be taken back to. -/
structure InPlaceCheckpoint where
  offset : Nat
  registers : InPlaceSettings

namespace InPlaceSession

/-! ## The image -/

/-- The place of the number of registers in an image. -/
def registerCountPlace : Nat := 6

/-- The session with a header, which has the number of registers in force, and without code. -/
def writeHeader (s : InPlaceSession) : InPlaceSession :=
  { s with image := (Header.withRegisters s.registers.count).toBytes }

/-- The session without code, labels or requests. -/
def start (registry : Registry) : InPlaceSession :=
  writeHeader ⟨registry, #[], HashTable.empty, ⟨Header.defaultRegisterCount, false⟩⟩

/-- The session with other settings: the header is changed in the byte that has the number. The byte
is there, because the header is never cut. -/
def setRegisters (s : InPlaceSession) (registers : InPlaceSettings) : InPlaceSession :=
  { s with
    registers
    image := s.image.setIfInBounds registerCountPlace registers.count }

/-- The offset of the next instruction in the image. -/
def offset (s : InPlaceSession) : Nat :=
  s.image.size

/-- The session without the image from an offset on; the header is never cut. -/
def truncate (s : InPlaceSession) (offset : Nat) : InPlaceSession :=
  { s with image := s.image.extract 0 (max offset Header.size) }

/-- Seal the image, if its header is in order. -/
def finish (s : InPlaceSession) : Except ImageError Program :=
  Program.ofBytes s.image

/-! ## Instructions -/

/-- The operand that a token stands for. A label has the offset zero, unless labels are to be
resolved; then it must be known. -/
def resolve (s : InPlaceSession) (resolving : Bool) : OperandToken → Except AssemblyError Operand
  | .constant bits => .ok (.constant bits)
  | .register index => .ok (.register index)
  | .label name =>
    if resolving then
      match s.symbols.find? name with
      | some address => .ok (.label address)
      | none => .error (.unresolvedLabel name)
    else
      .ok (.label 0)

/-- Tell what an operand is, and resolve it. -/
def operand (s : InPlaceSession) (resolving : Bool) (token : String) :
    Except AssemblyError Operand :=
  match OperandToken.classify token s.registers.count with
  | .ok found => s.resolve resolving found
  | .error e => .error e

/-- Append the instruction with a mnemonic and operands. -/
def emit (s : InPlaceSession) (mnemonic : String) (operands : List Operand) :
    Except AssemblyError Unit × InPlaceSession :=
  match s.registry.bySignature? mnemonic (operands.map Operand.kind) with
  | some definition =>
    (.ok (), { s with image := s.image ++ Instruction.encode ⟨definition, operands⟩ })
  | none => (.error (.undefinedInstruction mnemonic (operands.map Operand.kind)), s)

/-- Append the instruction that a mnemonic and operand tokens stand for. -/
def encode (s : InPlaceSession) (resolving : Bool) (mnemonic : String) (tokens : List String) :
    Except EncodeError Unit × InPlaceSession :=
  let operands : Except EncodeError (List Operand) := tokens.zipIdx.mapM fun (token, index) =>
    (s.operand resolving token).mapError (⟨·, some index⟩)
  match operands with
  | .error e => (.error e, s)
  | .ok operands =>
    match s.emit mnemonic operands with
    | (.ok (), s) => (.ok (), s)
    | (.error e, s) => (.error ⟨e, none⟩, s)

/-- The offset of the next instruction, if a label can have it. -/
def checkedOffset (s : InPlaceSession) : Except AssemblyError UInt16 :=
  if s.offset ≤ 65535 then .ok (UInt16.ofNat s.offset)
  else .error (.addressSpaceExceeded s.offset)

/-! ## Labels -/

/-- Record a new label at the current offset. -/
def define (s : InPlaceSession) (name : String) : Except AssemblyError UInt16 × InPlaceSession :=
  match s.checkedOffset with
  | .error e => (.error e, s)
  | .ok offset =>
    match s.symbols.insert? name offset with
    | some (true, symbols) => (.ok offset, { s with symbols })
    | some (false, symbols) =>
      (.error (.duplicateLabel name ((symbols.find? name).getD 0)), { s with symbols })
    | none => (.error (.duplicateLabel name 0), s)

/-- Check that a label is recorded at the current offset. -/
def confirm (s : InPlaceSession) (name : String) : Except AssemblyError Unit :=
  match s.symbols.find? name with
  | some recorded =>
    if recorded.toNat = s.offset then .ok () else .error (.labelMoved name recorded s.offset)
  | none => .error (.unresolvedLabel name)

/-- Forget a label, and tell whether it was known. -/
def forget (s : InPlaceSession) (name : String) : Bool × InPlaceSession :=
  match s.symbols.erase? name with
  | some symbols => (true, { s with symbols })
  | none => (false, s)

/-- The session without some labels. -/
def forgetAll (s : InPlaceSession) (names : List String) : InPlaceSession :=
  names.foldl (fun s name => (s.forget name).2) s

/-! ## Registers and checkpoints -/

/-- Ask for a number of registers. The first request sets the number, a later one can only raise
it. -/
def requestRegisters (s : InPlaceSession) (requested : Int) : InPlaceSession :=
  let bounded := RegisterSettings.clamp requested
  s.setRegisters ⟨if s.registers.requested then max bounded s.registers.count else bounded, true⟩

/-- The point to come back to. -/
def checkpoint (s : InPlaceSession) : InPlaceCheckpoint :=
  ⟨s.offset, s.registers⟩

/-- Undo all since a checkpoint, of the labels those given. -/
def rollback (s : InPlaceSession) (point : InPlaceCheckpoint) (labels : List String) :
    InPlaceSession :=
  ((s.truncate point.offset).setRegisters point.registers).forgetAll labels

end InPlaceSession

/-! ## A session as it is in place -/

/-- The settings without the proof that their number is in its range. -/
def RegisterSettings.inPlace (settings : RegisterSettings) : InPlaceSettings :=
  ⟨settings.count, settings.requested⟩

/-- A later request leaves the larger of the number and of what is asked for. -/
theorem RegisterSettings.request_inPlace (settings : RegisterSettings) (requested : Int) :
    (settings.request requested).inPlace =
      ⟨if settings.requested then max (clamp requested) settings.count else clamp requested,
        true⟩ := by
  obtain ⟨count, asked, hle⟩ := settings
  cases asked with
  | false => rfl
  | true =>
    rw [if_pos rfl, request]
    change _ = InPlaceSettings.mk (if clamp requested ≤ count then count else _) true
    by_cases hlt : clamp requested < count
    · rw [if_pos ⟨rfl, hlt⟩, if_pos (UInt8.le_of_lt hlt)]
      rfl
    · have hcount : (if clamp requested ≤ count then count else clamp requested) =
          clamp requested :=
        ite_eq_right_iff.2 fun hle => UInt8.le_antisymm (UInt8.not_lt.1 hlt) hle
      rw [if_neg fun h => hlt h.2, hcount]
      rfl

namespace Session

/-- The session as it is in place. -/
def inPlace (s : Session) : InPlaceSession :=
  ⟨s.registry, s.image, s.symbols, s.registers.inPlace⟩

variable (s : Session)

@[simp]
theorem inPlace_registry : s.inPlace.registry = s.registry := rfl

@[simp]
theorem inPlace_image : s.inPlace.image = s.image := rfl

@[simp]
theorem inPlace_symbols : s.inPlace.symbols = s.symbols := rfl

theorem inPlace_of_image {image : Bytes} (h : image = s.image) :
    InPlaceSession.mk s.registry image s.symbols s.registers.inPlace = s.inPlace := by
  rw [h]
  rfl

theorem inPlace_offset : s.inPlace.offset = s.offset := by
  rw [InPlaceSession.offset, inPlace_image, image, Array.size_append, Header.size_toBytes, offset]

theorem start_inPlace (registry : Registry) :
    InPlaceSession.start registry = (start registry).inPlace := by
  rw [inPlace, image]
  simp [InPlaceSession.start, InPlaceSession.writeHeader, start, header, RegisterSettings.standard,
    RegisterSettings.inPlace]

theorem writeHeader_inPlace : s.inPlace.writeHeader = s.clearCode.inPlace := by
  simp [InPlaceSession.writeHeader, inPlace, image, header, clearCode, RegisterSettings.inPlace]

/-- The number of registers is in the seventh byte of the header, so writing it there makes the
header of the new settings. -/
theorem setRegisters_inPlace (registers : RegisterSettings) :
    s.inPlace.setRegisters registers.inPlace = { s with registers }.inPlace := by
  have hpatch : s.image.setIfInBounds InPlaceSession.registerCountPlace registers.count =
      { s with registers }.image := by
    rw [← Array.toList_inj, Array.toList_setIfInBounds, toList_image, toList_image]
    rfl
  exact inPlace_of_image { s with registers } hpatch

/-- The header is in front of all code, so it is what is never cut. -/
theorem truncate_inPlace (offset : Nat) :
    s.inPlace.truncate offset = (s.truncate offset).inPlace := by
  have hcut : s.image.extract 0 (max offset Header.size) = (s.truncate offset).image := by
    have hheader : s.header.toBytes.toList.length = Header.size := by
      rw [Array.length_toList, Header.size_toBytes]
    have hroom : max offset Header.size - Header.size = offset - Header.size := by omega
    rw [← Array.toList_inj, toList_image]
    simp only [truncate, Array.toList_extract, toList_image, List.extract_eq_take_drop,
      List.drop_zero, Nat.sub_zero, List.take_append, hheader, hroom]
    rw [List.take_of_length_le (hheader ▸ Nat.le_max_right _ _)]
    rfl
  exact inPlace_of_image (s.truncate offset) hcut

theorem inPlace_append (bytes : List UInt8) :
    { s.inPlace with image := s.inPlace.image ++ bytes } = (s.append bytes).inPlace := by
  have himage : s.image ++ bytes = (s.append bytes).image := by
    rw [← Array.toList_inj, Array.toList_appendList, toList_image, toList_image, toList_append,
      List.append_assoc]
    rfl
  exact inPlace_of_image (s.append bytes) himage

theorem emit_inPlace (mnemonic : String) (operands : List Operand) :
    s.inPlace.emit mnemonic operands =
      match s.instructionBytes mnemonic operands with
      | .ok bytes => (.ok (), (s.append bytes).inPlace)
      | .error e => (.error e, s.inPlace) := by
  rw [InPlaceSession.emit, instructionBytes, inPlace_registry]
  cases s.registry.bySignature? mnemonic (operands.map Operand.kind) with
  | none => rfl
  | some definition => exact congrArg (Prod.mk _) (s.inPlace_append _)

theorem operand_inPlace (resolving : Bool) (token : String) :
    s.inPlace.operand resolving token = s.operand resolving token := by
  have hclassify : OperandToken.classify token s.inPlace.registers.count = s.classify token := rfl
  rw [InPlaceSession.operand, operand, hclassify]
  cases s.classify token with
  | error e => rfl
  | ok found => cases found <;> rfl

theorem encode_inPlace (resolving : Bool) (mnemonic : String) (tokens : List String) :
    s.inPlace.encode resolving mnemonic tokens =
      match s.encode resolving mnemonic tokens with
      | .ok bytes => (.ok (), (s.append bytes).inPlace)
      | .error e => (.error e, s.inPlace) := by
  simp only [InPlaceSession.encode, encode, operand_inPlace, bind, Except.bind]
  generalize (tokens.zipIdx.mapM _ : Except EncodeError (List Operand)) = found
  cases found with
  | error e => rfl
  | ok operands =>
    dsimp only
    rw [emit_inPlace]
    cases s.instructionBytes mnemonic operands <;> rfl

theorem checkedOffset_inPlace : s.inPlace.checkedOffset = s.checkedOffset := by
  rw [InPlaceSession.checkedOffset, checkedOffset, inPlace_offset]

theorem define_inPlace (name : String) :
    s.inPlace.define name = ((s.define name).1, (s.define name).2.inPlace) := by
  rw [InPlaceSession.define, define, checkedOffset_inPlace, inPlace_symbols]
  cases s.checkedOffset with
  | error e => rfl
  | ok offset =>
    dsimp only
    cases s.symbols.insert? name offset with
    | none => rfl
    | some result =>
      obtain ⟨isNew, symbols⟩ := result
      cases isNew <;> rfl

theorem confirm_inPlace (name : String) : s.inPlace.confirm name = s.confirm name := by
  have hfind : s.inPlace.symbols.find? name = s.label? name := rfl
  unfold InPlaceSession.confirm confirm
  cases hlabel : s.label? name <;> simp only [hfind, hlabel, inPlace_offset]

theorem forget_inPlace (name : String) :
    s.inPlace.forget name = ((s.forget? name).isSome, ((s.forget? name).getD s).inPlace) := by
  rw [InPlaceSession.forget, forget?, inPlace_symbols]
  cases s.symbols.erase? name <;> rfl

theorem forgetAll_inPlace (names : List String) :
    s.inPlace.forgetAll names = (s.forgetAll names).inPlace := by
  induction names generalizing s with
  | nil => rfl
  | cons name names ih =>
    rw [InPlaceSession.forgetAll, List.foldl_cons, forget_inPlace]
    exact ih _

theorem requestRegisters_inPlace (requested : Int) :
    s.inPlace.requestRegisters requested = (s.requestRegisters requested).inPlace :=
  (congrArg s.inPlace.setRegisters (s.registers.request_inPlace requested).symm).trans
    (s.setRegisters_inPlace _)

theorem checkpoint_inPlace :
    s.inPlace.checkpoint = ⟨s.checkpoint.offset, s.checkpoint.registers.inPlace⟩ := by
  rw [InPlaceSession.checkpoint, inPlace_offset]
  rfl

theorem forgetAll_registers (registers : RegisterSettings) (names : List String) :
    { s with registers }.forgetAll names = { s.forgetAll names with registers } := by
  induction names generalizing s with
  | nil => rfl
  | cons name names ih =>
    have hstep : ({ s with registers }.forget? name).getD { s with registers } =
        { (s.forget? name).getD s with registers } := by
      rw [forget?, forget?]
      cases s.symbols.erase? name <;> rfl
    rw [forgetAll, List.foldl_cons, hstep]
    exact ih _

/-- Forgetting labels does not look at the settings, so it may come before they are taken back. -/
theorem rollback_inPlace (point : Session) (labels : List String) :
    s.inPlace.rollback point.inPlace.checkpoint labels =
      (s.rollback point.checkpoint labels).inPlace := by
  rw [checkpoint_inPlace, InPlaceSession.rollback, truncate_inPlace, setRegisters_inPlace,
    forgetAll_inPlace, forgetAll_registers]
  rfl

theorem finish_inPlace : s.inPlace.finish = .ok s.finish := by
  rw [InPlaceSession.finish, inPlace_image, Program.ofBytes]
  split
  · rename_i header hcheck
    obtain rfl : s.header = header := Except.ok.inj (s.check_image.symm.trans hcheck)
    rfl
  · rename_i e hcheck
    cases s.check_image.symm.trans hcheck

end Session

end StackMachine.Assembly
