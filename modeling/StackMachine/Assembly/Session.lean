import StackMachine.Assembly.Literal
import StackMachine.HashTable.Rolling
import StackMachine.Image.Program
import StackMachine.Instruction.Decode

/-!
# Sessions

What the files of one program share while they are assembled: the code so far, the labels with
their offsets, and the number of registers. The image is the header that this number makes, with
the code behind it, so that a session can be sealed at any time.

* `check_image`: the header of the image is always in order.
* `define` and `confirm` are the two looks at a label, in the first pass over a file and in the
  second.
-/

namespace StackMachine.Assembly

/-- The number of registers of a program, and whether a source has asked for it. -/
structure RegisterSettings where
  count : UInt8
  /-- Whether there was a request. -/
  requested : Bool
  count_le : count ≤ Header.maxRegisterCount

namespace RegisterSettings

/-- The settings before any request. -/
def standard : RegisterSettings :=
  ⟨Header.defaultRegisterCount, false, by decide⟩

/-- A number of registers brought into the range that a program can have. -/
def clamp (requested : Int) : UInt8 :=
  if requested < 0 then 0
  else if requested > 8 then 8
  else UInt8.ofNat requested.toNat

/-- Whether a number of registers is out of the range that a program can have. -/
def isClamped (requested : Int) : Bool :=
  requested < 0 || requested > 8

theorem clamp_le (requested : Int) : clamp requested ≤ Header.maxRegisterCount := by
  have h : (clamp requested).toNat ≤ 8 := by
    unfold clamp
    split
    · decide
    · split
      · decide
      · simp only [UInt8.toNat_ofNat']
        omega
  exact UInt8.le_iff_toNat_le.2 h

/-- The settings after a request. The first one sets the number, a later one can only raise it. -/
def request (settings : RegisterSettings) (requested : Int) : RegisterSettings :=
  if settings.requested ∧ clamp requested < settings.count then settings
  else ⟨clamp requested, true, clamp_le requested⟩

end RegisterSettings

/-- Labels and their code offsets. -/
abbrev SymbolTable := HashTable Probing.rolling UInt16

/-- The state that the files of one program share. -/
structure Session where
  registry : Registry
  /-- The bytes behind the header. -/
  code : Bytes
  symbols : SymbolTable
  registers : RegisterSettings

/-- Why an instruction cannot be encoded, and the place of the operand at fault, if one is. -/
structure EncodeError where
  error : AssemblyError
  operand : Option Nat
deriving DecidableEq, Repr

/-- A point that a session can be taken back to. -/
structure Checkpoint where
  offset : Nat
  registers : RegisterSettings

namespace Session

/-- The session without code, labels or requests. -/
def start (registry : Registry) : Session :=
  ⟨registry, #[], HashTable.empty, .standard⟩

/-- The header of the image. -/
def header (s : Session) : Header :=
  Header.withRegisters s.registers.count

/-- The image: the header and the code. -/
def image (s : Session) : Bytes :=
  s.header.toBytes ++ s.code

/-- The offset of the next instruction in the image. -/
def offset (s : Session) : Nat :=
  Header.size + s.code.size

theorem check_image (s : Session) : Header.check s.image = .ok s.header := by
  have hb : Header.ofBytes? s.image = some s.header := Header.ofBytes?_append s.header s.code
  have hc := UInt8.not_lt.2 s.registers.count_le
  simp only [Header.check, hb]
  simp [header, Header.withRegisters, Header.hasMagic, Header.hasVersion, hc]

/-- Seal the image. -/
def finish (s : Session) : Program :=
  ⟨s.image, s.header, s.check_image⟩

/-- The session without code. -/
def clearCode (s : Session) : Session :=
  { s with code := #[] }

/-! ## Instructions -/

/-- Tell what an operand is. -/
def classify (s : Session) (token : String) : Except AssemblyError OperandToken :=
  OperandToken.classify token s.registers.count

/-- The offset of a label. -/
def label? (s : Session) (name : String) : Option UInt16 :=
  s.symbols.find? name

/-- The operand that a token stands for. A label has the offset zero, unless labels are to be
resolved; then it must be known. -/
def resolve (s : Session) (resolving : Bool) : OperandToken → Except AssemblyError Operand
  | .constant bits => .ok (.constant bits)
  | .register index => .ok (.register index)
  | .label name =>
    if resolving then
      match s.label? name with
      | some address => .ok (.label address)
      | none => .error (.unresolvedLabel name)
    else
      .ok (.label 0)

/-- Tell what an operand is, and resolve it. -/
def operand (s : Session) (resolving : Bool) (token : String) : Except AssemblyError Operand :=
  match s.classify token with
  | .ok found => s.resolve resolving found
  | .error e => .error e

/-- The encoding of the instruction with a mnemonic and operands. -/
def instructionBytes (s : Session) (mnemonic : String) (operands : List Operand) :
    Except AssemblyError (List UInt8) :=
  match s.registry.bySignature? mnemonic (operands.map Operand.kind) with
  | some definition => .ok (Instruction.encode ⟨definition, operands⟩)
  | none => .error (.undefinedInstruction mnemonic (operands.map Operand.kind))

/-- The encoding of the instruction that a mnemonic and operand tokens stand for. -/
def encode (s : Session) (resolving : Bool) (mnemonic : String) (tokens : List String) :
    Except EncodeError (List UInt8) := do
  let operands ← tokens.zipIdx.mapM fun (token, index) =>
    (s.operand resolving token).mapError (⟨·, some index⟩)
  (s.instructionBytes mnemonic operands).mapError (⟨·, none⟩)

/-- The session with more code. -/
def append (s : Session) (bytes : List UInt8) : Session :=
  { s with code := s.code ++ bytes }

/-- The session without the code from an image offset on; the header is never cut. -/
def truncate (s : Session) (offset : Nat) : Session :=
  { s with code := s.code.extract 0 (offset - Header.size) }

/-- The offset of the next instruction, if a label can have it. -/
def checkedOffset (s : Session) : Except AssemblyError UInt16 :=
  if s.offset ≤ 65535 then .ok (UInt16.ofNat s.offset)
  else .error (.addressSpaceExceeded s.offset)

/-! ## Labels -/

/-- Record a new label at the current offset. -/
def define (s : Session) (name : String) : Except AssemblyError UInt16 × Session :=
  match s.checkedOffset with
  | .error e => (.error e, s)
  | .ok offset =>
    match s.symbols.insert? name offset with
    | some (true, symbols) => (.ok offset, { s with symbols })
    | some (false, symbols) =>
      (.error (.duplicateLabel name ((symbols.find? name).getD 0)), { s with symbols })
    | none => (.error (.duplicateLabel name 0), s)

/-- Check that a label is recorded at the current offset. -/
def confirm (s : Session) (name : String) : Except AssemblyError Unit :=
  match s.label? name with
  | some recorded =>
    if recorded.toNat = s.offset then .ok () else .error (.labelMoved name recorded s.offset)
  | none => .error (.unresolvedLabel name)

/-- The session without a label; `none` if it is unknown. -/
def forget? (s : Session) (name : String) : Option Session :=
  (s.symbols.erase? name).map fun symbols => { s with symbols }

/-- The session without some labels. -/
def forgetAll (s : Session) (names : List String) : Session :=
  names.foldl (fun s name => (s.forget? name).getD s) s

/-! ## Registers and checkpoints -/

/-- Ask for a number of registers. -/
def requestRegisters (s : Session) (requested : Int) : Session :=
  { s with registers := s.registers.request requested }

/-- The point to come back to. -/
def checkpoint (s : Session) : Checkpoint :=
  ⟨s.offset, s.registers⟩

/-- Undo all since a checkpoint, of the labels those given. -/
def rollback (s : Session) (point : Checkpoint) (labels : List String) : Session :=
  { (s.truncate point.offset).forgetAll labels with registers := point.registers }

end Session

end StackMachine.Assembly
