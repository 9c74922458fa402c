import StackMachine.Assembly.Directive
import StackMachine.Assembly.Session
import StackMachine.Assembly.Source

/-!
# Assembly of one file

A file goes through a session twice. The discovery pass records the offsets of its labels, and
encodes each instruction with zero for every label, only to learn its size; the link pass encodes
the file again with labels resolved, and checks that they are where they were. Labels of this file
and of earlier ones can be resolved.

* The first error ends the assembly: code, labels and register settings of the file are undone.
* Warnings are told in the discovery pass alone.
-/

namespace StackMachine.Assembly

/-- The two passes over a file. -/
inductive Pass where
  | discovery
  | link
deriving DecidableEq, Repr

/-- An error with the part of the source that it is about. -/
structure Located where
  error : AssemblyError
  span : Span
deriving DecidableEq, Repr

/-- What the passes over a file have done so far. -/
structure Progress where
  session : Session
  /-- The labels that this file has defined. -/
  defined : Array String
  diagnostics : Diagnostics

/-- A part of a pass: it goes on with the progress made, also when it fails. -/
abbrev PassAction (α : Type) := EStateM Located Progress α

namespace PassAction

/-- Fail with an error in a part of the source. -/
def fail {α : Type} (error : AssemblyError) (span : Span) : PassAction α :=
  throw ⟨error, span⟩

/-- Fail with a syntax error in a part of the source. -/
def failSyntax {α : Type} (cause : SyntaxError) (span : Span) : PassAction α :=
  fail (.syntaxError cause) span

/-- Go on with a result, or fail with its error. -/
def lift {α : Type} (result : Except AssemblyError α) (span : Span) : PassAction α :=
  match result with
  | .ok a => pure a
  | .error e => fail e span

/-- Change the session. -/
def modifySession (f : Session → Session) : PassAction Unit :=
  modify fun p => { p with session := f p.session }

end PassAction

open PassAction

/-- The span from the first to the last of some tokens. -/
def Token.spanOf (first : Token) (rest : List Token) : Span :=
  ⟨first.span.start, (rest.getLast?.getD first).span.stop⟩

/-- The operands of an instruction: the words behind its mnemonic. A comma needs a word before it,
and words need no commas. -/
def operandTokens (previous : TokenKind) (done : List Token) :
    List Token → Except Located (List Token)
  | [] => .ok done.reverse
  | token :: rest =>
    if token.kind = .comma then
      if previous = .comma then .error ⟨.syntaxError .commaAfterComma, token.span⟩
      else if done.isEmpty then .error ⟨.syntaxError .commaBeforeArgument, token.span⟩
      else operandTokens .comma done rest
    else
      operandTokens token.kind (token :: done) rest

namespace Pass

/-- Whether a word defines a label: it ends with a colon and is no directive. -/
def isLabel (token : Token) : Bool :=
  token.kind == .word && token.text.toList.getLast? == some ':' &&
    token.text.toList.head? != some '.'

/-- The name in the definition of a label. -/
def labelName (token : Token) : String :=
  String.ofList token.text.toList.dropLast

/-- Record the definition of a label, or check it again. -/
def label (pass : Pass) (token : Token) : PassAction Unit := do
  let name := labelName token
  if name.isEmpty || Literal.startsWithDigit name then
    failSyntax (.invalidLabelName token.text) token.span
  else
    match pass with
    | .discovery =>
      let result ← modifyGet fun p =>
        let (result, session) := p.session.define name
        (result, { p with session })
      let _ ← lift result token.span
      modify fun p => { p with defined := p.defined.push name }
    | .link => lift ((← get).session.confirm name) token.span

/-- Tell a warning, in the discovery pass. -/
def warn (pass : Pass) (path : String) (line : Nat) (kind : DiagnosticKind) (span : Span)
    (message : String) : PassAction Unit :=
  match pass with
  | .discovery =>
    modify fun p =>
      { p with diagnostics := p.diagnostics.push (.ofKind kind path line span message) }
  | .link => pure ()

/-- The text of the warning about another version of the instruction set. -/
def versionMessage (version : Int) : String :=
  "source targets instruction set version " ++ Text.signedDecimal version ++
    ", assembler implements " ++ Text.decimal Header.expectedVersion.toNat

/-- The text of the warning about a number of registers that no program can have. -/
def clampMessage (requested : Int) (count : UInt8) : String :=
  "register count " ++ Text.signedDecimal requested ++ " is out of range, using " ++
    Text.decimal count.toNat

/-- The text of the warning about any request for registers. -/
def registersMessage : String :=
  "`.registers` is not recommended: programs should use the default register count"

/-- Carry out a directive. -/
def directive (pass : Pass) (path : String) (line : Nat) (name : String) (first : Token)
    (rest : List Token) : PassAction Unit := do
  let span := Token.spanOf first rest
  match rest.find? fun token => token.kind == .comma with
  | some comma => failSyntax .commaInDirective comma.span
  | none =>
    match ← lift (Directive.read name (rest.map Token.text)) span with
    | .version none => pure ()
    | .version (some version) =>
      if version = Header.expectedVersion.toNat then
        pure ()
      else
        warn pass path line .versionMismatch span (versionMessage version)
    | .registers requested =>
      modifySession fun s => s.requestRegisters requested
      if RegisterSettings.isClamped requested then
        let count := (← get).session.registers.count
        warn pass path line .registerCountClamped span (clampMessage requested count)
      warn pass path line .registersDirective span registersMessage

/-- Encode an instruction. An error in one operand is told of that operand. -/
def instruction (pass : Pass) (first : Token) (rest : List Token) : PassAction Unit := do
  match operandTokens first.kind [] rest with
  | .error located => throw located
  | .ok operands =>
    let session := (← get).session
    match session.encode (pass == .link) first.text (operands.map Token.text) with
    | .ok bytes => modifySession fun s => s.append bytes
    | .error e =>
      let span := match e.operand.bind (operands[·]?) with
        | some token => token.span
        | none => Token.spanOf first rest
      fail e.error span

/-- Carry out a directive or encode an instruction. -/
def statement (pass : Pass) (path : String) (line : Nat) (first : Token) (rest : List Token) :
    PassAction Unit :=
  if first.kind = .comma then
    failSyntax .commaBeforeInstruction first.span
  else
    match first.text.toList with
    | '.' :: name => directive pass path line (String.ofList name) first rest
    | _ => instruction pass first rest

/-- Assemble one line: a label, a statement, or both. A line that is not blank has to end within the
reach of labels. -/
def line (pass : Pass) (path : String) (source : SourceLine) : PassAction Unit := do
  match source.tokens with
  | [] => pure ()
  | first :: rest =>
    match source.tokens.find? fun token => token.kind == .garbage with
    | some garbage => failSyntax .unexpectedCharacters garbage.span
    | none =>
      if isLabel first then
        label pass first
        match rest with
        | [] => pure ()
        | first :: rest => statement pass path source.number first rest
      else
        statement pass path source.number first rest
      let _ ← lift (← get).session.checkedOffset source.span

/-- Assemble lines in order. The first error is told with the number of its line. -/
def lines (pass : Pass) (path : String) :
    List SourceLine → Progress → Option (Nat × Located) × Progress
  | [], progress => (none, progress)
  | source :: rest, progress =>
    match (pass.line path source).run progress with
    | .ok () progress => lines pass path rest progress
    | .error located progress => (some (source.number, located), progress)

end Pass

/-- The result of the assembly of a file: the session it leaves, whether it was accepted, and its
diagnostics. -/
structure FileResult where
  session : Session
  accepted : Bool
  diagnostics : Diagnostics

namespace SourceFile

/-- Undo a file that has an error, and tell the error behind the warnings. -/
def reject (path : String) (point : Checkpoint) (line : Nat) (located : Located)
    (progress : Progress) : FileResult where
  session := progress.session.rollback point progress.defined.toList
  accepted := false
  diagnostics := progress.diagnostics.push
    (.ofKind located.error.kind path line located.span located.error.message)

/-- Assemble a file in two passes. -/
def assemble (session : Session) (file : SourceFile) : FileResult :=
  let sourceLines := SourceLine.ofText file.text
  let point := session.checkpoint
  match Pass.discovery.lines file.path sourceLines ⟨session, #[], #[]⟩ with
  | (some (number, located), progress) => reject file.path point number located progress
  | (none, progress) =>
    let progress := { progress with session := progress.session.truncate point.offset }
    match Pass.link.lines file.path sourceLines progress with
    | (some (number, located), progress) => reject file.path point number located progress
    | (none, progress) => ⟨progress.session, true, progress.diagnostics⟩

end SourceFile

end StackMachine.Assembly
