import StackMachine.Text.Blank

/-!
# Source lines and tokens

A source text is cut into lines behind its line feeds, and each line into tokens: words, commas, and
garbage. Horizontal blanks separate tokens, and a comment reaches from `#` to the end of its line.

* Lines are numbered from one; a text that ends with a line feed has no empty line behind it.
* Words and garbage are the longest runs of characters of their class; each comma is a token of its
  own.
* Spans count bytes from the start of the text, and the span of a line excludes its line feed.
-/

namespace StackMachine.Assembly

/-- A range of bytes in a source text: from `start` up to but not including `stop`. -/
structure Span where
  start : Nat
  stop : Nat
deriving DecidableEq, Repr

/-- The classes of characters within a line, comments apart. -/
inductive CharClass where
  /-- A space, a tab, a carriage return, a vertical tab or a form feed. -/
  | blank
  | comma
  /-- Any other character with the White_Space property. -/
  | foreign
  | word
deriving DecidableEq, Repr

namespace CharClass

/-- The class of a character. -/
def ofChar (c : Char) : CharClass :=
  if c = ' ' ∨ c = '\t' ∨ c = '\r' ∨ c = '\x0b' ∨ c = '\x0c' then blank
  else if c = ',' then comma
  else if Text.isBlank c then foreign
  else word

end CharClass

/-- The kinds of token. -/
inductive TokenKind where
  /-- A mnemonic, an operand, a label definition or a directive. -/
  | word
  | comma
  /-- Characters that have no place in a source text. -/
  | garbage
deriving DecidableEq, Repr

/-- A token with its place in the source text. -/
structure Token where
  kind : TokenKind
  span : Span
  text : String
deriving DecidableEq, Repr

/-- A line of a source text. -/
structure SourceLine where
  number : Nat
  span : Span
  tokens : List Token
deriving DecidableEq, Repr

namespace Token

/-- The token that a run of characters of one class makes, unless they are blanks. -/
def ofRun? (start : Nat) (run : List Char) : Option Token :=
  let text := String.ofList run
  let span : Span := ⟨start, start + text.utf8ByteSize⟩
  match run.head?.map CharClass.ofChar with
  | some .word => some ⟨.word, span, text⟩
  | some .comma => some ⟨.comma, span, text⟩
  | some .foreign => some ⟨.garbage, span, text⟩
  | _ => none

/-- The longest runs of characters of one class, where each comma is a run of its own. -/
def runs (cs : List Char) : List (List Char) :=
  cs.splitBy fun a b => CharClass.ofChar a == CharClass.ofChar b && CharClass.ofChar a != .comma

/-- The tokens of consecutive runs, the first of which starts at `start`, behind those in `done`,
the last of which comes first. -/
def ofRuns (start : Nat) (done : List Token) : List (List Char) → List Token
  | [] => done.reverse
  | run :: rest =>
    let next := start + (String.ofList run).utf8ByteSize
    match ofRun? start run with
    | some token => ofRuns next (token :: done) rest
    | none => ofRuns next done rest

/-- The tokens of a line that starts at `start`. -/
def ofLine (start : Nat) (line : List Char) : List Token :=
  ofRuns start [] (runs (line.takeWhile (· != '#')))

end Token

namespace SourceLine

/-- Whether a line has no tokens. -/
def isBlank (line : SourceLine) : Bool :=
  line.tokens.isEmpty

/-- The pieces of a text, each up to and including a line feed or the end of the text. -/
def pieces (cs : List Char) : List (List Char) :=
  cs.splitBy fun a _ => a != '\n'

/-- The lines of consecutive pieces, the first of which has the given number and start, behind those
in `done`, the last of which comes first. -/
def ofPieces (number start : Nat) (done : List SourceLine) : List (List Char) → List SourceLine
  | [] => done.reverse
  | piece :: rest =>
    let content := piece.takeWhile (· != '\n')
    let stop := start + (String.ofList content).utf8ByteSize
    let line : SourceLine := ⟨number, ⟨start, stop⟩, Token.ofLine start content⟩
    ofPieces (number + 1) (start + (String.ofList piece).utf8ByteSize) (line :: done) rest

/-- The lines of a text. -/
def ofText (text : String) : List SourceLine :=
  ofPieces 1 0 [] (pieces text.toList)

end SourceLine

end StackMachine.Assembly
