import StackMachine.Assembly.Diagnostic
import StackMachine.Assembly.Source
import StackMachine.Assembly.Window
import StackMachine.Text.Legible

/-!
# Excerpts

A diagnostic is shown with the source line that its span starts in, when the text of its file is
known, and on one line by itself otherwise. Line and column of an excerpt are counted from the
span. Message and source line are made legible, the line is shown through a window, and every
column of the span is underlined; a span of no characters is underlined at one place.
-/

namespace StackMachine.Assembly

/-- The escape sequences around the parts of an excerpt. -/
structure ExcerptStyle where
  bold : String
  error : String
  warning : String
  /-- Line numbers and the frame. -/
  frame : String
  reset : String

namespace ExcerptStyle

/-- No highlighting. -/
def plain : ExcerptStyle :=
  ⟨"", "", "", "", ""⟩

/-- Bright red errors, yellow warnings, and a bright blue frame. -/
def colored : ExcerptStyle :=
  ⟨"\x1b[1m", "\x1b[91m", "\x1b[33m", "\x1b[1m\x1b[94m", "\x1b[0m"⟩

/-- The style with highlighting on or off. -/
def ofBool (enabled : Bool) : ExcerptStyle :=
  if enabled then colored else plain

/-- The color of a severity. -/
def severity (style : ExcerptStyle) : Severity → String
  | .error => style.error
  | .warning => style.warning

end ExcerptStyle

/-- A line of a text as it is shown: its number, its place, where the next one starts, and its
characters without the end of the line. -/
structure ShownLine where
  number : Nat
  start : Nat
  next : Nat
  content : List Char

namespace ShownLine

/-- The characters of a piece of a text in front of its line feed, if it has one, and of the
carriage return before that. -/
def contentOf (piece : List Char) : List Char :=
  let content := piece.takeWhile (· != '\n')
  if content.getLast? = some '\r' ∧ content.length < piece.length then content.dropLast
  else content

/-- The lines of consecutive pieces, the first of which has the given number and start, behind those
in `done`, the last of which comes first. -/
def ofPieces (number start : Nat) (done : List ShownLine) : List (List Char) → List ShownLine
  | [] => done.reverse
  | piece :: rest =>
    let next := start + (String.ofList piece).utf8ByteSize
    ofPieces (number + 1) next (⟨number, start, next, contentOf piece⟩ :: done) rest

/-- The lines of a text. -/
def ofText (text : String) : List ShownLine :=
  ofPieces 1 0 [] (SourceLine.pieces text.toList)

/-- The line in which an offset lies, or the last one if it lies behind them all. -/
def find (lines : List ShownLine) (offset : Nat) : ShownLine :=
  match lines.find? fun line => offset < line.next with
  | some line => line
  | none => lines.getLast?.getD ⟨1, 0, 0, []⟩

end ShownLine

/-- A source line cut at a span: its number, the column of the span, from one on, and its characters
before, in and behind the span. -/
structure Excerpt where
  number : Nat
  column : Nat
  before : List Char
  marked : List Char
  behind : List Char

namespace Excerpt

/-- A span that is cut off at the end of the text, and covers one byte if it covered none. -/
def clampSpan (span : Span) (size : Nat) : Span :=
  let start := min span.start size
  let stop := min span.stop size
  if start = stop then ⟨start, min (start + 1) size⟩ else ⟨start, stop⟩

/-- The characters within the first `size` bytes. -/
def takeBytes : (size : Nat) → List Char → List Char
  | _, [] => []
  | size, c :: cs => if size = 0 then [] else c :: takeBytes (size - c.utf8Size) cs

/-- The column of an offset in a line: that of the character there, or the first one behind the
characters where they end, or the second one for any offset further on. -/
def columnOf (line : ShownLine) (offset : Nat) : Nat :=
  let reach := offset - line.start
  let inside := (takeBytes reach line.content).length + 1
  if (String.ofList line.content).utf8ByteSize < reach then inside + 1 else inside

/-- A line cut at a span. -/
def ofLine (line : ShownLine) (span : Span) : Excerpt :=
  let before := takeBytes (span.start - line.start) line.content
  let rest := line.content.drop before.length
  let marked := takeBytes (span.stop - span.start) rest
  ⟨line.number, columnOf line span.start, before, marked, rest.drop marked.length⟩

/-- A text of spaces. -/
def spaces (count : Nat) : String :=
  String.ofList (List.replicate count ' ')

/-- The characters of the source line. -/
def line (e : Excerpt) : List Char :=
  e.before ++ e.marked ++ e.behind

/-- The blanks that a line starts with, none if there is nothing else on it. -/
def indentation (line : List Char) : List Char :=
  if line.all Text.isBlank then [] else line.takeWhile Text.isBlank

/-- The columns of the source line, of its indentation and of its mark. -/
def layout (e : Excerpt) : MarkedLine :=
  let first := (e.before.flatMap Text.legible).length
  { columns := (e.line.flatMap Text.legible).length
    indentation := ((indentation e.line).flatMap Text.legible).length
    first := first
    last := first + max 1 (e.marked.flatMap Text.legible).length }

/-- The source line as it is shown through a window on `width` columns. Points stand in place of the
outermost columns where the window cuts it. -/
def shownLine (style : ExcerptStyle) (width : Nat) (window : Window) (e : Excerpt) : String :=
  let shown := e.line.flatMap Text.legible
  let stop := window.stop width shown.length
  let points := style.frame ++ "..." ++ style.reset
  let cutLeft := 0 < window.left
  let cutRight := stop < shown.length
  let first := if cutLeft then window.left + 3 else 0
  let last := if cutRight then stop - 3 else stop
  (if cutLeft then points else "") ++ String.ofList ((shown.take last).drop first) ++
    (if cutRight then points else "")

/-- The lines of an excerpt, below the message. -/
def toText (style : ExcerptStyle) (severity : Severity) (path : String) (e : Excerpt) : String :=
  let number := Text.decimal e.number
  let margin := spaces number.length
  let bar := style.frame ++ "|" ++ style.reset
  let width := Window.displayWidth - (number.length + 3)
  let layout := e.layout
  let window := Window.around width layout
  let carets := String.ofList (List.replicate (layout.last - layout.first) '^')
  margin ++ style.frame ++ "--> " ++ style.reset ++ path ++ ":" ++ number ++ ":" ++
    Text.decimal e.column ++ "\n" ++
    margin ++ " " ++ bar ++ "\n" ++
    style.frame ++ number ++ style.reset ++ " " ++ bar ++
    (if e.line.isEmpty then "" else " " ++ e.shownLine style width window) ++ "\n" ++
    margin ++ " " ++ bar ++ " " ++ spaces (layout.first - window.left) ++
    style.bold ++ style.severity severity ++ carets ++ style.reset

end Excerpt

/-- A file with its lines. -/
structure ShownFile where
  path : String
  size : Nat
  lines : List ShownLine

/-- The lines of a source file. -/
def ShownFile.ofSource (file : SourceFile) : ShownFile :=
  ⟨file.path, file.text.utf8ByteSize, ShownLine.ofText file.text⟩

/-- The severity of a diagnostic and its message, whose lines start in the same column. -/
def Diagnostic.title (style : ExcerptStyle) (d : Diagnostic) : String :=
  let emphasized (text : String) := if text.isEmpty then "" else style.bold ++ text ++ style.reset
  let indent := Excerpt.spaces (d.severity.name.length + 2)
  let head := style.bold ++ style.severity d.severity ++ d.severity.name ++ style.reset
  let lines := (d.message.splitOn "\n").map fun line =>
    String.ofList (line.toList.flatMap Text.legible)
  match lines with
  | [] => head
  | first :: rest =>
    String.intercalate "\n"
      ((head ++ emphasized (": " ++ first)) :: rest.map fun line => indent ++ emphasized line)

/-- A diagnostic with its excerpt from its file. -/
def Diagnostic.withExcerpt (style : ExcerptStyle) (file : ShownFile) (d : Diagnostic) : String :=
  let span := Excerpt.clampSpan d.span file.size
  d.title style ++ "\n" ++
    (Excerpt.ofLine (ShownLine.find file.lines span.start) span).toText style d.severity d.path

/-- The text of diagnostics, with a line feed between two of them. A diagnostic has an excerpt if
its path is that of one of the files. -/
def Diagnostics.toText (style : ExcerptStyle) (files : Array SourceFile) (ds : Diagnostics) :
    String :=
  let files := files.map ShownFile.ofSource
  let render (d : Diagnostic) : String :=
    match files.find? fun file => file.path == d.path with
    | some file => d.withExcerpt style file
    | none => d.toText
  String.intercalate "\n" (ds.toList.map render)

end StackMachine.Assembly
