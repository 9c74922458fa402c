import StackMachine.Binary32.Decimal
import StackMachine.Text.Utf8
import StackMachine.Text.Words

/-!
# Consoles

A machine reads numbers from a console and writes numbers to it. Input consists of words between
blanks; a word that is no number, and the end of the input, is read as zero. Each number is written
on a line of its own.

* A buffered console has its whole input as a text, and takes all output.
* A streaming console reads its input in chunks, where reading can be interrupted or fail, and its
  output may accept only so many bytes. How the input is cut into chunks does not matter, but a chunk
  without bytes is an end.
-/

namespace StackMachine

/-- Why a console does not take output. -/
structure ConsoleError where
  message : String
deriving DecidableEq, Repr

/-- A state of a console, with the operations of a machine on it. Numbers are words of 32 bits: the
bits of a signed integer or of a float. -/
class Console (π : Type) where
  /-- The next word as an integer. -/
  readInt (console : π) : UInt32 × π
  /-- The next word as a float. -/
  readFloat (console : π) : UInt32 × π
  /-- Write an integer. -/
  writeInt (word : UInt32) (console : π) : Option ConsoleError × π
  /-- Write a float. -/
  writeFloat (word : UInt32) (console : π) : Option ConsoleError × π

namespace Console

/-- The integer of 32 bits that a word stands for, or zero. -/
def parseInt (word : List Char) : UInt32 :=
  match Text.readSigned? word with
  | some i => if -2147483648 ≤ i ∧ i ≤ 2147483647 then Bytes.ofSigned i else 0
  | none => 0

/-- The float that a word stands for, or zero. -/
def parseFloat (word : List Char) : UInt32 :=
  (Binary32.read? word).getD 0

/-- An integer on a line of its own. -/
def intLine (word : UInt32) : String :=
  Text.signedDecimal (Bytes.toSigned word) ++ "\n"

/-- A float on a line of its own. -/
def floatLine (word : UInt32) : String :=
  Binary32.toText word ++ "\n"

end Console

/-! ## Buffered consoles -/

/-- A console with the words that are still to be read, and the output so far. -/
structure BufferedConsole where
  words : List (List Char)
  output : String

namespace BufferedConsole

/-- The console whose input is a text. -/
def ofText (input : String) : BufferedConsole :=
  ⟨Text.words input.toList, ""⟩

/-- Read the next word with a parser. -/
def read (parse : List Char → UInt32) (console : BufferedConsole) : UInt32 × BufferedConsole :=
  match console.words with
  | [] => (0, console)
  | word :: rest => (parse word, { console with words := rest })

/-- Write a text. -/
def write (text : String) (console : BufferedConsole) : Option ConsoleError × BufferedConsole :=
  (none, { console with output := console.output ++ text })

instance : Console BufferedConsole where
  readInt := read Console.parseInt
  readFloat := read Console.parseFloat
  writeInt word := write (Console.intLine word)
  writeFloat word := write (Console.floatLine word)

end BufferedConsole

/-! ## Streaming consoles -/

/-- What one attempt to read from a stream gives. -/
inductive StreamEvent where
  /-- The bytes that are there. If there are none, the word that is being read ends here, as it does
  at the end of the stream; the next word is read from the attempts behind. -/
  | chunk (bytes : List UInt8)
  /-- The attempt was interrupted and can be repeated. -/
  | interrupted
  /-- The attempt has failed. -/
  | broken
deriving DecidableEq, Repr

/-- A console with what is still to be read, the output so far, and how many bytes of output are
accepted in all, if they are limited. -/
structure StreamingConsole where
  events : List StreamEvent
  output : String
  limit : Option Nat

namespace StreamingConsole

/-- Go on reading a word in a chunk. The bytes of the word so far come last first; the rest of the
chunk is told if the word ends in it. -/
def scanChunk (word : List UInt8) : List UInt8 → List UInt8 × Option (List UInt8)
  | [] => (word, none)
  | b :: rest =>
    if Text.isBlankByte b then
      if word.isEmpty then scanChunk word rest else (word, some rest)
    else
      scanChunk (b :: word) rest

/-- Go on reading a word in what one attempt gives. A failure ends the word, and so does a chunk
without bytes; the rest of the chunk is told if the word ends in it. -/
def attempt (word : List UInt8) : StreamEvent → List UInt8 × Option (List UInt8)
  | .chunk bytes => if bytes.isEmpty then (word, some []) else scanChunk word bytes
  | .interrupted => (word, none)
  | .broken => (word, some [])

/-- The attempts behind a chunk of which some bytes are left, if any. -/
def behind (left : List UInt8) (rest : List StreamEvent) : List StreamEvent :=
  if left.isEmpty then rest else .chunk left :: rest

/-- Go on reading a word in a stream, up to its end. -/
def scan (word : List UInt8) : List StreamEvent → List UInt8 × List StreamEvent
  | [] => (word, [])
  | event :: rest =>
    match attempt word event with
    | (word, none) => scan word rest
    | (word, some left) => (word, behind left rest)

/-- The characters of a word, whose bytes come last first, unless it is empty or no text. -/
def wordText? (word : List UInt8) : Option (List Char) :=
  if word.isEmpty then none
  else
    match Text.decode word.reverse.toArray with
    | .ok text => some text.toList
    | .error _ => none

/-- Read the next word with a parser. -/
def read (parse : List Char → UInt32) (console : StreamingConsole) : UInt32 × StreamingConsole :=
  let (word, events) := scan [] console.events
  (((wordText? word).map parse).getD 0, { console with events })

/-- The failure of an output that accepts nothing more. -/
def closed : ConsoleError :=
  ⟨"output closed"⟩

/-- Write a text of ASCII. Of a text that is too long, what is still accepted is written. -/
def write (text : String) (console : StreamingConsole) : Option ConsoleError × StreamingConsole :=
  let room := console.limit.map (· - console.output.utf8ByteSize)
  match room with
  | none => (none, { console with output := console.output ++ text })
  | some room =>
    if text.utf8ByteSize ≤ room then
      (none, { console with output := console.output ++ text })
    else
      (some closed,
        { console with output := console.output ++ String.ofList (text.toList.take room) })

instance : Console StreamingConsole where
  readInt := read Console.parseInt
  readFloat := read Console.parseFloat
  writeInt word := write (Console.intLine word)
  writeFloat word := write (Console.floatLine word)

end StreamingConsole

end StackMachine
