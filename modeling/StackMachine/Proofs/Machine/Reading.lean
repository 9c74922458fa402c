import StackMachine.Machine.Console
import StackMachine.Proofs.Text.Words

/-!
# Numbers that are read

A console is asked for numbers, call by call. Either kind of console answers each call from the next
word of its input; they differ in what they take for blank. A stream has one input only as long as
no attempt to read from it fails or finds nothing, as either would end a word.

* `StreamingConsole.Unbroken`: that the attempts give one input.
* `StreamingConsole.scan_eq`: such a stream is read as one chunk with all its bytes.
* `BufferedConsole.answers_eq`, `StreamingConsole.answers_eq`: the answers of a console, by the
  words of its input.
* `answers_eq_iff`: when two consoles with one text give the same answers.
-/

namespace StackMachine

/-- The calls that read a number. -/
inductive ReadCall where
  | int
  | float
deriving DecidableEq, Repr

namespace ReadCall

/-- How a call reads a word. -/
def parse : ReadCall → List Char → UInt32
  | int => Console.parseInt
  | float => Console.parseFloat

/-- The answer to a call, from the next word or from the end of the input. -/
def answer (call : ReadCall) (word : Option (List Char)) : UInt32 :=
  (word.map call.parse).getD 0

end ReadCall

namespace Console

variable {π : Type} [Console π]

/-- The answer to a call, and the console behind it. -/
def ask (console : π) : ReadCall → UInt32 × π
  | .int => readInt console
  | .float => readFloat console

/-- The answers to calls, one after the other. -/
def answers (console : π) : List ReadCall → List UInt32
  | [] => []
  | call :: calls => (ask console call).1 :: answers (ask console call).2 calls

end Console

open Console

variable {input : List UInt8} {events : List StreamEvent} {ws : List (List UInt8)}

/-! ## Buffered consoles -/

namespace BufferedConsole

theorem ask_eq (console : BufferedConsole) (call : ReadCall) :
    ask console call =
      (call.answer console.words.head?, { console with words := console.words.tail }) := by
  obtain ⟨words, output⟩ := console
  cases call <;> cases words <;> rfl

/-- A buffered console answers each call from one word. -/
theorem answers_eq (console : BufferedConsole) (calls : List ReadCall) :
    answers console calls = calls.mapIdx fun i call => call.answer console.words[i]? := by
  induction calls generalizing console with
  | nil => rfl
  | cons call calls ih =>
    rw [answers, ask_eq, ih, List.mapIdx_cons, List.head?_eq_getElem?]
    simp only [List.getElem?_tail]

end BufferedConsole

/-! ## Streams -/

namespace StreamEvent

/-- The bytes that an attempt gives. -/
def bytes : StreamEvent → List UInt8
  | .chunk bytes => bytes
  | .interrupted => []
  | .broken => []

end StreamEvent

namespace StreamingConsole

/-- The bytes that are still to be read, if they are one input. -/
def pending (events : List StreamEvent) : List UInt8 :=
  events.flatMap StreamEvent.bytes

/-- That the attempts give one input: none fails, and none finds nothing in front of the end. -/
def Unbroken (events : List StreamEvent) : Prop :=
  .broken ∉ events ∧ .chunk [] ∉ events

instance (events : List StreamEvent) : Decidable (Unbroken events) :=
  inferInstanceAs (Decidable (_ ∧ _))

theorem unbroken_cons {event : StreamEvent} :
    Unbroken (event :: events) ↔ (event ≠ .broken ∧ event ≠ .chunk []) ∧ Unbroken events := by
  simp only [Unbroken, List.mem_cons, not_or, ne_comm (a := event), ne_eq, and_assoc,
    and_left_comm]

theorem pending_behind (left : List UInt8) (events : List StreamEvent) :
    pending (behind left events) = left ++ pending events := by
  cases left <;> rfl

theorem Unbroken.behind (h : Unbroken events) (left : List UInt8) :
    Unbroken (behind left events) := by
  cases left with
  | nil => exact h
  | cons b left => exact unbroken_cons.2 ⟨⟨nofun, nofun⟩, h⟩

/-- Two chunks are read like one. -/
theorem scanChunk_append (word bytes bytes' : List UInt8) :
    scanChunk word (bytes ++ bytes') =
      match scanChunk word bytes with
      | (word, some left) => (word, some (left ++ bytes'))
      | (word, none) => scanChunk word bytes' := by
  induction bytes generalizing word with
  | nil => rfl
  | cons b rest ih =>
    rw [List.cons_append, scanChunk, scanChunk]
    split
    · split
      · exact ih word
      · rfl
    · exact ih (b :: word)

/-- A stream is read like one chunk with all its bytes. -/
theorem scan_eq (h : Unbroken events) (word : List UInt8) :
    (scan word events).1 = (scanChunk word (pending events)).1 ∧
      pending (scan word events).2 = ((scanChunk word (pending events)).2).getD [] ∧
      Unbroken (scan word events).2 := by
  induction events generalizing word with
  | nil => exact ⟨rfl, rfl, h⟩
  | cons event events ih =>
    obtain ⟨⟨hbroken, hempty⟩, hevents⟩ := unbroken_cons.1 h
    cases event with
    | interrupted => exact ih hevents word
    | broken => exact absurd rfl hbroken
    | chunk bytes =>
      have hbytes : bytes.isEmpty = false := by
        rw [List.isEmpty_eq_false_iff]
        rintro rfl
        exact hempty rfl
      have hpending : pending (.chunk bytes :: events) = bytes ++ pending events := rfl
      rw [hpending, scanChunk_append, scan, attempt, hbytes, if_neg Bool.false_ne_true]
      cases scanChunk word bytes with
      | mk word left =>
        cases left with
        | some left => exact ⟨rfl, pending_behind left events, hevents.behind left⟩
        | none => exact ih hevents word

theorem scanChunk_of_word {run : List UInt8} (h : ∀ b ∈ run, Text.isBlankByte b = false)
    (word rest : List UInt8) :
    scanChunk word (run ++ rest) = scanChunk (run.reverse ++ word) rest := by
  induction run generalizing word with
  | nil => rfl
  | cons b run ih =>
    rw [List.forall_mem_cons] at h
    rw [List.cons_append, scanChunk, h.1, if_neg Bool.false_ne_true, ih h.2, List.reverse_cons,
      List.append_assoc, List.singleton_append]

/-- A chunk is read up to the end of its first word, and of one blank behind it. -/
theorem scanChunk_of_isWords (h : Text.IsWords Text.isBlankByte input ws) :
    (scanChunk [] input).1 = (ws.head?.getD []).reverse ∧
      Text.IsWords Text.isBlankByte ((scanChunk [] input).2.getD []) ws.tail := by
  induction h with
  | nil => exact ⟨rfl, .nil⟩
  | blank hb _ ih =>
    rw [scanChunk, if_pos hb]
    exact ih
  | @word run rest ws hne hrun hend hrest ih =>
    rw [scanChunk_of_word hrun, List.append_nil]
    cases rest with
    | nil => exact ⟨rfl, hrest⟩
    | cons b left =>
      have hb : Text.isBlankByte b = true := hend b rfl
      have hempty : run.reverse.isEmpty = false := by simpa using hne
      rw [Text.isWords_iff, Text.wordsBy_cons_blank hb, ← Text.isWords_iff] at hrest
      rw [scanChunk, if_pos hb, hempty]
      exact ⟨rfl, hrest⟩

/-- The characters of the bytes of a word, if they are a text. -/
def text? (word : List UInt8) : Option (List Char) :=
  match Text.decode word.toArray with
  | .ok text => some text.toList
  | .error _ => none

theorem wordText?_reverse {word : List UInt8} (h : word ≠ []) :
    wordText? word.reverse = text? word := by
  have hempty : word.reverse.isEmpty = false := by simpa using h
  rw [wordText?, hempty, List.reverse_reverse]
  rfl

/-- A call is answered from the first word, and leaves the others. -/
theorem ask_spec (output : String) (limit : Option Nat) (hevents : Unbroken events)
    (h : Text.IsWords Text.isBlankByte (pending events) ws) (call : ReadCall) :
    ∃ events', ask (⟨events, output, limit⟩ : StreamingConsole) call =
        (call.answer (ws.head?.bind text?), ⟨events', output, limit⟩) ∧
      Unbroken events' ∧ Text.IsWords Text.isBlankByte (pending events') ws.tail := by
  obtain ⟨hword, hpending, hevents'⟩ := scan_eq hevents []
  obtain ⟨hfirst, hrest⟩ := scanChunk_of_isWords h
  refine ⟨(scan [] events).2, ?_, hevents', hpending ▸ hrest⟩
  have htext : wordText? (scan [] events).1 = ws.head?.bind text? := by
    rw [hword, hfirst]
    cases ws with
    | nil => rfl
    | cons word ws => exact wordText?_reverse (h.ne_nil_of_mem List.mem_cons_self)
  have hask (parse : List Char → UInt32) :
      read parse (⟨events, output, limit⟩ : StreamingConsole) =
        (((ws.head?.bind text?).map parse).getD 0, ⟨(scan [] events).2, output, limit⟩) := by
    rw [← htext]
    rfl
  cases call with
  | int => exact hask parseInt
  | float => exact hask parseFloat

/-- A streaming console answers each call from one word of its bytes. -/
theorem answers_eq {output : String} {limit : Option Nat} (hevents : Unbroken events)
    (h : Text.IsWords Text.isBlankByte (pending events) ws) (calls : List ReadCall) :
    answers (⟨events, output, limit⟩ : StreamingConsole) calls =
      calls.mapIdx fun i call => call.answer (ws[i]?.bind text?) := by
  induction calls generalizing events ws with
  | nil => rfl
  | cons call calls ih =>
    obtain ⟨events', hask, hevents', h'⟩ := ask_spec output limit hevents h call
    rw [answers, hask, ih hevents' h', List.mapIdx_cons, List.head?_eq_getElem?]
    simp only [List.getElem?_tail]

/-- A chunk without bytes is an end: the bytes in front of it and behind it are not one input. -/
example : answers (⟨[.chunk [0x31, 0x32, 0x0a], .chunk [], .chunk [0x33, 0x0a]], "", none⟩ :
    StreamingConsole) [.int, .int, .int] = [12, 0, 3] := by
  decide +kernel

end StreamingConsole

/-! ## Consoles with one text -/

theorem StreamingConsole.text?_encode (cs : List Char) :
    text? (Text.encode cs) = some cs := by
  have h : Text.decode (Text.encode cs).toArray = .ok (String.ofList cs) := by
    rw [Text.decode_eq_ok_iff, String.toList_ofList]
  rw [text?, h]
  exact congrArg some String.toList_ofList

theorem StreamingConsole.answers_of_text {text : String} {output : String} {limit : Option Nat}
    (hevents : Unbroken events) (htext : pending events = (Bytes.ofString text).toList)
    (calls : List ReadCall) :
    answers (⟨events, output, limit⟩ : StreamingConsole) calls =
      calls.mapIdx fun i call =>
        call.answer (Text.wordsBy Text.isPlainBlank text.toList)[i]? := by
  have hwords := Text.isWords_encode text.toList
  rw [← Text.toList_ofString, ← htext] at hwords
  rw [answers_eq hevents hwords]
  simp only [List.getElem?_map, Option.bind_map, Function.comp_def, text?_encode,
    Option.bind_fun_some]

/-- Two consoles with one text, a buffered one and a streaming one whose stream is cut and
interrupted in any way, give the same answers to all calls if the words between characters with the
White_Space property and the words between spaces, tabs, line feeds, form feeds and carriage returns
are read as the same numbers, one by one. So they do if the text has no other blanks than these. -/
theorem answers_eq_iff {text : String} {output : String} {limit : Option Nat}
    (hevents : StreamingConsole.Unbroken events)
    (htext : StreamingConsole.pending events = (Bytes.ofString text).toList) :
    ((∀ calls, answers (BufferedConsole.ofText text) calls =
        answers (⟨events, output, limit⟩ : StreamingConsole) calls) ↔
      ∀ (call : ReadCall) (i : Nat), call.answer (Text.words text.toList)[i]? =
        call.answer (Text.wordsBy Text.isPlainBlank text.toList)[i]?) ∧
    ((∀ c ∈ text.toList, Text.isBlank c = true → Text.isPlainBlank c = true) →
      ∀ calls, answers (BufferedConsole.ofText text) calls =
        answers (⟨events, output, limit⟩ : StreamingConsole) calls) := by
  simp only [BufferedConsole.answers_eq, StreamingConsole.answers_of_text hevents htext]
  refine ⟨⟨fun h call i => ?_, fun h calls => ?_⟩, fun hplain calls => ?_⟩
  · have hlast := congrArg (·[i]?) (h (List.replicate (i + 1) call))
    simpa [List.getElem?_mapIdx, BufferedConsole.ofText] using hlast
  · simp only [BufferedConsole.ofText, h]
  · have hwords : Text.words text.toList = Text.wordsBy Text.isPlainBlank text.toList := by
      rw [Text.words_eq_wordsBy, ← Text.isWords_iff]
      refine (Text.isWords_iff.2 rfl).congr fun c hc => ?_
      rw [Bool.eq_iff_iff]
      exact ⟨Text.isBlank_of_isPlainBlank, hplain c hc⟩
    simp only [BufferedConsole.ofText, hwords]

/-- A word that is cut by an interruption, and a number too large. -/
theorem answers_eq_iff_interrupted :
    let text := "12 -7\n2147483648\t0.5"
    let events : List StreamEvent := [.chunk [0x31], .interrupted, .chunk [0x32, 0x20, 0x2d],
      .chunk ((Bytes.ofString text).toList.drop 4)]
    ∀ calls, answers (BufferedConsole.ofText text) calls =
      answers (⟨events, "", none⟩ : StreamingConsole) calls := by
  intro text events
  have hplain : (text.toList.all fun c => !Text.isBlank c || Text.isPlainBlank c) = true := by
    decide +kernel
  refine (answers_eq_iff (by decide) (by decide +kernel)).2 fun c hc hblank => ?_
  simpa [hblank] using List.all_eq_true.1 hplain c hc

/-- A vertical tab is blank for a buffered console only, so that consoles with one text can
disagree. -/
theorem not_answers_eq :
    let text := "1\x0b2"
    let events : List StreamEvent := [.chunk (Bytes.ofString text).toList]
    StreamingConsole.Unbroken events ∧
    StreamingConsole.pending events = (Bytes.ofString text).toList ∧
    answers (BufferedConsole.ofText text) [.int, .int] = [1, 2] ∧
    answers (⟨events, "", none⟩ : StreamingConsole) [.int, .int] = [0, 0] := by
  decide +kernel

end StackMachine
