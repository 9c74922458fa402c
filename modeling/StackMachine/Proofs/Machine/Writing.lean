import StackMachine.Proofs.Machine.Reading
import StackMachine.Proofs.Text.Numerals

/-!
# Integers that are written and read back

Each integer is written on a line of its own, which holds one word and no blank but the line feed.
So the words of what was written are the integers in order, whichever characters a console takes for
blank, and each is read as the integer that it was.

* `writeInts`: writing integers one after the other, up to the first complaint.
* `parseInt_numeral`: an integer of 32 bits is read as itself.
* `isWords_intLines`: the words of what was written.
* `answers_intLines`: what a console answers behind it.
-/

namespace StackMachine

open Console

/-! ## Writing -/

namespace Console

variable {π : Type} [Console π]

/-- Write integers one after the other, up to the first that the console does not take. -/
def writeInts : List UInt32 → π → Option ConsoleError × π
  | [], console => (none, console)
  | word :: words, console =>
    match writeInt word console with
    | (none, console) => writeInts words console
    | (some e, console) => (some e, console)

/-- Integers, each on a line of its own. -/
def intLines (words : List UInt32) : String :=
  String.join (words.map intLine)

theorem intLines_cons (word : UInt32) (words : List UInt32) :
    intLines (word :: words) = intLine word ++ intLines words := by
  rw [intLines, List.map_cons, String.join_cons]
  rfl

/-- The characters that an integer is written with. -/
def numeral (word : UInt32) : List Char :=
  (Text.signedDecimal (Bytes.toSigned word)).toList

theorem toList_intLines (words : List UInt32) :
    (intLines words).toList = words.flatMap fun word => numeral word ++ ['\n'] := by
  induction words with
  | nil => rfl
  | cons word words ih =>
    rw [intLines_cons, String.toList_append, ih, List.flatMap_cons, intLine, String.toList_append]
    rfl

end Console

theorem BufferedConsole.writeInts_eq (words : List UInt32) (console : BufferedConsole) :
    writeInts words console =
      (none, { console with output := console.output ++ intLines words }) := by
  induction words generalizing console with
  | nil => simp [writeInts, intLines]
  | cons word words ih =>
    have hword : writeInt word console =
      (none, { console with output := console.output ++ intLine word }) := rfl
    rw [writeInts, hword]
    dsimp only
    rw [ih, intLines_cons, String.append_assoc]

/-- A stream whose output is not limited takes all integers. -/
theorem StreamingConsole.writeInts_eq (words : List UInt32) {console : StreamingConsole}
    (h : console.limit = none) :
    writeInts words console =
      (none, { console with output := console.output ++ intLines words }) := by
  induction words generalizing console with
  | nil => simp [writeInts, intLines]
  | cons word words ih =>
    have hword : writeInt word console =
        (none, { console with output := console.output ++ intLine word }) := by
      change write (intLine word) console = _
      rw [write, h]
      rfl
    rw [writeInts, hword]
    refine (ih ?_).trans ?_
    · exact h
    · rw [intLines_cons, String.append_assoc]

/-! ## Reading -/

/-- An integer of 32 bits is read as itself. -/
theorem Console.parseInt_numeral (word : UInt32) : parseInt (numeral word) = word := by
  have hrange : -2147483648 ≤ Bytes.toSigned word ∧ Bytes.toSigned word ≤ 2147483647 := by
    have hlt := word.toNat_lt
    unfold Bytes.toSigned
    split <;> omega
  rw [parseInt, numeral, Text.readSigned?_signedDecimal]
  dsimp only
  rw [if_pos hrange, Bytes.ofSigned_toSigned]

theorem Text.isBlank_of_isDigit {c : Char} (h : c.isDigit = true) : isBlank c = false := by
  have hrange := toNat_of_isDigit h
  have hall : ∀ n < 58, 48 ≤ n → covers blankRanges n = false := by decide
  exact hall c.toNat (by omega) hrange.1

theorem Console.numeral_isBlank {word : UInt32} {c : Char} (h : c ∈ numeral word) :
    Text.isBlank c = false := by
  obtain ⟨sign, negative, htext, hsign, -⟩ := Text.exists_signedDecimal (Bytes.toSigned word)
  rw [numeral, htext, List.mem_append] at h
  rcases h with h | h
  · cases hsign with
    | none => cases h
    | plus | minus =>
      rw [List.mem_singleton.1 h]
      decide
  · exact Text.isBlank_of_isDigit (Nat.isDigit_of_mem_toDigits (by decide) (by decide) h)

theorem Console.numeral_ne_nil (word : UInt32) : numeral word ≠ [] := by
  obtain ⟨sign, negative, htext, -⟩ := Text.exists_signedDecimal (Bytes.toSigned word)
  rw [numeral, htext]
  exact List.append_ne_nil_of_right_ne_nil _ Nat.toDigits_ne_nil

/-- The words of what was written, for any blanks that are White_Space and among them the line
feed. -/
theorem Console.isWords_intLines {blank : Char → Bool}
    (hblank : ∀ {c}, blank c = true → Text.isBlank c = true) (hnewline : blank '\n' = true)
    (words : List UInt32) :
    Text.IsWords blank (intLines words).toList (words.map numeral) := by
  rw [toList_intLines]
  induction words with
  | nil => exact .nil
  | cons word words ih =>
    rw [List.flatMap_cons, List.append_assoc, List.map_cons]
    refine .word (numeral_ne_nil word) (fun c hc => ?_) ?_ (.blank hnewline ih)
    · rw [← Bool.not_eq_true]
      intro h
      exact Bool.false_ne_true ((numeral_isBlank hc).symm.trans (hblank h))
    · rintro _ ⟨⟩
      exact hnewline

/-- The calls that find the numerals of integers are answered with these, and those behind them with
zeros. -/
theorem ReadCall.answers_numerals (words : List UInt32) (k : Nat) :
    (List.replicate (words.length + k) ReadCall.int).mapIdx
        (fun i call => call.answer (words.map numeral)[i]?) = words ++ List.replicate k 0 := by
  refine List.ext_getElem? fun i => ?_
  rw [List.getElem?_mapIdx, List.getElem?_map, List.getElem?_append]
  by_cases hi : i < words.length
  · rw [List.getElem?_replicate_of_lt (by omega), List.getElem?_eq_getElem hi, if_pos hi]
    exact congrArg some (parseInt_numeral _)
  · rw [List.getElem?_eq_none (Nat.not_lt.1 hi), if_neg hi, List.getElem?_replicate,
      List.getElem?_replicate]
    by_cases hk : i < words.length + k
    · rw [if_pos hk, if_pos (by omega)]
      rfl
    · rw [if_neg hk, if_neg (by omega)]
      rfl

/-- Integers of 32 bits, told by their bits, that were written one after the other to a new console,
a buffered one or a stream with unlimited output, make the same text on both. From this text they
are read back, and behind them zeros, by a buffered console as by a stream, whichever way its bytes
are cut into chunks and interrupted. -/
theorem answers_intLines (words : List UInt32) {buffered : BufferedConsole}
    {streaming : StreamingConsole} (hbuffered : buffered.output = "")
    (hstreaming : streaming.output = "") (hlimit : streaming.limit = none) :
    let text := (writeInts words buffered).2.output
    (writeInts words buffered).1 = none ∧ (writeInts words streaming).1 = none ∧
    (writeInts words streaming).2.output = text ∧
    ∀ k,
      answers (BufferedConsole.ofText text) (List.replicate (words.length + k) .int) =
        words ++ List.replicate k 0 ∧
      ∀ events output limit, StreamingConsole.Unbroken events →
        StreamingConsole.pending events = (Bytes.ofString text).toList →
        answers (⟨events, output, limit⟩ : StreamingConsole)
          (List.replicate (words.length + k) .int) = words ++ List.replicate k 0 := by
  rw [BufferedConsole.writeInts_eq, StreamingConsole.writeInts_eq words hlimit, hbuffered,
    hstreaming, String.empty_append]
  refine ⟨rfl, rfl, rfl, fun k => ⟨?_, fun events output limit hevents hpending => ?_⟩⟩
  · have hwords := (isWords_intLines id (by decide) words).wordsBy_eq
    rw [BufferedConsole.answers_eq, BufferedConsole.ofText, Text.words_eq_wordsBy, hwords]
    exact ReadCall.answers_numerals words k
  · have hnewline : Text.isPlainBlank '\n' = true := by decide
    have hwords :=
      (isWords_intLines Text.isBlank_of_isPlainBlank hnewline words).wordsBy_eq
    rw [StreamingConsole.answers_of_text hevents hpending, hwords]
    exact ReadCall.answers_numerals words k

/-- Both ends of the range, one of them cut into two chunks. -/
theorem answers_intLines_limits :
    let words : List UInt32 := [Bytes.ofSigned (-2147483648), 2147483647]
    let text := "-2147483648\n2147483647\n"
    let events : List StreamEvent := [.chunk ((Bytes.ofString text).toList.take 5), .interrupted,
      .chunk ((Bytes.ofString text).toList.drop 5)]
    (writeInts words (⟨[], "", none⟩ : StreamingConsole)).2.output = text ∧
      answers (BufferedConsole.ofText text) [.int, .int, .int] = words ++ [0] ∧
      answers (⟨events, "", some 0⟩ : StreamingConsole) [.int, .int, .int] = words ++ [0] := by
  intro words text events
  have hwritten : (writeInts words (BufferedConsole.ofText "")).2.output = text := by
    decide +kernel
  have hbuffered : (BufferedConsole.ofText "").output = "" := rfl
  have hstreaming : (⟨[], "", none⟩ : StreamingConsole).output = "" := rfl
  have hlimit : (⟨[], "", none⟩ : StreamingConsole).limit = none := rfl
  obtain ⟨-, -, hsame, hread⟩ := answers_intLines words hbuffered hstreaming hlimit
  rw [hwritten] at hsame hread
  obtain ⟨hread, hread'⟩ := hread 1
  exact ⟨hsame, hread, hread' events "" (some 0) (by decide) (by decide +kernel)⟩

end StackMachine
