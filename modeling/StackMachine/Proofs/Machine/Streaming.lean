import StackMachine.Proofs.Binary32.Reading
import StackMachine.Proofs.Machine.Reading

/-!
# Numbers that are read from a stream

A stream is read by attempts, each of which gives a chunk, is interrupted, or finds the end. As long
as none of them ends a word by itself, what a call is answered depends on the bytes alone: the call
with some number reads the longest run of bytes with this number, from one blank to the next.

* `ReadCall.Reads`: the texts that a call reads as a number, with the number.
* `StreamingConsole.scanWithin_eq`: a word has ended after one attempt for each event, and one more.
* `StreamingConsole.answers_runs`: what each call is answered.
-/

namespace StackMachine

open Console

/-! ## The numbers of a call -/

namespace ReadCall

/-- That a call reads a text as a number, which it tells by its bits: an integer of 32 bits in
decimal digits, or what denotes a float. -/
inductive Reads : ReadCall → List Char → UInt32 → Prop
  | int {sign digits : List Char} {negative : Bool} {n : Nat} :
      Text.IsSign sign negative → Text.IsNumeral 10 digits n →
      -2 ^ 31 ≤ Text.applySign negative n → Text.applySign negative n < 2 ^ 31 →
      Reads .int (sign ++ digits) (Bytes.ofSigned (Text.applySign negative n))
  | float {cs : List Char} {bits : UInt32} :
      Binary32.Denotes cs bits → Reads .float cs bits

variable {call : ReadCall} {cs : List Char} {bits : UInt32}

theorem parse_of_reads (h : call.Reads cs bits) : call.parse cs = bits := by
  cases h with
  | @int sign digits negative n hsign hdigits hlow hhigh =>
    have hread := Text.readSigned?_eq_some_iff.2
      ⟨sign, digits, negative, n, rfl, hsign, hdigits, rfl⟩
    rw [parse, parseInt, hread]
    exact if_pos ⟨hlow, Int.lt_add_one_iff.1 hhigh⟩
  | float h =>
    rw [parse, parseFloat, Binary32.read?_eq_some_iff.2 h]
    rfl

/-- What is no number is read as zero. -/
theorem parse_of_not_reads (h : ∀ bits, ¬ call.Reads cs bits) : call.parse cs = 0 := by
  cases call with
  | int =>
    rw [parse, parseInt]
    split
    · next v hread =>
      obtain ⟨sign, digits, negative, n, rfl, hsign, hdigits, rfl⟩ :=
        Text.readSigned?_eq_some_iff.1 hread
      rw [if_neg]
      rintro ⟨hlow, hhigh⟩
      exact h _ (.int hsign hdigits hlow (Int.lt_add_one_iff.2 hhigh))
    · rfl
  | float =>
    rw [parse, parseFloat]
    cases hread : Binary32.read? cs with
    | none => rfl
    | some bits => exact absurd (.float (Binary32.read?_eq_some_iff.1 hread)) (h bits)

/-- That a call reads the longest run of bytes between blanks that has a number, from zero on. -/
def ReadsRun (call : ReadCall) (input : List UInt8) (i : Nat) (bits : UInt32) : Prop :=
  ∃ front cs back, Text.IsRun (fun b => !Text.isBlankByte b) input front (Text.encode cs) back ∧
    (Text.wordsBy Text.isBlankByte front).length = i ∧ call.Reads cs bits

end ReadCall

namespace StreamingConsole

variable {events : List StreamEvent}

/-! ## Attempts -/

/-- Go on reading a word by a limited number of attempts. -/
def scanWithin : Nat → List UInt8 → List StreamEvent → Option (List UInt8 × List StreamEvent)
  | 0, _, _ => none
  | _ + 1, word, [] => some (word, [])
  | n + 1, word, event :: rest =>
    match attempt word event with
    | (word, none) => scanWithin n word rest
    | (word, some left) => some (word, behind left rest)

/-- Each attempt takes an event, or ends the word. -/
theorem scanWithin_eq {n : Nat} (h : events.length < n) (word : List UInt8) :
    scanWithin n word events = some (scan word events) := by
  induction n generalizing word events with
  | zero => exact absurd h (Nat.not_lt_zero _)
  | succ n ih =>
    cases events with
    | nil => rfl
    | cons event events =>
      rw [scanWithin, scan]
      cases attempt word event with
      | mk word left =>
        cases left with
        | some left => rfl
        | none => exact ih (Nat.lt_of_succ_lt_succ h) word

/-! ## Answers -/

theorem text?_eq_some_iff {word : List UInt8} {cs : List Char} :
    text? word = some cs ↔ word = Text.encode cs := by
  constructor
  · intro h
    rw [text?] at h
    split at h
    · next text hdecode =>
      cases h
      exact Text.decode_eq_ok_iff.1 hdecode
    · cases h
  · rintro rfl
    exact text?_encode cs

variable {call : ReadCall} {input : List UInt8} {i : Nat} {bits : UInt32}

theorem answer_of_readsRun (h : call.ReadsRun input i bits) :
    call.answer ((Text.wordsBy Text.isBlankByte input)[i]?.bind text?) = bits := by
  obtain ⟨front, cs, back, hrun, hcount, hreads⟩ := h
  rw [Text.getElem?_wordsBy_iff.2 ⟨front, back, hrun, hcount⟩, Option.bind_some, text?_encode]
  exact ReadCall.parse_of_reads hreads

theorem answer_of_not_readsRun (h : ∀ bits, ¬ call.ReadsRun input i bits) :
    call.answer ((Text.wordsBy Text.isBlankByte input)[i]?.bind text?) = 0 := by
  cases htext : (Text.wordsBy Text.isBlankByte input)[i]?.bind text? with
  | none => rfl
  | some cs =>
    obtain ⟨word, hword, hcs⟩ := Option.bind_eq_some_iff.1 htext
    obtain rfl := text?_eq_some_iff.1 hcs
    obtain ⟨front, back, hrun, hcount⟩ := Text.getElem?_wordsBy_iff.1 hword
    exact ReadCall.parse_of_not_reads fun bits hreads =>
      h bits ⟨front, cs, back, hrun, hcount, hreads⟩

/-- A stream whose attempts give one input, cut and interrupted in any way: the answer to the call
with some number is what this call reads in the run of bytes with this number, and zero if there is
no such run, or if it is no text or no number that the call asks for. So any other stream of the
same bytes gives the same answers. However a stream goes on, a word has ended after one attempt for
each event that is left, and one more. -/
theorem answers_runs (hevents : Unbroken events) (output : String) (limit : Option Nat)
    (calls : List ReadCall) :
    let console : StreamingConsole := ⟨events, output, limit⟩
    (answers console calls).length = calls.length ∧
    (∀ (i : Nat) (call : ReadCall), calls[i]? = some call →
      (∀ bits, call.ReadsRun (pending events) i bits →
        (answers console calls)[i]? = some bits) ∧
      ((∀ bits, ¬ call.ReadsRun (pending events) i bits) →
        (answers console calls)[i]? = some 0)) ∧
    (∀ events' output' limit', Unbroken events' → pending events' = pending events →
      answers (⟨events', output', limit'⟩ : StreamingConsole) calls = answers console calls) ∧
    ∀ (word : List UInt8) (left : List StreamEvent) (n : Nat), left.length < n →
      scanWithin n word left = some (scan word left) := by
  intro console
  have hanswers : answers console calls = calls.mapIdx fun i call =>
      call.answer ((Text.wordsBy Text.isBlankByte (pending events))[i]?.bind text?) :=
    answers_eq hevents (Text.isWords_iff.2 rfl) calls
  refine ⟨?_, fun i call hcall => ⟨fun bits h => ?_, fun h => ?_⟩, ?_, ?_⟩
  · rw [hanswers, List.length_mapIdx]
  · rw [hanswers, List.getElem?_mapIdx, hcall, Option.map_some, answer_of_readsRun h]
  · rw [hanswers, List.getElem?_mapIdx, hcall, Option.map_some, answer_of_not_readsRun h]
  · intro events' output' limit' hevents' hpending
    rw [hanswers]
    exact answers_eq hevents' (Text.isWords_iff.2 (congrArg _ hpending)) calls
  · intro word left n h
    exact scanWithin_eq h word

/-- A number that is cut by an interruption, and another one behind it. -/
theorem answers_runs_interrupted :
    let events : List StreamEvent := [.chunk [0x20, 0x2d, 0x31], .interrupted,
      .chunk [0x32, 0x0a, 0x30]]
    let whole : List StreamEvent := [.chunk [0x20, 0x2d, 0x31, 0x32, 0x0a, 0x30]]
    Unbroken events ∧
      (answers (⟨events, "", none⟩ : StreamingConsole) [.int, .float])[0]? =
        some (Bytes.ofSigned (-12)) ∧
      ∀ calls, answers (⟨whole, "", none⟩ : StreamingConsole) calls =
        answers (⟨events, "", none⟩ : StreamingConsole) calls := by
  intro events whole
  have hevents : Unbroken events := by decide
  have hrun : Text.IsRun (fun b => !Text.isBlankByte b) (pending events) [0x20]
      (Text.encode ['-', '1', '2']) [0x0a, 0x30] := by
    refine ⟨by decide, by decide, List.all_eq_true.1 (by decide), ?_, ?_⟩
    · rintro _ ⟨⟩
      decide
    · rintro _ ⟨⟩
      decide
  have hdigits : Text.IsNumeral 10 ['1', '2'] 12 := Text.readDecimal?_eq_some_iff.1 (by decide)
  have hreads : ReadCall.int.Reads ['-', '1', '2'] (Bytes.ofSigned (-12)) :=
    .int .minus hdigits (by decide) (by decide)
  obtain ⟨-, hanswers, -⟩ := answers_runs hevents "" none [.int, .float]
  refine ⟨hevents, ?_, fun calls => ?_⟩
  · exact (hanswers 0 .int rfl).1 _ ⟨[0x20], ['-', '1', '2'], [0x0a, 0x30], hrun, by decide, hreads⟩
  · exact (answers_runs hevents "" none calls).2.2.1 whole "" none (by decide) (by decide)

end StreamingConsole

end StackMachine
