import StackMachine.CommandLine.Execute
import StackMachine.Proofs.Instruction.RawColumn

/-!
# Listings on the command line

A listing is printed in two ways: to its end, with a failure as one more line, or up to its failure,
which is then told apart from what was printed. As a failure is the last item of a listing, the two
ways print the same lines.

* `toText_eq_printAll`, `disassemble_eq_printUpTo`: a listing as a text, and the command, print the
  items of the listing in these ways.
* `printUpTo_agrees`: going on to the end adds the failure, and nothing else.
* `disassemble_eq_toText`: what the command prints, what it leaves to the failure, and that the
  image can be read back from it.
-/

namespace StackMachine.CommandLine

open Listing

variable {palette : Palette}

/-- A listing has no failure if none of its items is one. -/
theorem failure_eq_none_iff {listing : Listing} :
    listing.failure = none ↔ ∀ offset, .error offset ∉ listing.items := by
  cases hfailure : listing.failure <;> simp [items, hfailure]

/-! ## Two ways of printing -/

/-- The text of an item, without a line feed. -/
def itemText (palette : Palette) : Item → String
  | .ok line => line.toText palette
  | .error offset => palette.fault ++ failureMessage offset ++ palette.reset

/-- Print all items behind a text, each with a line feed behind. -/
def printAll (palette : Palette) (text : String) : List Item → String
  | [] => text
  | item :: items => printAll palette (text ++ itemText palette item ++ "\n") items

/-- Print items behind a text, up to the first failure. -/
def printUpTo (palette : Palette) (text : String) : List Item → Except CommandError String
  | [] => .ok text
  | .ok line :: items => printUpTo palette (text ++ line.toText palette ++ "\n") items
  | .error offset :: _ => .error (.listing text offset)

theorem printAll_lines (text : String) (lines : List ListingLine) (items : List Item) :
    printAll palette text (lines.map .ok ++ items) =
      printAll palette
        (lines.foldl (fun text line => text ++ line.toText palette ++ "\n") text) items := by
  induction lines generalizing text with
  | nil => rfl
  | cons line lines ih => exact ih _

theorem printUpTo_lines (text : String) (lines : List ListingLine) (items : List Item) :
    printUpTo palette text (lines.map .ok ++ items) =
      printUpTo palette
        (lines.foldl (fun text line => text ++ line.toText palette ++ "\n") text) items := by
  induction lines generalizing text with
  | nil => rfl
  | cons line lines ih => exact ih _

/-- The text of a listing is what printing all of its items gives. -/
theorem toText_eq_printAll (palette : Palette) (listing : Listing) :
    listing.toText palette = printAll palette "" listing.items := by
  rw [toText, linesText, ← Array.foldl_toList, items, printAll_lines]
  cases listing.failure with
  | none => rfl
  | some offset => simp [printAll, itemText, String.append_assoc]

/-- The two ways of printing agree. Printing up to a failure gives a text exactly if there is none,
and then printing to the end gives the same text. Else printing to the end gives what was printed up
to the failure, and behind it the message of the failure in its own color and a line feed. -/
theorem printUpTo_agrees (palette : Palette) (listing : Listing) :
    ((∃ text, printUpTo palette "" listing.items = .ok text) ↔ listing.failure = none) ∧
    (∀ text, printUpTo palette "" listing.items = .ok text →
      text = printAll palette "" listing.items) ∧
    ∀ e, printUpTo palette "" listing.items = .error e → ∃ shown offset,
      e = .listing shown offset ∧ listing.failure = some offset ∧
        shown ++ palette.fault ++ e.message ++ palette.reset ++ "\n" =
          printAll palette "" listing.items := by
  rw [items, printUpTo_lines, printAll_lines]
  cases listing.failure with
  | none =>
    refine ⟨iff_of_true ⟨_, rfl⟩ rfl, fun text h => ?_, fun e h => ?_⟩
    · cases h
      rfl
    · cases h
  | some offset =>
    refine ⟨iff_of_false ?_ (Option.some_ne_none offset), fun text h => ?_, fun e h => ?_⟩
    · rintro ⟨text, h⟩
      cases h
    · cases h
    · cases h
      refine ⟨_, offset, rfl, rfl, ?_⟩
      simp [printAll, itemText, CommandError.message, String.append_assoc]

/-! ## The command -/

section

variable {store : FileStore} {path : String} {bytes : Bytes}

/-- The command prints the items up to the first failure. -/
theorem disassemble_eq_printUpTo (h : store.read path = .ok bytes) (palette : Palette) :
    disassemble store path palette =
      printUpTo palette "" (ofBytes Registry.standard bytes).items := by
  rw [disassemble, h, items, printUpTo_lines, Array.foldl_toList]
  dsimp only
  cases (ofBytes Registry.standard bytes).failure <;> rfl

/-- The command gives a text exactly if nothing fails in the listing of the image, and then the
text of the listing. Else it fails with the part in front of the failure; with the message of the
failure in its own color and a line feed behind, this is the text of the listing again. From the
text without colors of a listing without a failure the image can be read back, so no other image has
this text. -/
theorem disassemble_eq_toText (hread : store.read path = .ok bytes) (palette : Palette) :
    let listing := ofBytes Registry.standard bytes
    ((∃ text, disassemble store path palette = .ok text) ↔
      ∀ offset, .error offset ∉ listing.items) ∧
    (∀ text, disassemble store path palette = .ok text → text = listing.toText palette) ∧
    (∀ e, disassemble store path palette = .error e → ∃ shown offset,
      e = .listing shown offset ∧ .error offset ∈ listing.items ∧
        shown ++ palette.fault ++ e.message ++ palette.reset ++ "\n" = listing.toText palette) ∧
    ((∀ offset, .error offset ∉ listing.items) →
      bytesOfText? (listing.toText Palette.plain) = some bytes.toList ∧
      ∀ other, (ofBytes Registry.standard other).toText Palette.plain =
        listing.toText Palette.plain → other = bytes) := by
  intro listing
  obtain ⟨hok, hsame, herror⟩ := printUpTo_agrees palette listing
  rw [← disassemble_eq_printUpTo hread] at hok hsame herror
  rw [← toText_eq_printAll] at hsame herror
  refine ⟨hok.trans failure_eq_none_iff, hsame, fun e h => ?_, fun hitems => ?_⟩
  · obtain ⟨shown, offset, rfl, hfailure, htext⟩ := herror e h
    exact ⟨shown, offset, rfl, by simp [items, hfailure], htext⟩
  · have hnone := failure_eq_none_iff.2 hitems
    exact ⟨(bytesOfText?_toText bytes).trans (if_pos hnone),
      fun other hother => eq_of_toText_eq hnone hother⟩

end

/-- The only file of a store is read by its name. -/
theorem read_singleton (content : Bytes) :
    FileStore.read ⟨[(["a"], .file content)]⟩ "a" = .ok content := by
  have hcheck : FileStore.checkPath "a" = .ok () := by decide +kernel
  have horigin : FileStore.origin "a" = [] := by decide +kernel
  have hslash : FileStore.endsWithSlash "a" = false := by decide +kernel
  have hcomponents : FileStore.components "a" = ["a"] := by
    rw [FileStore.components, String.splitOn, if_neg (by decide), String.splitOnAux,
      if_neg (by decide), if_neg (by decide), String.splitOnAux, if_pos (by decide)]
    decide
  have hwalk : FileStore.walk ⟨[(["a"], .file content)]⟩ [] ["a"] = .ok ["a"] := rfl
  have hentry : FileStore.lookup? ⟨[(["a"], .file content)]⟩ ["a"] = some (.file content) := by
    simp [FileStore.lookup?, FileStore.isBase]
  simp only [FileStore.read, hcheck, horigin, hcomponents]
  simp [bind, Except.bind, hwalk, hentry, hslash, pure, Except.pure]

/-- The image of a program that ends at once, and one with an opcode that is not known. -/
theorem disassemble_eq_toText_unknown :
    let known : Bytes := #[70, 82, 68, 89, 1, 0, 4, 0, 0]
    let unknown : Bytes := #[70, 82, 68, 89, 1, 0, 4, 0, 238]
    let store (bytes : Bytes) : FileStore := ⟨[(["a"], .file bytes)]⟩
    ((store known).read "a" = .ok known ∧ (store unknown).read "a" = .ok unknown) ∧
      (∃ text, disassemble (store known) "a" Palette.plain = .ok text) ∧
      ¬ ∃ text, disassemble (store unknown) "a" Palette.plain = .ok text := by
  intro known unknown store
  have hread (bytes : Bytes) : (store bytes).read "a" = .ok bytes := read_singleton bytes
  have hmagic : (Header.ofBytes? known).filter Header.hasMagic ≠ none :=
    mt header_eq_none_iff.1 (by decide)
  have hmagic' : (Header.ofBytes? unknown).filter Header.hasMagic ≠ none :=
    mt header_eq_none_iff.1 (by decide)
  obtain ⟨header, hheader⟩ := Option.ne_none_iff_exists'.1 hmagic
  obtain ⟨header', hheader'⟩ := Option.ne_none_iff_exists'.1 hmagic'
  have hnone : (ofBytes Registry.standard known).failure = none := by
    have hbyte : known[Header.size]? = some 0 := rfl
    have hopcode : Registry.standard.byOpcode? 0 = some ⟨"end", 0, [], .halt⟩ := by decide +kernel
    obtain ⟨operands, -, hdecode⟩ := Instruction.decode_of_fits hbyte hopcode (by decide)
    rw [ofBytes_of_header hheader, readFrom_of_decode (by decide) hdecode,
      readFrom_of_size_le (Nat.le_refl 9)]
  have hsome : (ofBytes Registry.standard unknown).failure = some Header.size := by
    have hbyte : unknown[Header.size]? = some 238 := rfl
    have hopcode : Registry.standard.byOpcode? 238 = none := by decide +kernel
    have hdecode := Instruction.decode_of_unknown hbyte hopcode
    rw [ofBytes_of_header hheader', readFrom_of_error (by decide) hdecode]
  refine ⟨⟨hread known, hread unknown⟩, ?_, ?_⟩
  · exact (disassemble_eq_toText (hread known) Palette.plain).1.2 (failure_eq_none_iff.1 hnone)
  · rw [(disassemble_eq_toText (hread unknown) Palette.plain).1, ← failure_eq_none_iff, hsome]
    simp

end StackMachine.CommandLine
