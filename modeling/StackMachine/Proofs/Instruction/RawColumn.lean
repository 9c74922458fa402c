import StackMachine.Proofs.Assembly.Reassembly
import StackMachine.Proofs.Instruction.Coverage
import StackMachine.Proofs.Text.Numerals

/-!
# Reading a listing back

The text of a listing holds the image that it lists: each line has the raw bytes that it shows
between its first two tabs, in hexadecimal, with spaces between the pairs and behind them. The line
of a failure has no tabs.

* `hexBytes?_flatMap_hex`: two digits for each byte are read back as the bytes.
* `rawOfText?_toText`: the raw bytes of a line are read back from its text.
* `bytesOfText?_toText`: from the text of a whole listing the image is read back, if it has no
  failure, and nothing if it has one.
* `eq_of_toText_eq`: so the text of a listing without a failure belongs to one image only.
-/

namespace StackMachine

/-! ## Bytes in hexadecimal -/

namespace Text

/-- The bytes that are given by two hexadecimal digits each. -/
def hexBytes? : List Char → Option (List UInt8)
  | [] => some []
  | [_] => none
  | c :: d :: rest => do
    let high ← hexDigit? c
    let low ← hexDigit? d
    return UInt8.ofNat (16 * high + low) :: (← hexBytes? rest)

theorem hexDigit?_digitChar : ∀ k < 16, hexDigit? (Nat.digitChar k) = some k := by
  decide

/-- A number of one byte has two digits. -/
theorem toList_hex_two {n : Nat} (h : n < 256) :
    (hex 2 n).toList = [Nat.digitChar (n / 16), Nat.digitChar (n % 16)] := by
  rw [hex, String.toList_ofList, padLeft, Nat.toDigits_eq_if (by decide)]
  split
  · next hlow =>
    rw [Nat.div_eq_of_lt hlow, Nat.mod_eq_of_lt hlow]
    rfl
  · rw [Nat.toDigits_of_lt_base (by omega)]
    rfl

theorem hexBytes?_hex (b : UInt8) (rest : List Char) :
    hexBytes? ((hex 2 b.toNat).toList ++ rest) = (hexBytes? rest).map (b :: ·) := by
  have hlt : b.toNat < 256 := b.toNat_lt
  have hbyte : 16 * (b.toNat / 16) + b.toNat % 16 = b.toNat := Nat.div_add_mod _ _
  rw [toList_hex_two hlt, List.cons_append, List.singleton_append, hexBytes?,
    hexDigit?_digitChar _ (by omega), hexDigit?_digitChar _ (by omega)]
  simp only [Option.bind_eq_bind, Option.bind_some, hbyte, UInt8.ofNat_toNat]
  cases hexBytes? rest <;> rfl

theorem hexBytes?_flatMap_hex (l : List UInt8) :
    hexBytes? (l.flatMap fun b => (hex 2 b.toNat).toList) = some l := by
  induction l with
  | nil => rfl
  | cons b l ih => rw [List.flatMap_cons, hexBytes?_hex, ih, Option.map_some]

/-- There are no blanks and controls among hexadecimal digits. -/
theorem notMem_hex {c : Char} (hc : Assembly.isPrinted c = false) (width n : Nat) :
    c ∉ (hex width n).toList := by
  intro hmem
  have hprinted := List.all_eq_true.1 (Assembly.all_isPrinted_hex width n) c hmem
  rw [hc] at hprinted
  cases hprinted

end Text

namespace ListingLine

/-! ## The column of a line -/

open Assembly

/-- The part of a line between its first two tabs. -/
def secondColumn? (line : List Char) : Option (List Char) :=
  match line.dropWhile (· != '\t') with
  | [] => none
  | _ :: rest => some (rest.takeWhile (· != '\t'))

/-- The bytes that are given in the column of raw bytes. -/
def rawOfText? (line : List Char) : Option (List UInt8) := do
  Text.hexBytes? ((← secondColumn? line).filter (· != ' '))

theorem ne_of_notMem {c : Char} {cs : List Char} (h : c ∉ cs) : ∀ d ∈ cs, (d != c) = true := by
  intro d hd
  rw [bne_iff_ne]
  rintro rfl
  exact h hd

theorem secondColumn?_of_tabs {front column : List Char} (hfront : '\t' ∉ front)
    (hcolumn : '\t' ∉ column) (rest : List Char) :
    secondColumn? (front ++ '\t' :: (column ++ '\t' :: rest)) = some column := by
  have hdrop := (Text.takeWhile_append_of_head (r := '\t' :: (column ++ '\t' :: rest))
    (ne_of_notMem hfront) (by simp)).2
  have htake := (Text.takeWhile_append_of_head (r := '\t' :: rest)
    (ne_of_notMem hcolumn) (by simp)).1
  rw [secondColumn?, hdrop]
  exact congrArg some htake

theorem secondColumn?_of_no_tab {line : List Char} (h : '\t' ∉ line) :
    secondColumn? line = none := by
  have hdrop : line.dropWhile (· != '\t') = [] := List.dropWhile_eq_nil_iff.2 (ne_of_notMem h)
  rw [secondColumn?, hdrop]

theorem filter_hex (width n : Nat) :
    (Text.hex width n).toList.filter (· != ' ') = (Text.hex width n).toList := by
  rw [List.filter_eq_self]
  intro c hc
  rw [bne_iff_ne]
  rintro rfl
  exact Text.notMem_hex (by decide) width n hc

theorem filter_rawPairs (l : List UInt8) :
    (rawPairs l).filter (· != ' ') = l.flatMap fun b => (Text.hex 2 b.toNat).toList := by
  induction l using rawPairs.induct with
  | case1 => rfl
  | case2 b => simp [rawPairs, filter_hex]
  | case3 b c => simp [rawPairs, filter_hex]
  | case4 b c rest hrest ih => simp [rawPairs, filter_hex, ih]

/-- Behind the pairs of digits there are only spaces. -/
theorem hexBytes?_rawColumn (raw : Bytes) :
    Text.hexBytes? ((rawColumn raw).toList.filter (· != ' ')) = some raw.toList := by
  rw [rawColumn, String.toList_ofList, Text.padRight, List.filter_append, filter_rawPairs,
    List.filter_replicate]
  simp [Text.hexBytes?_flatMap_hex]

theorem notMem_rawPairs {c : Char} (hc : isPrinted c = false) (hspace : c ≠ ' ')
    (l : List UInt8) : c ∉ rawPairs l := by
  induction l using rawPairs.induct with
  | case1 => exact List.not_mem_nil
  | case2 b => exact Text.notMem_hex hc 2 _
  | case3 b d => simp [rawPairs, Text.notMem_hex hc]
  | case4 b d rest hrest ih => simp [rawPairs, Text.notMem_hex hc, hspace, ih]

theorem notMem_rawColumn {c : Char} (hc : isPrinted c = false) (hspace : c ≠ ' ') (raw : Bytes) :
    c ∉ (rawColumn raw).toList := by
  rw [rawColumn, String.toList_ofList, Text.padRight, List.mem_append, not_or]
  exact ⟨notMem_rawPairs hc hspace _, fun hmem => hspace (List.eq_of_mem_replicate hmem)⟩

/-! ## The text of a line -/

theorem toList_margin_append (offset : Nat) (raw : Bytes) (rest : String) :
    (margin Palette.plain offset raw ++ rest).toList =
      (Text.hex 4 offset).toList ++ '\t' :: ((rawColumn raw).toList ++ '\t' :: rest.toList) := by
  simp [margin, Palette.plain]

/-- The text of a line, without colors, starts with its columns. -/
theorem exists_toList_toText (line : ListingLine) : ∃ offset rest,
    (line.toText Palette.plain).toList =
      (Text.hex 4 offset).toList ++ '\t' :: ((rawColumn line.raw).toList ++ '\t' :: rest) := by
  cases line with
  | header raw fields =>
    simp only [toText, String.append_assoc, toList_margin_append]
    exact ⟨0, _, rfl⟩
  | instruction offset raw content =>
    simp only [toText, String.append_assoc, toList_margin_append]
    exact ⟨offset, _, rfl⟩

/-- The raw bytes of a line are read back from its text, whatever stands behind them. -/
theorem rawOfText?_toText (line : ListingLine) (rest : List Char) :
    rawOfText? ((line.toText Palette.plain).toList ++ rest) = some line.raw.toList := by
  obtain ⟨offset, behind, htext⟩ := line.exists_toList_toText
  have hcolumn : secondColumn? ((line.toText Palette.plain).toList ++ rest) =
      some (rawColumn line.raw).toList := by
    rw [htext, List.append_assoc, List.cons_append, List.append_assoc, List.cons_append]
    apply secondColumn?_of_tabs
    · exact Text.notMem_hex (by decide) 4 offset
    · exact notMem_rawColumn (by decide) (by decide) line.raw
  rw [rawOfText?, hcolumn]
  exact hexBytes?_rawColumn line.raw

theorem newline_notMem_margin (offset : Nat) (raw : Bytes) {rest : String}
    (hrest : '\n' ∉ rest.toList) : '\n' ∉ (margin Palette.plain offset raw ++ rest).toList := by
  have hoffset := Text.notMem_hex (c := '\n') (by decide) 4 offset
  have hcolumn := notMem_rawColumn (c := '\n') (by decide) (by decide) raw
  rw [toList_margin_append]
  simp [hoffset, hcolumn, hrest]

theorem newline_notMem_header (raw : Bytes) (fields : Header) :
    '\n' ∉ ((header raw fields).toText Palette.plain).toList := by
  have hdigits (n : Nat) : '\n' ∉ (Text.decimal n).toList := by
    rw [Text.decimal, String.toList_ofList]
    intro hmem
    exact absurd (List.all_eq_true.1 (all_isPrinted_toDigits (by decide) (by decide) n) _ hmem)
      (by decide)
  simp only [toText, String.append_assoc]
  apply newline_notMem_margin
  simp [hdigits]

/-- An instruction takes one line if its mnemonic is a word. -/
theorem newline_notMem_instruction {i : Instruction} (h : IsWord i.definition.mnemonic)
    (offset : Nat) (raw : Bytes) :
    '\n' ∉ ((instruction offset raw i).toText Palette.plain).toList := by
  simp only [toText, String.append_assoc]
  apply newline_notMem_margin
  have hoperands : '\n' ∉ (String.intercalate "," (i.operands.map fun operand =>
      " " ++ (Palette.plain.operand ++ (operand.toText ++ Palette.plain.reset)))).toList := by
    apply notMem_intercalate (by decide)
    intro word hword
    obtain ⟨operand, -, rfl⟩ := List.mem_map.1 hword
    simp [Palette.plain, operand.isWord_toText.newline_notMem]
  simp only [String.toList_append, List.mem_append, not_or]
  exact ⟨by decide, h.newline_notMem, by decide, hoperands⟩

end ListingLine

namespace Listing

open Assembly ListingLine

/-! ## The text of a listing -/

/-- The bytes that are given in the columns of raw bytes of all lines. -/
def bytesOfText? (text : String) : Option (List UInt8) :=
  ((SourceLine.pieces text.toList).mapM rawOfText?).map List.flatten

/-- A line and its line feed, one after the other. -/
theorem toList_foldl (palette : Palette) (lines : List ListingLine) (text : String) :
    (lines.foldl (fun text line => text ++ line.toText palette ++ "\n") text).toList =
      text.toList ++ lines.flatMap fun line => (line.toText palette).toList ++ ['\n'] := by
  induction lines generalizing text with
  | nil => simp
  | cons line lines ih =>
    rw [List.foldl_cons, ih, List.flatMap_cons]
    simp

theorem toList_linesText (palette : Palette) (listing : Listing) :
    (listing.linesText palette).toList =
      listing.lines.toList.flatMap fun line => (line.toText palette).toList ++ ['\n'] := by
  rw [linesText, ← Array.foldl_toList, toList_foldl, String.toList_empty, List.nil_append]

/-- Lines without line feeds inside are the pieces of their text. -/
theorem pieces_flatMap {lines : List ListingLine}
    (hlines : ∀ line ∈ lines, '\n' ∉ (line.toText Palette.plain).toList) (rest : List Char) :
    SourceLine.pieces ((lines.flatMap fun line =>
        (line.toText Palette.plain).toList ++ ['\n']) ++ rest) =
      (lines.map fun line => (line.toText Palette.plain).toList ++ ['\n']) ++
        SourceLine.pieces rest := by
  induction lines with
  | nil => rfl
  | cons line lines ih =>
    rw [List.forall_mem_cons] at hlines
    rw [List.flatMap_cons, List.append_assoc, List.append_assoc, List.singleton_append,
      SourceLine.pieces_append_newline hlines.1, ih hlines.2, List.map_cons, List.cons_append]

theorem mapM_rawOfText? (lines : List ListingLine) :
    (lines.map fun line => (line.toText Palette.plain).toList ++ ['\n']).mapM rawOfText? =
      some (lines.map fun line => line.raw.toList) := by
  induction lines with
  | nil => rfl
  | cons line lines ih =>
    rw [List.map_cons, List.mapM_cons, ih, rawOfText?_toText]
    rfl

/-- From the text of lines their raw bytes are read back. -/
theorem bytesOfText?_linesText {listing : Listing}
    (hlines : ∀ line ∈ listing.lines.toList, '\n' ∉ (line.toText Palette.plain).toList) :
    bytesOfText? (listing.linesText Palette.plain) =
      some (listing.lines.toList.flatMap fun line => line.raw.toList) := by
  have hpieces := pieces_flatMap hlines []
  have hnil : SourceLine.pieces [] = [] := rfl
  rw [List.append_nil, hnil, List.append_nil] at hpieces
  rw [bytesOfText?, toList_linesText, hpieces, mapM_rawOfText?, Option.map_some, List.flatMap_def]

theorem notMem_failureMessage {c : Char} (hc : isPrinted c = false) (hspace : c ≠ ' ')
    (offset : Nat) : c ∉ (failureMessage offset).toList := by
  have hwords : ("<file_start+" ++ "> error reading instruction or header").toList.all
      (fun d => isPrinted d || d == ' ') = true := by
    decide
  have hword : c ∉ ("<file_start+" ++ "> error reading instruction or header").toList := by
    intro hmem
    have hd := List.all_eq_true.1 hwords c hmem
    simp [hc, hspace] at hd
  rw [String.toList_append, List.mem_append, not_or] at hword
  simp only [failureMessage, String.toList_append, List.mem_append, not_or]
  exact ⟨⟨hword.1, Text.notMem_hex hc 4 offset⟩, hword.2⟩

/-- Nothing is read back from a text that ends with the line of a failure. -/
theorem bytesOfText?_failure {listing : Listing} {offset : Nat}
    (hlines : ∀ line ∈ listing.lines.toList, '\n' ∉ (line.toText Palette.plain).toList) :
    bytesOfText? (listing.linesText Palette.plain ++ failureMessage offset ++ "\n") = none := by
  have hlast : SourceLine.pieces ((failureMessage offset).toList ++ ['\n']) =
      [(failureMessage offset).toList ++ ['\n']] :=
    SourceLine.pieces_append_newline (notMem_failureMessage (by decide) (by decide) offset) []
  have hraw : rawOfText? ((failureMessage offset).toList ++ ['\n']) = none := by
    have htab : '\t' ∉ (failureMessage offset).toList ++ ['\n'] := by
      rw [List.mem_append, not_or]
      exact ⟨notMem_failureMessage (by decide) (by decide) offset, by decide⟩
    rw [rawOfText?, secondColumn?_of_no_tab htab]
    rfl
  have htext : (listing.linesText Palette.plain ++ failureMessage offset ++ "\n").toList =
      (listing.lines.toList.flatMap fun line => (line.toText Palette.plain).toList ++ ['\n']) ++
        ((failureMessage offset).toList ++ ['\n']) := by
    simp [toList_linesText]
  rw [bytesOfText?, htext, pieces_flatMap hlines, hlast, List.mapM_append, mapM_rawOfText?,
    List.mapM_cons, hraw]
  rfl

/-- The standard mnemonics are words, so no line that shows one has a line feed inside. -/
theorem Covers.newline_notMem {bytes : Bytes} {offset stop : Nat} {lines : List ListingLine}
    (h : Covers Registry.standard bytes offset lines stop) :
    ∀ line ∈ lines, '\n' ∉ (line.toText Palette.plain).toList := by
  induction h with
  | nil => simp
  | @cons offset stop i lines hdecode hrest ih =>
    obtain ⟨opcode, -, hopcode, -⟩ := Instruction.decode_eq_ok hdecode
    obtain ⟨hmem, -⟩ := Registry.standard_built.consistent.mem_of_byOpcode? hopcode
    obtain ⟨hne, hprinted, -⟩ := Definition.standard_printed _ (Registry.mem_standard hmem)
    rw [List.forall_mem_cons]
    exact ⟨newline_notMem_instruction (isWord_of_isPrinted hne hprinted) _ _, ih⟩

theorem newline_notMem_ofBytes (bytes : Bytes) :
    ∀ line ∈ (ofBytes Registry.standard bytes).lines.toList,
      '\n' ∉ (line.toText Palette.plain).toList := by
  rcases ofBytes_cases Registry.standard bytes with ⟨-, hlisting⟩ |
    ⟨header, rest, stop, failure, -, hlisting, hcovers, -⟩
  · rw [hlisting]
    simp
  · rw [hlisting, List.forall_mem_cons]
    exact ⟨newline_notMem_header _ _, hcovers.newline_notMem⟩

/-- From the text of a listing, without colors, the image is read back, exactly if there is no
failure. -/
theorem bytesOfText?_toText (bytes : Bytes) :
    let listing := ofBytes Registry.standard bytes
    bytesOfText? (listing.toText Palette.plain) =
      if listing.failure = none then some bytes.toList else none := by
  intro listing
  have hlines := newline_notMem_ofBytes bytes
  cases hfailure : listing.failure with
  | none =>
    rw [toText, hfailure, if_pos rfl]
    dsimp only
    rw [bytesOfText?_linesText hlines, flatMap_raw_ofBytes hfailure]
  | some offset =>
    have htext : listing.toText Palette.plain =
        listing.linesText Palette.plain ++ failureMessage offset ++ "\n" := by
      simp [toText, hfailure, Palette.plain]
    rw [htext, if_neg (Option.some_ne_none _)]
    exact bytesOfText?_failure hlines

/-- Two images, one of which is listed without a failure, differ in the texts of their listings. -/
theorem eq_of_toText_eq {bytes other : Bytes}
    (hfailure : (ofBytes Registry.standard bytes).failure = none)
    (htext : (ofBytes Registry.standard other).toText Palette.plain =
      (ofBytes Registry.standard bytes).toText Palette.plain) : other = bytes := by
  have hback := bytesOfText?_toText other
  dsimp only at hback
  rw [htext, bytesOfText?_toText bytes, if_pos hfailure] at hback
  split at hback
  · exact Array.toList_inj.1 (Option.some.inj hback).symm
  · cases hback

end Listing

end StackMachine
