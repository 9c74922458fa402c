import Mathlib.Data.List.SplitBy
import Mathlib.Data.List.TakeWhile
import StackMachine.Assembly.Line
import StackMachine.Text.Numeral

/-!
# What lines say, wherever they stand

The places of tokens only serve to point into a text. Without them, and without the lines that are
blank, texts that are joined by line feeds say what they say one after the other, and a text of
words with spaces between them says these words.

* `SourceLine.contents`: the lines that are not blank, without their places.
* `contents_intercalate`: the contents of texts that are joined by line feeds.
* `ofText_words`: the contents of words with spaces between them.
* `isWord_of_mem_ofText`: conversely, the words that lines consist of are such words.
-/

namespace StackMachine.Assembly

namespace Token

/-- The token, wherever it stands. -/
def unplaced (token : Token) : Token :=
  { token with span := ⟨0, 0⟩ }

/-- What a run of characters of one class says. -/
def said? (run : List Char) : Option Token :=
  (ofRun? 0 run).map unplaced

theorem ofRun?_unplaced (start : Nat) (run : List Char) :
    (ofRun? start run).map unplaced = said? run := by
  unfold said? ofRun?
  dsimp only
  split <;> rfl

theorem ofRuns_unplaced (start : Nat) (done : List Token) (runs : List (List Char)) :
    (ofRuns start done runs).map unplaced =
      done.reverse.map unplaced ++ runs.filterMap said? := by
  induction runs generalizing start done with
  | nil => simp [ofRuns]
  | cons run runs ih =>
    rw [ofRuns, List.filterMap_cons, ← ofRun?_unplaced start run]
    cases ofRun? start run with
    | none => exact ih _ _
    | some token =>
      dsimp only [Option.map_some]
      rw [ih, List.reverse_cons, List.map_append, List.append_assoc]
      rfl

theorem ofLine_unplaced (start : Nat) (line : List Char) :
    (ofLine start line).map unplaced =
      (runs (line.takeWhile (· != '#'))).filterMap said? :=
  ofRuns_unplaced start [] _

end Token

namespace SourceLine

/-- The line, wherever it stands. -/
def unplaced (line : SourceLine) : SourceLine :=
  ⟨0, ⟨0, 0⟩, line.tokens.map Token.unplaced⟩

/-- The lines that are not blank, wherever they stand. -/
def contents (lines : List SourceLine) : List SourceLine :=
  (lines.filter fun line => !line.isBlank).map unplaced

theorem contents_append (lines lines' : List SourceLine) :
    contents (lines ++ lines') = contents lines ++ contents lines' := by
  simp [contents]

theorem contents_singleton (line : SourceLine) :
    contents [line] = if line.tokens.isEmpty then [] else [line.unplaced] := by
  cases hempty : line.tokens.isEmpty <;> simp [contents, isBlank, hempty]

/-- What the characters of one line say. -/
def said (content : List Char) : List SourceLine :=
  contents [⟨0, ⟨0, 0⟩, Token.ofLine 0 content⟩]

theorem contents_line (number start : Nat) (span : Span) (content : List Char) :
    contents [⟨number, span, Token.ofLine start content⟩] = said content := by
  have htokens : (Token.ofLine start content).map Token.unplaced =
      (Token.ofLine 0 content).map Token.unplaced := by
    rw [Token.ofLine_unplaced, Token.ofLine_unplaced]
  have hempty : (Token.ofLine start content).isEmpty = (Token.ofLine 0 content).isEmpty := by
    rw [← List.isEmpty_map, htokens, List.isEmpty_map]
  rw [said, contents_singleton, contents_singleton]
  dsimp only
  rw [hempty, unplaced, unplaced, htokens]

/-- What characters say. -/
def saidLines (cs : List Char) : List SourceLine :=
  (pieces cs).flatMap fun piece => said (piece.takeWhile (· != '\n'))

theorem contents_ofPieces (number start : Nat) (done : List SourceLine)
    (pieces : List (List Char)) :
    contents (ofPieces number start done pieces) =
      contents done.reverse ++ pieces.flatMap fun piece => said (piece.takeWhile (· != '\n')) := by
  induction pieces generalizing number start done with
  | nil => simp [ofPieces]
  | cons piece pieces ih =>
    rw [ofPieces, ih, List.reverse_cons, contents_append, contents_line, List.flatMap_cons,
      List.append_assoc]

theorem contents_ofText (text : String) : contents (ofText text) = saidLines text.toList :=
  contents_ofPieces 1 0 [] _

/-! ## Texts that are joined -/

section

variable {line : List Char} (hline : '\n' ∉ line)

include hline

theorem takeWhile_of_no_newline (rest : List Char) :
    (line ++ rest).takeWhile (· != '\n') = line ++ rest.takeWhile (· != '\n') := by
  apply List.takeWhile_append_of_pos
  intro c hc
  rw [bne_iff_ne]
  rintro rfl
  exact hline hc

theorem isChain_of_no_newline (rest : List Char) (hrest : rest.length ≤ 1) :
    (line ++ rest).IsChain fun a _ => (a != '\n') = true := by
  induction line with
  | nil =>
    match rest, hrest with
    | [], _ => exact .nil
    | [_], _ => exact .singleton _
  | cons c line ih =>
    rw [List.mem_cons, not_or] at hline
    rw [List.cons_append, List.isChain_cons]
    exact ⟨fun _ _ => bne_iff_ne.2 (Ne.symm hline.1), ih hline.2⟩

theorem pieces_of_no_newline (hne : line ≠ []) : pieces line = [line] := by
  have hchain := isChain_of_no_newline hline [] (Nat.zero_le _)
  rw [List.append_nil] at hchain
  exact List.splitBy_of_isChain hne hchain

/-- A line feed ends a piece. -/
theorem pieces_append_newline (rest : List Char) :
    pieces (line ++ '\n' :: rest) = (line ++ ['\n']) :: pieces rest := by
  have hsplit : line ++ '\n' :: rest = (line ++ ['\n']) ++ rest := by simp
  rw [hsplit, pieces, List.splitBy_append]
  · rw [List.splitBy_of_isChain (by simp) (isChain_of_no_newline hline _ (Nat.le_refl _))]
    rfl
  · intro a ha b _
    rw [List.getLast?_concat] at ha
    cases ha
    rfl

theorem saidLines_of_no_newline : saidLines line = said line := by
  rcases eq_or_ne line [] with rfl | hne
  · rfl
  · have htake := takeWhile_of_no_newline hline []
    rw [List.append_nil, List.takeWhile_nil, List.append_nil] at htake
    rw [saidLines, pieces_of_no_newline hline hne, List.flatMap_singleton, htake]

theorem saidLines_line (rest : List Char) :
    saidLines (line ++ '\n' :: rest) = said line ++ saidLines rest := by
  rw [saidLines, pieces_append_newline hline, List.flatMap_cons, takeWhile_of_no_newline hline]
  simp [saidLines]

end

/-- A text is a line without line feed, or a line, a line feed and a text. -/
theorem text_induction {P : List Char → Prop} (hlast : ∀ line, '\n' ∉ line → P line)
    (hline : ∀ line rest, '\n' ∉ line → P rest → P (line ++ '\n' :: rest)) (cs : List Char) :
    P cs := by
  induction hlength : cs.length using Nat.strong_induction_on generalizing cs with
  | _ n ih =>
    by_cases hmem : '\n' ∈ cs
    · obtain ⟨line, rest, rfl, hnewline⟩ := List.eq_append_cons_of_mem hmem
      refine hline line rest hnewline (ih _ ?_ rest rfl)
      rw [← hlength, List.length_append, List.length_cons]
      omega
    · exact hlast cs hmem

/-- A line feed between characters separates what they say; a text in front of it may end with one
of its own, which only makes a line that is blank. -/
theorem saidLines_append (cs cs' : List Char) :
    saidLines (cs ++ '\n' :: cs') = saidLines cs ++ saidLines cs' := by
  induction cs using text_induction with
  | hlast line hline => rw [saidLines_line hline, saidLines_of_no_newline hline]
  | hline line rest hline ih =>
    rw [List.append_assoc, List.cons_append, saidLines_line hline, saidLines_line hline, ih,
      List.append_assoc]

/-- Texts that are joined by line feeds say what they say one after the other. -/
theorem contents_intercalate (texts : List String) :
    contents (ofText (String.intercalate "\n" texts)) = contents (texts.flatMap ofText) := by
  induction texts with
  | nil => rfl
  | cons text texts ih =>
    cases texts with
    | nil => rw [String.intercalate_singleton, List.flatMap_singleton]
    | cons next texts =>
      rw [String.intercalate_cons_cons, contents_ofText, String.toList_append,
        String.toList_append, List.append_assoc, List.flatMap_cons, contents_append,
        contents_ofText text, ← ih, contents_ofText (String.intercalate _ _)]
      exact saidLines_append _ _

end SourceLine

/-! ## Words -/

/-- A word that a text can hold: characters of the class of words, none of which starts a comment. -/
structure IsWord (word : String) : Prop where
  ne_nil : word.toList ≠ []
  class_eq : ∀ c ∈ word.toList, CharClass.ofChar c = .word
  hash_notMem : '#' ∉ word.toList

/-- Whether a character is visible, in ASCII, and has no meaning between words. -/
def isPrinted (c : Char) : Bool :=
  33 ≤ c.toNat && c.toNat ≤ 126 && c != ',' && c != '#'

theorem class_of_isPrinted {c : Char} (h : isPrinted c = true) : CharClass.ofChar c = .word := by
  have hall : ∀ n < 127, isPrinted (Char.ofNat n) = true →
      CharClass.ofChar (Char.ofNat n) = .word := by
    decide +kernel
  have hlt : c.toNat < 127 := by
    simp only [isPrinted, Bool.and_eq_true, decide_eq_true_eq] at h
    omega
  have hc := hall c.toNat hlt
  rw [Char.ofNat_toNat] at hc
  exact hc h

theorem isWord_of_isPrinted {word : String} (hne : word.toList ≠ [])
    (h : word.toList.all isPrinted = true) : IsWord word := by
  rw [List.all_eq_true] at h
  refine ⟨hne, fun c hc => class_of_isPrinted (h c hc), fun hhash => ?_⟩
  exact absurd (h '#' hhash) (by decide)

theorem all_isPrinted_toDigits {base : Nat} (hbase : 1 < base) (hle : base ≤ 16) (n : Nat) :
    (Nat.toDigits base n).all isPrinted = true := by
  have hdigit : ∀ k < 16, isPrinted (Nat.digitChar k) = true := by decide +kernel
  rw [List.all_eq_true]
  intro c hc
  obtain ⟨k, hk, rfl⟩ := Text.exists_digitChar_of_mem_toDigits hbase hc
  exact hdigit k (by omega)

theorem all_isPrinted_hex (width n : Nat) : (Text.hex width n).toList.all isPrinted = true := by
  have hzeros : (List.replicate (width - (Nat.toDigits 16 n).length) '0').all isPrinted = true := by
    rw [List.all_replicate, show isPrinted '0' = true by decide]
    split <;> rfl
  rw [Text.hex, String.toList_ofList, Text.padLeft, List.all_append, hzeros,
    all_isPrinted_toDigits (by decide) (by decide), Bool.and_self]

/-- The token that a word makes, wherever it stands. -/
def Token.word (text : String) : Token :=
  ⟨.word, ⟨0, 0⟩, text⟩

theorem IsWord.head {word : String} (h : IsWord word) :
    ∃ c ∈ word.toList.head?, CharClass.ofChar c = .word := by
  obtain ⟨c, rest, hcs⟩ := List.exists_cons_of_ne_nil h.ne_nil
  exact ⟨c, by rw [hcs]; rfl, h.class_eq c (by rw [hcs]; exact List.mem_cons_self)⟩

theorem IsWord.newline_notMem {word : String} (h : IsWord word) : '\n' ∉ word.toList := by
  intro hmem
  have hclass := h.class_eq _ hmem
  revert hclass
  decide

namespace Token

variable {word : String}

theorem said?_of_word (h : IsWord word) : said? word.toList = some (Token.word word) := by
  obtain ⟨c, hc, hclass⟩ := h.head
  rw [Option.mem_def] at hc
  simp [said?, ofRun?, hc, hclass, unplaced, Token.word]

theorem runs_of_word (h : IsWord word) : runs word.toList = [word.toList] := by
  apply List.splitBy_of_isChain h.ne_nil
  apply List.Pairwise.isChain
  rw [List.pairwise_iff_forall_sublist]
  intro a b hab
  have ha := h.class_eq a (hab.subset (by simp))
  have hb := h.class_eq b (hab.subset (by simp))
  simp [ha, hb]

/-- A space between a word and what begins with another one is a run of its own. -/
theorem runs_append_space (h : IsWord word) {rest : List Char}
    (hrest : ∀ c ∈ rest.head?, CharClass.ofChar c = .word) :
    runs (word.toList ++ ' ' :: rest) = word.toList :: [' '] :: runs rest := by
  have hspace : runs (' ' :: rest) = [' '] :: runs rest := by
    rw [← List.singleton_append, runs, List.splitBy_append]
    · rfl
    · intro a ha b hb
      cases ha
      rw [hrest b hb]
      rfl
  rw [runs, List.splitBy_append]
  · change runs word.toList ++ runs (' ' :: rest) = _
    rw [runs_of_word h, hspace]
    rfl
  · intro a ha b hb
    cases hb
    rw [h.class_eq a (List.mem_of_mem_getLast? ha)]
    rfl

theorem toList_intercalate_cons_cons (word next : String) (words : List String) :
    (String.intercalate " " (word :: next :: words)).toList =
      word.toList ++ ' ' :: (String.intercalate " " (next :: words)).toList := by
  rw [String.intercalate_cons_cons, String.toList_append, String.toList_append, List.append_assoc]
  rfl

theorem head?_intercalate {words : List String} (hwords : ∀ word ∈ words, IsWord word) :
    ∀ c ∈ (String.intercalate " " words).toList.head?, CharClass.ofChar c = .word := by
  match words with
  | [] =>
    intro c hc
    cases hc
  | [word] =>
    intro c hc
    rw [String.intercalate_singleton] at hc
    exact (hwords word (by simp)).class_eq c (List.mem_of_mem_head? hc)
  | word :: next :: rest =>
    intro c hc
    have hword := hwords word (by simp)
    rw [toList_intercalate_cons_cons, List.head?_append_of_ne_nil _ hword.ne_nil] at hc
    exact hword.class_eq c (List.mem_of_mem_head? hc)

theorem said_words {words : List String} (hwords : ∀ word ∈ words, IsWord word) :
    (runs (String.intercalate " " words).toList).filterMap said? = words.map Token.word := by
  induction words with
  | nil => rfl
  | cons word words ih =>
    rw [List.forall_mem_cons] at hwords
    cases words with
    | nil =>
      rw [String.intercalate_singleton, runs_of_word hwords.1]
      simp [said?_of_word hwords.1]
    | cons next words =>
      have hspace : said? [' '] = none := by decide
      rw [toList_intercalate_cons_cons, runs_append_space hwords.1 (head?_intercalate hwords.2),
        List.filterMap_cons_some (said?_of_word hwords.1), List.filterMap_cons_none hspace,
        ih hwords.2, ← List.map_cons]

end Token

theorem notMem_intercalate {c : Char} {separator : String} (hc : c ∉ separator.toList)
    {words : List String} (hwords : ∀ word ∈ words, c ∉ word.toList) :
    c ∉ (String.intercalate separator words).toList := by
  induction words with
  | nil => simp
  | cons word words ih =>
    rw [List.forall_mem_cons] at hwords
    cases words with
    | nil =>
      rw [String.intercalate_singleton]
      exact hwords.1
    | cons next words =>
      rw [String.intercalate_cons_cons, String.toList_append, String.toList_append,
        List.mem_append, List.mem_append, not_or, not_or]
      exact ⟨⟨hwords.1, hc⟩, ih hwords.2⟩

namespace SourceLine

theorem said_words {words : List String} (hne : words ≠ []) (hwords : ∀ word ∈ words, IsWord word) :
    said (String.intercalate " " words).toList = [⟨0, ⟨0, 0⟩, words.map Token.word⟩] := by
  have hhash : '#' ∉ (String.intercalate " " words).toList :=
    notMem_intercalate (by decide) fun word hword => (hwords word hword).hash_notMem
  have htokens : (Token.ofLine 0 (String.intercalate " " words).toList).map Token.unplaced =
      words.map Token.word := by
    rw [Token.ofLine_unplaced, ← Token.said_words hwords]
    congr 2
    rw [List.takeWhile_eq_self_iff]
    intro c hc
    rw [bne_iff_ne]
    rintro rfl
    exact hhash hc
  have hempty : (Token.ofLine 0 (String.intercalate " " words).toList).isEmpty = false := by
    rw [← List.isEmpty_map, htokens, List.isEmpty_map]
    simpa using hne
  rw [said, contents_singleton]
  dsimp only
  rw [hempty, unplaced, htokens]
  rfl

/-- Words with spaces between them are one line, which says these words. -/
theorem ofText_words {words : List String} (hne : words ≠ [])
    (hwords : ∀ word ∈ words, IsWord word) :
    ∃ line, ofText (String.intercalate " " words) = [line] ∧
      line.tokens.map Token.unplaced = words.map Token.word := by
  have hnewline : '\n' ∉ (String.intercalate " " words).toList :=
    notMem_intercalate (by decide) fun word hword => (hwords word hword).newline_notMem
  have hsaid := said_words hne hwords
  have hcontents := contents_ofText (String.intercalate " " words)
  rw [saidLines_of_no_newline hnewline, hsaid] at hcontents
  have hchars : (String.intercalate " " words).toList ≠ [] := by
    intro hnil
    rw [hnil] at hsaid
    cases hsaid
  obtain ⟨line, hline⟩ : ∃ line, ofText (String.intercalate " " words) = [line] := by
    rw [ofText, pieces_of_no_newline hnewline hchars]
    exact ⟨_, rfl⟩
  refine ⟨line, hline, ?_⟩
  rw [hline, contents_singleton] at hcontents
  split at hcontents
  · cases hcontents
  · rw [List.cons.injEq, unplaced, SourceLine.mk.injEq] at hcontents
    exact hcontents.1.2.2

end SourceLine

/-! ## The words of lines -/

namespace Token

theorem class_of_isChain {run : List Char} {found : CharClass}
    (hchain : run.IsChain fun a b =>
      (CharClass.ofChar a == CharClass.ofChar b && CharClass.ofChar a != .comma) = true)
    (hhead : ∀ c ∈ run.head?, CharClass.ofChar c = found) :
    ∀ c ∈ run, CharClass.ofChar c = found := by
  induction run with
  | nil => simp
  | cons a run ih =>
    rw [List.isChain_cons] at hchain
    have ha : CharClass.ofChar a = found := hhead a rfl
    rw [List.forall_mem_cons]
    refine ⟨ha, ih hchain.2 fun b hb => ?_⟩
    have hstep := hchain.1 b hb
    rw [Bool.and_eq_true, beq_iff_eq] at hstep
    rw [← hstep.1, ha]

theorem isWord_of_said? {cs run : List Char} {token : Token} (hrun : run ∈ runs cs)
    (hhash : '#' ∉ cs) (hsaid : said? run = some token) (hkind : token.kind = .word) :
    IsWord token.text := by
  have hsub : ∀ c ∈ run, c ∈ cs := by
    intro c hc
    rw [← List.flatten_splitBy _ cs]
    exact List.mem_flatten_of_mem hrun hc
  obtain ⟨found, hfound, rfl⟩ := Option.map_eq_some_iff.1 hsaid
  unfold ofRun? at hfound
  dsimp only at hfound
  split at hfound
  · rename_i hhead
    cases hfound
    obtain ⟨c, hc, hclass⟩ := Option.map_eq_some_iff.1 hhead
    have hall := class_of_isChain (List.isChain_of_mem_splitBy hrun) fun b hb => by
      rw [hc] at hb
      cases hb
      exact hclass
    have htext : (String.ofList run).toList = run := String.toList_ofList
    refine ⟨?_, ?_, ?_⟩
    · exact htext.symm ▸ List.ne_nil_of_mem_splitBy hrun
    · exact htext.symm ▸ hall
    · exact htext.symm ▸ fun hmem => hhash (hsub _ hmem)
  · cases hfound
    cases hkind
  · cases hfound
    cases hkind
  · cases hfound

end Token

namespace SourceLine

theorem mem_contents {lines : List SourceLine} {line : SourceLine} (hline : line ∈ lines)
    {token : Token} (htoken : token ∈ line.tokens) : line.unplaced ∈ contents lines := by
  refine List.mem_map_of_mem (List.mem_filter.2 ⟨hline, ?_⟩)
  rw [isBlank, List.isEmpty_eq_false_iff_exists_mem.2 ⟨token, htoken⟩]
  rfl

/-- The words of a line are words that a text can hold. -/
theorem isWord_of_mem_ofText {text : String} {line : SourceLine} (hline : line ∈ ofText text)
    {token : Token} (htoken : token ∈ line.tokens) (hkind : token.kind = .word) :
    IsWord token.text := by
  have hmem := mem_contents hline htoken
  rw [contents_ofText, saidLines, List.mem_flatMap] at hmem
  obtain ⟨piece, -, hmem⟩ := hmem
  rw [said, contents_singleton] at hmem
  split at hmem
  · cases hmem
  -- The token is one of the runs of characters in front of the comment.
  · rw [List.mem_singleton, unplaced, unplaced, SourceLine.mk.injEq, Token.ofLine_unplaced] at hmem
    have hunplaced : token.unplaced ∈ line.tokens.map Token.unplaced := List.mem_map_of_mem htoken
    rw [hmem.2.2] at hunplaced
    obtain ⟨run, hrun, hsaid⟩ := List.mem_filterMap.1 hunplaced
    change IsWord token.unplaced.text
    refine Token.isWord_of_said? hrun ?_ hsaid hkind
    intro hhash
    have hne := List.mem_takeWhile_imp hhash
    simp at hne

end SourceLine

end StackMachine.Assembly
