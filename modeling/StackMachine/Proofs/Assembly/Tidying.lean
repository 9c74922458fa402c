import StackMachine.Proofs.Assembly.Places
import StackMachine.Proofs.Assembly.Rejection

/-!
# The layout of a text

Comments, blank lines, and how many horizontal blanks of which kind stand between tokens, are a
matter of taste. A text without all of that says the same, so it is assembled the same, and only
places in diagnostics differ.

* `tidied`: a text without comments and blank lines, with one space for each run of horizontal
  blanks.
* `Token.saidBy_append_blank`: a horizontal blank separates what stands on either side of it.
* `SourceLine.saidLines_onLines`: lines that are rewritten to lines that say the same.
* `SourceLine.contents_tidied`: a tidied text says what the text says.
* `SourceFile.assemble_of_same_contents`: what assembly makes of files whose lines say the same.
-/

namespace StackMachine.Assembly

/-! ## Tidied texts -/

namespace SourceLine

/-- The lines of a text rewritten; their line feeds stay. -/
def onLines (f : List Char → List Char) (cs : List Char) : List Char :=
  (pieces cs).flatMap fun piece => f (piece.takeWhile (· != '\n')) ++ piece.dropWhile (· != '\n')

/-- A line without its comment. -/
def uncommented (line : List Char) : List Char :=
  line.takeWhile (· != '#')

/-- Characters with one space for each run of horizontal blanks, behind a blank or behind anything
else. -/
def squeezed (behindBlank : Bool) : List Char → List Char
  | [] => []
  | c :: cs =>
    if CharClass.ofChar c = .blank then
      if behindBlank then squeezed true cs else ' ' :: squeezed true cs
    else
      c :: squeezed false cs

/-- Whether a line has nothing but horizontal blanks in front of its comment. -/
def isVoid (line : List Char) : Bool :=
  (uncommented line).all fun c => CharClass.ofChar c == .blank

/-- A text without the lines that have nothing to say. -/
def withoutBlankLines (cs : List Char) : List Char :=
  ((pieces cs).filter fun piece => !isVoid (piece.takeWhile (· != '\n'))).flatten

end SourceLine

/-- A text without comments and without blank lines, where each run of horizontal blanks is one
space. -/
def tidied (text : String) : String :=
  String.ofList (SourceLine.withoutBlankLines
    (SourceLine.onLines (SourceLine.squeezed false)
      (SourceLine.onLines SourceLine.uncommented text.toList)))

/-! ## Blanks between tokens -/

namespace Token

/-- What characters of one line say, in front of its comment. -/
def saidBy (cs : List Char) : List Token :=
  (runs cs).filterMap said?

variable {c : Char} {cs xs ys : List Char}

theorem runs_append
    (h : ∀ a ∈ xs.getLast?, ∀ b ∈ ys.head?, CharClass.ofChar a ≠ CharClass.ofChar b) :
    runs (xs ++ ys) = runs xs ++ runs ys := by
  refine List.splitBy_append fun a ha b hb => ?_
  rw [beq_eq_false_iff_ne.2 (h a ha b hb), Bool.false_and]

/-- Blanks in front say nothing. -/
theorem saidBy_blanks_append (hxs : ∀ c ∈ xs, CharClass.ofChar c = .blank)
    (hys : ∀ c ∈ ys.head?, CharClass.ofChar c ≠ .blank) : saidBy (xs ++ ys) = saidBy ys := by
  rcases eq_or_ne xs [] with rfl | hne
  · rfl
  have hchain : xs.IsChain fun a b =>
      (CharClass.ofChar a == CharClass.ofChar b && CharClass.ofChar a != .comma) = true := by
    apply List.Pairwise.isChain
    rw [List.pairwise_iff_forall_sublist]
    intro a b hab
    simp [hxs a (hab.subset (by simp)), hxs b (hab.subset (by simp))]
  have hruns : runs xs = [xs] := List.splitBy_of_isChain hne hchain
  have hsaid : said? xs = none := by
    obtain ⟨c, rest, rfl⟩ := List.exists_cons_of_ne_nil hne
    simp [said?, ofRun?, hxs c List.mem_cons_self]
  rw [saidBy, runs_append, hruns, List.singleton_append, List.filterMap_cons_none hsaid]
  · rfl
  · intro a ha b hb heq
    rw [hxs a (List.mem_of_mem_getLast? ha)] at heq
    exact hys b hb heq.symm

theorem saidBy_cons_blank (hc : CharClass.ofChar c = .blank) (cs : List Char) :
    saidBy (c :: cs) = saidBy cs := by
  have hblanks : ∀ b ∈ cs.takeWhile fun b => CharClass.ofChar b == .blank,
      CharClass.ofChar b = .blank := by
    intro b hb
    have hclass := List.mem_takeWhile_imp hb
    exact beq_iff_eq.1 hclass
  have hrest : ∀ b ∈ (cs.dropWhile fun b => CharClass.ofChar b == .blank).head?,
      CharClass.ofChar b ≠ .blank := by
    intro b hb
    have hfirst := List.head?_dropWhile_not (fun b => CharClass.ofChar b == .blank) cs
    rw [Option.mem_def.1 hb] at hfirst
    simpa using hfirst
  have hsplit :=
    List.takeWhile_append_dropWhile (p := fun b => CharClass.ofChar b == .blank) (l := cs)
  rw [← hsplit, saidBy_blanks_append hblanks hrest, ← List.cons_append]
  exact saidBy_blanks_append (List.forall_mem_cons.2 ⟨hc, hblanks⟩) hrest

/-- A blank separates what stands on either side of it. -/
theorem saidBy_append_blank (hc : CharClass.ofChar c = .blank) (xs ys : List Char) :
    saidBy (xs ++ c :: ys) = saidBy xs ++ saidBy ys := by
  induction xs using List.reverseRecOn generalizing c ys with
  | nil => exact saidBy_cons_blank hc ys
  | append_singleton xs b ih =>
    by_cases hb : CharClass.ofChar b = .blank
    · have hlast : saidBy (xs ++ [b]) = saidBy xs := (ih hb []).trans (List.append_nil _)
      rw [hlast, List.append_assoc, List.singleton_append, ih hb, saidBy_cons_blank hc]
    · rw [← saidBy_cons_blank hc ys, saidBy, runs_append, List.filterMap_append]
      · rfl
      · intro a ha b' hb' heq
        rw [List.getLast?_concat] at ha
        cases ha
        cases hb'
        exact hb (heq.trans hc)

end Token

/-! ## Lines that are rewritten -/

namespace SourceLine

variable {line : List Char} {f : List Char → List Char}

/-- What a line says depends on the characters in front of its comment, and on their runs only. -/
theorem said_congr {line' : List Char}
    (h : Token.saidBy (uncommented line) = Token.saidBy (uncommented line')) :
    said line = said line' := by
  have htokens : (Token.ofLine 0 line).map Token.unplaced =
      (Token.ofLine 0 line').map Token.unplaced := by
    rw [Token.ofLine_unplaced, Token.ofLine_unplaced]
    exact h
  have hempty : (Token.ofLine 0 line).isEmpty = (Token.ofLine 0 line').isEmpty := by
    rw [← List.isEmpty_map, htokens, List.isEmpty_map]
  rw [said, said, contents_singleton, contents_singleton, unplaced, unplaced, htokens]
  dsimp only
  rw [hempty]

theorem said_of_isVoid (h : isVoid line = true) : said line = [] := by
  have hblanks : ∀ c ∈ uncommented line, CharClass.ofChar c = .blank := by
    simpa [isVoid] using h
  have hnothing : Token.saidBy (uncommented line) = Token.saidBy (uncommented []) := by
    rw [← List.append_nil (uncommented line)]
    exact Token.saidBy_blanks_append hblanks (by simp)
  exact said_congr hnothing

section

variable (hline : '\n' ∉ line)

include hline

theorem takeWhile_newline (rest : List Char) :
    (line ++ '\n' :: rest).takeWhile (· != '\n') = line := by
  rw [takeWhile_of_no_newline hline, List.takeWhile_cons_of_neg (by simp), List.append_nil]

theorem dropWhile_newline (rest : List Char) :
    (line ++ '\n' :: rest).dropWhile (· != '\n') = '\n' :: rest := by
  have hsplit := List.takeWhile_append_dropWhile (p := (· != '\n')) (l := line ++ '\n' :: rest)
  rw [takeWhile_newline hline] at hsplit
  exact List.append_cancel_left hsplit

theorem takeWhile_last : line.takeWhile (· != '\n') = line := by
  have htake := takeWhile_of_no_newline hline []
  rwa [List.append_nil, List.takeWhile_nil, List.append_nil] at htake

theorem dropWhile_last : line.dropWhile (· != '\n') = [] := by
  have hsplit := List.takeWhile_append_dropWhile (p := (· != '\n')) (l := line)
  rw [takeWhile_last hline] at hsplit
  exact List.append_right_eq_self.1 hsplit

theorem onLines_line (rest : List Char) :
    onLines f (line ++ '\n' :: rest) = f line ++ '\n' :: onLines f rest := by
  rw [onLines, pieces_append_newline hline, List.flatMap_cons, takeWhile_newline hline,
    dropWhile_newline hline, List.append_assoc]
  rfl

theorem onLines_last (hne : line ≠ []) : onLines f line = f line := by
  rw [onLines, pieces_of_no_newline hline hne, List.flatMap_singleton, takeWhile_last hline,
    dropWhile_last hline, List.append_nil]

theorem withoutBlankLines_line (rest : List Char) :
    withoutBlankLines (line ++ '\n' :: rest) =
      if isVoid line then withoutBlankLines rest else line ++ '\n' :: withoutBlankLines rest := by
  rw [withoutBlankLines, pieces_append_newline hline, List.filter_cons, takeWhile_newline hline]
  cases isVoid line with
  | true => rfl
  | false => simp [withoutBlankLines]

theorem withoutBlankLines_last :
    withoutBlankLines line = if isVoid line then [] else line := by
  rcases eq_or_ne line [] with rfl | hne
  · rfl
  · rw [withoutBlankLines, pieces_of_no_newline hline hne, List.filter_singleton,
      takeWhile_last hline]
    cases isVoid line <;> simp

end

/-- Lines that are rewritten to lines that say the same. -/
theorem saidLines_onLines
    (hf : ∀ line, '\n' ∉ line → '\n' ∉ f line ∧ said (f line) = said line) (cs : List Char) :
    saidLines (onLines f cs) = saidLines cs := by
  induction cs using text_induction with
  | hlast line hline =>
    rcases eq_or_ne line [] with rfl | hne
    · rfl
    · obtain ⟨hnewline, hsaid⟩ := hf line hline
      rw [onLines_last hline hne, saidLines_of_no_newline hnewline, hsaid,
        saidLines_of_no_newline hline]
  | hline line rest hline ih =>
    obtain ⟨hnewline, hsaid⟩ := hf line hline
    rw [onLines_line hline, saidLines_line hnewline, hsaid, ih, saidLines_line hline]

theorem saidLines_withoutBlankLines (cs : List Char) :
    saidLines (withoutBlankLines cs) = saidLines cs := by
  induction cs using text_induction with
  | hlast line hline =>
    rw [withoutBlankLines_last hline]
    split
    · rename_i hvoid
      rw [saidLines_of_no_newline hline, said_of_isVoid hvoid]
      rfl
    · rfl
  | hline line rest hline ih =>
    rw [withoutBlankLines_line hline, saidLines_line hline]
    split
    · rename_i hvoid
      rw [said_of_isVoid hvoid, ih, List.nil_append]
    · rw [saidLines_line hline, ih]

theorem said_uncommented (hline : '\n' ∉ line) :
    '\n' ∉ uncommented line ∧ said (uncommented line) = said line := by
  refine ⟨fun hmem => hline ((List.takeWhile_prefix _).subset hmem), said_congr ?_⟩
  rw [uncommented, uncommented, List.takeWhile_takeWhile]
  simp only [and_self, bne_iff_ne, ne_eq, decide_not]
  rfl

/-! ## Squeezed blanks -/

theorem squeezed_uncommented (behindBlank : Bool) (cs : List Char) :
    uncommented (squeezed behindBlank cs) = squeezed behindBlank (uncommented cs) := by
  have hspace : (' ' != '#') = true := by decide
  unfold uncommented
  induction cs generalizing behindBlank with
  | nil => rfl
  | cons c cs ih =>
    rw [squeezed]
    by_cases hblank : CharClass.ofChar c = .blank
    · have hc : (c != '#') = true := by
        rw [bne_iff_ne]
        rintro rfl
        revert hblank
        decide
      rw [if_pos hblank, List.takeWhile_cons_of_pos (p := (· != '#')) hc, squeezed, if_pos hblank]
      split
      · exact ih true
      · rw [List.takeWhile_cons_of_pos (p := (· != '#')) hspace, ih]
    · rw [if_neg hblank, List.takeWhile_cons, List.takeWhile_cons]
      split
      · rw [squeezed, if_neg hblank, ih]
      · rfl

theorem mem_of_mem_squeezed {behindBlank : Bool} {cs : List Char} {c : Char}
    (h : c ∈ squeezed behindBlank cs) : c = ' ' ∨ c ∈ cs := by
  induction cs generalizing behindBlank with
  | nil => cases h
  | cons first cs ih =>
    have hrest {behindBlank : Bool} (h : c ∈ squeezed behindBlank cs) :
        c = ' ' ∨ c ∈ first :: cs :=
      (ih h).imp_right (List.mem_cons_of_mem _)
    rw [squeezed] at h
    split at h
    · split at h
      · exact hrest h
      · rcases List.mem_cons.1 h with h | h
        · exact .inl h
        · exact hrest h
    · rcases List.mem_cons.1 h with rfl | h
      · exact .inr List.mem_cons_self
      · exact hrest h

/-- Squeezing says the same from the start of a line and behind a blank, and behind any characters
where no blank stands in front. -/
theorem saidBy_squeezed (cs : List Char) :
    (∀ behindBlank, Token.saidBy (squeezed behindBlank cs) = Token.saidBy cs) ∧
      ∀ before, Token.saidBy (before ++ squeezed false cs) = Token.saidBy (before ++ cs) := by
  have hspace : CharClass.ofChar ' ' = .blank := by decide
  induction cs with
  | nil => exact ⟨fun _ => rfl, fun _ => rfl⟩
  | cons c cs ih =>
    obtain ⟨hstart, hbehind⟩ := ih
    have hany (before : List Char) :
        Token.saidBy (before ++ squeezed false (c :: cs)) = Token.saidBy (before ++ c :: cs) := by
      rw [squeezed]
      split
      · rename_i hblank
        rw [if_neg (by decide), Token.saidBy_append_blank hspace, hstart,
          Token.saidBy_append_blank hblank]
      · rw [List.append_cons, hbehind, ← List.append_cons]
    refine ⟨fun behindBlank => ?_, hany⟩
    cases behindBlank with
    | false => exact hany []
    | true =>
      rw [squeezed]
      split
      · rename_i hblank
        rw [if_pos rfl, hstart, Token.saidBy_cons_blank hblank]
      · exact hbehind [c]

theorem said_squeezed (hline : '\n' ∉ line) :
    '\n' ∉ squeezed false line ∧ said (squeezed false line) = said line := by
  constructor
  · intro hmem
    rcases mem_of_mem_squeezed hmem with h | h
    · revert h
      decide
    · exact hline h
  · apply said_congr
    rw [squeezed_uncommented]
    exact (saidBy_squeezed _).1 false

/-! ## Tidied texts say the same -/

theorem contents_tidied (text : String) :
    contents (ofText (tidied text)) = contents (ofText text) := by
  rw [contents_ofText, contents_ofText, tidied, String.toList_ofList, saidLines_withoutBlankLines,
    saidLines_onLines fun _ => said_squeezed, saidLines_onLines fun _ => said_uncommented]

end SourceLine

/-- Files whose lines say the same, wherever they say it, are assembled the same: with one verdict,
one image, the same registers and labels, and diagnostics that differ in path, line and span at most.
So it makes no difference to tidy a file up. -/
theorem SourceFile.assemble_of_same_contents (s : Session) {file file' : SourceFile}
    (h : SourceLine.contents (SourceLine.ofText file.text) =
      SourceLine.contents (SourceLine.ofText file'.text)) :
    SameResult (file.assemble s).unplaced (file'.assemble s).unplaced ∧
    ∀ path,
      SameResult (assemble s ⟨path, tidied file.text⟩).unplaced (file.assemble s).unplaced := by
  have hsame {file file' : SourceFile} (h : SourceLine.contents (SourceLine.ofText file.text) =
      SourceLine.contents (SourceLine.ofText file'.text)) :
      SameResult (file.assemble s).unplaced (file'.assemble s).unplaced := by
    rw [assemble_unplaced_congr s h]
    exact ⟨rfl, rfl, rfl, rfl, fun _ => rfl⟩
  exact ⟨hsame h, fun path => hsame (SourceLine.contents_tidied file.text)⟩

/-- A file with an error behind comments, blank lines and blanks of all kinds, and what is left of
it when it is tidied up. -/
theorem SourceFile.assemble_of_same_contents_tidied :
    let s := (assemble (.start Registry.standard) ⟨"a.asm", "a: push r3\n"⟩).session
    let file : SourceFile :=
      ⟨"b.asm", "# start\r\n\n\tb:  push\t1,  # one\n.registers 9\r\n \x0c\njmp a#end\n\n  jmp c"⟩
    let file' : SourceFile := ⟨"c.asm", "b: push 1 ,\n.registers 9\njmp a\njmp\x0bc\n"⟩
    SourceLine.contents (SourceLine.ofText file.text) =
      SourceLine.contents (SourceLine.ofText file'.text) ∧
    tidied file.text = " b: push 1, \n.registers 9 \njmp a\n jmp c" ∧
    SameResult (file.assemble s).unplaced (file'.assemble s).unplaced ∧
    (file.assemble s).accepted = false ∧
    SameResult (assemble s ⟨"d.asm", " b: push 1, \n.registers 9 \njmp a\n jmp c"⟩).unplaced
      (file.assemble s).unplaced := by
  intro s file file'
  have h : SourceLine.contents (SourceLine.ofText file.text) =
      SourceLine.contents (SourceLine.ofText file'.text) := by
    decide +kernel
  have htidied : tidied file.text = " b: push 1, \n.registers 9 \njmp a\n jmp c" := by
    decide +kernel
  obtain ⟨hsame, hpath⟩ := assemble_of_same_contents s h
  have hd := hpath "d.asm"
  rw [htidied] at hd
  exact ⟨h, htidied, hsame, by decide +kernel, hd⟩

end StackMachine.Assembly
