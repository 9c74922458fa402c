import StackMachine.Proofs.Assembly.Lexing
import StackMachine.Proofs.Text.Runs

/-!
# The lines of a text and their places

The lines of a text are its segments between line feeds. A last segment without characters is no
line: it stands behind a line feed at the end of the text, or the text is empty.

* `isSegment_line_iff`: the segments of a text that starts with a line and a line feed.
* `mem_ofText_iff`: which lines a text has, each with its number, its place and its tokens.
* `numbers_ofText`: the lines are numbered from one on.
-/

namespace StackMachine.Assembly

open StackMachine.Text

variable {text line rest front segment back : List Char}

/-- The span of characters behind some others. -/
def Span.behind (front part : List Char) : Span :=
  ⟨byteSize front, byteSize front + byteSize part⟩

/-- A part of a text without line feeds between two line feeds, where both ends of the text count as
line feeds too; with what stands in front of it and behind it. -/
structure IsSegment (text front segment back : List Char) : Prop where
  eq : text = front ++ segment ++ back
  newline_notMem : '\n' ∉ segment
  front_last : ∀ c ∈ front.getLast?, c = '\n'
  back_head : ∀ c ∈ back.head?, c = '\n'

/-- The places that are lines: all segments but a last one without characters. -/
structure IsLine (text front segment back : List Char) : Prop extends
    IsSegment text front segment back where
  ne_nil : segment ≠ [] ∨ back ≠ []

/-! ## Segments -/

theorem isSegment_of_no_newline (hline : '\n' ∉ line) :
    IsSegment line front segment back ↔ front = [] ∧ segment = line ∧ back = [] := by
  constructor
  · rintro ⟨rfl, -, hfront, hback⟩
    have hfront' : front = [] := by
      rcases List.eq_nil_or_concat front with rfl | ⟨cs, c, rfl⟩
      · rfl
      · obtain rfl : c = '\n' := hfront c (by simp)
        simp at hline
    have hback' : back = [] := by
      cases back with
      | nil => rfl
      | cons c cs =>
        obtain rfl : c = '\n' := hback c rfl
        simp at hline
    subst hfront' hback'
    simp
  · rintro ⟨rfl, rfl, rfl⟩
    exact ⟨by simp, hline, nofun, nofun⟩

/-- What stands in front of the first line feed is one segment, and the others are those of the text
behind it. -/
theorem isSegment_line_iff (hline : '\n' ∉ line) :
    IsSegment (line ++ '\n' :: rest) front segment back ↔
      (front = [] ∧ segment = line ∧ back = '\n' :: rest) ∨
        ∃ front', front = line ++ '\n' :: front' ∧ IsSegment rest front' segment back := by
  constructor
  · rintro ⟨heq, hsegment, hfront, hback⟩
    rcases List.eq_nil_or_concat front with rfl | ⟨cs, c, rfl⟩
    · left
      rw [List.nil_append] at heq
      rcases List.append_eq_append_iff.1 heq with ⟨cs, rfl, hcs⟩ | ⟨cs, rfl, hcs⟩
      -- The segment goes on behind `line`, and would go over the line feed.
      · cases cs with
        | nil => exact ⟨rfl, by simp, hcs.symm⟩
        | cons c cs =>
          cases hcs
          simp at hsegment
      · cases cs with
        | nil => exact ⟨rfl, by simp, hcs⟩
        | cons c cs =>
          rw [hcs, List.cons_append, List.head?_cons] at hback
          obtain rfl : c = '\n' := hback c rfl
          simp at hline
    · right
      rw [List.concat_eq_append] at heq hfront ⊢
      obtain rfl : c = '\n' := hfront c (by simp)
      simp only [List.append_assoc, List.singleton_append] at heq
      rcases List.append_eq_append_iff.1 heq with ⟨front', rfl, hrest⟩ | ⟨cs', rfl, hcs'⟩
      · cases front' with
        | nil =>
          cases hrest
          exact ⟨[], by simp, rfl, hsegment, nofun, hback⟩
        | cons c front' =>
          cases hrest
          refine ⟨front' ++ ['\n'], by simp, by simp, hsegment, by simp, hback⟩
      · cases cs' with
        | nil =>
          cases hcs'
          exact ⟨[], by simp, rfl, hsegment, nofun, hback⟩
        | cons c cs' =>
          obtain rfl : '\n' = c := (List.cons.inj hcs').1
          simp at hline
  · rintro (⟨rfl, rfl, rfl⟩ | ⟨front', rfl, heq, hsegment, hfront, hback⟩)
    · exact ⟨rfl, hline, nofun, by simp⟩
    · refine ⟨by simp [heq], hsegment, fun c hc => ?_, hback⟩
      rcases List.eq_nil_or_concat front' with rfl | ⟨cs, c', rfl⟩
      · simpa [eq_comm] using hc
      · rw [List.concat_eq_append, ← List.cons_append, ← List.append_assoc,
          List.getLast?_concat] at hc
        refine hfront c ?_
        rwa [List.concat_eq_append, List.getLast?_concat]

theorem isLine_line_iff (hline : '\n' ∉ line) :
    IsLine (line ++ '\n' :: rest) front segment back ↔
      (front = [] ∧ segment = line ∧ back = '\n' :: rest) ∨
        ∃ front', front = line ++ '\n' :: front' ∧ IsLine rest front' segment back := by
  constructor
  · rintro ⟨h, hne⟩
    rcases (isSegment_line_iff hline).1 h with ⟨rfl, rfl, rfl⟩ | ⟨front', rfl, hrest⟩
    · exact .inl ⟨rfl, rfl, rfl⟩
    · exact .inr ⟨front', rfl, hrest, hne⟩
  · rintro (⟨rfl, rfl, rfl⟩ | ⟨front', rfl, h⟩)
    · exact ⟨(isSegment_line_iff hline).2 (.inl ⟨rfl, rfl, rfl⟩), .inr nofun⟩
    · exact ⟨(isSegment_line_iff hline).2 (.inr ⟨front', rfl, h.1⟩), h.2⟩

/-! ## Lines -/

namespace SourceLine

/-- The line in a place. -/
def ofPlace (number start : Nat) (front segment : List Char) : SourceLine :=
  let start := start + byteSize front
  ⟨number + front.count '\n', ⟨start, start + byteSize segment⟩, Token.ofLine start segment⟩

theorem ofPieces_eq (number start : Nat) (done : List SourceLine) (pieces : List (List Char)) :
    ofPieces number start done pieces = done.reverse ++ ofPieces number start [] pieces := by
  induction pieces generalizing number start done with
  | nil => simp [ofPieces]
  | cons piece pieces ih =>
    rw [ofPieces, ih, ofPieces, ih _ _ [_]]
    simp

theorem ofPieces_line (hline : '\n' ∉ line) (number start : Nat) (rest : List Char) :
    ofPieces number start [] (pieces (line ++ '\n' :: rest)) =
      ofPlace number start [] line ::
        ofPieces (number + 1) (start + byteSize (line ++ ['\n'])) [] (pieces rest) := by
  have hcontent := takeWhile_of_no_newline hline ['\n']
  rw [pieces_append_newline hline, ofPieces, ofPieces_eq, hcontent]
  simp [ofPlace, byteSize]

theorem ofPieces_last (hline : '\n' ∉ line) (hne : line ≠ []) (number start : Nat) :
    ofPieces number start [] (pieces line) = [ofPlace number start [] line] := by
  have hcontent := takeWhile_of_no_newline hline []
  rw [List.append_nil, List.takeWhile_nil, List.append_nil] at hcontent
  rw [pieces_of_no_newline hline hne]
  simp [ofPieces, ofPlace, hcontent, byteSize]

theorem mem_ofPieces_iff (number start : Nat) (cs : List Char) (found : SourceLine) :
    found ∈ ofPieces number start [] (pieces cs) ↔
      ∃ front segment back, IsLine cs front segment back ∧
        found = ofPlace number start front segment := by
  induction cs using text_induction generalizing number start with
  | hlast line hline =>
    have hplace {front segment back : List Char} : IsLine line front segment back ↔
        (front = [] ∧ segment = line ∧ back = []) ∧ line ≠ [] := by
      constructor
      · rintro ⟨h, hne⟩
        obtain ⟨rfl, rfl, rfl⟩ := (isSegment_of_no_newline hline).1 h
        exact ⟨⟨rfl, rfl, rfl⟩, hne.resolve_right (not_not.2 rfl)⟩
      · rintro ⟨h, hne⟩
        exact ⟨(isSegment_of_no_newline hline).2 h, .inl (h.2.1 ▸ hne)⟩
    simp only [hplace]
    rcases eq_or_ne line [] with rfl | hne
    · simp [pieces, ofPieces]
    · rw [ofPieces_last hline hne]
      simp [hne]
  | hline line rest hline ih =>
    -- A line behind the first one has the first line and its line feed in front of it.
    have hshift (front segment : List Char) :
        ofPlace (number + 1) (start + byteSize (line ++ ['\n'])) front segment =
          ofPlace number start (line ++ '\n' :: front) segment := by
      have hcount : line.count '\n' = 0 := List.count_eq_zero.2 hline
      have hnumber : number + 1 + front.count '\n' =
          number + (line ++ '\n' :: front).count '\n' := by
        rw [List.count_append, List.count_cons_self, hcount]
        omega
      have hstart : start + byteSize (line ++ ['\n']) + byteSize front =
          start + byteSize (line ++ '\n' :: front) := by
        simp only [byteSize_append, byteSize_cons, byteSize_nil]
        omega
      simp only [ofPlace, hnumber, hstart]
    rw [ofPieces_line hline, List.mem_cons, ih]
    simp only [isLine_line_iff hline, hshift]
    constructor
    · rintro (rfl | ⟨front, segment, back, h, rfl⟩)
      · exact ⟨[], line, '\n' :: rest, .inl ⟨rfl, rfl, rfl⟩, rfl⟩
      · exact ⟨_, segment, back, .inr ⟨front, rfl, h⟩, rfl⟩
    · rintro ⟨front, segment, back, ⟨rfl, rfl, rfl⟩ | ⟨front, rfl, h⟩, rfl⟩
      · exact .inl rfl
      · exact .inr ⟨front, segment, back, h, rfl⟩

/-- The lines of a text: their numbers tell how many line feeds stand in front of them. -/
theorem mem_ofText_iff (text : String) (found : SourceLine) :
    found ∈ ofText text ↔ ∃ front segment back, IsLine text.toList front segment back ∧
      found = ⟨front.count '\n' + 1, Span.behind front segment,
        Token.ofLine (byteSize front) segment⟩ := by
  have hplace (front segment : List Char) : ofPlace 1 0 front segment =
      ⟨front.count '\n' + 1, Span.behind front segment,
        Token.ofLine (byteSize front) segment⟩ := by
    simp [ofPlace, Span.behind, Nat.add_comm]
  simp only [ofText, mem_ofPieces_iff, hplace]

theorem numbers_ofPieces (number start : Nat) (pieces : List (List Char)) :
    (ofPieces number start [] pieces).map SourceLine.number =
      List.range' number pieces.length := by
  induction pieces generalizing number start with
  | nil => rfl
  | cons piece pieces ih =>
    rw [ofPieces, ofPieces_eq, List.map_append, ih, List.length_cons, List.range'_succ]
    rfl

theorem numbers_ofText (text : String) :
    (ofText text).map SourceLine.number = List.range' 1 (ofText text).length := by
  have hnumbers := numbers_ofPieces 1 0 (pieces text.toList)
  have hlength := congrArg List.length hnumbers
  rw [List.length_map, List.length_range'] at hlength
  rw [ofText, hnumbers, hlength]

end SourceLine

end StackMachine.Assembly
