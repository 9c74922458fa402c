/-!
# Windows

A source line is shown through a window of columns. It is the whole line as long as that fits; a
line that is far indented is shown without the greater part of its indentation, and a line that is
wider than the display is cut on both sides of its mark. What is marked counts as text, also where
it is blank.

* `left_around_le`: a window never starts behind the start of the mark.
* `around_eq_whole`: a line that fits and is not far indented is shown as a whole.
-/

namespace StackMachine.Assembly

/-- The columns of a line that are shown: those from `left` on, in front of `right`. -/
structure Window where
  left : Nat
  right : Nat
deriving DecidableEq, Repr

/-- A line as a window is set up for it: the number of its columns, that of its indentation, and the
columns of its mark, from `first` on, in front of `last`. -/
structure MarkedLine where
  columns : Nat
  indentation : Nat
  first : Nat
  last : Nat
deriving DecidableEq, Repr

/-- The number of columns in front of all that is to be seen: text and mark. -/
def MarkedLine.margin (line : MarkedLine) : Nat :=
  min line.indentation line.first

theorem MarkedLine.margin_le_first (line : MarkedLine) : line.margin ≤ line.first :=
  Nat.min_le_right _ _

theorem MarkedLine.margin_le_indentation (line : MarkedLine) : line.margin ≤ line.indentation :=
  Nat.min_le_left _ _

namespace Window

/-- The number of columns of a display. -/
def displayWidth : Nat :=
  140

/-- The greatest margin with which a line is shown in full. -/
def maxMargin : Nat :=
  26

/-- The number of columns that are kept of a greater margin. -/
def keptMargin : Nat :=
  22

/-- The number of columns that are kept around what a window is fitted to. -/
def clearance : Nat :=
  6

/-- The window of a line that is cut on both sides: it starts at the text if the mark is still in
it, else it has the mark in its middle, and it is the mark if even that is too wide. -/
def aroundMark (width : Nat) (line : MarkedLine) : Window :=
  let text := line.margin - clearance
  let start := line.first - clearance
  let stop := line.last + clearance
  if stop - text ≤ width then ⟨text, text + width⟩
  else if stop - start ≤ width then
    let left := start - (width - (stop - start)) / 2
    ⟨left, left + width⟩
  else ⟨start, stop⟩

/-- The window of a line on a display that has `width` columns for it. -/
def around (width : Nat) (line : MarkedLine) : Window :=
  let left := if maxMargin < line.margin then line.margin - keptMargin else 0
  if line.columns - left ≤ width then ⟨left, line.columns⟩ else aroundMark width line

/-- Where the shown part of a line with the given number of columns ends. -/
def stop (w : Window) (width columns : Nat) : Nat :=
  if columns - w.left ≤ width then columns else min columns w.right

theorem left_around_le (width : Nat) (line : MarkedLine) :
    (around width line).left ≤ line.first := by
  have hmargin := line.margin_le_first
  simp only [around, aroundMark]
  repeat' split
  all_goals simp only
  all_goals omega

theorem around_eq_whole {width : Nat} {line : MarkedLine} (hcolumns : line.columns ≤ width)
    (hindentation : line.indentation ≤ maxMargin) :
    around width line = ⟨0, line.columns⟩ := by
  have hmargin : ¬ maxMargin < line.margin :=
    Nat.not_lt.mpr (Nat.le_trans line.margin_le_indentation hindentation)
  simp [around, hmargin, hcolumns]

end Window

end StackMachine.Assembly
