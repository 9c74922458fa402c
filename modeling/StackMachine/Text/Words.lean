import StackMachine.Text.Blank

/-!
# Words of a text

The longest runs of characters that are not blank, in order.
-/

namespace StackMachine.Text

/-- The words of a text. -/
def words (cs : List Char) : List (List Char) :=
  (cs.splitBy fun a b => isBlank a == isBlank b).filter fun run => !run.all isBlank

end StackMachine.Text
