import StackMachine.Text.Numeral
import StackMachine.Text.Visible

/-!
# Quoted text

A text between double quotes. A quote, a backslash, a tab, a line feed, a carriage return and a NUL
are written as a backslash and one more character, any other character that is not visible by its
number; every other character stands for itself.

* `isVisible_of_mem_escape`: all that is written is visible.
-/

namespace StackMachine.Text

/-- How one character is written between quotes. -/
def escape (c : Char) : List Char :=
  if c = '"' then ['\\', '"']
  else if c = '\\' then ['\\', '\\']
  else if c = '\t' then ['\\', 't']
  else if c = '\n' then ['\\', 'n']
  else if c = '\r' then ['\\', 'r']
  else if c.val = 0 then ['\\', '0']
  else if isVisible c then [c]
  else ['\\', 'u', '\x7b'] ++ Nat.toDigits 16 c.toNat ++ ['\x7d']

/-- The text between double quotes. -/
def quoted (s : String) : String :=
  String.ofList ('"' :: (s.toList.flatMap escape ++ ['"']))

theorem isVisible_of_mem_toDigits {n : Nat} {d : Char} (h : d ∈ Nat.toDigits 16 n) :
    isVisible d = true := by
  have hdigit : ∀ k < 16, isVisible (Nat.digitChar k) = true := by decide +kernel
  obtain ⟨k, hk, rfl⟩ := exists_digitChar_of_mem_toDigits (by decide) h
  exact hdigit k hk

theorem isVisible_of_mem_escape {c d : Char} (h : d ∈ escape c) : isVisible d = true := by
  have hall {cs : List Char} (hcs : cs.all isVisible = true) (hd : d ∈ cs) : isVisible d = true :=
    List.all_eq_true.mp hcs d hd
  unfold escape at h
  split at h
  · exact hall (by decide) h
  · split at h
    · exact hall (by decide) h
    · split at h
      · exact hall (by decide) h
      · split at h
        · exact hall (by decide) h
        · split at h
          · exact hall (by decide) h
          · split at h
            · exact hall (by decide) h
            · split at h
              · rw [List.mem_singleton.mp h]
                assumption
              · rcases List.mem_append.mp h with h | h
                · rcases List.mem_append.mp h with h | h
                  · exact hall (by decide) h
                  · exact isVisible_of_mem_toDigits h
                · exact hall (by decide) h

end StackMachine.Text
