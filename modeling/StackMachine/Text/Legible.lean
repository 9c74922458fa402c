/-!
# Legible text

A display obeys some characters instead of showing them. In legible text each of these is replaced:
a tab by four spaces, a control character by its picture, and a character that turns the direction
of writing by the replacement character; a joiner without width is left out. A line feed stays,
since it ends a line.

* `isLegible_of_mem_legible`: nothing else that a display obeys is left.
-/

namespace StackMachine.Text

/-- Whether a character turns the direction of writing. -/
def isDirectional (c : Char) : Bool :=
  (0x202a ≤ c.toNat && c.toNat ≤ 0x202e) || (0x2066 ≤ c.toNat && c.toNat ≤ 0x2069)

/-- The picture of a control character below the space. -/
def controlPicture (c : Char) : Char :=
  Char.ofNat (0x2400 + c.toNat)

/-- How one character is shown. -/
def legible (c : Char) : List Char :=
  if c = '\t' then [' ', ' ', ' ', ' ']
  else if c = '\n' then [c]
  else if c.toNat < 0x20 then [controlPicture c]
  else if c.toNat = 0x7f then ['\u2421']
  else if c.toNat = 0x200d then []
  else if isDirectional c then ['\ufffd']
  else [c]

/-- Whether a display shows a character, or ends a line at it. -/
def isLegible (c : Char) : Bool :=
  c = '\n' || (0x20 ≤ c.toNat && c.toNat ≠ 0x7f && c.toNat ≠ 0x200d && !isDirectional c)

theorem isLegible_controlPicture {c : Char} (h : c.toNat < 0x20) :
    isLegible (controlPicture c) = true := by
  have hall : ∀ n < 0x20, isLegible (Char.ofNat (0x2400 + n)) = true := by decide
  exact hall c.toNat h

theorem isLegible_of_mem_legible {c d : Char} (h : d ∈ legible c) : isLegible d = true := by
  unfold legible at h
  split at h
  · have hd : d = ' ' := by simpa using h
    rw [hd]
    decide
  · split at h
    · rw [List.mem_singleton.mp h]
      simp_all [isLegible]
    · split at h
      · rw [List.mem_singleton.mp h]
        exact isLegible_controlPicture (by assumption)
      · split at h
        · rw [List.mem_singleton.mp h]
          decide
        · split at h
          · cases h
          · split at h
            · rw [List.mem_singleton.mp h]
              decide
            · rw [List.mem_singleton.mp h]
              simp_all [isLegible]

end StackMachine.Text
