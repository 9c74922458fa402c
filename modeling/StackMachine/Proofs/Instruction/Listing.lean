import StackMachine.Listing
import StackMachine.Proofs.Instruction.Codec
import StackMachine.Proofs.Instruction.Decode

/-!
# Listings without a failure

A listing that does not fail goes through the whole image: each instruction that it shows is read at
its offset, and behind it stands the next one, or the end of the image.

* `Decodes`: instructions that are read one after the other, up to the end of a byte string.
* `ofBytes_decodes`: a listing without a failure shows such instructions.
* `Decodes.next`: what follows an instruction.
* `Decodes.boundary`: what follows a number of instructions.
-/

namespace StackMachine.Listing

variable {registry : Registry} {bytes : Bytes} {offset : Nat}

/-- The instructions that a listing shows, with their offsets. -/
def steps (listing : Listing) : List (Nat × Instruction) :=
  listing.lines.toList.filterMap fun
    | .instruction offset _ content => some (offset, content)
    | .header _ _ => none

/-- The offsets of the instructions that a listing shows. -/
def offsets (listing : Listing) : List Nat :=
  listing.steps.map Prod.fst

theorem map_snd_steps (listing : Listing) : listing.steps.map Prod.snd = listing.instructions := by
  rw [steps, instructions, List.map_filterMap]
  congr 1
  funext line
  cases line <;> rfl

/-- Instructions that are read one after the other, from an offset on up to the end. -/
inductive Decodes (registry : Registry) (bytes : Bytes) : Nat → List (Nat × Instruction) → Prop
  | nil : Decodes registry bytes bytes.size []
  | cons {offset : Nat} {i : Instruction} {steps : List (Nat × Instruction)} :
      Instruction.decode registry bytes offset = .ok i →
      Decodes registry bytes (offset + i.definition.size) steps →
      Decodes registry bytes offset ((offset, i) :: steps)

theorem readFrom_decodes (lines : Array ListingLine) (hoffset : offset ≤ bytes.size)
    (h : (readFrom registry bytes offset lines).failure = none) :
    ∃ steps, Decodes registry bytes offset steps ∧
      (readFrom registry bytes offset lines).steps = (Listing.mk lines none).steps ++ steps := by
  -- The lines so far are only added to, so the instructions of the rest come behind theirs.
  induction offset, lines using readFrom.induct registry bytes with
  | case1 offset lines hlt i hdecode hpos next ih =>
    have hunfold : readFrom registry bytes offset lines =
        readFrom registry bytes next
          (lines.push (.instruction offset (bytes.extract offset next) i)) := by
      rw [readFrom, if_pos hlt, hdecode]
    obtain ⟨_, _, _, hnext, _⟩ := Instruction.decode_eq_ok hdecode
    rw [hunfold] at h ⊢
    obtain ⟨steps, hsteps, heq⟩ := ih hnext h
    refine ⟨(offset, i) :: steps, .cons hdecode hsteps, heq.trans ?_⟩
    simp [Listing.steps]
  | case2 offset lines hlt e hdecode =>
    rw [readFrom, if_pos hlt, hdecode] at h
    cases h
  | case3 offset lines hge =>
    obtain rfl : offset = bytes.size := by omega
    refine ⟨[], .nil, ?_⟩
    rw [readFrom, if_neg hge, List.append_nil]

theorem ofBytes_decodes (h : (ofBytes registry bytes).failure = none) :
    Decodes registry bytes Header.size (ofBytes registry bytes).steps := by
  unfold ofBytes at h ⊢
  split
  · rename_i hread
    simp only [hread] at h
    cases h
  · rename_i header hread
    simp only [hread] at h
    have hsize : Header.size ≤ bytes.size := by
      unfold Header.ofBytes? at hread
      split at hread
      · assumption
      · cases hread
    by_cases hmagic : header.hasMagic = true
    · rw [if_pos hmagic] at h ⊢
      obtain ⟨steps, hsteps, heq⟩ := readFrom_decodes _ hsize h
      rw [heq]
      exact hsteps
    · rw [if_neg hmagic] at h
      cases h

namespace Decodes

variable {steps : List (Nat × Instruction)}

theorem offset_mem (h : Decodes registry bytes offset steps) :
    offset ∈ steps.map Prod.fst ∨ offset = bytes.size := by
  cases h with
  | nil => exact .inr rfl
  | cons _ _ => exact .inl List.mem_cons_self

/-- An instruction that is shown is read at its offset, and the next one stands behind it. -/
theorem next {address : Nat} {i : Instruction} (h : Decodes registry bytes offset steps)
    (hmem : (address, i) ∈ steps) :
    Instruction.decode registry bytes address = .ok i ∧
      (address + i.definition.size ∈ steps.map Prod.fst ∨
        address + i.definition.size = bytes.size) := by
  induction h with
  | nil => cases hmem
  | @cons offset first steps hdecode hrest ih =>
    rcases List.mem_cons.1 hmem with heq | hmem
    · cases heq
      refine ⟨hdecode, hrest.offset_mem.imp_left fun h => ?_⟩
      exact List.mem_cons_of_mem _ h
    · obtain ⟨hread, hnext⟩ := ih hmem
      exact ⟨hread, hnext.imp_left fun h => List.mem_cons_of_mem _ h⟩

/-- Behind the first instructions stands the next one, or the end. -/
theorem boundary {before after : List Instruction} (h : Decodes registry bytes offset steps)
    (hsteps : steps.map Prod.snd = before ++ after) :
    let address := offset + (before.map fun i => i.definition.size).sum
    address ∈ steps.map Prod.fst ∨ address = bytes.size := by
  induction before generalizing offset steps with
  | nil => exact h.offset_mem
  | cons i before ih =>
    cases h with
    | nil => cases hsteps
    | @cons _ first steps hdecode hrest =>
      rw [List.map_cons, List.cons_append, List.cons.injEq] at hsteps
      obtain ⟨rfl, hsteps⟩ := hsteps
      intro address
      have haddress : address =
          offset + first.definition.size + (before.map fun i => i.definition.size).sum := by
        simp only [address, List.map_cons, List.sum_cons]
        omega
      rw [haddress]
      exact (ih hrest hsteps).imp_left fun h => List.mem_cons_of_mem _ h

end Decodes

end StackMachine.Listing
