import Mathlib.Data.List.SplitBy
import StackMachine.Text.Words

/-!
# Runs and their places

A list is cut into blocks where a relation between neighbours fails. A block and its place are known
from the list alone, without the other blocks. With the relation "of one class" the blocks are the
longest runs of elements of a class.

* `splitBy_eq_append_cons_iff`: the blocks of a list, each with what stands in front of it and
  behind it.
* `byteSize`: how many bytes characters take, which is how places in a text are counted.
-/

namespace StackMachine.Text

variable {α : Type} {l front run back : List α}

/-- A longest run of elements with a property, with what stands in front of it and behind it. -/
structure IsRun (p : α → Bool) (l front run back : List α) : Prop where
  eq : l = front ++ run ++ back
  ne_nil : run ≠ []
  all : ∀ a ∈ run, p a = true
  front_last : ∀ a ∈ front.getLast?, p a = false
  back_head : ∀ a ∈ back.head?, p a = false

/-- A longest part whose neighbours are related, with what stands in front of it and behind it. -/
structure IsBlock (r : α → α → Bool) (l front run back : List α) : Prop where
  eq : l = front ++ run ++ back
  ne_nil : run ≠ []
  isChain : run.IsChain fun a b => r a b = true
  front_last : ∀ a ∈ front.getLast?, ∀ b ∈ run.head?, r a b = false
  back_head : ∀ a ∈ run.getLast?, ∀ b ∈ back.head?, r a b = false

theorem IsRun.congr {p q : α → Bool} (h : IsRun p l front run back) (hpq : ∀ a ∈ l, p a = q a) :
    IsRun q l front run back := by
  have hmem {a : α} (ha : a ∈ front ∨ a ∈ run ∨ a ∈ back) : p a = q a := by
    refine hpq a ?_
    rw [h.eq, List.append_assoc, List.mem_append, List.mem_append]
    exact ha
  refine ⟨h.eq, h.ne_nil, fun a ha => ?_, fun a ha => ?_, fun a ha => ?_⟩
  · rw [← hmem (.inr (.inl ha))]
    exact h.all a ha
  · rw [← hmem (.inl (List.mem_of_mem_getLast? ha))]
    exact h.front_last a ha
  · rw [← hmem (.inr (.inr (List.mem_of_mem_head? ha)))]
    exact h.back_head a ha

/-! ## Blocks -/

theorem IsBlock.splitBy_eq {r : α → α → Bool} (h : IsBlock r l front run back) :
    l.splitBy r = front.splitBy r ++ run :: back.splitBy r := by
  have hhead (b : α) (hb : b ∈ (run ++ back).head?) : b ∈ run.head? := by
    rwa [List.head?_append_of_ne_nil _ h.ne_nil] at hb
  rw [h.eq, List.append_assoc, List.splitBy_append, List.splitBy_append,
    List.splitBy_of_isChain h.ne_nil h.isChain, List.singleton_append]
  · exact h.back_head
  · exact fun a ha b hb => h.front_last a ha b (hhead b hb)

theorem getLast?_flatten_of_mem {blocks : List (List α)} (hne : [] ∉ blocks) {a : α}
    (ha : a ∈ blocks.flatten.getLast?) :
    ∃ rest block, blocks = rest ++ [block] ∧ a ∈ block.getLast? := by
  rcases List.eq_nil_or_concat blocks with rfl | ⟨rest, block, rfl⟩
  · cases ha
  refine ⟨rest, block, by simp, ?_⟩
  have hblock : block ≠ [] := by
    rintro rfl
    simp at hne
  rwa [List.concat_eq_append, List.flatten_append, List.flatten_singleton,
    List.getLast?_append_of_ne_nil _ hblock] at ha

theorem head?_flatten_of_mem {blocks : List (List α)} (hne : [] ∉ blocks) {a : α}
    (ha : a ∈ blocks.flatten.head?) :
    ∃ block rest, blocks = block :: rest ∧ a ∈ block.head? := by
  cases blocks with
  | nil => cases ha
  | cons block rest =>
    refine ⟨block, rest, rfl, ?_⟩
    have hblock : block ≠ [] := by
      rintro rfl
      simp at hne
    rwa [List.flatten_cons, List.head?_append_of_ne_nil _ hblock] at ha

/-- A block of a list, with the blocks in front of it and behind it. -/
theorem isBlock_of_splitBy {r : α → α → Bool} {blocks blocks' : List (List α)}
    (h : l.splitBy r = blocks ++ run :: blocks') :
    IsBlock r l blocks.flatten run blocks'.flatten := by
  have hne : [] ∉ l.splitBy r := List.nil_notMem_splitBy r l
  have hborders := List.isChain_getLast_head_splitBy r l
  have hrun : run ∈ l.splitBy r := by
    rw [h]
    exact List.mem_append_right _ List.mem_cons_self
  rw [h, List.mem_append, List.mem_cons, not_or, not_or] at hne
  rw [h, List.isChain_append, List.isChain_cons] at hborders
  refine ⟨?_, List.ne_nil_of_mem_splitBy hrun, List.isChain_of_mem_splitBy hrun, ?_, ?_⟩
  · rw [← List.flatten_splitBy r l, h]
    simp
  · intro a ha b hb
    obtain ⟨rest, block, rfl, hlast⟩ := getLast?_flatten_of_mem hne.1 ha
    obtain ⟨hblock, hhead, hborder⟩ := hborders.2.2 block (by simp) run rfl
    rwa [List.getLast_of_mem_getLast? hlast, List.head_of_mem_head? hb] at hborder
  · intro a ha b hb
    obtain ⟨block, rest, rfl, hhead⟩ := head?_flatten_of_mem hne.2.2 hb
    obtain ⟨hlast, hblock, hborder⟩ := hborders.2.1.1 block rfl
    rwa [List.getLast_of_mem_getLast? ha, List.head_of_mem_head? hhead] at hborder

/-- The blocks of a list and their places. -/
theorem splitBy_eq_append_cons_iff {r : α → α → Bool} :
    (∃ blocks blocks', l.splitBy r = blocks ++ run :: blocks' ∧ blocks.flatten = front ∧
      blocks'.flatten = back) ↔ IsBlock r l front run back := by
  constructor
  · rintro ⟨blocks, blocks', h, rfl, rfl⟩
    exact isBlock_of_splitBy h
  · intro h
    exact ⟨_, _, h.splitBy_eq, List.flatten_splitBy _ _, List.flatten_splitBy _ _⟩

/-! ## Places in a text -/

/-- The number of bytes that characters take in UTF-8. -/
def byteSize (cs : List Char) : Nat :=
  (String.ofList cs).utf8ByteSize

@[simp]
theorem byteSize_nil : byteSize [] = 0 := rfl

@[simp]
theorem byteSize_cons (c : Char) (cs : List Char) :
    byteSize (c :: cs) = c.utf8Size + byteSize cs := by
  simp [byteSize]

@[simp]
theorem byteSize_append (cs cs' : List Char) :
    byteSize (cs ++ cs') = byteSize cs + byteSize cs' := by
  simp [byteSize]

theorem byteSize_pos {cs : List Char} (h : cs ≠ []) : 0 < byteSize cs := by
  obtain ⟨c, rest, rfl⟩ := List.exists_cons_of_ne_nil h
  have hc := c.utf8Size_pos
  rw [byteSize_cons]
  omega

end StackMachine.Text
