import Mathlib.Data.List.SplitBy
import Mathlib.Data.List.TakeWhile
import StackMachine.Proofs.Text.Decoding
import StackMachine.Proofs.Text.Runs

/-!
# Words of a list

The words of a list are its longest runs of elements that are not blank. A list is read from the
left: a blank is passed over, and a word goes on to the next blank or to the end.

* `IsWords`: the words of a list, read in this way.
* `isWords_iff`: they are those that the blocks of the list make.
* `getElem?_wordsBy_iff`: they are the longest runs, numbered by how many there are in front.
* `IsWords.flatMap`: what is written for the elements has the words that are written.
* `isWords_encode`: between the blanks of ASCII, a text and its bytes have the same words.
-/

namespace StackMachine.Text

variable {α β : Type} {blank : α → Bool} {a : α} {l l' word : List α} {ws : List (List α)}

/-- The longest runs of elements that are not blank, in order. -/
def wordsBy (blank : α → Bool) (l : List α) : List (List α) :=
  (l.splitBy fun a b => blank a == blank b).filter fun run => !run.all blank

theorem words_eq_wordsBy (cs : List Char) : words cs = wordsBy isBlank cs := rfl

/-- That a list has some words, in order. -/
inductive IsWords (blank : α → Bool) : List α → List (List α) → Prop where
  | nil : IsWords blank [] []
  | blank {a : α} {l : List α} {ws : List (List α)} (h : blank a = true)
      (hrest : IsWords blank l ws) : IsWords blank (a :: l) ws
  | word {word rest : List α} {ws : List (List α)} (hne : word ≠ [])
      (hword : ∀ a ∈ word, blank a = false) (hend : ∀ a ∈ rest.head?, blank a = true)
      (hrest : IsWords blank rest ws) : IsWords blank (word ++ rest) (word :: ws)

/-! ## The blocks of a list -/

theorem wordsBy_append (h : ∀ a ∈ l.getLast?, ∀ b ∈ l'.head?, (blank a == blank b) = false) :
    wordsBy blank (l ++ l') = wordsBy blank l ++ wordsBy blank l' := by
  rw [wordsBy, List.splitBy_append h, List.filter_append]
  rfl

theorem wordsBy_of_blank (h : ∀ a ∈ l, blank a = true) : wordsBy blank l = [] := by
  rw [wordsBy, List.filter_eq_nil_iff]
  intro run hrun
  have hmem : ∀ a ∈ run, a ∈ l := fun a ha => by
    rw [← List.flatten_splitBy (fun a b => blank a == blank b) l]
    exact List.mem_flatten_of_mem hrun ha
  simpa using fun a ha => h a (hmem a ha)

theorem wordsBy_of_word (hne : word ≠ []) (h : ∀ a ∈ word, blank a = false) :
    wordsBy blank word = [word] := by
  have hchain : word.IsChain fun a b => (blank a == blank b) = true := by
    refine List.Pairwise.isChain (List.Pairwise.imp_of_mem ?_ (List.pairwise_of_forall
      fun _ _ => trivial))
    intro a b ha hb _
    simp [h a ha, h b hb]
  rw [wordsBy, List.splitBy_of_isChain hne hchain]
  obtain ⟨a, rest, rfl⟩ := List.exists_cons_of_ne_nil hne
  simp [h a List.mem_cons_self]

theorem wordsBy_cons_blank (h : blank a = true) : wordsBy blank (a :: l) = wordsBy blank l := by
  -- The blanks at the start of the rest are one block with the first one.
  obtain ⟨front, rest, rfl, hfront, hrest⟩ : ∃ front rest, l = front ++ rest ∧
      (∀ b ∈ front, blank b = true) ∧ ∀ b ∈ rest.head?, blank b = false :=
    ⟨l.takeWhile blank, l.dropWhile blank, (List.takeWhile_append_dropWhile).symm,
      fun b hb => List.mem_takeWhile_imp hb, fun b hb => by
        have hstop := List.head?_dropWhile_not blank l
        rwa [hb] at hstop⟩
  have hall : ∀ b ∈ a :: front, blank b = true := List.forall_mem_cons.2 ⟨h, hfront⟩
  have hborder {l : List α} (hl : ∀ b ∈ l, blank b = true) (b : α) (hb : b ∈ l.getLast?) (d : α)
      (hd : d ∈ rest.head?) : (blank b == blank d) = false := by
    rw [hl b (List.mem_of_mem_getLast? hb), hrest d hd]
    rfl
  rw [← List.cons_append, wordsBy_append (hborder hall), wordsBy_append (hborder hfront),
    wordsBy_of_blank hall, wordsBy_of_blank hfront]

theorem IsWords.wordsBy_eq (h : IsWords blank l ws) : wordsBy blank l = ws := by
  induction h with
  | nil => rfl
  | blank h _ ih => rw [wordsBy_cons_blank h, ih]
  | word hne hword hend _ ih =>
    rw [wordsBy_append, wordsBy_of_word hne hword, ih, List.singleton_append]
    intro a ha b hb
    rw [hword a (List.mem_of_mem_getLast? ha), hend b hb]
    rfl

/-- An element that is not blank, with a blank or nothing behind it, is a word. -/
theorem IsWords.cons_word (h : IsWords blank l ws) (ha : blank a = false)
    (hend : ∀ b ∈ l.head?, blank b = true) : IsWords blank (a :: l) ([a] :: ws) := by
  rw [← List.singleton_append]
  exact .word (List.cons_ne_nil a []) (List.forall_mem_singleton.2 ha) hend h

theorem exists_isWords (blank : α → Bool) (l : List α) : ∃ ws, IsWords blank l ws := by
  induction l with
  | nil => exact ⟨[], .nil⟩
  | cons a l ih =>
    obtain ⟨ws, h⟩ := ih
    cases ha : blank a with
    | true => exact ⟨ws, .blank ha h⟩
    | false =>
      -- The element starts a word, or it goes in front of the one that starts behind it.
      cases h with
      | nil => exact ⟨[[a]], (IsWords.nil).cons_word ha nofun⟩
      | @blank b l _ hb hrest =>
        refine ⟨[a] :: ws, (IsWords.blank hb hrest).cons_word ha fun c hc => ?_⟩
        cases hc
        exact hb
      | @word word rest ws hne hword hend hrest =>
        refine ⟨(a :: word) :: ws, ?_⟩
        rw [← List.cons_append]
        exact .word (List.cons_ne_nil a word) (List.forall_mem_cons.2 ⟨ha, hword⟩) hend hrest

/-- Every list has one list of words. -/
theorem isWords_iff : IsWords blank l ws ↔ wordsBy blank l = ws := by
  refine ⟨IsWords.wordsBy_eq, ?_⟩
  rintro rfl
  obtain ⟨ws, h⟩ := exists_isWords blank l
  rwa [h.wordsBy_eq]

theorem IsWords.ne_nil_of_mem (h : IsWords blank l ws) (hword : word ∈ ws) : word ≠ [] := by
  induction h with
  | nil => cases hword
  | blank _ _ ih => exact ih hword
  | word hne _ _ _ ih =>
    rcases List.mem_cons.1 hword with rfl | hword
    · exact hne
    · exact ih hword

theorem IsWords.congr {blank' : α → Bool} (h : IsWords blank l ws)
    (heq : ∀ a ∈ l, blank a = blank' a) : IsWords blank' l ws := by
  induction h with
  | nil => exact .nil
  | blank ha _ ih =>
    rw [List.forall_mem_cons] at heq
    exact .blank (heq.1 ▸ ha) (ih heq.2)
  | word hne hword hend _ ih =>
    rw [List.forall_mem_append] at heq
    refine .word hne (fun a ha => ?_) (fun a ha => ?_) (ih heq.2)
    · rw [← heq.1 a ha, hword a ha]
    · rw [← heq.2 a (List.mem_of_mem_head? ha), hend a ha]

/-! ## Words and their places -/

/-- A longest run is a word, and the other words are those in front of it and behind it. -/
theorem IsRun.wordsBy_eq {front back : List α}
    (h : IsRun (fun a => !blank a) l front word back) :
    wordsBy blank l = wordsBy blank front ++ word :: wordsBy blank back := by
  have hword : ∀ a ∈ word, blank a = false := fun a ha => by simpa using h.all a ha
  rw [h.eq, List.append_assoc, wordsBy_append, wordsBy_append, wordsBy_of_word h.ne_nil hword,
    List.singleton_append]
  · intro a ha b hb
    have hb' : blank b = true := by simpa using h.back_head b hb
    rw [hword a (List.mem_of_mem_getLast? ha), hb']
    rfl
  · intro a ha b hb
    have ha' : blank a = true := by simpa using h.front_last a ha
    rw [List.head?_append_of_ne_nil _ h.ne_nil] at hb
    rw [ha', hword b (List.mem_of_mem_head? hb)]
    rfl

theorem IsWords.exists_isRun (h : IsWords blank l ws) {i : Nat} (hword : ws[i]? = some word) :
    ∃ front back, IsRun (fun a => !blank a) l front word back ∧
      (wordsBy blank front).length = i := by
  induction h generalizing i with
  | nil => cases hword
  | @blank a l ws ha hrest ih =>
    obtain ⟨front, back, hrun, hcount⟩ := ih hword
    refine ⟨a :: front, back, ⟨by rw [hrun.eq]; rfl, hrun.ne_nil, hrun.all, ?_, hrun.back_head⟩, ?_⟩
    · intro b hb
      cases front with
      | nil =>
        cases hb
        simpa using ha
      | cons c front => exact hrun.front_last b hb
    · rw [wordsBy_cons_blank ha, hcount]
  | @word first rest ws hne hfirst hend hrest ih =>
    cases i with
    | zero =>
      cases hword
      refine ⟨[], rest, ⟨rfl, hne, ?_, nofun, ?_⟩, rfl⟩
      · simpa using hfirst
      · simpa using hend
    | succ i =>
      obtain ⟨front, back, hrun, hcount⟩ := ih hword
      -- There is a blank behind the first word, so the run does not start there.
      have hfront : front ≠ [] := by
        rintro rfl
        obtain ⟨b, hb⟩ := Option.isSome_iff_exists.1 (List.isSome_head?.2 hrun.ne_nil)
        have hblank : blank b = true := by
          apply hend b
          rwa [hrun.eq, List.nil_append, List.head?_append_of_ne_nil _ hrun.ne_nil]
        have hb' := hrun.all b (List.mem_of_mem_head? hb)
        simp [hblank] at hb'
      have hborder : ∀ b ∈ front.head?, blank b = true := by
        intro b hb
        apply hend b
        rwa [hrun.eq, List.append_assoc, List.head?_append_of_ne_nil _ hfront]
      refine ⟨first ++ front, back, ⟨by rw [hrun.eq]; simp, hrun.ne_nil, hrun.all, ?_,
        hrun.back_head⟩, ?_⟩
      · intro b hb
        rw [List.getLast?_append_of_ne_nil _ hfront] at hb
        exact hrun.front_last b hb
      · have hwords := (IsWords.word hne hfirst hborder (isWords_iff.2 rfl)).wordsBy_eq
        rw [hwords, List.length_cons, hcount]

/-- The words of a list are its longest runs; the number of a word tells how many there are in front
of it. -/
theorem getElem?_wordsBy_iff {i : Nat} : (wordsBy blank l)[i]? = some word ↔ ∃ front back,
    IsRun (fun a => !blank a) l front word back ∧ (wordsBy blank front).length = i := by
  constructor
  · exact (isWords_iff.2 rfl).exists_isRun
  · rintro ⟨front, back, hrun, rfl⟩
    rw [hrun.wordsBy_eq, List.getElem?_append_right (Nat.le_refl _), Nat.sub_self]
    rfl

/-! ## Words that are written -/

theorem IsWords.append_blanks {front : List α} (h : IsWords blank l ws)
    (hfront : ∀ a ∈ front, blank a = true) : IsWords blank (front ++ l) ws := by
  induction front with
  | nil => exact h
  | cons a front ih =>
    rw [List.forall_mem_cons] at hfront
    exact .blank hfront.1 (ih hfront.2)

/-- What is written for the elements has the words that are written, if only blanks are written for
a blank, and no blank for another element. -/
theorem IsWords.flatMap {f : α → List β} {blank' : β → Bool} (h : IsWords blank l ws)
    (hne : ∀ a, f a ≠ []) (hf : ∀ a, ∀ b ∈ f a, blank' b = blank a) :
    IsWords blank' (l.flatMap f) (ws.map fun word => word.flatMap f) := by
  induction h with
  | nil => exact .nil
  | @blank a l ws ha _ ih =>
    exact ih.append_blanks fun b hb => (hf a b hb).trans ha
  | @word word rest ws hword hall hend _ ih =>
    rw [List.flatMap_append, List.map_cons]
    refine .word ?_ ?_ ?_ ih
    · obtain ⟨a, word, rfl⟩ := List.exists_cons_of_ne_nil hword
      rw [List.flatMap_cons]
      exact List.append_ne_nil_of_left_ne_nil (hne a) _
    · intro b hb
      obtain ⟨a, ha, hb⟩ := List.mem_flatMap.1 hb
      rw [hf a b hb, hall a ha]
    · intro b hb
      cases rest with
      | nil => cases hb
      | cons a rest =>
        rw [List.flatMap_cons, List.head?_append_of_ne_nil _ (hne a)] at hb
        rw [hf a b (List.mem_of_mem_head? hb), hend a rfl]

/-! ## Words of a text and of its bytes -/

/-- Whether a character is a space, a tab, a line feed, a form feed or a carriage return. -/
def isPlainBlank (c : Char) : Bool :=
  c == ' ' || c == '\t' || c == '\n' || c == '\x0c' || c == '\r'

theorem isPlainBlank_iff {c : Char} :
    isPlainBlank c = true ↔ c.val.toNat = 0x20 ∨ c.val.toNat = 0x09 ∨ c.val.toNat = 0x0a ∨
      c.val.toNat = 0x0c ∨ c.val.toNat = 0x0d := by
  simp [isPlainBlank, Char.ext_iff, ← UInt32.toNat_inj, or_assoc]

theorem isBlank_of_isPlainBlank {c : Char} (h : isPlainBlank c = true) : isBlank c = true := by
  simp only [isPlainBlank, Bool.or_eq_true, beq_iff_eq] at h
  rcases h with (((rfl | rfl) | rfl) | rfl) | rfl <;> decide

theorem isBlankByte_iff {b : UInt8} :
    isBlankByte b = true ↔ b.toNat = 0x20 ∨ b.toNat = 0x09 ∨ b.toNat = 0x0a ∨ b.toNat = 0x0c ∨
      b.toNat = 0x0d := by
  simp [isBlankByte, ← UInt8.toNat_inj, or_assoc]

/-- A blank is one byte, and no byte of another character looks like it. -/
theorem isBlankByte_of_mem_utf8EncodeChar {c : Char} {b : UInt8}
    (h : b ∈ String.utf8EncodeChar c) : isBlankByte b = isPlainBlank c := by
  have hbyte := toNat_of_mem_utf8EncodeChar h
  rw [Bool.eq_iff_iff, isBlankByte_iff, isPlainBlank_iff]
  omega

theorem isWords_encode (cs : List Char) :
    IsWords isBlankByte (encode cs) ((wordsBy isPlainBlank cs).map encode) :=
  (isWords_iff.2 rfl).flatMap (fun _ => String.utf8EncodeChar_ne_nil)
    (fun _ _ => isBlankByte_of_mem_utf8EncodeChar)

end StackMachine.Text
