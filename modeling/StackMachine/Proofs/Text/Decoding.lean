import Mathlib.Order.Bounds.Basic
import StackMachine.Text.Utf8

/-!
# Texts and their bytes

Byte strings that are decoded are those that consist of the bytes of characters, one character after
the other. A byte string that is not decoded is refused at the end of its longest part, from the
start on, that is decoded.

* `decode_eq_ok_iff`: which byte strings are decoded, and to what.
* `characterSize?_eq_some_iff`: where a character starts, and how many bytes it has.
* `isLongestText_firstUndecodable`, `decode_eq_error`: the place of the first bad byte.
-/

namespace StackMachine.Text

variable {bytes : Bytes} {offset size : Nat} {c : Char} {rest : List UInt8}

/-- The bytes of some characters. -/
def encode (cs : List Char) : List UInt8 :=
  cs.flatMap String.utf8EncodeChar

theorem encode_cons (c : Char) (cs : List Char) :
    encode (c :: cs) = String.utf8EncodeChar c ++ encode cs := rfl

theorem toList_ofString (s : String) : (Bytes.ofString s).toList = encode s.toList := by
  have hbytes : s.toUTF8.data = s.toList.utf8Encode.data := by
    rw [String.utf8Encode_toList]
    rfl
  rw [Bytes.ofString, hbytes, List.utf8Encode, List.data_toByteArray]
  rfl

/-! ## Decoding -/

theorem decode_eq_ok_iff {text : String} :
    decode bytes = .ok text ↔ bytes.toList = encode text.toList := by
  constructor
  · intro h
    unfold decode String.fromUTF8? at h
    split at h
    · rename_i hsome
      cases h
      split at hsome
      · cases hsome
        exact toList_ofString (String.fromUTF8 ⟨bytes⟩ _)
      · cases hsome
    · cases h
  · intro h
    rw [← toList_ofString, Array.toList_inj] at h
    rw [h, decode_ofString]

theorem decode_isOk_iff : (∃ text, decode bytes = .ok text) ↔ ∃ cs, bytes.toList = encode cs := by
  simp only [decode_eq_ok_iff]
  constructor
  · rintro ⟨text, h⟩
    exact ⟨text.toList, h⟩
  · rintro ⟨cs, h⟩
    exact ⟨String.ofList cs, by rw [String.toList_ofList, h]⟩

/-! ## Characters -/

/-- That a byte continues a character. -/
def IsTail (b : UInt8) : Prop :=
  0x80 ≤ b.toNat ∧ b.toNat ≤ 0xbf

/-- The byte strings that are one character: neither longer than needed, nor a surrogate, nor beyond
the last code point. -/
def IsCharacter : List UInt8 → Prop
  | [a] => a.toNat < 0x80
  | [a, b] => 0xc2 ≤ a.toNat ∧ a.toNat < 0xe0 ∧ IsTail b
  | [a, b, c] => 0xe0 ≤ a.toNat ∧ a.toNat < 0xf0 ∧ IsTail b ∧ IsTail c ∧
    (a.toNat = 0xe0 → 0xa0 ≤ b.toNat) ∧ (a.toNat = 0xed → b.toNat ≤ 0x9f)
  | [a, b, c, d] => 0xf0 ≤ a.toNat ∧ a.toNat < 0xf5 ∧ IsTail b ∧ IsTail c ∧ IsTail d ∧
    (a.toNat = 0xf0 → 0x90 ≤ b.toNat) ∧ (a.toNat = 0xf4 → b.toNat ≤ 0x8f)
  | _ => False

theorem isContinuation_iff {b : Option UInt8} :
    isContinuation b = true ↔ ∃ b', b = some b' ∧ IsTail b' := by
  cases b <;> simp [isContinuation, IsTail, UInt8.le_iff_toNat_le]

theorem isBetween_iff {low high : UInt8} {b : Option UInt8} :
    isBetween low high b = true ↔ ∃ b', b = some b' ∧ low.toNat ≤ b'.toNat ∧
      b'.toNat ≤ high.toNat := by
  cases b <;> simp [isBetween, UInt8.le_iff_toNat_le]

theorem getElem?_of_drop {l : List UInt8} (h : bytes.toList.drop offset = l) (n : Nat) :
    bytes[offset + n]? = l[n]? := by
  rw [← h, List.getElem?_drop, Array.getElem?_toList]

theorem exists_cons_of_getElem? {l : List UInt8} {b : UInt8} (h : l[0]? = some b) :
    ∃ rest, l = b :: rest := by
  rwa [← List.head?_eq_getElem?, List.head?_eq_some_iff] at h

/-- The bounds that a lead byte sets for the byte behind it, if only one lead byte narrows each. -/
theorem le_ite_iff {a special low high b : UInt8} (h : low ≤ high) :
    (if a = special then high else low).toNat ≤ b.toNat ↔
      low.toNat ≤ b.toNat ∧ (a.toNat = special.toNat → high.toNat ≤ b.toNat) := by
  rw [UInt8.le_iff_toNat_le] at h
  rw [UInt8.toNat_inj]
  split
  · simp_all
    omega
  · simp_all

theorem ite_le_iff {a special low high b : UInt8} (h : low ≤ high) :
    b.toNat ≤ (if a = special then low else high).toNat ↔
      b.toNat ≤ high.toNat ∧ (a.toNat = special.toNat → b.toNat ≤ low.toNat) := by
  rw [UInt8.le_iff_toNat_le] at h
  rw [UInt8.toNat_inj]
  split
  · simp_all
    omega
  · simp_all

theorem isCharacter_of_characterSize? (h : characterSize? bytes offset = some size) :
    ∃ l rest, bytes.toList.drop offset = l ++ rest ∧ l.length = size ∧ IsCharacter l := by
  have hget : ∀ n, bytes[offset + n]? = (bytes.toList.drop offset)[n]? := getElem?_of_drop rfl
  generalize bytes.toList.drop offset = l at hget
  have hfirst := hget 0
  rw [Nat.add_zero] at hfirst
  unfold characterSize? at h
  cases l with
  | nil =>
    simp only [hfirst] at h
    cases h
  | cons a l =>
    simp only [hfirst, List.getElem?_cons_zero] at h
    simp only [UInt8.lt_iff_toNat_lt, UInt8.reduceToNat] at h
    split at h
    · rename_i ha
      cases h
      exact ⟨[a], l, rfl, rfl, ha⟩
    split at h
    · cases h
    split at h
    · rename_i hlow hhigh
      rw [Option.ite_none_right_eq_some, isContinuation_iff, hget] at h
      obtain ⟨⟨b, hb, htail⟩, heq⟩ := h
      obtain ⟨l, rfl⟩ := exists_cons_of_getElem? hb
      cases heq
      exact ⟨[a, b], l, rfl, rfl, by omega, hhigh, htail⟩
    split at h
    · rename_i hlow hhigh
      rw [Option.ite_none_right_eq_some, Bool.and_eq_true, isBetween_iff, isContinuation_iff,
        hget, hget] at h
      obtain ⟨⟨⟨b, hb, hleast, hmost⟩, d, hd, htail⟩, heq⟩ := h
      obtain ⟨l, rfl⟩ := exists_cons_of_getElem? hb
      obtain ⟨l, rfl⟩ := exists_cons_of_getElem? hd
      cases heq
      obtain ⟨hleast, hspecial⟩ := (le_ite_iff (by decide)).1 hleast
      obtain ⟨hmost, hspecial'⟩ := (ite_le_iff (by decide)).1 hmost
      exact ⟨[a, b, d], l, rfl, rfl, by omega, hhigh, ⟨hleast, hmost⟩, htail, hspecial, hspecial'⟩
    split at h
    · rename_i hlow hhigh
      rw [Option.ite_none_right_eq_some, Bool.and_eq_true, Bool.and_eq_true, isBetween_iff,
        isContinuation_iff, isContinuation_iff, hget, hget, hget] at h
      obtain ⟨⟨⟨⟨b, hb, hleast, hmost⟩, d, hd, htail⟩, e, he, htail'⟩, heq⟩ := h
      obtain ⟨l, rfl⟩ := exists_cons_of_getElem? hb
      obtain ⟨l, rfl⟩ := exists_cons_of_getElem? hd
      obtain ⟨l, rfl⟩ := exists_cons_of_getElem? he
      cases heq
      obtain ⟨hleast, hspecial⟩ := (le_ite_iff (by decide)).1 hleast
      obtain ⟨hmost, hspecial'⟩ := (ite_le_iff (by decide)).1 hmost
      exact ⟨[a, b, d, e], l, rfl, rfl, by omega, hhigh, ⟨hleast, hmost⟩, htail, htail', hspecial,
        hspecial'⟩
    · cases h

theorem characterSize?_of_isCharacter {l : List UInt8} (hl : IsCharacter l)
    (h : bytes.toList.drop offset = l ++ rest) : characterSize? bytes offset = some l.length := by
  have hget := getElem?_of_drop h
  have hfirst := hget 0
  rw [Nat.add_zero] at hfirst
  unfold characterSize?
  match l with
  | [a] =>
    have ha : a.toNat < 0x80 := hl
    simp only [hfirst, List.cons_append, List.getElem?_cons_zero]
    rw [if_pos (UInt8.lt_iff_toNat_lt.2 ha)]
    rfl
  | [a, b] =>
    obtain ⟨hlow, hhigh, htail⟩ := hl
    simp only [hfirst, List.cons_append, List.getElem?_cons_zero, UInt8.lt_iff_toNat_lt,
      UInt8.reduceToNat]
    rw [if_neg (by omega), if_neg (by omega), if_pos hhigh, if_pos]
    · rfl
    · rw [isContinuation_iff]
      exact ⟨b, hget 1, htail⟩
  | [a, b, c] =>
    obtain ⟨hlow, hhigh, htail, htail', hspecial, hspecial'⟩ := hl
    simp only [hfirst, List.cons_append, List.getElem?_cons_zero, UInt8.lt_iff_toNat_lt,
      UInt8.reduceToNat]
    rw [if_neg (by omega), if_neg (by omega), if_neg (by omega), if_pos hhigh, if_pos]
    · rfl
    · rw [Bool.and_eq_true, isBetween_iff, isContinuation_iff]
      exact ⟨⟨b, hget 1, (le_ite_iff (by decide)).2 ⟨htail.1, hspecial⟩,
        (ite_le_iff (by decide)).2 ⟨htail.2, hspecial'⟩⟩, c, hget 2, htail'⟩
  | [a, b, c, d] =>
    obtain ⟨hlow, hhigh, htail, htail', htail'', hspecial, hspecial'⟩ := hl
    simp only [hfirst, List.cons_append, List.getElem?_cons_zero, UInt8.lt_iff_toNat_lt,
      UInt8.reduceToNat]
    rw [if_neg (by omega), if_neg (by omega), if_neg (by omega), if_neg (by omega), if_pos hhigh,
      if_pos]
    · rfl
    · rw [Bool.and_eq_true, Bool.and_eq_true, isBetween_iff, isContinuation_iff,
        isContinuation_iff]
      exact ⟨⟨⟨b, hget 1, (le_ite_iff (by decide)).2 ⟨htail.1, hspecial⟩,
        (ite_le_iff (by decide)).2 ⟨htail.2, hspecial'⟩⟩, c, hget 2, htail'⟩, d, hget 3, htail''⟩

theorem exists_char_of_isValidChar {n : Nat} (h : n.isValidChar) : ∃ c : Char, c.val.toNat = n :=
  ⟨Char.ofNatAux n h, rfl⟩

theorem isCharacter_utf8EncodeChar (c : Char) : IsCharacter (String.utf8EncodeChar c) := by
  have hvalid : c.val.toNat < 0xd800 ∨ 0xdfff < c.val.toNat ∧ c.val.toNat < 0x110000 := c.valid
  unfold String.utf8EncodeChar
  generalize c.val.toNat = v at hvalid
  dsimp only
  split
  · simp only [IsCharacter, UInt8.toNat_ofNat']
    omega
  split
  · simp only [IsCharacter, IsTail, UInt8.toNat_ofNat']
    omega
  split
  · simp only [IsCharacter, IsTail, UInt8.toNat_ofNat']
    omega
  · simp only [IsCharacter, IsTail, UInt8.toNat_ofNat']
    omega

/-- A character is one byte below 0x80, or bytes that are all beyond it. -/
theorem toNat_of_mem_utf8EncodeChar {b : UInt8} (h : b ∈ String.utf8EncodeChar c) :
    b.toNat = c.val.toNat ∨ 0x80 ≤ b.toNat ∧ 0x80 ≤ c.val.toNat := by
  unfold String.utf8EncodeChar at h
  dsimp only at h
  repeat' split at h
  all_goals
    simp only [List.mem_cons, List.not_mem_nil, or_false, ← UInt8.toNat_inj,
      UInt8.toNat_ofNat'] at h
    omega

theorem exists_utf8EncodeChar {l : List UInt8} (h : IsCharacter l) :
    ∃ c, l = String.utf8EncodeChar c := by
  unfold String.utf8EncodeChar
  dsimp only
  match l with
  | [a] =>
    have ha : a.toNat < 0x80 := h
    obtain ⟨c, hc⟩ := exists_char_of_isValidChar (n := a.toNat) (.inl (by omega))
    refine ⟨c, ?_⟩
    rw [hc, if_pos (by omega), UInt8.ofNat_toNat]
  | [a, b] =>
    simp only [IsCharacter, IsTail] at h
    obtain ⟨c, hc⟩ := exists_char_of_isValidChar
      (n := (a.toNat - 192) * 64 + (b.toNat - 128)) (.inl (by omega))
    refine ⟨c, ?_⟩
    rw [hc, if_neg (by omega), if_pos (by omega)]
    simp only [List.cons.injEq, and_true, ← UInt8.toNat_inj, UInt8.toNat_ofNat']
    omega
  | [a, b, d] =>
    simp only [IsCharacter, IsTail] at h
    -- The bounds on the second byte leave out long forms and surrogates.
    obtain ⟨c, hc⟩ := exists_char_of_isValidChar
      (n := (a.toNat - 224) * 4096 + (b.toNat - 128) * 64 + (d.toNat - 128)) (by
        unfold Nat.isValidChar
        omega)
    refine ⟨c, ?_⟩
    rw [hc, if_neg (by omega), if_neg (by omega), if_pos (by omega)]
    simp only [List.cons.injEq, and_true, ← UInt8.toNat_inj, UInt8.toNat_ofNat']
    omega
  | [a, b, d, e] =>
    simp only [IsCharacter, IsTail] at h
    obtain ⟨c, hc⟩ := exists_char_of_isValidChar
      (n := (a.toNat - 240) * 262144 + (b.toNat - 128) * 4096 + (d.toNat - 128) * 64 +
        (e.toNat - 128)) (.inr (by omega))
    refine ⟨c, ?_⟩
    rw [hc, if_neg (by omega), if_neg (by omega), if_neg (by omega)]
    simp only [List.cons.injEq, and_true, ← UInt8.toNat_inj, UInt8.toNat_ofNat']
    omega

/-- A character starts at an offset, and has some number of bytes, if its bytes stand there. -/
theorem characterSize?_eq_some_iff :
    characterSize? bytes offset = some size ↔
      ∃ c rest, bytes.toList.drop offset = String.utf8EncodeChar c ++ rest ∧
        c.utf8Size = size := by
  constructor
  · intro h
    obtain ⟨l, rest, hl, hsize, hcharacter⟩ := isCharacter_of_characterSize? h
    obtain ⟨c, rfl⟩ := exists_utf8EncodeChar hcharacter
    exact ⟨c, rest, hl, (String.length_utf8EncodeChar c).symm.trans hsize⟩
  · rintro ⟨c, rest, hl, rfl⟩
    rw [characterSize?_of_isCharacter (isCharacter_utf8EncodeChar c) hl,
      String.length_utf8EncodeChar]

/-! ## The first bad byte -/

/-- That so many bytes are the longest part of a byte string, from its start on, that is decoded. -/
def IsLongestText (bytes : Bytes) (n : Nat) : Prop :=
  IsGreatest {n | n ≤ bytes.size ∧ ∃ text, decode (bytes.extract 0 n) = .ok text} n

theorem toList_extract_zero (n : Nat) : (bytes.extract 0 n).toList = bytes.toList.take n := by
  rw [Array.toList_extract, List.extract_eq_take_drop, List.drop_zero, Nat.sub_zero]

/-- A byte string starts with one character at most. -/
theorem utf8EncodeChar_append_inj {c c' : Char} {rest rest' : List UInt8}
    (h : String.utf8EncodeChar c ++ rest = String.utf8EncodeChar c' ++ rest') :
    String.utf8EncodeChar c = String.utf8EncodeChar c' ∧ rest = rest' := by
  have hsize : characterSize? (String.utf8EncodeChar c ++ rest).toArray 0 = some c.utf8Size :=
    characterSize?_eq_some_iff.2 ⟨c, rest, rfl, rfl⟩
  have hsize' : characterSize? (String.utf8EncodeChar c ++ rest).toArray 0 = some c'.utf8Size :=
    characterSize?_eq_some_iff.2 ⟨c', rest', h, rfl⟩
  refine List.append_inj h ?_
  rw [String.length_utf8EncodeChar, String.length_utf8EncodeChar]
  exact Option.some_inj.1 (hsize.symm.trans hsize')

/-- If the characters of a byte string end where no further one starts, then no other characters
reach beyond them. -/
theorem length_encode_le {cs cs' : List Char} {rest rest' : List UInt8}
    (h : encode cs ++ rest = encode cs' ++ rest')
    (hstuck : ∀ c rest'', rest ≠ String.utf8EncodeChar c ++ rest'') :
    (encode cs').length ≤ (encode cs).length := by
  induction cs generalizing cs' with
  | nil =>
    cases cs' with
    | nil => exact le_rfl
    | cons c' cs' =>
      rw [encode_cons, List.append_assoc] at h
      exact absurd h (hstuck c' _)
  | cons c cs ih =>
    cases cs' with
    | nil => exact Nat.zero_le _
    | cons c' cs' =>
      rw [encode_cons, encode_cons, List.append_assoc, List.append_assoc] at h
      obtain ⟨hc, hrest⟩ := utf8EncodeChar_append_inj h
      rw [encode_cons, encode_cons, hc, List.length_append, List.length_append]
      exact Nat.add_le_add_left (ih hrest) _

/-- The walk over the characters of a byte string passes whole characters, and ends where no
further one starts. -/
theorem firstUndecodable_spec {budget : Nat} (offset : Nat) (h : bytes.size ≤ offset + budget) :
    ∃ cs rest, bytes.toList.drop offset = encode cs ++ rest ∧
      firstUndecodable bytes budget offset = offset + (encode cs).length ∧
      ∀ c rest', rest ≠ String.utf8EncodeChar c ++ rest' := by
  induction budget generalizing offset with
  | zero =>
    have hdrop : bytes.toList.drop offset = [] := List.drop_eq_nil_of_le h
    refine ⟨[], [], hdrop, rfl, fun c rest' heq => ?_⟩
    exact String.utf8EncodeChar_ne_nil (List.append_eq_nil_iff.1 heq.symm).1
  | succ budget ih =>
    rw [firstUndecodable]
    split
    · rename_i size hsize
      obtain ⟨c, rest, hrest, rfl⟩ := characterSize?_eq_some_iff.1 hsize
      have hpos := c.utf8Size_pos
      obtain ⟨cs, rest', hrest', hend, hstuck⟩ := ih (offset + c.utf8Size) (by omega)
      refine ⟨c :: cs, rest', ?_, ?_, hstuck⟩
      · rw [← List.drop_drop, hrest, ← String.length_utf8EncodeChar, List.drop_left] at hrest'
        rw [hrest, hrest', encode_cons, List.append_assoc]
      · rw [hend, encode_cons, List.length_append, String.length_utf8EncodeChar, Nat.add_assoc]
    · rename_i hnone
      refine ⟨[], bytes.toList.drop offset, rfl, rfl, fun c rest' heq => ?_⟩
      rw [characterSize?_eq_some_iff.2 ⟨c, rest', heq, rfl⟩] at hnone
      cases hnone

theorem isLongestText_firstUndecodable (bytes : Bytes) :
    IsLongestText bytes (firstUndecodable bytes bytes.size 0) := by
  obtain ⟨cs, rest, hbytes, hend, hstuck⟩ :=
    firstUndecodable_spec 0 (Nat.le_of_eq (Nat.zero_add bytes.size).symm)
  rw [List.drop_zero] at hbytes
  rw [Nat.zero_add] at hend
  rw [hend]
  refine ⟨⟨?_, ?_⟩, ?_⟩
  · rw [← Array.length_toList, hbytes, List.length_append]
    exact Nat.le_add_right _ _
  · rw [decode_isOk_iff, toList_extract_zero, hbytes, List.take_left]
    exact ⟨cs, rfl⟩
  · rintro n ⟨hle, htext⟩
    rw [decode_isOk_iff, toList_extract_zero] at htext
    obtain ⟨cs', hcs'⟩ := htext
    have hsplit : encode cs ++ rest = encode cs' ++ bytes.toList.drop n := by
      rw [← hbytes, ← hcs', List.take_append_drop]
    have hlength := length_encode_le hsplit hstuck
    rwa [← hcs', List.length_take_of_le (by simpa using hle)] at hlength

/-- A byte string that is no text is refused at the end of its longest text. -/
theorem decode_eq_error {n : Nat} (h : decode bytes = .error n) :
    IsLongestText bytes n ∧ n < bytes.size := by
  have hn : firstUndecodable bytes bytes.size 0 = n := by
    unfold decode at h
    split at h
    · cases h
    · injection h
  have hlongest := isLongestText_firstUndecodable bytes
  rw [hn] at hlongest
  refine ⟨hlongest, lt_of_le_of_ne hlongest.1.1 fun hsize => ?_⟩
  obtain ⟨text, htext⟩ := hlongest.1.2
  rw [hsize, Array.extract_size, h] at htext
  cases htext

end StackMachine.Text
