import StackMachine.Proofs.Assembly.Segments

/-!
# Tokens partition their line

The characters of a line in front of its comment are skipped, if they are horizontal blanks, or they
belong to one token. Words and garbage are the longest runs of their characters, and each comma is a
token of its own.

* `isBlock_iff_isRun`, `isBlock_comma_iff`: the blocks of a line, by the class of their characters.
* `mem_ofLine_iff`: the tokens of a line are the blocks that are not skipped.
* `IsLexed`: what the tokens of a line have to be, said from the characters of the line alone.
* `ofText_partition`: the lines of a text are its segments, and their tokens partition them.
-/

namespace StackMachine.Assembly

open StackMachine.Text

variable {cs front run back : List Char} {c : Char} {token : Token}

/-! ## Classes of characters -/

/-- Whether a character separates tokens and is no part of any. -/
def isHorizontalBlank (c : Char) : Bool :=
  c == ' ' || c == '\t' || c == '\r' || c == '\x0b' || c == '\x0c'

/-- Whether a character has the White_Space property, but does not separate tokens. -/
def isForeign (c : Char) : Bool :=
  isBlank c && !isHorizontalBlank c

/-- Whether a character can stand in a word. -/
def isWordChar (c : Char) : Bool :=
  !isBlank c && c != '#' && c != ','

namespace CharClass

theorem isHorizontalBlank_iff :
    isHorizontalBlank c = true ↔ c = ' ' ∨ c = '\t' ∨ c = '\r' ∨ c = '\x0b' ∨ c = '\x0c' := by
  simp [isHorizontalBlank, or_assoc]

theorem ofChar_of_not_blank (h : isHorizontalBlank c = false) :
    ofChar c = if c = ',' then .comma else if isBlank c then .foreign else .word := by
  rw [ofChar, if_neg]
  rw [← isHorizontalBlank_iff, h]
  nofun

theorem ofChar_eq_blank_iff : ofChar c = .blank ↔ isHorizontalBlank c = true := by
  cases h : isHorizontalBlank c with
  | true => simp [ofChar, isHorizontalBlank_iff.1 h]
  | false =>
    rw [ofChar_of_not_blank h]
    split
    · simp
    · split <;> simp

theorem isBlank_of_isHorizontalBlank (h : isHorizontalBlank c = true) : isBlank c = true := by
  rcases isHorizontalBlank_iff.1 h with rfl | rfl | rfl | rfl | rfl <;> decide

theorem ofChar_eq_comma_iff : ofChar c = .comma ↔ c = ',' := by
  constructor
  · intro h
    cases hblank : isHorizontalBlank c with
    | true =>
      rw [ofChar_eq_blank_iff.2 hblank] at h
      cases h
    | false =>
      rw [ofChar_of_not_blank hblank] at h
      split at h
      · assumption
      · split at h <;> cases h
  · rintro rfl
    decide

theorem ofChar_eq_foreign_iff : ofChar c = .foreign ↔ isForeign c = true := by
  cases hblank : isHorizontalBlank c with
  | true => simp [ofChar_eq_blank_iff.2 hblank, isForeign, hblank]
  | false =>
    rw [ofChar_of_not_blank hblank, isForeign, hblank, Bool.not_false, Bool.and_true]
    rcases eq_or_ne c ',' with rfl | hcomma
    · decide
    · rw [if_neg hcomma]
      split <;> simp_all

theorem ofChar_eq_word_iff (hhash : c ≠ '#') : ofChar c = .word ↔ isWordChar c = true := by
  cases hblank : isHorizontalBlank c with
  | true => simp [ofChar_eq_blank_iff.2 hblank, isWordChar, isBlank_of_isHorizontalBlank hblank]
  | false =>
    rw [ofChar_of_not_blank hblank, isWordChar]
    rcases eq_or_ne c ',' with rfl | hcomma
    · decide
    · rw [if_neg hcomma]
      split <;> simp_all

end CharClass

/-! ## Blocks of a line -/

/-- Whether two neighbours belong to one run. -/
def joins (a b : Char) : Bool :=
  CharClass.ofChar a == CharClass.ofChar b && CharClass.ofChar a != .comma

theorem joins_eq_false_iff {a b : Char} (h : CharClass.ofChar a ≠ .comma) :
    joins a b = false ↔ CharClass.ofChar a ≠ CharClass.ofChar b := by
  simp [joins, h]

theorem class_of_isBlock {k : CharClass} (h : IsBlock joins cs front run back)
    (hhead : ∀ c ∈ run.head?, CharClass.ofChar c = k) : ∀ c ∈ run, CharClass.ofChar c = k :=
  Token.class_of_isChain h.isChain hhead

/-- But for commas, a block is a longest run of characters of one class. -/
theorem isBlock_iff_isRun {k : CharClass} (hk : k ≠ .comma) :
    IsBlock joins cs front run back ∧ (∀ c ∈ run.head?, CharClass.ofChar c = k) ↔
      IsRun (fun c => CharClass.ofChar c == k) cs front run back := by
  constructor
  · rintro ⟨h, hhead⟩
    have hclass := class_of_isBlock h hhead
    refine ⟨h.eq, h.ne_nil, fun c hc => beq_iff_eq.2 (hclass c hc), fun a ha => ?_, fun b hb => ?_⟩
    · obtain ⟨c, hc⟩ := Option.isSome_iff_exists.1 (List.isSome_head?.2 h.ne_nil)
      have hborder := h.front_last a ha c hc
      rw [beq_eq_false_iff_ne]
      intro ha'
      rw [joins_eq_false_iff (ha' ▸ hk), ha'] at hborder
      exact hborder (hhead c hc).symm
    · obtain ⟨c, hc⟩ := Option.isSome_iff_exists.1 (List.getLast?_isSome.2 h.ne_nil)
      have hc' := hclass c (List.mem_of_mem_getLast? hc)
      have hborder := h.back_head c hc b hb
      rw [joins_eq_false_iff (hc' ▸ hk), hc'] at hborder
      exact beq_eq_false_iff_ne.2 hborder.symm
  · intro h
    have hclass (c : Char) (hc : c ∈ run) : CharClass.ofChar c = k := beq_iff_eq.1 (h.all c hc)
    refine ⟨⟨h.eq, h.ne_nil, ?_, fun a ha b hb => ?_, fun a ha b hb => ?_⟩,
      fun c hc => hclass c (List.mem_of_mem_head? hc)⟩
    · apply List.Pairwise.isChain
      rw [List.pairwise_iff_forall_sublist]
      intro a b hab
      have ha := hclass a (hab.subset (by simp))
      have hb := hclass b (hab.subset (by simp))
      simp [joins, ha, hb, hk]
    · have ha' := beq_eq_false_iff_ne.1 (h.front_last a ha)
      simp [joins, hclass b (List.mem_of_mem_head? hb), ha']
    · have hb' := beq_eq_false_iff_ne.1 (h.back_head b hb)
      simp [joins, hclass a (List.mem_of_mem_getLast? ha), hb'.symm]

/-- Each comma is a block of its own. -/
theorem isBlock_comma_iff :
    IsBlock joins cs front run back ∧ (∀ c ∈ run.head?, CharClass.ofChar c = .comma) ↔
      cs = front ++ ',' :: back ∧ run = [','] := by
  have hcomma : CharClass.ofChar ',' = .comma := by decide
  constructor
  · rintro ⟨h, hhead⟩
    have hrun : run = [','] := by
      match run, h.ne_nil, h.isChain, hhead with
      | [c], _, _, hhead => rw [CharClass.ofChar_eq_comma_iff.1 (hhead c rfl)]
      | c :: d :: rest, _, hchain, hhead =>
        have hjoins := (List.isChain_cons_cons.1 hchain).1
        simp [joins, hhead c rfl] at hjoins
    refine ⟨?_, hrun⟩
    rw [h.eq, hrun]
    simp
  · rintro ⟨rfl, rfl⟩
    refine ⟨⟨by simp, nofun, .singleton _, fun a _ b hb => ?_, fun a ha b _ => ?_⟩, fun c hc => ?_⟩
    · cases hb
      simp only [joins, hcomma]
      cases CharClass.ofChar a <;> rfl
    · cases ha
      simp [joins, hcomma]
    · cases hc
      exact hcomma

/-- A character belongs to a block. -/
theorem exists_isBlock {r : Char → Char → Bool} (h : cs = front ++ c :: back) :
    ∃ front' u v back', IsBlock r cs front' (u ++ c :: v) back' ∧ front = front' ++ u ∧
      back = v ++ back' := by
  have hne : [] ∉ cs.splitBy r := List.nil_notMem_splitBy r cs
  have hflat : (cs.splitBy r).flatten = front ++ c :: back := by
    rw [List.flatten_splitBy, h]
  rcases List.flatten_eq_append_iff.1 hflat with ⟨blocks, blocks', hsplit, rfl, hback⟩ |
    ⟨blocks, u, d, v, blocks', hsplit, rfl, hback⟩
  · obtain ⟨empties, v, blocks'', rfl, hempty, rfl⟩ := List.flatten_eq_cons_iff.1 hback.symm
    cases empties with
    | nil => exact ⟨_, [], v, _, isBlock_of_splitBy hsplit, by simp, rfl⟩
    | cons block empties =>
      rw [hsplit, hempty block List.mem_cons_self] at hne
      simp at hne
  · cases hback
    exact ⟨_, u, v, _, isBlock_of_splitBy hsplit, rfl, rfl⟩

/-- A character stands behind a part of a list, in front of it, or in it. -/
theorem place_cases {pre post : List Char} (h : front ++ run ++ back = pre ++ c :: post) :
    (∃ rest, pre = front ++ run ++ rest) ∨ (∃ rest, front = pre ++ c :: rest) ∨ c ∈ run := by
  rcases List.append_eq_append_iff.1 h with ⟨rest, hpre, -⟩ | ⟨rest, hleft, hpost⟩
  · exact .inl ⟨rest, hpre⟩
  · cases rest with
    | nil => exact .inl ⟨[], by simpa using hleft.symm⟩
    | cons d rest =>
      obtain rfl : d = c := (List.cons.inj hpost).1.symm
      rcases List.append_eq_append_iff.1 hleft with ⟨u, -, rfl⟩ | ⟨u, rfl, hu⟩
      · exact .inr (.inr (by simp))
      · cases u with
        | nil =>
          rw [List.nil_append] at hu
          exact .inr (.inr (hu ▸ List.mem_cons_self))
        | cons d' u =>
          obtain rfl : d' = d := (List.cons.inj hu).1.symm
          exact .inr (.inl ⟨u, rfl⟩)

/-! ## Tokens and blocks -/

namespace Token

/-- The kind of the tokens that characters of a class make. -/
def kind? : CharClass → Option TokenKind
  | .word => some .word
  | .comma => some .comma
  | .foreign => some .garbage
  | .blank => none

theorem ofRun?_eq_some_iff {start : Nat} :
    ofRun? start run = some token ↔ ∃ k kind, kind? k = some kind ∧
      run.head?.map CharClass.ofChar = some k ∧
      token = ⟨kind, ⟨start, start + byteSize run⟩, String.ofList run⟩ := by
  unfold ofRun?
  dsimp only
  cases run.head?.map CharClass.ofChar with
  | none => simp
  | some k => cases k <;> simp [kind?, byteSize, eq_comm]

theorem ofRuns_eq (start : Nat) (done : List Token) (runs : List (List Char)) :
    ofRuns start done runs = done.reverse ++ ofRuns start [] runs := by
  induction runs generalizing start done with
  | nil => simp [ofRuns]
  | cons run runs ih =>
    rw [ofRuns, ofRuns]
    cases ofRun? start run with
    | none => exact ih _ _
    | some token =>
      dsimp only
      rw [ih, ih _ [token]]
      simp

theorem ofRuns_cons (start : Nat) (run : List Char) (runs : List (List Char)) :
    ofRuns start [] (run :: runs) =
      (ofRun? start run).toList ++ ofRuns (start + byteSize run) [] runs := by
  rw [ofRuns]
  cases ofRun? start run with
  | none => rfl
  | some token => exact ofRuns_eq _ [token] runs

theorem mem_ofRuns_iff {start : Nat} {runs : List (List Char)} :
    token ∈ ofRuns start [] runs ↔ ∃ blocks run blocks', runs = blocks ++ run :: blocks' ∧
      ofRun? (start + byteSize blocks.flatten) run = some token := by
  induction runs generalizing start with
  | nil => simp [ofRuns]
  | cons first runs ih =>
    rw [ofRuns_cons, List.mem_append, Option.mem_toList, ih]
    constructor
    · rintro (h | ⟨blocks, run, blocks', rfl, h⟩)
      · exact ⟨[], first, runs, rfl, by simpa using h⟩
      · refine ⟨first :: blocks, run, blocks', rfl, ?_⟩
        rwa [List.flatten_cons, byteSize_append, ← Nat.add_assoc]
    · rintro ⟨blocks, run, blocks', heq, h⟩
      cases blocks with
      | nil =>
        cases heq
        exact .inl (by simpa using h)
      | cons block blocks =>
        cases heq
        refine .inr ⟨blocks, run, blocks', rfl, ?_⟩
        rwa [List.flatten_cons, byteSize_append, ← Nat.add_assoc] at h

theorem le_start_of_mem_ofRuns {start : Nat} {runs : List (List Char)}
    (h : token ∈ ofRuns start [] runs) : start ≤ token.span.start := by
  obtain ⟨blocks, run, blocks', -, hrun⟩ := mem_ofRuns_iff.1 h
  obtain ⟨k, kind, -, -, rfl⟩ := ofRun?_eq_some_iff.1 hrun
  exact Nat.le_add_right _ _

theorem pairwise_ofRuns (start : Nat) (runs : List (List Char)) :
    (ofRuns start [] runs).Pairwise fun a b => a.span.stop ≤ b.span.start := by
  induction runs generalizing start with
  | nil => exact .nil
  | cons run runs ih =>
    rw [ofRuns_cons, List.pairwise_append]
    refine ⟨?_, ih _, fun a ha b hb => ?_⟩
    · cases ofRun? start run with
      | none => exact .nil
      | some token => exact List.pairwise_singleton _ _
    · rw [Option.mem_toList] at ha
      obtain ⟨k, kind, -, -, rfl⟩ := ofRun?_eq_some_iff.1 ha
      exact le_start_of_mem_ofRuns hb

/-- The part of a line in front of its comment. -/
def code (segment : List Char) : List Char :=
  segment.takeWhile (· != '#')

/-- The tokens of a line are the blocks in front of its comment, but for those that are skipped. -/
theorem mem_ofLine_iff {start : Nat} {segment : List Char} :
    token ∈ ofLine start segment ↔ ∃ front run back k kind,
      IsBlock joins (code segment) front run back ∧ (∀ c ∈ run.head?, CharClass.ofChar c = k) ∧
      kind? k = some kind ∧
      token = ⟨kind, ⟨start + byteSize front, start + byteSize front + byteSize run⟩,
        String.ofList run⟩ := by
  have hruns : ofLine start segment = ofRuns start [] ((code segment).splitBy joins) := rfl
  rw [hruns, mem_ofRuns_iff]
  constructor
  · rintro ⟨blocks, run, blocks', hsplit, hrun⟩
    obtain ⟨k, kind, hkind, hhead, rfl⟩ := ofRun?_eq_some_iff.1 hrun
    refine ⟨_, run, _, k, kind, isBlock_of_splitBy hsplit, fun c hc => ?_, hkind, rfl⟩
    rw [Option.mem_def.1 hc] at hhead
    exact Option.some.inj hhead
  · rintro ⟨front, run, back, k, kind, hblock, hhead, hkind, rfl⟩
    obtain ⟨blocks, blocks', hsplit, rfl, rfl⟩ := splitBy_eq_append_cons_iff.2 hblock
    refine ⟨blocks, run, blocks', hsplit, ofRun?_eq_some_iff.2 ⟨k, kind, hkind, ?_, rfl⟩⟩
    obtain ⟨c, hc⟩ := Option.isSome_iff_exists.1 (List.isSome_head?.2 hblock.ne_nil)
    rw [hc, Option.map_some, hhead c hc]

theorem kind?_injective {k k' : CharClass} {kind : TokenKind} (h : kind? k = some kind)
    (h' : kind? k' = some kind) : k = k' := by
  revert h h'
  cases kind <;> cases k <;> cases k' <;> decide

/-- The tokens of a kind, for a class whose characters join. -/
theorem mem_ofLine_of_kind_iff {start : Nat} {segment : List Char} {k : CharClass}
    {kind : TokenKind} {p : Char → Bool} (hk : k ≠ .comma) (hkind : kind? k = some kind)
    (hp : ∀ c ∈ code segment, (CharClass.ofChar c == k) = p c) :
    token ∈ ofLine start segment ∧ token.kind = kind ↔ ∃ front run back,
      IsRun p (code segment) front run back ∧
      token = ⟨kind, ⟨start + byteSize front, start + byteSize front + byteSize run⟩,
        String.ofList run⟩ := by
  rw [mem_ofLine_iff]
  constructor
  · rintro ⟨⟨front, run, back, k', kind', hblock, hhead, hkind', rfl⟩, rfl⟩
    cases kind?_injective hkind hkind'
    exact ⟨front, run, back, ((isBlock_iff_isRun hk).1 ⟨hblock, hhead⟩).congr hp, rfl⟩
  · rintro ⟨front, run, back, hrun, rfl⟩
    have hrun' := hrun.congr fun c hc => (hp c hc).symm
    obtain ⟨hblock, hhead⟩ := (isBlock_iff_isRun hk).2 hrun'
    exact ⟨⟨front, run, back, k, kind, hblock, hhead, hkind, rfl⟩, rfl⟩

theorem mem_ofLine_comma_iff {start : Nat} {segment : List Char} :
    token ∈ ofLine start segment ∧ token.kind = .comma ↔ ∃ front back,
      code segment = front ++ ',' :: back ∧
      token = ⟨.comma, ⟨start + byteSize front, start + byteSize front + byteSize [',']⟩, ","⟩ := by
  have htext : String.ofList [','] = "," := by decide
  rw [mem_ofLine_iff]
  constructor
  · rintro ⟨⟨front, run, back, k, kind, hblock, hhead, hkind, rfl⟩, rfl⟩
    cases kind?_injective (k := .comma) rfl hkind
    obtain ⟨hcode, rfl⟩ := isBlock_comma_iff.1 ⟨hblock, hhead⟩
    exact ⟨front, back, hcode, by rw [htext]⟩
  · rintro ⟨front, back, hcode, rfl⟩
    obtain ⟨hblock, hhead⟩ := isBlock_comma_iff.2 ⟨hcode, rfl⟩
    exact ⟨⟨front, [','], back, .comma, .comma, hblock, hhead, rfl, by rw [htext]⟩, rfl⟩

end Token

/-! ## Partitions -/

/-- That a character, which starts at an offset, lies in a span. -/
def Span.Holds (span : Span) (offset : Nat) (c : Char) : Prop :=
  span.start ≤ offset ∧ offset + c.utf8Size ≤ span.stop

/-- That a character, which starts at an offset, lies outside of a span. -/
def Span.Misses (span : Span) (offset : Nat) (c : Char) : Prop :=
  span.stop ≤ offset ∨ offset + c.utf8Size ≤ span.start

/-- What the tokens are of a line that consists of some characters, and has others in front of it in
its text. -/
structure IsLexed (before segment : List Char) (tokens : List Token) : Prop where
  /-- Words are the longest runs of their characters in front of the comment. -/
  words : ∀ token, token ∈ tokens ∧ token.kind = .word ↔ ∃ front run back,
    IsRun isWordChar (Token.code segment) front run back ∧
    token = ⟨.word, .behind (before ++ front) run, String.ofList run⟩
  /-- Garbage tokens are the longest runs of foreign characters in front of the comment. -/
  garbage : ∀ token, token ∈ tokens ∧ token.kind = .garbage ↔ ∃ front run back,
    IsRun isForeign (Token.code segment) front run back ∧
    token = ⟨.garbage, .behind (before ++ front) run, String.ofList run⟩
  /-- Each comma in front of the comment is a token. -/
  commas : ∀ token, token ∈ tokens ∧ token.kind = .comma ↔ ∃ front back,
    Token.code segment = front ++ ',' :: back ∧
    token = ⟨.comma, .behind (before ++ front) [','], ","⟩
  /-- Tokens are disjoint and in order. -/
  ascending : tokens.Pairwise fun a b => a.span.stop ≤ b.span.start
  /-- No token has an empty span. -/
  nonempty : ∀ token ∈ tokens, token.span.start < token.span.stop
  /-- Tokens are parts of the line, which have characters. -/
  inside : ∀ token ∈ tokens, ∃ front run back, segment = front ++ run ++ back ∧ run ≠ [] ∧
    token.text = String.ofList run ∧ token.span = .behind (before ++ front) run
  /-- A character in front of the comment belongs to one token, if it is no horizontal blank. -/
  taken : ∀ front c back, segment = front ++ c :: back → '#' ∉ front → c ≠ '#' →
    isHorizontalBlank c = false →
      ∃! token, token ∈ tokens ∧ token.span.Holds (byteSize (before ++ front)) c
  /-- Horizontal blanks and all characters of the comment are outside of all tokens. -/
  skipped : ∀ front c back, segment = front ++ c :: back →
    '#' ∈ front ∨ c = '#' ∨ isHorizontalBlank c = true →
      ∀ token ∈ tokens, token.span.Misses (byteSize (before ++ front)) c

namespace Token

variable {before segment : List Char}

theorem code_prefix (segment : List Char) : ∃ comment, segment = code segment ++ comment :=
  ⟨segment.dropWhile (· != '#'), List.takeWhile_append_dropWhile.symm⟩

theorem hash_notMem_code (segment : List Char) : '#' ∉ code segment := by
  intro hmem
  have hne := List.mem_takeWhile_imp hmem
  simp at hne

/-- The comment starts at a `#`, and goes on to the end. -/
theorem code_of_hash (h : segment = front ++ c :: back) (hhash : '#' ∈ front ∨ c = '#') :
    ∃ rest, front = code segment ++ rest := by
  rcases List.append_eq_append_iff.1
    (h.symm.trans (List.takeWhile_append_dropWhile (p := (· != '#'))).symm) with
    ⟨rest, hcode, hrest⟩ | ⟨rest, hfront, -⟩
  · cases rest with
    | nil => exact ⟨[], by simpa [code] using hcode.symm⟩
    | cons d rest =>
      obtain rfl : c = d := (List.cons.inj hrest).1
      refine absurd ?_ (hash_notMem_code segment)
      rw [code, hcode]
      rcases hhash with hhash | rfl
      · exact List.mem_append_left _ hhash
      · simp
  · exact ⟨rest, hfront⟩

theorem exists_code (h : segment = front ++ c :: back) (hfront : '#' ∉ front) (hc : c ≠ '#') :
    ∃ back', code segment = front ++ c :: back' := by
  have hall (d : Char) (hd : d ∈ front) : (d != '#') = true := by
    rw [bne_iff_ne]
    rintro rfl
    exact hfront hd
  refine ⟨back.takeWhile (· != '#'), ?_⟩
  rw [h, code, List.takeWhile_append_of_pos hall, List.takeWhile_cons_of_pos (by simpa using hc)]

/-- Two tokens that hold the same character are the same. -/
theorem eq_of_holds {tokens : List Token}
    (h : tokens.Pairwise fun a b => a.span.stop ≤ b.span.start) {a b : Token} (ha : a ∈ tokens)
    (hb : b ∈ tokens) {offset : Nat} (hac : a.span.Holds offset c)
    (hbc : b.span.Holds offset c) : a = b := by
  by_contra hne
  have hsymm : Std.Symm fun a b : Token =>
      a.span.stop ≤ b.span.start ∨ b.span.stop ≤ a.span.start := ⟨fun _ _ => Or.symm⟩
  have hapart := (h.imp fun hab => Or.inl hab).forall (R := fun a b : Token =>
    a.span.stop ≤ b.span.start ∨ b.span.stop ≤ a.span.start) ha hb hne
  have hsize := c.utf8Size_pos
  obtain ⟨ha₁, ha₂⟩ := hac
  obtain ⟨hb₁, hb₂⟩ := hbc
  omega

/-- A character that is not skipped belongs to a token. -/
theorem exists_holds (start : Nat) (h : code segment = front ++ c :: back)
    (hblank : isHorizontalBlank c = false) :
    ∃ token ∈ ofLine start segment, token.span.Holds (start + byteSize front) c := by
  obtain ⟨front', u, v, back', hblock, rfl, rfl⟩ := exists_isBlock (r := joins) h
  obtain ⟨d, hd⟩ := Option.isSome_iff_exists.1 (List.isSome_head?.2 hblock.ne_nil)
  have hhead : ∀ d' ∈ (u ++ c :: v).head?, CharClass.ofChar d' = CharClass.ofChar d := by
    intro d' hd'
    rw [hd] at hd'
    cases hd'
    rfl
  have hclass := class_of_isBlock hblock hhead c (by simp)
  have hkind : ∃ kind, kind? (CharClass.ofChar d) = some kind := by
    cases hk : CharClass.ofChar d with
    | blank =>
      rw [hk, CharClass.ofChar_eq_blank_iff, hblank] at hclass
      cases hclass
    | comma | foreign | word => exact ⟨_, rfl⟩
  obtain ⟨kind, hkind⟩ := hkind
  refine ⟨_, mem_ofLine_iff.2 ⟨front', _, back', _, kind, hblock, hhead, hkind, rfl⟩, ?_, ?_⟩
  · simp only [byteSize_append]
    omega
  · simp only [byteSize_append, byteSize_cons]
    omega

/-- A token has no horizontal blanks. -/
theorem outside_of_isHorizontalBlank {start : Nat} (h : segment = front ++ c :: back)
    (hblank : isHorizontalBlank c = true) (htoken : token ∈ ofLine start segment) :
    token.span.Misses (start + byteSize front) c := by
  obtain ⟨front', run, back', k, kind, hblock, hhead, hkind, rfl⟩ := mem_ofLine_iff.1 htoken
  obtain ⟨comment, hcomment⟩ := code_prefix segment
  have hplace : front' ++ run ++ (back' ++ comment) = front ++ c :: back := by
    rw [← h, hcomment, hblock.eq]
    simp
  rcases place_cases hplace with ⟨rest, rfl⟩ | ⟨rest, rfl⟩ | hmem
  · left
    simp only [byteSize_append]
    omega
  · right
    simp only [byteSize_append, byteSize_cons]
    omega
  · have hclass := class_of_isBlock hblock hhead c hmem
    rw [CharClass.ofChar_eq_blank_iff.2 hblank] at hclass
    subst hclass
    cases hkind

/-- No token reaches into the comment. -/
theorem outside_of_hash {start : Nat} (h : segment = front ++ c :: back)
    (hhash : '#' ∈ front ∨ c = '#') (htoken : token ∈ ofLine start segment) :
    token.span.stop ≤ start + byteSize front := by
  obtain ⟨front', run, back', k, kind, hblock, -, -, rfl⟩ := mem_ofLine_iff.1 htoken
  obtain ⟨rest, rfl⟩ := code_of_hash h hhash
  rw [hblock.eq]
  simp only [byteSize_append]
  omega

theorem ofLine_isLexed (before segment : List Char) :
    IsLexed before segment (ofLine (byteSize before) segment) := by
  have hash_ne {c : Char} (hc : c ∈ code segment) : c ≠ '#' := by
    rintro rfl
    exact hash_notMem_code segment hc
  have hspan (front run : List Char) : Span.behind (before ++ front) run =
      ⟨byteSize before + byteSize front, byteSize before + byteSize front + byteSize run⟩ := by
    simp only [Span.behind, byteSize_append]
  have hascending := pairwise_ofRuns (byteSize before) (runs (segment.takeWhile (· != '#')))
  refine ⟨fun token => ?_, fun token => ?_, fun token => ?_, hascending, fun token htoken => ?_,
    fun token htoken => ?_, fun front c back h hfront hc hblank => ?_,
    fun front c back h hskip token htoken => ?_⟩
  · simp only [hspan]
    refine mem_ofLine_of_kind_iff (k := .word) (by decide) rfl fun c hc => ?_
    rw [Bool.eq_iff_iff, beq_iff_eq]
    exact CharClass.ofChar_eq_word_iff (hash_ne hc)
  · simp only [hspan]
    refine mem_ofLine_of_kind_iff (k := .foreign) (by decide) rfl fun c _ => ?_
    rw [Bool.eq_iff_iff, beq_iff_eq]
    exact CharClass.ofChar_eq_foreign_iff
  · simp only [hspan]
    exact mem_ofLine_comma_iff
  · obtain ⟨front, run, back, k, kind, hblock, -, -, rfl⟩ := mem_ofLine_iff.1 htoken
    exact Nat.lt_add_of_pos_right (byteSize_pos hblock.ne_nil)
  · obtain ⟨front, run, back, k, kind, hblock, -, -, rfl⟩ := mem_ofLine_iff.1 htoken
    obtain ⟨comment, hcomment⟩ := code_prefix segment
    refine ⟨front, run, back ++ comment, ?_, hblock.ne_nil, rfl, (hspan front run).symm⟩
    rw [hcomment, hblock.eq]
    simp
  · obtain ⟨back', hcode⟩ := exists_code h hfront hc
    obtain ⟨token, htoken, hholds⟩ := exists_holds (byteSize before) hcode hblank
    rw [← byteSize_append] at hholds
    exact ⟨token, ⟨htoken, hholds⟩,
      fun other hother => eq_of_holds hascending hother.1 htoken hother.2 hholds⟩
  · rw [byteSize_append]
    rcases or_assoc.2 hskip with hhash | hblank
    · exact .inl (outside_of_hash h hhash htoken)
    · exact outside_of_isHorizontalBlank h hblank htoken

end Token

/-- The lines of a text are numbered from one on. They are its segments between line feeds, without
an empty one at the end, and the number of line feeds in front of a line tells which one it is. The
tokens of each line partition it. -/
theorem SourceLine.ofText_partition (text : String) :
    (ofText text).map SourceLine.number = List.range' 1 (ofText text).length ∧
    (∀ line ∈ ofText text, ∃ front segment back, IsLine text.toList front segment back ∧
      line.number = front.count '\n' + 1 ∧ line.span = .behind front segment ∧
      IsLexed front segment line.tokens) ∧
    ∀ front segment back, IsLine text.toList front segment back →
      ∃ line ∈ ofText text, line.number = front.count '\n' + 1 ∧
        line.span = .behind front segment := by
  refine ⟨numbers_ofText text, fun line hline => ?_, fun front segment back h => ?_⟩
  · obtain ⟨front, segment, back, h, rfl⟩ := (mem_ofText_iff text line).1 hline
    exact ⟨front, segment, back, h, rfl, rfl, Token.ofLine_isLexed front segment⟩
  · exact ⟨_, (mem_ofText_iff text _).2 ⟨front, segment, back, h, rfl⟩, rfl, rfl⟩

/-- A no-break space takes two bytes and is garbage, and what follows `#` is no token. -/
example : (SourceLine.ofText "end\npop\u00a0r1,#,\n").map SourceLine.tokens =
    [[⟨.word, ⟨0, 3⟩, "end"⟩],
      [⟨.word, ⟨4, 7⟩, "pop"⟩, ⟨.garbage, ⟨7, 9⟩, "\u00a0"⟩, ⟨.word, ⟨9, 11⟩, "r1"⟩,
        ⟨.comma, ⟨11, 12⟩, ","⟩]] := by
  decide +kernel

end StackMachine.Assembly
