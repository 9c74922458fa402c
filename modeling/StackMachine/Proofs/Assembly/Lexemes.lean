import StackMachine.Proofs.Assembly.Partition

/-!
# Lines from a stream of lexemes

A lexer goes through a text once and tells what it finds, each lexeme with its place. It skips
blanks, and fails at characters that no rule matches. A loop over the lexemes builds the lines: it
leaves out comments, ends a line at a line feed, and keeps failures that stand side by side as one
piece of garbage, which becomes a token when something else is found. The lines of a text, told as
pieces and blocks, are what this loop gives.

* `Matches`, `Lexes`: the rules of the lexer; how many characters a failure takes is left open.
* `LineScan`: the state of the loop, with a line half built and garbage that may go on.
* `LineScan.builds_of_lexes`: the loop within a line.
* `SourceLine.ofLexemes_eq_ofText`: the loop gives the lines of the text.
-/

namespace StackMachine.Assembly

open StackMachine.Text

variable {start : Nat} {cs run rest line held : List Char}

/-! ## Lexemes -/

/-- What a lexer finds. -/
inductive LexemeKind where
  | word
  | comma
  | comment
  | newline
  /-- Characters that no rule matches. -/
  | failure
deriving DecidableEq, Repr

/-- Characters that a lexer has found, with their place. -/
structure Lexeme where
  kind : LexemeKind
  span : Span
  text : List Char

/-- The token with the characters of a lexeme. -/
def Lexeme.token (found : Lexeme) (kind : TokenKind) : Token :=
  ⟨kind, found.span, String.ofList found.text⟩

/-- What a lexer takes from the front of a text, and what it leaves. Blanks have no kind. -/
inductive Matches : Option LexemeKind → List Char → List Char → Prop
  | blanks {run rest : List Char} : run ≠ [] → (∀ c ∈ run, isHorizontalBlank c = true) →
      (∀ c ∈ rest.head?, isHorizontalBlank c = false) → Matches none run rest
  | word {run rest : List Char} : run ≠ [] → (∀ c ∈ run, isWordChar c = true) →
      (∀ c ∈ rest.head?, isWordChar c = false) → Matches (some .word) run rest
  | comma {rest : List Char} : Matches (some .comma) [','] rest
  | comment {run rest : List Char} : '\n' ∉ run → (∀ c ∈ rest.head?, c = '\n') →
      Matches (some .comment) ('#' :: run) rest
  | newline {rest : List Char} : Matches (some .newline) ['\n'] rest
  | failure {run rest : List Char} : run ≠ [] → (∀ c ∈ run, isForeign c = true) → '\n' ∉ run →
      Matches (some .failure) run rest

/-- The lexemes of characters that begin at an offset. -/
inductive Lexes : Nat → List Char → List Lexeme → Prop
  | nil {start : Nat} : Lexes start [] []
  | skip {start : Nat} {run rest : List Char} {lexemes : List Lexeme} : Matches none run rest →
      Lexes (start + byteSize run) rest lexemes → Lexes start (run ++ rest) lexemes
  | find {start : Nat} {kind : LexemeKind} {run rest : List Char} {lexemes : List Lexeme} :
      Matches (some kind) run rest → Lexes (start + byteSize run) rest lexemes →
      Lexes start (run ++ rest) (⟨kind, ⟨start, start + byteSize run⟩, run⟩ :: lexemes)

namespace Matches

variable {kind : Option LexemeKind}

theorem ne_nil (h : Matches kind run rest) : run ≠ [] := by
  cases h with
  | blanks hne | word hne | failure hne => exact hne
  | comma | comment | newline => exact List.cons_ne_nil _ _

theorem newline_notMem (h : Matches kind run rest) (hkind : kind ≠ some .newline) :
    '\n' ∉ run := by
  cases h with
  | blanks _ hall => exact fun hmem => absurd (hall _ hmem) (by decide)
  | word _ hall => exact fun hmem => absurd (hall _ hmem) (by decide)
  | comma => decide
  | comment hrun => simpa using hrun
  | newline => exact absurd rfl hkind
  | failure _ _ hrun => exact hrun

/-- Of what is left, only the first character counts. -/
theorem of_head? {rest' : List Char} (h : Matches kind run rest)
    (hrest : ∀ c ∈ rest'.head?, c ∈ rest.head?) : Matches kind run rest' := by
  cases h with
  | blanks hne hall hend => exact .blanks hne hall fun c hc => hend c (hrest c hc)
  | word hne hall hend => exact .word hne hall fun c hc => hend c (hrest c hc)
  | comma => exact .comma
  | comment hrun hend => exact .comment hrun fun c hc => hend c (hrest c hc)
  | newline => exact .newline
  | failure hne hall hrun => exact .failure hne hall hrun

end Matches

/-- There is always something to take. -/
theorem exists_matches (hne : cs ≠ []) :
    ∃ kind run rest, cs = run ++ rest ∧ Matches kind run rest := by
  obtain ⟨c, cs, rfl⟩ := List.exists_cons_of_ne_nil hne
  have hsplit (p : Char → Bool) (cs : List Char) :
      (∀ c ∈ cs.takeWhile p, p c = true) ∧ (∀ c ∈ (cs.dropWhile p).head?, p c = false) := by
    refine ⟨fun c hc => List.mem_takeWhile_imp hc, fun c hc => ?_⟩
    have hhead := List.head?_dropWhile_not p cs
    rw [Option.mem_def.1 hc] at hhead
    exact hhead
  have hlongest {p : Char → Bool} (hc : p c = true) : (c :: cs).takeWhile p ≠ [] := by
    rw [List.takeWhile_cons_of_pos hc]
    exact List.cons_ne_nil _ _
  have htake (p : Char → Bool) : c :: cs = (c :: cs).takeWhile p ++ (c :: cs).dropWhile p :=
    List.takeWhile_append_dropWhile.symm
  by_cases hnewline : c = '\n'
  · exact ⟨_, ['\n'], cs, by rw [hnewline]; rfl, .newline⟩
  by_cases hhash : c = '#'
  · obtain ⟨hall, hend⟩ := hsplit (· != '\n') cs
    refine ⟨_, '#' :: cs.takeWhile (· != '\n'), cs.dropWhile (· != '\n'), ?_, .comment ?_ ?_⟩
    · rw [hhash, List.cons_append, List.takeWhile_append_dropWhile]
    · exact fun hmem => absurd (hall _ hmem) (by decide)
    · exact fun c hc => by simpa using hend c hc
  by_cases hcomma : c = ','
  · exact ⟨_, [','], cs, by rw [hcomma]; rfl, .comma⟩
  cases hblank : isHorizontalBlank c with
  | true => exact ⟨_, _, _, htake _, .blanks (hlongest hblank) (hsplit _ _).1 (hsplit _ _).2⟩
  | false =>
    cases hspace : isBlank c with
    | true =>
      refine ⟨_, [c], cs, rfl, .failure (List.cons_ne_nil _ _) (fun d hd => ?_) ?_⟩
      · rw [List.mem_singleton.1 hd, isForeign, hspace, hblank]
        rfl
      · simpa using Ne.symm hnewline
    | false =>
      have hword : isWordChar c = true := by simp [isWordChar, hspace, hhash, hcomma]
      exact ⟨_, _, _, htake _, .word (hlongest hword) (hsplit _ _).1 (hsplit _ _).2⟩

theorem exists_lexes (start : Nat) (cs : List Char) : ∃ lexemes, Lexes start cs lexemes := by
  induction hlength : cs.length using Nat.strong_induction_on generalizing start cs with
  | _ n ih =>
    rcases eq_or_ne cs [] with rfl | hne
    · exact ⟨[], .nil⟩
    · obtain ⟨kind, run, rest, rfl, h⟩ := exists_matches hne
      have hrun := List.length_pos_iff.2 h.ne_nil
      rw [List.length_append] at hlength
      obtain ⟨lexemes, hrest⟩ := ih rest.length (by omega) (start + byteSize run) rest rfl
      cases kind with
      | none => exact ⟨_, .skip h hrest⟩
      | some kind => exact ⟨_, .find h hrest⟩

namespace Lexes

variable {lexemes : List Lexeme}

theorem le_start (h : Lexes start cs lexemes) :
    ∀ found ∈ lexemes.head?, start ≤ found.span.start := by
  induction h with
  | nil => nofun
  | skip _ _ ih => exact fun found hfound => Nat.le_trans (Nat.le_add_right _ _) (ih found hfound)
  | find =>
    rintro _ ⟨⟩
    exact Nat.le_refl _

/-- A line feed is found as such, so lexemes are those of the line in front of it, and then those of
the text behind it. -/
theorem exists_append (h : Lexes start (line ++ '\n' :: rest) lexemes) (hline : '\n' ∉ line) :
    ∃ front back, lexemes = front ++
        ⟨.newline, ⟨start + byteSize line, start + byteSize line + byteSize ['\n']⟩, ['\n']⟩ ::
          back ∧
      Lexes start line front ∧ Lexes (start + byteSize (line ++ ['\n'])) rest back := by
  generalize htext : line ++ '\n' :: rest = text at h
  -- What is no line feed is taken from the line.
  have hprefix {kind : Option LexemeKind} {run left line : List Char}
      (h : Matches kind run left) (hkind : kind ≠ some .newline)
      (htext : line ++ '\n' :: rest = run ++ left) :
      ∃ line', line = run ++ line' ∧ left = line' ++ '\n' :: rest ∧ Matches kind run line' := by
    rcases List.append_eq_append_iff.1 htext with ⟨front, rfl, hleft⟩ | ⟨line', rfl, rfl⟩
    · cases front with
      | nil =>
        refine ⟨[], by simp, hleft.symm, h.of_head? nofun⟩
      | cons c front =>
        obtain rfl : '\n' = c := (List.cons.inj hleft).1
        exact absurd (by simp) (h.newline_notMem hkind)
    · refine ⟨line', rfl, rfl, h.of_head? fun c hc => ?_⟩
      cases line' with
      | nil => cases hc
      | cons d line' => exact hc
  induction h generalizing line with
  | nil => exact absurd htext (List.append_ne_nil_of_right_ne_nil _ (List.cons_ne_nil _ _))
  | @skip start run left lexemes hrun _ ih =>
    obtain ⟨line', rfl, rfl, hrun'⟩ := hprefix hrun nofun htext
    obtain ⟨front, back, rfl, hfront, hback⟩ := ih (fun hmem => hline (by simp [hmem])) rfl
    refine ⟨front, back, ?_, .skip hrun' hfront, ?_⟩
    · simp only [byteSize_append, Nat.add_assoc]
    · simpa only [byteSize_append, Nat.add_assoc] using hback
  | @find start kind run left lexemes hrun hleft ih =>
    by_cases hkind : kind = .newline
    · subst hkind
      cases hrun
      cases line with
      | nil =>
        cases htext
        exact ⟨[], lexemes, rfl, .nil, hleft⟩
      | cons c line =>
        obtain rfl : c = '\n' := (List.cons.inj htext).1
        exact absurd List.mem_cons_self hline
    · obtain ⟨line', rfl, rfl, hrun'⟩ := hprefix hrun (by simpa using hkind) htext
      obtain ⟨front, back, rfl, hfront, hback⟩ := ih (fun hmem => hline (by simp [hmem])) rfl
      refine ⟨_ :: front, back, ?_, .find hrun' hfront, ?_⟩
      · simp only [byteSize_append, Nat.add_assoc, List.cons_append]
      · simpa only [byteSize_append, Nat.add_assoc] using hback

end Lexes

/-! ## Blocks at the front of a line -/

namespace Token

theorem head?_code {c : Char} (h : c ∈ (code cs).head?) : c ∈ cs.head? ∧ c ≠ '#' := by
  cases cs with
  | nil => cases h
  | cons d cs =>
    by_cases hd : d = '#'
    · subst hd
      cases h
    · have hkept : code (d :: cs) = d :: code cs := List.takeWhile_cons_of_pos (bne_iff_ne.2 hd)
      rw [hkept] at h
      cases h
      exact ⟨rfl, hd⟩

theorem ofLine_append (start : Nat) (hhash : '#' ∉ run)
    (h : IsBlock joins (run ++ code rest) [] run (code rest)) :
    ofLine start (run ++ rest) =
      (ofRun? start run).toList ++ ofLine (start + byteSize run) rest := by
  have hcode : code (run ++ rest) = run ++ code rest := by
    refine List.takeWhile_append_of_pos fun c hc => bne_iff_ne.2 ?_
    rintro rfl
    exact hhash hc
  have hruns (start : Nat) (cs : List Char) :
      ofLine start cs = ofRuns start [] ((code cs).splitBy joins) := rfl
  rw [hruns, hruns, hcode, h.splitBy_eq, List.splitBy_nil, List.nil_append, ofRuns_cons]

/-- Characters of a class, as far as they go, make the first token, or are skipped. -/
theorem ofLine_of_class (start : Nat) {k : CharClass} (hk : k ≠ .comma) (hhash : '#' ∉ run)
    (hne : run ≠ []) (hall : ∀ c ∈ run, CharClass.ofChar c = k)
    (hend : ∀ c ∈ (code rest).head?, CharClass.ofChar c ≠ k) :
    ofLine start (run ++ rest) =
      ((kind? k).map fun kind =>
        ⟨kind, ⟨start, start + byteSize run⟩, String.ofList run⟩).toList ++
        ofLine (start + byteSize run) rest := by
  have hrun : IsRun (fun c => CharClass.ofChar c == k) (run ++ code rest) [] run (code rest) :=
    ⟨rfl, hne, fun c hc => beq_iff_eq.2 (hall c hc), nofun,
      fun c hc => beq_eq_false_iff_ne.2 (hend c hc)⟩
  obtain ⟨hblock, hhead⟩ := (isBlock_iff_isRun hk).2 hrun
  rw [ofLine_append start hhash hblock]
  obtain ⟨c, hc⟩ := Option.isSome_iff_exists.1 (List.isSome_head?.2 hne)
  rw [ofRun?, hc, Option.map_some, hhead c hc]
  cases k <;> rfl

theorem ofLine_comma (start : Nat) (rest : List Char) :
    ofLine start ([','] ++ rest) =
      [⟨.comma, ⟨start, start + byteSize [',']⟩, String.ofList [',']⟩] ++
        ofLine (start + byteSize [',']) rest := by
  obtain ⟨hblock, -⟩ := isBlock_comma_iff.2 ⟨(List.nil_append (',' :: code rest)).symm, rfl⟩
  have hhash : '#' ∉ [','] := by decide
  exact ofLine_append start hhash hblock

/-- A comment goes on to the end of the line and leaves no tokens. -/
theorem ofLine_comment (start : Nat) (comment : List Char) :
    ofLine start ('#' :: comment ++ []) = [] ++ ofLine (start + byteSize ('#' :: comment)) [] :=
  rfl

/-- The token that garbage makes. -/
def garbage (start : Nat) (held : List Char) : Token :=
  ⟨.garbage, ⟨start, start + byteSize held⟩, String.ofList held⟩

/-- Garbage that does not go on is a token. -/
theorem ofLine_garbage (start : Nat) (hne : held ≠ [])
    (hall : ∀ c ∈ held, CharClass.ofChar c = .foreign)
    (hend : ∀ c ∈ (code rest).head?, CharClass.ofChar c ≠ .foreign) :
    ofLine start (held ++ rest) =
      garbage start held :: ofLine (start + byteSize held) rest := by
  refine ofLine_of_class start (by decide) (fun hmem => ?_) hne hall hend
  exact absurd (hall _ hmem) (by decide)

end Token

/-! ## The loop -/

/-- The state of a loop that builds lines: the lines that are done and the tokens of the next line,
either with the last one first, and garbage that may go on. -/
structure LineScan where
  done : List SourceLine
  number : Nat
  start : Nat
  tokens : List Token
  garbage : Option Token

namespace LineScan

/-- The state in front of a text. -/
def initial : LineScan :=
  ⟨[], 1, 0, [], none⟩

/-- Add tokens to the line. -/
def push (tokens : List Token) (s : LineScan) : LineScan :=
  { s with tokens := tokens.reverse ++ s.tokens }

/-- Add the garbage to the line, if there is any. -/
def flush (s : LineScan) : LineScan :=
  match s.garbage with
  | none => s
  | some token => { s.push [token] with garbage := none }

/-- The line, if it ends at an offset. -/
def current (s : LineScan) (stop : Nat) : SourceLine :=
  ⟨s.number, ⟨s.start, stop⟩, s.tokens.reverse⟩

/-- The state behind the line feed of a line. -/
def next (s : LineScan) (newline : Span) : LineScan :=
  ⟨s.current newline.start :: s.done, s.number + 1, newline.stop, [], none⟩

/-- Garbage goes on where a failure follows, and else it starts again. -/
def fail (s : LineScan) (found : Lexeme) : LineScan :=
  let fresh : LineScan := { s.flush with garbage := some (found.token .garbage) }
  match s.garbage with
  | none => fresh
  | some token =>
    if token.span.stop = found.span.start then
      { s with
        garbage := some ⟨.garbage, ⟨token.span.start, found.span.stop⟩,
          token.text ++ String.ofList found.text⟩ }
    else fresh

/-- What a lexeme does to the line. -/
def take (s : LineScan) (found : Lexeme) : LineScan :=
  match found.kind with
  | .word => s.flush.push [found.token .word]
  | .comma => s.flush.push [found.token .comma]
  | .comment => s.flush
  | .newline => s.flush.next found.span
  | .failure => s.fail found

/-- The lines of a text of some size. A last line that has no characters is none. -/
def finish (s : LineScan) (size : Nat) : List SourceLine :=
  let s := s.flush
  if s.start < size ∨ s.tokens ≠ [] then (s.current size :: s.done).reverse else s.done.reverse

/-- The state with garbage that may go on. -/
def holding (s : LineScan) (start : Nat) (held : List Char) : LineScan :=
  { s with garbage := some (Token.garbage start held) }

theorem push_push (tokens tokens' : List Token) (s : LineScan) :
    (s.push tokens).push tokens' = s.push (tokens ++ tokens') := by
  simp [push]

variable {s : LineScan} {lexemes : List Lexeme}

theorem flush_of_none (hs : s.garbage = none) : s.flush = s := by
  rw [flush, hs]

theorem flush_holding (hs : s.garbage = none) (start : Nat) (held : List Char) :
    (s.holding start held).flush = s.push [Token.garbage start held] := by
  simp [flush, holding, push, hs]

/-- Garbage that does not go on can be added to the line at once. -/
theorem foldl_holding (hs : s.garbage = none)
    (h : ∀ found ∈ lexemes.head?, found.kind = .failure →
      start + byteSize held ≠ found.span.start) :
    (lexemes.foldl take (s.holding start held)).flush =
      (lexemes.foldl take (s.push [Token.garbage start held])).flush := by
  have hflush := flush_holding hs start held
  have hpush : (s.push [Token.garbage start held]).garbage = none := hs
  cases lexemes with
  | nil =>
    rw [List.foldl_nil, List.foldl_nil, hflush, flush_of_none hpush]
  | cons found lexemes =>
    have htake : (s.holding start held).take found =
        (s.push [Token.garbage start held]).take found := by
      unfold take
      cases hkind : found.kind with
      | word | comma | comment | newline => rw [hflush, flush_of_none hpush]
      | failure =>
        have hapart := h found rfl hkind
        simp only [fail, hflush, hpush, flush_of_none hpush]
        exact if_neg hapart
    rw [List.foldl_cons, List.foldl_cons, htake]

/-- Lexemes make the loop add the tokens of a line, also where garbage stands in front that may go on
in the line. -/
structure Builds (lexemes : List Lexeme) (start : Nat) (line : List Char) : Prop where
  fresh : ∀ s : LineScan, s.garbage = none →
    (lexemes.foldl take s).flush = s.push (Token.ofLine start line)
  held : ∀ (s : LineScan) (first : Nat) (held : List Char), s.garbage = none → held ≠ [] →
    (∀ c ∈ held, CharClass.ofChar c = .foreign) → first + byteSize held = start →
    (lexemes.foldl take (s.holding first held)).flush = s.push (Token.ofLine first (held ++ line))

namespace Builds

/-- Garbage that does not go on in the line needs no care. -/
theorem of_apart
    (hfresh : ∀ s : LineScan, s.garbage = none →
      (lexemes.foldl take s).flush = s.push (Token.ofLine start line))
    (hend : ∀ c ∈ (Token.code line).head?, CharClass.ofChar c ≠ .foreign)
    (hfirst : ∀ found ∈ lexemes.head?, found.kind = .failure → start ≠ found.span.start) :
    Builds lexemes start line := by
  refine ⟨hfresh, fun s first held hs hne hall hstart => ?_⟩
  subst hstart
  have hpush : (s.push [Token.garbage first held]).garbage = none := hs
  rw [foldl_holding hs hfirst, hfresh _ hpush, push_push, Token.ofLine_garbage first hne hall hend]
  rfl

theorem nil : Builds [] start [] :=
  of_apart (fun _ hs => flush_of_none hs) nofun nofun

/-- Blanks end the garbage. -/
theorem skip (h : Builds lexemes (start + byteSize run) rest) (hrun : Matches none run rest)
    (hrest : Lexes (start + byteSize run) rest lexemes) : Builds lexemes start (run ++ rest) := by
  cases hrun with
  | blanks hne hall hend =>
    have hclass (c : Char) (hc : c ∈ run) : CharClass.ofChar c = .blank :=
      CharClass.ofChar_eq_blank_iff.2 (hall c hc)
    have htokens : Token.ofLine start (run ++ rest) =
        Token.ofLine (start + byteSize run) rest := by
      refine Token.ofLine_of_class start (by decide) (fun hmem => ?_) hne hclass fun c hc => ?_
      · exact absurd (hclass _ hmem) (by decide)
      · rw [ne_eq, CharClass.ofChar_eq_blank_iff, hend c (Token.head?_code hc).1]
        exact Bool.false_ne_true
    refine of_apart (fun s hs => ?_) (fun c hc => ?_) fun found hfound _ => ?_
    · rw [htokens]
      exact h.fresh s hs
    · have hmem := (Token.head?_code hc).1
      rw [List.head?_append_of_ne_nil _ hne] at hmem
      rw [hclass c (List.mem_of_mem_head? hmem)]
      decide
    · have hpos := byteSize_pos hne
      have hle := hrest.le_start found hfound
      omega

/-- What is no failure ends the garbage and adds its tokens. -/
theorem find {kind : LexemeKind} {tokens : List Token}
    (h : Builds lexemes (start + byteSize run) rest) (hkind : kind ≠ .failure) (hne : run ≠ [])
    (hfirst : ∀ c ∈ run.head?, CharClass.ofChar c ≠ .foreign ∨ c = '#')
    (htokens : Token.ofLine start (run ++ rest) =
      tokens ++ Token.ofLine (start + byteSize run) rest)
    (htake : ∀ s : LineScan, s.garbage = none →
      s.take ⟨kind, ⟨start, start + byteSize run⟩, run⟩ = s.push tokens) :
    Builds (⟨kind, ⟨start, start + byteSize run⟩, run⟩ :: lexemes) start (run ++ rest) := by
  refine of_apart (fun s hs => ?_) (fun c hc => ?_) ?_
  · have hpush : (s.push tokens).garbage = none := hs
    rw [List.foldl_cons, htake s hs, h.fresh _ hpush, push_push, htokens]
  · obtain ⟨hmem, hhash⟩ := Token.head?_code hc
    rw [List.head?_append_of_ne_nil _ hne] at hmem
    exact (hfirst c hmem).resolve_right hhash
  · rintro _ ⟨⟩ hfailure
    exact absurd hfailure hkind

/-- A failure goes on with the garbage, or is new garbage. -/
theorem failure (h : Builds lexemes (start + byteSize run) rest) (hne : run ≠ [])
    (hall : ∀ c ∈ run, isForeign c = true) :
    Builds (⟨.failure, ⟨start, start + byteSize run⟩, run⟩ :: lexemes) start (run ++ rest) := by
  have hclass (c : Char) (hc : c ∈ run) : CharClass.ofChar c = .foreign :=
    CharClass.ofChar_eq_foreign_iff.2 (hall c hc)
  refine ⟨fun s hs => ?_, fun s first held hs hheld hforeign hfirst => ?_⟩
  · have htake : s.take ⟨.failure, ⟨start, start + byteSize run⟩, run⟩ = s.holding start run := by
      simp only [take, fail, hs, flush_of_none hs]
      rfl
    rw [List.foldl_cons, htake]
    exact h.held s start run hs hne hclass rfl
  · have htake : (s.holding first held).take ⟨.failure, ⟨start, start + byteSize run⟩, run⟩ =
        s.holding first (held ++ run) := by
      simp only [take, fail, holding, Token.garbage, hfirst, if_true, String.ofList_append,
        byteSize_append, ← Nat.add_assoc]
    rw [List.foldl_cons, htake, ← List.append_assoc]
    refine h.held s first (held ++ run) hs (by simp [hne]) (fun c hc => ?_) ?_
    · exact (List.mem_append.1 hc).elim (hforeign c) (hclass c)
    · rw [byteSize_append, ← Nat.add_assoc, hfirst]

end Builds

/-- The lexemes of a line make the loop add its tokens. -/
theorem builds_of_lexes (h : Lexes start line lexemes) (hline : '\n' ∉ line) :
    Builds lexemes start line := by
  induction h with
  | nil => exact .nil
  | skip hrun hrest ih =>
    exact (ih fun hmem => hline (List.mem_append_right _ hmem)).skip hrun hrest
  | @find start kind run rest lexemes hrun hrest ih =>
    have hrest' : '\n' ∉ rest := fun hmem => hline (List.mem_append_right _ hmem)
    have hbuilds := ih hrest'
    cases hrun with
    | word hne hall hend =>
      have hhash {c : Char} (hc : isWordChar c = true) : c ≠ '#' := by
        rintro rfl
        exact absurd hc (by decide)
      have hclass (c : Char) (hc : c ∈ run) : CharClass.ofChar c = .word :=
        (CharClass.ofChar_eq_word_iff (hhash (hall c hc))).2 (hall c hc)
      have hstop : ∀ c ∈ (Token.code rest).head?, CharClass.ofChar c ≠ .word := fun c hc => by
        obtain ⟨hmem, hne⟩ := Token.head?_code hc
        rw [ne_eq, CharClass.ofChar_eq_word_iff hne, hend c hmem]
        exact Bool.false_ne_true
      have htokens := Token.ofLine_of_class start (by decide)
        (fun hmem => hhash (hall _ hmem) rfl) hne hclass hstop
      refine hbuilds.find (by decide) hne (fun c hc => .inl ?_) htokens fun s hs => ?_
      · rw [hclass c (List.mem_of_mem_head? hc)]
        decide
      · rw [take, flush_of_none hs]
        rfl
    | comma =>
      refine hbuilds.find (by decide) (List.cons_ne_nil _ _) (fun c hc => .inl ?_)
        (Token.ofLine_comma start rest) fun s hs => ?_
      · cases hc
        decide
      · rw [take, flush_of_none hs]
        rfl
    | comment hcomment hend =>
      -- The comment goes on to the end of the line.
      obtain rfl : rest = [] := by
        cases rest with
        | nil => rfl
        | cons c rest =>
          obtain rfl := hend c rfl
          exact absurd List.mem_cons_self hrest'
      refine hbuilds.find (by decide) (List.cons_ne_nil _ _) (fun c hc => .inr ?_)
        (Token.ofLine_comment start _) fun s hs => ?_
      · cases hc
        rfl
      · rw [take, flush_of_none hs]
        rfl
    | newline => exact absurd (List.mem_append_left _ List.mem_cons_self) hline
    | failure hne hall => exact hbuilds.failure hne hall

/-- Behind a number of lines the loop adds the lines of the text. -/
theorem finish_foldl (h : Lexes start cs lexemes) (hs : s.garbage = none) (htokens : s.tokens = [])
    (hstart : s.start = start) :
    (lexemes.foldl take s).finish (start + byteSize cs) =
      s.done.reverse ++ SourceLine.ofPieces s.number start [] (SourceLine.pieces cs) := by
  induction cs using SourceLine.text_induction generalizing start s lexemes with
  | hlast line hline =>
    have hflush := (builds_of_lexes h hline).fresh s hs
    rw [finish, hflush]
    subst hstart
    rcases eq_or_ne line [] with rfl | hne
    · have hnone : ¬ ((s.push (Token.ofLine s.start [])).start < s.start + byteSize [] ∨
          (s.push (Token.ofLine s.start [])).tokens ≠ []) := by
        rw [not_or, not_not]
        exact ⟨Nat.lt_irrefl s.start, htokens⟩
      rw [if_neg hnone]
      exact (List.append_nil _).symm
    · have hsome : (s.push (Token.ofLine s.start line)).start < s.start + byteSize line :=
        Nat.lt_add_of_pos_right (byteSize_pos hne)
      rw [if_pos (.inl hsome), SourceLine.ofPieces_last hline hne, List.reverse_cons]
      simp [push, current, htokens, SourceLine.ofPlace]
  | hline line rest hline ih =>
    obtain ⟨front, back, rfl, hfront, hback⟩ := h.exists_append hline
    have hflush := (builds_of_lexes hfront hline).fresh s hs
    subst hstart
    have hsize : s.start + byteSize (line ++ '\n' :: rest) =
        s.start + byteSize (line ++ ['\n']) + byteSize rest := by
      simp only [byteSize_append, byteSize_cons, byteSize_nil]
      omega
    rw [List.foldl_append, List.foldl_cons, take, hflush, hsize, ih hback rfl rfl,
      SourceLine.ofPieces_line hline]
    · simp [push, next, current, htokens, SourceLine.ofPlace]
    · simp [next, Nat.add_assoc]

end LineScan

/-- The lines that a loop builds from the lexemes of a text of some size. -/
def SourceLine.ofLexemes (size : Nat) (lexemes : List Lexeme) : List SourceLine :=
  (lexemes.foldl LineScan.take LineScan.initial).finish size

/-- A text has lexemes, and a loop over them gives the lines of the text, however the characters that
no rule matches are cut into failures. -/
theorem SourceLine.ofLexemes_eq_ofText (text : String) :
    (∃ lexemes, Lexes 0 text.toList lexemes) ∧
    ∀ lexemes, Lexes 0 text.toList lexemes →
      ofLexemes text.utf8ByteSize lexemes = ofText text := by
  refine ⟨exists_lexes 0 text.toList, fun lexemes h => ?_⟩
  have hsize : text.utf8ByteSize = 0 + byteSize text.toList := by
    rw [byteSize, String.ofList_toList, Nat.zero_add]
  rw [hsize, ofLexemes, LineScan.finish_foldl h rfl rfl rfl]
  rfl

/-- Failures side by side are one piece of garbage. -/
example :
    (SourceLine.ofLexemes 5 [⟨.failure, ⟨0, 2⟩, ['\u0085']⟩, ⟨.failure, ⟨2, 4⟩, ['\u0085']⟩,
      ⟨.comma, ⟨4, 5⟩, [',']⟩]).map SourceLine.tokens =
    [[⟨.garbage, ⟨0, 4⟩, "\u0085\u0085"⟩, ⟨.comma, ⟨4, 5⟩, ","⟩]] := by
  decide

end StackMachine.Assembly
