import StackMachine.Proofs.Instruction.Listing
import StackMachine.Proofs.Text.Decoding

/-!
# What a listing covers

The lines of a listing show consecutive parts of an image, from its start on: the header, and then
one instruction after the other. They stop at the end of the image, or where reading fails.

A listing can also be read item by item, by a cursor that remembers only where it goes on. Its
offset is zero as long as the header has not been read; no instruction starts there.

* `Covers`: lines that show instructions one behind the other, up to an offset.
* `readFrom_covers`: the lines that are read from an offset on, and where they stop.
* `Cursor.answer_eq`: a cursor answers with the lines, then with the failure if there is one, and
  then with nothing.
* `ofBytes_coverage`: what the items are, and which part of the image they show.
-/

namespace StackMachine.Listing

variable {registry : Registry} {bytes : Bytes} {offset stop : Nat} {line : ListingLine}
  {lines : List ListingLine}

/-! ## Items -/

/-- What is read of a listing at a time: a line, or the offset where reading fails. -/
abbrev Item := Except Nat ListingLine

/-- The lines of a listing, and behind them its failure. -/
def items (listing : Listing) : List Item :=
  listing.lines.toList.map .ok ++ listing.failure.toList.map .error

theorem getElem?_items_add (lines : Array ListingLine) (failure : Option Nat) (n : Nat) :
    (items ⟨lines, failure⟩)[lines.size + n]? =
      (failure.toList.map Except.error : List Item)[n]? := by
  rw [items, List.getElem?_append_right (by simp)]
  simp

/-- A failure is the last item. -/
theorem getElem?_items_eq_error_iff {listing : Listing} {n offset : Nat} :
    listing.items[n]? = some (.error offset) ↔
      listing.failure = some offset ∧ n = listing.lines.size := by
  obtain ⟨lines, failure⟩ := listing
  dsimp only
  by_cases hn : n < lines.size
  · rw [items, List.getElem?_append_left (by simpa using hn), List.getElem?_map]
    simp [hn, hn.ne]
  · obtain ⟨m, rfl⟩ := Nat.exists_eq_add_of_le (Nat.not_lt.1 hn)
    rw [getElem?_items_add]
    cases failure <;> cases m <;> simp

/-- Where a listing goes on that is read item by item, and whether it is over. -/
structure Cursor where
  offset : Nat
  finished : Bool

namespace Cursor

/-- The cursor in front of the header. -/
def start : Cursor :=
  ⟨0, false⟩

/-- Read the next item. -/
def next (registry : Registry) (bytes : Bytes) (cursor : Cursor) : Option Item × Cursor :=
  if cursor.finished then (none, cursor)
  else if cursor.offset = 0 then
    match (Header.ofBytes? bytes).filter Header.hasMagic with
    | none => (some (.error 0), ⟨0, true⟩)
    | some header =>
      (some (.ok (.header (bytes.extract 0 Header.size) header)), ⟨Header.size, false⟩)
  else if bytes.size ≤ cursor.offset then (none, ⟨cursor.offset, true⟩)
  else
    match Instruction.decode registry bytes cursor.offset with
    | .ok instruction =>
      let stop := cursor.offset + instruction.definition.size
      (some (.ok (.instruction cursor.offset (bytes.extract cursor.offset stop) instruction)),
        ⟨stop, false⟩)
    | .error _ => (some (.error cursor.offset), ⟨cursor.offset, true⟩)

/-- The answer to one of many calls, from a cursor on. The first call has the number zero. -/
def answer (registry : Registry) (bytes : Bytes) (cursor : Cursor) : Nat → Option Item
  | 0 => (cursor.next registry bytes).1
  | n + 1 => (cursor.next registry bytes).2.answer registry bytes n

end Cursor

/-! ## Reading instructions -/

/-- Lines that show instructions one behind the other, from an offset on and up to another one. -/
inductive Covers (registry : Registry) (bytes : Bytes) : Nat → List ListingLine → Nat → Prop
  | nil {offset : Nat} : Covers registry bytes offset [] offset
  | cons {offset stop : Nat} {i : Instruction} {lines : List ListingLine} :
      Instruction.decode registry bytes offset = .ok i →
      Covers registry bytes (offset + i.definition.size) lines stop →
      Covers registry bytes offset
        (.instruction offset (bytes.extract offset (offset + i.definition.size)) i :: lines) stop

/-- That lines come to an end of reading: the end of the image without a failure, or an offset in
front of it where no instruction can be read. -/
def Stops (registry : Registry) (bytes : Bytes) (stop : Nat) : Option Nat → Prop
  | none => stop = bytes.size
  | some offset => offset = stop ∧ stop < bytes.size ∧
      ∃ e, Instruction.decode registry bytes stop = .error e

theorem readFrom_of_decode {i : Instruction} (hlt : offset < bytes.size)
    (h : Instruction.decode registry bytes offset = .ok i) (lines : Array ListingLine) :
    let stop := offset + i.definition.size
    readFrom registry bytes offset lines =
      readFrom registry bytes stop
        (lines.push (.instruction offset (bytes.extract offset stop) i)) := by
  rw [readFrom, if_pos hlt, h]

theorem readFrom_of_error {e : DecodeError} (hlt : offset < bytes.size)
    (h : Instruction.decode registry bytes offset = .error e) (lines : Array ListingLine) :
    readFrom registry bytes offset lines = ⟨lines, some offset⟩ := by
  rw [readFrom, if_pos hlt, h]

theorem readFrom_of_size_le (h : bytes.size ≤ offset) (lines : Array ListingLine) :
    readFrom registry bytes offset lines = ⟨lines, none⟩ := by
  rw [readFrom, if_neg (Nat.not_lt.2 h)]

/-- The lines so far are only added to. -/
theorem readFrom_covers (registry : Registry) (hoffset : offset ≤ bytes.size)
    (lines : Array ListingLine) :
    ∃ rest stop failure, readFrom registry bytes offset lines = ⟨lines ++ rest.toArray, failure⟩ ∧
      Covers registry bytes offset rest stop ∧ Stops registry bytes stop failure := by
  induction offset, lines using readFrom.induct registry bytes with
  | case1 offset lines hlt i hdecode hpos next ih =>
    obtain ⟨_, _, _, hnext, _⟩ := Instruction.decode_eq_ok hdecode
    obtain ⟨rest, stop, failure, hread, hcovers, hstops⟩ := ih hnext
    refine ⟨_, stop, failure, ?_, .cons hdecode hcovers, hstops⟩
    rw [readFrom_of_decode hlt hdecode, hread]
    simp [next]
  | case2 offset lines hlt e hdecode =>
    refine ⟨[], offset, some offset, ?_, .nil, rfl, hlt, e, hdecode⟩
    rw [readFrom_of_error hlt hdecode]
    simp
  | case3 offset lines hge =>
    have hsize : bytes.size ≤ offset := Nat.not_lt.1 hge
    refine ⟨[], offset, none, ?_, .nil, Nat.le_antisymm hoffset hsize⟩
    rw [readFrom_of_size_le hsize]
    simp

/-! ## The header -/

variable {header : Header}

theorem ofBytes_of_no_header (h : (Header.ofBytes? bytes).filter Header.hasMagic = none) :
    ofBytes registry bytes = ⟨#[], some 0⟩ := by
  unfold ofBytes
  cases hread : Header.ofBytes? bytes with
  | none => rfl
  | some header =>
    rw [hread, Option.filter_some] at h
    dsimp only
    split at h
    · cases h
    · rename_i hmagic
      rw [if_neg hmagic]

theorem ofBytes_of_header (h : (Header.ofBytes? bytes).filter Header.hasMagic = some header) :
    ofBytes registry bytes =
      readFrom registry bytes Header.size #[.header (bytes.extract 0 Header.size) header] := by
  obtain ⟨hread, hmagic⟩ := Option.filter_eq_some_iff.1 h
  rw [ofBytes, hread]
  exact if_pos hmagic

theorem size_le_of_header (h : (Header.ofBytes? bytes).filter Header.hasMagic = some header) :
    Header.size ≤ bytes.size := by
  obtain ⟨hread, -⟩ := Option.filter_eq_some_iff.1 h
  unfold Header.ofBytes? at hread
  split at hread
  · assumption
  · cases hread

theorem magic_ofBytes? (h : Header.ofBytes? bytes = some header) :
    header.magic.toArray = bytes.extract 0 4 := by
  unfold Header.ofBytes? at h
  split at h
  case isFalse => cases h
  case isTrue hsize =>
    cases h
    have hfour : 4 ≤ bytes.size := Nat.le_trans (by decide) hsize
    apply Array.ext
    · rw [Array.size_extract, Nat.min_eq_left hfour]
      rfl
    · intro i hi hi'
      rw [Array.getElem_extract]
      obtain rfl | rfl | rfl | rfl : i = 0 ∨ i = 1 ∨ i = 2 ∨ i = 3 := by
        have hlt : i < 4 := hi
        omega
      all_goals rfl

/-- There is no header in a byte string that is too short, or starts with other bytes. -/
theorem header_eq_none_iff : (Header.ofBytes? bytes).filter Header.hasMagic = none ↔
    bytes.size < Header.size ∨ bytes.extract 0 4 ≠ Header.expectedMagic.toArray := by
  by_cases hsize : 8 ≤ bytes.size
  · have hlong : ¬ bytes.size < Header.size := Nat.not_lt.2 hsize
    obtain ⟨header, hread⟩ : ∃ header, Header.ofBytes? bytes = some header :=
      ⟨_, dif_pos hsize⟩
    rw [hread, Option.filter_some, ← magic_ofBytes? hread, or_iff_right hlong]
    simp [Header.hasMagic]
  · have hshort : bytes.size < Header.size := Nat.not_le.1 hsize
    rw [Header.ofBytes?, dif_neg hsize]
    simp [hshort]

/-! ## The parts of the image -/

namespace Covers

theorem le (h : Covers registry bytes offset lines stop) : offset ≤ stop := by
  induction h with
  | nil => exact Nat.le_refl _
  | cons _ _ ih => omega

theorem le_size (h : Covers registry bytes offset lines stop) (hoffset : offset ≤ bytes.size) :
    stop ≤ bytes.size := by
  induction h with
  | nil => exact hoffset
  | cons hdecode _ ih =>
    obtain ⟨_, _, _, hnext, _⟩ := Instruction.decode_eq_ok hdecode
    exact ih hnext

/-- The parts that the lines show make up the whole between the two offsets. -/
theorem flatMap_raw (h : Covers registry bytes offset lines stop) :
    lines.flatMap (fun line => line.raw.toList) = (bytes.extract offset stop).toList := by
  induction h with
  | nil => simp
  | @cons offset stop i lines hdecode hrest ih =>
    rw [List.flatMap_cons, ih, ListingLine.raw, ← Array.toList_append,
      Array.extract_append_extract, Nat.min_eq_left (Nat.le_add_right _ _),
      Nat.max_eq_right hrest.le]

theorem sum_size (h : Covers registry bytes offset lines stop) (hoffset : offset ≤ bytes.size) :
    offset + (lines.map fun line => line.raw.size).sum = stop := by
  have hlength := congrArg List.length h.flatMap_raw
  have hle := h.le
  have hle' := h.le_size hoffset
  rw [List.length_flatMap, Array.length_toList, Array.size_extract, Nat.min_eq_left hle'] at hlength
  simp only [Array.length_toList] at hlength
  omega

/-- Each line shows the instruction that is read behind the lines in front of it. -/
theorem getElem? {k : Nat} (h : Covers registry bytes offset lines stop)
    (hoffset : offset ≤ bytes.size) (hline : lines[k]? = some line) :
    let start := offset + ((lines.take k).map fun line => line.raw.size).sum
    ∃ i, line = .instruction start (bytes.extract start (start + i.definition.size)) i ∧
      start + i.definition.size ≤ bytes.size ∧
      Instruction.decode registry bytes start = .ok i := by
  induction h generalizing k with
  | nil => cases hline
  | @cons offset stop i lines hdecode hrest ih =>
    obtain ⟨_, _, _, hnext, _⟩ := Instruction.decode_eq_ok hdecode
    cases k with
    | zero =>
      cases hline
      exact ⟨i, rfl, hnext, hdecode⟩
    | succ k =>
      have hstart : offset + (((ListingLine.instruction offset
          (bytes.extract offset (offset + i.definition.size)) i :: lines).take (k + 1)).map
            fun line => line.raw.size).sum =
          offset + i.definition.size + ((lines.take k).map fun line => line.raw.size).sum := by
        rw [List.take_succ_cons, List.map_cons, List.sum_cons, ListingLine.raw, Array.size_extract,
          Nat.min_eq_left hnext]
        omega
      intro start
      rw [show start = _ from hstart]
      exact ih hnext hline

end Covers

/-! ## Reading by a cursor -/

namespace Cursor

theorem answer_finished (offset n : Nat) :
    answer registry bytes ⟨offset, true⟩ n = none := by
  induction n with
  | zero => rfl
  | succ n ih => exact ih

/-- Behind the last item a cursor answers with nothing, as often as it is asked. -/
theorem answer_last {cursor : Cursor} {item : Option Item} {offset : Nat}
    (h : cursor.next registry bytes = (item, ⟨offset, true⟩)) (n : Nat) :
    answer registry bytes cursor n = item.toList[n]? := by
  cases n with
  | zero =>
    rw [answer, h]
    cases item <;> rfl
  | succ n =>
    rw [answer, h, answer_finished]
    cases item <;> rfl

/-- Behind the header, a cursor goes through the instructions as a listing does. -/
theorem answer_readFrom (registry : Registry) (hpos : 0 < offset) (lines : Array ListingLine)
    (n : Nat) : answer registry bytes ⟨offset, false⟩ n =
      (readFrom registry bytes offset lines).items[lines.size + n]? := by
  have hne : offset ≠ 0 := hpos.ne'
  induction offset, lines using readFrom.induct registry bytes generalizing n with
  | case1 offset lines hlt i hdecode hsize stop ih =>
    have hle : ¬ bytes.size ≤ offset := Nat.not_le.2 hlt
    have hnext : next registry bytes ⟨offset, false⟩ =
        (some (.ok (.instruction offset (bytes.extract offset stop) i)), ⟨stop, false⟩) := by
      simp only [next, Bool.false_eq_true, if_false, hne, hle, hdecode]
      rfl
    have hstop : 0 < stop := Nat.lt_of_lt_of_le hpos (Nat.le_add_right _ _)
    rw [readFrom_of_decode hlt hdecode]
    cases n with
    | zero =>
      obtain ⟨_, _, _, hfits, _⟩ := Instruction.decode_eq_ok hdecode
      obtain ⟨rest, _, failure, hread, -⟩ := readFrom_covers registry hfits
        (lines.push (.instruction offset (bytes.extract offset stop) i))
      rw [answer, hnext, hread]
      simp [items, stop]
    | succ n =>
      rw [answer, hnext, ih hstop n hstop.ne', Array.size_push, Nat.add_right_comm]
      rfl
  | case2 offset lines hlt e hdecode =>
    have hle : ¬ bytes.size ≤ offset := Nat.not_le.2 hlt
    have hnext : next registry bytes ⟨offset, false⟩ =
        (some (.error offset), ⟨offset, true⟩) := by
      simp only [next, Bool.false_eq_true, if_false, hne, hle, hdecode]
    rw [answer_last hnext, readFrom_of_error hlt hdecode, getElem?_items_add]
    rfl
  | case3 offset lines hge =>
    have hle : bytes.size ≤ offset := Nat.not_lt.1 hge
    have hnext : next registry bytes ⟨offset, false⟩ = (none, ⟨offset, true⟩) := by
      simp only [next, Bool.false_eq_true, if_false, hne, hle, if_true]
    rw [answer_last hnext, readFrom_of_size_le hle, getElem?_items_add]
    rfl

/-- A cursor goes through a whole listing. -/
theorem answer_eq (registry : Registry) (bytes : Bytes) (n : Nat) :
    answer registry bytes start n = (ofBytes registry bytes).items[n]? := by
  cases hheader : (Header.ofBytes? bytes).filter Header.hasMagic with
  | none =>
    have hnext : next registry bytes start = (some (.error 0), ⟨0, true⟩) := by
      simp only [next, start, Bool.false_eq_true, if_false, if_true, hheader]
    rw [answer_last hnext, ofBytes_of_no_header hheader]
    rfl
  | some header =>
    have hnext : next registry bytes start =
        (some (.ok (.header (bytes.extract 0 Header.size) header)), ⟨Header.size, false⟩) := by
      simp only [next, start, Bool.false_eq_true, if_false, if_true, hheader]
    rw [ofBytes_of_header hheader]
    cases n with
    | zero =>
      obtain ⟨rest, _, failure, hread, -⟩ := readFrom_covers registry (size_le_of_header hheader)
        #[.header (bytes.extract 0 Header.size) header]
      rw [answer, hnext, hread]
      simp [items]
    | succ n =>
      have hpos : 0 < Header.size := by decide
      rw [answer, hnext, answer_readFrom registry hpos, List.size_toArray, Nat.add_comm]
      rfl

end Cursor

/-! ## Whole listings -/

/-- Where a line of a listing starts: behind the parts that the lines in front of it show. -/
def startOf (listing : Listing) (k : Nat) : Nat :=
  ((listing.lines.toList.take k).map fun line => line.raw.size).sum

theorem startOf_succ {header : Header} {failure : Option Nat} {rest : List ListingLine} {k : Nat}
    (hsize : Header.size ≤ bytes.size) :
    startOf ⟨(.header (bytes.extract 0 Header.size) header :: rest).toArray, failure⟩ (k + 1) =
      Header.size + ((rest.take k).map fun line => line.raw.size).sum := by
  simp [startOf, ListingLine.raw, Nat.min_eq_left hsize]

/-- The parts that are shown, with the header in front. -/
theorem Covers.flatMap_raw_header {header : Header}
    (h : Covers registry bytes Header.size lines stop) :
    (ListingLine.header (bytes.extract 0 Header.size) header :: lines).flatMap
      (fun line => line.raw.toList) = bytes.toList.take stop := by
  rw [List.flatMap_cons, h.flatMap_raw, ListingLine.raw, ← Array.toList_append,
    Array.extract_append_extract, Nat.min_eq_left (Nat.zero_le _), Nat.max_eq_right h.le,
    Text.toList_extract_zero]

/-- A listing without a header has only a failure. One with a header shows it, and then what is read
behind it. -/
theorem ofBytes_cases (registry : Registry) (bytes : Bytes) :
    (Header.ofBytes? bytes).filter Header.hasMagic = none ∧
        ofBytes registry bytes = ⟨#[], some 0⟩ ∨
      ∃ header rest stop failure, (Header.ofBytes? bytes).filter Header.hasMagic = some header ∧
        ofBytes registry bytes =
          ⟨(.header (bytes.extract 0 Header.size) header :: rest).toArray, failure⟩ ∧
        Covers registry bytes Header.size rest stop ∧ Stops registry bytes stop failure := by
  cases hheader : (Header.ofBytes? bytes).filter Header.hasMagic with
  | none => exact .inl ⟨rfl, ofBytes_of_no_header hheader⟩
  | some header =>
    obtain ⟨rest, stop, failure, hread, hcovers⟩ := readFrom_covers registry
      (size_le_of_header hheader) #[.header (bytes.extract 0 Header.size) header]
    refine .inr ⟨header, rest, stop, failure, rfl, ?_, hcovers⟩
    rw [ofBytes_of_header hheader, hread]
    simp

/-- A listing without a failure shows the whole image. -/
theorem flatMap_raw_ofBytes (h : (ofBytes registry bytes).failure = none) :
    (ofBytes registry bytes).lines.toList.flatMap (fun line => line.raw.toList) =
      bytes.toList := by
  rcases ofBytes_cases registry bytes with ⟨-, hlisting⟩ |
    ⟨header, rest, stop, failure, -, hlisting, hcovers, hstops⟩
  · rw [hlisting] at h
    cases h
  · rw [hlisting] at h ⊢
    obtain rfl : failure = none := h
    obtain rfl : stop = bytes.size := hstops
    rw [hcovers.flatMap_raw_header, ← Array.length_toList, List.take_length]

/-- A listing that is read item by item gives its lines, then its failure if it has one, and then
nothing more. Its lines show consecutive parts of the image, from the start on: the header, and then
the instructions that are read there. Without a failure these are the whole image. A failure stands
where the lines end: at the start exactly if there is no header, and else in front of the end, where
no instruction can be read. -/
theorem ofBytes_coverage (registry : Registry) (bytes : Bytes) :
    let listing := ofBytes registry bytes
    let count := listing.lines.size
    let shown := listing.lines.toList.flatMap fun line => line.raw.toList
    (∀ n, Cursor.answer registry bytes .start n = listing.items[n]?) ∧
    (∀ n offset, listing.items[n]? = some (.error offset) ↔
      listing.failure = some offset ∧ n = count) ∧
    (∀ line, listing.lines[0]? = some line → ∃ header,
      line = .header (bytes.extract 0 8) header ∧ Header.ofBytes? bytes = some header) ∧
    (∀ k line, listing.lines[k + 1]? = some line → ∃ i,
      let start := listing.startOf (k + 1)
      line = .instruction start (bytes.extract start (start + i.size)) i ∧
        start + i.size ≤ bytes.size ∧ Instruction.decode registry bytes start = .ok i) ∧
    shown = bytes.toList.take (listing.startOf count) ∧
    listing.startOf count ≤ bytes.size ∧
    (listing.failure = none → shown = bytes.toList) ∧
    (∀ offset, listing.failure = some offset → offset = listing.startOf count) ∧
    (listing.failure = some 0 ↔
      bytes.size < 8 ∨ bytes.extract 0 4 ≠ Header.expectedMagic.toArray) ∧
    ∀ offset, listing.failure = some offset → offset ≠ 0 →
      offset < bytes.size ∧ ∃ e, Instruction.decode registry bytes offset = .error e := by
  intro listing count shown
  have hwhole : listing.failure = none → shown = bytes.toList := flatMap_raw_ofBytes
  refine ⟨Cursor.answer_eq registry bytes, fun n offset => getElem?_items_eq_error_iff, ?_⟩
  rcases ofBytes_cases registry bytes with ⟨hnone, hlisting⟩ |
    ⟨header, rest, stop, failure, hheader, hlisting, hcovers, hstops⟩
  · have hzero : listing = ⟨#[], some 0⟩ := hlisting
    have hwrong := header_eq_none_iff.1 hnone
    simp only [count, shown, hzero]
    refine ⟨nofun, nofun, rfl, Nat.zero_le _, nofun, fun offset h => ?_, ?_, fun offset h hne => ?_⟩
    · cases h
      rfl
    · exact ⟨fun _ => hwrong, fun _ => trivial⟩
    · cases h
      exact absurd rfl hne
  · have hsize := size_le_of_header hheader
    have hright : ¬ (bytes.size < 8 ∨ bytes.extract 0 4 ≠ Header.expectedMagic.toArray) := by
      intro hwrong
      rw [header_eq_none_iff.2 hwrong] at hheader
      cases hheader
    have hfailure : listing.failure = failure := congrArg Listing.failure hlisting
    have hstart (k : Nat) : listing.startOf (k + 1) =
        Header.size + ((rest.take k).map fun line => line.raw.size).sum := by
      rw [show listing = _ from hlisting]
      exact startOf_succ hsize
    have hlast : listing.startOf count = stop := by
      have hcount : count = rest.length + 1 := by simp [count, listing, hlisting]
      rw [hcount, hstart, List.take_length, hcovers.sum_size hsize]
    have hshown : shown = bytes.toList.take stop := by
      simp only [shown, listing, hlisting]
      exact hcovers.flatMap_raw_header
    rw [hlast, hfailure]
    refine ⟨fun line hline => ?_, fun k line hline => ?_, hshown, hcovers.le_size hsize,
      hfailure ▸ hwhole, fun offset hsome => ?_, ?_, fun offset hsome hne => ?_⟩
    · simp only [listing, hlisting] at hline
      cases hline
      exact ⟨header, rfl, (Option.filter_eq_some_iff.1 hheader).1⟩
    · have hrest : rest[k]? = some line := by simpa [listing, hlisting] using hline
      rw [hstart]
      exact hcovers.getElem? hsize hrest
    · subst hsome
      exact hstops.1
    · refine ⟨fun hsome => ?_, fun hwrong => absurd hwrong hright⟩
      subst hsome
      have hle : Header.size ≤ 0 := hstops.1 ▸ hcovers.le
      exact absurd hle (by decide)
    · subst hsome
      obtain ⟨rfl, hlt, herror⟩ := hstops
      exact ⟨hlt, herror⟩

end StackMachine.Listing
