import StackMachine.Proofs.Assembly.Operand
import StackMachine.Proofs.Binary32.Reading

/-!
# The grammar of operand tokens

What an operand token stands for, told without a reader: an integer literal of any length, else a
float, else a register, else a label. The classifier accepts exactly this grammar.

* `IsInteger`, `IsFloat`, `IsRegister`: the classes of tokens, as sets of texts with their values.
* `Classified`: what a token stands for, class by class.
* `classify_eq_iff`: the classifier follows the grammar.
* `classify_grammar`: this, and what is read as a float.
-/

namespace StackMachine.Assembly

open Text

/-! ## The grammar -/

/-- An integer literal without sign: decimal digits, or hexadecimal digits behind `0x`. -/
def IsUnsignedInteger (cs : List Char) (n : Nat) : Prop :=
  IsNumeral 10 cs n ∨
    ∃ digits, (cs = '0' :: 'x' :: digits ∨ cs = '0' :: 'X' :: digits) ∧ IsNumeral 16 digits n

/-- An integer literal with its exact value. -/
def IsInteger (cs : List Char) (v : Int) : Prop :=
  ∃ sign body negative n, cs = sign ++ body ∧ IsSign sign negative ∧ IsUnsignedInteger body n ∧
    applySign negative n = v

/-- Whether a text consists of signs, and then of characters of numbers, the first of which is a
digit or a point. -/
def IsNumberLike (cs : List Char) : Prop :=
  ∃ signs c rest, cs = signs ++ c :: rest ∧ (∀ s ∈ signs, s = '+' ∨ s = '-') ∧
    (c.isDigit = true ∨ c = '.') ∧
    ∀ d ∈ rest, d.isDigit = true ∨ d = '.' ∨ d = 'e' ∨ d = 'E' ∨ d = '+' ∨ d = '-'

/-- A text that looks like a number, with the bit pattern of the float that it is read as. -/
def IsFloat (cs : List Char) (bits : UInt32) : Prop :=
  IsNumberLike cs ∧ Binary32.read? cs = some bits

/-- An integer of any size, or a float. -/
def IsNumber (cs : List Char) : Prop :=
  (∃ v, IsInteger cs v) ∨ ∃ bits, IsFloat cs bits

/-- The name of a register with its index, however large. -/
def IsRegister (cs : List Char) (i : Nat) : Prop :=
  ∃ digits, cs = 'r' :: digits ∧ IsNumeral 10 digits i

/-- What a token stands for in a program with `count` registers. -/
inductive Classified (token : String) (count : UInt8) : Except AssemblyError OperandToken → Prop
  | integer {v : Int} {bits : UInt32} :
      IsInteger token.toList v → -2 ^ 31 ≤ v → v < 2 ^ 32 → (bits.toNat : Int) = v % 2 ^ 32 →
      Classified token count (.ok (.constant bits))
  | integerTooLarge {v : Int} :
      IsInteger token.toList v → v < -2 ^ 31 ∨ 2 ^ 32 ≤ v →
      Classified token count (.error (.syntaxError (.integerTooLarge token)))
  | float {bits : UInt32} :
      (∀ v, ¬ IsInteger token.toList v) → IsFloat token.toList bits →
      Classified token count (.ok (.constant bits))
  | register {index : UInt8} :
      ¬ IsNumber token.toList → IsRegister token.toList index.toNat → index < count →
      Classified token count (.ok (.register index))
  | registerOutOfRange {i : Nat} :
      ¬ IsNumber token.toList → IsRegister token.toList i → count.toNat ≤ i →
      Classified token count (.error (.registerOutOfRange token count))
  | badArgument {c : Char} :
      ¬ IsNumber token.toList → (∀ i, ¬ IsRegister token.toList i) →
      token.toList.head? = some c → c.isDigit = true →
      Classified token count (.error (.syntaxError (.badArgument token)))
  | label :
      ¬ IsNumber token.toList → (∀ i, ¬ IsRegister token.toList i) →
      (∀ c ∈ token.toList.head?, c.isDigit = false) →
      Classified token count (.ok (.label token))

/-! ## The readers -/

namespace Literal

variable {cs : List Char} {token : String} {n : Nat} {v : Int}

theorem unsigned?_eq_some_iff : unsigned? cs = some n ↔ IsUnsignedInteger cs n := by
  have hletter {c : Char} (hc : c ∈ cs) (hdigit : c.isDigit = false) : ¬ IsNumeral 10 cs n := by
    intro h
    rw [(isNumeral_ten_iff.1 h).2.1 c hc] at hdigit
    cases hdigit
  unfold unsigned? IsUnsignedInteger
  split
  · rename_i digits
    rw [readHex?_eq_some_iff, or_iff_right (hletter (c := 'x') (by simp) rfl)]
    simp
  · rename_i digits
    rw [readHex?_eq_some_iff, or_iff_right (hletter (c := 'X') (by simp) rfl)]
    simp
  · rename_i hx hX
    rw [readDecimal?_eq_some_iff, or_iff_left]
    rintro ⟨digits, hcs | hcs, -⟩
    · exact hx digits hcs
    · exact hX digits hcs

/-- An integer without sign begins with a digit. -/
theorem head_of_isUnsignedInteger (h : IsUnsignedInteger cs n) :
    ∀ c ∈ cs.head?, c ≠ '+' ∧ c ≠ '-' := by
  rcases h with h | ⟨digits, rfl | rfl, -⟩
  · obtain ⟨c, rest, rfl, hc⟩ := h.exists_cons
    rintro _ ⟨⟩
    constructor <;> rintro rfl <;> cases hc
  · rintro _ ⟨⟩
    decide
  · rintro _ ⟨⟩
    decide

theorem integer?_eq_some_iff : integer? token = some v ↔ IsInteger token.toList v := by
  unfold integer? IsInteger
  rw [Option.map_eq_some_iff]
  simp only [unsigned?_eq_some_iff]
  constructor
  · rintro ⟨n, hn, rfl⟩
    obtain ⟨sign, hsign, htoken⟩ := exists_sign token.toList
    exact ⟨sign, _, _, n, htoken, hsign, hn, rfl⟩
  · rintro ⟨sign, body, negative, n, htoken, hsign, hn, rfl⟩
    rw [htoken, splitSign_append hsign (head_of_isUnsignedInteger hn)]
    exact ⟨n, hn, rfl⟩

theorem looksNumeric_iff : looksNumeric token = true ↔ IsNumberLike token.toList := by
  unfold looksNumeric IsNumberLike
  constructor
  · intro h
    have htoken := (List.takeWhile_append_dropWhile (p := fun c => c == '+' || c == '-')
      (l := token.toList)).symm
    have hsigns : ∀ c ∈ token.toList.takeWhile fun c => c == '+' || c == '-',
        c = '+' ∨ c = '-' := fun c hc => by simpa using List.mem_takeWhile_imp hc
    generalize (token.toList.takeWhile fun c => c == '+' || c == '-') = signs at htoken hsigns
    generalize (token.toList.dropWhile fun c => c == '+' || c == '-') = body at h htoken
    cases body with
    | nil => cases h
    | cons c rest =>
      refine ⟨signs, c, rest, htoken, hsigns, ?_, ?_⟩
      · simp_all
      · simp_all [or_assoc]
  · rintro ⟨signs, c, rest, htoken, hsigns, hc, hrest⟩
    have hsign : (c == '+' || c == '-') = false := by
      rw [Bool.or_eq_false_iff, beq_eq_false_iff_ne, beq_eq_false_iff_ne]
      constructor <;> rintro rfl <;> simp at hc
    have hbody : token.toList.dropWhile (fun c => c == '+' || c == '-') = c :: rest := by
      rw [htoken]
      refine (takeWhile_append_of_head (fun s hs => by simpa using hsigns s hs) ?_).2
      rintro _ ⟨⟩
      exact hsign
    rw [hbody]
    simp only [Bool.and_eq_true, Bool.or_eq_true, beq_iff_eq, List.all_eq_true,
      List.forall_mem_cons]
    refine ⟨hc, ?_, fun d hd => ?_⟩
    · simp only [hc, true_or]
    · simpa [or_assoc] using hrest d hd

theorem register?_eq_some_iff : register? token = some n ↔ IsRegister token.toList n := by
  unfold register? IsRegister
  split
  · rename_i digits htoken
    simp [htoken, readDecimal?_eq_some_iff]
  · rename_i hr
    simp only [reduceCtorEq, false_iff]
    rintro ⟨digits, htoken, -⟩
    exact hr digits htoken

theorem float?_eq_some_iff {bits : UInt32} :
    float? token = some bits ↔ IsFloat token.toList bits := by
  unfold float? IsFloat
  rw [← looksNumeric_iff]
  by_cases h : looksNumeric token = true <;> simp [h]

theorem toNat_ofSigned (v : Int) : ((Bytes.ofSigned v).toNat : Int) = v % 2 ^ 32 := by
  rw [Bytes.ofSigned, UInt32.toNat_ofNat']
  omega

theorem constant_of_isInteger (h : IsInteger token.toList v) :
    constant token =
      if -2 ^ 31 ≤ v ∧ v < 2 ^ 32 then .ok (some (Bytes.ofSigned v))
      else .error (.integerTooLarge token) := by
  unfold constant
  rw [integer?_eq_some_iff.2 h]
  rfl

theorem constant_of_isFloat {bits : UInt32} (hinteger : ∀ v, ¬ IsInteger token.toList v)
    (h : IsFloat token.toList bits) : constant token = .ok (some bits) := by
  have hnone : integer? token = none :=
    Option.eq_none_iff_forall_ne_some.2 fun v hv => hinteger v (integer?_eq_some_iff.1 hv)
  unfold constant
  rw [hnone, float?_eq_some_iff.2 h]

theorem constant_of_not_isNumber (h : ¬ IsNumber token.toList) : constant token = .ok none := by
  refine constant_eq_none_iff.2 ⟨?_, ?_⟩
  · exact Option.eq_none_iff_forall_ne_some.2 fun v hv =>
      h (.inl ⟨v, integer?_eq_some_iff.1 hv⟩)
  · exact Option.eq_none_iff_forall_ne_some.2 fun bits hbits =>
      h (.inr ⟨bits, float?_eq_some_iff.1 hbits⟩)

theorem register?_eq_none (h : ∀ i, ¬ IsRegister token.toList i) : register? token = none :=
  Option.eq_none_iff_forall_ne_some.2 fun i hi => h i (register?_eq_some_iff.1 hi)

end Literal

/-! ## The classifier -/

variable {token : String} {count : UInt8} {result : Except AssemblyError OperandToken}

open Literal

/-- Every token is in one of the classes. -/
theorem exists_classified (token : String) (count : UInt8) :
    ∃ result, Classified token count result := by
  by_cases hnumber : IsNumber token.toList
  · by_cases hinteger : ∃ v, IsInteger token.toList v
    · obtain ⟨v, hv⟩ := hinteger
      by_cases hrange : -2 ^ 31 ≤ v ∧ v < 2 ^ 32
      · exact ⟨_, .integer hv hrange.1 hrange.2 (toNat_ofSigned v)⟩
      · exact ⟨_, .integerTooLarge hv (by omega)⟩
    · obtain ⟨bits, hbits⟩ := hnumber.resolve_left hinteger
      exact ⟨_, .float (not_exists.1 hinteger) hbits⟩
  · by_cases hregister : ∃ i, IsRegister token.toList i
    · obtain ⟨i, hi⟩ := hregister
      by_cases hlt : i < count.toNat
      · have hindex : (UInt8.ofNat i).toNat = i := by
          have := count.toNat_lt
          rw [UInt8.toNat_ofNat']
          omega
        refine ⟨.ok (.register (UInt8.ofNat i)), .register hnumber (hindex.symm ▸ hi) ?_⟩
        rw [UInt8.lt_iff_toNat_lt, hindex]
        exact hlt
      · exact ⟨_, .registerOutOfRange hnumber hi (by omega)⟩
    · have hnone := not_exists.1 hregister
      cases hhead : token.toList.head? with
      | none => exact ⟨_, .label hnumber hnone (by rw [hhead]; nofun)⟩
      | some c =>
        cases hdigit : c.isDigit with
        | true => exact ⟨_, .badArgument hnumber hnone hhead hdigit⟩
        | false =>
          refine ⟨_, .label hnumber hnone ?_⟩
          rw [hhead]
          rintro _ ⟨⟩
          exact hdigit

theorem Classified.classify_eq (h : Classified token count result) :
    OperandToken.classify token count = result := by
  unfold OperandToken.classify
  cases h with
  | @integer v bits hv hlow hhigh hbits =>
    have heq : Bytes.ofSigned v = bits := by
      rw [← UInt32.toNat_inj]
      have := toNat_ofSigned v
      omega
    rw [constant_of_isInteger hv, if_pos ⟨hlow, hhigh⟩, heq]
  | integerTooLarge hv hrange =>
    rw [constant_of_isInteger hv, if_neg (by omega)]
  | float hinteger hbits => rw [constant_of_isFloat hinteger hbits]
  | register hnumber hi hlt =>
    rw [constant_of_not_isNumber hnumber, register?_eq_some_iff.2 hi]
    dsimp only
    rw [if_pos (UInt8.lt_iff_toNat_lt.1 hlt), UInt8.ofNat_toNat]
  | registerOutOfRange hnumber hi hle =>
    rw [constant_of_not_isNumber hnumber, register?_eq_some_iff.2 hi]
    dsimp only
    rw [if_neg (Nat.not_lt.2 hle)]
  | badArgument hnumber hnone hhead hdigit =>
    rw [constant_of_not_isNumber hnumber, register?_eq_none hnone, startsWithDigit, hhead]
    dsimp only
    rw [Option.any_some, if_pos hdigit]
  | label hnumber hnone hdigit =>
    have hstart : startsWithDigit token = false := by
      unfold startsWithDigit
      cases hhead : token.toList.head? with
      | none => rfl
      | some c => exact hdigit c hhead
    rw [constant_of_not_isNumber hnumber, register?_eq_none hnone, hstart]
    rfl

/-- The classifier follows the grammar. -/
theorem classify_eq_iff :
    OperandToken.classify token count = result ↔ Classified token count result := by
  constructor
  · rintro rfl
    obtain ⟨result, hresult⟩ := exists_classified token count
    rwa [hresult.classify_eq]
  · exact Classified.classify_eq

theorem toLower_ne_of_isDigit {c : Char} (h : c.isDigit = true) : c.toLower ≠ 'n' := by
  rw [Text.toLower_of_isDigit h]
  rintro rfl
  cases h

/-- What looks like a number has not the letter of the words for infinity and for no number. -/
theorem IsNumberLike.toLower_ne {cs : List Char} (h : IsNumberLike cs) :
    ∀ c ∈ cs, c.toLower ≠ 'n' := by
  obtain ⟨signs, c, rest, rfl, hsigns, hc, hrest⟩ := h
  intro d hd
  rcases List.mem_append.1 hd with hd | hd
  · rcases hsigns d hd with rfl | rfl <;> decide
  · rcases List.mem_cons.1 hd with rfl | hd
    · rcases hc with hc | rfl
      · exact toLower_ne_of_isDigit hc
      · decide
    · rcases hrest d hd with hd | rfl | rfl | rfl | rfl | rfl
      · exact toLower_ne_of_isDigit hd
      all_goals decide

/-- The classifier accepts exactly the grammar of operand tokens. A text that looks like a number is
read as a float exactly if it is a decimal number, and then as the float nearest to it; for this, a
number with a huge exponent must not have a huge number of digits as well. -/
theorem classify_grammar (token : String) (count : UInt8) :
    (∀ result, OperandToken.classify token count = result ↔ Classified token count result) ∧
    (IsNumberLike token.toList →
      ((∃ bits, Binary32.read? token.toList = some bits) ↔
        ∃ negative digits places e,
          Binary32.IsDecimal token.toList negative digits places e) ∧
      ∀ negative digits places e,
        Binary32.IsDecimal token.toList negative digits places e →
        token.toList.length ≤ 65000 ∨ e.natAbs < Binary32.exponentLimit →
        ∃ m, Binary32.read? token.toList = some (Binary32.ofParts negative m) ∧
          Binary32.IsNearest (digits * 10 ^ (e - places)) m) := by
  refine ⟨fun _ => classify_eq_iff, fun hlike => ?_⟩
  have hword := hlike.toLower_ne
  refine ⟨Binary32.exists_read?_iff hword, fun negative digits places e hdecimal hlimit => ?_⟩
  exact Binary32.read?_of_isDecimal hdecimal hlimit

end StackMachine.Assembly
