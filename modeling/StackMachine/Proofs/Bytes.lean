import StackMachine.Bytes

/-!
# Words in byte strings

A reader depends on the bytes that it reads and on nothing else, so a word stored elsewhere does not
disturb it, and the start of a byte string can be read in place of the whole.

* `read32?_congr`, `read16?_congr`: readers of byte strings that agree where they read.
* `read16?_of_extract`, `read32?_of_extract`: what is read from the start of a byte string.
* `read32?_store32_self`, `extract_store32`: a word that was stored is read back, and what stands
  before it is as it was.
* `wordsAt`: the words that follow one another in a byte string.
-/

namespace StackMachine.Bytes

variable {bytes bytes' : Bytes} {address : Nat}

/-! ## Agreement -/

theorem read16?_isSome (h : address + 2 ≤ bytes.size) : ∃ w, bytes.read16? address = some w := by
  rw [read16?, dif_pos h]
  exact ⟨_, rfl⟩

theorem read32?_isSome (h : address + 4 ≤ bytes.size) : ∃ w, bytes.read32? address = some w := by
  rw [read32?, dif_pos h]
  exact ⟨_, rfl⟩

theorem read16?_congr (h : ∀ i < 2, bytes[address + i]? = bytes'[address + i]?) :
    bytes.read16? address = bytes'.read16? address := by
  have h₀ := h 0 (by decide)
  have h₁ := h 1 (by decide)
  rw [Nat.add_zero] at h₀
  by_cases hsize : address + 2 ≤ bytes.size
  · rw [Array.getElem?_eq_getElem (by omega)] at h₀ h₁
    obtain ⟨_, h₀⟩ := Array.getElem?_eq_some_iff.1 h₀.symm
    obtain ⟨hsize', h₁⟩ := Array.getElem?_eq_some_iff.1 h₁.symm
    rw [read16?, read16?, dif_pos hsize, dif_pos (by omega), h₀, h₁]
  · rw [Array.getElem?_eq_none (by omega)] at h₁
    have hsize' := Array.getElem?_eq_none_iff.1 h₁.symm
    rw [read16?, read16?, dif_neg hsize, dif_neg (by omega)]

theorem read32?_congr (h : ∀ i < 4, bytes[address + i]? = bytes'[address + i]?) :
    bytes.read32? address = bytes'.read32? address := by
  have h₀ := h 0 (by decide)
  have h₁ := h 1 (by decide)
  have h₂ := h 2 (by decide)
  have h₃ := h 3 (by decide)
  rw [Nat.add_zero] at h₀
  by_cases hsize : address + 4 ≤ bytes.size
  · rw [Array.getElem?_eq_getElem (by omega)] at h₀ h₁ h₂ h₃
    obtain ⟨_, h₀⟩ := Array.getElem?_eq_some_iff.1 h₀.symm
    obtain ⟨_, h₁⟩ := Array.getElem?_eq_some_iff.1 h₁.symm
    obtain ⟨_, h₂⟩ := Array.getElem?_eq_some_iff.1 h₂.symm
    obtain ⟨hsize', h₃⟩ := Array.getElem?_eq_some_iff.1 h₃.symm
    rw [read32?, read32?, dif_pos hsize, dif_pos (by omega), h₀, h₁, h₂, h₃]
  · rw [Array.getElem?_eq_none (by omega)] at h₃
    have hsize' := Array.getElem?_eq_none_iff.1 h₃.symm
    rw [read32?, read32?, dif_neg hsize, dif_neg (by omega)]

/-! ## The start of a byte string -/

theorem getElem?_extract_zero {stop i : Nat} (hi : i < stop) :
    (bytes.extract 0 stop)[i]? = bytes[i]? := by
  rw [Array.getElem?_extract, Nat.zero_add]
  split
  · rfl
  · exact (Array.getElem?_eq_none (by omega)).symm

theorem getElem?_of_extract {stop i : Nat} {b : UInt8} (h : (bytes.extract 0 stop)[i]? = some b) :
    bytes[i]? = some b := by
  obtain ⟨hi, _⟩ := Array.getElem?_eq_some_iff.1 h
  rw [Array.size_extract] at hi
  rwa [getElem?_extract_zero (by omega)] at h

theorem read16?_of_extract {stop : Nat} {w : UInt16}
    (h : read16? (bytes.extract 0 stop) address = some w) : bytes.read16? address = some w := by
  have hsize : address + 2 ≤ stop := by
    unfold read16? at h
    split at h
    · rename_i hsize
      rw [Array.size_extract] at hsize
      omega
    · cases h
  have hread : read16? (bytes.extract 0 stop) address = bytes.read16? address :=
    read16?_congr fun _ hi => getElem?_extract_zero (by omega)
  rwa [hread] at h

theorem read32?_of_extract {stop : Nat} {w : UInt32}
    (h : read32? (bytes.extract 0 stop) address = some w) : bytes.read32? address = some w := by
  have hsize : address + 4 ≤ stop := by
    unfold read32? at h
    split at h
    · rename_i hsize
      rw [Array.size_extract] at hsize
      omega
    · cases h
  have hread : read32? (bytes.extract 0 stop) address = bytes.read32? address :=
    read32?_congr fun _ hi => getElem?_extract_zero (by omega)
  rwa [hread] at h

/-! ## Stored words -/

theorem getElem?_store32_of_ne {i : Nat} (w : UInt32) (h : i < address ∨ address + 4 ≤ i) :
    (bytes.store32 address w)[i]? = bytes[i]? := by
  simp only [store32]
  rw [Array.getElem?_setIfInBounds_ne (by omega), Array.getElem?_setIfInBounds_ne (by omega),
    Array.getElem?_setIfInBounds_ne (by omega), Array.getElem?_setIfInBounds_ne (by omega)]

theorem read32?_eq_some {b₀ b₁ b₂ b₃ : UInt8} (h₀ : bytes[address]? = some b₀)
    (h₁ : bytes[address + 1]? = some b₁) (h₂ : bytes[address + 2]? = some b₂)
    (h₃ : bytes[address + 3]? = some b₃) :
    bytes.read32? address = some (word32 b₀ b₁ b₂ b₃) := by
  obtain ⟨_, h₀⟩ := Array.getElem?_eq_some_iff.1 h₀
  obtain ⟨_, h₁⟩ := Array.getElem?_eq_some_iff.1 h₁
  obtain ⟨_, h₂⟩ := Array.getElem?_eq_some_iff.1 h₂
  obtain ⟨hsize, h₃⟩ := Array.getElem?_eq_some_iff.1 h₃
  rw [read32?, dif_pos (by omega), h₀, h₁, h₂, h₃]

theorem read32?_store32_self (w : UInt32) (h : address + 4 ≤ bytes.size) :
    (bytes.store32 address w).read32? address = some w := by
  rw [← word32_bytes32 w]
  apply read32?_eq_some
  all_goals
    simp only [store32, Array.getElem?_setIfInBounds, Array.size_setIfInBounds, word32_bytes32]
    grind

theorem extract_store32 {stop : Nat} (w : UInt32) (h : stop ≤ address) :
    (bytes.store32 address w).extract 0 stop = bytes.extract 0 stop := by
  apply Array.ext_getElem?
  intro i
  by_cases hi : i < stop
  · rw [getElem?_extract_zero hi, getElem?_extract_zero hi, getElem?_store32_of_ne w (by omega)]
  · rw [Array.getElem?_eq_none, Array.getElem?_eq_none]
    · rw [Array.size_extract]
      omega
    · rw [Array.size_extract]
      omega

/-! ## Consecutive words -/

/-- The words that follow one another from an address on, as far as they are inside. -/
def wordsAt (bytes : Bytes) (address count : Nat) : List UInt32 :=
  (List.range count).filterMap fun n => bytes.read32? (address + 4 * n)

theorem wordsAt_succ {w : UInt32} (h : bytes.read32? address = some w) (count : Nat) :
    bytes.wordsAt address (count + 1) = w :: bytes.wordsAt (address + 4) count := by
  rw [wordsAt, List.range_succ_eq_map, List.filterMap_cons_some (by simpa using h),
    List.filterMap_map, wordsAt]
  congr 2
  funext n
  exact congrArg bytes.read32? (by simp only [Nat.succ_eq_add_one]; omega)

theorem wordsAt_congr (count : Nat) (h : ∀ i, address ≤ i → bytes[i]? = bytes'[i]?) :
    bytes.wordsAt address count = bytes'.wordsAt address count := by
  unfold wordsAt
  congr 1
  funext n
  exact read32?_congr fun i _ => h _ (by omega)

theorem length_wordsAt {count : Nat} (h : address + 4 * count ≤ bytes.size) :
    (bytes.wordsAt address count).length = count := by
  induction count generalizing address with
  | zero => rfl
  | succ count ih =>
    have hfirst : address + 4 ≤ bytes.size := by omega
    obtain ⟨w, hw⟩ := read32?_isSome hfirst
    rw [wordsAt_succ hw, List.length_cons, ih (by omega)]

theorem getElem?_wordsAt {count k : Nat} (h : address + 4 * count ≤ bytes.size) (hk : k < count) :
    (bytes.wordsAt address count)[k]? = bytes.read32? (address + 4 * k) := by
  induction count generalizing address k with
  | zero => omega
  | succ count ih =>
    have hfirst : address + 4 ≤ bytes.size := by omega
    obtain ⟨w, hw⟩ := read32?_isSome hfirst
    rw [wordsAt_succ hw]
    cases k with
    | zero => exact hw.symm
    | succ k =>
      rw [List.getElem?_cons_succ, ih (by omega) (by omega)]
      congr 1
      omega

end StackMachine.Bytes
