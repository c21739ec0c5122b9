import Mathlib.Data.Nat.Digits.Lemmas

/-!
# Byte strings

* Byte order: the number a byte string denotes in each byte order. Reversing the bytes exchanges
  the two readings, and a string denotes the same number in both exactly when it is its own
  reverse (`leValue_eq_beValue_iff`).
* Slices of a byte string (`slice`).
* Strided windows: `h` rows of `w` bytes, `s` bytes apart, in a buffer of `n` bytes
  (`window_inside_iff`), and what a size check in wrapping arithmetic says about them
  (`window_inside_of_wrapped_size`).
-/

namespace DdsApps.Infra

/-! ## Byte order -/

/-- The number denoted least significant byte first. -/
def leValue (bs : List UInt8) : Nat := Nat.ofDigits 256 (bs.map UInt8.toNat)

/-- The number denoted most significant byte first. -/
def beValue (bs : List UInt8) : Nat := bs.foldl (fun n b => 256 * n + b.toNat) 0

@[simp] theorem leValue_cons (b : UInt8) (bs : List UInt8) :
    leValue (b :: bs) = b.toNat + 256 * leValue bs := by
  simp [leValue, Nat.ofDigits_cons]

/-- Reading from the other end is reading the reversed bytes. -/
theorem leValue_reverse (bs : List UInt8) : leValue bs.reverse = beValue bs := by
  unfold beValue
  rw [← List.foldr_reverse]
  induction bs.reverse with
  | nil => rfl
  | cons b rest ih => rw [leValue_cons, ih, List.foldr_cons, Nat.add_comm]

/-- Byte strings of one length that denote the same number are equal. -/
theorem leValue_inj {as bs : List UInt8} (hlen : as.length = bs.length)
    (h : leValue as = leValue bs) : as = bs := by
  have hdigit : ∀ cs : List UInt8, ∀ d ∈ cs.map UInt8.toNat, d < 256 := by
    intro cs d hd
    obtain ⟨c, _, rfl⟩ := List.mem_map.mp hd
    exact c.toNat_lt
  have hmap : as.map UInt8.toNat = bs.map UInt8.toNat :=
    Nat.ofDigits_inj_of_len_eq (by decide) (by simpa using hlen) (hdigit as) (hdigit bs) h
  exact List.map_injective_iff.mpr (fun _ _ => UInt8.toNat_inj.mp) hmap

/-- **The two readings agree exactly on byte strings that are their own reverse.** -/
theorem leValue_eq_beValue_iff (bs : List UInt8) : beValue bs = leValue bs ↔ bs.reverse = bs := by
  rw [← leValue_reverse]
  constructor
  · exact leValue_inj (List.length_reverse ..)
  · intro h
    rw [h]

/-! ## Slices -/

/-- The `n` bytes from offset `off` on. -/
def slice (bs : List UInt8) (off n : Nat) : List UInt8 := (bs.drop off).take n

theorem length_slice {bs : List UInt8} {off n : Nat} (h : off + n ≤ bs.length) :
    (slice bs off n).length = n := by
  unfold slice
  rw [List.length_take, List.length_drop]
  omega

theorem getElem?_slice {bs : List UInt8} {off n j : Nat} (h : j < n) :
    (slice bs off n)[j]? = bs[off + j]? := by
  unfold slice
  rw [List.getElem?_take, if_pos h, List.getElem?_drop]

/-- A slice whose bytes are those of another one in the opposite order is its reverse. -/
theorem slice_eq_reverse {as bs : List UInt8} {offa offb n : Nat} (hb : offb + n ≤ bs.length)
    (h : ∀ j < n, as[offa + (n - 1 - j)]? = bs[offb + j]?) :
    slice as offa n = (slice bs offb n).reverse := by
  refine List.ext_getElem? fun i => ?_
  by_cases hi : i < n
  · have hj : n - 1 - (n - 1 - i) = i := by omega
    have hlt : i < (slice bs offb n).length := by rw [length_slice hb]; exact hi
    rw [List.getElem?_reverse hlt, length_slice hb, getElem?_slice hi,
      getElem?_slice (by omega), ← h (n - 1 - i) (by omega), hj]
  · have hle : (slice as offa n).length ≤ n := List.length_take_le ..
    rw [List.getElem?_eq_none (by omega),
      List.getElem?_eq_none (by rw [List.length_reverse, length_slice hb]; omega)]

/-! ## Strided windows -/

/-- **A window lies inside a buffer exactly when its last byte does.** -/
theorem window_inside_iff (h w s n : Nat) :
    (∀ r < h, ∀ b < w, r * s + b < n) ↔ h = 0 ∨ w = 0 ∨ (h - 1) * s + w ≤ n := by
  constructor
  · intro hall
    by_cases hh : h = 0
    · exact Or.inl hh
    · by_cases hw : w = 0
      · exact Or.inr (Or.inl hw)
      · have hlast := hall (h - 1) (by omega) (w - 1) (by omega)
        exact Or.inr (Or.inr (by omega))
  · rintro (rfl | rfl | hlast) r hr b hb
    · omega
    · omega
    · -- no row starts after the last one
      have hrow : r * s ≤ (h - 1) * s := Nat.mul_le_mul_right s (by omega)
      omega

/--
A window whose size has only been checked modulo `M`, in a row distance below `M`: it lies inside
the buffer exactly when neither the row width nor the size wraps.
-/
theorem window_inside_of_wrapped_size {h w s n M : Nat} (hs : s < M) (hrow : w % M ≤ s)
    (hsize : h * s % M = n) (hh : 0 < h) (hw : 0 < w) :
    (h - 1) * (if s = 0 then w else s) + w ≤ n ↔ w < M ∧ h * s < M := by
  have hlast : (h - 1) * s + s = h * s := by
    rw [← Nat.succ_mul, Nat.succ_eq_add_one, Nat.sub_add_cancel hh]
  have hmod : n + M * (h * s / M) = h * s := by rw [← hsize]; exact Nat.mod_add_div _ _
  by_cases hs0 : s = 0
  · -- a row distance of 0 leaves an empty buffer
    subst hs0
    rw [Nat.mul_zero, Nat.zero_mod] at hsize
    rw [if_pos rfl]
    constructor
    · intro hle
      omega
    · rintro ⟨hwM, -⟩
      rw [Nat.mod_eq_of_lt hwM] at hrow
      omega
  · rw [if_neg hs0]
    constructor
    · intro hle
      refine ⟨by omega, ?_⟩
      by_contra hge
      -- a size that wraps is at least `M`, a whole row or more, ahead of the one that was checked
      have hq : 1 ≤ h * s / M := (Nat.one_le_div_iff (by omega)).mpr (by omega)
      have hM : M ≤ M * (h * s / M) := Nat.le_mul_of_pos_right M hq
      omega
    · rintro ⟨hwM, hhM⟩
      rw [Nat.mod_eq_of_lt hwM] at hrow
      rw [Nat.mod_eq_of_lt hhM] at hsize
      omega

end DdsApps.Infra
