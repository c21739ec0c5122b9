import Mathlib.Data.List.Nodup
import Mathlib.Data.List.ProdSigma
import Mathlib.Data.Set.Function
import Mathlib.Order.Interval.Set.Defs

/-!
# Involutions, and reversal inside blocks

* Involutions of a set (`InvolutionOn`): a list of its elements is permuted, the graph is
  symmetric, and whoever moves the contents of each place `a` to the place `f a` fills every place
  (`InvolutionOn.fills`) and undoes it by doing it again (`InvolutionOn.twice`).
* The numbers below `n * d` as `n` blocks of `d` numbers (`range_mul`). `blockRev d` leaves each
  number in its block and counts the places of the block from the other end; it is an involution of
  them (`blockRev_involutionOn`).
-/

namespace DdsApps.Infra

/-! ## Involutions -/

section Involution

variable {α β : Type*} {f : α → α} {s : Set α} {l : List α} {x y z : α → β}

/-- `f` stays in `s`, and is undone there by itself. -/
structure InvolutionOn (f : α → α) (s : Set α) : Prop where
  mapsTo : Set.MapsTo f s s
  leftInv : Set.LeftInvOn f f s

theorem InvolutionOn.mem_map (hf : InvolutionOn f s) (hl : ∀ a, a ∈ l ↔ a ∈ s) {a : α} :
    a ∈ l.map f ↔ a ∈ l := by
  rw [List.mem_map]
  constructor
  · rintro ⟨b, hb, rfl⟩
    exact (hl _).mpr (hf.mapsTo ((hl b).mp hb))
  · intro ha
    exact ⟨f a, (hl _).mpr (hf.mapsTo ((hl a).mp ha)), hf.leftInv ((hl a).mp ha)⟩

/-- **An involution permutes every list of its elements.** -/
theorem InvolutionOn.map_perm (hf : InvolutionOn f s) (hl : ∀ a, a ∈ l ↔ a ∈ s)
    (hnd : l.Nodup) : (l.map f).Perm l := by
  have hinj : ∀ a ∈ l, ∀ b ∈ l, f a = f b → a = b := by
    intro a ha b hb hab
    exact hf.leftInv.injOn ((hl a).mp ha) ((hl b).mp hb) hab
  exact (List.perm_ext_iff_of_nodup (hnd.map_on hinj) hnd).mpr fun a => hf.mem_map hl

/-- **Its graph is symmetric.** -/
theorem InvolutionOn.swap_mem_graph (hf : InvolutionOn f s) (hl : ∀ a, a ∈ l ↔ a ∈ s)
    {p : α × α} (hp : p ∈ l.map fun a => (a, f a)) : p.swap ∈ l.map fun a => (a, f a) := by
  obtain ⟨a, ha, rfl⟩ := List.mem_map.mp hp
  have has : a ∈ s := (hl a).mp ha
  refine List.mem_map.mpr ⟨f a, (hl _).mpr (hf.mapsTo has), ?_⟩
  rw [hf.leftInv has, Prod.swap_prod_mk]

/-- **No place stays unfilled**: each one has the contents of the place it is taken to. -/
theorem InvolutionOn.fills (hf : InvolutionOn f s) (hy : Set.EqOn (y ∘ f) x s) :
    Set.EqOn y (x ∘ f) s := by
  intro a ha
  calc y a = y (f (f a)) := by rw [hf.leftInv ha]
    _ = x (f a) := hy (hf.mapsTo ha)

/-- **Moving twice restores the contents.** -/
theorem InvolutionOn.twice (hf : InvolutionOn f s) (hy : Set.EqOn (y ∘ f) x s)
    (hz : Set.EqOn (z ∘ f) y s) : Set.EqOn z x s := by
  intro a ha
  calc z a = y (f a) := hf.fills hz ha
    _ = x a := hy ha

end Involution

/-! ## Blocks -/

variable {n d i j b : Nat}

/-- **The numbers below `n * d`, block after block.** -/
theorem range_mul (n d : Nat) :
    List.range (n * d) = (List.range n ×ˢ List.range d).map fun ij => d * ij.1 + ij.2 := by
  induction n with
  | zero => rw [Nat.zero_mul]; rfl
  | succ n ih =>
    rw [Nat.succ_mul, List.range_add, ih, List.range_succ, Nat.mul_comm n d]
    simp [SProd.sprod, List.product]

theorem block_div (hj : j < d) : (d * i + j) / d = i := by
  rw [Nat.mul_add_div (by omega), Nat.div_eq_of_lt hj, Nat.add_zero]

theorem block_mod (hj : j < d) : (d * i + j) % d = j := by
  rw [Nat.mul_add_mod, Nat.mod_eq_of_lt hj]

theorem block_end_le (hi : i < n) : d * i + d ≤ n * d := by
  calc d * i + d = d * (i + 1) := by rw [Nat.mul_add, Nat.mul_one]
    _ ≤ d * n := Nat.mul_le_mul_left d hi
    _ = n * d := Nat.mul_comm d n

theorem block_lt (hi : i < n) (hj : j < d) : d * i + j < n * d := by
  have hend : d * i + d ≤ n * d := block_end_le hi
  omega

theorem div_lt_blocks (hb : b < n * d) : b / d < n := by
  rw [Nat.mul_comm] at hb
  exact Nat.div_lt_of_lt_mul hb

/-- The number in the place opposite to that of `b`, in its block of `d`. -/
def blockRev (d b : Nat) : Nat := d * (b / d) + (d - 1 - b % d)

theorem blockRev_block (hj : j < d) : blockRev d (d * i + j) = d * i + (d - 1 - j) := by
  rw [blockRev, block_div hj, block_mod hj]

theorem opposite_lt (hd : 0 < d) : d - 1 - j < d := by omega

theorem blockRev_div (hd : 0 < d) : blockRev d b / d = b / d := block_div (opposite_lt hd)

theorem blockRev_mod (hd : 0 < d) : blockRev d b % d = d - 1 - b % d := block_mod (opposite_lt hd)

theorem blockRev_blockRev (hd : 0 < d) : blockRev d (blockRev d b) = b := by
  have hmod : b % d < d := Nat.mod_lt b hd
  calc blockRev d (blockRev d b) = d * (b / d) + (d - 1 - (d - 1 - b % d)) := by
        rw [blockRev, blockRev_div hd, blockRev_mod hd]
    _ = d * (b / d) + b % d := by omega
    _ = b := Nat.div_add_mod b d

theorem blockRev_involutionOn (n d : Nat) : InvolutionOn (blockRev d) (Set.Iio (n * d)) := by
  have hpos : ∀ b ∈ Set.Iio (n * d), 0 < d := by
    intro b hb
    exact Nat.pos_of_mul_pos_left (Nat.zero_lt_of_lt hb)
  constructor
  · intro b hb
    have hd := hpos b hb
    exact block_lt (div_lt_blocks hb) (opposite_lt hd)
  · intro b hb
    exact blockRev_blockRev (hpos b hb)

end DdsApps.Infra
