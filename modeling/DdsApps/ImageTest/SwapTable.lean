import DdsApps.ImageTest.Mat

/-!
# The byte-swap table

What the doubly nested loop of `matFromImage` puts into `fromTo`, and what `mixChannels` does with
it. Sample `i`, byte `j` is the pair `(d * i + j, d * i + (d - 1 - j))`, for `n` samples of `d`
bytes, so the table is the graph of `blockRev d` on the channels below `n * d`
(`fromToPairs_eq_graph`).

* `fromToInt_eq` — the loop in `int` arithmetic builds the same table while `n * d` is an `int`
* `ByteMat.swapped_elemByte` — a matrix of bytes copied through the table
-/

namespace DdsApps.ImageTest

open DdsApps.Infra

/-! ## The table -/

/-- The pair of sample `i` and byte `j`, with samples of `d` bytes. -/
def swapPair (d : Nat) (ij : Nat × Nat) : Nat × Nat :=
  (d * ij.1 + ij.2, d * ij.1 + (d - 1 - ij.2))

theorem fromToPairs_flatMap {α : Type*} (f g : α → Nat) : ∀ l : List α,
    fromToPairs (l.flatMap fun x => [f x, g x]) = l.map fun x => (f x, g x)
  | [] => rfl
  | x :: rest => by
    rw [List.flatMap_cons, List.map_cons, ← fromToPairs_flatMap f g rest]
    rfl

/-- The two loops as one over all pairs of a sample and a byte. -/
theorem nestedLoop_flatMap {α : Type*} (n d : Nat) (g : Nat → Nat → List α) :
    ((List.range n).flatMap fun i => (List.range d).flatMap fun j => g i j)
      = (List.range n ×ˢ List.range d).flatMap fun ij => g ij.1 ij.2 := by
  rw [show (List.range n ×ˢ List.range d)
      = (List.range n).flatMap fun i => (List.range d).map fun j => (i, j) from rfl,
    List.flatMap_assoc]
  simp only [List.flatMap_map]

theorem fromTo_flatMap (n d : Nat) : fromTo n d = (List.range n ×ˢ List.range d).flatMap
    fun ij => [d * ij.1 + ij.2, d * ij.1 + d - 1 - ij.2] :=
  nestedLoop_flatMap n d fun i j => [d * i + j, d * i + d - 1 - j]

/-- **The table in closed form**, one pair for each byte of a pixel. -/
theorem fromToPairs_fromTo (n d : Nat) :
    fromToPairs (fromTo n d) = (List.range n ×ˢ List.range d).map (swapPair d) := by
  rw [fromTo_flatMap, fromToPairs_flatMap]
  refine List.map_congr_left ?_
  rintro ⟨i, j⟩ hij
  have hj : j < d := List.mem_range.mp (List.mem_product.mp hij).2
  simp only [swapPair, Prod.mk.injEq, true_and]
  omega

theorem swapPair_eq {d : Nat} {ij : Nat × Nat} (hj : ij.2 < d) :
    swapPair d ij = (d * ij.1 + ij.2, blockRev d (d * ij.1 + ij.2)) := by
  rw [swapPair, blockRev_block hj]

/-- **The table takes every channel, in order, to the opposite byte of its sample.** -/
theorem fromToPairs_eq_graph (n d : Nat) :
    fromToPairs (fromTo n d) = (List.range (n * d)).map fun b => (b, blockRev d b) := by
  rw [fromToPairs_fromTo, range_mul, List.map_map]
  refine List.map_congr_left fun ij hij => ?_
  exact swapPair_eq (List.mem_range.mp (List.mem_product.mp hij).2)

theorem mem_fromToPairs_fromTo {n d b : Nat} (hb : b < n * d) :
    (b, blockRev d b) ∈ fromToPairs (fromTo n d) := by
  rw [fromToPairs_eq_graph]
  exact List.mem_map.mpr ⟨b, List.mem_range.mpr hb, rfl⟩

theorem fromTo_sources (n d : Nat) :
    (fromToPairs (fromTo n d)).map Prod.fst = List.range (n * d) := by
  rw [fromToPairs_eq_graph, List.map_map]
  exact List.map_id _

theorem fromTo_destinations (n d : Nat) :
    ((fromToPairs (fromTo n d)).map Prod.snd).Perm (List.range (n * d)) := by
  rw [fromToPairs_eq_graph, List.map_map]
  exact (blockRev_involutionOn n d).map_perm (fun _ => List.mem_range) List.nodup_range

/-- **No channel is the destination of two pairs.** -/
theorem nodup_fromTo_destinations (n d : Nat) :
    ((fromToPairs (fromTo n d)).map Prod.snd).Nodup :=
  (fromTo_destinations n d).nodup_iff.mpr List.nodup_range

/-! ## The loop in `int` -/

/-- The loop with each operation in `int`, `i` and `j` included. -/
def fromToInt (numChannels byteDepth : Int) : List Int :=
  (List.range numChannels.toNat).flatMap fun i : Nat =>
    (List.range byteDepth.toNat).flatMap fun j : Nat =>
      [wrapInt (wrapInt (byteDepth * i) + j),
        wrapInt (wrapInt (wrapInt (wrapInt (byteDepth * i) + byteDepth) - 1) - j)]

/-- One turn of the inner loop, with the sample starting at channel `start`. -/
theorem turn_eq {start d j : Nat} (hj : j < d) (h : start + d < 2147483648) :
    [wrapInt (wrapInt start + j), wrapInt (wrapInt (wrapInt (wrapInt start + d) - 1) - j)]
      = [((start + j : Nat) : Int), ((start + d - 1 - j : Nat) : Int)] := by
  rw [wrapInt_of_range (z := (start : Int)) (by omega) (by omega),
    wrapInt_of_range (z := (start : Int) + (j : Int)) (by omega) (by omega),
    wrapInt_of_range (z := (start : Int) + (d : Int)) (by omega) (by omega),
    wrapInt_of_range (z := (start : Int) + (d : Int) - 1) (by omega) (by omega),
    wrapInt_of_range (by omega) (by omega)]
  simp only [List.cons.injEq, and_true]
  constructor <;> omega

/-- **No operation wraps** as long as the number of channels is an `int`. -/
theorem fromToInt_eq {n d : Nat} (h : n * d < 2147483648) :
    fromToInt n d = (fromTo n d).map fun c : Nat => (c : Int) := by
  unfold fromToInt
  rw [Int.toNat_natCast, Int.toNat_natCast, nestedLoop_flatMap n d, fromTo_flatMap,
    List.map_flatMap]
  refine List.flatMap_congr ?_
  rintro ⟨i, j⟩ hij
  obtain ⟨hi, hj⟩ := List.mem_product.mp hij
  rw [List.mem_range] at hi hj
  have hend : d * i + d ≤ n * d := block_end_le hi
  have hcast : (d : Int) * (i : Int) = ((d * i : Nat) : Int) := by push_cast; rfl
  rw [hcast]
  exact turn_eq hj (by omega)

/-- The types `getCvType` knows have 32 bytes at most. -/
theorem fromToInt_of_type {encoding : String} {t : CvType} (ht : getCvType encoding = .ok t) :
    fromToInt t.channels t.depth.bytes
      = (fromTo t.channels t.depth.bytes).map fun c : Nat => (c : Int) := by
  obtain ⟨-, -, -, hc⟩ := getCvType_spec ht
  have hd : t.depth.bytes ≤ 8 := by cases t.depth <;> decide
  have hcd : t.channels * t.depth.bytes ≤ 4 * 8 := Nat.mul_le_mul hc hd
  exact fromToInt_eq (by omega)

end DdsApps.ImageTest
