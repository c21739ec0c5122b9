import DdsApps.Threads.SharedMem

/-!
# The mark at the end of the data

The publisher computes where its mark begins from the length of the mark, the subscriber reads from
a fixed place.

* `marker_eq` — the mark always has 8 bytes
* `prepare_marked` — one call of `publish`
* `tail_marker_read` — all messages of all runs
-/

namespace DdsApps.Threads.SharedMem

open DdsApps.Infra
open DdsApps.Types.SharedMem (HelloWorld dataSize)

/-! ## The mark -/

/-- `BigData`, and the last digit of the index. -/
def marker (index : UInt32) : List UInt8 := bytes "BigData" ++ [48 + (index % 10).toUInt8]

theorem marker_digits : ∀ d < 10,
    bytes ("BigData" ++ toString d) = bytes "BigData" ++ [48 + d.toUInt8] ∧
      (0 : UInt8) ∉ bytes "BigData" ++ [48 + d.toUInt8] := by
  decide +kernel

/-- **The formatted string is the mark**, which has no zero in it. -/
theorem marker_eq (index : UInt32) :
    bytes ("BigData" ++ toString (index % 10).toNat) = marker index ∧ 0 ∉ marker index := by
  have hlt : (index % 10).toNat < 10 := by
    rw [UInt32.toNat_mod]
    exact Nat.mod_lt _ (by decide)
  obtain ⟨heq, hzero⟩ := marker_digits _ hlt
  have hdigit : (index % 10).toNat.toUInt8 = (index % 10).toUInt8 := rfl
  rw [hdigit] at heq hzero
  exact ⟨heq, hzero⟩

theorem length_marker (index : UInt32) : (marker index).length = 8 := rfl

theorem nine_le_dataSize : 9 ≤ dataSize := by
  unfold dataSize
  omega

/-! ## One call -/

/-- All bytes but the last 9 are as the constructor has left them. -/
def Clean (hello_ : HelloWorld) : Prop :=
  ∀ b ∈ hello_.data.toList.take (dataSize - 9), b = 0

/-- The subscriber reads the mark of the message's own index. -/
structure Marked (hello_ : HelloWorld) : Prop where
  clean : Clean hello_
  dataEnd : dataEnd hello_ = some (marker hello_.index)

theorem prepare_eq (hello_ : HelloWorld) :
    prepare hello_ = (strcpy hello_.data (dataSize - 9) (marker (hello_.index + 1))).map fun data =>
      { hello_ with index := hello_.index + 1, data := data } := by
  unfold prepare
  dsimp only
  rw [(marker_eq (hello_.index + 1)).1, length_marker, Nat.sub_sub]

/-- The mark and its zero always fit: they end with the last byte. -/
theorem exists_prepare (hello_ : HelloWorld) : ∃ written, prepare hello_ = some written := by
  have hsize := nine_le_dataSize
  have hfits : dataSize - 9 + (marker (hello_.index + 1)).length + 1 ≤ dataSize := by
    rw [length_marker]
    omega
  obtain ⟨data, hdata⟩ := exists_strcpy hello_.data hfits
  rw [prepare_eq, hdata]
  exact ⟨_, rfl⟩

theorem prepare_marked {hello_ written : HelloWorld} (hclean : Clean hello_)
    (h : prepare hello_ = some written) : Marked written := by
  rw [prepare_eq] at h
  obtain ⟨data, hdata, rfl⟩ := Option.map_eq_some_iff.mp h
  refine ⟨?_, cString_of_strcpy (marker_eq _).2 hdata⟩
  unfold Clean
  rw [take_of_strcpy hdata]
  exact hclean

/-! ## Every run -/

/-- The publisher's own message, and those it has written. -/
structure AllMarked (s : Publish.State HelloWorld) : Prop where
  message : Clean s.message
  written : ∀ m ∈ s.written, Marked m

theorem AllMarked.init : AllMarked (Publish.init app) where
  message _ hb := List.eq_of_mem_replicate (List.mem_of_mem_take hb)
  written _ hmem := absurd hmem List.not_mem_nil

theorem AllMarked.step {s t : Publish.State HelloWorld} (h : AllMarked s) {e : Publish.Event}
    (ht : Publish.step app s e = some t) : AllMarked t := by
  rcases Publish.step_cases ht with ⟨info, -, -, rfl⟩ | ⟨message, hprepare, rfl⟩ | rfl
  · exact ⟨h.message, h.written⟩
  · rw [app_prepare] at hprepare
    have hmarked := prepare_marked h.message hprepare
    refine ⟨hmarked.clean, ?_⟩
    rw [List.forall_mem_append, List.forall_mem_singleton]
    exact ⟨h.written, hmarked⟩
  · exact h

/--
**The subscriber reads the mark of each message, in all runs.**

No call writes outside the data, which is zero before its last 9 bytes.
-/
theorem tail_marker_read {s : Publish.State HelloWorld} (hs : (Publish.machine app).Reachable s) :
    (∀ waitForListener, ∃ r, Publish.publish app waitForListener s = some r) ∧
    Clean s.message ∧ ∀ m ∈ s.written, Clean m ∧ dataEnd m = some (marker m.index) := by
  have hall : AllMarked s :=
    Machine.invariant AllMarked.init (fun _ _ _ _ h ht => h.step ht) hs
  refine ⟨fun waitForListener => ?_, hall.message, fun m hm => ?_⟩
  · unfold Publish.publish
    split
    · obtain ⟨message, hprepare⟩ := exists_prepare s.message
      rw [app_prepare, hprepare]
      exact ⟨_, rfl⟩
    · exact ⟨_, rfl⟩
  · exact ⟨(hall.written m hm).clean, (hall.written m hm).dataEnd⟩

/-- The first message. -/
theorem first_marker_read :
    ∃ m, prepare app.message = some m ∧ dataEnd m = some (bytes "BigData1") := by
  obtain ⟨m, hm⟩ := exists_prepare app.message
  have hindex : m.index = 1 := by
    rw [prepare_eq] at hm
    obtain ⟨data, -, rfl⟩ := Option.map_eq_some_iff.mp hm
    rfl
  have hpublish : Publish.step app (Publish.init app) (.publish false)
      = some { Publish.init app with message := m, written := [m] } := by
    have hprepare : app.prepare (Publish.init app).message = some m := by
      rw [app_prepare]
      exact hm
    simp only [Publish.step, Publish.publish, hprepare]
    rfl
  have hreachable : (Publish.machine app).Reachable
      { Publish.init app with message := m, written := [m] } :=
    Machine.ReachableWhere.step (e := .publish false) .init trivial hpublish
  have hread := ((tail_marker_read hreachable).2.2 m (List.mem_cons_self ..)).2
  rw [hindex] at hread
  have hmarker : marker 1 = bytes "BigData1" := by decide +kernel
  exact ⟨m, hm, hmarker ▸ hread⟩

end DdsApps.Threads.SharedMem
