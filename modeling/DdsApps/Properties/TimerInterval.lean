import DdsApps.Config.Timer

/-!
# The interval of the cyclic publishers

From the document to the timer: the last entry's integer, narrowed to 16 bits with a silent
fallback, is split into seconds and nanoseconds that are not reduced to a part of a second.

* `configuredInterval_of_sets` — what is left of the integer a document sets
* `interval_exact_iff` — the timer runs at that interval exactly below one second
* `default_interval_not_armed` — at the code's own default `run()` ends in `exit(1)`
-/

namespace DdsApps.Config

variable {yaml : YamlCpp} {node : Node}

/-- The document asks for `ms` milliseconds: the last entry says so, or says nothing. -/
def SetsInterval (yaml : YamlCpp) (node : Node) (ms : Int) : Prop :=
  match node.topics.getLast? with
  | some item =>
    yaml.asInteger (item.lookup "interval_ms") = some ms ∨
      (item.lookup "interval_ms" = .undefined ∧ ms = 1000)
  | none => ms = 1000

/-- An integer beyond 16 bits is replaced by the fallback. -/
theorem configuredInterval_of_sets {ms : Int} (hset : SetsInterval yaml node ms) (hms : 1 ≤ ms) :
    (configuredInterval yaml node).toNat = if ms < 65536 then ms.toNat else 1000 := by
  unfold SetsInterval at hset
  unfold configuredInterval
  cases hlast : node.topics.getLast? with
  | none =>
    rw [hlast] at hset
    subst hset
    rfl
  | some item =>
    rw [hlast] at hset
    simp only [Option.map_some, Option.getD_some]
    rcases hset with hinteger | ⟨hundefined, rfl⟩
    · rw [yaml.asUInt16_of_asInteger hinteger]
      by_cases hfits : ms < 65536
      · rw [if_pos ⟨by omega, hfits⟩, if_pos hfits, Option.getD_some, UInt16.toNat_ofNat',
          Nat.mod_eq_of_lt (by omega)]
      · rw [if_neg (fun h => hfits h.2), if_neg hfits]
        rfl
    · rw [hundefined, YamlCpp.asUInt16, yaml.undefined_not_convertible.2.2.2]
      rfl

/-- `run()` arms the timer, and both of its times are `ms` milliseconds. -/
def RunsEvery (interval_ms_ : UInt16) (ms : Int) : Prop :=
  ∃ ts, armTimer interval_ms_ = .ok ts ∧ ts.it_value.Denotes ms ∧ ts.it_interval.Denotes ms

/--
**The interval a document asks for is the one the timer runs at exactly below one second.**
-/
theorem interval_exact_iff (dds : Call → Bool) {ms : Int} (hset : SetsInterval yaml node ms)
    (hms : 1 ≤ ms) :
    ∀ init ∈ publisherInits,
      ∀ p, init yaml dds node = .ok p → (RunsEvery p.fields.interval_ms_ ms ↔ ms < 1000) := by
  refine forall_publisherInits fun type p hp => ?_
  obtain ⟨-, -, rfl⟩ := publisherInit_eq_ok_iff.mp hp
  have hread := configuredInterval_of_sets hset hms
  have hexact := armTimer_denotes_iff (configuredInterval yaml node)
  show RunsEvery (configuredInterval yaml node) ms ↔ _
  unfold RunsEvery
  by_cases hfits : ms < 65536
  · rw [if_pos hfits] at hread
    have hcast : ((configuredInterval yaml node).toNat : Int) = ms := by omega
    rw [hcast] at hexact
    rw [hexact, hread]
    omega
  · -- the fallback of 1000 ms is no interval the timer can be set to
    rw [if_neg hfits] at hread
    refine iff_of_false ?_ (by omega)
    rintro ⟨ts, harm, -, -⟩
    have h1000 : configuredInterval yaml node = 1000 := UInt16.toNat_inj.mp hread
    rw [h1000, armTimer_default] at harm
    cases harm

theorem shippedConfig_runs_every : RunsEvery 100 100 := by
  have hset : SetsInterval YamlCpp.plain shippedConfig 100 := Or.inl (by decide)
  exact (interval_exact_iff (fun _ => true) hset (by decide) CyclicROSDataPublisher.init
    (List.mem_cons_self ..) _
    (publisherInit_eq_ok_iff.mpr ⟨accepted_shippedConfig, by decide, rfl⟩)).mpr (by decide)

/-- **At the default of 1000 ms both publishers exit instead of running.** -/
theorem default_interval_not_armed :
    ¬∃ init ∈ publisherInits,
      ∀ yaml dds node ms p, SetsInterval yaml node ms → 1 ≤ ms → init yaml dds node = .ok p →
        p.success = true → RunsEvery p.fields.interval_ms_ ms := by
  rintro ⟨init, hinit, hall⟩
  revert init
  refine forall_publisherInits fun type hall => ?_
  obtain ⟨ts, harm, -, -⟩ := hall YamlCpp.plain (fun _ => true) emptyConfig 1000 _ rfl
    (by decide) (publisherInit_eq_ok_iff.mpr ⟨accepted_emptyConfig, by decide, rfl⟩)
    (by cases type <;> decide)
  exact absurd (armTimer_default.symm.trans harm) (by intro h; cases h)

end DdsApps.Config
