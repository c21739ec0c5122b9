import DdsApps.Config.Init
import Mathlib.Tactic.Linarith

/-!
# The timer of the cyclic publishers

The part of `run()` that turns `interval_ms_` into the setting of a POSIX timer.
-/

namespace DdsApps.Config

open DdsApps.Infra

/-- `struct timespec` -/
structure Timespec where
  tv_sec : Int
  tv_nsec : Int
deriving DecidableEq, Repr

/-- `struct itimerspec` -/
structure Itimerspec where
  it_value : Timespec
  it_interval : Timespec
deriving DecidableEq, Repr

/-- The nanoseconds are a part of a second; `timer_settime` refuses others with `EINVAL`. -/
def Timespec.Valid (t : Timespec) : Prop := 0 ≤ t.tv_nsec ∧ t.tv_nsec < 1000000000

instance (t : Timespec) : Decidable t.Valid := inferInstanceAs (Decidable (_ ∧ _))

/-- The duration, in nanoseconds, is that of `ms` milliseconds. -/
def Timespec.Denotes (t : Timespec) (ms : Int) : Prop :=
  t.tv_sec * 1000000000 + t.tv_nsec = ms * 1000000

/-- The assignments to `ts`. `interval_ms_` is promoted to `int`, and so is every result. -/
def timerSpec (interval_ms_ : UInt16) : Itimerspec :=
  let ms : Int := interval_ms_.toNat
  { it_value := ⟨ms.tdiv 1000, wrapInt (ms.tmod 1000000 * 1000000)⟩
    it_interval := ⟨ms.tdiv 1000, wrapInt (ms.tmod 1000000 * 1000000)⟩ }

/-- `run()` from the created timer to the armed one: what it is set to, or the argument of `exit`. -/
def armTimer (interval_ms_ : UInt16) : Except Int Itimerspec :=
  let ts := timerSpec interval_ms_
  if ts.it_value.Valid ∧ ts.it_interval.Valid then .ok ts else .error 1

/-- The nanoseconds wrap, but are never reduced: 16 bits stay below the modulus 1000000. -/
theorem timerSpec_eq (n : UInt16) :
    timerSpec n = ⟨⟨n.toNat / 1000, wrapInt (n.toNat * 1000000)⟩,
      ⟨n.toNat / 1000, wrapInt (n.toNat * 1000000)⟩⟩ := by
  have hlt := n.toNat_lt
  have hmod : ((n.toNat : Int)).tmod 1000000 = n.toNat := by
    rw [Int.tmod_eq_emod_of_nonneg (by omega)]
    omega
  have hdiv : ((n.toNat : Int)).tdiv 1000 = n.toNat / 1000 :=
    Int.tdiv_eq_ediv_of_nonneg (by omega)
  simp only [timerSpec, hmod, hdiv]

/-- Below 66, no number of seconds but 0 has a multiple of 2^32 nanoseconds. -/
theorem seconds_not_wrapped : ∀ s < 66, s * 1000000000 % 4294967296 = 0 → s = 0 := by decide

/-- Wrapped nanoseconds make up for the seconds counted twice only where there are none. -/
theorem lt_of_wrapped_exact {n : Nat} (hn : n < 65536) {w k : Int}
    (hw : w = n * 1000000 - 4294967296 * k)
    (h : (n : Int) / 1000 * 1000000000 + w = n * 1000000) : n < 1000 := by
  -- the seconds come on top of nanoseconds that denote the whole interval already
  have hmul : (n : Int) / 1000 * 1000000000 = 4294967296 * k := by linarith only [hw, h]
  have hmod : (n : Int) / 1000 * 1000000000 % 4294967296 = 0 := by
    rw [hmul]
    exact Int.mul_emod_right _ _
  have hlt : n / 1000 < 66 := Nat.div_lt_of_lt_mul (hn.trans (by decide))
  have hzero : n / 1000 = 0 := seconds_not_wrapped _ hlt (mod_cast hmod)
  exact (Nat.div_eq_zero_iff_lt (by decide)).mp hzero

/--
**The timer is set, and to the given interval, exactly below one second.** From 1000 ms on the
nanoseconds are too many, or have wrapped to a different time.
-/
theorem armTimer_denotes_iff (n : UInt16) :
    (∃ ts, armTimer n = .ok ts ∧ ts.it_value.Denotes n.toNat ∧ ts.it_interval.Denotes n.toNat) ↔
      n.toNat < 1000 := by
  unfold armTimer
  rw [timerSpec_eq]
  simp only [Timespec.Valid, Timespec.Denotes, and_self]
  constructor
  · rintro ⟨ts, harm, hdenotes, -⟩
    split at harm
    · obtain ⟨k, hk⟩ := wrapInt_eq_sub (n.toNat * 1000000)
      rw [← Except.ok.inj harm] at hdenotes
      exact lt_of_wrapped_exact n.toNat_lt hk hdenotes
    · cases harm
  · intro h
    have hns : wrapInt (n.toNat * 1000000) = n.toNat * 1000000 :=
      wrapInt_of_range (by omega) (by omega)
    rw [hns, if_pos (by omega)]
    refine ⟨_, rfl, ?_, ?_⟩
    all_goals simp only; omega

/-- The interval set by the constructors is refused. -/
theorem armTimer_default : armTimer 1000 = .error 1 := by decide +kernel

end DdsApps.Config
