import DdsApps.Threads.RunCyclic

/-!
# Cycles of the cyclic publishers

The signal of `timer_func` is sent without `m`, and the wait has no predicate: a signal that comes
while nobody waits is lost, and a wake-up nobody sent is published.

* `Accounted` — every expiration is written, still on its way, or lost; kept by every step
* `written_eq_expirations_iff` — in any run, what is missing is what was lost or invented
* `cycles_exact_on_time` — in runs whose signals all find the thread waiting, nothing is missing
* `first_cycle_lost` — a run in which the first tick comes too early
-/

namespace DdsApps.Threads.RunCyclic

open DdsApps.Infra

variable {μ : Type} {app : App μ} {s t : State μ}

/-! ## The account -/

/-- A wake-up that has not been published yet. -/
def Pc.pending : Pc → Nat
  | .woken | .publish => 1
  | _ => 0

/-- Messages written or about to be, and signals not sent or lost, are the expirations and the
wake-ups nobody sent. -/
def Accounted (s : State μ) : Prop :=
  s.written.length + s.pc.pending + s.timerFuncs + s.lost = s.expirations + s.spurious

/-- A step of the thread writes what was pending, or nothing. -/
theorem Accounted.thread (h : Accounted s) (ht : ThreadStep app s t) : Accounted t := by
  unfold Accounted at *
  cases ht with
  | lock hpc | stop hpc | round hpc | wait hpc | woken hpc | unlock hpc =>
    simpa only [hpc, Pc.pending] using h
  | publish hpc =>
    -- the wake-up that was pending is written
    simp only [hpc, Pc.pending] at h
    simp only [Pc.pending, List.length_append, List.length_singleton]
    omega

theorem Accounted.step (h : Accounted s) {e : Event} (ht : step app s e = some t) :
    Accounted t := by
  cases step_cases ht with
  | thread ht => exact h.thread ht
  | expire =>
    unfold Accounted at *
    dsimp only
    omega
  | wake htimer hpc =>
    simp only [Accounted, Pc.pending, hpc] at *
    omega
  | lose htimer =>
    unfold Accounted at *
    dsimp only
    omega
  | spurious hpc =>
    simp only [Accounted, Pc.pending, hpc] at *
    omega
  | start hpc => simpa only [Accounted, Pc.pending, hpc] using h
  | abort | notify => exact h

theorem Accounted.init (app : App μ) : Accounted (init app) := rfl

theorem accounted_of_reachable (hs : (machine app).Reachable s) : Accounted s :=
  Machine.invariant (Accounted.init app) (fun _ _ _ _ h ht => h.step ht) hs

/-! ## Idle states -/

/-- The thread is blocked with nothing to wake it up, and has not been told to stop. -/
structure Idle (s : State μ) : Prop where
  waiting : s.pc = .waiting
  signalled : s.timerFuncs = 0
  running : s.stop_flag = false

/-- **In every run: the messages are the expirations, less the lost signals and with the spurious
wake-ups.** -/
theorem written_eq_expirations_iff (hs : (machine app).Reachable s) (hidle : Idle s) :
    s.written.length = s.expirations ↔ s.lost = s.spurious := by
  have haccount := accounted_of_reachable hs
  simp only [Accounted, Pc.pending, hidle.waiting, hidle.signalled] at haccount
  omega

/-- A signal finds the thread waiting, and the wait does not wake up by itself. -/
def OnTime (s : State μ) : Event → Prop
  | .signal => s.pc = .waiting
  | .spurious => False
  | _ => True

instance (s : State μ) : (e : Event) → Decidable (OnTime s e)
  | .signal => inferInstanceAs (Decidable (_ = _))
  | .spurious => isFalse id
  | .expire | .abort | .notify _ | .start | .thread => isTrue trivial

theorem threadStep_ghosts (ht : ThreadStep app s t) :
    t.lost = s.lost ∧ t.spurious = s.spurious := by
  cases ht
  all_goals exact ⟨rfl, rfl⟩

/-- Nothing is lost or invented by such a step. -/
theorem step_ghosts {e : Event} (he : OnTime s e) (ht : step app s e = some t) :
    t.lost = s.lost ∧ t.spurious = s.spurious := by
  cases step_cases ht with
  | thread ht => exact threadStep_ghosts ht
  | spurious => exact he.elim
  | lose htimer hpc => exact absurd he hpc
  | wake | start | expire | abort | notify => exact ⟨rfl, rfl⟩

/--
**No cycle is lost or invented in the runs whose signals come while the thread waits.**

The wait must not wake up by itself either.
-/
theorem cycles_exact_on_time (hs : (machine app).ReachableWhere OnTime s) (hidle : Idle s) :
    s.written.length = s.expirations := by
  refine (written_eq_expirations_iff hs.reachable hidle).mpr ?_
  have hghosts : s.lost = 0 ∧ s.spurious = 0 := by
    refine Machine.invariant (I := fun s : State μ => s.lost = 0 ∧ s.spurious = 0) ⟨rfl, rfl⟩ ?_ hs
    rintro s e t he ⟨hlost, hspurious⟩ ht
    obtain ⟨h1, h2⟩ := step_ghosts he ht
    exact ⟨h1.trans hlost, h2.trans hspurious⟩
  rw [hghosts.1, hghosts.2]

/-- One cycle: the thread is waiting when the timer expires. -/
def oneCycle : List Event :=
  [.start, .thread, .thread, .thread, .expire, .signal, .thread, .thread, .thread, .thread]

/-- Where that ends. -/
def afterOneCycle : State RunCyclic.CustomMessage :=
  { pc := .waiting, m := false, stop_flag := false, listener := .initial
    message := ⟨1, "BigData1"⟩, written := [⟨1, "BigData1"⟩], timerFuncs := 0, expirations := 1
    lost := 0, spurious := 0 }

theorem oneCycle_written : afterOneCycle.written.length = 1 := by
  have hexec : ((machine ROSTypeDataPublisher.app).restrict OnTime).exec oneCycle
      = some afterOneCycle := by
    decide +kernel
  exact cycles_exact_on_time (Machine.reachableWhere_of_exec hexec) ⟨rfl, rfl, rfl⟩

/-- The timer expires before the thread waits for the first time. -/
def earlyTick : List Event := [.expire, .signal, .start, .thread, .thread, .thread]

/-- **The first cycle can be lost, in both publishers.** -/
theorem first_cycle_lost :
    (¬∀ s, (machine CyclicROSDataPublisher.app).Reachable s → Idle s →
      s.written.length = s.expirations) ∧
    ¬∀ s, (machine ROSTypeDataPublisher.app).Reachable s → Idle s →
      s.written.length = s.expirations := by
  have hexec : ∀ {μ : Type} (app : App μ), (machine app).exec earlyTick = some { init app with
      pc := .waiting, expirations := 1, lost := 1 } := by
    intro μ app
    rfl
  constructor
  · intro hall
    exact absurd (hall _ (Machine.reachable_of_exec (hexec _)) ⟨rfl, rfl, rfl⟩) (by decide)
  · intro hall
    exact absurd (hall _ (Machine.reachable_of_exec (hexec _)) ⟨rfl, rfl, rfl⟩) (by decide)

end DdsApps.Threads.RunCyclic
