import DdsApps.Threads.Listener

/-!
# What `matched_` counts

Both branches of the callbacks assign the cumulative `total_count`. It is the number of peers that
are matched now only as long as none has left.

* `matchedAfter_eq_current_iff` — one callback
* `matched_is_current_iff` — all callbacks of a history, for publishers and subscribers
* `matched_counts_departed` — one match and one departure
-/

namespace DdsApps.Threads

/-! ## One callback -/

/-- Once a peer has left, the total is ahead of the current count for good. -/
theorem MatchedStatus.Follows.current_le_total {prev info : MatchedStatus}
    (h : prev.Follows info) (hprev : prev.current_count ≤ prev.total_count) :
    info.current_count ≤ info.total_count := by
  have hcurrent := h.current
  have hdepartures := h.departures_nonneg
  omega

/-- The notifications that keep a right count right. -/
def NoneLeft (info : MatchedStatus) : Prop :=
  info.current_count_change = 0 ∨
    (info.current_count_change = 1 ∧ info.total_count = info.current_count)

theorem matchedAfter_eq_current_iff {prev info : MatchedStatus} (h : prev.Follows info)
    (hprev : prev.current_count ≤ prev.total_count) :
    matchedAfter prev.current_count info = info.current_count ↔ NoneLeft info := by
  have hcurrent := h.current
  have hmatches := h.matches_nonneg
  unfold matchedAfter NoneLeft
  split
  · omega
  · split
    · -- a departure was counted in before, and still is
      omega
    · omega

/-! ## Whole histories -/

/-- After each callback the count is the current one. -/
def CountsCurrent {σ : Type} (matched_ : σ → Int) (callback : σ → MatchedStatus → σ) :
    σ → List MatchedStatus → Prop
  | _, [] => True
  | l, info :: rest =>
    matched_ (callback l info) = info.current_count ∧
      CountsCurrent matched_ callback (callback l info) rest

/-- Any listener that keeps `matched_` in this way, from any point of a history on. -/
theorem countsCurrent_iff {σ : Type} {matched_ : σ → Int} {callback : σ → MatchedStatus → σ}
    (hcallback : ∀ l info, matched_ (callback l info) = matchedAfter (matched_ l) info) :
    ∀ (infos : List MatchedStatus) (prev : MatchedStatus) (l : σ),
      (prev :: infos).IsChain MatchedStatus.Follows → prev.current_count ≤ prev.total_count →
      matched_ l = prev.current_count →
      (CountsCurrent matched_ callback l infos ↔ ∀ info ∈ infos, NoneLeft info)
  | [], _, _, _, _, _ => by simp [CountsCurrent]
  | info :: rest, prev, l, hchain, hprev, hl => by
    obtain ⟨hfollows, hrest⟩ := List.isChain_cons_cons.mp hchain
    have hone : matched_ (callback l info) = info.current_count ↔ NoneLeft info := by
      rw [hcallback, hl]
      exact matchedAfter_eq_current_iff hfollows hprev
    rw [List.forall_mem_cons, ← hone]
    refine and_congr_right fun hinfo => ?_
    exact countsCurrent_iff hcallback rest info _ hrest (hfollows.current_le_total hprev) hinfo

/--
**`matched_` is the number of matched peers exactly in the histories in which none has left.**

That is, each notification changes nothing, or adds one peer to those that have all stayed. This
is so for the publishers and for the subscribers.
-/
theorem matched_is_current_iff {infos : List MatchedStatus} (h : History infos) :
    (CountsCurrent PubListener.matched_ PubListener.on_publication_matched .initial infos ↔
      ∀ info ∈ infos, NoneLeft info) ∧
    (CountsCurrent SubListener.matched_ SubListener.on_subscription_matched .initial infos ↔
      ∀ info ∈ infos, NoneLeft info) :=
  ⟨countsCurrent_iff (fun _ _ => rfl) infos .initial _ h (Int.le_refl 0) rfl,
    countsCurrent_iff (fun _ _ => rfl) infos .initial _ h (Int.le_refl 0) rfl⟩

/-- Two peers come, one after the other. -/
def twoMatches : List MatchedStatus := [⟨1, 1, 1⟩, ⟨2, 2, 1⟩]

theorem twoMatches_counted :
    CountsCurrent PubListener.matched_ PubListener.on_publication_matched .initial twoMatches ∧
      CountsCurrent SubListener.matched_ SubListener.on_subscription_matched .initial
        twoMatches := by
  have hhistory : History twoMatches := by unfold History twoMatches; decide
  have hnone : ∀ info ∈ twoMatches, NoneLeft info := by unfold NoneLeft twoMatches; decide
  exact ⟨(matched_is_current_iff hhistory).1.mpr hnone,
    (matched_is_current_iff hhistory).2.mpr hnone⟩

/-- **A peer that has come and gone is still counted, on both sides.** -/
theorem matched_counts_departed :
    (¬∀ infos, History infos →
      CountsCurrent PubListener.matched_ PubListener.on_publication_matched .initial infos) ∧
    ¬∀ infos, History infos →
      CountsCurrent SubListener.matched_ SubListener.on_subscription_matched .initial infos := by
  have hhistory : History [⟨1, 1, 1⟩, ⟨1, 0, -1⟩] := by unfold History; decide
  constructor
  · intro hall
    exact absurd (hall _ hhistory).2.1 (by decide)
  · intro hall
    exact absurd (hall _ hhistory).2.1 (by decide)

end DdsApps.Threads
