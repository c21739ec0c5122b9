import Mathlib.Data.List.Chain

/-!
# The listeners

Fast DDS tells a writer how many readers it is matched with, and a reader how many writers, by
calling a listener with a status. The listeners of all publishers and subscribers keep the same
books; a publisher also remembers that it has been matched once.
-/

namespace DdsApps.Threads

/-! ## Statuses -/

/-- The fields of `PublicationMatchedStatus` and `SubscriptionMatchedStatus` that are read. -/
structure MatchedStatus where
  total_count : Int
  current_count : Int
  current_count_change : Int
deriving DecidableEq, Repr

/-- Before any match. -/
def MatchedStatus.initial : MatchedStatus := ⟨0, 0, 0⟩

/--
`info` can be the status after `prev`.

The matches since then are the growth of `total_count`, and the departures what they exceed the
change by; several of both may be told at once.
-/
structure MatchedStatus.Follows (prev info : MatchedStatus) : Prop where
  current : info.current_count = prev.current_count + info.current_count_change
  nonneg : 0 ≤ info.current_count
  matches_nonneg : prev.total_count ≤ info.total_count
  departures_nonneg : info.current_count_change ≤ info.total_count - prev.total_count

instance (prev info : MatchedStatus) : Decidable (prev.Follows info) :=
  decidable_of_iff
    (info.current_count = prev.current_count + info.current_count_change ∧
      0 ≤ info.current_count ∧ prev.total_count ≤ info.total_count ∧
      info.current_count_change ≤ info.total_count - prev.total_count)
    ⟨fun h => ⟨h.1, h.2.1, h.2.2.1, h.2.2.2⟩, fun h => ⟨h.1, h.2, h.3, h.4⟩⟩

/-- The statuses a listener is called with, in order. -/
def History (infos : List MatchedStatus) : Prop :=
  (MatchedStatus.initial :: infos).IsChain MatchedStatus.Follows

/-! ## Callbacks -/

/-- What both branches of the callbacks do with `matched_`. -/
def matchedAfter (matched_ : Int) (info : MatchedStatus) : Int :=
  if info.current_count_change = 1 then info.total_count
  else if info.current_count_change = -1 then info.total_count
  else matched_

/-- `PubListener`; some publishers spell the flag `firstConnected_`. -/
structure PubListener where
  matched_ : Int
  first_connected_ : Bool
deriving DecidableEq, Repr

def PubListener.initial : PubListener := ⟨0, false⟩

def PubListener.on_publication_matched (l : PubListener) (info : MatchedStatus) : PubListener :=
  { matched_ := matchedAfter l.matched_ info
    first_connected_ := if info.current_count_change = 1 then true else l.first_connected_ }

/-- `SubListener`; `samples_` is changed by `on_data_available` only. -/
structure SubListener where
  matched_ : Int
  samples_ : UInt32
deriving DecidableEq, Repr

def SubListener.initial : SubListener := ⟨0, 0⟩

def SubListener.on_subscription_matched (l : SubListener) (info : MatchedStatus) : SubListener :=
  { l with matched_ := matchedAfter l.matched_ info }

/-- The condition under which `publish(waitForListener)` writes. -/
def PubListener.gate (l : PubListener) (waitForListener : Bool) : Bool :=
  l.first_connected_ || !waitForListener || decide (l.matched_ > 0)

end DdsApps.Threads
