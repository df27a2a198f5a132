import Meeting.Lib.Lists

/-!
# Meeting.Sfu.Estimators — bitrate estimation (`remb.go`)

A `BitrateEstimator` of a track has the last bitrate that every receiver of the track has reported and caches
their minimum.  `TrackBitrateEstimators` makes one for every SSRC that a receiver names.

* `mem_estimate`, `hasEstimate_estimate`: what `Estimate` creates;
* `hasEstimate_removeReceiverEstimations`, `hasEstimate_remove`: what the two removals delete.
-/

namespace Meeting.Sfu

open Lib

/-! ### Estimators -/

structure BitrateEstimator where
  bitrate : UInt64
  estimates : AList fun _ : String => UInt64

/-- `NewBitrateEstimator`, with `math.MaxUint64`. -/
def BitrateEstimator.new : BitrateEstimator := ⟨0xFFFFFFFFFFFFFFFF, ∅⟩

def BitrateEstimator.estimate (r : BitrateEstimator) (receiverClientID : String) (bitrate : UInt64) :
    BitrateEstimator × UInt64 :=
  let estimates := r.estimates.insert receiverClientID bitrate
  if bitrate ≤ r.bitrate then (⟨bitrate, estimates⟩, bitrate)
  else
    let minBitrate := estimates.entries.foldl
      (fun least x => if x.1 ≠ receiverClientID ∧ x.2 < least then x.2 else least) bitrate
    (⟨minBitrate, estimates⟩, minBitrate)

/-- `RemoveEstimation` leaves the cached minimum. -/
def BitrateEstimator.removeEstimation (r : BitrateEstimator) (receiverClientID : String) :
    BitrateEstimator :=
  { r with estimates := r.estimates.erase receiverClientID }

/-- The `estimators` map of `TrackBitrateEstimators`. -/
abbrev TrackBitrateEstimators := AList fun _ : UInt32 => BitrateEstimator

namespace TrackBitrateEstimators

/-- One round of the loop of `Estimate`. -/
def estimateTrack (receiverClientID : String) (bitrate : UInt64) (acc : TrackBitrateEstimators × UInt64)
    (ssrc : UInt32) : TrackBitrateEstimators × UInt64 :=
  let estimator := (acc.1.lookup ssrc).getD BitrateEstimator.new
  let estimated := estimator.estimate receiverClientID bitrate
  (acc.1.insert ssrc estimated.1, min acc.2 estimated.2)

def estimate (r : TrackBitrateEstimators) (receiverClientID : String) (ssrcs : List UInt32)
    (bitrate : UInt64) : TrackBitrateEstimators × UInt64 :=
  ssrcs.foldl (estimateTrack receiverClientID bitrate) (r, 0xFFFFFFFFFFFFFFFF)

def removeReceiverEstimations (r : TrackBitrateEstimators) (receiverClientID : String) :
    TrackBitrateEstimators :=
  mapValues (fun estimator => estimator.removeEstimation receiverClientID) r

def remove (r : TrackBitrateEstimators) (ssrc : UInt32) : TrackBitrateEstimators := r.erase ssrc

end TrackBitrateEstimators

/-! ### What they hold -/

/-- An estimate of a receiver is held for a track. -/
def HasEstimate (r : TrackBitrateEstimators) (ssrc : UInt32) (clientID : String) : Prop :=
  ∃ estimator, r.lookup ssrc = some estimator ∧ clientID ∈ estimator.estimates

namespace TrackBitrateEstimators

variable {r : TrackBitrateEstimators} {clientID : String} {ssrc : UInt32}

theorem estimates_estimate (e : BitrateEstimator) (receiver : String) (bitrate : UInt64) :
    (e.estimate receiver bitrate).1.estimates = e.estimates.insert receiver bitrate := by
  unfold BitrateEstimator.estimate
  simp only
  split_ifs <;> rfl

theorem mem_foldl_estimateTrack {receiver : String} {bitrate : UInt64} (ssrcs : List UInt32) :
    ∀ acc : TrackBitrateEstimators × UInt64,
      ssrc ∈ (ssrcs.foldl (estimateTrack receiver bitrate) acc).1 ↔ ssrc ∈ acc.1 ∨ ssrc ∈ ssrcs := by
  induction ssrcs with
  | nil => simp
  | cons k ssrcs ih =>
    intro acc
    rw [List.foldl_cons, ih]
    simp only [estimateTrack, AList.mem_insert, List.mem_cons]
    tauto

/-- `Estimate` has an estimator for every SSRC that it is given. -/
theorem mem_estimate {receiver : String} {ssrcs : List UInt32} {bitrate : UInt64} :
    ssrc ∈ (r.estimate receiver ssrcs bitrate).1 ↔ ssrc ∈ r ∨ ssrc ∈ ssrcs :=
  mem_foldl_estimateTrack ssrcs _

theorem hasEstimate_estimateTrack {receiver : String} {bitrate : UInt64} {k : UInt32}
    {acc : TrackBitrateEstimators × UInt64}
    (h : HasEstimate (estimateTrack receiver bitrate acc k).1 ssrc clientID) :
    clientID = receiver ∨ HasEstimate acc.1 ssrc clientID := by
  obtain ⟨e, he, hc⟩ := h
  rcases lookup_insert_cases he with ⟨rfl, rfl⟩ | ⟨-, he⟩
  · rw [estimates_estimate, AList.mem_insert] at hc
    refine hc.imp_right fun hc => ?_
    cases hl : acc.1.lookup ssrc with
    | none =>
      rw [hl] at hc
      cases hc
    | some e =>
      rw [hl] at hc
      exact ⟨e, hl, hc⟩
  · exact Or.inr ⟨e, he, hc⟩

/-- `Estimate` only makes estimates of its receiver. -/
theorem hasEstimate_estimate {receiver : String} {ssrcs : List UInt32} {bitrate : UInt64}
    (h : HasEstimate (r.estimate receiver ssrcs bitrate).1 ssrc clientID) :
    clientID = receiver ∨ HasEstimate r ssrc clientID := by
  have hfold : ∀ (l : List UInt32) (acc : TrackBitrateEstimators × UInt64),
      HasEstimate (l.foldl (estimateTrack receiver bitrate) acc).1 ssrc clientID →
        clientID = receiver ∨ HasEstimate acc.1 ssrc clientID := by
    intro l
    induction l with
    | nil => exact fun _ h => Or.inr h
    | cons k l ih =>
      intro acc h
      rcases ih _ h with rfl | h
      · exact Or.inl rfl
      · exact hasEstimate_estimateTrack h
  exact hfold ssrcs _ h

theorem mem_removeReceiverEstimations {receiver : String} :
    ssrc ∈ r.removeReceiverEstimations receiver ↔ ssrc ∈ r := by
  rw [← AList.lookup_isSome, ← AList.lookup_isSome, removeReceiverEstimations, lookup_mapValues,
    Option.isSome_map]

theorem hasEstimate_removeReceiverEstimations {receiver : String} :
    HasEstimate (r.removeReceiverEstimations receiver) ssrc clientID ↔
      clientID ≠ receiver ∧ HasEstimate r ssrc clientID := by
  unfold HasEstimate removeReceiverEstimations
  simp only [lookup_mapValues, Option.map_eq_some_iff]
  constructor
  · rintro ⟨-, ⟨e, he, rfl⟩, hc⟩
    obtain ⟨hne, hc⟩ := AList.mem_erase.mp hc
    exact ⟨hne, e, he, hc⟩
  · rintro ⟨hne, e, he, hc⟩
    exact ⟨_, ⟨e, he, rfl⟩, AList.mem_erase.mpr ⟨hne, hc⟩⟩

theorem hasEstimate_remove {k : UInt32} (h : HasEstimate (r.remove k) ssrc clientID) :
    HasEstimate r ssrc clientID := by
  obtain ⟨e, he, hc⟩ := h
  exact ⟨e, (lookup_of_lookup_erase he).2, hc⟩

end TrackBitrateEstimators

end Meeting.Sfu
