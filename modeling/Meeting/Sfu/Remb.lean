import Meeting.Sfu.Estimators

/-!
# Meeting.Sfu.Remb — the estimated bitrate is the least of the live reports

The plain meaning of the three calls of `TrackBitrateEstimators` is the table `reported`: the last bitrate that
a receiver has reported for an SSRC, unless the receiver or the SSRC was removed since.  `Estimate` is to return
the least entry of the table over the SSRCs that it is given.

`BitrateEstimator` does not compute this minimum on every call.  It caches one (`bitrate`), answers from the cache
when the new report is not above it, and leaves the cache alone when an estimate is removed.  So the cache is
in general not the minimum; it is a lower bound (`Bounded`), and this is enough for the answer to be right.

The two loops over a map are run in an arbitrary order: an `Order` for every execution of the loop.

* `BitrateEstimator.estimateIn_eq`, `lookup_removeReceiverEstimationsIn`: the order does not matter;
* `BitrateEstimator.estimate_isMinimum`: one estimator, under `Bounded`;
* `Refines`, `Refines.call`: the estimators against the table, over every call;
* `estimate_isMinimum_reported`: the answers of a whole run.
-/

namespace Meeting.Sfu

open Lib

/-! ### The loops in the order of the map -/

/-- The order in which a `range` over a map visits the entries. -/
structure Order where
  arrange : ∀ {α : Type}, List α → List α
  perm : ∀ {α : Type} (l : List α), (arrange l).Perm l

/-- The loop of `BitrateEstimator.Estimate`: the estimate of the receiver itself is skipped. -/
def leastOther (receiverClientID : String) (minBitrate : UInt64) (x : Σ _ : String, UInt64) : UInt64 :=
  if x.1 ≠ receiverClientID ∧ x.2 < minBitrate then x.2 else minBitrate

/-- `BitrateEstimator.Estimate`, with the order of its loop. -/
def BitrateEstimator.estimateIn (order : Order) (r : BitrateEstimator) (receiverClientID : String)
    (bitrate : UInt64) : BitrateEstimator × UInt64 :=
  let estimates := r.estimates.insert receiverClientID bitrate
  if bitrate ≤ r.bitrate then (⟨bitrate, estimates⟩, bitrate)
  else
    let minBitrate := (order.arrange estimates.entries).foldl (leastOther receiverClientID) bitrate
    (⟨minBitrate, estimates⟩, minBitrate)

namespace TrackBitrateEstimators

/-- `Estimate`, with an order for every one of its rounds. -/
def estimateIn (receiverClientID : String) (bitrate : UInt64) :
    (ℕ → Order) → List UInt32 → TrackBitrateEstimators × UInt64 → TrackBitrateEstimators × UInt64
  | _, [], acc => acc
  | orders, ssrc :: ssrcs, acc =>
    let estimator := (acc.1.lookup ssrc).getD BitrateEstimator.new
    let estimated := estimator.estimateIn (orders 0) receiverClientID bitrate
    estimateIn receiverClientID bitrate (fun i => orders (i + 1)) ssrcs
      (acc.1.insert ssrc estimated.1, min acc.2 estimated.2)

/-- `RemoveReceiverEstimations`, with the order of its loop: an estimator is changed where it is stored. -/
def removeReceiverEstimationsIn (order : Order) (r : TrackBitrateEstimators) (receiverClientID : String) :
    TrackBitrateEstimators :=
  (order.arrange r.entries).foldl
    (fun r x => r.insert x.1 (x.2.removeEstimation receiverClientID)) r

end TrackBitrateEstimators

/-! ### The order does not matter -/

/-- Two rounds of the loop commute. -/
theorem leastOther_comm (receiver : String) (least : UInt64) (x y : Σ _ : String, UInt64) :
    leastOther receiver (leastOther receiver least x) y =
      leastOther receiver (leastOther receiver least y) x := by
  unfold leastOther
  by_cases hx : x.1 = receiver
  · simp [hx]
  by_cases hy : y.1 = receiver
  · simp [hy]
  simp only [ne_eq, hx, hy, not_false_eq_true, true_and]
  apply UInt64.toNat_inj.mp
  simp only [UInt64.lt_iff_toNat_lt]
  split_ifs <;> omega

theorem BitrateEstimator.estimateIn_eq (order : Order) (r : BitrateEstimator) (receiver : String)
    (bitrate : UInt64) : r.estimateIn order receiver bitrate = r.estimate receiver bitrate := by
  have hfold := (order.perm (r.estimates.insert receiver bitrate).entries).foldl_eq'
    (fun x _ y _ least => leastOther_comm receiver least x y) bitrate
  unfold estimateIn estimate
  simp only [hfold]
  rfl

namespace TrackBitrateEstimators

theorem estimateIn_eq (receiver : String) (bitrate : UInt64) :
    ∀ (ssrcs : List UInt32) (orders : ℕ → Order) (acc : TrackBitrateEstimators × UInt64),
      estimateIn receiver bitrate orders ssrcs acc = ssrcs.foldl (estimateTrack receiver bitrate) acc
  | [], _, _ => rfl
  | ssrc :: ssrcs, orders, acc => by
    rw [List.foldl_cons, estimateIn, BitrateEstimator.estimateIn_eq]
    exact estimateIn_eq receiver bitrate ssrcs _ _

/-- The loop of `RemoveReceiverEstimations` over entries of the map that have different keys. -/
theorem lookup_foldl_removeEstimation (receiver : String) (k : UInt32) :
    ∀ (l : List (Σ _ : UInt32, BitrateEstimator)) (r : TrackBitrateEstimators),
      (l.map Sigma.fst).Nodup → (∀ x ∈ l, r.lookup x.1 = some x.2) →
      (l.foldl (fun r x => r.insert x.1 (x.2.removeEstimation receiver)) r).lookup k =
        if k ∈ l.map Sigma.fst then (r.lookup k).map (·.removeEstimation receiver) else r.lookup k
  | [], _, _, _ => rfl
  | x :: l, r, hnd, hl => by
    rw [List.map_cons, List.nodup_cons] at hnd
    have hx : r.lookup x.1 = some x.2 := hl x List.mem_cons_self
    have hrest : ∀ y ∈ l, (r.insert x.1 (x.2.removeEstimation receiver)).lookup y.1 = some y.2 := by
      intro y hy
      have hne : y.1 ≠ x.1 := fun h => hnd.1 (h ▸ List.mem_map_of_mem hy)
      rw [AList.lookup_insert_ne hne]
      exact hl y (List.mem_cons_of_mem _ hy)
    rw [List.foldl_cons, lookup_foldl_removeEstimation receiver k l _ hnd.2 hrest]
    by_cases hk : k = x.1
    · subst hk
      rw [if_neg hnd.1, AList.lookup_insert, if_pos (by simp), hx, Option.map_some]
    · have hmem : k ∈ (x :: l).map Sigma.fst ↔ k ∈ l.map Sigma.fst := by
        rw [List.map_cons, List.mem_cons, or_iff_right hk]
      simp only [AList.lookup_insert_ne hk, hmem]

theorem lookup_removeReceiverEstimationsIn (order : Order) (r : TrackBitrateEstimators)
    (receiver : String) (k : UInt32) :
    (removeReceiverEstimationsIn order r receiver).lookup k =
      (r.removeReceiverEstimations receiver).lookup k := by
  have hperm := order.perm r.entries
  have hnd : ((order.arrange r.entries).map Sigma.fst).Nodup :=
    ((hperm.map Sigma.fst).nodup_iff).mpr r.nodupKeys
  have hl : ∀ x ∈ order.arrange r.entries, r.lookup x.1 = some x.2 := fun x hx =>
    AList.mem_lookup_iff.mpr (hperm.subset hx)
  have hkeys : k ∈ (order.arrange r.entries).map Sigma.fst ↔ k ∈ r :=
    (hperm.map Sigma.fst).mem_iff
  rw [removeReceiverEstimationsIn, lookup_foldl_removeEstimation receiver k _ r hnd hl,
    removeReceiverEstimations, lookup_mapValues]
  split_ifs with h
  · rfl
  · have hnone : r.lookup k = none := AList.lookup_eq_none.mpr fun hk => h (hkeys.mpr hk)
    rw [hnone, Option.map_none]

end TrackBitrateEstimators

/-! ### One estimator -/

/-- `v` is the least of the bitrates that `P` holds of. -/
def IsMinimum (P : UInt64 → Prop) (v : UInt64) : Prop := P v ∧ ∀ b, P b → v ≤ b

/-- The cached minimum is below every estimate that is held. -/
def BitrateEstimator.Bounded (r : BitrateEstimator) : Prop :=
  ∀ clientID b, r.estimates.lookup clientID = some b → r.bitrate ≤ b

/-- A bitrate that some receiver has in the table. -/
def Live (estimates : AList fun _ : String => UInt64) (b : UInt64) : Prop :=
  ∃ clientID, estimates.lookup clientID = some b

/-- What the loop of `BitrateEstimator.Estimate` returns: the start, or an estimate of another receiver, and
not above any of these. -/
theorem foldl_leastOther (receiver : String) :
    ∀ (l : List (Σ _ : String, UInt64)) (least : UInt64),
      (l.foldl (leastOther receiver) least = least ∨
        ∃ x ∈ l, x.1 ≠ receiver ∧ l.foldl (leastOther receiver) least = x.2) ∧
      l.foldl (leastOther receiver) least ≤ least ∧
      ∀ x ∈ l, x.1 ≠ receiver → l.foldl (leastOther receiver) least ≤ x.2
  | [], least => ⟨Or.inl rfl, UInt64.le_refl _, fun _ h => absurd h List.not_mem_nil⟩
  | x :: l, least => by
    obtain ⟨hval, hle, hall⟩ := foldl_leastOther receiver l (leastOther receiver least x)
    rw [List.foldl_cons]
    have hround : leastOther receiver least x ≤ least ∧
        (x.1 ≠ receiver → leastOther receiver least x ≤ x.2) ∧
        (leastOther receiver least x = least ∨
          x.1 ≠ receiver ∧ leastOther receiver least x = x.2) := by
      unfold leastOther
      split_ifs with h
      · exact ⟨UInt64.le_of_lt h.2, fun _ => UInt64.le_refl _, Or.inr ⟨h.1, rfl⟩⟩
      · exact ⟨UInt64.le_refl _, fun hx => UInt64.not_lt.mp fun hlt => h ⟨hx, hlt⟩, Or.inl rfl⟩
    obtain ⟨hr1, hr2, hr3⟩ := hround
    refine ⟨?_, UInt64.le_trans hle hr1, ?_⟩
    · rcases hval with hval | ⟨y, hy, hne, hval⟩
      · rcases hr3 with hr3 | ⟨hne, hr3⟩
        · exact Or.inl (hval.trans hr3)
        · exact Or.inr ⟨x, List.mem_cons_self, hne, hval.trans hr3⟩
      · exact Or.inr ⟨y, List.mem_cons_of_mem _ hy, hne, hval⟩
    · intro y hy hne
      rcases List.mem_cons.mp hy with rfl | hy
      · exact UInt64.le_trans hle (hr2 hne)
      · exact hall y hy hne

namespace BitrateEstimator

variable {r : BitrateEstimator}

theorem bounded_new : new.Bounded := by
  intro clientID b h
  cases h

theorem Bounded.removeEstimation (h : r.Bounded) (receiver : String) :
    (r.removeEstimation receiver).Bounded :=
  fun clientID b hb => h clientID b (lookup_of_lookup_erase hb).2

/-- `Estimate` returns what it caches. -/
theorem estimate_snd (r : BitrateEstimator) (receiver : String) (bitrate : UInt64) :
    (r.estimate receiver bitrate).2 = (r.estimate receiver bitrate).1.bitrate := by
  unfold estimate
  simp only
  split_ifs <;> rfl

/-- **The answer of one estimator** is the least of the estimates that it then holds. -/
theorem estimate_isMinimum (h : r.Bounded) (receiver : String) (bitrate : UInt64) :
    IsMinimum (Live (r.estimates.insert receiver bitrate)) (r.estimate receiver bitrate).2 := by
  have hself : (r.estimates.insert receiver bitrate).lookup receiver = some bitrate :=
    AList.lookup_insert _
  unfold estimate
  simp only
  split_ifs with hle
  · -- The fast path: what was below the cache is below everything that is held.
    refine ⟨⟨receiver, hself⟩, ?_⟩
    rintro b ⟨clientID, hb⟩
    rcases lookup_insert_cases hb with ⟨-, rfl⟩ | ⟨-, hb⟩
    · exact UInt64.le_refl _
    · exact UInt64.le_trans hle (h clientID b hb)
  · obtain ⟨hval, hstart, hall⟩ :=
      foldl_leastOther receiver (r.estimates.insert receiver bitrate).entries bitrate
    refine ⟨?_, ?_⟩
    · rcases hval with hval | ⟨x, hx, -, hval⟩
      · exact ⟨receiver, hself.trans (congrArg some hval.symm)⟩
      · have hx : (r.estimates.insert receiver bitrate).lookup x.1 = some x.2 :=
          AList.mem_lookup_iff.mpr hx
        exact ⟨x.1, hx.trans (congrArg some hval.symm)⟩
    · rintro b ⟨clientID, hb⟩
      by_cases hc : clientID = receiver
      · subst hc
        rw [hself, Option.some.injEq] at hb
        exact hb ▸ hstart
      · exact hall ⟨clientID, b⟩ (AList.mem_lookup_iff.mp hb) hc

theorem Bounded.estimate (h : r.Bounded) (receiver : String) (bitrate : UInt64) :
    (r.estimate receiver bitrate).1.Bounded := by
  intro clientID b hb
  rw [TrackBitrateEstimators.estimates_estimate] at hb
  rw [← estimate_snd]
  exact (estimate_isMinimum h receiver bitrate).2 b ⟨clientID, hb⟩

end BitrateEstimator

/-! ### The table of reports -/

/-- A call of `TrackBitrateEstimators`, with the orders of the loops over maps that it runs. -/
inductive RembCall where
  | estimate (orders : ℕ → Order) (receiverClientID : String) (ssrcs : List UInt32) (bitrate : UInt64)
  | removeReceiverEstimations (order : Order) (receiverClientID : String)
  | remove (ssrc : UInt32)

/-- The estimators after a call. -/
def RembCall.run (r : TrackBitrateEstimators) : RembCall → TrackBitrateEstimators
  | .estimate orders receiver ssrcs bitrate =>
    (TrackBitrateEstimators.estimateIn receiver bitrate orders ssrcs (r, 0xFFFFFFFFFFFFFFFF)).1
  | .removeReceiverEstimations order receiver => r.removeReceiverEstimationsIn order receiver
  | .remove ssrc => r.remove ssrc

/-- The latest report of every receiver for every SSRC. -/
abbrev Reports := UInt32 → String → Option UInt64

/-- What a call means: a report for each of the SSRCs, or no reports any more. -/
def RembCall.report (reports : Reports) : RembCall → Reports
  | .estimate _ receiver ssrcs bitrate => fun ssrc clientID =>
    if ssrc ∈ ssrcs ∧ clientID = receiver then some bitrate else reports ssrc clientID
  | .removeReceiverEstimations _ receiver => fun ssrc clientID =>
    if clientID = receiver then none else reports ssrc clientID
  | .remove ssrc' => fun ssrc clientID => if ssrc = ssrc' then none else reports ssrc clientID

/-- The bitrates that were reported and not removed since, after a history of calls. -/
def reported (calls : List RembCall) : Reports := calls.foldl RembCall.report fun _ _ => none

/-- The estimates of an SSRC. -/
def estimatesOf (r : TrackBitrateEstimators) (ssrc : UInt32) : AList fun _ : String => UInt64 :=
  ((r.lookup ssrc).getD BitrateEstimator.new).estimates

/-- The estimators hold the table, and every cached minimum is a lower bound. -/
structure Refines (r : TrackBitrateEstimators) (reports : Reports) : Prop where
  estimates : ∀ ssrc clientID, (estimatesOf r ssrc).lookup clientID = reports ssrc clientID
  bounded : ∀ ssrc estimator, r.lookup ssrc = some estimator → estimator.Bounded

namespace Refines

variable {r : TrackBitrateEstimators} {reports : Reports}

theorem empty : Refines ∅ fun _ _ => none :=
  ⟨fun _ _ => rfl, fun _ _ h => by cases h⟩

/-- The estimator that a round of `Estimate` uses, stored or new. -/
theorem bounded_getD (h : Refines r reports) (ssrc : UInt32) :
    ((r.lookup ssrc).getD BitrateEstimator.new).Bounded := by
  cases hl : r.lookup ssrc with
  | none => exact BitrateEstimator.bounded_new
  | some estimator => exact h.bounded ssrc estimator hl

/-- One report is written. -/
def record (reports : Reports) (receiver : String) (bitrate : UInt64) (ssrc' : UInt32) : Reports :=
  fun ssrc clientID => if ssrc = ssrc' ∧ clientID = receiver then some bitrate else reports ssrc clientID

/-- One round of `Estimate` writes one report. -/
theorem estimateTrack (h : Refines r reports) (least : UInt64) (receiver : String) (bitrate : UInt64)
    (ssrc : UInt32) :
    Refines (TrackBitrateEstimators.estimateTrack receiver bitrate (r, least) ssrc).1
      (record reports receiver bitrate ssrc) := by
  refine ⟨fun k clientID => ?_, fun k estimator hk => ?_⟩
  · show ((((r.insert ssrc _).lookup k).getD BitrateEstimator.new).estimates).lookup clientID = _
    unfold record
    by_cases hk : k = ssrc
    · subst hk
      rw [AList.lookup_insert, Option.getD_some, TrackBitrateEstimators.estimates_estimate]
      by_cases hc : clientID = receiver
      · subst hc
        rw [AList.lookup_insert, if_pos ⟨rfl, rfl⟩]
      · rw [AList.lookup_insert_ne hc, if_neg fun h => hc h.2]
        exact h.estimates k clientID
    · rw [AList.lookup_insert_ne hk, if_neg fun h => hk h.1]
      exact h.estimates k clientID
  · rcases lookup_insert_cases hk with ⟨-, rfl⟩ | ⟨-, hk⟩
    · exact (h.bounded_getD ssrc).estimate receiver bitrate
    · exact h.bounded k estimator hk

/-- The loop of `Estimate` writes a report for every SSRC of the list. -/
theorem foldl_estimateTrack (receiver : String) (bitrate : UInt64) :
    ∀ (ssrcs : List UInt32) (acc : TrackBitrateEstimators × UInt64) {reports : Reports},
      Refines acc.1 reports →
      Refines (ssrcs.foldl (TrackBitrateEstimators.estimateTrack receiver bitrate) acc).1
        (ssrcs.foldl (fun f ssrc => record f receiver bitrate ssrc) reports)
  | [], _, _, h => h
  | ssrc :: ssrcs, acc, _, h => by
    have hround := h.estimateTrack acc.2 receiver bitrate ssrc
    exact foldl_estimateTrack receiver bitrate ssrcs _ hround

theorem foldl_record (receiver : String) (bitrate : UInt64) (k : UInt32) (clientID : String) :
    ∀ (ssrcs : List UInt32) (reports : Reports),
      ssrcs.foldl (fun f ssrc => record f receiver bitrate ssrc) reports k clientID =
        if k ∈ ssrcs ∧ clientID = receiver then some bitrate else reports k clientID
  | [], _ => by simp
  | ssrc :: ssrcs, reports => by
    rw [List.foldl_cons, foldl_record receiver bitrate k clientID ssrcs, record]
    by_cases hc : clientID = receiver <;> by_cases hk : k = ssrc <;> simp [hc, hk]

theorem removeReceiverEstimationsIn (h : Refines r reports) (order : Order) (receiver : String) :
    Refines (r.removeReceiverEstimationsIn order receiver)
      (RembCall.report reports (.removeReceiverEstimations order receiver)) := by
  have hlookup : ∀ k, (r.removeReceiverEstimationsIn order receiver).lookup k =
      (r.lookup k).map (·.removeEstimation receiver) := by
    intro k
    rw [TrackBitrateEstimators.lookup_removeReceiverEstimationsIn,
      TrackBitrateEstimators.removeReceiverEstimations, lookup_mapValues]
  refine ⟨fun k clientID => ?_, fun k estimator hk => ?_⟩
  · have hestimates : estimatesOf (r.removeReceiverEstimationsIn order receiver) k =
        (estimatesOf r k).erase receiver := by
      unfold estimatesOf
      rw [hlookup]
      cases r.lookup k <;> rfl
    rw [hestimates]
    show _ = if clientID = receiver then none else reports k clientID
    split_ifs with hc
    · rw [hc, AList.lookup_erase]
    · rw [AList.lookup_erase_ne hc]
      exact h.estimates k clientID
  · rw [hlookup, Option.map_eq_some_iff] at hk
    obtain ⟨estimator, hk, rfl⟩ := hk
    exact (h.bounded k estimator hk).removeEstimation receiver

theorem remove (h : Refines r reports) (ssrc : UInt32) :
    Refines (r.remove ssrc) (RembCall.report reports (.remove ssrc)) := by
  refine ⟨fun k clientID => ?_, fun k estimator hk => ?_⟩
  · show (((r.erase ssrc).lookup k).getD BitrateEstimator.new).estimates.lookup clientID =
      if k = ssrc then none else reports k clientID
    split_ifs with hk
    · rw [hk, AList.lookup_erase]
      rfl
    · rw [AList.lookup_erase_ne hk]
      exact h.estimates k clientID
  · exact h.bounded k estimator (lookup_of_lookup_erase hk).2

/-- **Every call refines its meaning.** -/
theorem call (h : Refines r reports) (c : RembCall) : Refines (c.run r) (c.report reports) := by
  cases c with
  | estimate orders receiver ssrcs bitrate =>
    have hfold := foldl_estimateTrack receiver bitrate ssrcs (r, 0xFFFFFFFFFFFFFFFF) h
    show Refines (TrackBitrateEstimators.estimateIn receiver bitrate orders ssrcs _).1 _
    rw [TrackBitrateEstimators.estimateIn_eq]
    exact ⟨fun k clientID => (hfold.estimates k clientID).trans
      (foldl_record receiver bitrate k clientID ssrcs reports), hfold.bounded⟩
  | removeReceiverEstimations order receiver => exact h.removeReceiverEstimationsIn order receiver
  | remove ssrc => exact h.remove ssrc

end Refines

/-- The estimators after any history of calls hold the reports of the history. -/
theorem refines_foldl_run :
    ∀ (calls : List RembCall) {r : TrackBitrateEstimators} {reports : Reports}, Refines r reports →
      Refines (calls.foldl RembCall.run r) (calls.foldl RembCall.report reports)
  | [], _, _, h => h
  | c :: calls, _, _, h => refines_foldl_run calls (h.call c)

/-! ### What `Estimate` returns -/

/-- The bitrate that `Estimate` returns. -/
def returned (r : TrackBitrateEstimators) (orders : ℕ → Order) (receiverClientID : String)
    (ssrcs : List UInt32) (bitrate : UInt64) : UInt64 :=
  (TrackBitrateEstimators.estimateIn receiverClientID bitrate orders ssrcs (r, 0xFFFFFFFFFFFFFFFF)).2

/-- One round lowers the answer to the least report for its SSRC, when this is lower. -/
theorem estimateTrack_snd {acc : TrackBitrateEstimators × UInt64} {reports : Reports}
    (h : Refines acc.1 reports) (receiver : String) (bitrate : UInt64) (ssrc : UInt32) :
    ∃ v, (TrackBitrateEstimators.estimateTrack receiver bitrate acc ssrc).2 = min acc.2 v ∧
      IsMinimum (fun b => ∃ clientID, Refines.record reports receiver bitrate ssrc ssrc clientID = some b)
        v := by
  have hround := h.estimateTrack acc.2 receiver bitrate ssrc
  have hmin := BitrateEstimator.estimate_isMinimum (h.bounded_getD ssrc) receiver bitrate
  have hlookup : ∀ clientID,
      ((((acc.1.lookup ssrc).getD BitrateEstimator.new).estimates).insert receiver bitrate).lookup
        clientID = Refines.record reports receiver bitrate ssrc ssrc clientID := by
    intro clientID
    have hestimates := hround.estimates ssrc clientID
    unfold estimatesOf TrackBitrateEstimators.estimateTrack at hestimates
    rwa [AList.lookup_insert, Option.getD_some, TrackBitrateEstimators.estimates_estimate]
      at hestimates
  refine ⟨_, rfl, ?_, fun b hb => ?_⟩
  · obtain ⟨clientID, hv⟩ := hmin.1
    exact ⟨clientID, (hlookup clientID).symm.trans hv⟩
  · obtain ⟨clientID, hb⟩ := hb
    exact hmin.2 b ⟨clientID, (hlookup clientID).trans hb⟩

/-- The answer of the loop against the table that the loop leaves: rounds that come later write for an SSRC only
what its own round has written. -/
theorem foldl_estimateTrack_snd (receiver : String) (bitrate : UInt64) :
    ∀ (ssrcs : List UInt32) (acc : TrackBitrateEstimators × UInt64) (reports : Reports),
      Refines acc.1 reports →
      let v := (ssrcs.foldl (TrackBitrateEstimators.estimateTrack receiver bitrate) acc).2
      let table := ssrcs.foldl (fun f ssrc => Refines.record f receiver bitrate ssrc) reports
      (v = acc.2 ∨ ∃ ssrc ∈ ssrcs, ∃ clientID, table ssrc clientID = some v) ∧ v ≤ acc.2 ∧
        ∀ ssrc ∈ ssrcs, ∀ clientID b, table ssrc clientID = some b → v ≤ b
  | [], _, _, _ => ⟨Or.inl rfl, UInt64.le_refl _, fun _ h => absurd h List.not_mem_nil⟩
  | ssrc :: ssrcs, acc, reports, h => by
    intro v table
    obtain ⟨w, hw, ⟨c, hc⟩, hleast⟩ := estimateTrack_snd h receiver bitrate ssrc
    have htable : ∀ clientID, table ssrc clientID =
        Refines.record reports receiver bitrate ssrc ssrc clientID := by
      intro clientID
      show ssrcs.foldl _ (Refines.record reports receiver bitrate ssrc) ssrc clientID = _
      rw [Refines.foldl_record]
      unfold Refines.record
      split_ifs <;> simp_all
    obtain ⟨hval, hle, hall⟩ := foldl_estimateTrack_snd receiver bitrate ssrcs
      (TrackBitrateEstimators.estimateTrack receiver bitrate acc ssrc) _
      (h.estimateTrack acc.2 receiver bitrate ssrc)
    rw [hw] at hval hle
    have hmin : min acc.2 w ≤ acc.2 ∧ min acc.2 w ≤ w ∧ (min acc.2 w = acc.2 ∨ min acc.2 w = w) := by
      show (if acc.2 ≤ w then acc.2 else w) ≤ acc.2 ∧ (if acc.2 ≤ w then acc.2 else w) ≤ w ∧
        ((if acc.2 ≤ w then acc.2 else w) = acc.2 ∨ (if acc.2 ≤ w then acc.2 else w) = w)
      split_ifs with hlt
      · exact ⟨UInt64.le_refl _, hlt, Or.inl rfl⟩
      · exact ⟨UInt64.le_of_lt (UInt64.not_le.mp hlt), UInt64.le_refl _, Or.inr rfl⟩
    refine ⟨?_, UInt64.le_trans hle hmin.1, fun k hk clientID b hb => ?_⟩
    · rcases hval with hval | ⟨k, hk, clientID, hv⟩
      · rcases hmin.2.2 with hacc | hwv
        · exact Or.inl (hval.trans hacc)
        · refine Or.inr ⟨ssrc, List.mem_cons_self, c, ?_⟩
          rw [htable, hc]
          exact congrArg some (hval.trans hwv).symm
      · exact Or.inr ⟨k, List.mem_cons_of_mem _ hk, clientID, hv⟩
    · rcases List.mem_cons.mp hk with rfl | hk
      · rw [htable] at hb
        exact UInt64.le_trans hle (UInt64.le_trans hmin.2.1 (hleast b ⟨clientID, hb⟩))
      · exact hall k hk clientID b hb

theorem le_maxUint64 (v : UInt64) : v ≤ 0xFFFFFFFFFFFFFFFF := by
  rw [UInt64.le_iff_toNat_le]
  have := v.toNat_lt
  show v.toNat ≤ 18446744073709551615
  omega

/-- **Estimation refines the plain minimum.**  After any calls, and whatever the orders of the loops over maps,
`Estimate` returns the least bitrate, over the SSRCs that it is given, of the latest reports of the receivers that
were not removed since, its own report being one of them; `math.MaxUint64` when there are no SSRCs. -/
theorem estimate_isMinimum_reported (calls : List RembCall) (orders : ℕ → Order) (receiver : String)
    (ssrcs : List UInt32) (bitrate : UInt64) :
    (ssrcs = [] → returned (calls.foldl RembCall.run ∅) orders receiver ssrcs bitrate =
      0xFFFFFFFFFFFFFFFF) ∧
    (ssrcs ≠ [] → IsMinimum
      (fun b => ∃ ssrc ∈ ssrcs, ∃ clientID,
        reported (calls ++ [.estimate orders receiver ssrcs bitrate]) ssrc clientID = some b)
      (returned (calls.foldl RembCall.run ∅) orders receiver ssrcs bitrate)) := by
  constructor
  · rintro rfl
    rfl
  intro hne
  have hrefines : Refines (calls.foldl RembCall.run ∅) (reported calls) :=
    refines_foldl_run calls Refines.empty
  have htable : ∀ ssrc clientID,
      reported (calls ++ [.estimate orders receiver ssrcs bitrate]) ssrc clientID =
        ssrcs.foldl (fun f ssrc => Refines.record f receiver bitrate ssrc) (reported calls) ssrc
          clientID := by
    intro ssrc clientID
    rw [Refines.foldl_record, reported, List.foldl_append]
    rfl
  obtain ⟨hval, -, hall⟩ := foldl_estimateTrack_snd receiver bitrate ssrcs
    (calls.foldl RembCall.run ∅, 0xFFFFFFFFFFFFFFFF) _ hrefines
  unfold returned
  rw [TrackBitrateEstimators.estimateIn_eq]
  simp only [htable]
  refine ⟨?_, fun b ⟨ssrc, hs, clientID, hb⟩ => hall ssrc hs clientID b hb⟩
  rcases hval with hval | hval
  · -- `math.MaxUint64` is the answer only when it was reported.
    obtain ⟨ssrc, hs⟩ := List.exists_mem_of_ne_nil ssrcs hne
    have hown : ssrcs.foldl (fun f ssrc => Refines.record f receiver bitrate ssrc) (reported calls)
        ssrc receiver = some bitrate := by
      rw [Refines.foldl_record, if_pos ⟨hs, rfl⟩]
    have hle := hall ssrc hs receiver bitrate hown
    have heq : bitrate = 0xFFFFFFFFFFFFFFFF := by
      rw [hval] at hle
      exact UInt64.le_antisymm (le_maxUint64 bitrate) hle
    exact ⟨ssrc, hs, receiver, by rw [hval, hown, heq]⟩
  · exact hval

end Meeting.Sfu
