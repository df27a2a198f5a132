import Meeting.Jitter.Buffer
import Meeting.Lib.Lists

/-!
# Meeting.Jitter.Clearing — the age of a packet around the wrap of the timestamps

RTP timestamps wrap, so that the distance of two of them is the shorter way around the circle (`circularDelta`).
`tsDelta` is the difference of the two numbers.  It is the distance as long as both are on one side of the wrap; across
it a difference of a few ticks looks like one of 2^32 ticks, and a packet that has just come looks old.

* `packets_clearLoop_eq`: the loop of `clearOldPackets` empties the slots before the first packet that is kept;
* `clears_old_iff`: a push clears no packet of the last two seconds exactly if it does not get to one that is across
  the wrap (`StopsBeforeWrap`).
-/

namespace Meeting.Jitter

open Lib

/-- The distance of two timestamps modulo 2^32. -/
def circularDelta (ts1 ts2 : UInt32) : UInt32 := if ts1 - ts2 < ts2 - ts1 then ts1 - ts2 else ts2 - ts1

/-- The difference is so large that the distance is less than two seconds. -/
def AcrossWrap (ts1 ts2 : UInt32) : Prop := 4294787296 < tsDelta ts1 ts2

instance : DecidableRel AcrossWrap := fun ts1 ts2 => inferInstanceAs (Decidable (4294787296 < tsDelta ts1 ts2))

theorem toNat_tsDelta (ts1 ts2 : UInt32) :
    (tsDelta ts1 ts2).toNat = max ts1.toNat ts2.toNat - min ts1.toNat ts2.toNat := by
  unfold tsDelta
  split_ifs with hgt
  · have hlt := UInt32.lt_iff_toNat_lt.mp hgt
    rw [UInt32.toNat_sub_of_le _ _ (UInt32.le_of_lt hgt)]
    omega
  · have hle := UInt32.le_iff_toNat_le.mp (UInt32.not_lt.mp hgt)
    rw [UInt32.toNat_sub_of_le _ _ (UInt32.not_lt.mp hgt)]
    omega

/-- A distance of less than two seconds is a small difference, or one across the wrap. -/
theorem circularDelta_lt_iff (ts1 ts2 : UInt32) :
    circularDelta ts1 ts2 < maxBufferTSDelta ↔ tsDelta ts1 ts2 < maxBufferTSDelta ∨ AcrossWrap ts1 ts2 := by
  have h1 := ts1.toNat_lt
  have h2 := ts2.toNat_lt
  have hdelta := toNat_tsDelta ts1 ts2
  have hmax : maxBufferTSDelta.toNat = 180000 := rfl
  have hwrap : (4294787296 : UInt32).toNat = 4294787296 := rfl
  have hsub := UInt32.toNat_sub ts1 ts2
  have hsub' := UInt32.toNat_sub ts2 ts1
  unfold circularDelta AcrossWrap
  split_ifs with hlt <;> rw [UInt32.lt_iff_toNat_lt] at hlt <;>
    rw [UInt32.lt_iff_toNat_lt, UInt32.lt_iff_toNat_lt, UInt32.lt_iff_toNat_lt] <;> omega

/-! ### What the loop empties -/

/-- The slot has no packet, or one that the loop clears. -/
def Passed (ts : UInt32) (b : Buffer) (i : UInt16) : Prop :=
  ∀ q ∈ b.packets i, maxBufferTSDelta ≤ tsDelta ts q.timestamp

instance (ts : UInt32) (b : Buffer) : DecidablePred (Passed ts b) := fun i =>
  inferInstanceAs (Decidable (∀ q ∈ b.packets i, maxBufferTSDelta ≤ tsDelta ts q.timestamp))

/-- **The loop of `clearOldPackets`**, over slots that are all different, empties those that it passes. -/
theorem packets_clearLoop_eq (ts : UInt32) (i : UInt16) : ∀ (l : List UInt16) (b : Buffer), l.Nodup →
    (Buffer.clearLoop ts l b).packets i =
      if i ∈ l.takeWhile (fun j => Passed ts b j) then none else b.packets i
  | [], _, _ => rfl
  | k :: rest, b, hl => by
    obtain ⟨hk, hrest⟩ := List.nodup_cons.mp hl
    rw [Buffer.clearLoop, List.takeWhile_cons]
    cases hq : b.packets k with
    | none =>
      have hpass : Passed ts b k := by
        intro q hmem
        rw [hq] at hmem
        cases hmem
      rw [if_pos (decide_eq_true hpass)]
      show (Buffer.clearLoop ts rest b).packets i = _
      rw [packets_clearLoop_eq ts i rest b hrest]
      by_cases hik : i = k
      · simp [hik, hq]
      · simp [hik]
    | some q =>
      have hpass : Passed ts b k ↔ maxBufferTSDelta ≤ tsDelta ts q.timestamp := by
        unfold Passed
        rw [hq]
        simp
      by_cases hyoung : tsDelta ts q.timestamp < maxBufferTSDelta
      · have hneg : ¬ Passed ts b k := by
          rw [hpass, UInt32.not_le]
          exact hyoung
        rw [if_neg fun h => hneg (of_decide_eq_true h)]
        simp [hyoung]
      · have hpos := hpass.mpr (UInt32.not_lt.mp hyoung)
        -- the slots that are left are those of `b`
        have hsame : (rest.takeWhile fun j => Passed ts { b with
            lastClearTS := q.timestamp
            lastClearSN := k
            packets := Function.update b.packets k none } j) = rest.takeWhile fun j => Passed ts b j := by
          refine takeWhile_congr fun j hj => ?_
          have hjk : j ≠ k := fun h => hk (h ▸ hj)
          refine decide_eq_decide.mpr ?_
          simp only [Passed, Function.update_of_ne hjk]
        rw [if_pos (decide_eq_true hpos)]
        simp only [if_neg hyoung]
        rw [packets_clearLoop_eq ts i rest _ hrest, hsame]
        by_cases hik : i = k
        · simp [hik]
        · simp [hik]

/-! ### What a push clears -/

/-- The push looks for old packets. -/
def Looks (b : Buffer) (p : Packet) : Prop := maxBufferTSDelta ≤ tsDelta p.timestamp (b.setUp p).lastClearTS

instance : DecidableRel Looks := fun b p =>
  inferInstanceAs (Decidable (maxBufferTSDelta ≤ tsDelta p.timestamp (b.setUp p).lastClearTS))

/-- The slots that a push looks at. -/
def looked (b : Buffer) (p : Packet) : List UInt16 := upTo ((b.setUp p).lastClearSN + 1) p.sequenceNumber

/-- A push empties a slot that has a packet exactly if it looks for old packets and passes all slots up to this one. -/
theorem cleared_iff {b : Buffer} {p q : Packet} {i : UInt16} (hq : b.packets i = some q) :
    (b.push p).1.packets i = none ↔ Looks b p ∧ i ∈ looked b p ∧ Passed p.timestamp b i ∧
      ∀ j ∈ upTo ((b.setUp p).lastClearSN + 1) i, Passed p.timestamp b j := by
  -- the buffer that is searched has the packet in its slot, which is not one of those that are looked at
  let stored : Buffer := { b.setUp p with
    packets := Function.update (b.setUp p).packets p.sequenceNumber (some p)
    lastPushSN := p.sequenceNumber }
  have hslots : ∀ j ∈ looked b p, stored.packets j = b.packets j := by
    intro j hj
    have hne : j ≠ p.sequenceNumber := fun h => not_mem_upTo_stop _ _ (h ▸ hj)
    show Function.update (b.setUp p).packets p.sequenceNumber (some p) j = _
    rw [Function.update_of_ne hne, Buffer.packets_setUp]
  have hpassed : ((looked b p).takeWhile fun j => Passed p.timestamp stored j) =
      (looked b p).takeWhile fun j => Passed p.timestamp b j := by
    refine takeWhile_congr fun j hj => decide_eq_decide.mpr ?_
    unfold Passed
    rw [hslots j hj]
  have hfilled : stored.packets i ≠ none := by
    show Function.update (b.setUp p).packets p.sequenceNumber (some p) i ≠ none
    rw [Function.update_apply, Buffer.packets_setUp, hq]
    split_ifs <;> exact Option.some_ne_none _
  have hpush : (b.push p).1.packets i = if Looks b p ∧ i ∈ (looked b p).takeWhile (fun j => Passed p.timestamp b j)
      then none else stored.packets i := by
    rw [Buffer.packets_push]
    show (stored.clearOldPackets p.timestamp p.sequenceNumber).packets i = _
    unfold Buffer.clearOldPackets
    by_cases hlook : Looks b p
    · have hrun := packets_clearLoop_eq p.timestamp i (looked b p) stored (nodup_upTo _ _)
      rw [hpassed] at hrun
      rw [if_pos (show maxBufferTSDelta ≤ tsDelta p.timestamp stored.lastClearTS from hlook)]
      exact hrun.trans (if_congr (and_iff_right hlook).symm rfl rfl)
    · rw [if_neg (show ¬ maxBufferTSDelta ≤ tsDelta p.timestamp stored.lastClearTS from hlook),
        if_neg fun h => hlook h.1]
  have hmem : i ∈ (looked b p).takeWhile (fun j => Passed p.timestamp b j) ↔ i ∈ looked b p ∧
      Passed p.timestamp b i ∧ ∀ j ∈ upTo ((b.setUp p).lastClearSN + 1) i, Passed p.timestamp b j :=
    mem_takeWhile_upTo
  rw [hpush, ← hmem]
  split_ifs with h
  · exact ⟨fun _ => h, fun _ => rfl⟩
  · exact ⟨fun hnone => absurd hnone hfilled, fun h' => absurd h' h⟩

/-- The push clears only packets that are two seconds away from it. -/
def ClearsOld (b : Buffer) (p : Packet) : Prop :=
  ∀ i q, b.packets i = some q → (b.push p).1.packets i = none →
    maxBufferTSDelta ≤ circularDelta p.timestamp q.timestamp

/-- Where the push looks for old packets, it stops at a young one before it gets to a packet across the wrap. -/
def StopsBeforeWrap (b : Buffer) (p : Packet) : Prop :=
  Looks b p → ∀ i ∈ looked b p, ∀ q ∈ b.packets i, AcrossWrap p.timestamp q.timestamp →
    ∃ j ∈ upTo ((b.setUp p).lastClearSN + 1) i, ∃ q' ∈ b.packets j,
      tsDelta p.timestamp q'.timestamp < maxBufferTSDelta

theorem clearsOld_iff (b : Buffer) (p : Packet) : ClearsOld b p ↔ StopsBeforeWrap b p := by
  constructor
  · intro hold hlook i hi q hq hwrap
    have hnear := (circularDelta_lt_iff _ _).mpr (Or.inr hwrap)
    by_contra hnone
    -- nothing stops the loop before `i`, nor at it
    have hbefore : ∀ j ∈ upTo ((b.setUp p).lastClearSN + 1) i, Passed p.timestamp b j := by
      intro j hj q' hq'
      by_contra hyoung
      exact hnone ⟨j, hj, q', hq', UInt32.not_le.mp hyoung⟩
    have hself : Passed p.timestamp b i := by
      intro q' hq'
      obtain rfl : q = q' := Option.some.inj (hq.symm.trans hq')
      have hlt : (180000 : UInt32) < 4294787296 := by decide
      exact UInt32.le_of_lt (UInt32.lt_trans hlt hwrap)
    have hfar := hold i q hq ((cleared_iff hq).mpr ⟨hlook, hi, hself, hbefore⟩)
    exact UInt32.not_lt.mpr hfar hnear
  · intro hstops i q hq hnone
    obtain ⟨hlook, hi, hself, hbefore⟩ := (cleared_iff hq).mp hnone
    by_contra hnear
    rcases (circularDelta_lt_iff _ _).mp (UInt32.not_le.mp hnear) with hyoung | hwrap
    · exact UInt32.not_lt.mpr (hself q hq) hyoung
    · obtain ⟨j, hj, q', hq', hyoung⟩ := hstops hlook i hi q hq hwrap
      exact UInt32.not_lt.mpr (hbefore j hj q' hq') hyoung

/-- The buffer after any pushes. -/
def pushAll (packets : List Packet) : Buffer := packets.foldl (fun b p => (b.push p).1) Buffer.new

/-- **When clearing respects the two seconds**: after any packets, in any order and with any timestamps, the next push
clears only packets that are two seconds away, exactly if it stops before it gets to a packet across the wrap. -/
theorem clears_old_iff (packets : List Packet) (p : Packet) :
    ClearsOld (pushAll packets) p ↔ StopsBeforeWrap (pushAll packets) p :=
  clearsOld_iff _ p

/-- Ten ticks before the wrap and ten after it: the first packet is cleared after 20 ticks. -/
theorem clears_across_wrap :
    (pushAll [⟨1, 0, 4294967286, []⟩]).getPacket 0 = some ⟨1, 0, 4294967286, []⟩ ∧
      (pushAll [⟨1, 0, 4294967286, []⟩, ⟨1, 1, 10, []⟩]).getPacket 0 = none ∧
      circularDelta 10 4294967286 = 20 ∧ ¬ ClearsOld (pushAll [⟨1, 0, 4294967286, []⟩]) ⟨1, 1, 10, []⟩ := by
  refine ⟨by decide +kernel, by decide +kernel, by decide +kernel, fun hold => ?_⟩
  have hfar := hold 0 ⟨1, 0, 4294967286, []⟩ (by decide +kernel) (by decide +kernel)
  exact absurd hfar (by decide +kernel)

end Meeting.Jitter
