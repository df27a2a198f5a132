import Meeting.Jitter.Buffer
import Meeting.Lib.Loops

/-!
# Meeting.Jitter.Loops — the loops of the buffer, run with their 16-bit counters (`buffer.go`)

The model of `Buffer` has its loops as what they compute on the numbers they go through.  Here they are run as they are
written: counters of 16 bits that wrap, `!=` as a test, `break`.  A loop that is given 2^16 tests ends, with the
result of the model (`getNackPairLoops_eq`, `getNackPairsLoops_eq`, `clearOldPacketsLoops_eq`), and so does a push
(`pushLoops_eq`).

A window of any size is cut into `pieces` of 17 numbers and a rest.  The pieces are the window again
(`flatMap_pieces`), and each of them that has an empty slot gets a pair that lists its empty slots
(`packetLists_getNackPairs`), so that the pairs list the empty slots of the window (`nack_pairs_exact`).
-/

namespace Meeting.Jitter

open Lib

namespace Buffer

/-! ### The loops -/

/-- The variables of the first loop of `getNackPair`. -/
structure Search where
  i : UInt16
  fsn : UInt16
  lostPkts : ℕ

/-- The first loop: it breaks at the first empty slot. -/
def searchLoop (b : Buffer) (fuel : ℕ) (start stop : UInt16) : Option Search :=
  loop (fun s => s.i != stop)
    (fun s =>
      if b.packets s.i = none then some (.done { s with fsn := s.i, lostPkts := s.lostPkts + 1 })
      else some (.yield { s with i := s.i + 1 }))
    fuel ⟨start, 0, 0⟩

/-- The variables of the second loop. -/
structure Collect where
  i : UInt16
  blp : UInt16
  lostPkts : ℕ

/-- The second loop, which goes on behind the first number that is lost. -/
def collectLoop (b : Buffer) (fuel : ℕ) (fsn stop : UInt16) (lostPkts : ℕ) : Option Collect :=
  loop (fun s => s.i != stop)
    (fun s =>
      if b.packets s.i = none then
        some (.yield { i := s.i + 1, blp := addBLP fsn s.i s.blp, lostPkts := s.lostPkts + 1 })
      else some (.yield { s with i := s.i + 1 }))
    fuel ⟨fsn + 1, 0, lostPkts⟩

/-- `getNackPair`. -/
def getNackPairLoops (b : Buffer) (fuel : ℕ) (start stop : UInt16) : Option (NackPair × ℕ) := do
  let s ← b.searchLoop fuel start stop
  if s.lostPkts = 0 then return (⟨0, 0⟩, s.lostPkts)
  let r ← b.collectLoop fuel s.fsn stop s.lostPkts
  return (⟨s.fsn, r.blp⟩, r.lostPkts)

/-- The variables of the loop of `getNackPairs`. -/
structure Cut where
  i : UInt16
  start : UInt16
  totalLostPkt : ℕ
  pairs : List NackPair

/-- A pair is counted, and kept if it has lost packets. -/
def Cut.add (s : Cut) (r : NackPair × ℕ) : Cut :=
  { s with
    totalLostPkt := s.totalLostPkt + r.2
    pairs := if 0 < r.2 then s.pairs ++ [r.1] else s.pairs }

def cutLoop (b : Buffer) (fuel : ℕ) (start size : UInt16) : Option Cut :=
  loop (fun s => s.i < size)
    (fun s => do
      let r ← b.getNackPairLoops fuel s.start (s.start + maxNackPairSize)
      return .yield { s.add r with i := s.i + 1, start := s.start + maxNackPairSize })
    fuel ⟨0, start, 0, []⟩

/-- `getNackPairs`. -/
def getNackPairsLoops (b : Buffer) (fuel : ℕ) (start stop : UInt16) : Option (List NackPair × ℕ) := do
  let delta := stop - start
  let size := delta / maxNackPairSize
  let arraySize := if delta % maxNackPairSize > 0 then size + 1 else size
  let s ← b.cutLoop fuel start size
  if arraySize > size then
    let r ← b.getNackPairLoops fuel s.start stop
    return ((s.add r).pairs, (s.add r).totalLostPkt)
  else return (s.pairs, s.totalLostPkt)

/-- The body of the loop of `clearOldPackets`, which changes the buffer beside its counter. -/
def clearBody (ts : UInt32) (s : UInt16 × Buffer) : ForInStep (UInt16 × Buffer) :=
  match s.2.packets s.1 with
  | none => .yield (s.1 + 1, s.2)
  | some pkt =>
    if tsDelta ts pkt.timestamp < maxBufferTSDelta then .done s
    else .yield (s.1 + 1, { s.2 with
      lastClearTS := pkt.timestamp
      lastClearSN := s.1
      packets := Function.update s.2.packets s.1 none })

/-- `clearOldPackets`. -/
def clearOldPacketsLoops (b : Buffer) (fuel : ℕ) (ts : UInt32) (sn : UInt16) : Option Buffer :=
  if maxBufferTSDelta ≤ tsDelta ts b.lastClearTS then
    (loop (fun s => s.1 != sn) (fun s => some (clearBody ts s)) fuel (b.lastClearSN + 1, b)).map Prod.snd
  else some b

/-- `Push`. -/
def pushLoops (b : Buffer) (fuel : ℕ) (p : Packet) : Option (Buffer × Option TransportLayerNack) := do
  let b := b.setUp p
  let sn := p.sequenceNumber
  let b ← { b with
    packets := Function.update b.packets sn (some p)
    lastPushSN := sn }.clearOldPacketsLoops fuel p.timestamp sn
  if b.nackWindowSize ≤ sn - b.lastNackSN then
    let nackPairs ← b.getNackPairsLoops fuel (sn - b.nackWindowSize) sn
    return ({ b with lastNackSN := sn }, if 0 < nackPairs.2 then some ⟨b.ssrc, b.ssrc, nackPairs.1⟩ else none)
  else return (b, none)

/-! ### They end, with the results of the model -/

section Results

variable {b : Buffer} {fuel : ℕ}

theorem searchLoop_eq (h : 65536 ≤ fuel) (start stop : UInt16) : ∃ s, b.searchLoop fuel start stop = some s ∧
    (s.fsn, s.lostPkts) = match (upTo start stop).find? fun i => b.packets i = none with
      | none => (0, 0)
      | some fsn => (fsn, 1) := by
  refine loop_serial (I := fun s => s.fsn = 0 ∧ s.lostPkts = 0 ∧
    ((upTo s.i stop).find? fun i => b.packets i = none) = (upTo start stop).find? fun i => b.packets i = none)
    ?_ ?_ h ⟨rfl, rfl, rfl⟩
  · rintro s ⟨hfsn, hlost, hfind⟩ hne
    rw [upTo_cons hne, List.find?_cons] at hfind
    by_cases hempty : b.packets s.i = none
    · refine Or.inl ⟨_, if_pos hempty, ?_⟩
      rw [← hfind]
      simp [hempty, hlost]
    · refine Or.inr ⟨_, if_neg hempty, ⟨hfsn, hlost, ?_⟩, rfl⟩
      simpa [hempty] using hfind
  · rintro s ⟨hfsn, hlost, hfind⟩ hend
    rw [hend, upTo_self] at hfind
    rw [← hfind, hfsn, hlost]
    rfl

theorem collectLoop_eq (h : 65536 ≤ fuel) (fsn stop : UInt16) (lostPkts : ℕ) :
    ∃ r, b.collectLoop fuel fsn stop lostPkts = some r ∧
      r.blp = (b.lost (fsn + 1) stop).foldl (fun blp i => addBLP fsn i blp) 0 ∧
      r.lostPkts = lostPkts + (b.lost (fsn + 1) stop).length := by
  -- what is still to come is added to the bitmap and the number so far
  refine loop_serial (I := fun s =>
    (b.lost s.i stop).foldl (fun blp i => addBLP fsn i blp) s.blp =
        (b.lost (fsn + 1) stop).foldl (fun blp i => addBLP fsn i blp) 0 ∧
      s.lostPkts + (b.lost s.i stop).length = lostPkts + (b.lost (fsn + 1) stop).length)
    ?_ ?_ h ⟨rfl, rfl⟩
  · rintro s ⟨hblp, hlost⟩ hne
    have hcons : b.lost s.i stop = (s.i :: upTo (s.i + 1) stop).filter fun i => b.packets i = none := by
      rw [lost, upTo_cons hne]
    by_cases hempty : b.packets s.i = none
    · rw [List.filter_cons_of_pos (by simpa using hempty)] at hcons
      rw [hcons] at hblp hlost
      refine Or.inr ⟨_, if_pos hempty, ⟨hblp, ?_⟩, rfl⟩
      show s.lostPkts + 1 + (b.lost (s.i + 1) stop).length = _
      rw [← hlost, List.length_cons, lost]
      omega
    · rw [List.filter_cons_of_neg (by simpa using hempty)] at hcons
      rw [hcons] at hblp hlost
      exact Or.inr ⟨_, if_neg hempty, ⟨hblp, hlost⟩, rfl⟩
  · rintro s ⟨hblp, hlost⟩ hend
    rw [lost, hend, upTo_self] at hblp hlost
    exact ⟨hblp, hlost⟩

theorem getNackPairLoops_eq (h : 65536 ≤ fuel) (start stop : UInt16) :
    b.getNackPairLoops fuel start stop = some (b.getNackPair start stop) := by
  obtain ⟨s, hs, hfind⟩ := searchLoop_eq (b := b) h start stop
  unfold getNackPairLoops getNackPair
  rw [hs]
  cases hfirst : (upTo start stop).find? fun i => b.packets i = none with
  | none =>
    rw [hfirst] at hfind
    obtain ⟨-, hlost⟩ := Prod.mk.inj hfind
    simp [hlost]
  | some fsn =>
    rw [hfirst] at hfind
    obtain ⟨hfsn, hlost⟩ := Prod.mk.inj hfind
    obtain ⟨r, hr, hblp, hcount⟩ := collectLoop_eq (b := b) h fsn stop 1
    simp only [Option.bind_eq_bind, Option.bind_some, hlost, hfsn, hr, hblp, hcount]
    simp [lost, Nat.add_comm]

/-- The variables of the loop after `k` full pieces. -/
def cutAfter (b : Buffer) (start : UInt16) (k : ℕ) : Cut :=
  let full := (List.range k).map fun k =>
    b.getNackPair (start + maxNackPairSize * UInt16.ofNat k)
      (start + maxNackPairSize * UInt16.ofNat k + maxNackPairSize)
  { i := UInt16.ofNat k
    start := start + maxNackPairSize * UInt16.ofNat k
    totalLostPkt := full.foldl (fun totalLostPkt r => totalLostPkt + r.2) 0
    pairs := (full.filter fun r => 0 < r.2).map Prod.fst }

theorem cutAfter_succ (b : Buffer) (start : UInt16) (k : ℕ) :
    b.cutAfter start (k + 1) =
      { (b.cutAfter start k).add (b.getNackPair (b.cutAfter start k).start
          ((b.cutAfter start k).start + maxNackPairSize)) with
        i := (b.cutAfter start k).i + 1
        start := (b.cutAfter start k).start + maxNackPairSize } := by
  have hi : UInt16.ofNat (k + 1) = UInt16.ofNat k + 1 := UInt16.ofNat_add k 1
  have hstart : start + maxNackPairSize * (UInt16.ofNat k + 1) =
      start + maxNackPairSize * UInt16.ofNat k + maxNackPairSize := by
    rw [UInt16.mul_add, UInt16.mul_one, UInt16.add_assoc]
  simp only [cutAfter, Cut.add, hi, hstart, List.range_succ, List.map_append, List.filter_append, List.foldl_append,
    List.map_cons, List.map_nil, List.foldl_cons, List.foldl_nil]
  split_ifs with hpos <;> simp [hpos]

theorem cutLoop_eq (h : 65536 ≤ fuel) (start size : UInt16) :
    b.cutLoop fuel start size = some (b.cutAfter start size.toNat) := by
  have hcount : ∀ k ≤ size.toNat, (b.cutAfter start k).i.toNat = k := by
    intro k hk
    show (UInt16.ofNat k).toNat = k
    rw [UInt16.toNat_ofNat', Nat.mod_eq_of_lt (lt_of_le_of_lt hk size.toNat_lt)]
  have hzero : b.cutAfter start 0 = ⟨0, start, 0, []⟩ := by
    simp [cutAfter]
  have hrun : ∃ s, b.cutLoop fuel start size = some s ∧ s = b.cutAfter start size.toNat := by
    refine loop_total (fun s => size.toNat - s.i.toNat) (I := fun s => ∃ k ≤ size.toNat, s = b.cutAfter start k)
      ?_ ?_ fuel _ ⟨0, Nat.zero_le _, hzero.symm⟩ (lt_of_le_of_lt (Nat.sub_le _ _) (lt_of_lt_of_le size.toNat_lt h))
    · rintro s ⟨k, hk, rfl⟩ hcond
      have hlt := UInt16.lt_iff_toNat_lt.mp (of_decide_eq_true hcond)
      rw [hcount k hk] at hlt
      refine Or.inr ⟨b.cutAfter start (k + 1), ?_, ⟨k + 1, hlt, rfl⟩, ?_⟩
      · rw [getNackPairLoops_eq h, cutAfter_succ]
        rfl
      · rw [hcount k hk, hcount (k + 1) hlt]
        omega
    · rintro s ⟨k, hk, rfl⟩ hcond
      have hge : ¬ (b.cutAfter start k).i < size := of_decide_eq_false hcond
      rw [UInt16.lt_iff_toNat_lt, hcount k hk] at hge
      rw [show k = size.toNat by omega]
  obtain ⟨s, hs, rfl⟩ := hrun
  exact hs

theorem getNackPairsLoops_eq (h : 65536 ≤ fuel) (start stop : UInt16) :
    b.getNackPairsLoops fuel start stop = some (b.getNackPairs start stop) := by
  have hsize : (stop - start) / maxNackPairSize < (stop - start) / maxNackPairSize + 1 := by
    have hle : ((stop - start) / maxNackPairSize).toNat < 65535 := by
      rw [UInt16.toNat_div]
      have hlt := (stop - start).toNat_lt
      show (stop - start).toNat / 17 < 65535
      omega
    rw [UInt16.lt_iff_toNat_lt, UInt16.toNat_add]
    show _ < (_ + 1) % 65536
    omega
  unfold getNackPairsLoops getNackPairs reports
  simp only [cutLoop_eq h, getNackPairLoops_eq h, Option.bind_eq_bind, Option.bind_some]
  by_cases hrest : (stop - start) % maxNackPairSize > 0
  · simp only [if_pos hrest, gt_iff_lt, if_pos hsize, cutAfter, Cut.add, UInt16.ofNat_toNat]
    split_ifs with hpos <;> simp [hpos]
  · simp only [if_neg hrest, gt_iff_lt, if_neg (UInt16.lt_irrefl _), cutAfter, List.append_nil]
    rfl

theorem clearLoop_eq (h : 65536 ≤ fuel) (ts : UInt32) (start sn : UInt16) :
    ∃ s, loop (fun s => s.1 != sn) (fun s => some (clearBody ts s)) fuel (start, b) = some s ∧
      s.2 = clearLoop ts (upTo start sn) b := by
  refine loop_serial (I := fun s => clearLoop ts (upTo s.1 sn) s.2 = clearLoop ts (upTo start sn) b) ?_ ?_ h rfl
  · rintro ⟨i, c⟩ hI hne
    rw [← hI, upTo_cons hne, clearLoop]
    simp only [clearBody]
    cases hpkt : c.packets i with
    | none => exact Or.inr ⟨_, rfl, rfl, rfl⟩
    | some pkt =>
      simp only
      split_ifs with hts
      · exact Or.inl ⟨_, rfl, rfl⟩
      · exact Or.inr ⟨_, rfl, rfl, rfl⟩
  · rintro ⟨i, c⟩ hI hend
    obtain rfl : i = sn := hend
    rw [← hI, upTo_self]
    rfl

theorem clearOldPacketsLoops_eq (h : 65536 ≤ fuel) (ts : UInt32) (sn : UInt16) :
    b.clearOldPacketsLoops fuel ts sn = some (b.clearOldPackets ts sn) := by
  obtain ⟨s, hs, hend⟩ := clearLoop_eq (b := b) h ts (b.lastClearSN + 1) sn
  unfold clearOldPacketsLoops clearOldPackets
  split_ifs with hold
  · rw [hs, Option.map_some, hend]
  · rfl

/-- **A push ends**, and does what the model of `Push` says. -/
theorem pushLoops_eq (h : 65536 ≤ fuel) (p : Packet) : b.pushLoops fuel p = some (b.push p) := by
  unfold pushLoops push store
  simp only [clearOldPacketsLoops_eq h, getNackPairsLoops_eq h, Option.bind_eq_bind, Option.bind_some]
  split_ifs <;> rfl

end Results

/-! ### The pieces of a window -/

/-- The windows that `getNackPairs` makes pairs of. -/
def pieces (start stop : UInt16) : List (UInt16 × UInt16) :=
  let size := (stop - start) / maxNackPairSize
  ((List.range size.toNat).map fun k =>
      (start + maxNackPairSize * UInt16.ofNat k, start + maxNackPairSize * UInt16.ofNat k + maxNackPairSize)) ++
    if (stop - start) % maxNackPairSize > 0 then [(start + maxNackPairSize * size, stop)] else []

theorem reports_eq (b : Buffer) (start stop : UInt16) :
    b.reports start stop = (pieces start stop).map fun w => b.getNackPair w.1 w.2 := by
  simp only [reports, pieces, List.map_append, List.map_map]
  split_ifs <;> rfl

/-- The pieces by their distance from the start of the window. -/
theorem pieces_eq (start stop : UInt16) :
    pieces start stop = ((List.range ((stop - start).toNat / 17)).map fun k =>
        (start + UInt16.ofNat (17 * k), start + UInt16.ofNat (17 * (k + 1)))) ++
      if 0 < (stop - start).toNat % 17 then
        [(start + UInt16.ofNat (17 * ((stop - start).toNat / 17)), start + UInt16.ofNat (stop - start).toNat)]
      else [] := by
  have hoff : ∀ k, maxNackPairSize * UInt16.ofNat k = UInt16.ofNat (17 * k) := fun k => (UInt16.ofNat_mul 17 k).symm
  have hnext : ∀ k, start + UInt16.ofNat (17 * k) + maxNackPairSize = start + UInt16.ofNat (17 * (k + 1)) := by
    intro k
    rw [Nat.mul_succ, UInt16.ofNat_add, UInt16.add_assoc]
    rfl
  have hsize : ((stop - start) / maxNackPairSize).toNat = (stop - start).toNat / 17 := UInt16.toNat_div _ _
  have hrest : (stop - start) % maxNackPairSize > 0 ↔ 0 < (stop - start).toNat % 17 := by
    rw [gt_iff_lt, UInt16.lt_iff_toNat_lt, UInt16.toNat_mod]
    rfl
  have hlast : maxNackPairSize * ((stop - start) / maxNackPairSize) =
      UInt16.ofNat (17 * ((stop - start).toNat / 17)) := by
    rw [← hoff, ← hsize, UInt16.ofNat_toNat]
  have hstop : start + UInt16.ofNat (stop - start).toNat = stop := by
    rw [UInt16.ofNat_toNat, UInt16.add_comm, UInt16.sub_add_cancel]
  simp only [pieces, hoff, hnext, hsize, hlast, hrest, hstop]

/-- The full pieces are the first numbers of the window. -/
theorem flatMap_full (start : UInt16) : ∀ k : ℕ, 17 * k < 65536 →
    ((List.range k).flatMap fun k => upTo (start + UInt16.ofNat (17 * k)) (start + UInt16.ofNat (17 * (k + 1)))) =
      upTo start (start + UInt16.ofNat (17 * k))
  | 0, _ => by simp [upTo_self]
  | k + 1, hk => by
    rw [List.range_succ, List.flatMap_append, flatMap_full start k (by omega), List.flatMap_singleton]
    exact upTo_append (by omega) hk

/-- **The pieces are the window**, in its order. -/
theorem flatMap_pieces (start stop : UInt16) :
    (pieces start stop).flatMap (fun w => upTo w.1 w.2) = upTo start stop := by
  have hdist := (stop - start).toNat_lt
  have hstop : start + UInt16.ofNat (stop - start).toNat = stop := by
    rw [UInt16.ofNat_toNat, UInt16.add_comm, UInt16.sub_add_cancel]
  rw [pieces_eq, List.flatMap_append, List.flatMap_map, flatMap_full start _ (by omega)]
  split_ifs with hrest
  · rw [List.flatMap_singleton, upTo_append (by omega) hdist, hstop]
  · rw [List.flatMap_nil, List.append_nil,
      show 17 * ((stop - start).toNat / 17) = (stop - start).toNat by omega, hstop]

/-- No piece is longer than what a pair can list. -/
theorem length_piece_le {start stop : UInt16} {w : UInt16 × UInt16} (hw : w ∈ pieces start stop) :
    (w.2 - w.1).toNat ≤ 17 := by
  have hdist := (stop - start).toNat_lt
  rw [pieces_eq, List.mem_append] at hw
  rcases hw with hw | hw
  · obtain ⟨k, hk, rfl⟩ := List.mem_map.mp hw
    rw [List.mem_range] at hk
    rw [toNat_sub_add (by omega) (by omega)]
    omega
  · split_ifs at hw with hrest
    · rw [List.mem_singleton.mp hw, toNat_sub_add (by omega) hdist]
      omega
    · cases hw

/-! ### What the pairs list -/

/-- Each piece with an empty slot gets a pair that lists its empty slots. -/
theorem packetLists_getNackPairs (b : Buffer) (start stop : UInt16) :
    (b.getNackPairs start stop).1.map NackPair.packetList =
      ((pieces start stop).map fun w => b.lost w.1 w.2).filter fun l => l ≠ [] := by
  rw [getNackPairs, reports_eq, List.filter_map, List.filter_map, List.map_map, List.map_map]
  have hkept :
      (pieces start stop).filter ((fun r : NackPair × ℕ => decide (0 < r.2)) ∘ fun w => b.getNackPair w.1 w.2) =
        (pieces start stop).filter ((fun l : List UInt16 => decide (l ≠ [])) ∘ fun w => b.lost w.1 w.2) := by
    refine List.filter_congr fun w _ => ?_
    simp [getNackPair_eq, List.length_pos_iff]
  rw [hkept]
  refine List.map_congr_left fun w hw => ?_
  obtain ⟨hpiece, hne⟩ := List.mem_filter.mp hw
  show (b.getNackPair w.1 w.2).1.packetList = b.lost w.1 w.2
  rw [getNackPair_eq]
  exact b.packetList_lost (length_piece_le hpiece) (of_decide_eq_true hne)

theorem flatMap_lost (b : Buffer) (start stop : UInt16) :
    (pieces start stop).flatMap (fun w => b.lost w.1 w.2) = b.lost start stop := by
  rw [lost, ← flatMap_pieces, List.filter_flatMap]
  rfl

/-- The pairs list the empty slots of the window. -/
theorem flatMap_getNackPairs (b : Buffer) (start stop : UInt16) :
    (b.getNackPairs start stop).1.flatMap NackPair.packetList = b.lost start stop := by
  rw [List.flatMap_def, packetLists_getNackPairs, List.flatten_filter_ne_nil, ← List.flatMap_def, flatMap_lost]

theorem snd_getNackPairs (b : Buffer) (start stop : UInt16) :
    (b.getNackPairs start stop).2 = (b.lost start stop).length := by
  rw [← flatMap_lost, List.length_flatMap, getNackPairs, reports_eq, List.foldl_map, List.sum_eq_foldl, List.foldl_map]
  simp only [getNackPair_eq]

/-- **NACK pairs are exact**: for any content of the ring and any window the loops end, and the pairs list the empty slots
of the window in their order and each once, with their number.  No pair is empty, and none lists a slot that is filled. -/
theorem nack_pairs_exact (b : Buffer) (start stop : UInt16) :
    ∃ pairs lostPkts, (∀ fuel, 65536 ≤ fuel → b.getNackPairsLoops fuel start stop = some (pairs, lostPkts)) ∧
      pairs.flatMap NackPair.packetList = (upTo start stop).filter (fun i => b.packets i = none) ∧
      (pairs.flatMap NackPair.packetList).Nodup ∧
      (∀ pair ∈ pairs, pair.packetList ≠ [] ∧ ∀ i ∈ pair.packetList, b.packets i = none) ∧
      lostPkts = ((upTo start stop).filter fun i => b.packets i = none).length := by
  have hlists := b.flatMap_getNackPairs start stop
  refine ⟨(b.getNackPairs start stop).1, (b.getNackPairs start stop).2, fun fuel h => getNackPairsLoops_eq h start stop,
    hlists, ?_, ?_, b.snd_getNackPairs start stop⟩
  · rw [hlists]
    exact (nodup_upTo start stop).filter _
  · intro pair hpair
    have hlist := List.mem_map_of_mem (f := NackPair.packetList) hpair
    rw [packetLists_getNackPairs] at hlist
    obtain ⟨hpiece, hne⟩ := List.mem_filter.mp hlist
    obtain ⟨w, -, hw⟩ := List.mem_map.mp hpiece
    refine ⟨of_decide_eq_true hne, fun i hi => ?_⟩
    rw [← hw] at hi
    exact of_decide_eq_true (List.mem_filter.mp hi).2

-- an empty ring and a window over the wrap
example : Buffer.new.getNackPairsLoops 20 65530 14 = some ([⟨65530, 65535⟩, ⟨11, 0b11⟩], 20) := by decide +kernel

end Buffer

end Meeting.Jitter
