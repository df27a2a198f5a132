import Mathlib.Logic.Function.Basic
import Meeting.Lib.Serial

/-!
# Meeting.Jitter.Buffer — the ring of recent packets of a track (`buffer.go`)

`Buffer` keeps the packets of a track by their 16-bit sequence number.  `Push` stores a packet, clears the packets
that are two seconds older (`clearOldPackets`), and reports the empty slots of the last 17 numbers when so many
numbers have come since the last report (`getNackPairs`).

A NACK names lost packets by a first number and a bitmap of the 16 that follow it.  `packetList` is that of
`rtcp.NackPair`, which is not part of the repository: the packet id, and `PacketID + i + 1` for every bit `i`.

* `packetList_createNackPair`: a pair that is made of increasing numbers in a window of 17 lists these numbers;
* `getNackPair_eq`, `getNackPairs_window`: the report of a window lists its empty slots, in their order.
-/

namespace Meeting.Jitter

open Lib

/-! ### Packets and reports -/

/-- `rtp.Packet`. -/
structure Packet where
  ssrc : UInt32
  sequenceNumber : UInt16
  timestamp : UInt32
  payload : List UInt8
  deriving DecidableEq, Repr

/-- `rtcp.NackPair`. -/
structure NackPair where
  packetID : UInt16
  lostPackets : UInt16
  deriving DecidableEq, Repr

/-- `PacketList` of `rtcp`. -/
def NackPair.packetList (n : NackPair) : List UInt16 :=
  n.packetID :: ((List.range 16).filter fun i => n.lostPackets.toNat.testBit i).map fun i =>
    n.packetID + UInt16.ofNat i + 1

/-- `rtcp.TransportLayerNack`. -/
structure TransportLayerNack where
  senderSSRC : UInt32
  mediaSSRC : UInt32
  nacks : List NackPair
  deriving DecidableEq, Repr

/-- All the numbers that a NACK lists. -/
def TransportLayerNack.packets (nack : TransportLayerNack) : List UInt16 :=
  nack.nacks.flatMap NackPair.packetList

/-! ### Bitmaps -/

/-- `1 << (missingSN - fsn - 1)`, which is 0 for shifts of 16 and more. -/
def calcBLP (fsn missingSN : UInt16) : UInt16 :=
  if missingSN - fsn - 1 < 16 then 1 <<< (missingSN - fsn - 1) else 0

def addBLP (fsn missingSN blp : UInt16) : UInt16 := blp ||| calcBLP fsn missingSN

def createNackPair : List UInt16 → NackPair
  | [] => ⟨0, 0⟩
  | fsn :: rest => ⟨fsn, rest.foldl (fun blp i => addBLP fsn i blp) 0⟩

/-! ### The buffer -/

/-- 2 s of a video clock of 90000 Hz. -/
def maxBufferTSDelta : UInt32 := 180000

def maxNackPairSize : UInt16 := 17

structure Buffer where
  packets : UInt16 → Option Packet
  initialized : Bool
  lastPushSN : UInt16
  lastNackSN : UInt16
  lastClearTS : UInt32
  lastClearSN : UInt16
  nackWindowSize : UInt16
  ssrc : UInt32

/-- `NewBuffer`. -/
def Buffer.new : Buffer := ⟨fun _ => none, false, 0, 0, 0, 0, maxNackPairSize, 0⟩

def tsDelta (ts1 ts2 : UInt32) : UInt32 := if ts1 > ts2 then ts1 - ts2 else ts2 - ts1

namespace Buffer

def getPacket (b : Buffer) (sequenceNumber : UInt16) : Option Packet := b.packets sequenceNumber

/-- The report of one pair, with the number of lost packets. -/
def getNackPair (b : Buffer) (start stop : UInt16) : NackPair × ℕ :=
  match (upTo start stop).find? fun i => b.packets i = none with
  | none => (⟨0, 0⟩, 0)
  | some fsn =>
    let lost := (upTo (fsn + 1) stop).filter fun i => b.packets i = none
    (⟨fsn, lost.foldl (fun blp i => addBLP fsn i blp) 0⟩, lost.length + 1)

/-- The reports of the pairs that a window is cut into. -/
def reports (b : Buffer) (start stop : UInt16) : List (NackPair × ℕ) :=
  let delta := stop - start
  let size := delta / maxNackPairSize
  let full := (List.range size.toNat).map fun k =>
    b.getNackPair (start + maxNackPairSize * UInt16.ofNat k)
      (start + maxNackPairSize * UInt16.ofNat k + maxNackPairSize)
  let last := if delta % maxNackPairSize > 0 then [b.getNackPair (start + maxNackPairSize * size) stop] else []
  full ++ last

def getNackPairs (b : Buffer) (start stop : UInt16) : List NackPair × ℕ :=
  (((b.reports start stop).filter fun r => 0 < r.2).map Prod.fst,
    (b.reports start stop).foldl (fun totalLostPkt r => totalLostPkt + r.2) 0)

/-- The loop of `clearOldPackets`: empty slots are skipped, and the first packet that is kept ends it. -/
def clearLoop (ts : UInt32) : List UInt16 → Buffer → Buffer
  | [], b => b
  | i :: rest, b =>
    match b.packets i with
    | none => clearLoop ts rest b
    | some pkt =>
      if tsDelta ts pkt.timestamp < maxBufferTSDelta then b
      else clearLoop ts rest { b with
        lastClearTS := pkt.timestamp
        lastClearSN := i
        packets := Function.update b.packets i none }

def clearOldPackets (b : Buffer) (ts : UInt32) (sn : UInt16) : Buffer :=
  if maxBufferTSDelta ≤ tsDelta ts b.lastClearTS then clearLoop ts (upTo (b.lastClearSN + 1) sn) b else b

/-- The first packet sets the buffer up. -/
def setUp (b : Buffer) (p : Packet) : Buffer :=
  if b.initialized then b
  else { b with
    lastNackSN := p.sequenceNumber
    lastClearTS := p.timestamp
    lastClearSN := p.sequenceNumber - 1
    ssrc := p.ssrc
    initialized := true }

/-- `Push`, up to the report: the packet is stored, and old ones are cleared. -/
def store (b : Buffer) (p : Packet) : Buffer :=
  let b := b.setUp p
  { b with
    packets := Function.update b.packets p.sequenceNumber (some p)
    lastPushSN := p.sequenceNumber }.clearOldPackets p.timestamp p.sequenceNumber

def push (b : Buffer) (p : Packet) : Buffer × Option TransportLayerNack :=
  let b := b.store p
  let sn := p.sequenceNumber
  if b.nackWindowSize ≤ sn - b.lastNackSN then
    let nackPairs := b.getNackPairs (sn - b.nackWindowSize) sn
    ({ b with lastNackSN := sn },
      if 0 < nackPairs.2 then some ⟨b.ssrc, b.ssrc, nackPairs.1⟩ else none)
  else (b, none)

end Buffer

/-! ### What a pair lists -/

theorem calcBLP_offset (fsn : UInt16) {d : ℕ} (hd : d < 16) :
    (calcBLP fsn (fsn + UInt16.ofNat d + 1)).toNat = 1 <<< d := by
  have hoff : fsn + UInt16.ofNat d + 1 - fsn - 1 = UInt16.ofNat d := by
    rw [UInt16.add_assoc, UInt16.add_comm fsn, UInt16.add_sub_cancel, UInt16.add_sub_cancel]
  have hlt : UInt16.ofNat d < 16 := by
    rw [UInt16.lt_iff_toNat_lt, UInt16.toNat_ofNat', Nat.mod_eq_of_lt (by omega)]
    exact hd
  have hnat : (UInt16.ofNat d).toNat = d := by
    rw [UInt16.toNat_ofNat', Nat.mod_eq_of_lt (by omega)]
  have hpow : 1 <<< d < 65536 := by
    rw [Nat.one_shiftLeft]
    exact Nat.pow_lt_pow_right (by omega) hd
  rw [calcBLP, hoff, if_pos hlt, UInt16.toNat_shiftLeft, hnat, Nat.mod_eq_of_lt hd]
  exact Nat.mod_eq_of_lt hpow

/-- The bitmap of increasing offsets has the bits of these offsets. -/
theorem testBit_foldl_addBLP (fsn : UInt16) (i : ℕ) :
    ∀ (ds : List ℕ) (blp : UInt16), (∀ d ∈ ds, d < 16) →
      ((ds.map fun d => fsn + UInt16.ofNat d + 1).foldl (fun blp i => addBLP fsn i blp) blp).toNat.testBit i =
        (blp.toNat.testBit i || decide (i ∈ ds))
  | [], _, _ => by simp
  | d :: ds, blp, h => by
    have hd := calcBLP_offset fsn (h d List.mem_cons_self)
    rw [List.map_cons, List.foldl_cons,
      testBit_foldl_addBLP fsn i ds _ fun d' hd' => h d' (List.mem_cons_of_mem _ hd'), addBLP, UInt16.toNat_or,
      Nat.testBit_or, hd, Nat.one_shiftLeft, Nat.testBit_two_pow]
    by_cases hi : i = d
    · simp [hi]
    · simp [hi, Ne.symm hi]

/-- A pair of a first number and increasing offsets lists the first number and those at the offsets. -/
theorem packetList_offsets (fsn : UInt16) {ds : List ℕ} (hds : ds.Pairwise (· < ·)) (h16 : ∀ d ∈ ds, d < 16) :
    (createNackPair (fsn :: ds.map fun d => fsn + UInt16.ofNat d + 1)).packetList =
      fsn :: ds.map fun d => fsn + UInt16.ofNat d + 1 := by
  have hbits : ((List.range 16).filter fun i =>
      ((ds.map fun d => fsn + UInt16.ofNat d + 1).foldl (fun blp i => addBLP fsn i blp) 0).toNat.testBit i) =
        ds := by
    rw [← eq_filter_of_pairwise_lt hds h16]
    refine List.filter_congr fun i _ => ?_
    rw [eq_filter_of_pairwise_lt hds h16, testBit_foldl_addBLP fsn i ds 0 h16]
    simp
  rw [createNackPair, NackPair.packetList]
  simp only [hbits]

/-- **A pair lists what it is made of**: increasing numbers in a window of 17. -/
theorem packetList_createNackPair (base : UInt16) {js : List ℕ} (hjs : js.Pairwise (· < ·))
    (h17 : ∀ j ∈ js, j < 17) (hne : js ≠ []) :
    (createNackPair (js.map fun j => base + UInt16.ofNat j)).packetList =
      js.map fun j => base + UInt16.ofNat j := by
  obtain ⟨j₀, rest, rfl⟩ := List.exists_cons_of_ne_nil hne
  obtain ⟨hfirst, hrest⟩ := List.pairwise_cons.mp hjs
  have hmap : (rest.map fun j => base + UInt16.ofNat j) =
      (rest.map fun j => j - j₀ - 1).map fun d => base + UInt16.ofNat j₀ + UInt16.ofNat d + 1 := by
    rw [List.map_map]
    refine List.map_congr_left fun j hj => ?_
    have hlt := hfirst j hj
    have hsum : j = j₀ + (j - j₀ - 1) + 1 := by omega
    show base + UInt16.ofNat j = base + UInt16.ofNat j₀ + UInt16.ofNat (j - j₀ - 1) + 1
    rw [UInt16.add_assoc, UInt16.add_assoc, ← UInt16.add_assoc (UInt16.ofNat j₀), ← UInt16.ofNat_add]
    exact congrArg (base + ·) ((congrArg UInt16.ofNat hsum).trans (UInt16.ofNat_add _ 1))
  rw [List.map_cons, hmap]
  refine packetList_offsets _ ?_ ?_
  · rw [List.pairwise_map]
    refine List.Pairwise.imp_of_mem ?_ hrest
    intro a b ha hb hab
    have := hfirst a ha
    omega
  · intro d hd
    obtain ⟨j, hj, rfl⟩ := List.mem_map.mp hd
    have := h17 j (List.mem_cons_of_mem _ hj)
    omega

/-! ### What a report lists -/

namespace Buffer

/-- The empty slots of a window. -/
def lost (b : Buffer) (start stop : UInt16) : List UInt16 := (upTo start stop).filter fun i => b.packets i = none

theorem getNackPair_eq (b : Buffer) (start stop : UInt16) :
    b.getNackPair start stop = (createNackPair (b.lost start stop), (b.lost start stop).length) := by
  induction start using upTo_induction stop with
  | self => simp [getNackPair, lost, upTo_self, createNackPair]
  | step start hne ih =>
    have hcons := upTo_cons hne
    by_cases hempty : b.packets start = none
    · simp [getNackPair, lost, hcons, hempty, createNackPair]
    · have hskip : b.getNackPair start stop = b.getNackPair (start + 1) stop := by
        simp [getNackPair, hcons, hempty]
      have hlost : b.lost start stop = b.lost (start + 1) stop := by
        simp [lost, hcons, hempty]
      rw [hskip, hlost, ih]

/-- A pair that is made of the empty slots of a window of 17 lists these slots. -/
theorem packetList_lost (b : Buffer) {start stop : UInt16} (h17 : (stop - start).toNat ≤ 17)
    (hne : b.lost start stop ≠ []) : (createNackPair (b.lost start stop)).packetList = b.lost start stop := by
  have hlost : b.lost start stop = ((List.range (stop - start).toNat).filter fun k =>
      b.packets (start + UInt16.ofNat k) = none).map fun k => start + UInt16.ofNat k := by
    rw [lost, upTo, List.filter_map]
    rfl
  rw [hlost] at hne ⊢
  refine packetList_createNackPair start (List.pairwise_lt_range.filter _) ?_ ?_
  · intro j hj
    have hrange := List.mem_range.mp (List.mem_filter.mp hj).1
    omega
  · intro hnil
    exact hne (by rw [hnil, List.map_nil])

/-- **The report of the window before a packet**: one pair, of the empty slots of the window. -/
theorem getNackPairs_window (b : Buffer) (sn : UInt16) :
    b.getNackPairs (sn - maxNackPairSize) sn =
      (if b.lost (sn - maxNackPairSize) sn = [] then [] else [createNackPair (b.lost (sn - maxNackPairSize) sn)],
        (b.lost (sn - maxNackPairSize) sn).length) := by
  have hdelta : sn - (sn - maxNackPairSize) = maxNackPairSize := by
    rw [UInt16.sub_eq_iff_eq_add, UInt16.add_comm, UInt16.sub_add_cancel]
  have hreports : b.reports (sn - maxNackPairSize) sn = [b.getNackPair (sn - maxNackPairSize) sn] := by
    have hstop : sn - maxNackPairSize + maxNackPairSize = sn := UInt16.sub_add_cancel _ _
    unfold reports
    simp only [hdelta]
    show [b.getNackPair (sn - maxNackPairSize + maxNackPairSize * 0)
      (sn - maxNackPairSize + maxNackPairSize * 0 + maxNackPairSize)] ++ [] = _
    rw [UInt16.mul_zero, UInt16.add_zero, hstop, List.append_nil]
  rw [getNackPairs, hreports, getNackPair_eq]
  cases hlost : b.lost (sn - maxNackPairSize) sn <;> simp

/-! ### What a push keeps -/

/-- Clearing only empties slots. -/
theorem packets_clearLoop {ts : UInt32} {i : UInt16} {q : Packet} :
    ∀ (l : List UInt16) (b : Buffer), (clearLoop ts l b).packets i = some q → b.packets i = some q
  | [], _, h => h
  | k :: rest, b, h => by
    rw [clearLoop] at h
    split at h
    next => exact packets_clearLoop rest b h
    next pkt hk =>
      split_ifs at h with hts
      · exact h
      · have hupd := packets_clearLoop rest _ h
        simp only [Function.update_apply] at hupd
        split_ifs at hupd
        exact hupd

theorem packets_clearOldPackets {b : Buffer} {ts : UInt32} {sn i : UInt16} {q : Packet}
    (h : (b.clearOldPackets ts sn).packets i = some q) : b.packets i = some q := by
  unfold clearOldPackets at h
  split_ifs at h
  · exact packets_clearLoop _ b h
  · exact h

theorem packets_setUp (b : Buffer) (p : Packet) : (b.setUp p).packets = b.packets := by
  unfold setUp
  split_ifs <;> rfl

theorem initialized_setUp (b : Buffer) (p : Packet) : (b.setUp p).initialized = true := by
  unfold setUp
  split_ifs with h
  · exact h
  · rfl

theorem nackWindowSize_setUp (b : Buffer) (p : Packet) : (b.setUp p).nackWindowSize = b.nackWindowSize := by
  unfold setUp
  split_ifs <;> rfl

theorem setUp_of_not {b : Buffer} {p : Packet} (h : b.initialized = false) :
    b.setUp p = { b with
      lastNackSN := p.sequenceNumber
      lastClearTS := p.timestamp
      lastClearSN := p.sequenceNumber - 1
      ssrc := p.ssrc
      initialized := true } := by
  rw [setUp, h]
  rfl

/-- The report only moves `lastNackSN`. -/
theorem push_fst (b : Buffer) (p : Packet) :
    (b.push p).1 = { b.store p with lastNackSN :=
      if (b.store p).nackWindowSize ≤ p.sequenceNumber - (b.store p).lastNackSN then p.sequenceNumber
      else (b.store p).lastNackSN } := by
  unfold push
  simp only
  split_ifs <;> rfl

theorem packets_push (b : Buffer) (p : Packet) : (b.push p).1.packets = (b.store p).packets := by
  rw [push_fst]

/-- What is in the buffer after a push is the packet or was there before. -/
theorem mem_push {b : Buffer} {p q : Packet} {i : UInt16} (h : (b.push p).1.packets i = some q) :
    q = p ∧ i = p.sequenceNumber ∨ b.packets i = some q := by
  rw [packets_push] at h
  have hstored := packets_clearOldPackets h
  simp only [Function.update_apply, packets_setUp] at hstored
  split_ifs at hstored with hi
  · exact Or.inl ⟨(Option.some.inj hstored).symm, hi⟩
  · exact Or.inr hstored

end Buffer

end Meeting.Jitter
