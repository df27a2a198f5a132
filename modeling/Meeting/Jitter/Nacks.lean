import Mathlib.Data.List.AList
import Meeting.Jitter.Buffer
import Meeting.Lib.Lists
import Meeting.Lib.Runs

/-!
# Meeting.Jitter.Nacks — answering NACKs from the buffers (`jitterbuffer.go`, `jitter.go`)

`JitterBuffer` has a `Buffer` for every track.  `HandleNack` looks every packet up that a NACK asks for; the packets
that are found are sent to the receiver, and a NACK for the others goes on to the sender.

* `packetList_createNackPair_filter`: the numbers of a pair that are not found make up a pair again;
* `nack_partitions`: the packets found and the NACK sent on are the two parts of the request.
-/

namespace Meeting.Jitter

open Lib

/-! ### Buffers -/

/-- The `buffers` of a `JitterBuffer`. -/
abbrev JitterBuffer := AList fun _ : UInt32 => Buffer

namespace JitterBuffer

def pushRTP (j : JitterBuffer) (p : Packet) : JitterBuffer × Option TransportLayerNack :=
  let r := ((j.lookup p.ssrc).getD Buffer.new).push p
  (j.insert p.ssrc r.1, r.2)

def getPacket (j : JitterBuffer) (ssrc : UInt32) (sn : UInt16) : Option Packet :=
  (j.lookup ssrc).bind fun buffer => buffer.getPacket sn

def removeBuffer (j : JitterBuffer) (ssrc : UInt32) : JitterBuffer := j.erase ssrc

end JitterBuffer

/-! ### NACKs -/

/-- The inner loop of `HandleNack`: the numbers that are not found, and the packets. -/
def lookUpAll (j : JitterBuffer) (ssrc : UInt32) : List UInt16 → List UInt16 × List Packet
  | [] => ([], [])
  | sn :: rest =>
    let r := lookUpAll j ssrc rest
    match j.getPacket ssrc sn with
    | none => (sn :: r.1, r.2)
    | some p => (r.1, p :: r.2)

/-- The outer loop: the pairs to send on, and the packets. -/
def handlePairs (j : JitterBuffer) (ssrc : UInt32) : List NackPair → List NackPair × List Packet
  | [] => ([], [])
  | pair :: rest =>
    let r := lookUpAll j ssrc pair.packetList
    let rs := handlePairs j ssrc rest
    (if 0 < r.1.length then createNackPair r.1 :: rs.1 else rs.1, r.2 ++ rs.2)

def handleNack (j : JitterBuffer) (nack : TransportLayerNack) : List Packet × Option TransportLayerNack :=
  let r := handlePairs j nack.mediaSSRC nack.nacks
  if r.1.length = 0 then (r.2, none) else (r.2, some ⟨nack.senderSSRC, nack.mediaSSRC, r.1⟩)

/-! ### One pair -/

/-- No packet is buffered for a number. -/
def Missing (j : JitterBuffer) (ssrc : UInt32) (sn : UInt16) : Prop := j.getPacket ssrc sn = none

instance (j : JitterBuffer) (ssrc : UInt32) : DecidablePred (Missing j ssrc) := fun sn =>
  inferInstanceAs (Decidable (j.getPacket ssrc sn = none))

theorem lookUpAll_eq (j : JitterBuffer) (ssrc : UInt32) : ∀ l : List UInt16,
    lookUpAll j ssrc l = (l.filter fun sn => Missing j ssrc sn, l.filterMap (j.getPacket ssrc))
  | [] => rfl
  | sn :: rest => by
    rw [lookUpAll, lookUpAll_eq j ssrc rest]
    unfold Missing
    cases h : j.getPacket ssrc sn <;> simp [h]

/-- The numbers of a pair are increasing ones in the window of 17 from its first. -/
theorem packetList_eq (n : NackPair) : n.packetList =
    (0 :: ((List.range 16).filter fun i => n.lostPackets.toNat.testBit i).map fun i => i + 1).map fun j =>
      n.packetID + UInt16.ofNat j := by
  rw [NackPair.packetList, List.map_cons, List.map_map]
  refine congrArg₂ List.cons (UInt16.add_zero _).symm (List.map_congr_left fun i _ => ?_)
  show n.packetID + UInt16.ofNat i + 1 = n.packetID + UInt16.ofNat (i + 1)
  rw [UInt16.ofNat_add, UInt16.add_assoc]
  rfl

/-- Some of the numbers of a pair make up a pair that lists them. -/
theorem packetList_createNackPair_filter (n : NackPair) (P : UInt16 → Prop) [DecidablePred P]
    (hne : n.packetList.filter (fun sn => P sn) ≠ []) :
    (createNackPair (n.packetList.filter fun sn => P sn)).packetList = n.packetList.filter fun sn => P sn := by
  have hfilter : n.packetList.filter (fun sn => P sn) =
      ((0 :: ((List.range 16).filter fun i => n.lostPackets.toNat.testBit i).map fun i => i + 1).filter fun j =>
        P (n.packetID + UInt16.ofNat j)).map fun j => n.packetID + UInt16.ofNat j := by
    rw [packetList_eq, List.filter_map]
    rfl
  rw [hfilter] at hne ⊢
  refine packetList_createNackPair n.packetID (List.Pairwise.filter _ ?_) ?_ ?_
  · rw [List.pairwise_cons, List.pairwise_map]
    refine ⟨fun j hj => ?_, (List.pairwise_lt_range.filter _).imp fun h => Nat.succ_lt_succ h⟩
    obtain ⟨i, -, rfl⟩ := List.mem_map.mp hj
    omega
  · intro j hj
    rcases List.mem_cons.mp (List.mem_filter.mp hj).1 with rfl | hj
    · omega
    · obtain ⟨i, hi, rfl⟩ := List.mem_map.mp hj
      have := List.mem_range.mp (List.mem_filter.mp hi).1
      omega
  · intro hnil
    exact hne (by rw [hnil, List.map_nil])

/-! ### A request -/

/-- The two parts of the requests of several pairs. -/
theorem handlePairs_spec (j : JitterBuffer) (ssrc : UInt32) : ∀ nacks : List NackPair,
    (handlePairs j ssrc nacks).1.flatMap NackPair.packetList =
        (nacks.flatMap NackPair.packetList).filter (fun sn => Missing j ssrc sn) ∧
      (handlePairs j ssrc nacks).2 = (nacks.flatMap NackPair.packetList).filterMap (j.getPacket ssrc)
  | [] => ⟨rfl, rfl⟩
  | pair :: rest => by
    obtain ⟨hnacks, hfound⟩ := handlePairs_spec j ssrc rest
    rw [handlePairs, lookUpAll_eq, List.flatMap_cons, List.filter_append, List.filterMap_append]
    refine ⟨?_, by rw [← hfound]⟩
    rw [← hnacks]
    by_cases hnil : pair.packetList.filter (fun sn => Missing j ssrc sn) = []
    · simp [hnil]
    · have hpos : 0 < (pair.packetList.filter fun sn => Missing j ssrc sn).length := List.length_pos_iff.mpr hnil
      simp only [hpos, if_true, List.flatMap_cons]
      rw [packetList_createNackPair_filter pair (Missing j ssrc) hnil]

/-- A pair always lists its first number, so that no pairs are left exactly if no numbers are. -/
theorem flatMap_packetList_eq_nil {nacks : List NackPair} :
    nacks.flatMap NackPair.packetList = [] ↔ nacks = [] := by
  constructor
  · intro h
    cases nacks with
    | nil => rfl
    | cons pair rest => simp [NackPair.packetList] at h
  · rintro rfl
    rfl

/-- What `HandleNack` returns, beside what it was asked for. -/
structure Partitions (j : JitterBuffer) (nack : TransportLayerNack) : Prop where
  packets : (handleNack j nack).1 = nack.packets.filterMap (j.getPacket nack.mediaSSRC)
  /-- No NACK goes on exactly if there is nothing that is not buffered. -/
  none_iff : (handleNack j nack).2 = none ↔ nack.packets.filter (fun sn => Missing j nack.mediaSSRC sn) = []
  forwarded : ∀ nack', (handleNack j nack).2 = some nack' →
    nack'.packets = nack.packets.filter (fun sn => Missing j nack.mediaSSRC sn) ∧
      nack'.mediaSSRC = nack.mediaSSRC ∧ nack'.senderSSRC = nack.senderSSRC

theorem partitions_handleNack (j : JitterBuffer) (nack : TransportLayerNack) : Partitions j nack := by
  obtain ⟨hnacks, hfound⟩ := handlePairs_spec j nack.mediaSSRC nack.nacks
  have hnil : (handlePairs j nack.mediaSSRC nack.nacks).1.length = 0 ↔
      nack.packets.filter (fun sn => Missing j nack.mediaSSRC sn) = [] := by
    rw [List.length_eq_zero_iff, ← flatMap_packetList_eq_nil, hnacks]
    rfl
  refine ⟨?_, ?_, ?_⟩
  · unfold handleNack
    simp only
    split_ifs <;> exact hfound
  · rw [← hnil]
    unfold handleNack
    simp only
    split_ifs with h <;> simp [h]
  · intro nack' hnack'
    unfold handleNack at hnack'
    simp only at hnack'
    split_ifs at hnack'
    obtain rfl := Option.some.inj hnack'
    exact ⟨hnacks, rfl, rfl⟩

/-! ### Runs -/

/-- The buffers, with the packets that were pushed. -/
structure System where
  jitterBuffer : JitterBuffer
  pushed : List Packet

inductive Action where
  | pushRTP (p : Packet)
  | removeBuffer (ssrc : UInt32)
  deriving DecidableEq, Repr

def step (s : System) : Action → Option System
  | .pushRTP p => some ⟨(s.jitterBuffer.pushRTP p).1, p :: s.pushed⟩
  | .removeBuffer ssrc => some { s with jitterBuffer := s.jitterBuffer.removeBuffer ssrc }

def start : System := ⟨∅, []⟩

/-- What is buffered was pushed, to the buffer of its track and at its number. -/
def Buffered (s : System) : Prop :=
  ∀ ssrc sn p, s.jitterBuffer.getPacket ssrc sn = some p →
    p ∈ s.pushed ∧ p.ssrc = ssrc ∧ p.sequenceNumber = sn

theorem buffered_start : Buffered start := by
  intro ssrc sn p h
  cases h

theorem getPacket_eq_some {j : JitterBuffer} {ssrc : UInt32} {sn : UInt16} {p : Packet} :
    j.getPacket ssrc sn = some p ↔ ∃ b, j.lookup ssrc = some b ∧ b.packets sn = some p :=
  Option.bind_eq_some_iff

/-- **Step lemma.** -/
theorem Buffered.step {s s' : System} {x : Action} (h : Buffered s) (hs : Jitter.step s x = some s') :
    Buffered s' := by
  cases x with
  | pushRTP q =>
    obtain rfl := Option.some.inj hs
    intro ssrc sn p hp
    obtain ⟨b, hb, hp⟩ := getPacket_eq_some.mp hp
    rcases lookup_insert_cases hb with ⟨rfl, rfl⟩ | ⟨-, hb⟩
    · rcases Buffer.mem_push hp with ⟨rfl, rfl⟩ | hold
      · exact ⟨List.mem_cons_self, rfl, rfl⟩
      · cases hl : s.jitterBuffer.lookup q.ssrc with
        | none =>
          rw [hl] at hold
          cases hold
        | some old =>
          rw [hl] at hold
          obtain ⟨hmem, hid⟩ := h q.ssrc sn p (getPacket_eq_some.mpr ⟨old, hl, hold⟩)
          exact ⟨List.mem_cons_of_mem _ hmem, hid⟩
    · obtain ⟨hmem, hid⟩ := h ssrc sn p (getPacket_eq_some.mpr ⟨b, hb, hp⟩)
      exact ⟨List.mem_cons_of_mem _ hmem, hid⟩
  | removeBuffer ssrc' =>
    obtain rfl := Option.some.inj hs
    intro ssrc sn p hp
    obtain ⟨b, hb, hp⟩ := getPacket_eq_some.mp hp
    exact h ssrc sn p (getPacket_eq_some.mpr ⟨b, (lookup_of_lookup_erase hb).2, hp⟩)

/-- **NACK handling partitions the request**: whatever was pushed and removed, `HandleNack` returns the packets of
the request that are buffered, in its order, each of which was pushed with this SSRC and number, and sends the rest
of the request on. -/
theorem nack_partitions {s : System} (h : Reach step anyStep start s) (nack : TransportLayerNack) :
    Partitions s.jitterBuffer nack ∧ ∀ sn p, s.jitterBuffer.getPacket nack.mediaSSRC sn = some p →
      p ∈ s.pushed ∧ p.ssrc = nack.mediaSSRC ∧ p.sequenceNumber = sn := by
  have hB : Buffered s := Reach.invariant buffered_start (fun _ _ _ hI _ hs => hI.step hs) h
  exact ⟨partitions_handleNack s.jitterBuffer nack, hB nack.mediaSSRC⟩

/-- A request over the wrap of the numbers, for one packet that is there and two that are not. -/
theorem nack_partitions_example : ∃ s, exec (guarded step anyStep) start
      [.pushRTP ⟨1, 65535, 0, []⟩, .pushRTP ⟨2, 0, 0, []⟩, .removeBuffer 2] = some s ∧
    handleNack s.jitterBuffer ⟨7, 1, [⟨65535, 0b101⟩]⟩ = ([⟨1, 65535, 0, []⟩], some ⟨7, 1, [⟨0, 0b10⟩]⟩) ∧
    Partitions s.jitterBuffer ⟨7, 1, [⟨65535, 0b101⟩]⟩ :=
  exists_exec (by decide +kernel) fun _ hs _ => (nack_partitions hs _).1

end Meeting.Jitter
