import Meeting.Jitter.Buffer
import Meeting.Lib.Runs

/-!
# Meeting.Jitter.Ring — the ring against the packets that were pushed

A stream is a buffer with the packets that were pushed to it, each with its extended sequence number, of which the
sequence number is the last 16 bits.  `cleared` follows the cursor of `clearOldPackets`: it is the extended number
after the last packet that was cleared, or the first one.

The window is that no packet is 65536 or more numbers above the last one that was cleared (`InWindow`).  Then the
ring has exactly the packets from `cleared` on (`Ring.held`), whatever their timestamps are.

* `cleared_clearLoop`: what the loop of `clearOldPackets` does over a range of extended numbers;
* `Ring.push`: the invariant, with what a push clears (`Clears`).
-/

namespace Meeting.Jitter

open Lib

/-! ### The clearing loop -/

/-- What the loop over `a, …, z - 1` has done when it stops at `m`. -/
structure Cleared (ts : UInt32) (a m z : ℕ) (b b' : Buffer) : Prop where
  le : a ≤ m ∧ m ≤ z
  old : ∀ e q, a ≤ e → e < m → b.packets (UInt16.ofNat e) = some q → maxBufferTSDelta ≤ tsDelta ts q.timestamp
  /-- It stops before the end only at a packet that is kept. -/
  young : m < z → ∃ q, b.packets (UInt16.ofNat m) = some q ∧ tsDelta ts q.timestamp < maxBufferTSDelta
  emptied : ∀ e, a ≤ e → e < m → b'.packets (UInt16.ofNat e) = none
  kept : ∀ i, (∀ e, a ≤ e → e < m → UInt16.ofNat e ≠ i) → b'.packets i = b.packets i
  /-- The cursor is at the last packet that was cleared, if any. -/
  cursor : (b'.lastClearSN = b.lastClearSN ∧ b'.lastClearTS = b.lastClearTS ∧
      ∀ e, a ≤ e → e < m → b.packets (UInt16.ofNat e) = none) ∨
    ∃ e q, a ≤ e ∧ e < m ∧ b.packets (UInt16.ofNat e) = some q ∧ b'.lastClearSN = UInt16.ofNat e ∧
      b'.lastClearTS = q.timestamp ∧ ∀ e', e < e' → e' < m → b.packets (UInt16.ofNat e') = none
  others : b'.initialized = b.initialized ∧ b'.lastNackSN = b.lastNackSN ∧
    b'.nackWindowSize = b.nackWindowSize ∧ b'.ssrc = b.ssrc

theorem Cleared.refl (ts : UInt32) {a z : ℕ} {b : Buffer} (haz : a ≤ z)
    (young : a < z → ∃ q, b.packets (UInt16.ofNat a) = some q ∧ tsDelta ts q.timestamp < maxBufferTSDelta) :
    Cleared ts a a z b b := by
  refine ⟨⟨Nat.le_refl a, haz⟩, ?_, young, ?_, fun _ _ => rfl, Or.inl ⟨rfl, rfl, ?_⟩, rfl, rfl, rfl, rfl⟩
  · intro e q h1 h2
    omega
  · intro e h1 h2
    omega
  · intro e h1 h2
    omega

/-- An empty slot is skipped. -/
theorem Cleared.skip {ts : UInt32} {a m z : ℕ} {b b' : Buffer} (h : Cleared ts (a + 1) m z b b')
    (hempty : b.packets (UInt16.ofNat a) = none) (hz : z ≤ a + 65536) : Cleared ts a m z b b' := by
  have hle := h.le
  refine ⟨⟨by omega, hle.2⟩, ?_, h.young, ?_, ?_, ?_, h.others⟩
  · intro e q h1 h2 hq
    by_cases he : e = a
    · rw [he, hempty] at hq
      cases hq
    · exact h.old e q (by omega) h2 hq
  · intro e h1 h2
    by_cases he : e = a
    · rw [he, h.kept (UInt16.ofNat a) fun e' h1' h2' heq => ?_, hempty]
      have := ofNat_inj (by omega) (by omega) heq.symm
      omega
    · exact h.emptied e (by omega) h2
  · intro i hi
    exact h.kept i fun e h1 h2 => hi e (by omega) h2
  · rcases h.cursor with ⟨hsn, hts, hnone⟩ | ⟨e, q, h1, h2, hcur⟩
    · refine Or.inl ⟨hsn, hts, fun e h1 h2 => ?_⟩
      by_cases he : e = a
      · rw [he, hempty]
      · exact hnone e (by omega) h2
    · exact Or.inr ⟨e, q, by omega, h2, hcur⟩

/-- A packet that is old enough is cleared. -/
theorem Cleared.clear {ts : UInt32} {a m z : ℕ} {b b' : Buffer} {q : Packet}
    (h : Cleared ts (a + 1) m z { b with
      lastClearTS := q.timestamp
      lastClearSN := UInt16.ofNat a
      packets := Function.update b.packets (UInt16.ofNat a) none } b')
    (hq : b.packets (UInt16.ofNat a) = some q) (hold : maxBufferTSDelta ≤ tsDelta ts q.timestamp)
    (hz : z ≤ a + 65536) : Cleared ts a m z b b' := by
  have hle := h.le
  -- the slot of `a` is not one of the later ones
  have hne : ∀ e, a < e → e < z → UInt16.ofNat e ≠ UInt16.ofNat a := by
    intro e h1 h2 heq
    have := ofNat_inj (by omega) (by omega) heq.symm
    omega
  have hupd : ∀ e, a < e → e < z →
      Function.update b.packets (UInt16.ofNat a) none (UInt16.ofNat e) = b.packets (UInt16.ofNat e) :=
    fun e h1 h2 => Function.update_of_ne (hne e h1 h2) _ _
  refine ⟨⟨by omega, hle.2⟩, ?_, ?_, ?_, ?_, ?_, h.others⟩
  · intro e q' h1 h2 hq'
    by_cases he : e = a
    · rw [he, hq, Option.some.injEq] at hq'
      exact hq' ▸ hold
    · exact h.old e q' (by omega) h2 ((hupd e (by omega) (by omega)).trans hq')
  · intro hlt
    obtain ⟨q', hq', hyoung⟩ := h.young hlt
    exact ⟨q', (hupd m (by omega) hlt).symm.trans hq', hyoung⟩
  · intro e h1 h2
    by_cases he : e = a
    · rw [he, h.kept (UInt16.ofNat a) fun e' h1' h2' => hne e' (by omega) (by omega)]
      exact Function.update_self _ _ _
    · exact h.emptied e (by omega) h2
  · intro i hi
    rw [h.kept i fun e h1 h2 => hi e (by omega) h2]
    exact Function.update_of_ne (hi a (Nat.le_refl a) (by omega)).symm _ _
  · refine Or.inr ?_
    rcases h.cursor with ⟨hsn, hts, hnone⟩ | ⟨e, q', h1, h2, hq', hsn, hts, hnone⟩
    · refine ⟨a, q, Nat.le_refl a, by omega, hq, hsn, hts, fun e' h1 h2 => ?_⟩
      exact (hupd e' h1 (by omega)).symm.trans (hnone e' (by omega) h2)
    · refine ⟨e, q', by omega, h2, (hupd e (by omega) (by omega)).symm.trans hq', hsn, hts, fun e' h1' h2' => ?_⟩
      exact (hupd e' (by omega) (by omega)).symm.trans (hnone e' h1' h2')

/-- **The loop of `clearOldPackets`** over a range of extended numbers. -/
theorem cleared_clearLoop (ts : UInt32) : ∀ (n a : ℕ) (b : Buffer), n ≤ 65536 →
    ∃ m, Cleared ts a m (a + n) b (Buffer.clearLoop ts ((List.range' a n).map UInt16.ofNat) b)
  | 0, a, b, _ => ⟨a, Cleared.refl ts (by omega) (fun h => by omega)⟩
  | n + 1, a, b, hn => by
    rw [List.range'_succ, List.map_cons, Buffer.clearLoop]
    have hend : a + (n + 1) = a + 1 + n := by omega
    rw [hend]
    cases hq : b.packets (UInt16.ofNat a) with
    | none =>
      obtain ⟨m, hm⟩ := cleared_clearLoop ts n (a + 1) b (by omega)
      exact ⟨m, hm.skip hq (by omega)⟩
    | some q =>
      simp only
      split_ifs with hts
      · exact ⟨a, Cleared.refl ts (by omega) fun _ => ⟨q, hq, hts⟩⟩
      · obtain ⟨m, hm⟩ := cleared_clearLoop ts n (a + 1)
          { b with
            lastClearTS := q.timestamp
            lastClearSN := UInt16.ofNat a
            packets := Function.update b.packets (UInt16.ofNat a) none } (by omega)
        exact ⟨m, hm.clear hq (UInt32.not_lt.mp hts) (by omega)⟩

/-! ### What a buffer holds -/

/-- The buffer has the pushed packets from `c` on, at their numbers, and nothing else. -/
def Holds (b : Buffer) (pushed : List (ℕ × Packet)) (c : ℕ) : Prop :=
  ∀ sn p, b.packets sn = some p ↔ ∃ e, (e, p) ∈ pushed ∧ c ≤ e ∧ p.sequenceNumber = sn

/-- Every packet has the last bits of its extended number. -/
def Numbered (pushed : List (ℕ × Packet)) : Prop := ∀ y ∈ pushed, y.2.sequenceNumber = UInt16.ofNat y.1

/-- In a window of the ring a slot is that of one extended number. -/
theorem Holds.packets_ofNat {b : Buffer} {pushed : List (ℕ × Packet)} {c e : ℕ} {q : Packet}
    (h : Holds b pushed c) (hnum : Numbered pushed) (hlt : ∀ y ∈ pushed, y.1 < c + 65536) (hc : c ≤ e)
    (he : e < c + 65536) : b.packets (UInt16.ofNat e) = some q ↔ (e, q) ∈ pushed := by
  rw [h]
  constructor
  · rintro ⟨e', hmem, hc', hsn⟩
    have hnum' : q.sequenceNumber = UInt16.ofNat e' := hnum _ hmem
    have heq : e' = e := ofNat_inj_of_window hc' (hlt _ hmem) hc he (hnum'.symm.trans hsn)
    exact heq ▸ hmem
  · intro hmem
    exact ⟨e, hmem, hc, hnum _ hmem⟩

/-- Storing a packet above all the others. -/
theorem Holds.store {b b' : Buffer} {pushed : List (ℕ × Packet)} {c x : ℕ} {p : Packet} (h : Holds b pushed c)
    (hnum : Numbered ((x, p) :: pushed)) (hbelow : ∀ y ∈ pushed, y.1 < x) (hc : c ≤ x) (hx : x < c + 65535)
    (hb' : b'.packets = Function.update b.packets p.sequenceNumber (some p)) :
    Holds b' ((x, p) :: pushed) c := by
  intro sn q
  have hp : p.sequenceNumber = UInt16.ofNat x := hnum (x, p) List.mem_cons_self
  rw [hb', Function.update_apply]
  split_ifs with hsn
  · constructor
    · intro hq
      obtain rfl := Option.some.inj hq
      exact ⟨x, List.mem_cons_self, hc, hsn.symm⟩
    · rintro ⟨e, hmem, he, hq⟩
      rcases List.mem_cons.mp hmem with heq | hmem
      · rw [(Prod.mk.inj heq).2]
      · -- an older packet at this slot would be a whole cycle below
        have hlt : e < x := hbelow _ hmem
        have hqe : q.sequenceNumber = UInt16.ofNat e := hnum _ (List.mem_cons_of_mem _ hmem)
        have hslot : UInt16.ofNat e = UInt16.ofNat x := hqe.symm.trans (hq.trans (hsn.trans hp))
        have := ofNat_inj (by omega) (by omega) hslot
        omega
  · rw [h]
    constructor
    · rintro ⟨e, hmem, he, hq⟩
      exact ⟨e, List.mem_cons_of_mem _ hmem, he, hq⟩
    · rintro ⟨e, hmem, he, hq⟩
      rcases List.mem_cons.mp hmem with heq | hmem
      · rw [(Prod.mk.inj heq).2] at hq
        exact absurd hq.symm hsn
      · exact ⟨e, hmem, he, hq⟩

/-- After the loop the buffer has the packets from any number on that is above what was cleared and has nothing
between itself and the end of the loop. -/
theorem Holds.clear {ts : UInt32} {a c m z : ℕ} {b b' : Buffer} {pushed : List (ℕ × Packet)}
    (h : Holds b pushed a) (hnum : Numbered pushed) (hlt : ∀ y ∈ pushed, y.1 < a + 65536)
    (hclear : Cleared ts a m z b b') (hac : a ≤ c) (hcm : c ≤ m)
    (hnone : ∀ e, c ≤ e → e < m → b.packets (UInt16.ofNat e) = none) : Holds b' pushed c := by
  intro sn q
  have hle := hclear.le
  constructor
  · intro hq
    by_cases hin : ∃ e, a ≤ e ∧ e < m ∧ UInt16.ofNat e = sn
    · obtain ⟨e, h1, h2, rfl⟩ := hin
      rw [hclear.emptied e h1 h2] at hq
      cases hq
    · rw [hclear.kept sn fun e h1 h2 heq => hin ⟨e, h1, h2, heq⟩, h] at hq
      obtain ⟨e, hmem, hae, hsn⟩ := hq
      have hem : ¬ e < m := fun hlt => hin ⟨e, hae, hlt, (hnum _ hmem).symm.trans hsn⟩
      exact ⟨e, hmem, by omega, hsn⟩
  · rintro ⟨e, hmem, hce, hsn⟩
    have hlte := hlt _ hmem
    have hslot : q.sequenceNumber = UInt16.ofNat e := hnum _ hmem
    have hb := (h.packets_ofNat hnum hlt (by omega) hlte).mpr hmem
    have hem : m ≤ e := by
      by_contra hlt'
      rw [hnone e hce (by omega)] at hb
      cases hb
    rw [← hsn, hslot, hclear.kept _ fun e' h1 h2 heq => ?_]
    · exact hb
    · have := ofNat_inj (by omega) (by omega) heq
      omega

/-! ### Streams -/

/-- A buffer, with the packets that were pushed, each after its extended number, the newest first. -/
structure Stream where
  buffer : Buffer
  pushed : List (ℕ × Packet)
  /-- The extended number after that of the last packet that was cleared; that of the first packet before one is. -/
  cleared : ℕ
  /-- The NACKs that were returned, the newest first. -/
  nacks : List TransportLayerNack

namespace Stream

def new : Stream := ⟨Buffer.new, [], 0, []⟩

/-- The number of the first packet. -/
def first (s : Stream) : ℕ := (s.pushed.map Prod.fst).getLastD 0

/-- The first packet sets the stream up: nothing was cleared before it. -/
def setUp (s : Stream) (x : ℕ × Packet) : Stream :=
  { s with
    buffer := s.buffer.setUp x.2
    cleared := if s.pushed = [] then x.1 else s.cleared }

/-- `cleared` when the buffer has become `b`: after the packet that the cursor has moved to, if it has moved. -/
def clearedBy (s : Stream) (b : Buffer) : ℕ :=
  if b.lastClearSN = s.buffer.lastClearSN then s.cleared
  else (s.pushed.find? fun y => y.2.sequenceNumber = b.lastClearSN).elim s.cleared fun y => y.1 + 1

/-- `Push` of a packet under an extended number that it can have. -/
def push (s : Stream) (x : ℕ × Packet) : Option Stream :=
  if x.2.sequenceNumber = UInt16.ofNat x.1 then
    let r := s.buffer.push x.2
    some ⟨r.1, x :: s.pushed, (s.setUp x).clearedBy r.1, r.2.toList ++ s.nacks⟩
  else none

end Stream

/-- The numbers increase, and none is 65536 or more above that of the last packet that was cleared. -/
def InWindow (s : Stream) (x : ℕ × Packet) : Prop :=
  (∀ y ∈ s.pushed, y.1 < x.1) ∧ (s.pushed = [] ∨ x.1 < s.cleared + 65535)

instance : DecidableRel InWindow := fun s x =>
  inferInstanceAs (Decidable ((∀ y ∈ s.pushed, y.1 < x.1) ∧ (s.pushed = [] ∨ x.1 < s.cleared + 65535)))

theorem Stream.push_eq_some {s s' : Stream} {x : ℕ × Packet} (h : s.push x = some s') :
    x.2.sequenceNumber = UInt16.ofNat x.1 ∧
      s' = ⟨(s.buffer.push x.2).1, x :: s.pushed, (s.setUp x).clearedBy (s.buffer.push x.2).1,
        (s.buffer.push x.2).2.toList ++ s.nacks⟩ := by
  unfold Stream.push at h
  split_ifs at h with hx
  exact ⟨hx, (Option.some.inj h).symm⟩

theorem Stream.pushed_push {s s' : Stream} {x : ℕ × Packet} (h : s.push x = some s') :
    s'.pushed = x :: s.pushed := by
  rw [(Stream.push_eq_some h).2]

theorem Stream.lastClearTS_push {s s' : Stream} {x : ℕ × Packet} (h : s.push x = some s') :
    s'.buffer.lastClearTS = (s.buffer.store x.2).lastClearTS := by
  rw [(Stream.push_eq_some h).2, Buffer.push_fst]

/-- The stream is set up for a packet above all the others. -/
structure Ready (t : Stream) (x : ℕ × Packet) : Prop where
  numbered : Numbered (x :: t.pushed)
  decreasing : t.pushed.Pairwise fun y z => z.1 < y.1
  below : ∀ y ∈ t.pushed, y.1 < x.1
  window : t.cleared ≤ x.1 ∧ x.1 < t.cleared + 65535
  cursor : t.buffer.lastClearSN + 1 = UInt16.ofNat t.cleared
  held : Holds t.buffer t.pushed t.cleared

/-- What a push has cleared, from `t.cleared` up to `c`. -/
structure Clears (t : Stream) (x : ℕ × Packet) (b : Buffer) (c : ℕ) : Prop where
  le : t.cleared ≤ c ∧ c ≤ x.1
  held : Holds b (x :: t.pushed) c
  old : ∀ y ∈ t.pushed, t.cleared ≤ y.1 → y.1 < c →
    maxBufferTSDelta ≤ tsDelta x.2.timestamp t.buffer.lastClearTS ∧
      maxBufferTSDelta ≤ tsDelta x.2.timestamp y.2.timestamp
  /-- Before a packet that is kept there is one that is not old enough. -/
  young : maxBufferTSDelta ≤ tsDelta x.2.timestamp t.buffer.lastClearTS → ∀ y ∈ t.pushed, c ≤ y.1 →
    ∃ z ∈ t.pushed, c ≤ z.1 ∧ z.1 ≤ y.1 ∧ tsDelta x.2.timestamp z.2.timestamp < maxBufferTSDelta
  cursor : (c = t.cleared ∧ b.lastClearSN = t.buffer.lastClearSN ∧ b.lastClearTS = t.buffer.lastClearTS) ∨
    ∃ y ∈ t.pushed, t.cleared ≤ y.1 ∧ c = y.1 + 1 ∧ b.lastClearSN = y.2.sequenceNumber ∧
      b.lastClearTS = y.2.timestamp
  others : b.initialized = t.buffer.initialized ∧ b.lastNackSN = t.buffer.lastNackSN ∧
    b.nackWindowSize = t.buffer.nackWindowSize ∧ b.ssrc = t.buffer.ssrc

/-- The buffer with the packet in it, before old ones are cleared. -/
def Stream.stored (t : Stream) (p : Packet) : Buffer :=
  { t.buffer with
    packets := Function.update t.buffer.packets p.sequenceNumber (some p)
    lastPushSN := p.sequenceNumber }

theorem Ready.stored {t : Stream} {x : ℕ × Packet} (h : Ready t x) :
    Holds (t.stored x.2) (x :: t.pushed) t.cleared :=
  h.held.store h.numbered h.below h.window.1 h.window.2 rfl

theorem Ready.lt_window {t : Stream} {x : ℕ × Packet} (h : Ready t x) :
    ∀ y ∈ x :: t.pushed, y.1 < t.cleared + 65536 := by
  have hwin := h.window
  intro y hy
  rcases List.mem_cons.mp hy with rfl | hy
  · omega
  · have := h.below y hy
    omega

/-- The slots of the older packets. -/
theorem Ready.packets_stored {t : Stream} {x : ℕ × Packet} {e : ℕ} {q : Packet} (h : Ready t x)
    (hc : t.cleared ≤ e) (he : e < x.1) : (t.stored x.2).packets (UInt16.ofNat e) = some q ↔ (e, q) ∈ t.pushed := by
  have hwin := h.window
  rw [h.stored.packets_ofNat h.numbered h.lt_window hc (by omega), List.mem_cons, or_iff_right]
  intro heq
  have : e = x.1 := (Prod.mk.inj heq).1
  omega

/-- The last packet that the loop cleared, as the number after it. -/
theorem Cleared.exists_cursor {ts : UInt32} {a m z : ℕ} {b b' : Buffer} (h : Cleared ts a m z b b') :
    ∃ c, a ≤ c ∧ c ≤ m ∧ (∀ e, c ≤ e → e < m → b.packets (UInt16.ofNat e) = none) ∧
      ((c = a ∧ b'.lastClearSN = b.lastClearSN ∧ b'.lastClearTS = b.lastClearTS) ∨
        ∃ e q, a ≤ e ∧ c = e + 1 ∧ b.packets (UInt16.ofNat e) = some q ∧ b'.lastClearSN = UInt16.ofNat e ∧
          b'.lastClearTS = q.timestamp) := by
  have hle := h.le
  rcases h.cursor with ⟨hsn, hts, hnone⟩ | ⟨e, q, h1, h2, hq, hsn, hts, hnone⟩
  · exact ⟨a, Nat.le_refl a, hle.1, hnone, Or.inl ⟨rfl, hsn, hts⟩⟩
  · exact ⟨e + 1, by omega, h2, hnone, Or.inr ⟨e, q, h1, rfl, hq, hsn, hts⟩⟩

/-- **What a push clears.** -/
theorem Ready.clears {t : Stream} {x : ℕ × Packet} (h : Ready t x) :
    ∃ c, Clears t x ((t.stored x.2).clearOldPackets x.2.timestamp x.2.sequenceNumber) c := by
  have hwin := h.window
  have hx : x.2.sequenceNumber = UInt16.ofNat x.1 := h.numbered x List.mem_cons_self
  unfold Buffer.clearOldPackets
  split_ifs with hts
  · -- the loop runs from the cursor to the packet
    have hcursor : (t.stored x.2).lastClearSN + 1 = UInt16.ofNat t.cleared := h.cursor
    rw [hcursor, hx, upTo_ofNat hwin.1 (by omega)]
    obtain ⟨m, hm⟩ := cleared_clearLoop x.2.timestamp (x.1 - t.cleared) t.cleared (t.stored x.2) (by omega)
    rw [Nat.add_sub_cancel' hwin.1] at hm
    have hle := hm.le
    obtain ⟨c, hac, hcm, hnone, hcur⟩ := hm.exists_cursor
    refine ⟨c, ⟨hac, by omega⟩, h.stored.clear h.numbered h.lt_window hm hac hcm hnone, ?_, ?_, ?_, hm.others⟩
    · intro y hy h1 h2
      exact ⟨hts, hm.old y.1 y.2 h1 (by omega) ((h.packets_stored h1 (h.below y hy)).mpr hy)⟩
    · intro _ y hy hcy
      have hyx := h.below y hy
      have hslot := (h.packets_stored (q := y.2) (by omega) hyx).mpr hy
      have hmy : m ≤ y.1 := by
        by_contra hym
        rw [hnone y.1 hcy (by omega)] at hslot
        cases hslot
      obtain ⟨q, hq, hyoung⟩ := hm.young (by omega)
      exact ⟨(m, q), (h.packets_stored hle.1 (by omega)).mp hq, hcm, hmy, hyoung⟩
    · rcases hcur with hsame | ⟨e, q, h1, h2, hq, hsn, hlast⟩
      · exact Or.inl hsame
      · have hmem := (h.packets_stored h1 (by omega)).mp hq
        have hqe : q.sequenceNumber = UInt16.ofNat e := h.numbered _ (List.mem_cons_of_mem _ hmem)
        exact Or.inr ⟨(e, q), hmem, h1, h2, hsn.trans hqe.symm, hlast⟩
  · refine ⟨t.cleared, ⟨Nat.le_refl _, hwin.1⟩, h.stored, ?_, ?_, Or.inl ⟨rfl, rfl, rfl⟩, rfl, rfl, rfl, rfl⟩
    · intro y _ h1 h2
      omega
    · intro hts'
      exact absurd hts' hts

/-- The newest packet of those with a property. -/
theorem le_find? {pushed : List (ℕ × Packet)} (h : pushed.Pairwise fun y z => z.1 < y.1) {P : ℕ × Packet → Bool}
    {y z : ℕ × Packet} (hz : pushed.find? P = some z) (hy : y ∈ pushed) (hP : P y = true) : y.1 ≤ z.1 := by
  obtain ⟨-, as, bs, rfl, hnot⟩ := List.find?_eq_some_iff_append.mp hz
  rcases List.mem_append.mp hy with hy | hy
  · have := hnot y hy
    simp [hP] at this
  · rcases List.mem_cons.mp hy with rfl | hy
    · exact Nat.le_refl _
    · have := List.rel_of_pairwise_cons (List.pairwise_append.mp h).2.1 hy
      omega

theorem Ready.clearedBy {t : Stream} {x : ℕ × Packet} {b : Buffer} {c : ℕ} (h : Ready t x)
    (hc : Clears t x b c) : t.clearedBy b = c := by
  have hwin := h.window
  rcases hc.cursor with ⟨rfl, hsn, -⟩ | ⟨y, hy, h1, rfl, hsn, -⟩
  · rw [Stream.clearedBy, if_pos hsn]
  · have hyx := h.below y hy
    have hnum : ∀ z ∈ t.pushed, z.2.sequenceNumber = UInt16.ofNat z.1 :=
      fun z hz => h.numbered z (List.mem_cons_of_mem _ hz)
    have hmoved : b.lastClearSN ≠ t.buffer.lastClearSN := by
      intro heq
      have hnext : UInt16.ofNat (y.1 + 1) = UInt16.ofNat t.cleared := by
        rw [UInt16.ofNat_add, ← hnum y hy, ← hsn, heq]
        exact h.cursor
      have := ofNat_inj (by omega) (by omega) hnext.symm
      omega
    rw [Stream.clearedBy, if_neg hmoved]
    cases hz : t.pushed.find? fun z => z.2.sequenceNumber = b.lastClearSN with
    | none =>
      have := List.find?_eq_none.mp hz y hy
      simp [hsn] at this
    | some z =>
      have hle := le_find? h.decreasing hz hy (by simp [hsn])
      have hmem := List.mem_of_find?_eq_some hz
      have hzx := h.below z hmem
      have hslot : UInt16.ofNat y.1 = UInt16.ofNat z.1 := by
        have hP := List.find?_some hz
        rw [← hnum y hy, ← hnum z hmem, of_decide_eq_true hP, hsn]
      have heq := ofNat_inj hle (by omega) hslot
      show z.1 + 1 = y.1 + 1
      omega

/-! ### The invariant -/

structure Ring (s : Stream) : Prop where
  numbered : Numbered s.pushed
  decreasing : s.pushed.Pairwise fun y z => z.1 < y.1
  initialized : s.buffer.initialized = true ↔ s.pushed ≠ []
  nackWindowSize : s.buffer.nackWindowSize = maxNackPairSize
  held : Holds s.buffer s.pushed s.cleared
  cursor : s.pushed ≠ [] → s.buffer.lastClearSN + 1 = UInt16.ofNat s.cleared
  /-- The newest packet is never cleared. -/
  newest : s.pushed ≠ [] → ∃ y ∈ s.pushed, s.cleared ≤ y.1
  behind : s.pushed ≠ [] → s.cleared = s.first ∨ ∃ y ∈ s.pushed, s.cleared = y.1 + 1

theorem ring_new : Ring Stream.new := by
  refine ⟨?_, List.Pairwise.nil, ⟨nofun, fun h => absurd rfl h⟩, rfl, ?_, ?_, ?_, ?_⟩
  · intro y hy
    cases hy
  · intro sn p
    refine ⟨nofun, ?_⟩
    rintro ⟨e, hmem, -⟩
    cases hmem
  · intro h
    exact absurd rfl h
  · intro h
    exact absurd rfl h
  · intro h
    exact absurd rfl h

theorem Ring.not_initialized {s : Stream} (h : Ring s) (hnil : s.pushed = []) : s.buffer.initialized = false := by
  rw [← Bool.not_eq_true, h.initialized]
  exact fun hne => hne hnil

theorem Ring.setUp_eq {s : Stream} {x : ℕ × Packet} (h : Ring s) (hne : s.pushed ≠ []) : s.setUp x = s := by
  have hbuf : s.buffer.setUp x.2 = s.buffer := by
    rw [Buffer.setUp, h.initialized.mpr hne]
    rfl
  rw [Stream.setUp, hbuf, if_neg hne]

theorem Ring.ready {s : Stream} {x : ℕ × Packet} (h : Ring s) (hwin : InWindow s x)
    (hx : x.2.sequenceNumber = UInt16.ofNat x.1) : Ready (s.setUp x) x := by
  have hnum : Numbered (x :: s.pushed) := by
    intro y hy
    rcases List.mem_cons.mp hy with rfl | hy
    · exact hx
    · exact h.numbered y hy
  by_cases hnil : s.pushed = []
  · -- the first packet
    have hcleared : (s.setUp x).cleared = x.1 := if_pos hnil
    refine ⟨hnum, h.decreasing, hwin.1, ?_, ?_, ?_⟩
    · omega
    · rw [hcleared, ← hx]
      show (s.buffer.setUp x.2).lastClearSN + 1 = x.2.sequenceNumber
      rw [Buffer.setUp_of_not (h.not_initialized hnil)]
      exact UInt16.sub_add_cancel _ _
    · intro sn p
      show (s.buffer.setUp x.2).packets sn = some p ↔ _
      rw [Buffer.packets_setUp, h.held]
      show (∃ e, (e, p) ∈ s.pushed ∧ _) ↔ ∃ e, (e, p) ∈ s.pushed ∧ _
      simp [hnil]
  · rw [h.setUp_eq hnil]
    obtain ⟨y, hy, hle⟩ := h.newest hnil
    have hyx := hwin.1 y hy
    exact ⟨hnum, h.decreasing, hwin.1, ⟨by omega, hwin.2.resolve_left hnil⟩, h.cursor hnil, h.held⟩

theorem first_cons {s s' : Stream} {x : ℕ × Packet} (h : s'.pushed = x :: s.pushed) :
    s'.first = if s.pushed = [] then x.1 else s.first := by
  unfold Stream.first
  rw [h, List.map_cons, List.getLastD_cons]
  split_ifs with hnil
  · rw [hnil]
    rfl
  · obtain ⟨y, l, hl⟩ := List.exists_cons_of_ne_nil hnil
    rw [hl, List.map_cons, List.getLastD_cons, List.getLastD_cons]

/-- The cursor is behind the first packet or one that was pushed. -/
theorem Ring.behind_push {s s' : Stream} {x : ℕ × Packet} {b : Buffer} {c : ℕ} (h : Ring s)
    (hc : Clears (s.setUp x) x b c) (hpushed : s'.pushed = x :: s.pushed) :
    c = s'.first ∨ ∃ y ∈ s'.pushed, c = y.1 + 1 := by
  rw [first_cons hpushed, hpushed]
  rcases hc.cursor with ⟨hsame, -⟩ | ⟨y, hy, -, hnext, -⟩
  · by_cases hnil : s.pushed = []
    · left
      rw [hsame, if_pos hnil]
      exact if_pos hnil
    · rw [hsame, h.setUp_eq hnil, if_neg hnil]
      rcases h.behind hnil with hfirst | ⟨y, hy, hlast⟩
      · exact Or.inl hfirst
      · exact Or.inr ⟨y, List.mem_cons_of_mem _ hy, hlast⟩
  · exact Or.inr ⟨y, List.mem_cons_of_mem _ hy, hnext⟩

/-- **Step lemma**, with what is cleared. -/
theorem Ring.push {s s' : Stream} {x : ℕ × Packet} (h : Ring s) (hwin : InWindow s x) (hs : s.push x = some s') :
    Ring s' ∧ Clears (s.setUp x) x (s.buffer.store x.2) s'.cleared := by
  obtain ⟨hx, rfl⟩ := Stream.push_eq_some hs
  have hready := h.ready hwin hx
  obtain ⟨c, hc⟩ := hready.clears
  have hbuf : (s.buffer.push x.2).1.lastClearSN = (s.buffer.store x.2).lastClearSN := by
    rw [Buffer.push_fst]
  have hcleared : (s.setUp x).clearedBy (s.buffer.push x.2).1 = c := by
    rw [Stream.clearedBy, hbuf]
    exact hready.clearedBy hc
  rw [hcleared]
  have hc' : Clears (s.setUp x) x (s.buffer.store x.2) c := hc
  refine ⟨⟨hready.numbered, List.pairwise_cons.mpr ⟨hwin.1, h.decreasing⟩, ?_, ?_, ?_, ?_, ?_, ?_⟩, hc'⟩
  · have hinit : (s.buffer.push x.2).1.initialized = true := by
      rw [Buffer.push_fst]
      exact hc'.others.1.trans (Buffer.initialized_setUp _ _)
    exact ⟨fun _ => List.cons_ne_nil _ _, fun _ => hinit⟩
  · rw [Buffer.push_fst]
    exact hc'.others.2.2.1.trans ((Buffer.nackWindowSize_setUp _ _).trans h.nackWindowSize)
  · intro sn p
    rw [Buffer.packets_push]
    exact hc'.held sn p
  · intro _
    show (s.buffer.push x.2).1.lastClearSN + 1 = UInt16.ofNat c
    rw [hbuf]
    rcases hc'.cursor with ⟨rfl, hsn, -⟩ | ⟨y, hy, -, rfl, hsn, -⟩
    · rw [hsn]
      exact hready.cursor
    · rw [hsn, h.numbered y hy, UInt16.ofNat_add]
      rfl
  · intro _
    exact ⟨x, List.mem_cons_self, hc'.le.2⟩
  · intro _
    exact h.behind_push hc' rfl

end Meeting.Jitter
