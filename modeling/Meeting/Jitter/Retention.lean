import Meeting.Jitter.Ring

/-!
# Meeting.Jitter.Retention — which packets a buffer has

With timestamps that do not decrease, the packets that are cleared are exactly those that are two seconds older than
the last one.  `clearOldPackets` looks no further than the first packet that is younger, and does not look at all
when the last packet it cleared is younger: both are right because the timestamps are in the order of the numbers.

* `Retained.push`: the step lemma;
* `retention_exact`: what `GetPacket` returns after any run.
-/

namespace Meeting.Jitter

open Lib

/-- Packets come in their order, in the window of the ring, and with timestamps in their order. -/
def InOrder (s : Stream) (x : ℕ × Packet) : Prop :=
  InWindow s x ∧ ∀ y ∈ s.pushed, y.2.timestamp ≤ x.2.timestamp

instance : DecidableRel InOrder := fun s x =>
  inferInstanceAs (Decidable (InWindow s x ∧ ∀ y ∈ s.pushed, y.2.timestamp ≤ x.2.timestamp))

theorem tsDelta_lt_iff {ts t : UInt32} (h : t ≤ ts) :
    tsDelta ts t < maxBufferTSDelta ↔ ts.toNat - t.toNat < 180000 := by
  have hle : t.toNat ≤ ts.toNat := UInt32.le_iff_toNat_le.mp h
  have hdelta : (tsDelta ts t).toNat = ts.toNat - t.toNat := by
    unfold tsDelta
    split_ifs with hgt
    · exact UInt32.toNat_sub_of_le _ _ h
    · have hge : ts ≤ t := UInt32.not_lt.mp hgt
      have hge' := UInt32.le_iff_toNat_le.mp hge
      rw [UInt32.toNat_sub_of_le _ _ hge]
      omega
  rw [UInt32.lt_iff_toNat_lt, hdelta]
  exact Iff.rfl

structure Retained (s : Stream) : Prop where
  ring : Ring s
  ordered : ∀ y ∈ s.pushed, ∀ z ∈ s.pushed, y.1 ≤ z.1 → y.2.timestamp ≤ z.2.timestamp
  /-- No packet that is there is older than the last one that was cleared. -/
  cursor : ∀ y ∈ s.pushed, s.cleared ≤ y.1 → s.buffer.lastClearTS ≤ y.2.timestamp
  young_iff : ∀ last, s.pushed.head? = some last → ∀ y ∈ s.pushed,
    s.cleared ≤ y.1 ↔ last.2.timestamp.toNat - y.2.timestamp.toNat < 180000

theorem retained_new : Retained Stream.new := by
  refine ⟨ring_new, ?_, ?_, ?_⟩
  · intro y hy
    cases hy
  · intro y hy
    cases hy
  · intro last hlast
    cases hlast

/-- When a packet is pushed, the last cleared one is not newer. -/
theorem Retained.lastClearTS_le {s : Stream} {x : ℕ × Packet} (h : Retained s) (hx : InOrder s x) :
    (s.setUp x).buffer.lastClearTS ≤ x.2.timestamp := by
  by_cases hnil : s.pushed = []
  · show (s.buffer.setUp x.2).lastClearTS ≤ _
    rw [Buffer.setUp_of_not (h.ring.not_initialized hnil)]
    exact UInt32.le_refl _
  · rw [h.ring.setUp_eq hnil]
    obtain ⟨y, hy, hle⟩ := h.ring.newest hnil
    exact UInt32.le_trans (h.cursor y hy hle) (hx.2 y hy)

/-- The packets that were there and stay are those that are young. -/
theorem Retained.old_iff {s : Stream} {x y : ℕ × Packet} {b : Buffer} {c : ℕ} (h : Retained s) (hx : InOrder s x)
    (hc : Clears (s.setUp x) x b c) (hy : y ∈ s.pushed) :
    c ≤ y.1 ↔ x.2.timestamp.toNat - y.2.timestamp.toNat < 180000 := by
  have hne : s.pushed ≠ [] := List.ne_nil_of_mem hy
  have hts := h.lastClearTS_le hx
  rw [h.ring.setUp_eq hne] at hc hts
  have hle := hc.le
  have hyx := UInt32.le_iff_toNat_le.mp (hx.2 y hy)
  constructor
  · intro hcy
    by_cases hlook : maxBufferTSDelta ≤ tsDelta x.2.timestamp s.buffer.lastClearTS
    · -- the loop stopped at a young packet, at `y` or before it
      obtain ⟨z, hz, -, hzy, hyoung⟩ := hc.young hlook y hy hcy
      rw [tsDelta_lt_iff (hx.2 z hz)] at hyoung
      have hord := UInt32.le_iff_toNat_le.mp (h.ordered z hz y hy hzy)
      omega
    · rw [UInt32.not_le, tsDelta_lt_iff hts] at hlook
      have hord := UInt32.le_iff_toNat_le.mp (h.cursor y hy (by omega))
      omega
  · intro hyoung
    by_contra hcy
    by_cases hcleared : s.cleared ≤ y.1
    · have hold := (hc.old y hy hcleared (by omega)).2
      rw [← UInt32.not_lt, tsDelta_lt_iff (hx.2 y hy)] at hold
      exact hold hyoung
    · -- cleared before, and the timestamps have not decreased since
      obtain ⟨last, rest, hpushed⟩ := List.exists_cons_of_ne_nil hne
      have hold := (h.young_iff last (by rw [hpushed, List.head?_cons]) y hy).not.mp hcleared
      have hlast := UInt32.le_iff_toNat_le.mp (hx.2 last (by rw [hpushed]; exact List.mem_cons_self))
      omega

/-- **Step lemma.** -/
theorem Retained.push {s s' : Stream} {x : ℕ × Packet} (h : Retained s) (hx : InOrder s x)
    (hs : s.push x = some s') : Retained s' := by
  obtain ⟨hring, hc⟩ := h.ring.push hx.1 hs
  have hpushed := Stream.pushed_push hs
  have hts := Stream.lastClearTS_push hs
  have hle := hc.le
  refine ⟨hring, ?_, ?_, ?_⟩
  · rw [hpushed]
    intro y hy z hz hyz
    rcases List.mem_cons.mp hz with rfl | hz'
    · rcases List.mem_cons.mp hy with rfl | hy
      · exact UInt32.le_refl _
      · exact hx.2 y hy
    · rcases List.mem_cons.mp hy with rfl | hy
      · have := hx.1.1 z hz'
        omega
      · exact h.ordered y hy z hz' hyz
  · rw [hpushed, hts]
    intro y hy hcy
    rcases hc.cursor with ⟨hsame, -, hlast⟩ | ⟨y₀, hy₀, -, hnext, -, hlast⟩
    · rw [hlast]
      rcases List.mem_cons.mp hy with rfl | hy
      · exact h.lastClearTS_le hx
      · rw [h.ring.setUp_eq (List.ne_nil_of_mem hy)] at hsame ⊢
        exact h.cursor y hy (by omega)
    · rw [hlast]
      rcases List.mem_cons.mp hy with rfl | hy
      · exact hx.2 y₀ hy₀
      · exact h.ordered y₀ hy₀ y hy (by omega)
  · rw [hpushed]
    intro last hlast y hy
    obtain rfl : x = last := Option.some.inj hlast
    rcases List.mem_cons.mp hy with rfl | hy
    · exact ⟨fun _ => by omega, fun _ => hle.2⟩
    · exact h.old_iff hx hc hy

/-- **Exact retention**: after any run, `GetPacket` returns the packet of a number that was pushed within two seconds
of the last one, and nothing for the other numbers. -/
theorem retention_exact {s : Stream} (h : Reach Stream.push InOrder Stream.new s) {last : ℕ × Packet}
    (hlast : s.pushed.head? = some last) (sn : UInt16) (p : Packet) :
    s.buffer.getPacket sn = some p ↔ ∃ e, (e, p) ∈ s.pushed ∧ p.sequenceNumber = sn ∧
      last.2.timestamp.toNat - p.timestamp.toNat < 180000 := by
  have hR : Retained s := Reach.invariant retained_new (fun _ _ _ hI hx hs => hI.push hx hs) h
  show s.buffer.packets sn = some p ↔ _
  rw [hR.ring.held]
  constructor
  · rintro ⟨e, hmem, hc, hsn⟩
    exact ⟨e, hmem, hsn, (hR.young_iff last hlast _ hmem).mp hc⟩
  · rintro ⟨e, hmem, hsn, hyoung⟩
    exact ⟨e, hmem, (hR.young_iff last hlast _ hmem).mpr hyoung, hsn⟩

/-- Over the wrap of the ring: number 65535 is two seconds old and gone, and slot 0 is that of the next cycle. -/
theorem retention_exact_example : ∃ s, exec (guarded Stream.push InOrder) Stream.new
      [(65535, ⟨1, 65535, 0, []⟩), (65536, ⟨1, 0, 90000, []⟩), (65539, ⟨1, 3, 180000, []⟩)] = some s ∧
    (s.pushed.head? = some (65539, ⟨1, 3, 180000, []⟩) ∧ s.buffer.getPacket 0 = some ⟨1, 0, 90000, []⟩ ∧
      s.buffer.getPacket 65535 = none) ∧
    ∀ sn p, s.buffer.getPacket sn = some p ↔ ∃ e, (e, p) ∈ s.pushed ∧ p.sequenceNumber = sn ∧
      (180000 : UInt32).toNat - p.timestamp.toNat < 180000 :=
  exists_exec (by decide +kernel) fun _ hs hP => retention_exact hs hP.1

end Meeting.Jitter
