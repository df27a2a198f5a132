import Meeting.Jitter.Ring

/-!
# Meeting.Jitter.Reports — what the NACKs of a buffer ask for

A push that is 17 numbers or more after the last report asks for the empty slots of the 17 numbers before it.  A slot
is empty because its packet has not come, or because it was cleared.

* `Spanned`: a run of fewer than 65536 numbers, where a slot is that of one number;
* `mem_requested`: what a report asks for, in extended numbers;
* `asks_for_lost_iff`: a report asks only for packets that have not come exactly if none of the window was cleared,
  by an earlier push or by this one (`Spares`);
* `reported_once`: with nothing cleared, every packet that has not come is asked for once, as long as all packets
  between the last report and the window have come (`Covers`).
-/

namespace Meeting.Jitter

open Lib

/-! ### The numbers of a report -/

/-- The numbers that a push asks for. -/
def requested (r : Option TransportLayerNack) : List UInt16 := r.elim [] TransportLayerNack.packets

theorem requested_push {b : Buffer} {p : Packet} (hw : (b.store p).nackWindowSize = maxNackPairSize) :
    requested (b.push p).2 = if maxNackPairSize ≤ p.sequenceNumber - (b.store p).lastNackSN
      then (b.store p).lost (p.sequenceNumber - maxNackPairSize) p.sequenceNumber else [] := by
  have hwindow : (p.sequenceNumber - (p.sequenceNumber - maxNackPairSize)).toNat ≤ 17 := by
    rw [UInt16.sub_eq_iff_eq_add.mpr
      (show p.sequenceNumber = maxNackPairSize + (p.sequenceNumber - maxNackPairSize) by
        rw [UInt16.add_comm, UInt16.sub_add_cancel])]
    exact Nat.le_refl 17
  unfold Buffer.push
  simp only [hw, Buffer.getNackPairs_window]
  split_ifs with hrep hpos hlost
  · rw [hlost] at hpos
    exact absurd hpos (Nat.lt_irrefl 0)
  · show List.flatMap NackPair.packetList [_] = _
    rw [List.flatMap_singleton]
    exact Buffer.packetList_lost _ hwindow hlost
  · have hnil := List.length_eq_zero_iff.mp (Nat.eq_zero_of_not_pos hpos)
    rw [hnil]
    rfl
  · rfl

/-- The number of NACKs that ask for a packet, when one more may have been returned. -/
theorem countP_toList_append (r : Option TransportLayerNack) (l : List TransportLayerNack) (n : UInt16) :
    (r.toList ++ l).countP (fun nack => n ∈ nack.packets) =
      (if n ∈ requested r then 1 else 0) + l.countP fun nack => n ∈ nack.packets := by
  cases r with
  | none => simp [requested]
  | some nack =>
    rw [Option.toList_some, List.cons_append, List.nil_append, List.countP_cons, Nat.add_comm]
    by_cases hn : n ∈ nack.packets <;> simp [requested, hn]

/-! ### Runs within one cycle of the ring -/

/-- The numbers increase, and fewer than 65536 are spanned. -/
def Span (s : Stream) (x : ℕ × Packet) : Prop := ∀ y ∈ s.pushed, y.1 < x.1 ∧ x.1 < y.1 + 65535

instance : DecidableRel Span := fun s x =>
  inferInstanceAs (Decidable (∀ y ∈ s.pushed, y.1 < x.1 ∧ x.1 < y.1 + 65535))

/-- `lastNackSN`, as an extended number from the first one on. -/
def Stream.lastNack (s : Stream) : ℕ := s.first + (s.buffer.lastNackSN - UInt16.ofNat s.first).toNat

/-- The push makes a report. -/
def Reports (s : Stream) (x : ℕ × Packet) : Prop := s.pushed ≠ [] ∧ s.lastNack + 17 ≤ x.1

instance : DecidableRel Reports := fun s x =>
  inferInstanceAs (Decidable (s.pushed ≠ [] ∧ s.lastNack + 17 ≤ x.1))

structure Spanned (s : Stream) : Prop where
  ring : Ring s
  first : s.pushed ≠ [] → ∃ y ∈ s.pushed, y.1 = s.first
  span : ∀ y ∈ s.pushed, s.first ≤ y.1 ∧ y.1 < s.first + 65535
  lastNack : s.pushed ≠ [] → ∃ y ∈ s.pushed, y.1 = s.lastNack

theorem spanned_new : Spanned Stream.new := by
  refine ⟨ring_new, fun h => absurd rfl h, ?_, fun h => absurd rfl h⟩
  intro y hy
  cases hy

theorem ofNat_lastNack (s : Stream) : UInt16.ofNat s.lastNack = s.buffer.lastNackSN := by
  rw [Stream.lastNack, UInt16.ofNat_add, UInt16.ofNat_toNat, UInt16.add_comm, UInt16.sub_add_cancel]

theorem lastNack_of_eq {s : Stream} {x : ℕ} (hf : s.first ≤ x) (hx : x < s.first + 65536)
    (hsn : s.buffer.lastNackSN = UInt16.ofNat x) : s.lastNack = x := by
  rw [Stream.lastNack, hsn, toNat_sub_ofNat hf hx]
  omega

/-- The packet is in the cycle of the first one. -/
theorem Spanned.first_le {s : Stream} {x : ℕ × Packet} (h : Spanned s) (hx : Span s x) (hne : s.pushed ≠ []) :
    s.first < x.1 ∧ x.1 < s.first + 65535 := by
  obtain ⟨y, hy, hfirst⟩ := h.first hne
  have := hx y hy
  omega

theorem Spanned.inWindow {s : Stream} {x : ℕ × Packet} (h : Spanned s) (hx : Span s x) : InWindow s x := by
  refine ⟨fun y hy => (hx y hy).1, ?_⟩
  by_cases hne : s.pushed = []
  · exact Or.inl hne
  · right
    have hfirst := h.first_le hx hne
    rcases h.ring.behind hne with hcleared | ⟨y, hy, hcleared⟩
    · omega
    · have := h.span y hy
      omega

/-- The last report is that of a packet of the run. -/
theorem Spanned.lastNack_span {s : Stream} (h : Spanned s) (hne : s.pushed ≠ []) :
    s.first ≤ s.lastNack ∧ s.lastNack < s.first + 65535 := by
  obtain ⟨y, hy, hlast⟩ := h.lastNack hne
  rw [← hlast]
  exact h.span y hy

theorem Spanned.lastNack_lt {s : Stream} {x : ℕ × Packet} (h : Spanned s) (hx : Span s x) (hne : s.pushed ≠ []) :
    s.lastNack < x.1 := by
  obtain ⟨y, hy, hlast⟩ := h.lastNack hne
  rw [← hlast]
  exact (hx y hy).1

theorem Spanned.nackWindowSize_store {s : Stream} {x : ℕ × Packet} {c : ℕ} (h : Spanned s)
    (hc : Clears (s.setUp x) x (s.buffer.store x.2) c) :
    (s.buffer.store x.2).nackWindowSize = maxNackPairSize := by
  rw [hc.others.2.2.1]
  exact (Buffer.nackWindowSize_setUp _ _).trans h.ring.nackWindowSize

/-- The code's test for a report. -/
theorem Spanned.reports_iff {s : Stream} {x : ℕ × Packet} (h : Spanned s) (hx : Span s x)
    (hsn : x.2.sequenceNumber = UInt16.ofNat x.1) :
    maxNackPairSize ≤ x.2.sequenceNumber - (s.setUp x).buffer.lastNackSN ↔ Reports s x := by
  by_cases hne : s.pushed = []
  · have hlast : (s.setUp x).buffer.lastNackSN = x.2.sequenceNumber := by
      show (s.buffer.setUp x.2).lastNackSN = _
      rw [Buffer.setUp_of_not (h.ring.not_initialized hne)]
    rw [hlast, UInt16.sub_self]
    exact ⟨fun hle => absurd hle (by decide), fun hr => absurd hne hr.1⟩
  · have hfirst := h.first_le hx hne
    have hspan := h.lastNack_span hne
    have hlt := h.lastNack_lt hx hne
    have hdelta : (x.2.sequenceNumber - s.buffer.lastNackSN).toNat = x.1 - s.lastNack := by
      rw [hsn, ← ofNat_lastNack, toNat_sub_ofNat (by omega) (by omega)]
    rw [h.ring.setUp_eq hne, UInt16.le_iff_toNat_le, hdelta]
    constructor
    · intro hle
      have hle' : 17 ≤ x.1 - s.lastNack := hle
      exact ⟨hne, by omega⟩
    · rintro ⟨-, hle⟩
      show 17 ≤ x.1 - s.lastNack
      omega

theorem Spanned.lastNackSN_push {s s' : Stream} {x : ℕ × Packet} (h : Spanned s) (hx : Span s x)
    (hs : s.push x = some s') :
    s'.buffer.lastNackSN = if Reports s x then UInt16.ofNat x.1 else (s.setUp x).buffer.lastNackSN := by
  obtain ⟨hsn, rfl⟩ := Stream.push_eq_some hs
  have hc := (h.ring.push (h.inWindow hx) hs).2
  show (s.buffer.push x.2).1.lastNackSN = _
  rw [Buffer.push_fst]
  show (if _ then _ else (s.buffer.store x.2).lastNackSN) = _
  rw [h.nackWindowSize_store hc, hc.others.2.1, ← hsn]
  by_cases hr : Reports s x
  · rw [if_pos ((h.reports_iff hx hsn).mpr hr), if_pos hr]
  · rw [if_neg fun hle => hr ((h.reports_iff hx hsn).mp hle), if_neg hr]

/-- The first number stays, and the last report is that of this push or the one before. -/
theorem Spanned.push_first {s s' : Stream} {x : ℕ × Packet} (h : Spanned s) (hx : Span s x)
    (hs : s.push x = some s') : s'.pushed = x :: s.pushed ∧ s'.first = (if s.pushed = [] then x.1 else s.first) ∧
      s'.lastNack = if s.pushed = [] ∨ Reports s x then x.1 else s.lastNack := by
  have hpushed := Stream.pushed_push hs
  have hsn := (Stream.push_eq_some hs).1
  have hlast := h.lastNackSN_push hx hs
  have hfirst := first_cons hpushed
  refine ⟨hpushed, hfirst, ?_⟩
  by_cases hnil : s.pushed = []
  · rw [if_pos hnil] at hfirst
    rw [if_pos (Or.inl hnil)]
    have hr : ¬ Reports s x := fun hr => hr.1 hnil
    refine lastNack_of_eq (by omega) (by omega) ?_
    rw [hlast, if_neg hr, ← hsn]
    show (s.buffer.setUp x.2).lastNackSN = _
    rw [Buffer.setUp_of_not (h.ring.not_initialized hnil)]
  · rw [if_neg hnil] at hfirst
    have hle := h.first_le hx hnil
    by_cases hr : Reports s x
    · rw [if_pos (Or.inr hr)]
      refine lastNack_of_eq (by omega) (by omega) ?_
      rw [hlast, if_pos hr]
    · rw [if_neg (not_or_intro hnil hr), Stream.lastNack, hfirst, hlast, if_neg hr, h.ring.setUp_eq hnil]
      rfl

/-- **Step lemma.** -/
theorem Spanned.push {s s' : Stream} {x : ℕ × Packet} (h : Spanned s) (hx : Span s x) (hs : s.push x = some s') :
    Spanned s' := by
  obtain ⟨hpushed, hfirst, hlast⟩ := h.push_first hx hs
  refine ⟨(h.ring.push (h.inWindow hx) hs).1, ?_, ?_, ?_⟩
  · intro _
    rw [hpushed, hfirst]
    split_ifs with hnil
    · exact ⟨x, List.mem_cons_self, rfl⟩
    · obtain ⟨y, hy, heq⟩ := h.first hnil
      exact ⟨y, List.mem_cons_of_mem _ hy, heq⟩
  · rw [hpushed, hfirst]
    intro y hy
    split_ifs with hnil
    · rw [hnil, List.mem_singleton] at hy
      rw [hy]
      omega
    · rcases List.mem_cons.mp hy with rfl | hy
      · have := h.first_le hx hnil
        omega
      · exact h.span y hy
  · intro _
    rw [hpushed, hlast]
    split_ifs with hnew
    · exact ⟨x, List.mem_cons_self, rfl⟩
    · obtain ⟨y, hy, heq⟩ := h.lastNack fun hnil => hnew (Or.inl hnil)
      exact ⟨y, List.mem_cons_of_mem _ hy, heq⟩

/-- The slot of a number of the cycle is empty if its packet has not come, or is cleared. -/
theorem Spanned.packets_eq_none {s : Stream} {x : ℕ × Packet} {b : Buffer} {c e : ℕ} (h : Spanned s)
    (hx : Span s x) (hne : s.pushed ≠ []) (hsn : x.2.sequenceNumber = UInt16.ofNat x.1)
    (hb : Holds b (x :: s.pushed) c) (hf : s.first ≤ e) (he : e < x.1) :
    b.packets (UInt16.ofNat e) = none ↔ ∀ y ∈ s.pushed, y.1 = e → e < c := by
  have hfirst := h.first_le hx hne
  constructor
  · rintro hnone y hy rfl
    by_contra hc
    have hslot := (hb (UInt16.ofNat y.1) y.2).mpr
      ⟨y.1, List.mem_cons_of_mem _ hy, by omega, h.ring.numbered y hy⟩
    rw [hnone] at hslot
    cases hslot
  · intro hall
    rw [Option.eq_none_iff_forall_ne_some]
    intro q hq
    obtain ⟨e', hmem, hc, hslot⟩ := (hb _ q).mp hq
    rcases List.mem_cons.mp hmem with rfl | hmem
    · have := ofNat_inj (by omega) (by omega) (hslot.symm.trans hsn)
      omega
    · have hspan := h.span _ hmem
      have hq' : q.sequenceNumber = UInt16.ofNat e' := h.ring.numbered _ hmem
      have heq : e = e' := ofNat_inj_of_window hf (by omega) hspan.1 (by omega) (hslot.symm.trans hq')
      have := hall _ hmem heq.symm
      omega

/-- **What a push asks for.** -/
theorem Spanned.mem_requested {s s' : Stream} {x : ℕ × Packet} {n : UInt16} (h : Spanned s) (hx : Span s x)
    (hs : s.push x = some s') : n ∈ requested (s.buffer.push x.2).2 ↔
      Reports s x ∧ ∃ e, x.1 ≤ e + 17 ∧ e < x.1 ∧ UInt16.ofNat e = n ∧ ∀ y ∈ s.pushed, y.1 = e → e < s'.cleared := by
  have hsn := (Stream.push_eq_some hs).1
  have hc := (h.ring.push (h.inWindow hx) hs).2
  rw [requested_push (h.nackWindowSize_store hc), hc.others.2.1]
  by_cases hr : Reports s x
  · rw [if_pos ((h.reports_iff hx hsn).mpr hr), Buffer.lost, List.mem_filter, decide_eq_true_eq]
    have hspan := h.lastNack_span hr.1
    have hfirst := h.first_le hx hr.1
    have hle := hr.2
    have hstart : x.2.sequenceNumber - maxNackPairSize = UInt16.ofNat (x.1 - 17) := by
      rw [hsn, UInt16.ofNat_sub (by omega)]
      rfl
    have hupTo : upTo (x.2.sequenceNumber - maxNackPairSize) x.2.sequenceNumber =
        (List.range' (x.1 - 17) 17).map UInt16.ofNat := by
      rw [hstart, hsn, upTo_ofNat (by omega) (by omega), Nat.sub_sub_self (by omega)]
    have hslot : ∀ e, x.1 ≤ e + 17 → e < x.1 → ((s.buffer.store x.2).packets (UInt16.ofNat e) = none ↔
        ∀ y ∈ s.pushed, y.1 = e → e < s'.cleared) :=
      fun e h1 h2 => h.packets_eq_none hx hr.1 hsn hc.held (by omega) h2
    rw [hupTo, List.mem_map, and_iff_right hr]
    constructor
    · rintro ⟨⟨e, he, rfl⟩, hnone⟩
      have hrange := List.mem_range'_1.mp he
      exact ⟨e, by omega, by omega, rfl, (hslot e (by omega) (by omega)).mp hnone⟩
    · rintro ⟨e, h1, h2, rfl, hall⟩
      exact ⟨⟨e, List.mem_range'_1.mpr (by omega), rfl⟩, (hslot e h1 h2).mpr hall⟩
  · rw [if_neg fun hle => hr ((h.reports_iff hx hsn).mp hle)]
    exact ⟨fun hn => absurd hn List.not_mem_nil, fun hn => absurd hn.1 hr⟩

/-! ### Asking only for what has not come -/

/-- The numbers that a push asks for are between the first one and its own, and have not come. -/
def AsksForLost (s : Stream) (x : ℕ × Packet) : Prop :=
  ∀ n ∈ requested (s.buffer.push x.2).2, ∃ e < x.1, s.first ≤ e ∧ UInt16.ofNat e = n ∧ ∀ y ∈ s.pushed, y.1 ≠ e

instance : DecidableRel AsksForLost := fun s x =>
  inferInstanceAs (Decidable (∀ n ∈ requested (s.buffer.push x.2).2,
    ∃ e < x.1, s.first ≤ e ∧ UInt16.ofNat e = n ∧ ∀ y ∈ s.pushed, y.1 ≠ e))

/-- No packet of the 17 numbers before this one was cleared, and none is by this push: it does not look for old
packets, or finds a young one at or before every packet of these numbers. -/
def Spares (s : Stream) (x : ℕ × Packet) : Prop :=
  s.cleared + 17 ≤ x.1 ∧
    (tsDelta x.2.timestamp s.buffer.lastClearTS < maxBufferTSDelta ∨
      ∀ y ∈ s.pushed, x.1 ≤ y.1 + 17 →
        ∃ z ∈ s.pushed, s.cleared ≤ z.1 ∧ z.1 ≤ y.1 ∧ tsDelta x.2.timestamp z.2.timestamp < maxBufferTSDelta)

instance : DecidableRel Spares := fun s x =>
  inferInstanceAs (Decidable (s.cleared + 17 ≤ x.1 ∧
    (tsDelta x.2.timestamp s.buffer.lastClearTS < maxBufferTSDelta ∨
      ∀ y ∈ s.pushed, x.1 ≤ y.1 + 17 →
        ∃ z ∈ s.pushed, s.cleared ≤ z.1 ∧ z.1 ≤ y.1 ∧ tsDelta x.2.timestamp z.2.timestamp < maxBufferTSDelta)))

/-- The packets of the window stay exactly if the push spares them. -/
theorem Spanned.spares_iff {s s' : Stream} {x : ℕ × Packet} (h : Spanned s) (hx : Span s x)
    (hs : s.push x = some s') (hr : Reports s x) :
    (∀ y ∈ s.pushed, x.1 ≤ y.1 + 17 → s'.cleared ≤ y.1) ↔ Spares s x := by
  have hc := (h.ring.push (h.inWindow hx) hs).2
  rw [h.ring.setUp_eq hr.1] at hc
  have hle := hc.le
  have hreport := hr.2
  have hspan := h.lastNack_span hr.1
  constructor
  · intro hstay
    refine ⟨?_, ?_⟩
    · -- the last packet that was cleared would be one of the window
      by_contra hgt
      rcases h.ring.behind hr.1 with hfirst | ⟨y, hy, hnext⟩
      · omega
      · have := hstay y hy (by omega)
        omega
    · by_cases hlook : tsDelta x.2.timestamp s.buffer.lastClearTS < maxBufferTSDelta
      · exact Or.inl hlook
      · refine Or.inr fun y hy hwindow => ?_
        obtain ⟨z, hz, h1, h2, hyoung⟩ := hc.young (UInt32.not_lt.mp hlook) y hy (hstay y hy hwindow)
        exact ⟨z, hz, by omega, h2, hyoung⟩
  · rintro ⟨hcursor, hspare⟩ y hy hwindow
    by_contra hgt
    obtain ⟨hlook, -⟩ := hc.old y hy (by omega) (by omega)
    obtain ⟨z, hz, h1, h2, hyoung⟩ := hspare.resolve_left (UInt32.not_lt.mpr hlook) y hy hwindow
    exact UInt32.not_lt.mpr (hc.old z hz h1 (by omega)).2 hyoung

/-- **When a NACK asks only for packets that have not come**: in every run, exactly if the push makes no report or
spares the packets of the window. -/
theorem asks_for_lost_iff {s s' : Stream} {x : ℕ × Packet} (h : Reach Stream.push Span Stream.new s)
    (hx : Span s x) (hs : s.push x = some s') : AsksForLost s x ↔ (Reports s x → Spares s x) := by
  have hS : Spanned s := Reach.invariant spanned_new (fun _ _ _ hI hx hs => hI.push hx hs) h
  constructor
  · intro hasks hr
    refine (hS.spares_iff hx hs hr).mp fun y hy hwindow => ?_
    by_contra hgt
    have hyx := (hx y hy).1
    have hspan := hS.span y hy
    have hfirst := hS.first_le hx hr.1
    obtain ⟨e, he, hf, hslot, hlost⟩ := hasks (UInt16.ofNat y.1)
      ((hS.mem_requested hx hs).mpr ⟨hr, y.1, hwindow, hyx, rfl, fun _ _ _ => by omega⟩)
    exact hlost y hy (ofNat_inj_of_window hf (by omega) hspan.1 (by omega) hslot).symm
  · intro hspare n hn
    obtain ⟨hr, e, h1, h2, hslot, hall⟩ := (hS.mem_requested hx hs).mp hn
    have hstay := (hS.spares_iff hx hs hr).mpr (hspare hr)
    have hspan := hS.lastNack_span hr.1
    have hreport := hr.2
    refine ⟨e, h2, by omega, hslot, ?_⟩
    rintro y hy rfl
    have := hall y hy rfl
    have := hstay y hy h1
    omega

/-- Seventeen packets of one picture, and one that is two seconds later. -/
def pause : List (ℕ × Packet) := (List.range 17).map fun e => (e, ⟨1, UInt16.ofNat e, 0, []⟩)

theorem asks_for_lost_iff_example : ∃ s, exec (guarded Stream.push Span) Stream.new pause = some s ∧
    (Span s (18, ⟨1, 18, 90000, []⟩) ∧ (s.push (18, ⟨1, 18, 90000, []⟩)).isSome ∧
      requested (s.buffer.push ⟨1, 18, 90000, []⟩).2 = [17]) ∧
    (AsksForLost s (18, ⟨1, 18, 90000, []⟩) ↔
      (Reports s (18, ⟨1, 18, 90000, []⟩) → Spares s (18, ⟨1, 18, 90000, []⟩))) :=
  exists_exec (by decide +kernel) fun _ hs hP => by
    obtain ⟨s', hs'⟩ := Option.isSome_iff_exists.mp hP.2.1
    exact asks_for_lost_iff hs hP.1 hs'

/-- The packets have all come, but the last push clears them before it looks for empty slots. -/
theorem asks_for_received : ∃ s, exec (guarded Stream.push Span) Stream.new pause = some s ∧
    (Span s (17, ⟨1, 17, 180000, []⟩) ∧ s.pushed = pause.reverse ∧
      requested (s.buffer.push ⟨1, 17, 180000, []⟩).2 = (List.range 17).map UInt16.ofNat) ∧
    ¬ AsksForLost s (17, ⟨1, 17, 180000, []⟩) := by
  refine exists_exec (by decide +kernel) fun s _ hP hasks => ?_
  obtain ⟨-, hpushed, hreq⟩ := hP
  have hzero : 0 ∈ requested (s.buffer.push ⟨1, 17, 180000, []⟩).2 := by
    rw [hreq]
    decide
  obtain ⟨e, he, -, -, hlost⟩ := hasks 0 hzero
  refine hlost (e, ⟨1, UInt16.ofNat e, 0, []⟩) ?_ rfl
  rw [hpushed, List.mem_reverse]
  exact List.mem_map.mpr ⟨e, List.mem_range.mpr he, rfl⟩

/-! ### Asking once -/

/-- Packets come less than 17 numbers apart, in the cycle of the first one, with one timestamp. -/
def Steady (s : Stream) (x : ℕ × Packet) : Prop :=
  Span s x ∧ (∀ y ∈ s.pushed.head?, x.1 < y.1 + 17) ∧ ∀ y ∈ s.pushed, y.2.timestamp = x.2.timestamp

instance : DecidableRel Steady := fun s x =>
  inferInstanceAs (Decidable (Span s x ∧ (∀ y ∈ s.pushed.head?, x.1 < y.1 + 17) ∧
    ∀ y ∈ s.pushed, y.2.timestamp = x.2.timestamp))

/-- The number of NACKs so far that ask for a packet. -/
def Stream.asked (s : Stream) (e : ℕ) : ℕ := s.nacks.countP fun nack => UInt16.ofNat e ∈ nack.packets

/-- Every packet from the first one to the last report that has not come was asked for once. -/
def Reported (s : Stream) : Prop :=
  s.pushed ≠ [] → ∀ e, s.first ≤ e → e ≤ s.lastNack → (∀ y ∈ s.pushed, y.1 ≠ e) → s.asked e = 1

/-- When the push makes a report, every packet from the last report to the window has come. -/
def Covers (s : Stream) (x : ℕ × Packet) : Prop :=
  Reports s x → ∀ e < x.1 - 17, s.lastNack ≤ e → ∃ y ∈ s.pushed, y.1 = e

instance : DecidableRel Covers := fun s x =>
  inferInstanceAs (Decidable (Reports s x → ∀ e < x.1 - 17, s.lastNack ≤ e → ∃ y ∈ s.pushed, y.1 = e))

/-- Nothing was cleared, and no NACK asks for what is after the last report. -/
structure Kept (s : Stream) : Prop where
  spanned : Spanned s
  cleared : s.pushed ≠ [] → s.cleared = s.first
  timestamps : ∀ y ∈ s.pushed, y.2.timestamp = s.buffer.lastClearTS
  fresh : s.pushed = [] → s.nacks = []
  nacks : ∀ nack ∈ s.nacks, ∀ n ∈ nack.packets, ∃ e, s.first ≤ e ∧ e < s.lastNack ∧ UInt16.ofNat e = n

theorem kept_new : Kept Stream.new := by
  refine ⟨spanned_new, fun h => absurd rfl h, ?_, fun _ => rfl, ?_⟩
  · intro y hy
    cases hy
  · intro nack hnack
    cases hnack

/-- With one timestamp nothing is cleared. -/
theorem Kept.push_cleared {s s' : Stream} {x : ℕ × Packet} (h : Kept s) (hx : Steady s x)
    (hs : s.push x = some s') : s'.cleared = (s.setUp x).cleared ∧
      s'.buffer.lastClearTS = (s.setUp x).buffer.lastClearTS := by
  have hc := (h.spanned.ring.push (h.spanned.inWindow hx.1) hs).2
  have hts := Stream.lastClearTS_push hs
  rcases hc.cursor with ⟨hsame, -, hlast⟩ | ⟨y, hy, hle, hnext, -⟩
  · exact ⟨hsame, hts.trans hlast⟩
  · have hold := (hc.old y hy hle (by omega)).2
    rw [hx.2.2 y hy] at hold
    have hzero : tsDelta x.2.timestamp x.2.timestamp = 0 := by
      unfold tsDelta
      rw [UInt32.sub_self, ite_self]
    rw [hzero] at hold
    exact absurd hold (by decide)

theorem Kept.mem_requested {s s' : Stream} {x : ℕ × Packet} {e : ℕ} (h : Kept s) (hx : Steady s x)
    (hs : s.push x = some s') (hf : s.first ≤ e) (he : e < s.first + 65536) :
    UInt16.ofNat e ∈ requested (s.buffer.push x.2).2 ↔
      Reports s x ∧ x.1 ≤ e + 17 ∧ e < x.1 ∧ ∀ y ∈ s.pushed, y.1 ≠ e := by
  rw [h.spanned.mem_requested hx.1 hs]
  refine and_congr_right fun hr => ?_
  have hcleared : s'.cleared = s.first := by
    rw [(h.push_cleared hx hs).1, h.spanned.ring.setUp_eq hr.1, h.cleared hr.1]
  have hspan := h.spanned.lastNack_span hr.1
  have hfirst := h.spanned.first_le hx.1 hr.1
  have hreport := hr.2
  constructor
  · rintro ⟨e', h1, h2, hslot, hall⟩
    have heq : e' = e := ofNat_inj_of_window (by omega) (by omega) hf he hslot
    rw [heq] at h1 h2 hall
    refine ⟨h1, h2, fun y hy hye => ?_⟩
    have := hall y hy hye
    omega
  · rintro ⟨h1, h2, hlost⟩
    exact ⟨e, h1, h2, rfl, fun y hy hye => absurd hye (hlost y hy)⟩

/-- What the NACKs ask for is before the last report, which may be that of this push. -/
theorem Kept.nacks_push {s s' : Stream} {x : ℕ × Packet} (h : Kept s) (hx : Steady s x)
    (hs : s.push x = some s') : ∀ nack ∈ s'.nacks, ∀ n ∈ nack.packets,
      ∃ e, s'.first ≤ e ∧ e < s'.lastNack ∧ UInt16.ofNat e = n := by
  obtain ⟨-, hfirst, hlast⟩ := h.spanned.push_first hx.1 hs
  have hnacks : s'.nacks = (s.buffer.push x.2).2.toList ++ s.nacks := by
    rw [(Stream.push_eq_some hs).2]
  rw [hnacks]
  intro nack hnack n hn
  rcases List.mem_append.mp hnack with hnack | hnack
  · have hreq : n ∈ requested (s.buffer.push x.2).2 := by
      rw [Option.mem_toList.mp hnack]
      exact hn
    obtain ⟨hr, e, h1, h2, hslot, -⟩ := (h.spanned.mem_requested hx.1 hs).mp hreq
    have hspan := h.spanned.lastNack_span hr.1
    have hreport := hr.2
    rw [hfirst, hlast, if_neg hr.1, if_pos (Or.inr hr)]
    exact ⟨e, by omega, h2, hslot⟩
  · have hne : s.pushed ≠ [] := by
      intro hnil
      rw [h.fresh hnil] at hnack
      cases hnack
    obtain ⟨e, hf, he, hslot⟩ := h.nacks nack hnack n hn
    have hlt := h.spanned.lastNack_lt hx.1 hne
    rw [hfirst, hlast, if_neg hne]
    refine ⟨e, hf, ?_, hslot⟩
    split_ifs <;> omega

/-- **Step lemma.** -/
theorem Kept.push {s s' : Stream} {x : ℕ × Packet} (h : Kept s) (hx : Steady s x) (hs : s.push x = some s') :
    Kept s' := by
  obtain ⟨hpushed, hfirst, hlast⟩ := h.spanned.push_first hx.1 hs
  obtain ⟨hcleared, hts⟩ := h.push_cleared hx hs
  refine ⟨h.spanned.push hx.1 hs, ?_, ?_, ?_, h.nacks_push hx hs⟩
  · intro _
    rw [hcleared, hfirst]
    show (if s.pushed = [] then x.1 else s.cleared) = _
    split_ifs with hnil
    · rfl
    · exact h.cleared hnil
  · rw [hpushed, hts]
    by_cases hnil : s.pushed = []
    · intro y hy
      rw [hnil, List.mem_singleton] at hy
      show _ = (s.buffer.setUp x.2).lastClearTS
      rw [hy, Buffer.setUp_of_not (h.spanned.ring.not_initialized hnil)]
    · rw [h.spanned.ring.setUp_eq hnil]
      intro y hy
      rcases List.mem_cons.mp hy with rfl | hy
      · obtain ⟨z, hz, -⟩ := h.spanned.first hnil
        rw [← hx.2.2 z hz, h.timestamps z hz]
      · exact h.timestamps y hy
  · rw [hpushed]
    exact fun hnil => absurd hnil (List.cons_ne_nil _ _)

theorem asked_push {s s' : Stream} {x : ℕ × Packet} (hs : s.push x = some s') (e : ℕ) :
    s'.asked e = (if UInt16.ofNat e ∈ requested (s.buffer.push x.2).2 then 1 else 0) + s.asked e := by
  obtain ⟨-, rfl⟩ := Stream.push_eq_some hs
  exact countP_toList_append _ _ _

/-- What is after the last report was not asked for. -/
theorem Kept.asked_eq_zero {s : Stream} {e : ℕ} (h : Kept s) (hne : s.pushed ≠ []) (hle : s.lastNack ≤ e)
    (he : e < s.first + 65536) : s.asked e = 0 := by
  have hspan := h.spanned.lastNack_span hne
  refine List.countP_eq_zero.mpr fun nack hnack hmem => ?_
  obtain ⟨e', hf, he', hslot⟩ := h.nacks nack hnack _ (of_decide_eq_true hmem)
  have := ofNat_inj_of_window hf (by omega) (by omega) he hslot
  omega

/-- A packet before the window that has not come would be asked for by no NACK. -/
theorem Kept.covers {s s' : Stream} {x : ℕ × Packet} (h : Kept s) (hx : Steady s x) (hs : s.push x = some s')
    (hR' : Reported s') : Covers s x := by
  obtain ⟨hpushed, hfirst, hlast⟩ := h.spanned.push_first hx.1 hs
  intro hr e he hle
  rw [if_neg hr.1] at hfirst
  rw [if_pos (Or.inr hr)] at hlast
  have hxs := h.spanned.first_le hx.1 hr.1
  have hspan := h.spanned.lastNack_span hr.1
  have hreport := hr.2
  by_contra hgap
  have hlost : ∀ y ∈ s'.pushed, y.1 ≠ e := by
    rw [hpushed]
    intro y hy
    rcases List.mem_cons.mp hy with rfl | hy
    · omega
    · exact fun hye => hgap ⟨y, hy, hye⟩
  have hone := hR' (by rw [hpushed]; exact List.cons_ne_nil _ _) e (by omega) (by omega) hlost
  have hnot : UInt16.ofNat e ∉ requested (s.buffer.push x.2).2 := by
    intro hmem
    have := ((h.mem_requested hx hs (by omega) (by omega)).mp hmem).2.1
    omega
  rw [asked_push hs, if_neg hnot, h.asked_eq_zero hr.1 hle (by omega)] at hone
  cases hone

/-- With no gap between two reports, a packet is asked for before this push, or by it. -/
theorem Kept.reported {s s' : Stream} {x : ℕ × Packet} (h : Kept s) (hR : Reported s) (hx : Steady s x)
    (hs : s.push x = some s') (hcov : Covers s x) : Reported s' := by
  obtain ⟨hpushed, hfirst, hlast⟩ := h.spanned.push_first hx.1 hs
  intro _ e hf he hlost
  have hxe : x.1 ≠ e := hlost x (by rw [hpushed]; exact List.mem_cons_self)
  have hlost' : ∀ y ∈ s.pushed, y.1 ≠ e := fun y hy => hlost y (by rw [hpushed]; exact List.mem_cons_of_mem _ hy)
  by_cases hnil : s.pushed = []
  · -- the first packet is the only number so far
    rw [if_pos hnil] at hfirst
    rw [if_pos (Or.inl hnil)] at hlast
    omega
  · rw [if_neg hnil] at hfirst
    have hxs := h.spanned.first_le hx.1 hnil
    have hspan := h.spanned.lastNack_span hnil
    have hlx := h.spanned.lastNack_lt hx.1 hnil
    have hle : e ≤ x.1 := by
      split_ifs at hlast <;> omega
    have hmem := h.mem_requested (e := e) hx hs (by omega) (by omega)
    rw [asked_push hs]
    by_cases hbefore : e ≤ s.lastNack
    · have hnot : UInt16.ofNat e ∉ requested (s.buffer.push x.2).2 := by
        intro hm
        obtain ⟨hr, h1, -⟩ := hmem.mp hm
        have hreport := hr.2
        obtain ⟨l, hl, hlastl⟩ := h.spanned.lastNack hnil
        exact hlost' l hl (by omega)
      rw [if_neg hnot, hR hnil e (by omega) hbefore hlost']
    · have hr : Reports s x := by
        by_contra hr
        rw [if_neg (not_or_intro hnil hr)] at hlast
        omega
      have hwindow : x.1 ≤ e + 17 := by
        by_contra hgap
        obtain ⟨y, hy, hye⟩ := hcov hr e (by omega) (by omega)
        exact hlost' y hy hye
      rw [if_pos (hmem.mpr ⟨hr, hwindow, by omega, hlost'⟩), h.asked_eq_zero hnil (by omega) (by omega)]

/-- **When every lost packet is asked for once**: in every run whose reports leave no gap, and after one more push
exactly if that leaves none. -/
theorem reported_once {s : Stream}
    (h : Reach Stream.push (fun s x => Steady s x ∧ Covers s x) Stream.new s) :
    Reported s ∧ ∀ x s', Steady s x → s.push x = some s' → (Reported s' ↔ Covers s x) := by
  have hI : Kept s ∧ Reported s := by
    refine Reach.invariant (I := fun s => Kept s ∧ Reported s) ⟨kept_new, fun hne => absurd rfl hne⟩ ?_ h
    rintro s x s' ⟨hK, hR⟩ ⟨hx, hcov⟩ hs
    exact ⟨hK.push hx hs, hK.reported hR hx hs hcov⟩
  exact ⟨hI.2, fun x s' hx hs => ⟨hI.1.covers hx hs, hI.1.reported hI.2 hx hs⟩⟩

/-- The numbers from 2 to 15 are lost, and the report at 19 starts at 2. -/
theorem reported_once_example : ∃ s, exec (guarded Stream.push fun s x => Steady s x ∧ Covers s x) Stream.new
      [(0, ⟨1, 0, 0, []⟩), (1, ⟨1, 1, 0, []⟩), (16, ⟨1, 16, 0, []⟩), (19, ⟨1, 19, 0, []⟩)] = some s ∧
    (s.pushed ≠ [] ∧ s.lastNack = 19 ∧ s.asked 2 = 1) ∧ Reported s :=
  exists_exec (by decide +kernel) fun _ hs _ => (reported_once hs).1

/-- Number 1 is lost too, and no report is about it. -/
theorem lost_not_reported : ∃ s, exec (guarded Stream.push Steady) Stream.new
      [(0, ⟨1, 0, 0, []⟩), (16, ⟨1, 16, 0, []⟩), (19, ⟨1, 19, 0, []⟩)] = some s ∧
    (s.pushed.map Prod.fst = [19, 16, 0] ∧ s.first = 0 ∧ s.lastNack = 19 ∧ s.asked 1 = 0) ∧ ¬ Reported s := by
  refine exists_exec (by decide +kernel) fun s _ hP hR => ?_
  obtain ⟨hpushed, hfirst, hlast, hasked⟩ := hP
  have hne : s.pushed ≠ [] := by
    intro hnil
    rw [hnil] at hpushed
    cases hpushed
  have hlost : ∀ y ∈ s.pushed, y.1 ≠ 1 := by
    intro y hy hye
    have hmem := List.mem_map_of_mem (f := Prod.fst) hy
    rw [hpushed, hye] at hmem
    simp at hmem
  have hone := hR hne 1 (by omega) (by omega) hlost
  omega

end Meeting.Jitter
