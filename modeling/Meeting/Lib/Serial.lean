import Mathlib.Data.List.Sort
import Mathlib.Order.Basic
import Mathlib.Tactic.Common
import Meeting.Lib.Lists

/-!
# Meeting.Lib.Serial — 16-bit serial numbers that wrap

A serial number is the last 16 bits of an extended number, a natural number that does not wrap.  Within a span of
less than 2^16 the extended number can be found from the serial number (`ofNat_inj`, `toNat_sub_ofNat`).
`upTo start stop` is what `for i := start; i != stop; i++` runs through, with its own induction (`upTo_induction`);
between the serial numbers of `a` and `b` these are the serial numbers of `a, …, b - 1` (`upTo_ofNat`).  No number comes
twice in such a range (`nodup_upTo`), and a loop that stops early has passed over all numbers before the one it gets to
(`mem_takeWhile_upTo`).

Strictly increasing lists of numbers are determined by their elements (`eq_filter_of_pairwise_lt`).
-/

namespace Meeting.Lib

/-- The numbers from `start` up to `stop`, which is left out, over the wrap. -/
def upTo (start stop : UInt16) : List UInt16 :=
  (List.range (stop - start).toNat).map fun k => start + UInt16.ofNat k

theorem upTo_self (start : UInt16) : upTo start start = [] := by
  rw [upTo, UInt16.sub_self]
  rfl

/-- A step towards `stop` makes the distance smaller by one. -/
theorem toNat_sub_of_ne {start stop : UInt16} (h : start ≠ stop) :
    (stop - start).toNat = (stop - (start + 1)).toNat + 1 := by
  rw [UInt16.toNat_sub, UInt16.toNat_sub, UInt16.toNat_add]
  have hne : start.toNat ≠ stop.toNat := fun heq => h (UInt16.toNat_inj.mp heq)
  have hstart := start.toNat_lt
  have hstop := stop.toNat_lt
  show _ = (2 ^ 16 - (start.toNat + 1) % 2 ^ 16 + stop.toNat) % 2 ^ 16 + 1
  omega

theorem toNat_sub_lt {start stop : UInt16} (h : start ≠ stop) : (stop - (start + 1)).toNat < (stop - start).toNat := by
  rw [toNat_sub_of_ne h]
  exact Nat.lt_succ_self _

theorem upTo_cons {start stop : UInt16} (h : start ≠ stop) : upTo start stop = start :: upTo (start + 1) stop := by
  rw [upTo, upTo, toNat_sub_of_ne h, List.range_succ_eq_map, List.map_cons, List.map_map]
  refine congrArg₂ List.cons (UInt16.add_zero start) (List.map_congr_left fun k _ => ?_)
  show start + UInt16.ofNat (k + 1) = start + 1 + UInt16.ofNat k
  rw [UInt16.ofNat_add, UInt16.add_comm (UInt16.ofNat k), UInt16.add_assoc]
  rfl

theorem nodup_upTo (start stop : UInt16) : (upTo start stop).Nodup := by
  refine List.nodup_range.map_on ?_
  intro j hj k hk hjk
  have hstop := (stop - start).toNat_lt
  rw [List.mem_range] at hj hk
  have heq := congrArg UInt16.toNat ((UInt16.add_right_inj start).mp hjk)
  rw [UInt16.toNat_ofNat', UInt16.toNat_ofNat', Nat.mod_eq_of_lt (by omega), Nat.mod_eq_of_lt (by omega)] at heq
  exact heq

/-- **Induction along a range**, from its end. -/
@[elab_as_elim]
theorem upTo_induction {motive : UInt16 → Prop} (stop : UInt16) (self : motive stop)
    (step : ∀ i, i ≠ stop → motive (i + 1) → motive i) (start : UInt16) : motive start := by
  -- by the distance between the two ends
  induction hn : (stop - start).toNat generalizing start with
  | zero =>
    have hsub : stop - start = 0 := UInt16.toNat_inj.mp hn
    obtain rfl : stop = start := by
      rw [← UInt16.sub_add_cancel stop start, hsub, UInt16.zero_add]
    exact self
  | succ n ih =>
    have hne : start ≠ stop := by
      rintro rfl
      rw [UInt16.sub_self] at hn
      cases hn
    have hdist := toNat_sub_of_ne hne
    exact step start hne (ih (start + 1) (by omega))

/-- What comes before and after a number of a range. -/
theorem upTo_split {start stop i : UInt16} (h : i ∈ upTo start stop) :
    upTo start stop = upTo start i ++ i :: upTo (i + 1) stop := by
  induction start using upTo_induction stop with
  | self =>
    rw [upTo_self] at h
    cases h
  | step start hne ih =>
    rw [upTo_cons hne] at h ⊢
    by_cases hi : i = start
    · rw [hi, upTo_self]
      rfl
    · have hmem : i ∈ upTo (start + 1) stop := (List.mem_cons.mp h).resolve_left hi
      rw [ih hmem, upTo_cons (Ne.symm hi)]
      rfl

theorem not_mem_upTo_stop (start stop : UInt16) : stop ∉ upTo start stop := by
  intro h
  obtain ⟨k, hk, heq⟩ := List.mem_map.mp h
  rw [List.mem_range] at hk
  have hsub : stop - start = UInt16.ofNat k := by
    rw [UInt16.sub_eq_iff_eq_add, UInt16.add_comm]
    exact heq.symm
  have hle := Nat.mod_le k (2 ^ 16)
  rw [hsub, UInt16.toNat_ofNat'] at hk
  omega

/-- A number is among the first ones of a range that meet a condition if it does, with all numbers before it. -/
theorem mem_takeWhile_upTo {P : UInt16 → Prop} [DecidablePred P] {a z i : UInt16} :
    i ∈ (upTo a z).takeWhile (fun j => P j) ↔ i ∈ upTo a z ∧ P i ∧ ∀ j ∈ upTo a i, P j := by
  constructor
  · intro hi
    have hmem := (List.takeWhile_sublist _).subset hi
    have hall : ∀ j ∈ (upTo a z).takeWhile (fun j => P j), P j := fun j hj =>
      of_decide_eq_true (List.all_eq_true.mp List.all_takeWhile j hj)
    refine ⟨hmem, hall i hi, fun j hj => ?_⟩
    obtain ⟨as, bs, hsplit⟩ := List.append_of_mem hi
    have hwhole := List.takeWhile_append_dropWhile (p := fun j => decide (P j)) (l := upTo a z)
    rw [hsplit, List.append_assoc, List.cons_append] at hwhole
    -- the range has `i` only once, so that the two ways to cut it there agree
    have hnodup := nodup_upTo a z
    have hcut := hwhole.trans (upTo_split hmem)
    have has : i ∉ as := by
      rw [← hwhole] at hnodup
      exact fun h => (List.nodup_append.mp hnodup).2.2 i h i List.mem_cons_self rfl
    have hai : i ∉ upTo a i := by
      rw [upTo_split hmem] at hnodup
      exact fun h => (List.nodup_append.mp hnodup).2.2 i h i List.mem_cons_self rfl
    obtain ⟨heq, -⟩ := append_cons_inj_left has hai hcut
    rw [← heq] at hj
    refine hall j ?_
    rw [hsplit]
    exact List.mem_append_left _ hj
  · rintro ⟨hmem, hi, hall⟩
    rw [upTo_split hmem, List.takeWhile_append_of_pos fun j hj => decide_eq_true (hall j hj), List.takeWhile_cons,
      if_pos (decide_eq_true hi)]
    exact List.mem_append_right _ List.mem_cons_self

theorem toNat_sub_ofNat {a b : ℕ} (hab : a ≤ b) (hb : b < a + 65536) :
    (UInt16.ofNat b - UInt16.ofNat a).toNat = b - a := by
  rw [← UInt16.ofNat_sub hab, UInt16.toNat_ofNat', Nat.mod_eq_of_lt]
  omega

theorem ofNat_inj {a b : ℕ} (hab : a ≤ b) (hb : b < a + 65536) (h : UInt16.ofNat a = UInt16.ofNat b) : a = b := by
  have hsub := toNat_sub_ofNat hab hb
  rw [h, UInt16.sub_self] at hsub
  have hzero : b - a = 0 := hsub.symm
  omega

/-- Two extended numbers of one serial number in a window of 2^16 are the same. -/
theorem ofNat_inj_of_window {a b c : ℕ} (ha : c ≤ a) (ha' : a < c + 65536) (hb : c ≤ b) (hb' : b < c + 65536)
    (h : UInt16.ofNat a = UInt16.ofNat b) : a = b := by
  rcases Nat.le_total a b with hab | hab
  · exact ofNat_inj hab (by omega) h
  · exact (ofNat_inj hab (by omega) h.symm).symm

theorem upTo_ofNat {a b : ℕ} (hab : a ≤ b) (hb : b < a + 65536) :
    upTo (UInt16.ofNat a) (UInt16.ofNat b) = (List.range' a (b - a)).map UInt16.ofNat := by
  rw [upTo, toNat_sub_ofNat hab hb, List.range'_eq_map_range, List.map_map]
  refine List.map_congr_left fun k _ => ?_
  exact (UInt16.ofNat_add a k).symm

theorem add_ofNat (start : UInt16) (n : ℕ) : start + UInt16.ofNat n = UInt16.ofNat (start.toNat + n) := by
  rw [UInt16.ofNat_add, UInt16.ofNat_toNat]

/-- The distance of two numbers, both by their distance from `start`. -/
theorem toNat_sub_add {start : UInt16} {m n : ℕ} (hmn : m ≤ n) (hn : n < 65536) :
    (start + UInt16.ofNat n - (start + UInt16.ofNat m)).toNat = n - m := by
  rw [add_ofNat, add_ofNat, toNat_sub_ofNat (by omega) (by omega)]
  omega

/-- A range is cut at a number on the way. -/
theorem upTo_append {start : UInt16} {m n : ℕ} (hmn : m ≤ n) (hn : n < 65536) :
    upTo start (start + UInt16.ofNat m) ++ upTo (start + UInt16.ofNat m) (start + UInt16.ofNat n) =
      upTo start (start + UInt16.ofNat n) := by
  have hstart : UInt16.ofNat start.toNat = start := UInt16.ofNat_toNat
  have hfirst := upTo_ofNat (a := start.toNat) (b := start.toNat + m) (by omega) (by omega)
  have hsecond := upTo_ofNat (a := start.toNat + m) (b := start.toNat + n) (by omega) (by omega)
  have hwhole := upTo_ofNat (a := start.toNat) (b := start.toNat + n) (by omega) (by omega)
  rw [hstart, ← add_ofNat] at hfirst hwhole
  rw [← add_ofNat, ← add_ofNat] at hsecond
  rw [hfirst, hsecond, hwhole, ← List.map_append,
    show start.toNat + n - start.toNat = start.toNat + m - start.toNat + (start.toNat + n - (start.toNat + m)) by omega,
    ← List.range'_append, show start.toNat + 1 * (start.toNat + m - start.toNat) = start.toNat + m by omega]

theorem eq_filter_of_pairwise_lt {n : ℕ} {l : List ℕ} (hl : l.Pairwise (· < ·)) (hn : ∀ a ∈ l, a < n) :
    (List.range n).filter (fun a => a ∈ l) = l := by
  have hnodup : l.Nodup := hl.imp fun h => Nat.ne_of_lt h
  have hperm : ((List.range n).filter fun a => a ∈ l).Perm l := by
    refine (List.perm_ext_iff_of_nodup (List.nodup_range.filter _) hnodup).mpr fun a => ?_
    rw [List.mem_filter, List.mem_range, decide_eq_true_eq]
    exact and_iff_right_of_imp (hn a)
  refine hperm.eq_of_pairwise ?_ (List.pairwise_lt_range.filter _) hl
  intro a b _ _ hab hba
  omega

end Meeting.Lib
