import Mathlib.Data.List.GetD
import Mathlib.Tactic.Common

/-!
# Meeting.Lib.Blocks — a buffer that is filled block by block

`block d k l` is the `k`-th block of length `d` of `l` (the last one may be shorter), `overwrite a src n`
writes `src` into `a` at position `n`, and `masked z d R l` is the buffer in which the blocks with a
number in `R` have arrived: their elements are those of `l`, all others are still `z`.

Writing block `k` at `k * d` into `masked z d R l` gives `masked z d (k :: R) l` (`overwrite_masked`), so
the content of such a buffer depends on the set of the blocks that arrived and not on their order.  The blocks of a list,
one after the other, are the list (`flatten_blocks`).
-/

namespace Meeting.Lib

variable {α : Type*}

/-- Write `src` into `a` at position `n`. -/
def overwrite (a src : List α) (n : ℕ) : List α :=
  a.take n ++ src ++ a.drop (n + src.length)

/-- The `k`-th block of length `d`. -/
def block (d k : ℕ) (l : List α) : List α := (l.drop (k * d)).take d

/-- `l` with every element outside the blocks of `R` replaced by `z`. -/
def masked (z : α) (d : ℕ) (R : List ℕ) (l : List α) : List α :=
  l.mapIdx fun i a => if i / d ∈ R then a else z

theorem overwrite_getElem? {a src : List α} {n : ℕ} (h : n + src.length ≤ a.length) (i : ℕ) :
    (overwrite a src n)[i]? = if n ≤ i ∧ i < n + src.length then src[i - n]? else a[i]? := by
  unfold overwrite
  have hn : (a.take n).length = n := by rw [List.length_take]; omega
  by_cases h1 : i < n
  · rw [if_neg (by omega), List.append_assoc, List.getElem?_append_left (by omega),
      List.getElem?_take_of_lt h1]
  · rw [List.append_assoc, List.getElem?_append_right (by omega), hn]
    by_cases h2 : i < n + src.length
    · rw [if_pos (by omega), List.getElem?_append_left (by omega)]
    · rw [if_neg (by omega), List.getElem?_append_right (by omega), List.getElem?_drop]
      congr 1
      omega

theorem overwrite_zero (b src : List α) : overwrite b src 0 = src ++ b.drop src.length := by
  simp [overwrite]

/-- Filling a buffer from the left: each write continues where the last one stopped. -/
theorem overwrite_append {a b src : List α} {n : ℕ} (ha : a.length = n) :
    overwrite (a ++ b) src n = a ++ src ++ b.drop src.length := by
  subst ha
  simp [overwrite, List.drop_append]

theorem block_length (d k : ℕ) (l : List α) : (block d k l).length = min d (l.length - k * d) := by
  simp [block]

theorem block_getElem? {d k i : ℕ} {l : List α} (h1 : k * d ≤ i) (h2 : i < k * d + d) :
    (block d k l)[i - k * d]? = l[i]? := by
  unfold block
  rw [List.getElem?_take_of_lt (by omega), List.getElem?_drop]
  congr 1
  omega

/-- The blocks of a list, one after the other, are the list. -/
theorem flatten_blocks {d n : ℕ} {l : List α} (h : l.length ≤ n * d) :
    ((List.range n).map fun k => block d k l).flatten = l := by
  have hfirst : ∀ m, ((List.range m).map fun k => block d k l).flatten = l.take (m * d) := by
    intro m
    induction m with
    | zero => simp
    | succ m ih =>
      rw [List.range_succ, List.map_append, List.flatten_append, ih, Nat.succ_mul, List.take_add]
      simp [block]
  rw [hfirst, List.take_of_length_le h]

@[simp] theorem masked_length (z : α) (d : ℕ) (R : List ℕ) (l : List α) :
    (masked z d R l).length = l.length := by simp [masked]

theorem masked_nil (z : α) (d : ℕ) (l : List α) : masked z d [] l = List.replicate l.length z := by
  apply List.ext_getElem?
  intro i
  simp only [masked, List.getElem?_mapIdx, List.not_mem_nil, if_false, List.getElem?_replicate]
  by_cases h : i < l.length <;> simp [h]

theorem masked_eq_self {z : α} {d : ℕ} {R : List ℕ} {l : List α} (h : ∀ i < l.length, i / d ∈ R) :
    masked z d R l = l := by
  apply List.ext_getElem?
  intro i
  simp only [masked, List.getElem?_mapIdx]
  by_cases hi : i < l.length
  · simp [hi, h i hi]
  · simp [hi]

/-- **Arrival of a block**: writing the `k`-th block at its place adds `k` to the blocks received. -/
theorem overwrite_masked {z : α} {d k : ℕ} {R : List ℕ} {l : List α} (hd : 0 < d)
    (hk : k * d ≤ l.length) :
    overwrite (masked z d R l) (block d k l) (k * d) = masked z d (k :: R) l := by
  have hlen : k * d + (block d k l).length ≤ (masked z d R l).length := by
    rw [block_length, masked_length]; omega
  apply List.ext_getElem?
  intro i
  rw [overwrite_getElem? hlen]
  by_cases hi : i < l.length
  · -- `i` is a position of block `k` exactly when `i / d = k`
    by_cases hin : k * d ≤ i ∧ i < k * d + (block d k l).length
    · have hlt : i < k * d + d := by rw [block_length] at hin; omega
      have hdiv : i / d = k := Nat.div_eq_of_lt_le hin.1 (by rw [Nat.succ_mul]; exact hlt)
      rw [if_pos hin, block_getElem? hin.1 hlt]
      simp [masked, hdiv]
    · rw [if_neg hin]
      have hne : i / d ≠ k := by
        rintro rfl
        have h1 : i / d * d ≤ i := Nat.div_mul_le_self i d
        have h2 : i < i / d * d + d := Nat.lt_div_mul_add hd
        rw [block_length] at hin
        omega
      simp [masked, hne]
  · rw [if_neg (by rw [masked_length] at hlen; omega)]
    simp [masked, hi]

end Meeting.Lib
