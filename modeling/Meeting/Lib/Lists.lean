import Mathlib.Data.List.AList
import Mathlib.Data.List.Perm.Basic
import Mathlib.Tactic.Common

/-!
# Meeting.Lib.Lists — lists and finite maps

A separator `a` that one side does not contain determines the two sides: `append_cons_inj_left` when it is
absent from the left parts, `append_cons_inj_right` when it is absent from the right parts.  A rearrangement
of the image of a list comes from one of the list (`exists_map_of_perm`).  What a list has after
one more element was put at its end is that element or an old one (`getElem?_concat_cases`; `getElem?_set_cases` where one
was replaced; `getElem?_append_of_some` for the old ones), and an entry of a
finite map after a write is the one written or an old one of another key (`lookup_insert_cases`); `mapValues`
changes every value of a map, and `assign` writes to a map that keeps the order of its keys.  A list of assignments to
different keys of a function gives each its value (`foldl_update_of_mem`).

The first elements that meet a condition depend on what it says of the list (`takeWhile_congr`), erasing the first one
that meets it takes the first from those that do (`filter_eraseP`), and `n` different numbers below `n` are all of them
(`mem_of_nodup_length`).
-/

namespace Meeting.Lib

variable {α : Type*} {a : α}

theorem append_cons_inj_left : ∀ {x₁ x₂ z₁ z₂ : List α}, a ∉ x₁ → a ∉ x₂ →
    x₁ ++ a :: z₁ = x₂ ++ a :: z₂ → x₁ = x₂ ∧ z₁ = z₂
  | [], [], _, _, _, _, h => ⟨rfl, (List.cons_eq_cons.mp h).2⟩
  | [], b :: x₂, _, _, _, h2, h => by
    obtain ⟨rfl, -⟩ := List.cons_eq_cons.mp h
    exact absurd List.mem_cons_self h2
  | b :: x₁, [], _, _, h1, _, h => by
    obtain ⟨rfl, -⟩ := List.cons_eq_cons.mp h
    exact absurd List.mem_cons_self h1
  | b :: x₁, c :: x₂, _, _, h1, h2, h => by
    obtain ⟨rfl, h'⟩ := List.cons_eq_cons.mp h
    obtain ⟨rfl, hz⟩ := append_cons_inj_left (fun hm => h1 (List.mem_cons_of_mem _ hm))
      (fun hm => h2 (List.mem_cons_of_mem _ hm)) h'
    exact ⟨rfl, hz⟩

theorem append_cons_inj_right {x₁ x₂ z₁ z₂ : List α} (h1 : a ∉ z₁) (h2 : a ∉ z₂)
    (h : x₁ ++ a :: z₁ = x₂ ++ a :: z₂) : x₁ = x₂ ∧ z₁ = z₂ := by
  have hr := congrArg List.reverse h
  simp only [List.reverse_append, List.reverse_cons, List.append_assoc, List.singleton_append] at hr
  obtain ⟨hz, hx⟩ := append_cons_inj_left (by simpa using h1) (by simpa using h2) hr
  exact ⟨List.reverse_injective hx, List.reverse_injective hz⟩

/-- A rearrangement of an image is the image of a rearrangement. -/
theorem exists_map_of_perm {β : Type*} {f : α → β} {l : List β} {L : List α}
    (h : l.Perm (L.map f)) : ∃ L' : List α, L'.Perm L ∧ l = L'.map f := by
  have h2 : List.Forall₂ (fun b a => b = f a) (L.map f) L := by
    rw [List.forall₂_map_left_iff]
    exact List.forall₂_same.mpr fun _ _ => rfl
  obtain ⟨L', hL, hp⟩ := List.perm_comp_forall₂ h h2
  refine ⟨L', hp, ?_⟩
  have := List.forall₂_map_right_iff (f := f) (R := Eq) (l := l) (u := L') |>.mpr hL
  exact List.forall₂_eq_eq_eq ▸ this

/-- What a list with one more element has at a position. -/
theorem getElem?_concat_cases {l : List α} {b : α} {k : ℕ} (h : (l ++ [a])[k]? = some b) :
    l[k]? = some b ∨ k = l.length ∧ b = a := by
  rw [List.getElem?_append] at h
  split_ifs at h with hk
  · exact Or.inl h
  · obtain ⟨hlt, hb⟩ := List.getElem?_eq_some_iff.mp h
    simp only [List.length_singleton] at hlt
    exact Or.inr ⟨by omega, by simpa using hb.symm⟩

theorem getElem?_set_cases {l : List α} {a b : α} {i j : ℕ} (h : (l.set i a)[j]? = some b) :
    i = j ∧ b = a ∨ i ≠ j ∧ l[j]? = some b := by
  by_cases hij : i = j
  · subst hij
    rw [List.getElem?_set_self'] at h
    obtain ⟨_, _, hb⟩ := Option.map_eq_some_iff.mp h
    exact Or.inl ⟨rfl, hb.symm⟩
  · rw [List.getElem?_set_ne hij] at h
    exact Or.inr ⟨hij, h⟩

/-- A list is what its positions hold. -/
theorem filterMap_range_getElem? : ∀ l : List α, (List.range l.length).filterMap (l[·]?) = l
  | [] => rfl
  | a :: l => by
    rw [List.length_cons, List.range_succ_eq_map, List.filterMap_cons, List.filterMap_map]
    exact congrArg (a :: ·) (filterMap_range_getElem? l)

theorem getElem?_append_of_some {l l' : List α} {i : ℕ} (h : l[i]? = some a) : (l ++ l')[i]? = some a :=
  (List.getElem?_append_left (List.getElem?_eq_some_iff.mp h).1).trans h

theorem getElem?_set_of_some {l : List α} {a b : α} {i : ℕ} (h : l[i]? = some b) : (l.set i a)[i]? = some a :=
  List.getElem?_set_self (List.getElem?_eq_some_iff.mp h).1

section Maps

variable {β : Type*} [DecidableEq α] {m : AList fun _ : α => β} {k k' : α} {v v' : β}

theorem lookup_insert_cases (h : (m.insert k v).lookup k' = some v') :
    k' = k ∧ v' = v ∨ k' ≠ k ∧ m.lookup k' = some v' := by
  by_cases hk : k' = k
  · subst hk
    rw [AList.lookup_insert, Option.some.injEq] at h
    exact Or.inl ⟨rfl, h.symm⟩
  · rw [AList.lookup_insert_ne hk] at h
    exact Or.inr ⟨hk, h⟩

theorem lookup_of_lookup_erase (h : (m.erase k).lookup k' = some v') :
    k' ≠ k ∧ m.lookup k' = some v' := by
  by_cases hk : k' = k
  · subst hk
    rw [AList.lookup_erase] at h
    cases h
  · rw [AList.lookup_erase_ne hk] at h
    exact ⟨hk, h⟩

/-- Apply a function to every value of a map. -/
def mapValues {γ : Type*} (f : β → γ) (m : AList fun _ : α => β) : AList fun _ : α => γ where
  entries := m.entries.map fun x => ⟨x.1, f x.2⟩
  nodupKeys := by
    rw [List.NodupKeys, List.keys, List.map_map]
    exact m.nodupKeys

theorem lookup_mapValues {γ : Type*} (f : β → γ) (m : AList fun _ : α => β) (k : α) :
    (mapValues f m).lookup k = (m.lookup k).map f := by
  have h := List.dlookup_map₂ (l := m.entries) (f := fun _ => f) k
  exact h

/-- Write an entry where its key is, or at the end when the key is new. -/
def assign (m : AList fun _ : α => β) (k : α) (v : β) : AList fun _ : α => β :=
  if h : k ∈ m then
    { entries := m.entries.map fun x => if x.1 = k then ⟨k, v⟩ else x
      nodupKeys := by
        have hkeys : (m.entries.map fun x : (Σ _ : α, β) => if x.1 = k then ⟨k, v⟩ else x).keys = m.keys := by
          rw [List.keys, List.map_map]
          refine List.map_congr_left fun x _ => ?_
          simp only [Function.comp]
          split_ifs with hx
          · exact hx.symm
          · rfl
        rw [List.NodupKeys, hkeys]
        exact m.nodupKeys }
  else
    { entries := m.entries ++ [⟨k, v⟩]
      nodupKeys := by
        rw [List.NodupKeys, List.keys, List.map_append, List.nodup_append]
        refine ⟨m.nodupKeys, List.nodup_singleton _, fun a ha b hb hab => ?_⟩
        rw [hab, List.mem_singleton.mp hb] at ha
        exact h ha }

theorem lookup_assign (m : AList fun _ : α => β) (k k' : α) (v : β) :
    (assign m k v).lookup k' = if k' = k then some v else m.lookup k' := by
  refine Option.ext fun w => ?_
  rw [← Option.mem_def, AList.mem_lookup_iff]
  unfold assign
  by_cases hk : k' = k
  · subst hk
    rw [if_pos rfl, Option.some.injEq]
    split_ifs with h
    · obtain ⟨w', hw'⟩ := Option.isSome_iff_exists.mp (AList.lookup_isSome.mpr h)
      constructor
      · intro hmem
        obtain ⟨x, -, hx⟩ := List.mem_map.mp hmem
        split_ifs at hx with hxk
        · cases hx
          rfl
        · exact absurd (congrArg Sigma.fst hx) hxk
      · rintro rfl
        exact List.mem_map.mpr ⟨⟨k', w'⟩, AList.mem_lookup_iff.mp hw', if_pos rfl⟩
    · constructor
      · intro hmem
        rcases List.mem_append.mp hmem with hmem | hmem
        · exact absurd (List.mem_keys_of_mem hmem) h
        · cases List.mem_singleton.mp hmem
          rfl
      · rintro rfl
        exact List.mem_append_right _ (List.mem_singleton_self _)
  · rw [if_neg hk, ← Option.mem_def, AList.mem_lookup_iff]
    split_ifs with h
    · constructor
      · intro hmem
        obtain ⟨x, hx, hxk⟩ := List.mem_map.mp hmem
        split_ifs at hxk with hx'
        · exact absurd (congrArg Sigma.fst hxk).symm hk
        · exact hxk ▸ hx
      · intro hmem
        exact List.mem_map.mpr ⟨_, hmem, if_neg hk⟩
    · constructor
      · intro hmem
        rcases List.mem_append.mp hmem with hmem | hmem
        · exact hmem
        · exact absurd (congrArg Sigma.fst (List.mem_singleton.mp hmem)) hk
      · exact List.mem_append_left _

end Maps

theorem takeWhile_congr {α : Type*} {P Q : α → Bool} : ∀ {l : List α}, (∀ a ∈ l, P a = Q a) →
    l.takeWhile P = l.takeWhile Q
  | [], _ => rfl
  | a :: l, h => by
    have hl := takeWhile_congr fun b hb => h b (List.mem_cons_of_mem a hb)
    rw [List.takeWhile_cons, List.takeWhile_cons, h a List.mem_cons_self, hl]

theorem filter_eraseP {α : Type*} {p : α → Bool} : ∀ l : List α, (l.eraseP p).filter p = (l.filter p).tail
  | [] => rfl
  | a :: l => by
    by_cases h : p a = true
    · rw [List.eraseP_cons_of_pos h, List.filter_cons_of_pos h, List.tail_cons]
    · rw [List.eraseP_cons_of_neg h, List.filter_cons_of_neg h, List.filter_cons_of_neg h, filter_eraseP l]

/-- `n` different numbers below `n` are all of them. -/
theorem mem_of_nodup_length {n : ℕ} {ks : List ℕ} (hnodup : ks.Nodup) (hlt : ∀ k ∈ ks, k < n) (hlen : ks.length = n)
    {k : ℕ} (hk : k < n) : k ∈ ks := by
  have hperm : ks.Perm (List.range n) := by
    refine (List.subperm_of_subset hnodup fun k hk => List.mem_range.mpr (hlt k hk)).perm_of_length_le ?_
    rw [List.length_range, hlen]
  exact hperm.mem_iff.mpr (List.mem_range.mpr hk)

section Updates

variable {α β : Type*} [DecidableEq α]

theorem foldl_update_of_notMem : ∀ (l : List (β × α)) (m : α → Option β) (k : α), k ∉ l.map Prod.snd →
    l.foldl (fun (m : α → Option β) x => Function.update m x.2 (some x.1)) m k = m k
  | [], _, _, _ => rfl
  | y :: l, m, k, h => by
    rw [List.map_cons, List.mem_cons, not_or] at h
    rw [List.foldl_cons, foldl_update_of_notMem l _ k h.2, Function.update_of_ne h.1]

/-- What a function has after a list of assignments to different keys. -/
theorem foldl_update_of_mem : ∀ (l : List (β × α)) (m : α → Option β) (x : β × α), (l.map Prod.snd).Nodup → x ∈ l →
    l.foldl (fun (m : α → Option β) x => Function.update m x.2 (some x.1)) m x.2 = some x.1
  | y :: l, m, x, hnodup, hx => by
    obtain ⟨hy, hnodup⟩ := List.nodup_cons.mp hnodup
    rcases List.mem_cons.mp hx with rfl | hx
    · -- no later assignment is to its key
      have hkeep := foldl_update_of_notMem l (Function.update m x.2 (some x.1)) x.2 hy
      rw [List.foldl_cons, hkeep, Function.update_self]
    · exact foldl_update_of_mem l _ x hnodup hx

end Updates

end Meeting.Lib
