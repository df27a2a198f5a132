import Mathlib.Data.List.Induction
import Meeting.Streams.View

/-!
# Meeting.Streams.Reducer — what each action does to the entries

One spec per action over `Rep` (coherent, and every track id known), in terms of `entry` and `Member`:

* `setMetadata_spec`: every known track gets the association its metadata names, or none;
* `unassociateUserTracks_spec`: the tracks in the streams of the user lose their association;
* `removePeer_spec`: the entries of the peer are gone.
-/

namespace Meeting.Streams

/-- Coherent, and the record of track ids knows every track. -/
structure Rep (st : StreamsState) : Prop extends Coherent st where
  linked : ∀ t, Linked st t

theorem rep_defaultState : Rep defaultState := by
  refine ⟨⟨?_, ?_, ?_, ?_⟩, ?_⟩
  · intro k k' t a a' h
    cases h
  · intro t k h
    cases h
  · rintro u s t ⟨k, hk⟩
    cases hk
  · intro u us h
    cases h
  · intro t k a h
    cases h

/-- The keys and the track ids are in one-to-one correspondence. -/
theorem Rep.lookup_iff {st : StreamsState} (h : Rep st) {t k : String} :
    st.trackIdToPeerIdMid.lookup t = some k ↔ ∃ a, entry st k = some (t, a) :=
  ⟨h.back, fun ⟨a, ha⟩ => h.linked t k a ha⟩

/-- The association a metadata entry asks for. -/
def TrackMetadata.target (m : TrackMetadata) : TrackAssociation :=
  { streamId := m.streamId, userId := m.userId }

theorem getUserId_of_lookup {st : StreamsState} {p : AddTrackPayload} {m : TrackMetadata}
    (h : st.metadataByPeerIdMid.lookup (getPeerIdMid p.userId p.mid) = some m) :
    getUserId st p = m.target := by
  simp [getUserId, h, TrackMetadata.target]

/-! ### Steps that leave no track behind -/

section Stale

variable {st : StreamsState} {u s t : String}

theorem Stale.of_removeTrack {t' : String} (hC : Coherent st) (hL : Linked st t')
    (h : Stale (removeTrack st t') u s t) : Stale st u s t := by
  obtain ⟨-, hentry, hmem⟩ := removeTrack_spec hC hL
  obtain ⟨hm, hn⟩ := (hmem u s t).mp h.1
  refine ⟨hm, fun ha => h.2 ((associated_clear hentry).mpr ⟨ha, ?_⟩)⟩
  rw [List.mem_singleton]
  rintro rfl
  exact hn ⟨rfl, ha⟩

/-- Adding a track leaves nothing behind when it was in no other stream. -/
theorem Stale.of_addTrack {p : AddTrackPayload} (hC : Coherent st)
    (hkey : ∀ t a, entry st (getPeerIdMid p.userId p.mid) = some (t, a) →
      t = p.track ∧ (a = none ∨ a = some (getUserId st p)))
    (huniq : ∀ k a, entry st k = some (p.track, a) → k = getPeerIdMid p.userId p.mid)
    (h : Stale (addTrack st p) u s t) : Stale st u s t := by
  obtain ⟨-, hentry, -⟩ := addTrack_spec hC (fun t a ha => (hkey t a ha).1) huniq
  obtain ⟨hm, hn⟩ := h
  have hnew : ¬ (t = p.track ∧ getUserId st p = ⟨s, u⟩) := by
    rintro ⟨rfl, ha⟩
    exact hn ⟨_, by rw [hentry, if_pos rfl, ha]⟩
  refine ⟨(((member_addTrack hC.shaped).2 u s t).mp hm).resolve_right hnew, ?_⟩
  rintro ⟨k, hk⟩
  by_cases hkk : k = getPeerIdMid p.userId p.mid
  · subst hkk
    obtain ⟨ht, ha | ha⟩ := hkey t _ hk
    · cases ha
    · exact hnew ⟨ht, (Option.some.inj ha).symm⟩
  · exact hn ⟨k, by rw [hentry, if_neg hkk, hk]⟩

end Stale

/-! ### Removing several tracks -/

theorem removeTrack_rep {st : StreamsState} (h : Rep st) (t : String) : Rep (removeTrack st t) := by
  obtain ⟨hC, hentry, -⟩ := removeTrack_spec h.toCoherent (h.linked t)
  exact ⟨hC, fun t' => (h.linked t').clear hentry removeTrack_ids⟩

/-- A fold of `removeTrack` clears all the associations at once. -/
theorem foldl_removeTrack_spec (T : List String) : ∀ {st : StreamsState}, Rep st →
    Rep (T.foldl removeTrack st) ∧
      (∀ k, entry (T.foldl removeTrack st) k = (entry st k).map (clear T)) ∧
      (T.foldl removeTrack st).metadataByPeerIdMid = st.metadataByPeerIdMid ∧
      ∀ u s t, Stale (T.foldl removeTrack st) u s t ↔ Stale st u s t := by
  induction T with
  | nil => exact fun h => ⟨h, fun k => (map_clear_nil _).symm, rfl, fun _ _ _ => Iff.rfl⟩
  | cons t T ih =>
    intro st h
    obtain ⟨-, hentry, hmem⟩ := removeTrack_spec h.toCoherent (h.linked t)
    obtain ⟨hR, hE, hM, hS⟩ := ih (removeTrack_rep h t)
    rw [List.foldl_cons]
    refine ⟨hR, fun k => ?_, hM.trans removeTrack_metadata, fun u s t' => ?_⟩
    · rw [hE, hentry, map_clear_clear, List.singleton_append]
    · rw [hS]
      refine ⟨Stale.of_removeTrack h.toCoherent (h.linked t), fun hs => ⟨?_, fun ha => ?_⟩⟩
      · exact (hmem u s t').mpr ⟨hs.1, fun h' => hs.2 h'.2⟩
      · exact hs.2 ((associated_clear hentry).mp ha).1

/-! ### `setMetadata` -/

section KeyBy

variable {userId : String} {m : TrackMetadata}

theorem keyBy_append (l l' : List TrackMetadata) : keyBy userId (l ++ l') =
    l'.foldl (fun M x => M.insert (getPeerIdMid userId x.mid) x) (keyBy userId l) :=
  List.foldl_append

/-- Later entries of other keys do not matter. -/
theorem lookup_foldl_insert_of_ne {k : String} (l : List TrackMetadata) :
    ∀ {M : AList fun _ : String => TrackMetadata}, (∀ x ∈ l, getPeerIdMid userId x.mid ≠ k) →
      (l.foldl (fun M x => M.insert (getPeerIdMid userId x.mid) x) M).lookup k = M.lookup k := by
  induction l with
  | nil => exact fun _ => rfl
  | cons x l ih =>
    intro M h
    rw [List.foldl_cons, ih fun y hy => h y (List.mem_cons_of_mem _ hy),
      AList.lookup_insert_ne (h x List.mem_cons_self).symm]

/-- The last entry of a key wins. -/
theorem lookup_keyBy_last (pre post : List TrackMetadata)
    (h : ∀ x ∈ post, getPeerIdMid userId x.mid ≠ getPeerIdMid userId m.mid) :
    (keyBy userId (pre ++ m :: post)).lookup (getPeerIdMid userId m.mid) = some m := by
  rw [keyBy_append, List.foldl_cons, lookup_foldl_insert_of_ne post h, AList.lookup_insert]

theorem exists_mem_of_lookup_keyBy {k : String} (l : List TrackMetadata)
    (h : (keyBy userId l).lookup k = some m) : m ∈ l ∧ getPeerIdMid userId m.mid = k := by
  induction l using List.reverseRecOn with
  | nil => cases h
  | append_singleton l x ih =>
    rw [keyBy_append, List.foldl_cons, List.foldl_nil] at h
    by_cases hk : k = getPeerIdMid userId x.mid
    · subst hk
      rw [AList.lookup_insert, Option.some.injEq] at h
      subst h
      exact ⟨List.mem_append_right _ (List.mem_singleton_self _), rfl⟩
    · rw [AList.lookup_insert_ne hk] at h
      exact ⟨List.mem_append_left _ (ih h).1, (ih h).2⟩

theorem lookup_keyBy_isSome (userId : String) (l : List TrackMetadata) (h : m ∈ l) :
    ∃ m', (keyBy userId l).lookup (getPeerIdMid userId m.mid) = some m' := by
  induction l using List.reverseRecOn with
  | nil => cases h
  | append_singleton l x ih =>
    rw [keyBy_append, List.foldl_cons, List.foldl_nil]
    by_cases hk : getPeerIdMid userId m.mid = getPeerIdMid userId x.mid
    · exact ⟨x, by rw [hk, AList.lookup_insert]⟩
    · rw [AList.lookup_insert_ne hk]
      rcases List.mem_append.mp h with h | h
      · exact ih h
      · rw [List.mem_singleton] at h
        exact absurd (by rw [h]) hk

end KeyBy

/-- Tracks the first loop of `setMetadata` removes. -/
def lost (st : StreamsState) (M : AList fun _ : String => TrackMetadata) : List String :=
  (st.tracksByPeerIdMid.entries.filter fun x =>
    decide (M.lookup x.1 = none ∧ x.2.association ≠ none)).map fun x => x.2.track

section Metadata

variable {st : StreamsState} {M : AList fun _ : String => TrackMetadata}

theorem foldl_lost : st.tracksByPeerIdMid.entries.foldl (fun newState x =>
    if M.lookup x.1 = none ∧ x.2.association ≠ none then removeTrack newState x.2.track
    else newState) st = (lost st M).foldl removeTrack st := by
  rw [lost, List.foldl_map, List.foldl_filter]
  simp only [decide_eq_true_eq]

theorem mem_lost {k t : String} {a : Option TrackAssociation} (hC : Coherent st)
    (h : entry st k = some (t, a)) : t ∈ lost st M ↔ M.lookup k = none ∧ a ≠ none := by
  obtain ⟨i, hi, rfl, rfl⟩ := entry_eq_some.mp h
  simp only [lost, List.mem_map, List.mem_filter, decide_eq_true_eq]
  constructor
  · rintro ⟨⟨k', i'⟩, ⟨hmem, hM, ha⟩, htrack⟩
    have hi' : st.tracksByPeerIdMid.lookup k' = some i' := AList.mem_lookup_iff.mpr hmem
    simp only at htrack
    obtain rfl := hC.inj h (htrack ▸ entry_of_lookup hi')
    rw [hi, Option.some.injEq] at hi'
    exact hi' ▸ ⟨hM, ha⟩
  · rintro ⟨hM, ha⟩
    exact ⟨⟨k, i⟩, ⟨AList.mem_lookup_iff.mp hi, hM, ha⟩, rfl⟩

variable {N N' : StreamsState} {userId : String} {m m' : TrackMetadata} {rest : List TrackMetadata}
  {t : String} {a : Option TrackAssociation}

/-- The second loop of `setMetadata` before the entries `rest`: a known track has the association its
metadata asks for, or still the one it had and an entry of `rest` to change it. -/
structure Applying (st : StreamsState) (M : AList fun _ : String => TrackMetadata) (userId : String)
    (N : StreamsState) (rest : List TrackMetadata) : Prop where
  rep : Rep N
  metadata : N.metadataByPeerIdMid = M
  absent : ∀ k, entry st k = none → entry N k = none
  known : ∀ k t a, entry st k = some (t, a) → ∃ A, entry N k = some (t, A) ∧
    (A = (M.lookup k).map TrackMetadata.target ∨ A = a ∧ ∃ m ∈ rest, getPeerIdMid userId m.mid = k)
  stale : ∀ u s t, Stale N u s t → Stale st u s t
  stays : ∀ u s t, Stale st u s t →
    (∀ k a, entry st k = some (t, a) → (M.lookup k).map TrackMetadata.target ≠ some ⟨s, u⟩) →
      Member N.streamsByUserId u s t

/-- One track moved to the association its metadata asks for. -/
theorem Applying.update (h : Applying st M userId N (m :: rest))
    (hst : entry st (getPeerIdMid userId m.mid) = some (t, a))
    (hM : M.lookup (getPeerIdMid userId m.mid) = some m') (hR : Rep N')
    (hmeta : N'.metadataByPeerIdMid = M)
    (hentry : ∀ k, entry N' k = if k = getPeerIdMid userId m.mid then some (t, some m'.target)
      else entry N k)
    (hstale : ∀ u s t, Stale N' u s t → Stale N u s t)
    (hmem : ∀ u s t', Member N.streamsByUserId u s t' → ¬ (t' = t ∧ Associated N u s t') →
      Member N'.streamsByUserId u s t') : Applying st M userId N' rest := by
  refine ⟨hR, hmeta, ?_, ?_, fun u s t' hs => h.stale u s t' (hstale u s t' hs), ?_⟩
  · intro k hk
    have hne : k ≠ getPeerIdMid userId m.mid := by
      rintro rfl
      rw [hst] at hk
      cases hk
    rw [hentry, if_neg hne]
    exact h.absent k hk
  · intro k t₁ a₁ hk
    rw [hentry]
    split_ifs with hkk
    · subst hkk
      rw [hst, Option.some.injEq, Prod.mk.injEq] at hk
      obtain ⟨rfl, rfl⟩ := hk
      exact ⟨_, rfl, Or.inl (by rw [hM, Option.map_some])⟩
    · obtain ⟨A, hA, hor⟩ := h.known k t₁ a₁ hk
      refine ⟨A, hA, hor.imp_right fun ⟨ha, x, hx, hxk⟩ => ⟨ha, x, ?_, hxk⟩⟩
      rcases List.mem_cons.mp hx with rfl | hx
      · exact absurd hxk.symm hkk
      · exact hx
  · intro u s t' hs hfinal
    refine hmem u s t' (h.stays u s t' hs hfinal) ?_
    rintro ⟨rfl, hassoc⟩
    obtain ⟨A, hA, hor⟩ := h.known _ _ _ hst
    have hAs := h.rep.toCoherent.associated_unique hA hassoc
    rcases hor with rfl | ⟨rfl, -⟩
    · exact hfinal _ _ hst hAs
    · exact hs.2 ⟨_, hst.trans (by rw [hAs])⟩

/-- Adding the track of an entry, in a state that differs from `N` by its association only. -/
theorem Applying.add (h : Applying st M userId N (m :: rest))
    (hst : entry st (getPeerIdMid userId m.mid) = some (t, a))
    (hM : M.lookup (getPeerIdMid userId m.mid) = some m') (streamId : String) (hR : Rep N')
    (hmeta : N'.metadataByPeerIdMid = M)
    (hB : entry N' (getPeerIdMid userId m.mid) = some (t, none) ∨
      entry N' (getPeerIdMid userId m.mid) = some (t, some m'.target))
    (hother : ∀ k, k ≠ getPeerIdMid userId m.mid → entry N' k = entry N k)
    (hstale : ∀ u s t, Stale N' u s t → Stale N u s t)
    (hmem : ∀ u s t', Member N.streamsByUserId u s t' → ¬ (t' = t ∧ Associated N u s t') →
      Member N'.streamsByUserId u s t') :
    Applying st M userId (addTrack N' { mid := m.mid, streamId, track := t, userId }) rest := by
  have hget : getUserId N' { mid := m.mid, streamId, track := t, userId } = m'.target :=
    getUserId_of_lookup (by rw [hmeta]; exact hM)
  have hkey : ∀ t₁ a₁, entry N' (getPeerIdMid userId m.mid) = some (t₁, a₁) →
      t₁ = t ∧ (a₁ = none ∨ a₁ = some m'.target) := by
    intro t₁ a₁ h1
    rcases hB with hB | hB <;> rw [hB, Option.some.injEq, Prod.mk.injEq] at h1
    · exact ⟨h1.1.symm, Or.inl h1.2.symm⟩
    · exact ⟨h1.1.symm, Or.inr h1.2.symm⟩
  have huniq : ∀ k a, entry N' k = some (t, a) → k = getPeerIdMid userId m.mid := by
    intro k a hk
    rcases hB with hB | hB <;> exact hR.inj hk hB
  obtain ⟨hC, hentry, hlink⟩ := addTrack_spec (p := { mid := m.mid, streamId, track := t, userId })
    hR.toCoherent (fun t₁ a₁ h1 => (hkey t₁ a₁ h1).1) huniq
  refine h.update hst hM ⟨hC, fun t₁ => hlink t₁ (hR.linked t₁)⟩ hmeta ?_ ?_ ?_
  · intro k
    rw [hentry, hget]
    split_ifs with hk
    · rfl
    · exact hother k hk
  · intro u s t₁ hs
    exact hstale u s t₁ (hs.of_addTrack hR.toCoherent (by rw [hget]; exact hkey) huniq)
  · intro u s t₁ hm hn
    exact ((member_addTrack hR.shaped).2 u s t₁).mpr (Or.inl (hmem u s t₁ hm hn))

/-- **One turn** of the second loop. -/
theorem Applying.step (h : Applying st M userId N (m :: rest))
    (hM : M.lookup (getPeerIdMid userId m.mid) = some m')
    (hlast : (∀ x ∈ rest, getPeerIdMid userId x.mid ≠ getPeerIdMid userId m.mid) → m' = m) :
    Applying st M userId (applyMetadata st userId N m) rest := by
  unfold applyMetadata
  cases hi : st.tracksByPeerIdMid.lookup (getPeerIdMid userId m.mid) with
  | none =>
    have hst : entry st (getPeerIdMid userId m.mid) = none := by simp [entry, hi]
    refine ⟨h.rep, h.metadata, h.absent, ?_, h.stale, h.stays⟩
    intro k t a hk
    obtain ⟨A, hA, hor⟩ := h.known k t a hk
    refine ⟨A, hA, hor.imp_right ?_⟩
    rintro ⟨ha, x, hx, hxk⟩
    refine ⟨ha, x, ?_, hxk⟩
    rcases List.mem_cons.mp hx with rfl | hx
    · rw [← hxk, hst] at hk
      cases hk
    · exact hx
  | some i =>
    have hst := entry_of_lookup hi
    obtain ⟨A, hA, hor⟩ := h.known _ _ _ hst
    cases ha : i.association with
    | none =>
      rw [ha] at hor
      simp only [ha]
      refine h.add hst hM m.streamId h.rep h.metadata ?_ (fun _ _ => rfl) (fun _ _ _ hs => hs)
        fun _ _ _ hm _ => hm
      rcases hor with rfl | ⟨rfl, -⟩
      · exact Or.inr (by rw [hA, hM, Option.map_some])
      · exact Or.inl hA
    | some b =>
      simp only [ha]
      split_ifs with hmatch
      · -- the association is right for this entry; if it is the last of its key, it is the final one
        refine ⟨h.rep, h.metadata, h.absent, ?_, h.stale, h.stays⟩
        intro k t a hk
        obtain ⟨A', hA', hor'⟩ := h.known k t a hk
        refine ⟨A', hA', ?_⟩
        rcases hor' with hor' | ⟨rfl, x, hx, hxk⟩
        · exact Or.inl hor'
        · rcases List.mem_cons.mp hx with rfl | hx
          · by_cases hlater : ∃ y ∈ rest, getPeerIdMid userId y.mid = getPeerIdMid userId x.mid
            · obtain ⟨y, hy, hyk⟩ := hlater
              exact Or.inr ⟨rfl, y, hy, hyk.trans hxk⟩
            · obtain rfl := hlast fun y hy hyk => hlater ⟨y, hy, hyk⟩
              subst hxk
              rw [hst, Option.some.injEq, Prod.mk.injEq, ha] at hk
              refine Or.inl ?_
              rw [← hk.2, hM, Option.map_some, TrackMetadata.target, ← hmatch.1, ← hmatch.2]
          · exact Or.inr ⟨rfl, x, hx, hxk⟩
      · obtain ⟨-, hentry, hmem⟩ := removeTrack_spec h.rep.toCoherent (h.rep.linked i.track)
        refine h.add hst hM b.streamId (removeTrack_rep h.rep i.track)
          (removeTrack_metadata.trans h.metadata) (Or.inl ?_) ?_ ?_ ?_
        · rw [hentry, hA]
          simp [clear]
        · intro k hk
          rw [hentry]
          cases he : entry N k with
          | none => rfl
          | some y =>
            have hy : y.1 ≠ i.track := by
              intro hy
              exact hk (h.rep.inj (he.trans (by rw [← hy])) hA)
            simp [clear, hy]
        · exact fun _ _ _ hs => hs.of_removeTrack h.rep.toCoherent (h.rep.linked i.track)
        · exact fun u s t' hm hn => (hmem u s t').mpr ⟨hm, hn⟩

/-- After the first loop. -/
theorem applying_start (h : Rep st) (userId : String) (metadata : List TrackMetadata) :
    Applying st (keyBy userId metadata) userId
      { (lost st (keyBy userId metadata)).foldl removeTrack st with
        metadataByPeerIdMid := keyBy userId metadata } metadata := by
  obtain ⟨hR, hentry, -, hS⟩ := foldl_removeTrack_spec (lost st (keyBy userId metadata)) h
  refine ⟨⟨⟨hR.inj, hR.back, hR.holds, hR.shaped⟩, hR.linked⟩, rfl, ?_, ?_, fun u s t => (hS u s t).mp,
    fun u s t hs _ => ((hS u s t).mpr hs).1⟩
  · intro k hk
    exact (hentry k).trans (by rw [hk, Option.map_none])
  · intro k t a hk
    refine ⟨if t ∈ lost st (keyBy userId metadata) then none else a, ?_, ?_⟩
    · refine (hentry k).trans ?_
      rw [hk, Option.map_some, clear]
      split_ifs <;> rfl
    · simp only [mem_lost h.toCoherent hk]
      cases hM : (keyBy userId metadata).lookup k with
      | none => cases a <;> simp
      | some m => exact Or.inr ⟨by simp, m, exists_mem_of_lookup_keyBy metadata hM⟩

theorem applying_foldl {metadata : List TrackMetadata} : ∀ (rest pre : List TrackMetadata),
    metadata = pre ++ rest → ∀ {N : StreamsState},
      Applying st (keyBy userId metadata) userId N rest →
        Applying st (keyBy userId metadata) userId (rest.foldl (applyMetadata st userId) N) [] := by
  intro rest
  induction rest with
  | nil => exact fun _ _ _ h => h
  | cons m rest ih =>
    intro pre hsplit N h
    rw [List.foldl_cons]
    obtain ⟨m', hm'⟩ := lookup_keyBy_isSome userId metadata
      (hsplit ▸ List.mem_append_right _ List.mem_cons_self : m ∈ metadata)
    refine ih (pre ++ [m]) (by rw [hsplit, List.append_assoc, List.singleton_append]) (h.step hm' ?_)
    intro hlast
    rw [hsplit, lookup_keyBy_last pre rest hlast, Option.some.injEq] at hm'
    exact hm'.symm

/-- **`setMetadata`** gives every known track the association its metadata asks for, or none; tracks
left behind in a stream stay there. -/
theorem setMetadata_spec (h : Rep st) (p : MetadataPayload) :
    Rep (setMetadata st p) ∧
      (setMetadata st p).metadataByPeerIdMid = keyBy p.userId p.metadata ∧
      (∀ k, entry (setMetadata st p) k = (entry st k).map fun x =>
        (x.1, ((keyBy p.userId p.metadata).lookup k).map TrackMetadata.target)) ∧
      ∀ u s t, Member (setMetadata st p).streamsByUserId u s t ↔
        Stale st u s t ∨ Associated (setMetadata st p) u s t := by
  have hA : Applying st (keyBy p.userId p.metadata) p.userId (setMetadata st p) [] := by
    have hend := applying_foldl p.metadata [] rfl (applying_start h p.userId p.metadata)
    rw [← foldl_lost] at hend
    exact hend
  have hentry : ∀ k, entry (setMetadata st p) k = (entry st k).map fun x =>
      (x.1, ((keyBy p.userId p.metadata).lookup k).map TrackMetadata.target) := by
    intro k
    cases hk : entry st k with
    | none => exact hA.absent k hk
    | some x =>
      obtain ⟨A, hkA, rfl | ⟨-, m, hm, -⟩⟩ := hA.known k x.1 x.2 hk
      · exact hkA
      · cases hm
  refine ⟨hA.rep, hA.metadata, hentry, fun u s t => ⟨fun hm => ?_, ?_⟩⟩
  · by_cases ha : Associated (setMetadata st p) u s t
    · exact Or.inr ha
    · exact Or.inl (hA.stale u s t ⟨hm, ha⟩)
  · rintro (hs | ha)
    · by_cases hfinal : ∃ k a, entry st k = some (t, a) ∧
        ((keyBy p.userId p.metadata).lookup k).map TrackMetadata.target = some ⟨s, u⟩
      · obtain ⟨k, a, hk, htarget⟩ := hfinal
        exact hA.rep.holds ⟨k, by rw [hentry, hk, Option.map_some, htarget]⟩
      · exact hA.stays u s t hs fun k a hk htarget => hfinal ⟨k, a, hk, htarget⟩
    · exact hA.rep.holds ha

end Metadata

/-! ### `unassociateUserTracks` -/

section Unassociate

variable {st : StreamsState} {userId : String}

/-- The tracks in the streams of a user. -/
def tracksOf (st : StreamsState) (userId : String) : List String :=
  match st.streamsByUserId.lookup userId with
  | none => []
  | some userStreams => userStreams.streams.flatMap fun s => s.stream.tracks

theorem mem_tracksOf {t : String} : t ∈ tracksOf st userId ↔ ∃ s, Member st.streamsByUserId userId s t := by
  unfold tracksOf
  cases h : st.streamsByUserId.lookup userId with
  | none => simp [Member, h]
  | some us =>
    simp only [List.mem_flatMap, member_of_lookup h]
    constructor
    · rintro ⟨x, hx, ht⟩
      exact ⟨x.streamId, x, hx, rfl, ht⟩
    · rintro ⟨s, x, hx, -, ht⟩
      exact ⟨x, hx, ht⟩

theorem unassociatedInfo_eq_some {t : String} {x : String × TrackInfo} (hC : Coherent st)
    (h : unassociatedInfo st t = some x) :
    (∃ a, entry st x.1 = some (t, a)) ∧ x.2.track = t ∧ x.2.association = none := by
  simp only [unassociatedInfo, Option.bind_eq_bind, Option.bind_eq_some_iff, Option.some.injEq] at h
  obtain ⟨k, hk, i, -, rfl⟩ := h
  exact ⟨hC.back hk, rfl, rfl⟩

/-- The writes for the tracks `T`, one after the other. -/
theorem entry_foldl_insert (hC : Coherent st) : ∀ (T : List String) (infos : List (String × TrackInfo)),
    T.mapM (unassociatedInfo st) = some infos → ∀ (T₀ : List String) (N N' : StreamsState),
      (∀ k, entry N k = (entry st k).map (clear T₀)) →
      N'.tracksByPeerIdMid = infos.foldl (fun m x => m.insert x.1 x.2) N.tracksByPeerIdMid →
        ∀ k, entry N' k = (entry st k).map (clear (T₀ ++ T)) := by
  intro T
  induction T with
  | nil =>
    intro infos hinfos T₀ N N' hN hN' k
    obtain rfl : infos = [] := by simpa using hinfos.symm
    rw [List.append_nil, ← hN, entry, hN']
    rfl
  | cons t T ih =>
    intro infos hinfos T₀ N N' hN hN' k
    simp only [List.mapM_cons, Option.bind_eq_bind, Option.bind_eq_some_iff, Option.pure_def,
      Option.some.injEq] at hinfos
    obtain ⟨x, hx, infos', hinfos', rfl⟩ := hinfos
    obtain ⟨⟨a, ha⟩, htrack, hnone⟩ := unassociatedInfo_eq_some hC hx
    rw [List.append_cons]
    refine ih infos' hinfos' (T₀ ++ [t])
      { N with tracksByPeerIdMid := N.tracksByPeerIdMid.insert x.1 x.2 } N' ?_ hN' k
    intro k'
    rw [← map_clear_clear, ← hN, entry_insert N rfl, htrack, hnone]
    -- only the entry at `x.1` has the track
    by_cases hk : k' = x.1
    · rw [if_pos hk, hk, hN, ha, Option.map_some, clear]
      split_ifs <;> simp [clear]
    · rw [if_neg hk]
      cases he : entry N k' with
      | none => rfl
      | some y =>
        have hy : y.1 ≠ t := by
          rintro rfl
          rw [hN, map_clear_eq_some] at he
          rcases he with ⟨-, -, b, hb⟩ | ⟨-, hb⟩ <;> exact hk (hC.inj hb ha)
        simp [clear, hy]

/-- **`unassociateUserTracks`** clears the associations of the tracks in the streams of the user, and
drops these streams. -/
theorem unassociateUserTracks_spec {st' : StreamsState} (h : Rep st)
    (hst' : unassociateUserTracks st userId = some st') :
    Rep st' ∧ st'.metadataByPeerIdMid = st.metadataByPeerIdMid ∧
      (∀ k, entry st' k = (entry st k).map (clear (tracksOf st userId))) ∧
      ∀ u s t, Member st'.streamsByUserId u s t ↔ u ≠ userId ∧ Member st.streamsByUserId u s t := by
  unfold unassociateUserTracks at hst'
  cases hus : st.streamsByUserId.lookup userId with
  | none =>
    rw [hus, Option.some.injEq] at hst'
    subst hst'
    refine ⟨h, rfl, fun k => ?_, fun u s t => ?_⟩
    · simp only [tracksOf, hus]
      exact (map_clear_nil _).symm
    · refine (and_iff_right_of_imp ?_).symm
      rintro ⟨us, hu, -⟩ rfl
      rw [hus] at hu
      cases hu
  | some us =>
    simp only [hus, Option.bind_eq_bind, Option.bind_eq_some_iff, Option.some.injEq] at hst'
    obtain ⟨infos, hinfos, rfl⟩ := hst'
    have hT : tracksOf st userId = us.streams.flatMap fun s => s.stream.tracks := by
      simp only [tracksOf, hus]
    rw [← hT] at hinfos
    have hentry := entry_foldl_insert h.toCoherent _ infos hinfos [] st
      { st with
        streamsByUserId := st.streamsByUserId.erase userId
        tracksByPeerIdMid := infos.foldl (fun m x => m.insert x.1 x.2) st.tracksByPeerIdMid }
      (fun k => (map_clear_nil _).symm) rfl
    rw [List.nil_append] at hentry
    have hmem : ∀ u s t, Member (st.streamsByUserId.erase userId) u s t ↔
        u ≠ userId ∧ Member st.streamsByUserId u s t := by
      intro u s t
      by_cases hu : u = userId
      · subst hu
        exact ⟨fun hm => absurd hm not_member_erase_self, fun hm => absurd rfl hm.1⟩
      · rw [member_erase_of_ne hu, and_iff_right hu]
    refine ⟨⟨h.clear hentry rfl h.shaped.erase ?_, fun t => (h.linked t).clear hentry rfl⟩, rfl, hentry,
      hmem⟩
    intro u s t hm _ ht
    refine (hmem u s t).mpr ⟨?_, hm⟩
    rintro rfl
    exact ht (mem_tracksOf.mpr ⟨s, hm⟩)

/-- It does not throw when the tracks in the streams are known. -/
theorem unassociateUserTracks_isSome (h : Rep st)
    (hknown : ∀ s t, Member st.streamsByUserId userId s t → ∃ k a, entry st k = some (t, a)) :
    (unassociateUserTracks st userId).isSome := by
  unfold unassociateUserTracks
  cases hus : st.streamsByUserId.lookup userId with
  | none => rfl
  | some us =>
    have hmap : ∀ T : List String, (∀ t ∈ T, ∃ k a, entry st k = some (t, a)) →
        ∃ infos, T.mapM (unassociatedInfo st) = some infos := by
      intro T hT
      induction T with
      | nil => exact ⟨[], rfl⟩
      | cons t T ih =>
        obtain ⟨k, a, hk⟩ := hT t List.mem_cons_self
        obtain ⟨infos, hinfos⟩ := ih fun t' ht' => hT t' (List.mem_cons_of_mem _ ht')
        obtain ⟨i, hi, -⟩ := entry_eq_some.mp hk
        exact ⟨(k, { track := t, mid := i.mid, association := none }) :: infos,
          by simp [unassociatedInfo, h.linked t k a hk, hi, hinfos]⟩
    obtain ⟨infos, hinfos⟩ := hmap (us.streams.flatMap fun s => s.stream.tracks) (by
      intro t ht
      obtain ⟨x, hx, ht⟩ := List.mem_flatMap.mp ht
      exact hknown x.streamId t ⟨us, hus, x, hx, rfl, ht⟩)
    simp [hinfos]

end Unassociate

/-! ### `removePeer` -/

section RemovePeer

variable {st N : StreamsState}

theorem removeTrack_eq_self {t : String} (hC : Coherent st)
    (h : ∀ k a, entry st k = some (t, a) → a = none) : removeTrack st t = st := by
  unfold removeTrack
  cases hid : st.trackIdToPeerIdMid.lookup t with
  | none => rfl
  | some k =>
    obtain ⟨a, hk⟩ := hC.back hid
    obtain ⟨i, hi, -, hia⟩ := entry_eq_some.mp hk
    simp only [hi, hia, h k a hk]

/-- The tracks at the keys `K`. -/
def tracksAt (st : StreamsState) (K : List String) : List String :=
  K.filterMap fun k => (entry st k).map Prod.fst

theorem mem_tracksAt {K : List String} {t : String} :
    t ∈ tracksAt st K ↔ ∃ k ∈ K, ∃ a, entry st k = some (t, a) := by
  simp [tracksAt, List.mem_filterMap]

theorem mem_tracksAt_of_entry {K : List String} {k t : String} {a : Option TrackAssociation}
    (hC : Coherent st) (hk : entry st k = some (t, a)) : t ∈ tracksAt st K ↔ k ∈ K := by
  rw [mem_tracksAt]
  constructor
  · rintro ⟨k', hk', a', ha'⟩
    exact hC.inj hk ha' ▸ hk'
  · exact fun h => ⟨k, h, a, hk⟩

/-- The loop of `removePeer` after the keys `K`. -/
structure Removing (st : StreamsState) (K : List String) (N : StreamsState) : Prop where
  coherent : Coherent N
  entry_eq : ∀ k, entry N k = (entry st k).map (clear (tracksAt st K))
  ids : ∀ t, N.trackIdToPeerIdMid.lookup t =
    if t ∈ tracksAt st K then none else st.trackIdToPeerIdMid.lookup t
  metadata : N.metadataByPeerIdMid = st.metadataByPeerIdMid
  member : ∀ u s t, Member N.streamsByUserId u s t ↔
    Member st.streamsByUserId u s t ∧ ¬ (t ∈ tracksAt st K ∧ Associated st u s t)

/-- **One turn** of the loop of `removePeer`. -/
theorem Removing.step {K : List String} {k : String} (hR : Rep st) (h : Removing st K N)
    (hk : k ∉ K) : Removing st (K ++ [k]) (removeKey st N k) := by
  unfold removeKey
  cases hi : st.tracksByPeerIdMid.lookup k with
  | none =>
    have hK : tracksAt st (K ++ [k]) = tracksAt st K := by simp [tracksAt, entry, hi]
    exact ⟨h.coherent, hK ▸ h.entry_eq, hK ▸ h.ids, h.metadata, hK ▸ h.member⟩
  | some i =>
    have hst := entry_of_lookup hi
    have hK : tracksAt st (K ++ [k]) = tracksAt st K ++ [i.track] := by simp [tracksAt, hst]
    have ht : i.track ∉ tracksAt st K := fun hm => hk ((mem_tracksAt_of_entry hR.toCoherent hst).mp hm)
    have hN : ∀ k' a, entry N k' = some (i.track, a) → k' = k ∧ a = i.association := by
      intro k' a hk'
      rw [h.entry_eq, map_clear_eq_some] at hk'
      rcases hk' with ⟨hm, -⟩ | ⟨-, hk'⟩
      · exact absurd hm ht
      · obtain rfl := hR.inj hk' hst
        rw [hst, Option.some.injEq, Prod.mk.injEq] at hk'
        exact ⟨rfl, hk'.2.symm⟩
    have hL : Linked N i.track := by
      intro k' a hk'
      rw [h.ids, if_neg ht, (hN k' a hk').1]
      exact hR.linked _ _ _ hst
    -- the test of the association saves a call that would change nothing
    have hif : (if i.association ≠ none then removeTrack N i.track else N) = removeTrack N i.track := by
      split_ifs with ha
      · rfl
      · rw [not_not] at ha
        exact (removeTrack_eq_self h.coherent fun k' a hk' => (hN k' a hk').2.trans ha).symm
    obtain ⟨hC, hentry, hmem⟩ := removeTrack_spec h.coherent hL
    simp only [hif]
    refine ⟨⟨hC.inj, ?_, hC.holds, hC.shaped⟩, ?_, ?_, removeTrack_metadata.trans h.metadata, ?_⟩
    · intro t k' hlook
      by_cases htt : t = i.track
      · subst htt
        rw [AList.lookup_erase] at hlook
        cases hlook
      · rw [AList.lookup_erase_ne htt] at hlook
        exact hC.back hlook
    · intro k'
      rw [hK, ← map_clear_clear, ← h.entry_eq]
      exact hentry k'
    · intro t
      rw [hK, removeTrack_ids]
      by_cases htt : t = i.track
      · subst htt
        rw [AList.lookup_erase, if_pos (List.mem_append_right _ (List.mem_singleton_self _))]
      · rw [AList.lookup_erase_ne htt, h.ids]
        simp [htt]
    · intro u s t
      rw [hmem, h.member, hK, associated_clear h.entry_eq, List.mem_append, List.mem_singleton]
      constructor
      · rintro ⟨⟨hm, h1⟩, h2⟩
        refine ⟨hm, ?_⟩
        rintro ⟨h3 | rfl, ha⟩
        · exact h1 ⟨h3, ha⟩
        · exact h2 ⟨rfl, ha, ht⟩
      · rintro ⟨hm, h1⟩
        exact ⟨⟨hm, fun h2 => h1 ⟨Or.inl h2.1, h2.2⟩⟩, fun h2 => h1 ⟨Or.inr h2.1, h2.2.1⟩⟩

theorem removing_foldl (hR : Rep st) (K : List String) (hK : K.Nodup) :
    Removing st K (K.foldl (removeKey st) st) := by
  induction K using List.reverseRecOn with
  | nil =>
    refine ⟨hR.toCoherent, fun k => (map_clear_nil _).symm, fun t => by simp [tracksAt], rfl, fun u s t => ?_⟩
    exact (and_iff_left fun hm => absurd hm.1 List.not_mem_nil).symm
  | append_singleton K k ih =>
    rw [List.foldl_append, List.foldl_cons, List.foldl_nil]
    obtain ⟨h1, -, h2⟩ := List.nodup_append.mp hK
    exact (ih h1).step hR fun hm => h2 k hm k (List.mem_singleton_self _) rfl

theorem lookup_foldl_erase (K : List String) : ∀ (m : AList fun _ : String => TrackInfo) (k : String),
    (K.foldl (fun m key => m.erase key) m).lookup k = if k ∈ K then none else m.lookup k := by
  induction K with
  | nil => exact fun m k => by simp
  | cons x K ih =>
    intro m k
    rw [List.foldl_cons, ih]
    by_cases hk : k = x
    · subst hk
      simp
    · simp [hk, AList.lookup_erase_ne hk]

/-- A known key is removed when it is one of the peer's. -/
theorem mem_removed_keys {userId k : String} {x : String × Option TrackAssociation} (hk : entry st k = some x) :
    k ∈ st.tracksByPeerIdMid.keys.filter (isKeyOf userId) ↔ isKeyOf userId k = true := by
  obtain ⟨i, hi, -⟩ := entry_eq_some.mp (show entry st k = some (x.1, x.2) from hk)
  rw [List.mem_filter, ← AList.mem_keys, ← AList.lookup_isSome, hi]
  simp

theorem entry_removePeer (userId k : String) :
    entry (removePeer st userId) k = if isKeyOf userId k then none else entry st k := by
  unfold entry removePeer
  simp only [lookup_foldl_erase]
  cases hi : st.tracksByPeerIdMid.lookup k with
  | none => simp
  | some i =>
    simp only [mem_removed_keys (entry_of_lookup hi)]
    split_ifs <;> rfl

/-- **`removePeer`** drops the entries of the peer, and takes their tracks out of the streams they are
associated with. -/
theorem removePeer_spec (h : Rep st) (userId : String) :
    Rep (removePeer st userId) ∧
      (removePeer st userId).metadataByPeerIdMid = st.metadataByPeerIdMid ∧
      (∀ k, entry (removePeer st userId) k = if isKeyOf userId k then none else entry st k) ∧
      ∀ u s t, Member (removePeer st userId).streamsByUserId u s t ↔
        Member st.streamsByUserId u s t ∧
          ¬ ∃ k, isKeyOf userId k ∧ entry st k = some (t, some ⟨s, u⟩) := by
  have hN := removing_foldl h (st.tracksByPeerIdMid.keys.filter (isKeyOf userId))
    (st.tracksByPeerIdMid.keys_nodup.filter _)
  have hassoc : ∀ u s t, (t ∈ tracksAt st (st.tracksByPeerIdMid.keys.filter (isKeyOf userId)) ∧
      Associated st u s t) ↔ ∃ k, isKeyOf userId k ∧ entry st k = some (t, some ⟨s, u⟩) := by
    intro u s t
    constructor
    · rintro ⟨ht, k, hk⟩
      rw [mem_tracksAt_of_entry h.toCoherent hk, mem_removed_keys hk] at ht
      exact ⟨k, ht, hk⟩
    · rintro ⟨k, hkey, hk⟩
      exact ⟨(mem_tracksAt_of_entry h.toCoherent hk).mpr ((mem_removed_keys hk).mpr hkey), k, hk⟩
  have hmem : ∀ u s t, Member (removePeer st userId).streamsByUserId u s t ↔
      Member st.streamsByUserId u s t ∧
        ¬ ∃ k, isKeyOf userId k ∧ entry st k = some (t, some ⟨s, u⟩) := by
    intro u s t
    rw [← hassoc]
    exact hN.member u s t
  have hold : ∀ {k x}, entry (removePeer st userId) k = some x →
      isKeyOf userId k = false ∧ entry st k = some x := by
    intro k x hk
    rw [entry_removePeer] at hk
    split_ifs at hk with hkey
    exact ⟨by simpa using hkey, hk⟩
  refine ⟨⟨⟨?_, ?_, ?_, hN.coherent.shaped⟩, ?_⟩, hN.metadata, entry_removePeer userId, hmem⟩
  · intro k k' t a a' hk hk'
    exact h.inj (hold hk).2 (hold hk').2
  · intro t k hlook
    have hids := hN.ids t
    split_ifs at hids with ht
    · cases hlook.symm.trans hids
    · obtain ⟨a, hk⟩ := h.back (hids.symm.trans hlook)
      rw [mem_tracksAt_of_entry h.toCoherent hk, mem_removed_keys hk] at ht
      exact ⟨a, by rw [entry_removePeer, if_neg ht, hk]⟩
  · rintro u s t ⟨k, hk⟩
    obtain ⟨hkey, hk⟩ := hold hk
    refine (hmem u s t).mpr ⟨h.holds ⟨k, hk⟩, ?_⟩
    rintro ⟨k', hkey', hk'⟩
    rw [h.inj hk' hk, hkey] at hkey'
    cases hkey'
  · intro t k a hk
    obtain ⟨hkey, hk⟩ := hold hk
    have hids := hN.ids t
    rw [if_neg] at hids
    · exact hids.trans (h.linked t k a hk)
    · rw [mem_tracksAt_of_entry h.toCoherent hk, mem_removed_keys hk, hkey]
      simp

end RemovePeer

end Meeting.Streams
