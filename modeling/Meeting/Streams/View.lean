import Meeting.Streams.State

/-!
# Meeting.Streams.View — streams as a view of the track associations

`entry st k` is what the state knows of the track at key `k`: its id and its association.  `Member` says
that a track is in a stream of a user.  The two are linked by `Coherent`: an associated track is in the
stream of its association, no stream and no stream list is empty, and a track has one key.  A track may
also be `Stale` in a stream: added there once and re-added elsewhere without being removed first.

`Coherent` is kept by both primitive operations, and what they do is then said by `entry` and `Member`:

* `removeTrack_spec`: the association of the track is cleared, and the track leaves that stream;
* `addTrack_spec`: the track at the key of the payload gets the association `getUserId`, and joins
  that stream.

`Linked st t` (the record of track ids knows the key of `t`) is kept apart, since `removePeer` breaks it for
the tracks it has dealt with while it works on the others.
-/

namespace Meeting.Streams

/-! ### Streams of one user -/

/-- Track `t` is in the stream with id `s`. -/
def Has (l : List StreamWithURL) (s t : String) : Prop := ∃ x ∈ l, x.streamId = s ∧ t ∈ x.stream.tracks

/-- Streams are not empty and have different ids. -/
structure WellFormed (l : List StreamWithURL) : Prop where
  tracks : ∀ x ∈ l, x.stream.tracks ≠ []
  ids : (l.map StreamWithURL.streamId).Nodup

section Lists

variable {l : List StreamWithURL} {s t : String}

theorem has_nil : ¬ Has [] s t := by
  rintro ⟨x, hx, -⟩
  exact absurd hx List.not_mem_nil

theorem has_cons {x : StreamWithURL} :
    Has (x :: l) s t ↔ x.streamId = s ∧ t ∈ x.stream.tracks ∨ Has l s t := by
  simp [Has]

theorem WellFormed.tail {x : StreamWithURL} (h : WellFormed (x :: l)) : WellFormed l :=
  ⟨fun y hy => h.tracks y (List.mem_cons_of_mem _ hy), (List.nodup_cons.mp h.ids).2⟩

/-- The head's id does not occur again. -/
theorem WellFormed.not_has_tail {x : StreamWithURL} (h : WellFormed (x :: l)) :
    ¬ Has l x.streamId t := by
  rintro ⟨y, hy, hid, -⟩
  exact (List.nodup_cons.mp h.ids).1 (hid ▸ List.mem_map_of_mem hy)

theorem has_addToStream (s t s' t' : String) :
    Has (addToStream s t l) s' t' ↔ Has l s' t' ∨ s' = s ∧ t' = t := by
  induction l with
  | nil => simp [addToStream, Has, MediaStream.new, eq_comm]
  | cons x l ih =>
    unfold addToStream
    by_cases hx : x.streamId = s
    · rw [if_pos hx, has_cons, has_cons]
      simp only [MediaStream.mem_addTrack, hx]
      tauto
    · rw [if_neg hx, has_cons, has_cons, ih]
      tauto

theorem addToStream_ne_nil : addToStream s t l ≠ [] := by
  cases l with
  | nil => simp [addToStream]
  | cons x l =>
    unfold addToStream
    split_ifs <;> simp

theorem mem_ids_addToStream {id : String} : id ∈ (addToStream s t l).map StreamWithURL.streamId ↔
    id = s ∨ id ∈ l.map StreamWithURL.streamId := by
  induction l with
  | nil => simp [addToStream]
  | cons x l ih =>
    unfold addToStream
    by_cases hx : x.streamId = s
    · simp [hx]
    · rw [if_neg hx, List.map_cons, List.map_cons, List.mem_cons, List.mem_cons, ih]
      tauto

theorem wellFormed_addToStream (h : WellFormed l) : WellFormed (addToStream s t l) := by
  induction l with
  | nil => exact ⟨by simp [addToStream, MediaStream.new, MediaStream.addTrack], by simp [addToStream]⟩
  | cons x l ih =>
    have hnd := List.nodup_cons.mp h.ids
    unfold addToStream
    by_cases hx : x.streamId = s
    · rw [if_pos hx]
      refine ⟨?_, h.ids⟩
      intro y hy
      rcases List.mem_cons.mp hy with rfl | hy
      · exact List.ne_nil_of_mem (MediaStream.mem_addTrack.mpr (Or.inl rfl))
      · exact h.tail.tracks y hy
    · rw [if_neg hx]
      have ih' := ih h.tail
      refine ⟨?_, List.nodup_cons.mpr ⟨?_, ih'.ids⟩⟩
      · intro y hy
        rcases List.mem_cons.mp hy with rfl | hy
        · exact h.tracks _ List.mem_cons_self
        · exact ih'.tracks y hy
      · rw [mem_ids_addToStream]
        rintro (h1 | h1)
        · exact hx h1
        · exact hnd.1 h1

theorem has_removeFromStream (h : WellFormed l) (s t s' t' : String) :
    Has (removeFromStream s t l) s' t' ↔ Has l s' t' ∧ ¬ (s' = s ∧ t' = t) := by
  induction l with
  | nil => simp [removeFromStream, Has]
  | cons x l ih =>
    unfold removeFromStream
    by_cases hx : x.streamId = s
    · -- the tracks left in `x` are all but `t`, and no later stream has the id `s`
      have htail : ∀ u, ¬ Has l s u := fun u => hx ▸ h.not_has_tail
      rw [if_pos hx, has_cons, hx]
      split_ifs with hempty
      · have hout : ∀ u ∈ x.stream.tracks, u = t := by
          intro u hu
          by_contra hne
          have hmem : u ∈ (x.stream.removeTrack t).tracks := MediaStream.mem_removeTrack.mpr ⟨hne, hu⟩
          rw [hempty] at hmem
          exact absurd hmem List.not_mem_nil
        constructor
        · intro hl
          refine ⟨Or.inr hl, ?_⟩
          rintro ⟨rfl, -⟩
          exact htail _ hl
        · rintro ⟨⟨rfl, hu⟩ | hl, hne⟩
          · exact absurd ⟨rfl, hout _ hu⟩ hne
          · exact hl
      · rw [has_cons]
        simp only [MediaStream.mem_removeTrack]
        constructor
        · rintro (⟨rfl, hne, hu⟩ | hl)
          · exact ⟨Or.inl ⟨rfl, hu⟩, fun h' => hne h'.2⟩
          · refine ⟨Or.inr hl, ?_⟩
            rintro ⟨rfl, -⟩
            exact htail _ hl
        · rintro ⟨⟨rfl, hu⟩ | hl, hne⟩
          · exact Or.inl ⟨rfl, fun h' => hne ⟨rfl, h'⟩, hu⟩
          · exact Or.inr hl
    · rw [if_neg hx, has_cons, has_cons, ih h.tail]
      constructor
      · rintro (⟨rfl, hu⟩ | ⟨hl, hne⟩)
        · exact ⟨Or.inl ⟨rfl, hu⟩, fun h' => hx h'.1⟩
        · exact ⟨Or.inr hl, hne⟩
      · rintro ⟨⟨rfl, hu⟩ | hl, hne⟩
        · exact Or.inl ⟨rfl, hu⟩
        · exact Or.inr ⟨hl, hne⟩

theorem ids_removeFromStream_sublist :
    ((removeFromStream s t l).map StreamWithURL.streamId).Sublist (l.map StreamWithURL.streamId) := by
  induction l with
  | nil => exact List.Sublist.refl _
  | cons x l ih =>
    unfold removeFromStream
    split_ifs
    · exact List.sublist_cons_self _ _
    · exact List.Sublist.refl _
    · exact ih.cons_cons _

theorem wellFormed_removeFromStream (h : WellFormed l) : WellFormed (removeFromStream s t l) := by
  refine ⟨?_, h.ids.sublist ids_removeFromStream_sublist⟩
  induction l with
  | nil => exact h.tracks
  | cons x l ih =>
    unfold removeFromStream
    intro y hy
    split_ifs at hy with h1 h2
    · exact h.tracks y (List.mem_cons_of_mem _ hy)
    · rcases List.mem_cons.mp hy with rfl | hy
      · exact h2
      · exact h.tracks y (List.mem_cons_of_mem _ hy)
    · rcases List.mem_cons.mp hy with rfl | hy
      · exact h.tracks _ List.mem_cons_self
      · exact ih h.tail y hy

end Lists

/-! ### Streams of all users -/

/-- Track `t` is in the stream `s` of user `u`. -/
def Member (m : AList fun _ : String => UserStreams) (u s t : String) : Prop :=
  ∃ us, m.lookup u = some us ∧ Has us.streams s t

/-- No user has an empty stream list, no stream is empty, stream ids are unique per user. -/
def Shaped (m : AList fun _ : String => UserStreams) : Prop :=
  ∀ u us, m.lookup u = some us → us.streams ≠ [] ∧ WellFormed us.streams

section Users

variable {m : AList fun _ : String => UserStreams} {u u' s t : String} {us : UserStreams}

theorem member_of_lookup (h : m.lookup u = some us) : Member m u s t ↔ Has us.streams s t := by
  simp [Member, h]

theorem member_insert_self : Member (m.insert u us) u s t ↔ Has us.streams s t := by
  simp [Member, AList.lookup_insert]

theorem member_insert_of_ne (h : u' ≠ u) : Member (m.insert u us) u' s t ↔ Member m u' s t := by
  simp [Member, AList.lookup_insert_ne h]

theorem not_member_erase_self : ¬ Member (m.erase u) u s t := by
  simp [Member, AList.lookup_erase]

theorem member_erase_of_ne (h : u' ≠ u) : Member (m.erase u) u' s t ↔ Member m u' s t := by
  simp [Member, AList.lookup_erase_ne h]

theorem Shaped.insert (hm : Shaped m) (h1 : us.streams ≠ []) (h2 : WellFormed us.streams) :
    Shaped (m.insert u us) := by
  intro v vs hv
  by_cases hvu : v = u
  · subst hvu
    rw [AList.lookup_insert, Option.some.injEq] at hv
    exact hv ▸ ⟨h1, h2⟩
  · rw [AList.lookup_insert_ne hvu] at hv
    exact hm v vs hv

theorem Shaped.erase (hm : Shaped m) : Shaped (m.erase u) := by
  intro v vs hv
  by_cases hvu : v = u
  · subst hvu
    rw [AList.lookup_erase] at hv
    cases hv
  · rw [AList.lookup_erase_ne hvu] at hv
    exact hm v vs hv

end Users

/-! ### The state -/

/-- The track at a key and its association. -/
def entry (st : StreamsState) (k : String) : Option (String × Option TrackAssociation) :=
  (st.tracksByPeerIdMid.lookup k).map fun i => (i.track, i.association)

/-- Track `t` is associated with the stream `s` of user `u`. -/
def Associated (st : StreamsState) (u s t : String) : Prop := ∃ k, entry st k = some (t, some ⟨s, u⟩)

/-- Track `t` was left behind in the stream `s` of user `u`. -/
def Stale (st : StreamsState) (u s t : String) : Prop :=
  Member st.streamsByUserId u s t ∧ ¬ Associated st u s t

/-- Associated tracks are in their streams, and tracks have one key. -/
structure Coherent (st : StreamsState) : Prop where
  inj : ∀ {k k' t a a'}, entry st k = some (t, a) → entry st k' = some (t, a') → k = k'
  back : ∀ {t k}, st.trackIdToPeerIdMid.lookup t = some k → ∃ a, entry st k = some (t, a)
  holds : ∀ {u s t}, Associated st u s t → Member st.streamsByUserId u s t
  shaped : Shaped st.streamsByUserId

/-- The record of track ids knows the key of `t`. -/
def Linked (st : StreamsState) (t : String) : Prop :=
  ∀ k a, entry st k = some (t, a) → st.trackIdToPeerIdMid.lookup t = some k

theorem entry_of_lookup {st : StreamsState} {k : String} {i : TrackInfo}
    (h : st.tracksByPeerIdMid.lookup k = some i) : entry st k = some (i.track, i.association) := by
  simp [entry, h]

theorem entry_eq_some {st : StreamsState} {k t : String} {a : Option TrackAssociation} :
    entry st k = some (t, a) ↔
      ∃ i, st.tracksByPeerIdMid.lookup k = some i ∧ i.track = t ∧ i.association = a := by
  simp [entry, Prod.ext_iff]

/-- The entries after a write to the record of tracks. -/
theorem entry_insert (st : StreamsState) {st' : StreamsState} {k : String} {i : TrackInfo}
    (h : st'.tracksByPeerIdMid = st.tracksByPeerIdMid.insert k i) (k' : String) :
    entry st' k' = if k' = k then some (i.track, i.association) else entry st k' := by
  unfold entry
  rw [h]
  split_ifs with hk
  · subst hk
    rw [AList.lookup_insert, Option.map_some]
  · rw [AList.lookup_insert_ne hk]

/-! ### Clearing associations -/

/-- What clearing the associations of the tracks `T` does to an entry. -/
def clear (T : List String) (x : String × Option TrackAssociation) : String × Option TrackAssociation :=
  if x.1 ∈ T then (x.1, none) else x

section Clear

variable {st st' : StreamsState} {t : String} {T : List String}

theorem map_clear_eq_some {o : Option (String × Option TrackAssociation)}
    {a : Option TrackAssociation} : o.map (clear T) = some (t, a) ↔
      t ∈ T ∧ a = none ∧ (∃ b, o = some (t, b)) ∨ t ∉ T ∧ o = some (t, a) := by
  cases o with
  | none => simp
  | some x =>
    obtain ⟨t', a'⟩ := x
    simp only [Option.map_some, clear, Option.some.injEq, Prod.mk.injEq]
    by_cases h : t' ∈ T
    · rw [if_pos h]
      constructor
      · intro he
        obtain ⟨rfl, rfl⟩ := Prod.mk.inj he
        exact Or.inl ⟨h, rfl, a', rfl, rfl⟩
      · rintro (⟨_, rfl, _, rfl, _⟩ | ⟨hn, rfl, _⟩)
        · rfl
        · exact absurd h hn
    · rw [if_neg h]
      constructor
      · intro he
        obtain ⟨rfl, rfl⟩ := Prod.mk.inj he
        exact Or.inr ⟨h, rfl, rfl⟩
      · rintro (⟨ht, _, _, rfl, _⟩ | ⟨_, rfl, rfl⟩)
        · exact absurd ht h
        · rfl

theorem map_clear_nil (o : Option (String × Option TrackAssociation)) : o.map (clear []) = o := by
  cases o <;> simp [clear]

theorem map_clear_clear {T' : List String} (o : Option (String × Option TrackAssociation)) :
    (o.map (clear T)).map (clear T') = o.map (clear (T ++ T')) := by
  cases o with
  | none => rfl
  | some x =>
    simp only [Option.map_some, clear, List.mem_append]
    by_cases h1 : x.1 ∈ T <;> by_cases h2 : x.1 ∈ T' <;> simp [h1, h2]

/-- Clearing associations keeps a state coherent when the other tracks stay in their streams. -/
theorem Coherent.clear (hC : Coherent st)
    (hentry : ∀ k, entry st' k = (entry st k).map (clear T))
    (hids : st'.trackIdToPeerIdMid = st.trackIdToPeerIdMid) (hshape : Shaped st'.streamsByUserId)
    (hmember : ∀ u s t, Member st.streamsByUserId u s t → Associated st u s t → t ∉ T →
      Member st'.streamsByUserId u s t) : Coherent st' := by
  have hold : ∀ {k t a}, entry st' k = some (t, a) → ∃ b, entry st k = some (t, b) := by
    intro k t a h
    rw [hentry, map_clear_eq_some] at h
    rcases h with ⟨-, -, hb⟩ | ⟨-, h⟩
    · exact hb
    · exact ⟨a, h⟩
  refine ⟨?_, ?_, ?_, hshape⟩
  · intro k k' t a a' h h'
    obtain ⟨b, hb⟩ := hold h
    obtain ⟨b', hb'⟩ := hold h'
    exact hC.inj hb hb'
  · intro t k h
    rw [hids] at h
    obtain ⟨a, ha⟩ := hC.back h
    by_cases ht : t ∈ T
    · exact ⟨none, by rw [hentry, map_clear_eq_some]; exact Or.inl ⟨ht, rfl, a, ha⟩⟩
    · exact ⟨a, by rw [hentry, map_clear_eq_some]; exact Or.inr ⟨ht, ha⟩⟩
  · rintro u s t ⟨k, hk⟩
    rw [hentry, map_clear_eq_some] at hk
    rcases hk with ⟨-, h, -⟩ | ⟨ht, hk⟩
    · cases h
    · exact hmember u s t (hC.holds ⟨k, hk⟩) ⟨k, hk⟩ ht

/-- The associations that are left. -/
theorem associated_clear (hentry : ∀ k, entry st' k = (entry st k).map (clear T)) {u s : String} :
    Associated st' u s t ↔ Associated st u s t ∧ t ∉ T := by
  constructor
  · rintro ⟨k, hk⟩
    rw [hentry, map_clear_eq_some] at hk
    rcases hk with ⟨-, h, -⟩ | ⟨ht, hk⟩
    · cases h
    · exact ⟨⟨k, hk⟩, ht⟩
  · rintro ⟨⟨k, hk⟩, ht⟩
    exact ⟨k, by rw [hentry, map_clear_eq_some]; exact Or.inr ⟨ht, hk⟩⟩

theorem Linked.clear {T : List String} (hL : Linked st t)
    (hentry : ∀ k, entry st' k = (entry st k).map (clear T))
    (hids : st'.trackIdToPeerIdMid = st.trackIdToPeerIdMid) : Linked st' t := by
  intro k a h
  rw [hentry, map_clear_eq_some] at h
  rw [hids]
  rcases h with ⟨-, -, b, hb⟩ | ⟨-, h⟩
  · exact hL k b hb
  · exact hL k a h

end Clear

/-! ### `removeTrack` -/

section Remove

variable {st : StreamsState} {t : String}

theorem removeTrack_metadata : (removeTrack st t).metadataByPeerIdMid = st.metadataByPeerIdMid := by
  unfold removeTrack
  (repeat' split) <;> rfl

theorem removeTrack_ids : (removeTrack st t).trackIdToPeerIdMid = st.trackIdToPeerIdMid := by
  unfold removeTrack
  (repeat' split) <;> rfl

/-- Taking a track out of its stream. -/
theorem member_putStreams {m : AList fun _ : String => UserStreams} (hs : Shaped m) {u₀ : String}
    {us : UserStreams} (hus : m.lookup u₀ = some us) (s₀ t : String) :
    Shaped (putStreams m u₀ us (removeFromStream s₀ t us.streams)) ∧
      ∀ u s t', Member (putStreams m u₀ us (removeFromStream s₀ t us.streams)) u s t' ↔
        Member m u s t' ∧ ¬ (u = u₀ ∧ s = s₀ ∧ t' = t) := by
  have hwf := (hs _ _ hus).2
  unfold putStreams
  refine ⟨?_, ?_⟩
  · split_ifs with h
    · exact hs.insert h (wellFormed_removeFromStream hwf)
    · exact hs.erase
  · intro u s t'
    by_cases hu : u = u₀
    · subst hu
      have hhas := has_removeFromStream hwf s₀ t s t'
      rw [member_of_lookup hus]
      split_ifs with h
      · rw [member_insert_self, hhas]
        tauto
      · rw [not_not] at h
        rw [h] at hhas
        have hno : ¬ Has [] s t' := has_nil
        have hno' : ¬ Member (m.erase u) u s t' := not_member_erase_self
        tauto
    · split_ifs with h
      · rw [member_insert_of_ne hu]
        tauto
      · rw [member_erase_of_ne hu]
        tauto

/-- A track without an association has nothing to clear. -/
theorem map_clear_of_none (h : ∀ k a, entry st k = some (t, a) → a = none) (k : String) :
    entry st k = (entry st k).map (clear [t]) := by
  cases hk : entry st k with
  | none => rfl
  | some x =>
    obtain ⟨t', a⟩ := x
    by_cases hx : t' = t
    · subst hx
      simp [clear, h k a hk]
    · simp [clear, hx]

/-- A track has one association. -/
theorem Coherent.associated_unique (hC : Coherent st) {k u s : String} {a : Option TrackAssociation}
    (hk : entry st k = some (t, a)) (h : Associated st u s t) : a = some ⟨s, u⟩ := by
  obtain ⟨k', hk'⟩ := h
  obtain rfl := hC.inj hk hk'
  rw [hk] at hk'
  exact (Prod.mk.inj (Option.some.inj hk')).2

/-- Only one entry has the track. -/
theorem map_clear_self (hC : Coherent st) {k : String} {a : Option TrackAssociation}
    (hk : entry st k = some (t, a)) (k' : String) :
    (if k' = k then some (t, none) else entry st k') = (entry st k').map (clear [t]) := by
  by_cases hk' : k' = k
  · subst hk'
    simp [hk, clear]
  · rw [if_neg hk']
    cases he : entry st k' with
    | none => rfl
    | some y =>
      obtain ⟨t', b⟩ := y
      have hy : t' ≠ t := by
        rintro rfl
        exact hk' (hC.inj he hk)
      simp [clear, hy]

/-- **`removeTrack`** clears the association of the track and takes it out of that stream. -/
theorem removeTrack_spec (hC : Coherent st) (hL : Linked st t) :
    Coherent (removeTrack st t) ∧
      (∀ k, entry (removeTrack st t) k = (entry st k).map (clear [t])) ∧
      ∀ u s t', Member (removeTrack st t).streamsByUserId u s t' ↔
        Member st.streamsByUserId u s t' ∧ ¬ (t' = t ∧ Associated st u s t') := by
  -- nothing is done for a track that has no association
  have hsame : (∀ k a, entry st k = some (t, a) → a = none) → Coherent st ∧
      (∀ k, entry st k = (entry st k).map (clear [t])) ∧
      ∀ u s t', Member st.streamsByUserId u s t' ↔
        Member st.streamsByUserId u s t' ∧ ¬ (t' = t ∧ Associated st u s t') := by
    intro hnone
    refine ⟨hC, map_clear_of_none hnone, fun u s t' => ?_⟩
    refine (and_iff_left ?_).symm
    rintro ⟨rfl, k, hk⟩
    cases hnone k _ hk
  unfold removeTrack
  cases hid : st.trackIdToPeerIdMid.lookup t with
  | none =>
    refine hsame fun k a hk => ?_
    rw [hL k a hk] at hid
    cases hid
  | some k =>
    obtain ⟨a, hk⟩ := hC.back hid
    obtain ⟨i, hi, rfl, rfl⟩ := entry_eq_some.mp hk
    simp only [hi]
    cases ha : i.association with
    | none =>
      refine hsame fun k' a' hk' => ?_
      obtain rfl := hC.inj hk hk'
      rw [hk', ha] at hk
      exact (Prod.mk.inj (Option.some.inj hk)).2
    | some a =>
      rw [ha] at hk
      obtain ⟨us, hus, hhas⟩ := hC.holds ⟨k, hk⟩
      obtain ⟨hshape, hmem⟩ := member_putStreams hC.shaped hus a.streamId i.track
      obtain ⟨x, hx⟩ : ∃ x, (us.streams.find? fun s => s.streamId = a.streamId) = some x := by
        obtain ⟨x, hx, hid', -⟩ := hhas
        exact Option.isSome_iff_exists.mp (List.find?_isSome.mpr ⟨x, hx, by simpa using hid'⟩)
      simp only [hus, hx]
      have hentry' : ∀ st' : StreamsState, st'.tracksByPeerIdMid =
          st.tracksByPeerIdMid.insert k { i with association := none } →
            ∀ k', entry st' k' = (entry st k').map (clear [i.track]) :=
        fun st' h k' => (entry_insert st h k').trans (map_clear_self hC hk k')
      -- the stream that loses the track is the one of its association
      have hmem' : ∀ u s t', Member (putStreams st.streamsByUserId a.userId us
          (removeFromStream a.streamId i.track us.streams)) u s t' ↔
            Member st.streamsByUserId u s t' ∧ ¬ (t' = i.track ∧ Associated st u s t') := by
        intro u s t'
        rw [hmem]
        refine and_congr_right fun _ => not_congr ⟨?_, ?_⟩
        · rintro ⟨rfl, rfl, rfl⟩
          exact ⟨rfl, k, hk⟩
        · rintro ⟨rfl, hassoc⟩
          obtain rfl := Option.some.inj (hC.associated_unique hk hassoc)
          exact ⟨rfl, rfl, rfl⟩
      refine ⟨hC.clear (hentry' _ rfl) rfl hshape ?_, hentry' _ rfl, hmem'⟩
      intro u s t' hm _ ht'
      exact (hmem' u s t').mpr ⟨hm, fun h => ht' (List.mem_singleton.mpr h.1)⟩

end Remove

/-! ### `addTrack` -/

section Add

variable {st : StreamsState} {p : AddTrackPayload}

/-- The streams after a track was added. -/
theorem member_addTrack (hs : Shaped st.streamsByUserId) :
    Shaped (addTrack st p).streamsByUserId ∧
      ∀ u s t, Member (addTrack st p).streamsByUserId u s t ↔
        Member st.streamsByUserId u s t ∨ t = p.track ∧ getUserId st p = ⟨s, u⟩ := by
  obtain ⟨us, hus, hwf, hmem⟩ : ∃ us : UserStreams,
      (st.streamsByUserId.lookup (getUserId st p).userId).getD
        { userId := (getUserId st p).userId, streams := [] } = us ∧ WellFormed us.streams ∧
      ∀ s t, Member st.streamsByUserId (getUserId st p).userId s t ↔ Has us.streams s t := by
    cases h : st.streamsByUserId.lookup (getUserId st p).userId with
    | none => exact ⟨_, rfl, ⟨by simp, by simp⟩, fun s t => by simp [Member, h, Has]⟩
    | some us => exact ⟨us, rfl, (hs _ _ h).2, fun s t => member_of_lookup h⟩
  unfold addTrack
  simp only [hus]
  refine ⟨hs.insert addToStream_ne_nil (wellFormed_addToStream hwf), ?_⟩
  intro u s t
  by_cases hu : u = (getUserId st p).userId
  · subst hu
    rw [member_insert_self, has_addToStream, hmem]
    refine or_congr_right ⟨?_, ?_⟩
    · rintro ⟨rfl, rfl⟩
      exact ⟨rfl, rfl⟩
    · rintro ⟨rfl, h⟩
      exact ⟨(congrArg TrackAssociation.streamId h).symm, rfl⟩
  · rw [member_insert_of_ne hu]
    constructor
    · exact Or.inl
    · rintro (h | ⟨-, h⟩)
      · exact h
      · exact absurd (congrArg TrackAssociation.userId h).symm hu

/-- **`addTrack`** associates the track of the payload and adds it to that stream. -/
theorem addTrack_spec (hC : Coherent st)
    (hkey : ∀ t a, entry st (getPeerIdMid p.userId p.mid) = some (t, a) → t = p.track)
    (huniq : ∀ k a, entry st k = some (p.track, a) → k = getPeerIdMid p.userId p.mid) :
    Coherent (addTrack st p) ∧
      (∀ k, entry (addTrack st p) k = if k = getPeerIdMid p.userId p.mid then
        some (p.track, some (getUserId st p)) else entry st k) ∧
      ∀ t, Linked st t → Linked (addTrack st p) t := by
  have hentry : ∀ k, entry (addTrack st p) k = if k = getPeerIdMid p.userId p.mid then
      some (p.track, some (getUserId st p)) else entry st k :=
    entry_insert st (i := ⟨p.track, p.mid, some (getUserId st p)⟩) rfl
  obtain ⟨hshape, hmem⟩ := member_addTrack (p := p) hC.shaped
  -- an entry of the new state is the new one, or an old one of another track
  have hcases : ∀ {k t a}, entry (addTrack st p) k = some (t, a) →
      k = getPeerIdMid p.userId p.mid ∧ t = p.track ∧ a = some (getUserId st p) ∨
      k ≠ getPeerIdMid p.userId p.mid ∧ t ≠ p.track ∧ entry st k = some (t, a) := by
    intro k t a h
    rw [hentry] at h
    split_ifs at h with hk
    · obtain ⟨rfl, rfl⟩ := Prod.mk.inj (Option.some.inj h)
      exact Or.inl ⟨hk, rfl, rfl⟩
    · refine Or.inr ⟨hk, ?_, h⟩
      rintro rfl
      exact hk (huniq k a h)
  refine ⟨⟨?_, ?_, ?_, hshape⟩, hentry, ?_⟩
  · intro k k' t a a' h h'
    rcases hcases h with ⟨rfl, rfl, -⟩ | ⟨-, hne, h⟩ <;>
      rcases hcases h' with ⟨rfl, ht, -⟩ | ⟨-, hne', h'⟩
    · rfl
    · exact absurd rfl hne'
    · exact absurd ht hne
    · exact hC.inj h h'
  · intro t k h
    change (st.trackIdToPeerIdMid.insert p.track (getPeerIdMid p.userId p.mid)).lookup t = some k at h
    by_cases ht : t = p.track
    · subst ht
      rw [AList.lookup_insert, Option.some.injEq] at h
      exact ⟨_, by rw [hentry, if_pos h.symm]⟩
    · rw [AList.lookup_insert_ne ht] at h
      obtain ⟨a, ha⟩ := hC.back h
      have hk : k ≠ getPeerIdMid p.userId p.mid := by
        rintro rfl
        exact ht (hkey t a ha)
      exact ⟨a, by rw [hentry, if_neg hk, ha]⟩
  · rintro u s t ⟨k, hk⟩
    rw [hmem]
    rcases hcases hk with ⟨-, rfl, ha⟩ | ⟨-, -, hk⟩
    · exact Or.inr ⟨rfl, (Option.some.inj ha).symm⟩
    · exact Or.inl (hC.holds ⟨k, hk⟩)
  · intro t hL k a h
    show (st.trackIdToPeerIdMid.insert p.track (getPeerIdMid p.userId p.mid)).lookup t = some k
    rcases hcases h with ⟨rfl, rfl, -⟩ | ⟨-, hne, h⟩
    · exact AList.lookup_insert _
    · rw [AList.lookup_insert_ne hne]
      exact hL k a h

end Add

end Meeting.Streams
