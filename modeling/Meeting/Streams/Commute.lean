import Meeting.Streams.Ledger

/-!
# Meeting.Streams.Commute — tracks and metadata in any order

A peer's tracks arrive in any order, and so does the metadata that names their users.  `arrival_order`:
from every state of a one-to-one run, every order of the new tracks of a peer and of the metadata that covers
them ends with the same entries and the same tracks in every stream.

The entries at the end do not depend on the order because each way to get there ends in `Settled`: the new
tracks and the old ones have the association their metadata names.  The rule on the use of tracks is needed:
`arrival_order_matters` has a run that breaks it and two orders that end differently.
-/

namespace Meeting.Streams

open Meeting.Lib

/-- No record of the state mentions the track. -/
def Unseen (st : StreamsState) (t : String) : Prop :=
  (∀ x ∈ st.tracksByPeerIdMid.entries, x.2.track ≠ t) ∧
    ∀ x ∈ st.streamsByUserId.entries, ∀ y ∈ x.2.streams, t ∉ y.stream.tracks

/-- The new tracks of a peer: distinct tracks the state has not seen, at distinct mids it has no track for. -/
structure NewTracks (st : StreamsState) (userId : String) (adds : List AddTrackPayload) : Prop where
  peer : ∀ p ∈ adds, p.userId = userId
  mids : (adds.map AddTrackPayload.mid).Nodup
  tracks : (adds.map AddTrackPayload.track).Nodup
  unseen : ∀ p ∈ adds, Unseen st p.track
  free : ∀ p ∈ adds, entry st p.key = none

instance {st : StreamsState} {t : String} : Decidable (Unseen st t) := inferInstanceAs (Decidable (_ ∧ _))

instance {st : StreamsState} {userId : String} {adds : List AddTrackPayload} :
    Decidable (NewTracks st userId adds) :=
  decidable_of_iff ((∀ p ∈ adds, p.userId = userId) ∧ (adds.map AddTrackPayload.mid).Nodup ∧
    (adds.map AddTrackPayload.track).Nodup ∧ (∀ p ∈ adds, Unseen st p.track) ∧
    ∀ p ∈ adds, entry st p.key = none)
    ⟨fun ⟨h1, h2, h3, h4, h5⟩ => ⟨h1, h2, h3, h4, h5⟩, fun h => ⟨h.1, h.2, h.3, h.4, h.5⟩⟩

theorem unseen_iff {st : StreamsState} {t : String} : Unseen st t ↔
    (∀ k a, entry st k ≠ some (t, a)) ∧ ∀ u i, ¬ Member st.streamsByUserId u i t := by
  refine and_congr ⟨?_, ?_⟩ ⟨?_, ?_⟩
  · intro h k a hk
    obtain ⟨i, hi, ht, -⟩ := entry_eq_some.mp hk
    exact h ⟨k, i⟩ (AList.mem_lookup_iff.mp hi) ht
  · rintro h ⟨k, i⟩ hx rfl
    exact h k _ (entry_of_lookup (AList.mem_lookup_iff.mpr hx))
  · rintro h u i ⟨us, hus, y, hy, -, ht⟩
    exact h ⟨u, us⟩ (AList.mem_lookup_iff.mp hus) y hy ht
  · rintro h ⟨u, us⟩ hx y hy ht
    exact h u y.streamId ⟨us, AList.mem_lookup_iff.mpr hx, y, hy, rfl, ht⟩

section New

variable {st : StreamsState} {userId : String} {p : AddTrackPayload} {adds : List AddTrackPayload}

/-- `addTrack` of a new track. -/
theorem addTrack_new (h : Rep st) (hp : Unseen st p.track) (hfree : entry st p.key = none) :
    Rep (addTrack st p) ∧
      (∀ k, entry (addTrack st p) k = if k = p.key then some (p.track, some (getUserId st p))
        else entry st k) ∧
      ∀ u i t, Stale (addTrack st p) u i t ↔ Stale st u i t := by
  rw [unseen_iff] at hp
  have hkey : ∀ t a, entry st p.key = some (t, a) → t = p.track ∧ (a = none ∨ a = some (getUserId st p)) := by
    intro t a hk
    rw [hfree] at hk
    cases hk
  have huniq : ∀ k a, entry st k = some (p.track, a) → k = p.key := fun k a hk => absurd hk (hp.1 k a)
  obtain ⟨hC, hentry, hlink⟩ := addTrack_spec h.toCoherent (fun t a hk => (hkey t a hk).1) huniq
  refine ⟨⟨hC, fun t => hlink t (h.linked t)⟩, hentry, fun u i t => ⟨Stale.of_addTrack h.toCoherent hkey huniq, ?_⟩⟩
  rintro ⟨hm, hn⟩
  refine ⟨((member_addTrack h.shaped).2 u i t).mpr (Or.inl hm), ?_⟩
  rintro ⟨k, hk⟩
  rw [hentry] at hk
  split_ifs at hk
  · obtain ⟨rfl, -⟩ := Prod.mk.inj (Option.some.inj hk)
    exact hp.2 u i hm
  · exact hn ⟨k, hk⟩

/-- A track that is still to come is new after the first one. -/
theorem NewTracks.tail (hnew : NewTracks st userId (p :: adds))
    (hentry : ∀ k, entry (addTrack st p) k = if k = p.key then some (p.track, some (getUserId st p))
      else entry st k) (hs : Shaped st.streamsByUserId) : NewTracks (addTrack st p) userId adds := by
  obtain ⟨hmid, hmids⟩ := List.nodup_cons.mp hnew.mids
  obtain ⟨htrack, htracks⟩ := List.nodup_cons.mp hnew.tracks
  have hne : ∀ x ∈ adds, x.track ≠ p.track := fun x hx h =>
    htrack (List.mem_map.mpr ⟨x, hx, h⟩)
  refine ⟨fun x hx => hnew.peer x (List.mem_cons_of_mem _ hx), hmids, htracks, ?_, ?_⟩
  · intro x hx
    obtain ⟨h1, h2⟩ := unseen_iff.mp (hnew.unseen x (List.mem_cons_of_mem _ hx))
    refine unseen_iff.mpr ⟨fun k a hk => ?_, fun u i hm => ?_⟩
    · rw [hentry] at hk
      split_ifs at hk
      · exact hne x hx (Prod.mk.inj (Option.some.inj hk)).1.symm
      · exact h1 k a hk
    · rcases ((member_addTrack hs).2 u i x.track).mp hm with hm | ⟨ht, -⟩
      · exact h2 u i hm
      · exact hne x hx ht
  · intro x hx
    have hk : x.key ≠ p.key := by
      intro hk
      rw [AddTrackPayload.key, AddTrackPayload.key, hnew.peer x (List.mem_cons_of_mem _ hx),
        hnew.peer p List.mem_cons_self] at hk
      exact hmid (List.mem_map.mpr ⟨x, hx, getPeerIdMid_inj_mid hk⟩)
    rw [hentry, if_neg hk]
    exact hnew.free x (List.mem_cons_of_mem _ hx)

/-- What adding all the new tracks does. -/
theorem foldl_addTrack_new (adds : List AddTrackPayload) : ∀ {st : StreamsState}, Rep st →
    NewTracks st userId adds →
      Rep (adds.foldl addTrack st) ∧
      (adds.foldl addTrack st).metadataByPeerIdMid = st.metadataByPeerIdMid ∧
      (∀ p ∈ adds, entry (adds.foldl addTrack st) p.key = some (p.track, some (getUserId st p))) ∧
      (∀ k, (∀ p ∈ adds, p.key ≠ k) → entry (adds.foldl addTrack st) k = entry st k) ∧
      ∀ u i t, Stale (adds.foldl addTrack st) u i t ↔ Stale st u i t := by
  induction adds with
  | nil => exact fun h _ => ⟨h, rfl, fun p hp => absurd hp List.not_mem_nil, fun _ _ => rfl, fun _ _ _ => Iff.rfl⟩
  | cons p adds ih =>
    intro st h hnew
    obtain ⟨hR, hentry, hS⟩ := addTrack_new h (hnew.unseen p List.mem_cons_self) (hnew.free p List.mem_cons_self)
    have htail := hnew.tail hentry h.shaped
    obtain ⟨hR', hM', hin, hout, hS'⟩ := ih hR htail
    rw [List.foldl_cons]
    refine ⟨hR', hM', ?_, ?_, fun u i t => (hS' u i t).trans (hS u i t)⟩
    · intro x hx
      rcases List.mem_cons.mp hx with rfl | hx
      · -- the later tracks have other keys
        rw [hout _ fun y hy hk => ?_, hentry, if_pos rfl]
        have hy := htail.free y hy
        rw [hk, hentry, if_pos rfl] at hy
        cases hy
      · exact hin x hx
    · intro k hk
      rw [hout k fun x hx => hk x (List.mem_cons_of_mem _ hx), hentry,
        if_neg (hk p List.mem_cons_self).symm]

end New

/-! ### The end of every order -/

/-- The state in which every track has the association its metadata names. -/
structure Settled (st : StreamsState) (q : MetadataPayload) (adds : List AddTrackPayload)
    (N : StreamsState) : Prop where
  new : ∀ p ∈ adds, entry N p.key =
    some (p.track, ((keyBy q.userId q.metadata).lookup p.key).map TrackMetadata.target)
  old : ∀ k, (∀ p ∈ adds, p.key ≠ k) → entry N k = (entry st k).map fun x =>
    (x.1, ((keyBy q.userId q.metadata).lookup k).map TrackMetadata.target)
  member : ∀ u i t, Member N.streamsByUserId u i t ↔ Stale st u i t ∨ Associated N u i t

section Settled

variable {st N N' : StreamsState} {q : MetadataPayload} {adds adds' pre post : List AddTrackPayload}

theorem NewTracks.perm (h : NewTracks st q.userId adds) (hp : adds.Perm adds') :
    NewTracks st q.userId adds' :=
  ⟨fun p hm => h.peer p (hp.mem_iff.mpr hm), (hp.map _).nodup_iff.mp h.mids,
    (hp.map _).nodup_iff.mp h.tracks, fun p hm => h.unseen p (hp.mem_iff.mpr hm),
    fun p hm => h.free p (hp.mem_iff.mpr hm)⟩

theorem NewTracks.left (h : NewTracks st q.userId (pre ++ post)) : NewTracks st q.userId pre :=
  ⟨fun p hp => h.peer p (List.mem_append_left _ hp),
    h.mids.sublist ((List.sublist_append_left pre post).map _),
    h.tracks.sublist ((List.sublist_append_left pre post).map _),
    fun p hp => h.unseen p (List.mem_append_left _ hp), fun p hp => h.free p (List.mem_append_left _ hp)⟩

/-- The tracks that arrive after the metadata are new then. -/
theorem NewTracks.right (h : NewTracks st q.userId (pre ++ post)) {N₁ : StreamsState} (hR : Rep N₁)
    (hin : ∀ p ∈ pre, entry N₁ p.key = some (p.track, some (getUserId st p)))
    (hout : ∀ k, (∀ p ∈ pre, p.key ≠ k) → entry N₁ k = entry st k)
    (hS : ∀ u i t, Stale N₁ u i t ↔ Stale st u i t) :
    NewTracks (setMetadata N₁ q) q.userId post := by
  obtain ⟨-, -, hentry, hmem⟩ := setMetadata_spec hR q
  have hmids := h.mids
  have htracks := h.tracks
  rw [List.map_append, List.nodup_append] at hmids htracks
  -- an entry after the metadata is one of `pre` or an old one
  have hcases : ∀ {k x}, entry (setMetadata N₁ q) k = some x →
      (∃ p ∈ pre, p.key = k ∧ p.track = x.1) ∨ ∃ a, entry st k = some (x.1, a) := by
    intro k x hk
    rw [hentry] at hk
    obtain ⟨y, hy, rfl⟩ := Option.map_eq_some_iff.mp hk
    by_cases hpre : ∃ p ∈ pre, p.key = k
    · obtain ⟨p, hp, rfl⟩ := hpre
      rw [hin p hp, Option.some.injEq] at hy
      exact Or.inl ⟨p, hp, rfl, by rw [← hy]⟩
    · rw [hout k fun p hp hk => hpre ⟨p, hp, hk⟩] at hy
      exact Or.inr ⟨y.2, hy⟩
  have hunseen : ∀ p ∈ post, ∀ k a, entry (setMetadata N₁ q) k ≠ some (p.track, a) := by
    intro p hp k a hk
    rcases hcases hk with ⟨x, hx, -, htrack⟩ | ⟨a', ha'⟩
    · exact htracks.2.2 _ (List.mem_map_of_mem hx) _ (List.mem_map_of_mem hp) htrack
    · exact (unseen_iff.mp (h.unseen p (List.mem_append_right _ hp))).1 k a' ha'
  refine ⟨fun p hp => h.peer p (List.mem_append_right _ hp), hmids.2.1, htracks.2.1, ?_, ?_⟩
  · refine fun p hp => unseen_iff.mpr ⟨hunseen p hp, fun u i hm => ?_⟩
    rcases (hmem u i p.track).mp hm with hs | ⟨k, hk⟩
    · exact (unseen_iff.mp (h.unseen p (List.mem_append_right _ hp))).2 u i ((hS u i p.track).mp hs).1
    · exact hunseen p hp k _ hk
  · intro p hp
    by_contra hne
    obtain ⟨x, hx⟩ := Option.ne_none_iff_exists'.mp hne
    rcases hcases hx with ⟨y, hy, hkey, -⟩ | ⟨a, ha⟩
    · rw [AddTrackPayload.key, AddTrackPayload.key, h.peer y (List.mem_append_left _ hy),
        h.peer p (List.mem_append_right _ hp)] at hkey
      exact hmids.2.2 _ (List.mem_map_of_mem hy) _ (List.mem_map_of_mem hp) (getPeerIdMid_inj_mid hkey)
    · rw [h.free p (List.mem_append_right _ hp)] at ha
      cases ha

/-- Tracks `pre`, then the metadata, then tracks `post`. -/
theorem settled_of_split (hR : Rep st) (hnew : NewTracks st q.userId (pre ++ post))
    (hcover : ∀ p ∈ post, ∃ m ∈ q.metadata, m.mid = p.mid) :
    Settled st q (pre ++ post) (post.foldl addTrack (setMetadata (pre.foldl addTrack st) q)) := by
  obtain ⟨hR₁, -, hin₁, hout₁, hS₁⟩ := foldl_addTrack_new pre hR hnew.left
  obtain ⟨hR₂, hM₂, hentry₂, hmem₂⟩ := setMetadata_spec hR₁ q
  have hnew₂ := hnew.right hR₁ hin₁ hout₁ hS₁
  obtain ⟨hR₃, -, hin₃, hout₃, hS₃⟩ := foldl_addTrack_new post hR₂ hnew₂
  -- the metadata of a late track is there when it arrives
  have htarget : ∀ p ∈ post, some (getUserId (setMetadata (pre.foldl addTrack st) q) p) =
      ((keyBy q.userId q.metadata).lookup p.key).map TrackMetadata.target := by
    intro p hp
    obtain ⟨m, hm, hmid⟩ := hcover p hp
    obtain ⟨m', hm'⟩ := lookup_keyBy_isSome q.userId q.metadata hm
    have hk : getPeerIdMid q.userId m.mid = p.key := by
      rw [hmid, AddTrackPayload.key, hnew.peer p (List.mem_append_right _ hp)]
    rw [hk] at hm'
    rw [hm', Option.map_some, getUserId_of_lookup (by rw [hM₂]; exact hm')]
  have hpost : ∀ k, entry (setMetadata (pre.foldl addTrack st) q) k ≠ none → ∀ p ∈ post, p.key ≠ k := by
    rintro k hk p hp rfl
    exact hk (hnew₂.free p hp)
  refine ⟨?_, ?_, ?_⟩
  · intro p hp
    rcases List.mem_append.mp hp with hp | hp
    · have h2 := hentry₂ p.key
      rw [hin₁ p hp, Option.map_some] at h2
      rw [hout₃ _ (hpost _ (by rw [h2]; exact Option.some_ne_none _)), h2]
    · rw [hin₃ p hp, htarget p hp]
  · intro k hk
    rw [hout₃ k fun p hp => hk p (List.mem_append_right _ hp), hentry₂,
      hout₁ k fun p hp => hk p (List.mem_append_left _ hp)]
  · intro u i t
    by_cases ha : Associated (post.foldl addTrack (setMetadata (pre.foldl addTrack st) q)) u i t
    · exact ⟨fun _ => Or.inr ha, fun _ => hR₃.holds ha⟩
    · -- stale at the end, stale after the metadata, stale at the start
      have h3 := hS₃ u i t
      have hstale₂ : Stale (setMetadata (pre.foldl addTrack st) q) u i t →
          Stale (pre.foldl addTrack st) u i t := fun hs => ((hmem₂ u i t).mp hs.1).resolve_right hs.2
      constructor
      · exact fun hm => Or.inl ((hS₁ u i t).mp (hstale₂ (h3.mp ⟨hm, ha⟩)))
      · rintro (hs | ha')
        · refine (h3.mpr ⟨(hmem₂ u i t).mpr (Or.inl ((hS₁ u i t).mpr hs)), ?_⟩).1
          rintro ⟨k, hk⟩
          exact ha ⟨k, by rw [hout₃ k (hpost k (by rw [hk]; exact Option.some_ne_none _)), hk]⟩
        · exact absurd ha' ha

theorem Settled.entry_eq (h : Settled st q adds N) (h' : Settled st q adds' N') (hp : adds.Perm adds')
    (k : String) : entry N k = entry N' k := by
  by_cases hk : ∃ p ∈ adds, p.key = k
  · obtain ⟨p, hm, rfl⟩ := hk
    rw [h.new p hm, h'.new p (hp.mem_iff.mp hm)]
  · rw [h.old k fun p hm hkey => hk ⟨p, hm, hkey⟩,
      h'.old k fun p hm hkey => hk ⟨p, hp.mem_iff.mpr hm, hkey⟩]

end Settled

/-! ### Orders -/

theorem exec_adds (adds : List AddTrackPayload) (rest : List Action) : ∀ st : StreamsState,
    exec streams st (adds.map Action.streamTrackAdd ++ rest) =
      exec streams (adds.foldl addTrack st) rest := by
  induction adds with
  | nil => exact fun _ => rfl
  | cons p adds ih => exact fun st => ih (addTrack st p)

/-- An order of tracks and one metadata action splits at the metadata. -/
theorem split_order {q : MetadataPayload} {adds : List AddTrackPayload} {order : List Action}
    (h : order.Perm (adds.map Action.streamTrackAdd ++ [.tracksMetadata q])) :
    ∃ pre post : List AddTrackPayload, (pre ++ post).Perm adds ∧ order = pre.map Action.streamTrackAdd ++
      .tracksMetadata q :: post.map Action.streamTrackAdd := by
  obtain ⟨l, r, rfl⟩ := List.append_of_mem (h.mem_iff.mpr (List.mem_append_right _ (List.mem_singleton_self _)))
  have hp : (l ++ r).Perm (adds.map Action.streamTrackAdd) := by
    have h1 := List.perm_middle.symm.trans (h.trans List.perm_append_comm)
    exact List.Perm.cons_inv h1
  obtain ⟨ps, hps, hmap⟩ := exists_map_of_perm hp
  obtain ⟨pre, post, rfl, rfl, rfl⟩ := List.map_eq_append_iff.mp hmap.symm
  exact ⟨pre, post, hps, rfl⟩

/-- **Arrival order**: new tracks of a peer and metadata that covers them end the same in every order. -/
theorem arrival_order {s : System} (h : Reach step OneToOne start s) {q : MetadataPayload}
    {adds : List AddTrackPayload} (hnew : NewTracks s.state q.userId adds)
    (hcover : ∀ p ∈ adds, ∃ m ∈ q.metadata, m.mid = p.mid) {order order' : List Action}
    (ho : order.Perm (adds.map Action.streamTrackAdd ++ [.tracksMetadata q]))
    (ho' : order'.Perm (adds.map Action.streamTrackAdd ++ [.tracksMetadata q])) :
    ∃ N N', exec streams s.state order = some N ∧ exec streams s.state order' = some N' ∧
      (∀ k, entry N k = entry N' k) ∧
      ∀ u i t, Member N.streamsByUserId u i t ↔ Member N'.streamsByUserId u i t := by
  have hend : ∀ {o : List Action}, o.Perm (adds.map Action.streamTrackAdd ++ [.tracksMetadata q]) →
      ∃ N ps, exec streams s.state o = some N ∧ List.Perm ps adds ∧ Settled s.state q ps N := by
    intro o hp
    obtain ⟨pre, post, hps, rfl⟩ := split_order hp
    refine ⟨_, pre ++ post, ?_, hps, settled_of_split (tracked_of_reach h).rep (hnew.perm hps.symm) ?_⟩
    · rw [exec_adds]
      exact (congrArg _ (List.append_nil _).symm).trans (exec_adds post [] _)
    · exact fun p hm => hcover p (hps.mem_iff.mp (List.mem_append_right _ hm))
  obtain ⟨N, ps, hN, hps, hS⟩ := hend ho
  obtain ⟨N', ps', hN', hps', hS'⟩ := hend ho'
  have hentry := hS.entry_eq hS' (hps.trans hps'.symm)
  refine ⟨N, N', hN, hN', hentry, fun u i t => ?_⟩
  rw [hS.member, hS'.member]
  simp only [Associated, hentry]

/-- Two new tracks of an SFU, the metadata of one of which comes before it. -/
theorem arrival_order_example : ∃ s, exec (guarded step OneToOne) start
    [.streamTrackAdd ⟨"0", "s", "sfu", "old"⟩] = some s ∧
    NewTracks s.state "sfu" [⟨"1", "s", "sfu", "t"⟩, ⟨"2", "s", "sfu", "t'"⟩] ∧
    ∃ N N', exec streams s.state [.streamTrackAdd ⟨"1", "s", "sfu", "t"⟩,
        .tracksMetadata ⟨"sfu", [⟨"1", "video", "alice", "a"⟩, ⟨"2", "video", "bob", "b"⟩]⟩,
        .streamTrackAdd ⟨"2", "s", "sfu", "t'"⟩] = some N ∧
      exec streams s.state [.tracksMetadata ⟨"sfu", [⟨"1", "video", "alice", "a"⟩, ⟨"2", "video", "bob", "b"⟩]⟩,
        .streamTrackAdd ⟨"2", "s", "sfu", "t'"⟩, .streamTrackAdd ⟨"1", "s", "sfu", "t"⟩] = some N' ∧
      (∀ k, entry N k = entry N' k) ∧
      ∀ u i t, Member N.streamsByUserId u i t ↔ Member N'.streamsByUserId u i t :=
  exists_exec (by decide) fun s hs hnew =>
    arrival_order (q := ⟨"sfu", [⟨"1", "video", "alice", "a"⟩, ⟨"2", "video", "bob", "b"⟩]⟩) hs hnew
      (by decide) (by decide) (by decide)

/-- Without the rule on the use of tracks the order matters.  Track `t'` was last added at mid 0, where `t`
took its place, and the stream of `t` is gone; the metadata clears the association at mid 0 on behalf of `t'`
only when the new track has brought that stream back. -/
theorem arrival_order_matters : ¬ ∀ (s : System) (q : MetadataPayload) (adds : List AddTrackPayload)
    (order order' : List Action), Reach step anyStep start s → NewTracks s.state q.userId adds →
    (∀ p ∈ adds, ∃ m ∈ q.metadata, m.mid = p.mid) → (q.metadata.map TrackMetadata.mid).Nodup →
    order.Perm (adds.map Action.streamTrackAdd ++ [.tracksMetadata q]) →
    order'.Perm (adds.map Action.streamTrackAdd ++ [.tracksMetadata q]) →
      ∃ N N', exec streams s.state order = some N ∧ exec streams s.state order' = some N' ∧
        (∀ k, entry N k = entry N' k) ∧
        ∀ u i t, Member N.streamsByUserId u i t ↔ Member N'.streamsByUserId u i t := by
  intro hall
  obtain ⟨s, -, ⟨hnew, hne⟩, hs⟩ : ∃ s, exec (guarded step anyStep) start
      [.streamTrackAdd ⟨"5", "s'", "p", "t'"⟩, .streamTrackAdd ⟨"0", "s'", "p", "t'"⟩,
        .streamTrackAdd ⟨"0", "s", "p", "t"⟩, .streamTrackAdd ⟨"1", "s", "p", "t"⟩,
        .streamTrackRemove "t"] = some s ∧
      (NewTracks s.state "p" [⟨"9", "s", "p", "n"⟩] ∧
        (exec streams s.state [.streamTrackAdd ⟨"9", "s", "p", "n"⟩,
          .tracksMetadata ⟨"p", [⟨"9", "video", "v", "w"⟩]⟩]).map (fun N => entry N "p::0") ≠
        (exec streams s.state [.tracksMetadata ⟨"p", [⟨"9", "video", "v", "w"⟩]⟩,
          .streamTrackAdd ⟨"9", "s", "p", "n"⟩]).map fun N => entry N "p::0") ∧
      Reach step anyStep start s := exists_exec (by decide) fun s hs _ => hs
  obtain ⟨N, N', hN, hN', hentry, -⟩ := hall s ⟨"p", [⟨"9", "video", "v", "w"⟩]⟩ [⟨"9", "s", "p", "n"⟩]
    [.streamTrackAdd ⟨"9", "s", "p", "n"⟩, .tracksMetadata ⟨"p", [⟨"9", "video", "v", "w"⟩]⟩]
    [.tracksMetadata ⟨"p", [⟨"9", "video", "v", "w"⟩]⟩, .streamTrackAdd ⟨"9", "s", "p", "n"⟩]
    hs hnew (by decide) (by decide) (by decide) (by decide)
  exact hne (by rw [hN, hN', Option.map_some, Option.map_some, hentry])

end Meeting.Streams
