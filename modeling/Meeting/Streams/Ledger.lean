import Meeting.Lib.Runs
import Meeting.Lib.Lists
import Meeting.Streams.Reducer

/-!
# Meeting.Streams.Ledger — runs of the streams reducer

A run carries a ledger: the tracks that were added, and at which key, since the last removal of their peer.
Two rules on the use of tracks are read off it:

* `OneToOne`: each (peer, mid) is used with one track, and each track with one (peer, mid);
* `Consistent`: moreover, each track is used with one stream id.

`Tracked` holds along the runs of the first rule, `Exact` along those of the second:

* `representation_invariant`: along consistent runs the four records agree and no action throws.
-/

namespace Meeting.Streams

open Meeting.Lib

/-! ### Keys -/

theorem toList_getPeerIdMid (userId mid : String) :
    (getPeerIdMid userId mid).toList = userId.toList ++ ':' :: ':' :: mid.toList := by
  simp [getPeerIdMid, String.toList_append]

theorem getPeerIdMid_inj {u u' mid mid' : String} (hu : ':' ∉ u.toList) (hu' : ':' ∉ u'.toList)
    (h : getPeerIdMid u mid = getPeerIdMid u' mid') : u = u' ∧ mid = mid' := by
  have hl := congrArg String.toList h
  rw [toList_getPeerIdMid, toList_getPeerIdMid] at hl
  obtain ⟨h1, h2⟩ := append_cons_inj_left hu hu' hl
  exact ⟨String.toList_injective h1, String.toList_injective (List.cons_eq_cons.mp h2).2⟩

theorem getPeerIdMid_inj_mid {u mid mid' : String} (h : getPeerIdMid u mid = getPeerIdMid u mid') :
    mid = mid' := by
  have hl := congrArg String.toList h
  rw [toList_getPeerIdMid, toList_getPeerIdMid, List.append_cancel_left_eq] at hl
  exact String.toList_injective (List.cons_eq_cons.mp (List.cons_eq_cons.mp hl).2).2

theorem isKeyOf_getPeerIdMid {u u' mid : String} (hu : ':' ∉ u.toList) (hu' : ':' ∉ u'.toList) :
    isKeyOf u (getPeerIdMid u' mid) = true ↔ u' = u := by
  rw [isKeyOf, List.isPrefixOf_iff_prefix, toList_getPeerIdMid, String.toList_append]
  constructor
  · rintro ⟨rest, hrest⟩
    have hrest' : u.toList ++ ':' :: ':' :: rest = u'.toList ++ ':' :: ':' :: mid.toList := by
      simpa using hrest
    exact (String.toList_injective (append_cons_inj_left hu hu' hrest').1).symm
  · rintro rfl
    exact ⟨mid.toList, by simp⟩

/-! ### Runs -/

/-- The key a track is added at. -/
def AddTrackPayload.key (p : AddTrackPayload) : String := getPeerIdMid p.userId p.mid

/-- The state, with the tracks added since the last removal of their peer. -/
structure System where
  state : StreamsState
  uses : List AddTrackPayload

def start : System := ⟨defaultState, []⟩

/-- The ledger after an action. -/
def record (uses : List AddTrackPayload) : Action → List AddTrackPayload
  | .streamTrackAdd payload => payload :: uses
  | .peerRemove userId => uses.filter fun x => x.userId ≠ userId
  | .hangUp => []
  | _ => uses

def step (s : System) (a : Action) : Option System :=
  (streams s.state a).map fun state => ⟨state, record s.uses a⟩

/-- Each (peer, mid) is used with one track, and each track with one (peer, mid). -/
def OneToOne (s : System) : Action → Prop
  | .streamTrackAdd p => ':' ∉ p.userId.toList ∧
      ∀ x ∈ s.uses, x.userId = p.userId ∧ x.mid = p.mid ↔ x.track = p.track
  | .peerRemove userId => ':' ∉ userId.toList
  | _ => True

/-- Each track is used with one stream id. -/
def OneStreamId (s : System) : Action → Prop
  | .streamTrackAdd p => ∀ x ∈ s.uses, x.track = p.track → x.streamId = p.streamId
  | _ => True

def Consistent (s : System) (a : Action) : Prop := OneToOne s a ∧ OneStreamId s a

instance : DecidableRel OneToOne
  | s, .streamTrackAdd p => inferInstanceAs (Decidable (':' ∉ p.userId.toList ∧
      ∀ x ∈ s.uses, x.userId = p.userId ∧ x.mid = p.mid ↔ x.track = p.track))
  | _, .peerRemove userId => inferInstanceAs (Decidable (':' ∉ userId.toList))
  | _, .streamTrackRemove _ | _, .nicknameRemove _ | _, .tracksMetadata _ | _, .hangUp =>
    isTrue trivial

instance : DecidableRel OneStreamId
  | s, .streamTrackAdd p =>
    inferInstanceAs (Decidable (∀ x ∈ s.uses, x.track = p.track → x.streamId = p.streamId))
  | _, .peerRemove _ | _, .streamTrackRemove _ | _, .nicknameRemove _ | _, .tracksMetadata _
  | _, .hangUp => isTrue trivial

instance : DecidableRel Consistent := fun s a => inferInstanceAs (Decidable (OneToOne s a ∧ OneStreamId s a))

theorem step_eq_some {s s' : System} {a : Action} : step s a = some s' ↔
    ∃ st, streams s.state a = some st ∧ s' = ⟨st, record s.uses a⟩ := by
  rw [step, Option.map_eq_some_iff]
  exact exists_congr fun st => and_congr_right fun _ => eq_comm

/-! ### One-to-one runs -/

/-- The known tracks are those of the ledger. -/
structure Tracked (s : System) : Prop where
  rep : Rep s.state
  plain : ∀ x ∈ s.uses, ':' ∉ x.userId.toList
  known : ∀ k t, (∃ a, entry s.state k = some (t, a)) ↔ ∃ x ∈ s.uses, x.key = k ∧ x.track = t

theorem tracked_start : Tracked start := by
  refine ⟨rep_defaultState, fun x hx => absurd hx List.not_mem_nil, fun k t => ⟨?_, ?_⟩⟩
  · rintro ⟨a, ha⟩
    cases ha
  · rintro ⟨x, hx, -⟩
    cases hx

section Tracked

variable {s s' : System} {p : AddTrackPayload}

theorem Tracked.of_entry (h : Tracked s) {k t : String} {a : Option TrackAssociation}
    (hk : entry s.state k = some (t, a)) : ∃ x ∈ s.uses, x.key = k ∧ x.track = t :=
  (h.known k t).mp ⟨a, hk⟩

/-- A track already at the key of the payload is the one of the payload. -/
theorem Tracked.use_of_key (h : Tracked s) (hok : OneToOne s (.streamTrackAdd p)) {x : AddTrackPayload}
    (hx : x ∈ s.uses) (hkey : x.key = p.key) : x.track = p.track :=
  (hok.2 x hx).mp (getPeerIdMid_inj (h.plain x hx) hok.1 hkey)

theorem key_of_track (hok : OneToOne s (.streamTrackAdd p)) {x : AddTrackPayload} (hx : x ∈ s.uses)
    (htrack : x.track = p.track) : x.key = p.key := by
  obtain ⟨h1, h2⟩ := (hok.2 x hx).mpr htrack
  rw [AddTrackPayload.key, AddTrackPayload.key, h1, h2]

/-- `addTrack_spec` at a payload that keeps to the rule. -/
theorem Tracked.rep_addTrack (h : Tracked s) (hok : OneToOne s (.streamTrackAdd p)) :
    Rep (addTrack s.state p) ∧ ∀ k, entry (addTrack s.state p) k = if k = p.key then
      some (p.track, some (getUserId s.state p)) else entry s.state k := by
  have hkey : ∀ t a, entry s.state p.key = some (t, a) → t = p.track := by
    intro t a hk
    obtain ⟨x, hx, hkx, rfl⟩ := h.of_entry hk
    exact h.use_of_key hok hx hkx
  have huniq : ∀ k a, entry s.state k = some (p.track, a) → k = p.key := by
    intro k a hk
    obtain ⟨x, hx, rfl, htrack⟩ := h.of_entry hk
    exact key_of_track hok hx htrack
  obtain ⟨hC, hentry, hlink⟩ := addTrack_spec h.rep.toCoherent hkey huniq
  exact ⟨⟨hC, fun t => hlink t (h.rep.linked t)⟩, hentry⟩

/-- Clearing or changing associations keeps the ledger. -/
theorem Tracked.of_tracks (h : Tracked s) {st : StreamsState} (hR : Rep st)
    {f : String → String × Option TrackAssociation → String × Option TrackAssociation}
    (hf : ∀ k x, (f k x).1 = x.1) (hentry : ∀ k, entry st k = (entry s.state k).map (f k)) :
    Tracked ⟨st, s.uses⟩ := by
  refine ⟨hR, h.plain, fun k t => ?_⟩
  rw [← h.known]
  simp only [hentry]
  constructor
  · rintro ⟨a, ha⟩
    obtain ⟨x, hx, hfx⟩ := Option.map_eq_some_iff.mp ha
    have hx1 : x.1 = t := by rw [← hf k x, hfx]
    exact ⟨x.2, by rw [hx, ← hx1]⟩
  · rintro ⟨a, ha⟩
    exact ⟨(f k (t, a)).2, by rw [ha, Option.map_some]; exact congrArg some (Prod.ext (hf k (t, a)) rfl)⟩

theorem fst_clear (T : List String) (x : String × Option TrackAssociation) : (clear T x).1 = x.1 := by
  unfold clear
  split_ifs <;> rfl

/-- **Step lemma** for one-to-one runs. -/
theorem Tracked.step {a : Action} (h : Tracked s) (hok : OneToOne s a)
    (hs : Meeting.Streams.step s a = some s') : Tracked s' := by
  obtain ⟨st, hst, rfl⟩ := step_eq_some.mp hs
  cases a with
  | streamTrackAdd p =>
    obtain rfl := Option.some.inj hst
    obtain ⟨hR, hentry⟩ := h.rep_addTrack hok
    refine ⟨hR, List.forall_mem_cons.mpr ⟨hok.1, h.plain⟩, fun k t => ?_⟩
    simp only [hentry]
    constructor
    · rintro ⟨a, ha⟩
      split_ifs at ha with hk
      · obtain ⟨rfl, -⟩ := Prod.mk.inj (Option.some.inj ha)
        exact ⟨p, List.mem_cons_self, hk.symm, rfl⟩
      · obtain ⟨x, hx, hkt⟩ := h.of_entry ha
        exact ⟨x, List.mem_cons_of_mem _ hx, hkt⟩
    · rintro ⟨x, hx, rfl, rfl⟩
      rcases List.mem_cons.mp hx with rfl | hx
      · exact ⟨_, if_pos rfl⟩
      · by_cases hk : x.key = p.key
        · exact ⟨_, by rw [if_pos hk, h.use_of_key hok hx hk]⟩
        · obtain ⟨a, ha⟩ := (h.known x.key x.track).mpr ⟨x, hx, rfl, rfl⟩
          exact ⟨a, by rw [if_neg hk, ha]⟩
  | streamTrackRemove t =>
    obtain rfl := Option.some.inj hst
    exact h.of_tracks (removeTrack_rep h.rep t) (fun _ => fst_clear _)
      (removeTrack_spec h.rep.toCoherent (h.rep.linked t)).2.1
  | nicknameRemove u =>
    obtain ⟨hR, -, hentry, -⟩ := unassociateUserTracks_spec h.rep hst
    exact h.of_tracks hR (fun _ => fst_clear _) hentry
  | tracksMetadata p =>
    obtain rfl := Option.some.inj hst
    obtain ⟨hR, -, hentry, -⟩ := setMetadata_spec h.rep p
    exact h.of_tracks hR (f := fun k x =>
      (x.1, ((keyBy p.userId p.metadata).lookup k).map TrackMetadata.target)) (fun _ _ => rfl) hentry
  | peerRemove u =>
    obtain rfl := Option.some.inj hst
    obtain ⟨hR, -, hentry, -⟩ := removePeer_spec h.rep u
    have hkeys : ∀ x ∈ s.uses, (isKeyOf u x.key = true ↔ x.userId = u) :=
      fun x hx => isKeyOf_getPeerIdMid hok (h.plain x hx)
    refine ⟨hR, fun x hx => h.plain x (List.mem_filter.mp hx).1, fun k t => ?_⟩
    simp only [hentry, record, List.mem_filter, decide_eq_true_eq]
    constructor
    · rintro ⟨a, ha⟩
      split_ifs at ha with hk
      obtain ⟨x, hx, rfl, ht⟩ := h.of_entry ha
      exact ⟨x, ⟨hx, fun hu => hk ((hkeys x hx).mpr hu)⟩, rfl, ht⟩
    · rintro ⟨x, ⟨hx, hu⟩, rfl, rfl⟩
      obtain ⟨a, ha⟩ := (h.known x.key x.track).mpr ⟨x, hx, rfl, rfl⟩
      exact ⟨a, by rw [if_neg fun hk => hu ((hkeys x hx).mp hk), ha]⟩
  | hangUp =>
    obtain rfl := Option.some.inj hst
    exact tracked_start

/-- **Run lemma** for one-to-one runs. -/
theorem tracked_of_reach (h : Reach Meeting.Streams.step OneToOne start s) : Tracked s :=
  h.invariant tracked_start fun _ _ _ hI hok hs => hI.step hok hs

end Tracked

/-! ### Consistent runs -/

/-- Associations are those of the ledger and the metadata, and no track was left behind. -/
structure Exact (s : System) : Prop extends Tracked s where
  association : ∀ {k t a}, entry s.state k = some (t, some a) →
    ∃ x ∈ s.uses, x.key = k ∧ a = getUserId s.state x
  none_stale : ∀ u i t, ¬ Stale s.state u i t

theorem exact_start : Exact start := by
  refine ⟨tracked_start, ?_, ?_⟩
  · intro k t a h
    cases h
  · rintro u i t ⟨⟨us, hus, -⟩, -⟩
    cases hus

section Exact

variable {s s' : System} {p : AddTrackPayload}

theorem Exact.associated (h : Exact s) {u i t : String} :
    Member s.state.streamsByUserId u i t ↔ Associated s.state u i t := by
  refine ⟨fun hm => ?_, h.rep.holds⟩
  by_contra ha
  exact h.none_stale u i t ⟨hm, ha⟩

/-- A payload at a key that is in use is the one that was used there. -/
theorem Exact.use_eq (h : Exact s) (hok : Consistent s (.streamTrackAdd p)) {x : AddTrackPayload}
    (hx : x ∈ s.uses) (hkey : x.key = p.key) : x = p := by
  have htrack := h.use_of_key hok.1 hx hkey
  obtain ⟨hu, hmid⟩ := (hok.1.2 x hx).mpr htrack
  have hs := hok.2 x hx htrack
  cases x
  cases p
  simp_all

/-- The associations left by an action that only clears some are as before. -/
theorem Exact.of_clear (h : Exact s) {st : StreamsState} {T : List String}
    (hT : Tracked ⟨st, s.uses⟩) (hmeta : st.metadataByPeerIdMid = s.state.metadataByPeerIdMid)
    (hentry : ∀ k, entry st k = (entry s.state k).map (clear T))
    (hmem : ∀ u i t, Member st.streamsByUserId u i t →
      Member s.state.streamsByUserId u i t ∧ (Associated s.state u i t → t ∉ T)) :
    Exact ⟨st, s.uses⟩ := by
  refine ⟨hT, ?_, ?_⟩
  · intro k t a hk
    rw [hentry, map_clear_eq_some] at hk
    rcases hk with ⟨-, ha, -⟩ | ⟨-, hk⟩
    · cases ha
    · obtain ⟨x, hx, hkx, rfl⟩ := h.association hk
      exact ⟨x, hx, hkx, by simp only [getUserId, hmeta]⟩
  · rintro u i t ⟨hm, hn⟩
    obtain ⟨hm, ht⟩ := hmem u i t hm
    have ha := h.associated.mp hm
    exact hn ((associated_clear hentry).mpr ⟨ha, ht ha⟩)

/-- The track is associated as this use of it says. -/
theorem Exact.streamTrackAdd {p : AddTrackPayload} (h : Exact s) (hok : Consistent s (.streamTrackAdd p))
    (hT : Tracked ⟨addTrack s.state p, p :: s.uses⟩) : Exact ⟨addTrack s.state p, p :: s.uses⟩ := by
  obtain ⟨-, hentry⟩ := h.toTracked.rep_addTrack hok.1
  refine ⟨hT, ?_, ?_⟩
  · intro k t a hk
    rw [hentry] at hk
    split_ifs at hk with hkk
    · obtain ⟨-, ha⟩ := Prod.mk.inj (Option.some.inj hk)
      exact ⟨p, List.mem_cons_self, hkk.symm, (Option.some.inj ha).symm⟩
    · obtain ⟨x, hx, hkx, ha⟩ := h.association hk
      exact ⟨x, List.mem_cons_of_mem _ hx, hkx, ha⟩
  · intro u i t hstale
    refine h.none_stale u i t (hstale.of_addTrack h.rep.toCoherent ?_ ?_)
    · intro t a hk
      obtain ⟨x, hx, hkx, rfl⟩ := h.of_entry hk
      refine ⟨h.use_of_key hok.1 hx hkx, ?_⟩
      cases a with
      | none => exact Or.inl rfl
      | some a =>
        obtain ⟨y, hy, hky, rfl⟩ := h.association hk
        rw [h.use_eq hok hy hky]
        exact Or.inr rfl
    · intro k a hk
      obtain ⟨x, hx, rfl, htrack⟩ := h.of_entry hk
      exact key_of_track hok.1 hx htrack

/-- Every known track is associated as the metadata say. -/
theorem Exact.tracksMetadata {p : MetadataPayload} (h : Exact s)
    (hT : Tracked ⟨setMetadata s.state p, s.uses⟩) : Exact ⟨setMetadata s.state p, s.uses⟩ := by
  obtain ⟨-, hmeta, hentry, hmem⟩ := setMetadata_spec h.rep p
  refine ⟨hT, ?_, ?_⟩
  · intro k t a hk
    have hk' := hk
    rw [hentry] at hk
    obtain ⟨x, -, hx⟩ := Option.map_eq_some_iff.mp hk
    obtain ⟨m, hm, rfl⟩ := Option.map_eq_some_iff.mp (Prod.mk.inj hx).2
    obtain ⟨y, hy, rfl, -⟩ := hT.of_entry hk'
    exact ⟨y, hy, rfl, (getUserId_of_lookup (by rw [hmeta]; exact hm)).symm⟩
  · rintro u i t ⟨hm, hn⟩
    exact h.none_stale u i t (((hmem u i t).mp hm).resolve_right hn)

/-- The uses of a peer go with its entries. -/
theorem Exact.peerRemove {u : String} (h : Exact s) (hu : ':' ∉ u.toList)
    (hT : Tracked ⟨removePeer s.state u, s.uses.filter fun x => x.userId ≠ u⟩) :
    Exact ⟨removePeer s.state u, s.uses.filter fun x => x.userId ≠ u⟩ := by
  obtain ⟨-, hmeta, hentry, hmem⟩ := removePeer_spec h.rep u
  refine ⟨hT, ?_, ?_⟩
  · intro k t a hk
    rw [hentry] at hk
    split_ifs at hk with hkey
    obtain ⟨x, hx, rfl, rfl⟩ := h.association hk
    refine ⟨x, List.mem_filter.mpr ⟨hx, ?_⟩, rfl, by simp only [getUserId, hmeta]⟩
    rw [decide_eq_true_eq]
    exact fun hux => hkey ((isKeyOf_getPeerIdMid hu (h.plain x hx)).mpr hux)
  · rintro u' i t ⟨hm, hn⟩
    obtain ⟨hm, hgone⟩ := (hmem u' i t).mp hm
    obtain ⟨k, hk⟩ := h.associated.mp hm
    exact hn ⟨k, by rw [hentry, if_neg fun hkey => hgone ⟨k, hkey, hk⟩, hk]⟩

/-- **Step lemma** for consistent runs. -/
theorem Exact.step {a : Action} (h : Exact s) (hok : Consistent s a)
    (hs : Meeting.Streams.step s a = some s') : Exact s' := by
  have hT := h.toTracked.step hok.1 hs
  obtain ⟨st, hst, rfl⟩ := step_eq_some.mp hs
  cases a with
  | streamTrackAdd p =>
    obtain rfl := Option.some.inj hst
    exact h.streamTrackAdd hok hT
  | streamTrackRemove t =>
    obtain rfl := Option.some.inj hst
    obtain ⟨-, hentry, hmem⟩ := removeTrack_spec h.rep.toCoherent (h.rep.linked t)
    refine h.of_clear hT removeTrack_metadata hentry fun u i t' hm => ?_
    obtain ⟨hm, hn⟩ := (hmem u i t').mp hm
    exact ⟨hm, fun ha ht => hn ⟨List.mem_singleton.mp ht, ha⟩⟩
  | nicknameRemove u =>
    obtain ⟨-, hmeta, hentry, hmem⟩ := unassociateUserTracks_spec h.rep hst
    refine h.of_clear hT hmeta hentry fun u' i t hm => ?_
    obtain ⟨hu, hm⟩ := (hmem u' i t).mp hm
    refine ⟨hm, fun ha ht => hu ?_⟩
    -- a track of the user's streams is associated with the user
    obtain ⟨i', hm'⟩ := mem_tracksOf.mp ht
    obtain ⟨k, hk⟩ := h.associated.mp hm'
    have := h.rep.toCoherent.associated_unique hk ha
    simp_all
  | tracksMetadata p =>
    obtain rfl := Option.some.inj hst
    exact h.tracksMetadata hT
  | peerRemove u =>
    obtain rfl := Option.some.inj hst
    exact h.peerRemove hok.1 hT
  | hangUp =>
    obtain rfl := Option.some.inj hst
    exact exact_start

/-- No action throws. -/
theorem Exact.isSome (h : Exact s) (a : Action) : (streams s.state a).isSome := by
  cases a with
  | nicknameRemove u =>
    refine unassociateUserTracks_isSome h.rep fun i t hm => ?_
    obtain ⟨k, hk⟩ := h.associated.mp hm
    exact ⟨k, _, hk⟩
  | _ => rfl

end Exact

/-! ### The representation invariant -/

/-- The four records of the state agree. -/
structure RepresentationInvariant (st : StreamsState) : Prop where
  /-- The records of ids and of tracks are the same relation. -/
  ids_iff : ∀ t k, st.trackIdToPeerIdMid.lookup t = some k ↔
    ∃ i, st.tracksByPeerIdMid.lookup k = some i ∧ i.track = t
  /-- A track id has one key and a key has one track id. -/
  one_to_one : ∀ t t' k, st.trackIdToPeerIdMid.lookup t = some k →
    st.trackIdToPeerIdMid.lookup t' = some k → t = t'
  /-- Tracks are in the streams they are associated with. -/
  member_iff : ∀ u i t, Member st.streamsByUserId u i t ↔
    ∃ k x, st.tracksByPeerIdMid.lookup k = some x ∧ x.track = t ∧ x.association = some ⟨i, u⟩
  /-- A track is in at most one stream. -/
  one_stream : ∀ u i u' i' t, Member st.streamsByUserId u i t → Member st.streamsByUserId u' i' t →
    u = u' ∧ i = i'
  streams_ne_nil : ∀ u us, st.streamsByUserId.lookup u = some us → us.streams ≠ []
  tracks_ne_nil : ∀ u us, st.streamsByUserId.lookup u = some us →
    ∀ x ∈ us.streams, x.stream.tracks ≠ []
  stream_ids : ∀ u us, st.streamsByUserId.lookup u = some us →
    (us.streams.map StreamWithURL.streamId).Nodup

theorem Exact.representationInvariant {s : System} (h : Exact s) : RepresentationInvariant s.state := by
  have hids : ∀ t k, s.state.trackIdToPeerIdMid.lookup t = some k ↔
      ∃ i, s.state.tracksByPeerIdMid.lookup k = some i ∧ i.track = t := by
    intro t k
    rw [h.rep.lookup_iff]
    simp only [entry_eq_some]
    exact ⟨fun ⟨_, i, hi, ht, _⟩ => ⟨i, hi, ht⟩, fun ⟨i, hi, ht⟩ => ⟨_, i, hi, ht, rfl⟩⟩
  refine ⟨hids, ?_, ?_, ?_, fun u us hu => (h.rep.shaped u us hu).1,
    fun u us hu => (h.rep.shaped u us hu).2.tracks, fun u us hu => (h.rep.shaped u us hu).2.ids⟩
  · intro t t' k ht ht'
    obtain ⟨i, hi, rfl⟩ := (hids t k).mp ht
    obtain ⟨i', hi', rfl⟩ := (hids t' k).mp ht'
    rw [hi, Option.some.injEq] at hi'
    rw [hi']
  · intro u i t
    rw [h.associated]
    simp only [Associated, entry_eq_some]
  · intro u i u' i' t hm hm'
    obtain ⟨k, hk⟩ := h.associated.mp hm
    have := h.rep.toCoherent.associated_unique hk (h.associated.mp hm')
    simp_all

/-- **Representation invariant**: along every consistent run the four records agree, and no action
throws. -/
theorem representation_invariant {s : System} (h : Reach step Consistent start s) :
    RepresentationInvariant s.state ∧ ∀ a, (streams s.state a).isSome := by
  have hE : Exact s := h.invariant exact_start fun _ _ _ hI hok hs => hI.step hok hs
  exact ⟨hE.representationInvariant, hE.isSome⟩

/-- A run in which metadata moves a track to another user, and a nickname goes. -/
theorem representation_invariant_example : ∃ s, exec (guarded step Consistent) start
    [.streamTrackAdd ⟨"0", "s", "peer", "t"⟩, .streamTrackAdd ⟨"1", "s", "peer", "t'"⟩,
      .tracksMetadata ⟨"peer", [⟨"0", "video", "alice", "a"⟩]⟩, .streamTrackRemove "t'",
      .nicknameRemove "alice", .streamTrackAdd ⟨"0", "s", "peer", "t"⟩, .peerRemove "other"] = some s ∧
    s.state.streamsByUserId.keys = ["alice"] ∧
    RepresentationInvariant s.state ∧ ∀ a, (streams s.state a).isSome := by
  exact exists_exec (by decide) fun s hs _ => representation_invariant hs

end Meeting.Streams
