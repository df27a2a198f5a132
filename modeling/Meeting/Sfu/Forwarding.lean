import Meeting.Sfu.Peers

/-!
# Meeting.Sfu.Forwarding — which tracks the peers of an SFU room get (`tracksmanager.go`)

The tracks that a client gets are its `localTracks`; `clientIDBySSRC` says who sends them.  Both change when
events are handled, some time after a track was recorded or has ended, and when clients join.  The invariant
`Forwarded` accounts for the events that are still on their way.

* `tracks_converge`: when all events are handled, every client of the room gets the tracks of the others, and
  `GetTracksMetadata` lists them with their senders.
-/

namespace Meeting.Sfu

open Lib

/-! ### Tracks of the room -/

section Tracks

variable {r : Room} {ssrc : UInt32} {t : TrackInfo}

theorem mem_remoteTrackList {p : Transport} :
    t ∈ p.remoteTrackList ↔ ∃ ssrc, p.remoteTracks.lookup ssrc = some t := by
  rw [Transport.remoteTrackList, List.mem_map]
  constructor
  · rintro ⟨⟨s, t⟩, hx, rfl⟩
    exact ⟨s, AList.mem_lookup_iff.mpr hx⟩
  · rintro ⟨s, hs⟩
    exact ⟨⟨s, t⟩, AList.mem_lookup_iff.mp hs, rfl⟩

theorem mem_remoteTracks :
    t ∈ r.remoteTracks ↔ ∃ A ∈ r.transports, ∃ ssrc, (r.peer A).remoteTracks.lookup ssrc = some t := by
  simp only [Room.remoteTracks, List.mem_flatMap, mem_remoteTrackList]

theorem lookup_foldl_addTrack (tracks : List TrackInfo) : ∀ p : Transport,
    (tracks.foldl Transport.addTrack p).localTracks.lookup ssrc = some t →
      t ∈ tracks ∧ t.ssrc = ssrc ∨ p.localTracks.lookup ssrc = some t := by
  induction tracks with
  | nil => exact fun _ h => Or.inr h
  | cons u tracks ih =>
    intro p h
    rcases ih _ h with ⟨hm, hs⟩ | h
    · exact Or.inl ⟨List.mem_cons_of_mem _ hm, hs⟩
    · rcases lookup_insert_cases h with ⟨rfl, rfl⟩ | ⟨-, h⟩
      · exact Or.inl ⟨List.mem_cons_self, rfl⟩
      · exact Or.inr h

theorem mem_foldl_addTrack (tracks : List TrackInfo) : ∀ p : Transport,
    ssrc ∈ (tracks.foldl Transport.addTrack p).localTracks ↔
      ssrc ∈ p.localTracks ∨ ∃ t ∈ tracks, t.ssrc = ssrc := by
  induction tracks with
  | nil => simp
  | cons u tracks ih =>
    intro p
    rw [List.foldl_cons, ih, Transport.addTrack, AList.mem_insert, List.exists_mem_cons_iff]
    rw [eq_comm (a := ssrc)]
    tauto

/-- A track has one sender. -/
theorem Recorded.sender_unique (h : Recorded r) {A B : String} {u : TrackInfo}
    (hA : (r.peer A).remoteTracks.lookup ssrc = some t) (hB : r.tracks.lookup ssrc = some (B, u)) :
    A = B ∧ t = u := by
  have h1 := (h.sends A).remote hA
  rw [hB] at h1
  obtain ⟨rfl, rfl⟩ := Prod.mk.inj (Option.some.inj h1)
  exact ⟨rfl, rfl⟩

theorem Recorded.remote_ssrc (h : Recorded r) {A : String}
    (hA : (r.peer A).remoteTracks.lookup ssrc = some t) : t.ssrc = ssrc :=
  (h.known ((h.sends A).remote hA)).2

end Tracks

/-! ### The forwarding table -/

structure Forwarded (r : Room) : Prop extends Recorded r where
  unjoined : ∀ {c}, c ∉ r.added → (r.peer c).localTracks = ∅
  /-- A client gets a track of another one, until its `Remove` event is handled. -/
  gets : ∀ {B ssrc t}, B ∈ r.transports → (r.peer B).localTracks.lookup ssrc = some t →
    ∃ A, r.tracks.lookup ssrc = some (A, t) ∧ A ≠ B ∧
      (ssrc ∈ (r.peer A).remoteTracks ∨ .remove t ∈ (r.peer A).trackEvents)
  /-- It gets every track of another client whose `Add` event is handled. -/
  gotten : ∀ {A B ssrc t}, A ∈ r.transports → B ∈ r.transports → A ≠ B →
    (r.peer A).remoteTracks.lookup ssrc = some t →
      ssrc ∈ (r.peer B).localTracks ∨ .add t ∈ (r.peer A).trackEvents
  sender : ∀ {A ssrc t}, A ∈ r.added → (r.peer A).remoteTracks.lookup ssrc = some t →
    r.clientIDBySSRC.lookup ssrc = some A ∨ .add t ∈ (r.peer A).trackEvents

theorem forwarded_empty : Forwarded Room.empty := by
  refine ⟨recorded_empty, fun _ => rfl, ?_, ?_, ?_⟩
  · intro B ssrc t h
    cases h
  · intro A B ssrc t h
    cases h
  · intro A ssrc t h
    cases h

section Forwarded

variable {r r' : Room} {c : String} {track : TrackInfo}

/-- Steps that leave the tracks. -/
theorem Forwarded.congr (h : Forwarded r) (hR : Recorded r') (htracks : r'.tracks = r.tracks)
    (hadded : r'.added = r.added) (hin : ∀ x ∈ r'.transports, x ∈ r.transports)
    (hid : r'.clientIDBySSRC = r.clientIDBySSRC)
    (hpeer : ∀ x, (r'.peer x).localTracks = (r.peer x).localTracks ∧
      (r'.peer x).remoteTracks = (r.peer x).remoteTracks ∧
      (r'.peer x).trackEvents = (r.peer x).trackEvents) : Forwarded r' := by
  refine ⟨hR, ?_, ?_, ?_, ?_⟩
  · intro x hx
    rw [(hpeer x).1]
    exact h.unjoined (hadded ▸ hx)
  · intro B ssrc t hB ht
    rw [(hpeer B).1] at ht
    obtain ⟨A, hA⟩ := h.gets (hin B hB) ht
    exact ⟨A, by rwa [htracks, (hpeer A).2.1, (hpeer A).2.2]⟩
  · intro A B ssrc t hA hB hne ht
    rw [(hpeer A).2.1] at ht
    rw [(hpeer B).1, (hpeer A).2.2]
    exact h.gotten (hin A hA) (hin B hB) hne ht
  · intro A ssrc t hA ht
    rw [(hpeer A).2.1] at ht
    rw [hid, (hpeer A).2.2]
    exact h.sender (hadded ▸ hA) ht

theorem setPeer_localTracks (r : Room) (c x : String) (p : Transport)
    (hp : p.localTracks = (r.peer c).localTracks) :
    ((r.setPeer c p).peer x).localTracks = (r.peer x).localTracks := by
  by_cases hx : x = c
  · subst hx
    rw [setPeer_peer_self, hp]
  · rw [setPeer_peer_ne _ _ _ _ hx]

theorem Forwarded.record (h : Forwarded r) (hc : c ∈ r.created) (hnew : track.ssrc ∉ r.tracks) :
    Forwarded { r.setPeer c { r.peer c with
        remoteTracks := (r.peer c).remoteTracks.insert track.ssrc track
        trackEvents := (r.peer c).trackEvents ++ [.add track] } with
      tracks := r.tracks.insert track.ssrc (c, track) } := by
  have hlocal := fun x => setPeer_localTracks r c x { r.peer c with
    remoteTracks := (r.peer c).remoteTracks.insert track.ssrc track
    trackEvents := (r.peer c).trackEvents ++ [.add track] } rfl
  refine ⟨h.toRecorded.record hc hnew, ?_, ?_, ?_, ?_⟩
  · intro x hx
    exact (hlocal x).trans (h.unjoined hx)
  · intro B ssrc t hB ht
    rw [hlocal] at ht
    obtain ⟨A, hA, hne, hlive⟩ := h.gets hB ht
    have hs : ssrc ≠ track.ssrc := by
      rintro rfl
      exact hnew (AList.lookup_isSome.mp (hA ▸ rfl))
    refine ⟨A, by rw [AList.lookup_insert_ne hs, hA], hne, ?_⟩
    by_cases hAc : A = c
    · subst hAc
      rw [setPeer_peer_self]
      exact hlive.imp (fun hin => (AList.mem_insert _).mpr (Or.inr hin)) (List.mem_append_left _)
    · rw [setPeer_peer_ne _ _ _ _ hAc]
      exact hlive
  · intro A B ssrc t hA hB hne ht
    rw [hlocal]
    by_cases hAc : A = c
    · subst hAc
      rw [setPeer_peer_self] at ht ⊢
      rcases lookup_insert_cases ht with ⟨-, rfl⟩ | ⟨-, ht⟩
      · exact Or.inr (List.mem_append_right _ (List.mem_singleton_self _))
      · exact (h.gotten hA hB hne ht).imp_right (List.mem_append_left _)
    · rw [setPeer_peer_ne _ _ _ _ hAc] at ht ⊢
      exact h.gotten hA hB hne ht
  · intro A ssrc t hA ht
    by_cases hAc : A = c
    · subst hAc
      rw [setPeer_peer_self] at ht ⊢
      rcases lookup_insert_cases ht with ⟨-, rfl⟩ | ⟨-, ht⟩
      · exact Or.inr (List.mem_append_right _ (List.mem_singleton_self _))
      · exact (h.sender hA ht).imp_right (List.mem_append_left _)
    · rw [setPeer_peer_ne _ _ _ _ hAc] at ht ⊢
      exact h.sender hA ht

theorem Forwarded.endTrack {ssrc : UInt32} (h : Forwarded r)
    (hend : (r.peer c).remoteTracks.lookup ssrc = some track) :
    Forwarded (r.setPeer c { r.peer c with
      remoteTracks := (r.peer c).remoteTracks.erase ssrc
      trackEvents := (r.peer c).trackEvents ++ [.remove track] }) := by
  have hlocal := fun x => setPeer_localTracks r c x { r.peer c with
    remoteTracks := (r.peer c).remoteTracks.erase ssrc
    trackEvents := (r.peer c).trackEvents ++ [.remove track] } rfl
  refine ⟨h.toRecorded.endTrack hend, ?_, ?_, ?_, ?_⟩
  · intro x hx
    exact (hlocal x).trans (h.unjoined hx)
  · intro B s t hB ht
    rw [hlocal] at ht
    obtain ⟨A, hA, hne, hlive⟩ := h.gets hB ht
    refine ⟨A, hA, hne, ?_⟩
    by_cases hAc : A = c
    · subst hAc
      rw [setPeer_peer_self]
      by_cases hs : s = ssrc
      · -- the track ends: its `Remove` event is sent
        subst hs
        obtain ⟨-, rfl⟩ := h.sender_unique hend hA
        exact Or.inr (List.mem_append_right _ (List.mem_singleton_self _))
      · exact hlive.imp (fun hin => AList.mem_erase.mpr ⟨hs, hin⟩) (List.mem_append_left _)
    · rw [setPeer_peer_ne _ _ _ _ hAc]
      exact hlive
  · intro A B s t hA hB hne ht
    rw [hlocal]
    by_cases hAc : A = c
    · subst hAc
      rw [setPeer_peer_self] at ht ⊢
      exact (h.gotten hA hB hne (lookup_of_lookup_erase ht).2).imp_right (List.mem_append_left _)
    · rw [setPeer_peer_ne _ _ _ _ hAc] at ht ⊢
      exact h.gotten hA hB hne ht
  · intro A s t hA ht
    by_cases hAc : A = c
    · subst hAc
      rw [setPeer_peer_self] at ht ⊢
      exact (h.sender hA (lookup_of_lookup_erase ht).2).imp_right (List.mem_append_left _)
    · rw [setPeer_peer_ne _ _ _ _ hAc] at ht ⊢
      exact h.sender hA ht

/-- A client that joins gets the tracks of the room; those of its own are still to be announced. -/
theorem Forwarded.add (h : Forwarded r) (hc : c ∈ r.created) (hnew : c ∉ r.added)
    (due : List (String × UInt32)) :
    Forwarded { r.add c with added := c :: r.added, due } := by
  have hout : c ∉ r.transports := fun hin => hnew ((h.mem_transports c).mp hin).1
  have hremote := fun x => (sameRemote_add r c x).1
  have hevents := fun x => (sameRemote_add r c x).2.1
  have hR : Recorded { r.add c with added := c :: r.added, due } :=
    h.toRecorded.congr (h.toJoined.add hc hnew due) rfl (fun _ hx => hx)
      (fun _ hx => List.mem_cons_of_mem _ hx) fun x => ⟨hremote x, hevents x⟩
  have hself : ((r.add c).peer c).localTracks =
      (r.remoteTracks.foldl Transport.addTrack (r.peer c)).localTracks := by
    simp only [Room.add, Function.update_self]
  have hother : ∀ x, x ≠ c → (r.add c).peer x = r.peer x := by
    intro x hx
    simp only [Room.add, Function.update_of_ne hx]
  refine ⟨hR, ?_, ?_, ?_, ?_⟩
  · intro x hx
    rw [List.mem_cons, not_or] at hx
    rw [hother x hx.1]
    exact h.unjoined hx.2
  · intro B ssrc t hB ht
    by_cases hBc : B = c
    · subst hBc
      rw [hself] at ht
      rcases lookup_foldl_addTrack _ _ ht with ⟨hm, rfl⟩ | ht
      · obtain ⟨A, hA, s, hs⟩ := mem_remoteTracks.mp hm
        obtain rfl := h.remote_ssrc hs
        refine ⟨A, (h.sends A).remote hs, fun he => hout (he ▸ hA), Or.inl ?_⟩
        rw [hremote]
        exact AList.lookup_isSome.mp (hs ▸ rfl)
      · rw [h.unjoined hnew] at ht
        cases ht
    · rw [hother B hBc] at ht
      obtain ⟨A, hA, hne, hlive⟩ := h.gets ((List.mem_cons.mp hB).resolve_left hBc) ht
      refine ⟨A, hA, hne, ?_⟩
      rw [hremote, hevents]
      exact hlive
  · intro A B ssrc t hA hB hne ht
    rw [hremote] at ht
    rw [hevents]
    by_cases hAc : A = c
    · exact Or.inr (h.early (hAc ▸ hnew) ht)
    · have hA' := (List.mem_cons.mp hA).resolve_left hAc
      by_cases hBc : B = c
      · subst hBc
        rw [hself, mem_foldl_addTrack]
        exact Or.inl (Or.inr ⟨t, mem_remoteTracks.mpr ⟨A, hA', ssrc, ht⟩, h.remote_ssrc ht⟩)
      · rw [hother B hBc]
        exact h.gotten hA' ((List.mem_cons.mp hB).resolve_left hBc) hne ht
  · intro A ssrc t hA ht
    rw [hremote] at ht
    rw [hevents]
    by_cases hAc : A = c
    · exact Or.inr (h.early (hAc ▸ hnew) ht)
    · exact h.sender ((List.mem_cons.mp hA).resolve_left hAc) ht

end Forwarded

/-! ### Handling an event -/

section Handle

variable {r : Room} {c : String} {track : TrackInfo}

theorem mem_others {x : String} : x ∈ r.others c ↔ x ∈ r.transports ∧ x ≠ c := by
  simp [Room.others]

theorem takeEvent_peer_ne {event : TrackEvent} {x : String} (hx : x ≠ c) :
    (r.takeEvent c event).peer x = r.peer x :=
  setPeer_peer_ne _ _ _ _ hx

theorem remoteTracks_handled (r : Room) (c x : String) (event : TrackEvent) :
    (((r.takeEvent c event).handleEvent c event).peer x).remoteTracks = (r.peer x).remoteTracks := by
  rw [(sameRemote_handleEvent _ c x event).1]
  by_cases hx : x = c
  · subst hx
    simp [Room.takeEvent]
  · rw [takeEvent_peer_ne hx]

/-- Every event but the one that is handled stays. -/
theorem mem_trackEvents_handled {event e : TrackEvent} {x : String} (he : e ∈ (r.peer x).trackEvents)
    (hne : x = c → e ≠ event) :
    e ∈ (((r.takeEvent c event).handleEvent c event).peer x).trackEvents := by
  rw [(sameRemote_handleEvent _ c x event).2.1]
  by_cases hx : x = c
  · subst hx
    simp only [Room.takeEvent, setPeer_peer_self]
    exact (List.mem_erase_of_ne (hne rfl)).mpr he
  · rw [takeEvent_peer_ne hx]
    exact he

/-- The event that is handled does not stay. -/
theorem mem_of_handled {event e : TrackEvent} {x : String} (h : Recorded r)
    (he : e ∈ (((r.takeEvent c event).handleEvent c event).peer x).trackEvents) :
    e ∈ (r.peer x).trackEvents ∧ (x = c → e ≠ event) := by
  rw [(sameRemote_handleEvent _ c x event).2.1] at he
  by_cases hx : x = c
  · subst hx
    simp only [Room.takeEvent, setPeer_peer_self] at he
    obtain ⟨hne, he⟩ := (h.sends x).once.mem_erase_iff.mp he
    exact ⟨he, fun _ => hne⟩
  · rw [takeEvent_peer_ne hx] at he
    exact ⟨he, fun hxc => absurd hxc hx⟩

theorem localTracks_takeEvent (r : Room) (c x : String) (event : TrackEvent) :
    ((r.takeEvent c event).peer x).localTracks = (r.peer x).localTracks :=
  setPeer_localTracks r c x _ rfl

theorem localTracks_handleAdd (r : Room) (c x : String) (track : TrackInfo) :
    (((r.takeEvent c (.add track)).handleEvent c (.add track)).peer x).localTracks =
      if x ∈ r.others c then (r.peer x).localTracks.insert track.ssrc track else (r.peer x).localTracks := by
  rw [← localTracks_takeEvent r c x (.add track)]
  show (if x ∈ r.others c then ((r.takeEvent c (.add track)).peer x).addTrack track
    else (r.takeEvent c (.add track)).peer x).localTracks = _
  split_ifs <;> rfl

theorem localTracks_handleRemove (r : Room) (c x : String) (track : TrackInfo) :
    (((r.takeEvent c (.remove track)).handleEvent c (.remove track)).peer x).localTracks =
      if x ∈ r.others c then (r.peer x).localTracks.erase track.ssrc else (r.peer x).localTracks := by
  rw [← localTracks_takeEvent r c x (.remove track)]
  show (if x ∈ r.others c then ((r.takeEvent c (.remove track)).peer x).removeTrack track.ssrc
    else (r.takeEvent c (.remove track)).peer x).localTracks = _
  split_ifs <;> rfl

/-- The `Add` event of a track gives it to the others. -/
theorem Forwarded.handleAdd (h : Forwarded r) (hc : c ∈ r.added) (hready : Ready (r.peer c) (.add track)) :
    Forwarded ((r.takeEvent c (.add track)).handleEvent c (.add track)) := by
  have hsent : r.tracks.lookup track.ssrc = some (c, track) := (h.sends c).sent hready
  refine ⟨h.toRecorded.step (.handleEvent hc hready), ?_, ?_, ?_, ?_⟩
  · intro x hx
    have hout : x ∉ r.others c := fun hin => hx ((h.mem_transports x).mp (mem_others.mp hin).1).1
    rw [localTracks_handleAdd, if_neg hout]
    exact h.unjoined hx
  · intro B ssrc t hB ht
    have hold : (r.peer B).localTracks.lookup ssrc = some t → ∃ A, r.tracks.lookup ssrc = some (A, t) ∧ A ≠ B ∧
        (ssrc ∈ (r.peer A).remoteTracks ∨ .remove t ∈ (((r.takeEvent c (.add track)).handleEvent c
          (.add track)).peer A).trackEvents) := by
      intro hl
      obtain ⟨A, hA, hne, hlive⟩ := h.gets hB hl
      exact ⟨A, hA, hne, hlive.imp_right fun he => mem_trackEvents_handled he fun _ => nofun⟩
    simp only [remoteTracks_handled]
    rw [localTracks_handleAdd] at ht
    split_ifs at ht with hoth
    · rcases lookup_insert_cases ht with ⟨rfl, rfl⟩ | ⟨-, ht⟩
      · refine ⟨c, hsent, (mem_others.mp hoth).2.symm, ?_⟩
        exact ((h.sends c).there hready).imp_right fun he => mem_trackEvents_handled he fun _ => nofun
      · exact hold ht
    · exact hold ht
  · intro A B ssrc t hA hB hne ht
    rw [remoteTracks_handled] at ht
    rw [localTracks_handleAdd]
    by_cases hAt : A = c ∧ t = track
    · obtain ⟨rfl, rfl⟩ := hAt
      have hoth : B ∈ r.others A := mem_others.mpr ⟨hB, hne.symm⟩
      rw [if_pos hoth, h.remote_ssrc ht]
      exact Or.inl ((AList.mem_insert _).mpr (Or.inl rfl))
    · refine (h.gotten hA hB hne ht).imp (fun hin => ?_) fun he => mem_trackEvents_handled he ?_
      · split_ifs
        · exact (AList.mem_insert _).mpr (Or.inr hin)
        · exact hin
      · exact fun hAc heq => hAt ⟨hAc, TrackEvent.add.inj heq⟩
  · intro A ssrc t hA ht
    rw [remoteTracks_handled] at ht
    show (r.clientIDBySSRC.insert track.ssrc c).lookup ssrc = some A ∨ _
    by_cases hs : ssrc = track.ssrc
    · subst hs
      obtain ⟨rfl, -⟩ := h.sender_unique ht hsent
      exact Or.inl (AList.lookup_insert _)
    · rw [AList.lookup_insert_ne hs]
      refine (h.sender hA ht).imp_right fun he => mem_trackEvents_handled he fun _ heq => hs ?_
      rw [← h.remote_ssrc ht, TrackEvent.add.inj heq]

/-- The `Remove` event of a track takes it from the others. -/
theorem Forwarded.handleRemove (h : Forwarded r) (hc : c ∈ r.added)
    (hready : Ready (r.peer c) (.remove track)) :
    Forwarded ((r.takeEvent c (.remove track)).handleEvent c (.remove track)) := by
  have hsent : r.tracks.lookup track.ssrc = some (c, track) := (h.sends c).sent hready.1
  -- the track that has ended is not a remote track of anybody
  have hover : ∀ {A ssrc t}, (r.peer A).remoteTracks.lookup ssrc = some t → ssrc ≠ track.ssrc := by
    rintro A ssrc t ht rfl
    obtain ⟨rfl, -⟩ := h.sender_unique ht hsent
    exact (h.sends A).gone hready.1 (AList.lookup_isSome.mp (ht ▸ rfl))
  refine ⟨h.toRecorded.step (.handleEvent hc hready), ?_, ?_, ?_, ?_⟩
  · intro x hx
    have hout : x ∉ r.others c := fun hin => hx ((h.mem_transports x).mp (mem_others.mp hin).1).1
    rw [localTracks_handleRemove, if_neg hout]
    exact h.unjoined hx
  · intro B ssrc t hB ht
    simp only [remoteTracks_handled]
    rw [localTracks_handleRemove] at ht
    have hl : (r.peer B).localTracks.lookup ssrc = some t := by
      split_ifs at ht with hoth
      · exact (lookup_of_lookup_erase ht).2
      · exact ht
    obtain ⟨A, hA, hne, hlive⟩ := h.gets hB hl
    refine ⟨A, hA, hne, hlive.imp_right fun he => mem_trackEvents_handled he fun hAc heq => ?_⟩
    -- the track was taken from the client
    obtain rfl := TrackEvent.remove.inj heq
    have hoth : B ∈ r.others c := mem_others.mpr ⟨hB, fun hBc => hne (hAc.trans hBc.symm)⟩
    rw [if_pos hoth, (h.known hA).2, AList.lookup_erase] at ht
    cases ht
  · intro A B ssrc t hA hB hne ht
    rw [remoteTracks_handled] at ht
    rw [localTracks_handleRemove]
    refine (h.gotten hA hB hne ht).imp (fun hin => ?_) fun he => mem_trackEvents_handled he fun _ => nofun
    split_ifs
    · exact AList.mem_erase.mpr ⟨hover ht, hin⟩
    · exact hin
  · intro A ssrc t hA ht
    rw [remoteTracks_handled] at ht
    show (r.clientIDBySSRC.erase track.ssrc).lookup ssrc = some A ∨ _
    rw [AList.lookup_erase_ne (hover ht)]
    exact (h.sender hA ht).imp_right fun he => mem_trackEvents_handled he fun _ => nofun

/-- A packet of a transport leaves the tracks. -/
theorem setPeer_tracks (r : Room) (c x : String) (p : Transport)
    (hl : p.localTracks = (r.peer c).localTracks) (hr : p.remoteTracks = (r.peer c).remoteTracks)
    (he : p.trackEvents = (r.peer c).trackEvents) :
    ((r.setPeer c p).peer x).localTracks = (r.peer x).localTracks ∧
      ((r.setPeer c p).peer x).remoteTracks = (r.peer x).remoteTracks ∧
      ((r.setPeer c p).peer x).trackEvents = (r.peer x).trackEvents :=
  ⟨setPeer_localTracks r c x p hl, setPeer_packets c x p hr he⟩

/-- **Step lemma.** -/
theorem Forwarded.step {r' : Room} {x : Action} (h : Forwarded r) (hs : Stepped r x r') : Forwarded r' := by
  have hR := h.toRecorded.step hs
  cases hs with
  | create => exact h.congr hR rfl rfl (fun _ hx => hx) rfl fun _ => ⟨rfl, rfl, rfl⟩
  | close => exact h.congr hR rfl rfl (fun _ hx => hx) rfl fun _ => ⟨rfl, rfl, rfl⟩
  | remove => exact h.congr hR rfl rfl (fun _ hx => List.mem_of_mem_erase hx) rfl fun _ => ⟨rfl, rfl, rfl⟩
  | record hc hnew => exact h.record hc hnew
  | endTrack ht => exact h.endTrack ht
  | add hc hnew => exact h.add hc hnew _
  | @handleEvent c event hc hready =>
    cases event with
    | add track => exact h.handleAdd hc hready
    | remove track => exact h.handleRemove hc hready
  | @receiveRTP c => exact h.congr hR rfl rfl (fun _ hx => hx) rfl fun x => setPeer_tracks r c x _ rfl rfl rfl
  | @handleRTP c => exact h.congr hR rfl rfl (fun _ hx => hx) rfl fun x => setPeer_tracks r c x _ rfl rfl rfl
  | @receiveRTCP c => exact h.congr hR rfl rfl (fun _ hx => hx) rfl fun x => setPeer_tracks r c x _ rfl rfl rfl
  | @handleRTCP c packet =>
    cases packet with
    | remb => exact h.congr hR rfl rfl (fun _ hx => hx) rfl fun x => setPeer_tracks r c x _ rfl rfl rfl
    | other => exact h.congr hR rfl rfl (fun _ hx => hx) rfl fun x => setPeer_tracks r c x _ rfl rfl rfl

end Handle

theorem forwarded_of_reach {ok : Room → Action → Prop} {r : Room} (h : Reach step ok Room.empty r) :
    Forwarded r :=
  h.invariant forwarded_empty fun _ _ _ hI _ hs => hI.step (stepped_of_step hs)

/-! ### Metadata -/

inductive Kind where
  | audio
  | video
  deriving DecidableEq, Repr

structure TrackMetadata where
  mid : String
  userId : String
  streamId : String
  kind : Kind
  deriving DecidableEq, Repr

section Metadata

-- what the peer connection says of a track: its kind, by the payload type, and the mid of the transceiver that a
-- client gets it with
variable (kindOf : UInt8 → Kind) (midOf : String → UInt32 → String)

/-- The entry of a track; the client id is empty when there is none for the SSRC. -/
def trackMetadata (r : Room) (clientID : String) (track : TrackInfo) : TrackMetadata :=
  ⟨midOf clientID track.ssrc, (r.clientIDBySSRC.lookup track.ssrc).getD "", track.label,
    kindOf track.payloadType⟩

/-- `GetTracksMetadata`. -/
def getTracksMetadata (r : Room) (clientID : String) : Option (List TrackMetadata) :=
  if clientID ∈ r.transports then
    some ((r.peer clientID).localTracks.entries.map fun x => trackMetadata kindOf midOf r clientID x.2)
  else none

end Metadata

/-- The tracks that the other clients of the room send, each with its sender. -/
def Room.incoming (r : Room) (clientID : String) : List (String × TrackInfo) :=
  (r.others clientID).flatMap fun other => (r.peer other).remoteTrackList.map fun track => (other, track)

/-- All events that were sent are handled, and the transports that have closed have no remote track left. -/
def Quiescent (r : Room) : Prop :=
  (∀ c ∈ r.created, (r.peer c).trackEvents = []) ∧ ∀ c ∈ r.closed, (r.peer c).remoteTrackList = []

instance : DecidablePred Quiescent := fun _ => inferInstanceAs (Decidable (_ ∧ _))

section Quiescent

variable {r : Room} {B : String}

theorem mem_incoming {A : String} {t : TrackInfo} :
    (A, t) ∈ r.incoming B ↔ A ∈ r.transports ∧ A ≠ B ∧ ∃ ssrc, (r.peer A).remoteTracks.lookup ssrc = some t := by
  simp only [Room.incoming, List.mem_flatMap, mem_others, List.mem_map, mem_remoteTrackList, Prod.mk.injEq]
  constructor
  · rintro ⟨A', ⟨hA, hne⟩, t', ht, rfl, rfl⟩
    exact ⟨hA, hne, ht⟩
  · rintro ⟨hA, hne, ht⟩
    exact ⟨A, ⟨hA, hne⟩, t, ht, rfl, rfl⟩

/-- Who sends a track is in the room. -/
theorem Forwarded.mem_transports_of_remote (h : Forwarded r) (hq : Quiescent r) {A : String} {ssrc : UInt32}
    {t : TrackInfo} (ht : (r.peer A).remoteTracks.lookup ssrc = some t) : A ∈ r.transports := by
  have hcreated := (h.known ((h.sends A).remote ht)).1
  refine (h.mem_transports A).mpr ⟨?_, fun hr => ?_⟩
  · by_contra hA
    have he := h.early hA ht
    rw [hq.1 A hcreated] at he
    cases he
  · have hm := mem_remoteTrackList.mpr ⟨ssrc, ht⟩
    rw [hq.2 A (h.removed A hr).2] at hm
    cases hm

/-- What a client gets is what the others send. -/
theorem Forwarded.lookup_iff (h : Forwarded r) (hq : Quiescent r) (hB : B ∈ r.transports) {ssrc : UInt32}
    {t : TrackInfo} : (r.peer B).localTracks.lookup ssrc = some t ↔
      ∃ A ∈ r.transports, A ≠ B ∧ (r.peer A).remoteTracks.lookup ssrc = some t := by
  have hlast : ∀ {A u}, (r.peer B).localTracks.lookup ssrc = some u → r.tracks.lookup ssrc = some (A, t) →
      t = u ∧ A ≠ B ∧ ssrc ∈ (r.peer A).remoteTracks := by
    intro A u hl hA
    obtain ⟨A', hA', hne, hlive⟩ := h.gets hB hl
    obtain ⟨rfl, rfl⟩ := Prod.mk.inj (Option.some.inj (hA.symm.trans hA'))
    refine ⟨rfl, hne, hlive.resolve_right fun he => ?_⟩
    rw [hq.1 A (h.known hA).1] at he
    cases he
  constructor
  · intro hl
    obtain ⟨A, hA, -, -⟩ := h.gets hB hl
    obtain ⟨-, hne, hin⟩ := hlast hl hA
    obtain ⟨u, hu⟩ := Option.isSome_iff_exists.mp (AList.lookup_isSome.mpr hin)
    obtain ⟨-, rfl⟩ := h.sender_unique hu hA
    exact ⟨A, h.mem_transports_of_remote hq hu, hne, hu⟩
  · rintro ⟨A, hA, hne, ht⟩
    have hin : ssrc ∈ (r.peer B).localTracks := by
      refine (h.gotten hA hB hne ht).resolve_right fun he => ?_
      rw [hq.1 A (h.known ((h.sends A).remote ht)).1] at he
      cases he
    obtain ⟨u, hu⟩ := Option.isSome_iff_exists.mp (AList.lookup_isSome.mpr hin)
    obtain ⟨rfl, -⟩ := hlast hu ((h.sends A).remote ht)
    exact hu

/-- The tracks that some clients send have different SSRCs. -/
theorem Recorded.nodup_ssrcs (h : Recorded r) {l : List String} (hl : l.Nodup) :
    (l.flatMap fun A => (r.peer A).remoteTrackList.map TrackInfo.ssrc).Nodup := by
  have hkeys : ∀ A, (r.peer A).remoteTrackList.map TrackInfo.ssrc = (r.peer A).remoteTracks.keys := by
    intro A
    rw [Transport.remoteTrackList, List.map_map]
    exact List.map_congr_left fun x hx => h.remote_ssrc (AList.mem_lookup_iff.mpr hx)
  simp only [hkeys]
  refine List.nodup_flatMap.mpr ⟨fun A _ => (r.peer A).remoteTracks.nodupKeys, hl.imp fun {A A'} hne => ?_⟩
  intro ssrc h1 h2
  obtain ⟨t, ht⟩ := Option.isSome_iff_exists.mp (AList.lookup_isSome.mpr h1)
  obtain ⟨u, hu⟩ := Option.isSome_iff_exists.mp (AList.lookup_isSome.mpr h2)
  exact hne (h.sender_unique ht ((h.sends A').remote hu)).1

/-- The local tracks of a client are those that the others send, in some order. -/
theorem Forwarded.entries_perm (h : Forwarded r) (hq : Quiescent r) (hB : B ∈ r.transports) :
    (r.peer B).localTracks.entries.Perm ((r.incoming B).map fun x => ⟨x.2.ssrc, x.2⟩) := by
  have hnodup : ((r.incoming B).map fun x => (⟨x.2.ssrc, x.2⟩ : Σ _ : UInt32, TrackInfo)).Nodup := by
    refine List.Nodup.of_map Sigma.fst ?_
    simp only [Room.incoming, List.map_map, List.map_flatMap]
    exact h.nodup_ssrcs (h.nodup.filter _)
  refine (List.perm_ext_iff_of_nodup (r.peer B).localTracks.nodupKeys.nodup hnodup).mpr ?_
  rintro ⟨ssrc, t⟩
  rw [← AList.mem_lookup_iff, Option.mem_def, h.lookup_iff hq hB, List.mem_map]
  constructor
  · rintro ⟨A, hA, hne, ht⟩
    obtain rfl := h.remote_ssrc ht
    exact ⟨(A, t), mem_incoming.mpr ⟨hA, hne, _, ht⟩, rfl⟩
  · rintro ⟨⟨A, u⟩, hin, he⟩
    obtain ⟨hA, hne, s, hs⟩ := mem_incoming.mp hin
    obtain ⟨rfl, rfl⟩ := Sigma.mk.inj he
    exact ⟨A, hA, hne, by rw [h.remote_ssrc hs]; exact hs⟩

end Quiescent

/-- **Forwarding converges**: in every reachable state in which all events are handled and closed transports have
no tracks left, the local tracks of a client of the room are the remote tracks of the others, and
`GetTracksMetadata` has one entry for each of them, with its sender and its label. -/
theorem tracks_converge (kindOf : UInt8 → Kind) (midOf : String → UInt32 → String) {r : Room}
    (h : Reach step anyStep Room.empty r) (hq : Quiescent r) {B : String} (hB : B ∈ r.transports) :
    (∀ ssrc, ssrc ∈ (r.peer B).localTracks ↔
      ∃ A ∈ r.transports, A ≠ B ∧ ssrc ∈ (r.peer A).remoteTracks) ∧
    ∃ m, getTracksMetadata kindOf midOf r B = some m ∧ m.Perm ((r.incoming B).map fun x =>
      ⟨midOf B x.2.ssrc, x.1, x.2.label, kindOf x.2.payloadType⟩) := by
  have hF := forwarded_of_reach h
  refine ⟨fun ssrc => ?_, _, if_pos hB, ?_⟩
  · simp only [← AList.lookup_isSome, Option.isSome_iff_exists, hF.lookup_iff hq hB]
    constructor
    · rintro ⟨t, A, hA, hne, ht⟩
      exact ⟨A, hA, hne, t, ht⟩
    · rintro ⟨A, hA, hne, t, ht⟩
      exact ⟨t, A, hA, hne, ht⟩
  · refine ((hF.entries_perm hq hB).map fun x => trackMetadata kindOf midOf r B x.2).trans ?_
    rw [List.map_map]
    refine List.Perm.of_eq (List.map_congr_left ?_)
    rintro ⟨A, t⟩ hx
    obtain ⟨hA, -, ssrc, ht⟩ := mem_incoming.mp hx
    have hsender : r.clientIDBySSRC.lookup t.ssrc = some A := by
      rw [hF.remote_ssrc ht]
      refine (hF.sender ((hF.mem_transports A).mp hA).1 ht).resolve_right fun he => ?_
      rw [hq.1 A (hF.known ((hF.sends A).remote ht)).1] at he
      cases he
    simp [trackMetadata, hsender]

/-- Two clients join, one of them after the other one has sent a track; a third one comes and goes. -/
theorem tracks_converge_example : ∃ r, exec (guarded step anyStep) Room.empty
      [.create "a", .create "b", .create "d", .add "a", .record "a" ⟨111, 1, "t", "camera"⟩, .add "b",
        .handleEvent "a" (.add ⟨111, 1, "t", "camera"⟩), .add "d", .record "d" ⟨96, 2, "u", "screen"⟩,
        .handleEvent "d" (.add ⟨96, 2, "u", "screen"⟩), .close "d", .remove "d", .endTrack "d" 2,
        .handleEvent "d" (.remove ⟨96, 2, "u", "screen"⟩)] = some r ∧
    (Quiescent r ∧ "b" ∈ r.transports ∧ r.incoming "b" = [("a", ⟨111, 1, "t", "camera"⟩)]) ∧
    ∃ m, getTracksMetadata (fun _ => .audio) (fun _ _ => "0") r "b" = some m ∧
      m.Perm [⟨"0", "a", "camera", .audio⟩] := by
  refine exists_exec (by decide) fun r hs hq => ?_
  obtain ⟨hq, hb, hin⟩ := hq
  have hconv := (tracks_converge (fun _ => .audio) (fun _ _ => "0") hs hq hb).2
  rwa [hin] at hconv

end Meeting.Sfu
