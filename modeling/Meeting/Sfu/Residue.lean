import Meeting.Sfu.Forwarding

/-!
# Meeting.Sfu.Residue — what an SFU room keeps of a client that has left (`tracksmanager.go`)

Handling packets creates state: an RTP packet the ring of its track, a REMB packet the estimators of the tracks
that it names, with an estimate of its sender.  `Remove` deletes the estimates of a client, `removeTrack` the
estimator and the client id of a track.  Nothing deletes a ring.

* `nothing_left`: along the runs in which no RTP packet of a client is handled, no REMB packet of it after its
  `Remove`, and no REMB packet that names a track of it after the track's `Remove` event (`Leaves`), nothing is
  left of the client when it has left;
* `something_left`: all three leave something behind.
-/

namespace Meeting.Sfu

open Lib

/-! ### Tracks that have ended -/

structure Traced (r : Room) : Prop extends Recorded r where
  /-- A track is there, or its `Remove` event is on its way, or was handled. -/
  fate : ∀ {A ssrc t}, r.tracks.lookup ssrc = some (A, t) →
    ssrc ∈ (r.peer A).remoteTracks ∨ .remove t ∈ (r.peer A).trackEvents ∨ ssrc ∈ r.ended
  endedTracks : ∀ ssrc ∈ r.ended, ssrc ∈ r.tracks
  endedOnce : ∀ {A ssrc t}, ssrc ∈ r.ended → r.tracks.lookup ssrc = some (A, t) →
    .add t ∉ (r.peer A).trackEvents
  packets : ∀ {c packet}, packet ∈ (r.peer c).rtp → ∃ t, r.tracks.lookup packet.ssrc = some (c, t)
  rings : ∀ ssrc ∈ r.buffers, ssrc ∈ r.tracks

theorem traced_empty : Traced Room.empty := by
  refine ⟨recorded_empty, ?_, ?_, ?_, ?_, ?_⟩
  · intro A ssrc t h
    cases h
  · intro ssrc h
    cases h
  · intro A ssrc t h
    cases h
  · intro c packet h
    cases h
  · intro ssrc h
    cases h

section Traced

variable {r r' : Room} {c : String} {track : TrackInfo}

theorem setPeer_rtp (r : Room) (c x : String) (p : Transport) (hp : p.rtp = (r.peer c).rtp) :
    ((r.setPeer c p).peer x).rtp = (r.peer x).rtp := by
  by_cases hx : x = c
  · subst hx
    rw [setPeer_peer_self, hp]
  · rw [setPeer_peer_ne _ _ _ _ hx]

/-- Steps that record or end no track. -/
theorem Traced.congr (h : Traced r) (hR : Recorded r') (htracks : r'.tracks = r.tracks)
    (hended : r'.ended = r.ended) (hrings : ∀ ssrc ∈ r'.buffers, ssrc ∈ r.tracks)
    (hpeer : ∀ x, (r'.peer x).remoteTracks = (r.peer x).remoteTracks ∧
      (r'.peer x).trackEvents = (r.peer x).trackEvents)
    (hrtp : ∀ x, ∀ packet ∈ (r'.peer x).rtp, ∃ t, r.tracks.lookup packet.ssrc = some (x, t)) :
    Traced r' := by
  refine ⟨hR, ?_, ?_, ?_, ?_, ?_⟩
  · intro A ssrc t ht
    rw [(hpeer A).1, (hpeer A).2, hended]
    exact h.fate (htracks ▸ ht)
  · rw [hended, htracks]
    exact h.endedTracks
  · intro A ssrc t he ht
    rw [(hpeer A).2]
    exact h.endedOnce (hended ▸ he) (htracks ▸ ht)
  · intro x packet hp
    rw [htracks]
    exact hrtp x packet hp
  · rw [htracks]
    exact hrings

theorem Traced.record (h : Traced r) (hc : c ∈ r.created) (hnew : track.ssrc ∉ r.tracks) :
    Traced { r.setPeer c { r.peer c with
        remoteTracks := (r.peer c).remoteTracks.insert track.ssrc track
        trackEvents := (r.peer c).trackEvents ++ [.add track] } with
      tracks := r.tracks.insert track.ssrc (c, track) } := by
  refine ⟨h.toRecorded.record hc hnew, ?_, ?_, ?_, ?_, ?_⟩
  · intro A ssrc t ht
    rcases lookup_insert_cases ht with ⟨rfl, he⟩ | ⟨-, hold⟩
    · obtain ⟨rfl, rfl⟩ := Prod.mk.inj he
      rw [setPeer_peer_self]
      exact Or.inl ((AList.mem_insert _).mpr (Or.inl rfl))
    · by_cases hAc : A = c
      · subst hAc
        rw [setPeer_peer_self]
        exact (h.fate hold).imp (fun hin => (AList.mem_insert _).mpr (Or.inr hin))
          (Or.imp_left (List.mem_append_left _))
      · rw [setPeer_peer_ne _ _ _ _ hAc]
        exact h.fate hold
  · intro ssrc he
    exact (AList.mem_insert _).mpr (Or.inr (h.endedTracks ssrc he))
  · intro A ssrc t he ht hin
    have hne : ssrc ≠ track.ssrc := by
      rintro rfl
      exact hnew (h.endedTracks _ he)
    rw [AList.lookup_insert_ne hne] at ht
    refine h.endedOnce he ht ?_
    by_cases hAc : A = c
    · subst hAc
      rw [setPeer_peer_self] at hin
      refine (List.mem_append.mp hin).resolve_right fun hm => hne ?_
      rw [← (h.known ht).2, TrackEvent.add.inj (List.mem_singleton.mp hm)]
    · rwa [setPeer_peer_ne _ _ _ _ hAc] at hin
  · intro x packet hp
    rw [setPeer_rtp r c x] at hp
    · obtain ⟨t, ht⟩ := h.packets hp
      have hne : packet.ssrc ≠ track.ssrc := by
        intro he
        exact hnew (he ▸ AList.lookup_isSome.mp (ht ▸ rfl))
      exact ⟨t, by rw [AList.lookup_insert_ne hne, ht]⟩
    · rfl
  · intro ssrc hb
    exact (AList.mem_insert _).mpr (Or.inr (h.rings ssrc hb))

theorem Traced.endTrack {ssrc : UInt32} (h : Traced r)
    (hend : (r.peer c).remoteTracks.lookup ssrc = some track) :
    Traced (r.setPeer c { r.peer c with
      remoteTracks := (r.peer c).remoteTracks.erase ssrc
      trackEvents := (r.peer c).trackEvents ++ [.remove track] }) := by
  refine ⟨h.toRecorded.endTrack hend, ?_, h.endedTracks, ?_, ?_, h.rings⟩
  · intro A s t ht
    by_cases hAc : A = c
    · subst hAc
      rw [setPeer_peer_self]
      by_cases hs : s = ssrc
      · subst hs
        obtain ⟨-, rfl⟩ := h.sender_unique hend ht
        exact Or.inr (Or.inl (List.mem_append_right _ (List.mem_singleton_self _)))
      · exact (h.fate ht).imp (fun hin => AList.mem_erase.mpr ⟨hs, hin⟩)
          (Or.imp_left (List.mem_append_left _))
    · rw [setPeer_peer_ne _ _ _ _ hAc]
      exact h.fate ht
  · intro A s t he ht hin
    refine h.endedOnce he ht ?_
    by_cases hAc : A = c
    · subst hAc
      rw [setPeer_peer_self] at hin
      simpa using hin
    · rwa [setPeer_peer_ne _ _ _ _ hAc] at hin
  · intro x packet hp
    rw [setPeer_rtp r c x] at hp
    · exact h.packets hp
    · rfl

theorem rtp_handled (r : Room) (c x : String) (event : TrackEvent) :
    (((r.takeEvent c event).handleEvent c event).peer x).rtp = (r.peer x).rtp := by
  rw [(sameRemote_handleEvent _ c x event).2.2.1]
  exact setPeer_rtp r c x _ rfl

theorem Traced.handleAdd (h : Traced r) (hc : c ∈ r.added) (hready : Ready (r.peer c) (.add track)) :
    Traced ((r.takeEvent c (.add track)).handleEvent c (.add track)) := by
  refine ⟨h.toRecorded.step (.handleEvent hc hready), ?_, h.endedTracks, ?_, ?_, h.rings⟩
  · intro A ssrc t ht
    rw [remoteTracks_handled]
    exact (h.fate ht).imp_right (Or.imp_left fun he => mem_trackEvents_handled he fun _ => nofun)
  · intro A ssrc t he ht hin
    exact h.endedOnce he ht (mem_of_handled h.toRecorded hin).1
  · intro x packet hp
    rw [rtp_handled] at hp
    exact h.packets hp

theorem Traced.handleRemove (h : Traced r) (hc : c ∈ r.added) (hready : Ready (r.peer c) (.remove track)) :
    Traced ((r.takeEvent c (.remove track)).handleEvent c (.remove track)) := by
  have hsent : r.tracks.lookup track.ssrc = some (c, track) := (h.sends c).sent hready.1
  refine ⟨h.toRecorded.step (.handleEvent hc hready), ?_, ?_, ?_, ?_, h.rings⟩
  · intro A ssrc t ht
    rw [remoteTracks_handled]
    show _ ∨ _ ∨ ssrc ∈ track.ssrc :: r.ended
    rcases h.fate ht with hin | he | he
    · exact Or.inl hin
    · by_cases hs : ssrc = track.ssrc
      · exact Or.inr (Or.inr (hs ▸ List.mem_cons_self))
      · refine Or.inr (Or.inl (mem_trackEvents_handled he fun _ heq => hs ?_))
        rw [← TrackEvent.remove.inj heq]
        exact (h.known ht).2.symm
    · exact Or.inr (Or.inr (List.mem_cons_of_mem _ he))
  · intro ssrc he
    rcases List.mem_cons.mp he with rfl | he
    · exact AList.lookup_isSome.mp (hsent ▸ rfl)
    · exact h.endedTracks ssrc he
  · intro A ssrc t he ht hin
    have hold := (mem_of_handled h.toRecorded hin).1
    rcases List.mem_cons.mp he with rfl | he
    · obtain ⟨rfl, rfl⟩ := Prod.mk.inj (Option.some.inj (ht.symm.trans hsent))
      exact hready.2 hold
    · exact h.endedOnce he ht hold
  · intro x packet hp
    rw [rtp_handled] at hp
    exact h.packets hp

/-- **Step lemma** of the tracks. -/
theorem Traced.step {x : Action} (h : Traced r) (hs : Stepped r x r') : Traced r' := by
  have hR := h.toRecorded.step hs
  cases hs with
  | create => exact h.congr hR rfl rfl h.rings (fun _ => ⟨rfl, rfl⟩) fun _ _ => h.packets
  | close => exact h.congr hR rfl rfl h.rings (fun _ => ⟨rfl, rfl⟩) fun _ _ => h.packets
  | remove => exact h.congr hR rfl rfl h.rings (fun _ => ⟨rfl, rfl⟩) fun _ _ => h.packets
  | record hc hnew => exact h.record hc hnew
  | endTrack hend => exact h.endTrack hend
  | @add c =>
    refine h.congr hR rfl rfl h.rings
      (fun x => ⟨(sameRemote_add r c x).1, (sameRemote_add r c x).2.1⟩) fun x packet hp => ?_
    rw [(sameRemote_add r c x).2.2.1] at hp
    exact h.packets hp
  | @handleEvent c event hc hready =>
    cases event with
    | add track => exact h.handleAdd hc hready
    | remove track => exact h.handleRemove hc hready
  | @receiveRTP c packet hlive =>
    refine h.congr hR rfl rfl h.rings (fun x => setPeer_packets c x _ rfl rfl)
      fun x q hq => ?_
    by_cases hx : x = c
    · subst hx
      rw [setPeer_peer_self] at hq
      rcases List.mem_append.mp hq with hq | hq
      · exact h.packets hq
      · obtain ⟨t, ht⟩ := Option.isSome_iff_exists.mp (AList.lookup_isSome.mpr hlive)
        rw [List.mem_singleton.mp hq]
        exact ⟨t, (h.sends x).remote ht⟩
    · rw [setPeer_peer_ne _ _ _ _ hx] at hq
      exact h.packets hq
  | @handleRTP c packet rtp hp =>
    refine h.congr hR rfl rfl ?_ (fun x => setPeer_packets c x _ rfl rfl)
      fun x q hq => ?_
    · intro ssrc hb
      rcases (AList.mem_insert _).mp hb with rfl | hb
      · obtain ⟨t, ht⟩ := h.packets (hp ▸ List.mem_cons_self)
        exact AList.lookup_isSome.mp (ht ▸ rfl)
      · exact h.rings ssrc hb
    · refine h.packets (c := x) ?_
      have hq : q ∈ ((r.setPeer c { r.peer c with rtp }).peer x).rtp := hq
      by_cases hx : x = c
      · subst hx
        rw [setPeer_peer_self] at hq
        exact hp ▸ List.mem_cons_of_mem _ hq
      · rwa [setPeer_peer_ne _ _ _ _ hx] at hq
  | @receiveRTCP c packet =>
    refine h.congr hR rfl rfl h.rings (fun x => setPeer_packets c x _ rfl rfl)
      fun x q hq => ?_
    rw [setPeer_rtp r c x] at hq
    · exact h.packets hq
    · rfl
  | @handleRTCP c packet rtcp hp =>
    have hq : ∀ x, ∀ q ∈ ((r.setPeer c { r.peer c with rtcp }).peer x).rtp,
        ∃ t, r.tracks.lookup q.ssrc = some (x, t) := by
      intro x q hq
      rw [setPeer_rtp r c x] at hq
      · exact h.packets hq
      · rfl
    cases packet with
    | remb =>
      exact h.congr hR rfl rfl h.rings (fun x => setPeer_packets c x _ rfl rfl) hq
    | other =>
      exact h.congr hR rfl rfl h.rings (fun x => setPeer_packets c x _ rfl rfl) hq

end Traced

/-! ### Clients that leave -/

/-- A packet of client `d` brings nothing back of the client `c`: it is not a REMB packet of a removed client, and
names no track of it whose `Remove` event was handled. -/
def Harmless (c : String) (r : Room) (d : String) : RtcpPacket → Prop
  | .remb ssrcs _ => (d = c → ssrcs ≠ [] → c ∉ r.removed) ∧
      ∀ ssrc ∈ ssrcs, ∀ x ∈ r.tracks.lookup ssrc, x.1 = c → ssrc ∉ r.ended
  | .other => True

/-- No RTP packet of the client is handled, and RTCP packets bring nothing back of it. -/
def Leaves (c : String) (r : Room) : Action → Prop
  | .handleRTP d => d ≠ c
  | .handleRTCP d => ∀ packet ∈ (r.peer d).rtcp.head?, Harmless c r d packet
  | _ => True

instance {c : String} {r : Room} {d : String} : DecidablePred (Harmless c r d)
  | .remb ssrcs _ =>
    -- by the list of the tracks, not by all numbers
    haveI := ssrcs.decidableBAll fun ssrc => ∀ x ∈ r.tracks.lookup ssrc, x.1 = c → ssrc ∉ r.ended
    inferInstanceAs (Decidable ((d = c → ssrcs ≠ [] → c ∉ r.removed) ∧
      ∀ ssrc ∈ ssrcs, ∀ x ∈ r.tracks.lookup ssrc, x.1 = c → ssrc ∉ r.ended))
  | .other => isTrue trivial

instance {c : String} : DecidableRel (Leaves c)
  | _, .handleRTP d => inferInstanceAs (Decidable (d ≠ c))
  | r, .handleRTCP d => inferInstanceAs (Decidable (∀ packet ∈ (r.peer d).rtcp.head?, Harmless c r d packet))
  | _, .create _ | _, .record _ _ | _, .endTrack _ _ | _, .close _ | _, .add _ | _, .remove _
  | _, .handleEvent _ _ | _, .receiveRTP _ _ | _, .receiveRTCP _ _ => isTrue trivial

/-- What is deleted of a client stays deleted. -/
structure Clean (c : String) (r : Room) : Prop extends Traced r where
  estimates : c ∈ r.removed → ∀ ssrc, ¬ HasEstimate r.trackBitrateEstimators ssrc c
  gone : ∀ {ssrc t}, r.tracks.lookup ssrc = some (c, t) → ssrc ∈ r.ended →
    ssrc ∉ r.clientIDBySSRC ∧ ssrc ∉ r.trackBitrateEstimators
  noRing : ∀ {ssrc t}, r.tracks.lookup ssrc = some (c, t) → ssrc ∉ r.buffers

theorem clean_empty (c : String) : Clean c Room.empty := by
  refine ⟨traced_empty, ?_, ?_, ?_⟩
  · intro h
    cases h
  · intro ssrc t h
    cases h
  · intro ssrc t h
    cases h

section Clean

variable {c d : String} {r r' : Room} {track : TrackInfo}

/-- Steps that leave what the manager holds. -/
theorem Clean.congr (h : Clean c r) (hT : Traced r') (htracks : r'.tracks = r.tracks)
    (hended : r'.ended = r.ended) (hremoved : r'.removed = r.removed)
    (hest : r'.trackBitrateEstimators = r.trackBitrateEstimators)
    (hid : r'.clientIDBySSRC = r.clientIDBySSRC) (hbuf : r'.buffers = r.buffers) : Clean c r' := by
  refine ⟨hT, ?_, ?_, ?_⟩
  · rw [hremoved, hest]
    exact h.estimates
  · rw [htracks, hended, hid, hest]
    exact h.gone
  · rw [htracks, hbuf]
    exact h.noRing

theorem Clean.record (h : Clean c r) (hd : d ∈ r.created) (hnew : track.ssrc ∉ r.tracks) :
    Clean c { r.setPeer d { r.peer d with
        remoteTracks := (r.peer d).remoteTracks.insert track.ssrc track
        trackEvents := (r.peer d).trackEvents ++ [.add track] } with
      tracks := r.tracks.insert track.ssrc (d, track) } := by
  refine ⟨h.toTraced.record hd hnew, h.estimates, ?_, ?_⟩
  · intro ssrc t ht he
    rcases lookup_insert_cases ht with ⟨rfl, -⟩ | ⟨-, ht⟩
    · exact absurd (h.endedTracks _ he) hnew
    · exact h.gone ht he
  · intro ssrc t ht hb
    rcases lookup_insert_cases ht with ⟨rfl, -⟩ | ⟨-, ht⟩
    · exact hnew (h.rings _ hb)
    · exact h.noRing ht hb

theorem Clean.remove (h : Clean c r) (hT : Traced { r.remove d with removed := d :: r.removed }) :
    Clean c { r.remove d with removed := d :: r.removed } := by
  refine ⟨hT, ?_, ?_, h.noRing⟩
  · intro hc ssrc hest
    obtain ⟨hne, hest⟩ := TrackBitrateEstimators.hasEstimate_removeReceiverEstimations.mp hest
    exact h.estimates ((List.mem_cons.mp hc).resolve_left hne) ssrc hest
  · intro ssrc t ht he
    obtain ⟨hid, hest⟩ := h.gone ht he
    exact ⟨hid, fun hin => hest (TrackBitrateEstimators.mem_removeReceiverEstimations.mp hin)⟩

theorem Clean.handleAdd (h : Clean c r) (hd : d ∈ r.added) (hready : Ready (r.peer d) (.add track)) :
    Clean c ((r.takeEvent d (.add track)).handleEvent d (.add track)) := by
  have hsent : r.tracks.lookup track.ssrc = some (d, track) := (h.sends d).sent hready
  refine ⟨h.toTraced.handleAdd hd hready, h.estimates, ?_, h.noRing⟩
  intro ssrc t ht he
  obtain ⟨hid, hest⟩ := h.gone ht he
  refine ⟨fun hin => ?_, hest⟩
  rcases (AList.mem_insert _).mp hin with rfl | hin
  · -- the `Add` event of a track that has ended was handled before
    exact h.endedOnce he hsent hready
  · exact hid hin

theorem Clean.handleRemove (h : Clean c r) (hd : d ∈ r.added) (hready : Ready (r.peer d) (.remove track)) :
    Clean c ((r.takeEvent d (.remove track)).handleEvent d (.remove track)) := by
  refine ⟨h.toTraced.handleRemove hd hready, ?_, ?_, h.noRing⟩
  · intro hc ssrc hest
    exact h.estimates hc ssrc (TrackBitrateEstimators.hasEstimate_remove hest)
  · intro ssrc t ht he
    show ssrc ∉ r.clientIDBySSRC.erase track.ssrc ∧ ssrc ∉ r.trackBitrateEstimators.erase track.ssrc
    rw [AList.mem_erase, AList.mem_erase]
    rcases List.mem_cons.mp he with rfl | he
    · exact ⟨fun hin => hin.1 rfl, fun hin => hin.1 rfl⟩
    · obtain ⟨hid, hest⟩ := h.gone ht he
      exact ⟨fun hin => hid hin.2, fun hin => hest hin.2⟩

theorem Clean.handleRTP {packet : RtpPacket} {rtp : List RtpPacket} (h : Clean c r)
    (hT : Traced ((r.setPeer d { r.peer d with rtp }).pushRTP packet)) (hne : d ≠ c)
    (hp : (r.peer d).rtp = packet :: rtp) :
    Clean c ((r.setPeer d { r.peer d with rtp }).pushRTP packet) := by
  refine ⟨hT, h.estimates, h.gone, ?_⟩
  intro ssrc t ht hb
  rcases (AList.mem_insert _).mp hb with rfl | hb
  · obtain ⟨u, hu⟩ := h.packets (hp ▸ List.mem_cons_self)
    exact hne (Prod.mk.inj (Option.some.inj (hu.symm.trans ht))).1
  · exact h.noRing ht hb

theorem Clean.handleRemb {ssrcs : List UInt32} {bitrate : UInt64} {rtcp : List RtcpPacket} (h : Clean c r)
    (hT : Traced ((r.setPeer d { r.peer d with rtcp }).handleRTCP d (.remb ssrcs bitrate)))
    (hok : Harmless c r d (.remb ssrcs bitrate)) :
    Clean c ((r.setPeer d { r.peer d with rtcp }).handleRTCP d (.remb ssrcs bitrate)) := by
  refine ⟨hT, ?_, ?_, h.noRing⟩
  · intro hc ssrc hest
    rcases eq_or_ne ssrcs [] with rfl | hne
    · exact h.estimates hc ssrc hest
    · rcases TrackBitrateEstimators.hasEstimate_estimate hest with rfl | hest
      · exact hok.1 rfl hne hc
      · exact h.estimates hc ssrc hest
  · intro ssrc t ht he
    obtain ⟨hid, hest⟩ := h.gone ht he
    refine ⟨hid, fun hin => ?_⟩
    rcases TrackBitrateEstimators.mem_estimate.mp hin with hin | hin
    · exact hest hin
    · exact hok.2 ssrc hin (c, t) ht rfl he

/-- **Step lemma.** -/
theorem Clean.step {x : Action} (h : Clean c r) (hok : Leaves c r x) (hs : Stepped r x r') : Clean c r' := by
  have hT := h.toTraced.step hs
  cases hs with
  | create => exact h.congr hT rfl rfl rfl rfl rfl rfl
  | close => exact h.congr hT rfl rfl rfl rfl rfl rfl
  | endTrack => exact h.congr hT rfl rfl rfl rfl rfl rfl
  | add => exact h.congr hT rfl rfl rfl rfl rfl rfl
  | receiveRTP => exact h.congr hT rfl rfl rfl rfl rfl rfl
  | receiveRTCP => exact h.congr hT rfl rfl rfl rfl rfl rfl
  | record hd hnew => exact h.record hd hnew
  | remove => exact h.remove hT
  | @handleEvent d event hd hready =>
    cases event with
    | add track => exact h.handleAdd hd hready
    | remove track => exact h.handleRemove hd hready
  | handleRTP hp => exact h.handleRTP hT hok hp
  | @handleRTCP d packet rtcp hp =>
    cases packet with
    | remb ssrcs bitrate => exact h.handleRemb hT (hok _ (by rw [hp]; rfl))
    | other => exact h.congr hT rfl rfl rfl rfl rfl rfl

end Clean

/-- The transport of the client has closed and was removed, the events of its tracks are handled, and its packets
as well. -/
structure Departed (r : Room) (c : String) : Prop where
  closed : c ∈ r.closed
  removed : c ∈ r.removed
  tracks : (r.peer c).remoteTrackList = []
  events : (r.peer c).trackEvents = []
  rtp : (r.peer c).rtp = []
  rtcp : (r.peer c).rtcp = []

instance (r : Room) (c : String) : Decidable (Departed r c) :=
  decidable_of_iff (c ∈ r.closed ∧ c ∈ r.removed ∧ (r.peer c).remoteTrackList = [] ∧
      (r.peer c).trackEvents = [] ∧ (r.peer c).rtp = [] ∧ (r.peer c).rtcp = [])
    ⟨fun ⟨h1, h2, h3, h4, h5, h6⟩ => ⟨h1, h2, h3, h4, h5, h6⟩,
      fun h => ⟨h.closed, h.removed, h.tracks, h.events, h.rtp, h.rtcp⟩⟩

/-- The manager holds nothing of the client. -/
structure NoResidue (r : Room) (c : String) : Prop where
  estimates : ∀ ssrc, ¬ HasEstimate r.trackBitrateEstimators ssrc c
  tracks : ∀ {ssrc t}, r.tracks.lookup ssrc = some (c, t) →
    ssrc ∉ r.clientIDBySSRC ∧ ssrc ∉ r.trackBitrateEstimators ∧ ssrc ∉ r.buffers

/-- All tracks of a client that has left have ended. -/
theorem Traced.ended_of_departed {r : Room} {c : String} (h : Traced r) (hd : Departed r c) {ssrc : UInt32}
    {t : TrackInfo} (ht : r.tracks.lookup ssrc = some (c, t)) : ssrc ∈ r.ended := by
  rcases h.fate ht with hin | he | he
  · obtain ⟨u, hu⟩ := Option.isSome_iff_exists.mp (AList.lookup_isSome.mpr hin)
    have hm := mem_remoteTrackList.mpr ⟨ssrc, hu⟩
    rw [hd.tracks] at hm
    cases hm
  · rw [hd.events] at he
    cases he
  · exact he

/-- **No residue**: along every run in which a client leaves nothing behind that is not deleted, the manager holds
nothing of it in every state in which it has left. -/
theorem nothing_left {c : String} {r : Room} (h : Reach step (Leaves c) Room.empty r) (hd : Departed r c) :
    NoResidue r c := by
  have hC := Reach.invariant (I := Clean c) (clean_empty c)
    (fun _ _ _ hI hok hs => hI.step hok (stepped_of_step hs)) h
  refine ⟨hC.estimates hd.removed, fun ht => ?_⟩
  obtain ⟨hid, hest⟩ := hC.gone ht (hC.ended_of_departed hd ht)
  exact ⟨hid, hest, hC.noRing ht⟩

/-- A client that reports bitrates and whose track is reported on leaves. -/
theorem nothing_left_example : ∃ r, exec (guarded step (Leaves "a")) Room.empty
      [.create "a", .create "b", .add "a", .add "b", .record "a" ⟨96, 1, "t", "camera"⟩,
        .record "b" ⟨96, 2, "u", "screen"⟩, .handleEvent "a" (.add ⟨96, 1, "t", "camera"⟩),
        .handleEvent "b" (.add ⟨96, 2, "u", "screen"⟩), .receiveRTCP "a" (.remb [2] 500),
        .receiveRTCP "b" (.remb [1] 700), .handleRTCP "a", .handleRTCP "b", .receiveRTP "b" ⟨2, 0, 0⟩,
        .handleRTP "b", .close "a", .remove "a", .endTrack "a" 1,
        .handleEvent "a" (.remove ⟨96, 1, "t", "camera"⟩)] = some r ∧
    (Departed r "a" ∧ 1 ∈ r.tracks) ∧ NoResidue r "a" :=
  exists_exec (by decide) fun _ hs hq => nothing_left hs hq.1

/-- The client has sent a packet; its last report is handled after `Remove`, and a report on its track after the
track's `Remove` event. -/
theorem something_left : ∃ r, exec (guarded step anyStep) Room.empty
      [.create "a", .create "b", .add "a", .add "b", .record "a" ⟨96, 1, "t", "camera"⟩,
        .handleEvent "a" (.add ⟨96, 1, "t", "camera"⟩), .receiveRTP "a" ⟨1, 0, 0⟩, .handleRTP "a",
        .receiveRTCP "a" (.remb [2] 500), .receiveRTCP "b" (.remb [1] 700), .close "a", .remove "a",
        .handleRTCP "a", .endTrack "a" 1, .handleEvent "a" (.remove ⟨96, 1, "t", "camera"⟩),
        .handleRTCP "b"] = some r ∧
    (Departed r "a" ∧ r.tracks.lookup 1 = some ("a", ⟨96, 1, "t", "camera"⟩) ∧ 1 ∈ r.buffers ∧
      1 ∈ r.trackBitrateEstimators ∧ ∃ e ∈ r.trackBitrateEstimators.lookup 2, "a" ∈ e.estimates) ∧
    Reach step anyStep Room.empty r :=
  exists_exec (by decide) fun _ hs _ => hs

end Meeting.Sfu
