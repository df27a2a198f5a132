import Meeting.Sfu.Forwarding

/-!
# Meeting.Sfu.Offers — how often a track is offered (`tracksmanager.go`)

A track reaches a receiver by two ways: by its `Add` event, which is handled some time after the track was
recorded, and with the tracks that `Add` finds when the receiver joins.

* `offered_once`: along the runs in which nobody joins while an `Add` event of a recorded track is on its way
  (`JoinsSettled`), no track is offered twice to a receiver, and every track that it has to get is;
* `offered_twice`: a client that joins in between is offered the track by both ways.
-/

namespace Meeting.Sfu

open Lib

/-! ### Joining -/

/-- Nobody joins while the `Add` event of a remote track of a client of the room is on its way. -/
def JoinsSettled (r : Room) : Action → Prop
  | .add _ => ∀ A ∈ r.transports, ∀ t ∈ (r.peer A).remoteTrackList, .add t ∉ (r.peer A).trackEvents
  | _ => True

instance : DecidableRel JoinsSettled
  | r, .add _ => inferInstanceAs (Decidable
      (∀ A ∈ r.transports, ∀ t ∈ (r.peer A).remoteTrackList, .add t ∉ (r.peer A).trackEvents))
  | _, .create _ | _, .record _ _ | _, .endTrack _ _ | _, .close _ | _, .remove _ | _, .handleEvent _ _
  | _, .receiveRTP _ _ | _, .handleRTP _ | _, .receiveRTCP _ _ | _, .handleRTCP _ => isTrue trivial

structure Offered (r : Room) : Prop extends Recorded r where
  once : r.calls.Nodup
  due : ∀ x ∈ r.due, x ∈ r.calls
  offeredTracks : ∀ {B ssrc}, (B, ssrc) ∈ r.calls → ssrc ∈ r.tracks
  offeredPeers : ∀ {B ssrc}, (B, ssrc) ∈ r.calls → B ∈ r.added
  /-- Nobody was offered a track whose `Add` event is on its way. -/
  pending : ∀ {A t B}, .add t ∈ (r.peer A).trackEvents → (B, t.ssrc) ∉ r.calls

theorem offered_empty : Offered Room.empty := by
  refine ⟨recorded_empty, List.nodup_nil, ?_, ?_, ?_, ?_⟩
  · intro x h
    cases h
  · intro B ssrc h
    cases h
  · intro B ssrc h
    cases h
  · intro A t B h
    cases h

section Offered

variable {r r' : Room} {c : String}

/-- Steps that offer nothing. -/
theorem Offered.congr (h : Offered r) (hR : Recorded r') (hcalls : r'.calls = r.calls) (hdue : r'.due = r.due)
    (htracks : ∀ ssrc ∈ r.tracks, ssrc ∈ r'.tracks) (hadded : ∀ x ∈ r.added, x ∈ r'.added)
    (hevents : ∀ A t, .add t ∈ (r'.peer A).trackEvents →
      .add t ∈ (r.peer A).trackEvents ∨ t.ssrc ∉ r.tracks) : Offered r' := by
  refine ⟨hR, hcalls ▸ h.once, hdue ▸ hcalls ▸ h.due, ?_, ?_, ?_⟩
  · rw [hcalls]
    exact fun hin => htracks _ (h.offeredTracks hin)
  · rw [hcalls]
    exact fun hin => hadded _ (h.offeredPeers hin)
  · intro A t B ht hin
    rw [hcalls] at hin
    rcases hevents A t ht with ht | hnew
    · exact h.pending ht hin
    · exact hnew (h.offeredTracks hin)

/-- A client that joins is offered the tracks of the room, none of which it will be offered again. -/
theorem Offered.add (h : Offered r) (hok : JoinsSettled r (.add c)) (hR : Recorded { r.add c with
      added := c :: r.added
      due := r.due ++ r.remoteTracks.map fun track => (c, track.ssrc) }) (hnew : c ∉ r.added) :
    Offered { r.add c with
      added := c :: r.added
      due := r.due ++ r.remoteTracks.map fun track => (c, track.ssrc) } := by
  have hoffer : ∀ {x : String × UInt32}, x ∈ r.remoteTracks.map (fun t => (c, t.ssrc)) →
      ∃ A ∈ r.transports, ∃ t, (r.peer A).remoteTracks.lookup t.ssrc = some t ∧ x = (c, t.ssrc) := by
    intro x hx
    obtain ⟨t, ht, rfl⟩ := List.mem_map.mp hx
    obtain ⟨A, hA, ssrc, hl⟩ := mem_remoteTracks.mp ht
    exact ⟨A, hA, t, by rw [h.remote_ssrc hl]; exact hl, rfl⟩
  refine ⟨hR, ?_, ?_, ?_, ?_, ?_⟩
  · refine List.Nodup.append h.once ?_ ?_
    · refine List.Nodup.of_map Prod.snd ?_
      simp only [Room.remoteTracks, List.map_map, List.map_flatMap]
      exact h.nodup_ssrcs h.nodup
    · intro x hx hx'
      obtain ⟨A, -, t, -, rfl⟩ := hoffer hx'
      exact hnew (h.offeredPeers hx)
  · intro x hx
    rcases List.mem_append.mp hx with hx | hx
    · exact List.mem_append_left _ (h.due x hx)
    · exact List.mem_append_right _ hx
  · intro B ssrc hin
    rcases List.mem_append.mp hin with hin | hin
    · exact h.offeredTracks hin
    · obtain ⟨A, -, t, hl, he⟩ := hoffer hin
      rw [(Prod.mk.inj he).2]
      exact AList.lookup_isSome.mp ((h.sends A).remote hl ▸ rfl)
  · intro B ssrc hin
    rcases List.mem_append.mp hin with hin | hin
    · exact List.mem_cons_of_mem _ (h.offeredPeers hin)
    · obtain ⟨A, -, t, -, he⟩ := hoffer hin
      exact (Prod.mk.inj he).1 ▸ List.mem_cons_self
  · intro A t B ht hin
    rw [(sameRemote_add r c A).2.1] at ht
    rcases List.mem_append.mp hin with hin | hin
    · exact h.pending ht hin
    · -- a track of the room whose event is on its way
      obtain ⟨A', hA', t', hl, he⟩ := hoffer hin
      have hsent : r.tracks.lookup t.ssrc = some (A, t) := (h.sends A).sent ht
      rw [(Prod.mk.inj he).2] at hsent
      obtain ⟨rfl, rfl⟩ := h.sender_unique hl hsent
      exact hok A' hA' t' (mem_remoteTrackList.mpr ⟨_, hl⟩) ht

/-- The `Add` event of a track offers it to the others. -/
theorem Offered.handleAdd {track : TrackInfo} (h : Offered r) (hc : c ∈ r.added)
    (hready : Ready (r.peer c) (.add track)) :
    Offered ((r.takeEvent c (.add track)).handleEvent c (.add track)) := by
  have hsent : r.tracks.lookup track.ssrc = some (c, track) := (h.sends c).sent hready
  have hoffer : ∀ {x : String × UInt32}, x ∈ (r.others c).map (fun other => (other, track.ssrc)) →
      x.1 ∈ r.transports ∧ x.2 = track.ssrc := by
    intro x hx
    obtain ⟨other, ho, rfl⟩ := List.mem_map.mp hx
    exact ⟨(mem_others.mp ho).1, rfl⟩
  refine ⟨h.toRecorded.step (.handleEvent hc hready), ?_, ?_, ?_, ?_, ?_⟩
  · refine List.Nodup.append h.once ?_ ?_
    · exact (h.nodup.filter _).map fun _ _ he => (Prod.mk.inj he).1
    · rintro ⟨B, ssrc⟩ hx hx'
      obtain rfl : ssrc = track.ssrc := (hoffer hx').2
      exact h.pending hready hx
  · intro x hx
    rcases List.mem_append.mp hx with hx | hx
    · exact List.mem_append_left _ (h.due x hx)
    · exact List.mem_append_right _ hx
  · intro B ssrc hin
    rcases List.mem_append.mp hin with hin | hin
    · exact h.offeredTracks hin
    · obtain rfl : ssrc = track.ssrc := (hoffer hin).2
      exact AList.lookup_isSome.mp (hsent ▸ rfl)
  · intro B ssrc hin
    rcases List.mem_append.mp hin with hin | hin
    · exact h.offeredPeers hin
    · exact ((h.mem_transports B).mp (hoffer hin).1).1
  · intro A t B ht hin
    obtain ⟨ht, hne⟩ := mem_of_handled h.toRecorded ht
    rcases List.mem_append.mp hin with hin | hin
    · exact h.pending ht hin
    · -- the event of the track was handled
      have ht' : r.tracks.lookup t.ssrc = some (A, t) := (h.sends A).sent ht
      rw [show t.ssrc = track.ssrc from (hoffer hin).2, hsent] at ht'
      obtain ⟨rfl, rfl⟩ := Prod.mk.inj (Option.some.inj ht')
      exact hne rfl rfl

/-- **Step lemma.** -/
theorem Offered.step {x : Action} (h : Offered r) (hok : JoinsSettled r x) (hs : Stepped r x r') :
    Offered r' := by
  have hR := h.toRecorded.step hs
  have hpackets : ∀ (c : String) (p : Transport), p.remoteTracks = (r.peer c).remoteTracks →
      p.trackEvents = (r.peer c).trackEvents → ∀ A t, .add t ∈ ((r.setPeer c p).peer A).trackEvents →
        .add t ∈ (r.peer A).trackEvents ∨ t.ssrc ∉ r.tracks := by
    intro c p hr he A t ht
    rw [(setPeer_packets c A p hr he).2] at ht
    exact Or.inl ht
  cases hs with
  | create => exact h.congr hR rfl rfl (fun _ hx => hx) (fun _ hx => hx) fun _ _ ht => Or.inl ht
  | close => exact h.congr hR rfl rfl (fun _ hx => hx) (fun _ hx => hx) fun _ _ ht => Or.inl ht
  | remove => exact h.congr hR rfl rfl (fun _ hx => hx) (fun _ hx => hx) fun _ _ ht => Or.inl ht
  | @record c track hc hnew =>
    refine h.congr hR rfl rfl (fun _ hx => (AList.mem_insert _).mpr (Or.inr hx)) (fun _ hx => hx) ?_
    intro A t ht
    by_cases hAc : A = c
    · subst hAc
      rw [setPeer_peer_self] at ht
      rcases List.mem_append.mp ht with ht | ht
      · exact Or.inl ht
      · exact Or.inr (TrackEvent.add.inj (List.mem_singleton.mp ht) ▸ hnew)
    · rw [setPeer_peer_ne _ _ _ _ hAc] at ht
      exact Or.inl ht
  | @endTrack c ssrc track hl =>
    refine h.congr hR rfl rfl (fun _ hx => hx) (fun _ hx => hx) fun A t ht => Or.inl ?_
    by_cases hAc : A = c
    · subst hAc
      rw [setPeer_peer_self] at ht
      simpa using ht
    · rwa [setPeer_peer_ne _ _ _ _ hAc] at ht
  | add hc hnew => exact h.add hok hR hnew
  | @handleEvent c event hc hready =>
    cases event with
    | add track => exact h.handleAdd hc hready
    | remove track =>
      exact h.congr hR rfl rfl (fun _ hx => hx) (fun _ hx => hx) fun A t ht =>
        Or.inl (mem_of_handled h.toRecorded ht).1
  | @receiveRTP c =>
    exact h.congr hR rfl rfl (fun _ hx => hx) (fun _ hx => hx) (hpackets c _ rfl rfl)
  | @handleRTP c =>
    exact h.congr hR rfl rfl (fun _ hx => hx) (fun _ hx => hx) (hpackets c _ rfl rfl)
  | @receiveRTCP c =>
    exact h.congr hR rfl rfl (fun _ hx => hx) (fun _ hx => hx) (hpackets c _ rfl rfl)
  | @handleRTCP c packet =>
    cases packet with
    | remb => exact h.congr hR rfl rfl (fun _ hx => hx) (fun _ hx => hx) (hpackets c _ rfl rfl)
    | other => exact h.congr hR rfl rfl (fun _ hx => hx) (fun _ hx => hx) (hpackets c _ rfl rfl)

end Offered

/-- **Tracks are offered once**: along every run in which nobody joins while an `Add` event is on its way, a
receiver is offered a track at most once, and once if the track's `Add` event was handled while it was in the
room or a transport of the room had the track when it was added. -/
theorem offered_once {r : Room} (h : Reach step JoinsSettled Room.empty r) (B : String) (ssrc : UInt32) :
    r.calls.count (B, ssrc) ≤ 1 ∧ ((B, ssrc) ∈ r.due → r.calls.count (B, ssrc) = 1) := by
  have hO := Reach.invariant (I := Offered) offered_empty
    (fun _ _ _ hI hok hs => hI.step hok (stepped_of_step hs)) h
  refine ⟨List.nodup_iff_count_le_one.mp hO.once _, fun hd => ?_⟩
  exact List.count_eq_one_of_mem hO.once (hO.due _ hd)

/-- A client joins after the `Add` event of a track was handled, another one before. -/
theorem offered_once_example : ∃ r, exec (guarded step JoinsSettled) Room.empty
      [.create "a", .create "b", .create "d", .add "a", .add "b", .record "a" ⟨111, 1, "t", "camera"⟩,
        .handleEvent "a" (.add ⟨111, 1, "t", "camera"⟩), .add "d"] = some r ∧
    (("b", 1) ∈ r.due ∧ ("d", 1) ∈ r.due) ∧ (r.calls.count ("b", 1) = 1 ∧ r.calls.count ("d", 1) = 1) :=
  exists_exec (by decide) fun _ hs hq => ⟨(offered_once hs _ _).2 hq.1, (offered_once hs _ _).2 hq.2⟩

/-- A client joins between the recording of a track and the handling of its `Add` event. -/
theorem offered_twice : ∃ r, exec (guarded step anyStep) Room.empty
      [.create "a", .create "b", .add "a", .record "a" ⟨111, 1, "t", "camera"⟩, .add "b",
        .handleEvent "a" (.add ⟨111, 1, "t", "camera"⟩)] = some r ∧
    r.calls.count ("b", 1) = 2 ∧ Reach step anyStep Room.empty r :=
  exists_exec (by decide) fun _ hs _ => hs

end Meeting.Sfu
