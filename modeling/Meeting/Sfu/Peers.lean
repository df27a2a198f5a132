import Meeting.Lib.Runs
import Meeting.Sfu.Estimators

/-!
# Meeting.Sfu.Peers — the peers of an SFU room (`tracksmanager.go`, `webrtctransport.go`)

A `RoomPeersManager` forwards the remote tracks of every transport to the other ones.  A transport records a
remote track and sends an event; goroutines of the manager handle the events, RTP packets and RTCP packets of
every transport.  `Add`, `Remove`, `addTrack` and `removeTrack` run under the manager's lock and are steps.
Calls of `Add` and `Remove` for a room do not overlap (`MemoryTracksManager.mu`): an event of a transport that is
handled before its own `Add` has the lock commutes with the steps up to there, and comes after it in the model.
Client ids are distinct, so that a transport is named by its client id; calls of the peer connection succeed.

* `recorded_of_reach`: in every reachable state tracks, events and transports agree (`Recorded`).
-/

namespace Meeting.Sfu

open Lib

/-! ### State -/

/-- `TrackInfo`; the kind follows from the payload type, and the `Mid` is that of the transceiver. -/
structure TrackInfo where
  payloadType : UInt8
  ssrc : UInt32
  id : String
  label : String
  deriving DecidableEq, Repr

inductive TrackEvent where
  | add (track : TrackInfo)
  | remove (track : TrackInfo)
  deriving DecidableEq, Repr

structure RtpPacket where
  ssrc : UInt32
  sequenceNumber : UInt16
  timestamp : UInt32
  deriving DecidableEq, Repr

inductive RtcpPacket where
  /-- `ReceiverEstimatedMaximumBitrate`. -/
  | remb (ssrcs : List UInt32) (bitrate : UInt64)
  /-- A packet that is passed on or ignored. -/
  | other
  deriving DecidableEq, Repr

/-- `WebRTCTransport`. -/
structure Transport where
  localTracks : AList fun _ : UInt32 => TrackInfo
  remoteTracks : AList fun _ : UInt32 => TrackInfo
  /-- The events that were sent and not handled. -/
  trackEvents : List TrackEvent
  rtp : List RtpPacket
  rtcp : List RtcpPacket

def Transport.empty : Transport := ⟨∅, ∅, [], [], []⟩

/-- `RoomPeersManager` and the transports, with what happened to them. -/
structure Room where
  /-- The keys of `transports`. -/
  transports : List String
  clientIDBySSRC : AList fun _ : UInt32 => String
  trackBitrateEstimators : TrackBitrateEstimators
  /-- The rings of the jitter buffer, as the packets pushed to them. -/
  buffers : AList fun _ : UInt32 => List RtpPacket
  peer : String → Transport
  /-- The clients whose transports were made, added, closed and removed. -/
  created : List String
  added : List String
  closed : List String
  removed : List String
  /-- The tracks that were recorded, with the client that sends them. -/
  tracks : AList fun _ : UInt32 => String × TrackInfo
  /-- The tracks whose `Remove` event was handled. -/
  ended : List UInt32
  /-- The calls of `AddTrack`: the receiver and the SSRC. -/
  calls : List (String × UInt32)
  /-- Who has to be offered which track: the tracks whose `Add` event was handled while the receiver was in the
  room, and those that the transports of the room had when it was added. -/
  due : List (String × UInt32)

def Room.empty : Room := ⟨[], ∅, ∅, ∅, fun _ => .empty, [], [], [], [], ∅, [], [], []⟩

/-! ### Operations -/

/-- `AddTrack` of the transport. -/
def Transport.addTrack (p : Transport) (track : TrackInfo) : Transport :=
  { p with localTracks := p.localTracks.insert track.ssrc track }

/-- `RemoveTrack` of the transport; that there is no such track is only logged. -/
def Transport.removeTrack (p : Transport) (ssrc : UInt32) : Transport :=
  { p with localTracks := p.localTracks.erase ssrc }

/-- `RemoteTracks`. -/
def Transport.remoteTrackList (p : Transport) : List TrackInfo := p.remoteTracks.entries.map Sigma.snd

def Room.setPeer (r : Room) (clientID : String) (p : Transport) : Room :=
  { r with peer := Function.update r.peer clientID p }

/-- The other clients in the room. -/
def Room.others (r : Room) (clientID : String) : List String :=
  r.transports.filter fun other => other ≠ clientID

def Room.addTrack (r : Room) (clientID : String) (track : TrackInfo) : Room :=
  { r with
    clientIDBySSRC := r.clientIDBySSRC.insert track.ssrc clientID
    peer := fun other => if other ∈ r.others clientID then (r.peer other).addTrack track else r.peer other
    calls := r.calls ++ (r.others clientID).map fun other => (other, track.ssrc) }

def Room.removeTrack (r : Room) (clientID : String) (track : TrackInfo) : Room :=
  { r with
    trackBitrateEstimators := r.trackBitrateEstimators.remove track.ssrc
    clientIDBySSRC := r.clientIDBySSRC.erase track.ssrc
    peer := fun other =>
      if other ∈ r.others clientID then (r.peer other).removeTrack track.ssrc else r.peer other }

/-- The tracks that the transports of the room send. -/
def Room.remoteTracks (r : Room) : List TrackInfo :=
  r.transports.flatMap fun existing => (r.peer existing).remoteTrackList

/-- `Add`. -/
def Room.add (r : Room) (clientID : String) : Room :=
  { r with
    peer := Function.update r.peer clientID (r.remoteTracks.foldl Transport.addTrack (r.peer clientID))
    transports := clientID :: r.transports
    calls := r.calls ++ r.remoteTracks.map fun track => (clientID, track.ssrc) }

/-- `Remove`. -/
def Room.remove (r : Room) (clientID : String) : Room :=
  { r with
    trackBitrateEstimators := r.trackBitrateEstimators.removeReceiverEstimations clientID
    transports := r.transports.erase clientID }

/-- An event is received from the channel of a transport. -/
def Room.takeEvent (r : Room) (clientID : String) (event : TrackEvent) : Room :=
  let p := r.peer clientID
  r.setPeer clientID { p with trackEvents := p.trackEvents.erase event }

/-- The goroutine of track events. -/
def Room.handleEvent (r : Room) (clientID : String) : TrackEvent → Room
  | .add track =>
    { r.addTrack clientID track with
      due := r.due ++ (r.others clientID).map fun other => (other, track.ssrc) }
  | .remove track => { r.removeTrack clientID track with ended := track.ssrc :: r.ended }

/-- `PushRTP` of the jitter buffer. -/
def Room.pushRTP (r : Room) (packet : RtpPacket) : Room :=
  { r with
    buffers := r.buffers.insert packet.ssrc ((r.buffers.lookup packet.ssrc).getD [] ++ [packet]) }

/-- The goroutine of RTCP packets. -/
def Room.handleRTCP (r : Room) (clientID : String) : RtcpPacket → Room
  | .remb ssrcs bitrate =>
    { r with
      trackBitrateEstimators := (r.trackBitrateEstimators.estimate clientID ssrcs bitrate).1 }
  | .other => r

/-! ### Steps -/

inductive Action where
  /-- `NewWebRTCTransport`. -/
  | create (clientID : String)
  /-- `handleTrack`: a track is recorded, and its `Add` event sent. -/
  | record (clientID : String) (track : TrackInfo)
  /-- A remote track has ended: it is deleted, and its `Remove` event sent. -/
  | endTrack (clientID : String) (ssrc : UInt32)
  | close (clientID : String)
  | add (clientID : String)
  | remove (clientID : String)
  | handleEvent (clientID : String) (event : TrackEvent)
  | receiveRTP (clientID : String) (packet : RtpPacket)
  | handleRTP (clientID : String)
  | receiveRTCP (clientID : String) (packet : RtcpPacket)
  | handleRTCP (clientID : String)
  deriving DecidableEq, Repr

/-- The event of a track that is next: its `Add` event comes before its `Remove` event. -/
def Ready (p : Transport) : TrackEvent → Prop
  | .add track => .add track ∈ p.trackEvents
  | .remove track => .remove track ∈ p.trackEvents ∧ .add track ∉ p.trackEvents

instance (p : Transport) : DecidablePred (Ready p)
  | .add track => inferInstanceAs (Decidable (.add track ∈ p.trackEvents))
  | .remove track => inferInstanceAs (Decidable (.remove track ∈ p.trackEvents ∧ .add track ∉ p.trackEvents))

/-- Transports have distinct client ids and tracks distinct SSRCs; a transport is added once, and removed once
after it has closed. -/
def step (r : Room) : Action → Option Room
  | .create c => if c ∈ r.created then none else some { r with created := c :: r.created }
  | .record c track =>
    if c ∈ r.created ∧ track.ssrc ∉ r.tracks then
      let p := r.peer c
      some { r.setPeer c { p with
          remoteTracks := p.remoteTracks.insert track.ssrc track
          trackEvents := p.trackEvents ++ [.add track] } with
        tracks := r.tracks.insert track.ssrc (c, track) }
    else none
  | .endTrack c ssrc =>
    let p := r.peer c
    match p.remoteTracks.lookup ssrc with
    | none => none
    | some track =>
      some (r.setPeer c { p with
        remoteTracks := p.remoteTracks.erase ssrc
        trackEvents := p.trackEvents ++ [.remove track] })
  | .close c => if c ∈ r.created ∧ c ∉ r.closed then some { r with closed := c :: r.closed } else none
  | .add c =>
    if c ∈ r.created ∧ c ∉ r.added then
      some { r.add c with
        added := c :: r.added
        due := r.due ++ r.remoteTracks.map fun track => (c, track.ssrc) }
    else none
  | .remove c =>
    if c ∈ r.added ∧ c ∈ r.closed ∧ c ∉ r.removed then
      some { r.remove c with removed := c :: r.removed }
    else none
  | .handleEvent c event =>
    if c ∈ r.added ∧ Ready (r.peer c) event then some ((r.takeEvent c event).handleEvent c event) else none
  | .receiveRTP c packet =>
    let p := r.peer c
    if packet.ssrc ∈ p.remoteTracks then some (r.setPeer c { p with rtp := p.rtp ++ [packet] }) else none
  | .handleRTP c =>
    let p := r.peer c
    match p.rtp with
    | [] => none
    | packet :: rtp => if c ∈ r.created then some ((r.setPeer c { p with rtp }).pushRTP packet) else none
  | .receiveRTCP c packet =>
    let p := r.peer c
    if c ∈ r.created then some (r.setPeer c { p with rtcp := p.rtcp ++ [packet] }) else none
  | .handleRTCP c =>
    let p := r.peer c
    match p.rtcp with
    | [] => none
    | packet :: rtcp =>
      if c ∈ r.created then some ((r.setPeer c { p with rtcp }).handleRTCP c packet) else none

/-- What a step can do. -/
inductive Stepped (r : Room) : Action → Room → Prop
  | create {c : String} : Stepped r (.create c) { r with created := c :: r.created }
  | record {c : String} {track : TrackInfo} : c ∈ r.created → track.ssrc ∉ r.tracks →
      Stepped r (.record c track) { r.setPeer c { r.peer c with
          remoteTracks := (r.peer c).remoteTracks.insert track.ssrc track
          trackEvents := (r.peer c).trackEvents ++ [.add track] } with
        tracks := r.tracks.insert track.ssrc (c, track) }
  | endTrack {c : String} {ssrc : UInt32} {track : TrackInfo} :
      (r.peer c).remoteTracks.lookup ssrc = some track →
        Stepped r (.endTrack c ssrc) (r.setPeer c { r.peer c with
          remoteTracks := (r.peer c).remoteTracks.erase ssrc
          trackEvents := (r.peer c).trackEvents ++ [.remove track] })
  | close {c : String} : Stepped r (.close c) { r with closed := c :: r.closed }
  | add {c : String} : c ∈ r.created → c ∉ r.added → Stepped r (.add c) { r.add c with
      added := c :: r.added
      due := r.due ++ r.remoteTracks.map fun track => (c, track.ssrc) }
  | remove {c : String} : c ∈ r.added → c ∈ r.closed → c ∉ r.removed →
      Stepped r (.remove c) { r.remove c with removed := c :: r.removed }
  | handleEvent {c : String} {event : TrackEvent} : c ∈ r.added → Ready (r.peer c) event →
      Stepped r (.handleEvent c event) ((r.takeEvent c event).handleEvent c event)
  | receiveRTP {c : String} {packet : RtpPacket} : packet.ssrc ∈ (r.peer c).remoteTracks →
      Stepped r (.receiveRTP c packet) (r.setPeer c { r.peer c with rtp := (r.peer c).rtp ++ [packet] })
  | handleRTP {c : String} {packet : RtpPacket} {rtp : List RtpPacket} : (r.peer c).rtp = packet :: rtp →
      Stepped r (.handleRTP c) ((r.setPeer c { r.peer c with rtp }).pushRTP packet)
  | receiveRTCP {c : String} {packet : RtcpPacket} :
      Stepped r (.receiveRTCP c packet) (r.setPeer c { r.peer c with rtcp := (r.peer c).rtcp ++ [packet] })
  | handleRTCP {c : String} {packet : RtcpPacket} {rtcp : List RtcpPacket} :
      (r.peer c).rtcp = packet :: rtcp →
        Stepped r (.handleRTCP c) ((r.setPeer c { r.peer c with rtcp }).handleRTCP c packet)

theorem stepped_of_step {r r' : Room} {x : Action} (hs : step r x = some r') : Stepped r x r' := by
  cases x with
  | create c =>
    simp only [step] at hs
    split_ifs at hs
    exact Option.some.inj hs ▸ .create
  | record c track =>
    simp only [step] at hs
    split_ifs at hs with h
    exact Option.some.inj hs ▸ .record h.1 h.2
  | endTrack c ssrc =>
    simp only [step] at hs
    cases ht : (r.peer c).remoteTracks.lookup ssrc with
    | none => simp [ht] at hs
    | some track =>
      simp only [ht] at hs
      exact Option.some.inj hs ▸ .endTrack ht
  | close c =>
    simp only [step] at hs
    split_ifs at hs
    exact Option.some.inj hs ▸ .close
  | add c =>
    simp only [step] at hs
    split_ifs at hs with h
    exact Option.some.inj hs ▸ .add h.1 h.2
  | remove c =>
    simp only [step] at hs
    split_ifs at hs with h
    exact Option.some.inj hs ▸ .remove h.1 h.2.1 h.2.2
  | handleEvent c event =>
    simp only [step] at hs
    split_ifs at hs with h
    exact Option.some.inj hs ▸ .handleEvent h.1 h.2
  | receiveRTP c packet =>
    simp only [step] at hs
    split_ifs at hs with h
    exact Option.some.inj hs ▸ .receiveRTP h
  | handleRTP c =>
    simp only [step] at hs
    cases hp : (r.peer c).rtp with
    | nil => simp [hp] at hs
    | cons packet rtp =>
      simp only [hp] at hs
      split_ifs at hs
      exact Option.some.inj hs ▸ .handleRTP hp
  | receiveRTCP c packet =>
    simp only [step] at hs
    split_ifs at hs
    exact Option.some.inj hs ▸ .receiveRTCP
  | handleRTCP c =>
    simp only [step] at hs
    cases hp : (r.peer c).rtcp with
    | nil => simp [hp] at hs
    | cons packet rtcp =>
      simp only [hp] at hs
      split_ifs at hs
      exact Option.some.inj hs ▸ .handleRTCP hp

/-! ### What the operations leave -/

section Frame

variable (r : Room) (c x : String) (p : Transport) (track : TrackInfo)

/-- Calls of the manager leave what a transport receives. -/
def Transport.SameRemote (p q : Transport) : Prop :=
  p.remoteTracks = q.remoteTracks ∧ p.trackEvents = q.trackEvents ∧ p.rtp = q.rtp ∧ p.rtcp = q.rtcp

theorem sameRemote_addTrack : ((r.addTrack c track).peer x).SameRemote (r.peer x) := by
  simp only [Room.addTrack]
  split_ifs <;> exact ⟨rfl, rfl, rfl, rfl⟩

theorem sameRemote_removeTrack : ((r.removeTrack c track).peer x).SameRemote (r.peer x) := by
  simp only [Room.removeTrack]
  split_ifs <;> exact ⟨rfl, rfl, rfl, rfl⟩

theorem sameRemote_foldl (tracks : List TrackInfo) :
    ∀ p : Transport, (tracks.foldl Transport.addTrack p).SameRemote p := by
  induction tracks with
  | nil => exact fun _ => ⟨rfl, rfl, rfl, rfl⟩
  | cons track tracks ih => exact fun p => ih (p.addTrack track)

theorem sameRemote_add : ((r.add c).peer x).SameRemote (r.peer x) := by
  by_cases hx : x = c
  · subst hx
    simp only [Room.add, Function.update_self]
    exact sameRemote_foldl _ _
  · simp only [Room.add, Function.update_of_ne hx]
    exact ⟨rfl, rfl, rfl, rfl⟩

theorem sameRemote_handleEvent (event : TrackEvent) :
    ((r.handleEvent c event).peer x).SameRemote (r.peer x) := by
  cases event with
  | add track => exact sameRemote_addTrack r c x track
  | remove track => exact sameRemote_removeTrack r c x track

@[simp] theorem setPeer_peer_self : (r.setPeer c p).peer c = p := Function.update_self ..

theorem setPeer_peer_ne (h : x ≠ c) : (r.setPeer c p).peer x = r.peer x := Function.update_of_ne h ..

end Frame

/-! ### Who is in the room -/

structure Joined (r : Room) : Prop where
  created : ∀ c ∈ r.added, c ∈ r.created
  mem_transports : ∀ c, c ∈ r.transports ↔ c ∈ r.added ∧ c ∉ r.removed
  nodup : r.transports.Nodup
  removed : ∀ c ∈ r.removed, c ∈ r.added ∧ c ∈ r.closed

theorem joined_empty : Joined Room.empty := by
  refine ⟨?_, ?_, List.nodup_nil, ?_⟩
  · intro c h
    cases h
  · intro c
    simp [Room.empty]
  · intro c h
    cases h

theorem Joined.add {r : Room} {c : String} (h : Joined r) (hc : c ∈ r.created) (hnew : c ∉ r.added)
    (due : List (String × UInt32)) : Joined { r.add c with added := c :: r.added, due } := by
  have hgone : c ∉ r.removed := fun hr => hnew (h.removed c hr).1
  refine ⟨?_, ?_, ?_, ?_⟩
  · intro d hd
    rcases List.mem_cons.mp hd with rfl | hd
    · exact hc
    · exact h.created d hd
  · intro d
    show d ∈ c :: r.transports ↔ d ∈ c :: r.added ∧ d ∉ r.removed
    rw [List.mem_cons, List.mem_cons, h.mem_transports]
    constructor
    · rintro (rfl | ⟨hd, hr⟩)
      · exact ⟨Or.inl rfl, hgone⟩
      · exact ⟨Or.inr hd, hr⟩
    · rintro ⟨rfl | hd, hr⟩
      · exact Or.inl rfl
      · exact Or.inr ⟨hd, hr⟩
  · refine List.nodup_cons.mpr ⟨?_, h.nodup⟩
    exact fun hin => hnew ((h.mem_transports c).mp hin).1
  · intro d hd
    obtain ⟨ha, hcl⟩ := h.removed d hd
    exact ⟨List.mem_cons_of_mem _ ha, hcl⟩

theorem Joined.remove {r : Room} {c : String} (h : Joined r) (ha : c ∈ r.added) (hcl : c ∈ r.closed) :
    Joined { r.remove c with removed := c :: r.removed } := by
  refine ⟨h.created, ?_, h.nodup.erase c, ?_⟩
  · intro d
    show d ∈ r.transports.erase c ↔ d ∈ r.added ∧ d ∉ c :: r.removed
    rw [h.nodup.mem_erase_iff, h.mem_transports, List.mem_cons, not_or]
    tauto
  · intro d hd
    rcases List.mem_cons.mp hd with rfl | hd
    · exact ⟨ha, hcl⟩
    · exact h.removed d hd

theorem Joined.step {r r' : Room} {x : Action} (h : Joined r) (hs : Stepped r x r') : Joined r' := by
  cases hs with
  | create =>
    refine ⟨fun c hc => List.mem_cons_of_mem _ (h.created c hc), h.mem_transports, h.nodup, h.removed⟩
  | close =>
    refine ⟨h.created, h.mem_transports, h.nodup, fun c hc => ?_⟩
    exact ⟨(h.removed c hc).1, List.mem_cons_of_mem _ (h.removed c hc).2⟩
  | add hc hnew => exact h.add hc hnew _
  | remove ha hcl => exact h.remove ha hcl
  | @handleEvent c event _ _ =>
    cases event with
    | add => exact ⟨h.created, h.mem_transports, h.nodup, h.removed⟩
    | remove => exact ⟨h.created, h.mem_transports, h.nodup, h.removed⟩
  | @handleRTCP c packet _ _ =>
    cases packet with
    | remb => exact ⟨h.created, h.mem_transports, h.nodup, h.removed⟩
    | other => exact ⟨h.created, h.mem_transports, h.nodup, h.removed⟩
  | record => exact ⟨h.created, h.mem_transports, h.nodup, h.removed⟩
  | endTrack => exact ⟨h.created, h.mem_transports, h.nodup, h.removed⟩
  | receiveRTP => exact ⟨h.created, h.mem_transports, h.nodup, h.removed⟩
  | handleRTP => exact ⟨h.created, h.mem_transports, h.nodup, h.removed⟩
  | receiveRTCP => exact ⟨h.created, h.mem_transports, h.nodup, h.removed⟩

/-! ### Tracks and their events -/

def TrackEvent.track : TrackEvent → TrackInfo
  | .add track | .remove track => track

/-- The tracks and events of the transport of a client, among the tracks of the room. -/
structure Transport.Sends (tracks : AList fun _ : UInt32 => String × TrackInfo) (c : String) (p : Transport) :
    Prop where
  remote : ∀ {ssrc t}, p.remoteTracks.lookup ssrc = some t → tracks.lookup ssrc = some (c, t)
  sent : ∀ {e}, e ∈ p.trackEvents → tracks.lookup e.track.ssrc = some (c, e.track)
  once : p.trackEvents.Nodup
  /-- A track has ended when its `Remove` event is sent; until then it is there. -/
  gone : ∀ {t}, .remove t ∈ p.trackEvents → t.ssrc ∉ p.remoteTracks
  there : ∀ {t}, .add t ∈ p.trackEvents → t.ssrc ∈ p.remoteTracks ∨ .remove t ∈ p.trackEvents

section Sends

variable {tracks : AList fun _ : UInt32 => String × TrackInfo} {c : String} {p q : Transport}
  {track : TrackInfo}

theorem Transport.sends_empty : Transport.empty.Sends tracks c := by
  refine ⟨?_, ?_, List.nodup_nil, ?_, ?_⟩
  · intro ssrc t h
    cases h
  · intro e h
    cases h
  · intro t h
    cases h
  · intro t h
    cases h

theorem Transport.Sends.congr (h : p.Sends tracks c) (hr : q.remoteTracks = p.remoteTracks)
    (he : q.trackEvents = p.trackEvents) : q.Sends tracks c := by
  refine ⟨?_, ?_, ?_, ?_, ?_⟩
  · rw [hr]
    exact h.remote
  · rw [he]
    exact h.sent
  · rw [he]
    exact h.once
  · rw [hr, he]
    exact h.gone
  · rw [hr, he]
    exact h.there

/-- Another track of the room changes nothing. -/
theorem Transport.Sends.mono {d : String} (h : p.Sends tracks c) (hnew : track.ssrc ∉ tracks) :
    p.Sends (tracks.insert track.ssrc (d, track)) c := by
  have hold : ∀ {ssrc v}, tracks.lookup ssrc = some v →
      (tracks.insert track.ssrc (d, track)).lookup ssrc = some v := by
    intro ssrc v hv
    have hne : ssrc ≠ track.ssrc := by
      rintro rfl
      exact hnew (AList.lookup_isSome.mp (hv ▸ rfl))
    rw [AList.lookup_insert_ne hne, hv]
  exact ⟨fun ht => hold (h.remote ht), fun he => hold (h.sent he), h.once, h.gone, h.there⟩

/-- The events of a transport are not about a track that the room does not have. -/
theorem Transport.Sends.notMem_of_new (h : p.Sends tracks c) {e : TrackEvent}
    (hnew : e.track.ssrc ∉ tracks) : e ∉ p.trackEvents :=
  fun he => hnew (AList.lookup_isSome.mp (h.sent he ▸ rfl))

theorem Transport.Sends.record (h : p.Sends tracks c) (hnew : track.ssrc ∉ tracks) :
    Transport.Sends (tracks.insert track.ssrc (c, track)) c { p with
      remoteTracks := p.remoteTracks.insert track.ssrc track
      trackEvents := p.trackEvents ++ [.add track] } := by
  have hm := h.mono (d := c) hnew
  refine ⟨?_, ?_, ?_, ?_, ?_⟩
  · intro ssrc t ht
    rcases lookup_insert_cases ht with ⟨rfl, rfl⟩ | ⟨-, ht⟩
    · exact AList.lookup_insert _
    · exact hm.remote ht
  · intro e he
    rcases List.mem_append.mp he with he | he
    · exact hm.sent he
    · rw [List.mem_singleton.mp he]
      exact AList.lookup_insert _
  · rw [← List.concat_eq_append, List.nodup_concat]
    exact ⟨h.notMem_of_new hnew, h.once⟩
  · intro t ht hin
    have ht : .remove t ∈ p.trackEvents := by simpa using ht
    rcases (AList.mem_insert _).mp hin with he | hin
    · exact h.notMem_of_new (by rwa [TrackEvent.track, he]) ht
    · exact h.gone ht hin
  · intro t ht
    rcases List.mem_append.mp ht with ht | ht
    · exact (h.there ht).imp (fun hin => (AList.mem_insert _).mpr (Or.inr hin)) (List.mem_append_left _)
    · obtain rfl := TrackEvent.add.inj (List.mem_singleton.mp ht)
      exact Or.inl ((AList.mem_insert _).mpr (Or.inl rfl))

theorem Transport.Sends.endTrack {ssrc : UInt32} (h : p.Sends tracks c)
    (hk : ∀ {ssrc c t}, tracks.lookup ssrc = some (c, t) → t.ssrc = ssrc)
    (ht : p.remoteTracks.lookup ssrc = some track) :
    Transport.Sends tracks c { p with
      remoteTracks := p.remoteTracks.erase ssrc
      trackEvents := p.trackEvents ++ [.remove track] } := by
  have hssrc : track.ssrc = ssrc := hk (h.remote ht)
  refine ⟨fun hl => h.remote (lookup_of_lookup_erase hl).2, ?_, ?_, ?_, ?_⟩
  · intro e he
    rcases List.mem_append.mp he with he | he
    · exact h.sent he
    · rw [List.mem_singleton.mp he]
      exact hssrc ▸ h.remote ht
  · rw [← List.concat_eq_append, List.nodup_concat]
    refine ⟨fun he => h.gone he ?_, h.once⟩
    rw [hssrc]
    exact AList.lookup_isSome.mp (ht ▸ rfl)
  · intro t he hin
    obtain ⟨hne, hin⟩ := AList.mem_erase.mp hin
    rcases List.mem_append.mp he with he | he
    · exact h.gone he hin
    · obtain rfl := TrackEvent.remove.inj (List.mem_singleton.mp he)
      exact hne hssrc
  · intro t he
    have he : .add t ∈ p.trackEvents := by simpa using he
    by_cases hts : t.ssrc = ssrc
    · -- the track that ends is the one that was added
      have h1 := h.sent he
      rw [TrackEvent.track, hts, h.remote ht] at h1
      obtain rfl : track = t := (Prod.mk.inj (Option.some.inj h1)).2
      exact Or.inr (List.mem_append_right _ (List.mem_singleton_self _))
    · exact (h.there he).imp (fun hin => AList.mem_erase.mpr ⟨hts, hin⟩) (List.mem_append_left _)

theorem Transport.Sends.handled {event : TrackEvent} (h : p.Sends tracks c) (hready : Ready p event) :
    Transport.Sends tracks c { p with trackEvents := p.trackEvents.erase event } := by
  refine ⟨h.remote, fun he => h.sent (List.mem_of_mem_erase he), h.once.erase _,
    fun he => h.gone (List.mem_of_mem_erase he), ?_⟩
  intro t ht
  have hin := List.mem_of_mem_erase ht
  refine (h.there hin).imp_right fun hr => ?_
  -- a `Remove` event is not handled before the `Add` event
  have hne : .remove t ≠ event := by
    rintro rfl
    exact hready.2 hin
  exact (List.mem_erase_of_ne hne).mpr hr

end Sends

structure Recorded (r : Room) : Prop extends Joined r where
  known : ∀ {ssrc c t}, r.tracks.lookup ssrc = some (c, t) → c ∈ r.created ∧ t.ssrc = ssrc
  sends : ∀ c, (r.peer c).Sends r.tracks c
  /-- No event is handled before the transport is added. -/
  early : ∀ {c ssrc t}, c ∉ r.added → (r.peer c).remoteTracks.lookup ssrc = some t →
    .add t ∈ (r.peer c).trackEvents

theorem recorded_empty : Recorded Room.empty := by
  refine ⟨joined_empty, ?_, fun c => Transport.sends_empty, ?_⟩
  · intro ssrc c t h
    cases h
  · intro c ssrc t _ h
    cases h

section Recorded

variable {r r' : Room} {x : Action}

/-- Steps that leave tracks and events. -/
theorem Recorded.congr (h : Recorded r) (hj : Joined r') (htracks : r'.tracks = r.tracks)
    (hcreated : ∀ c ∈ r.created, c ∈ r'.created) (hadded : ∀ c ∈ r.added, c ∈ r'.added)
    (hpeer : ∀ c, (r'.peer c).remoteTracks = (r.peer c).remoteTracks ∧
      (r'.peer c).trackEvents = (r.peer c).trackEvents) : Recorded r' := by
  refine ⟨hj, ?_, ?_, ?_⟩
  · rw [htracks]
    intro ssrc c t ht
    exact ⟨hcreated c (h.known ht).1, (h.known ht).2⟩
  · intro c
    rw [htracks]
    exact (h.sends c).congr (hpeer c).1 (hpeer c).2
  · intro c ssrc t hc ht
    rw [(hpeer c).2]
    rw [(hpeer c).1] at ht
    exact h.early (fun ha => hc (hadded c ha)) ht

theorem Recorded.record {c : String} {track : TrackInfo} (h : Recorded r) (hc : c ∈ r.created)
    (hnew : track.ssrc ∉ r.tracks) :
    Recorded { r.setPeer c { r.peer c with
        remoteTracks := (r.peer c).remoteTracks.insert track.ssrc track
        trackEvents := (r.peer c).trackEvents ++ [.add track] } with
      tracks := r.tracks.insert track.ssrc (c, track) } := by
  refine ⟨h.toJoined.step (.record hc hnew), ?_, ?_, ?_⟩
  · intro ssrc d t ht
    rcases lookup_insert_cases ht with ⟨rfl, he⟩ | ⟨-, ht⟩
    · obtain ⟨rfl, rfl⟩ := Prod.mk.inj he
      exact ⟨hc, rfl⟩
    · exact h.known ht
  · intro d
    by_cases hd : d = c
    · subst hd
      simp only [setPeer_peer_self]
      exact (h.sends d).record hnew
    · simp only [setPeer_peer_ne _ _ _ _ hd]
      exact (h.sends d).mono hnew
  · intro d ssrc t ha ht
    by_cases hd : d = c
    · subst hd
      simp only [setPeer_peer_self] at ht ⊢
      rcases lookup_insert_cases ht with ⟨-, rfl⟩ | ⟨-, ht⟩
      · exact List.mem_append_right _ (List.mem_singleton_self _)
      · exact List.mem_append_left _ (h.early ha ht)
    · simp only [setPeer_peer_ne _ _ _ _ hd] at ht ⊢
      exact h.early ha ht

theorem Recorded.endTrack {c : String} {ssrc : UInt32} {track : TrackInfo} (h : Recorded r)
    (ht : (r.peer c).remoteTracks.lookup ssrc = some track) :
    Recorded (r.setPeer c { r.peer c with
      remoteTracks := (r.peer c).remoteTracks.erase ssrc
      trackEvents := (r.peer c).trackEvents ++ [.remove track] }) := by
  refine ⟨h.toJoined.step (.endTrack ht), h.known, ?_, ?_⟩
  · intro d
    by_cases hd : d = c
    · subst hd
      rw [setPeer_peer_self]
      exact (h.sends d).endTrack (fun hl => (h.known hl).2) ht
    · rw [setPeer_peer_ne _ _ _ _ hd]
      exact h.sends d
  · intro d s t ha hl
    by_cases hd : d = c
    · subst hd
      rw [setPeer_peer_self] at hl ⊢
      exact List.mem_append_left _ (h.early ha (lookup_of_lookup_erase hl).2)
    · rw [setPeer_peer_ne _ _ _ _ hd] at hl ⊢
      exact h.early ha hl

theorem Recorded.takeEvent {c : String} {event : TrackEvent} (h : Recorded r) (hc : c ∈ r.added)
    (hready : Ready (r.peer c) event) :
    Recorded (r.takeEvent c event) := by
  unfold Room.takeEvent
  refine ⟨⟨h.created, h.mem_transports, h.nodup, h.removed⟩, h.known, ?_, ?_⟩
  · intro d
    by_cases hd : d = c
    · subst hd
      rw [setPeer_peer_self]
      exact (h.sends d).handled hready
    · rw [setPeer_peer_ne _ _ _ _ hd]
      exact h.sends d
  · intro d s t ha hl
    have hd : d ≠ c := by
      rintro rfl
      exact ha hc
    rw [setPeer_peer_ne _ _ _ _ hd] at hl ⊢
    exact h.early ha hl

/-- A packet of a transport is not about its tracks. -/
theorem setPeer_packets (c d : String) (p : Transport) (hr : p.remoteTracks = (r.peer c).remoteTracks)
    (he : p.trackEvents = (r.peer c).trackEvents) :
    ((r.setPeer c p).peer d).remoteTracks = (r.peer d).remoteTracks ∧
      ((r.setPeer c p).peer d).trackEvents = (r.peer d).trackEvents := by
  by_cases hd : d = c
  · subst hd
    rw [setPeer_peer_self]
    exact ⟨hr, he⟩
  · rw [setPeer_peer_ne _ _ _ _ hd]
    exact ⟨rfl, rfl⟩

/-- **Step lemma.** -/
theorem Recorded.step (h : Recorded r) (hs : Stepped r x r') : Recorded r' := by
  have hj := h.toJoined.step hs
  cases hs with
  | create =>
    exact h.congr hj rfl (fun _ hc => List.mem_cons_of_mem _ hc) (fun _ ha => ha) fun _ => ⟨rfl, rfl⟩
  | close => exact h.congr hj rfl (fun _ hc => hc) (fun _ ha => ha) fun _ => ⟨rfl, rfl⟩
  | remove => exact h.congr hj rfl (fun _ hc => hc) (fun _ ha => ha) fun _ => ⟨rfl, rfl⟩
  | record hc hnew => exact h.record hc hnew
  | endTrack ht => exact h.endTrack ht
  | @add c =>
    refine h.congr hj rfl (fun _ hc => hc) (fun _ ha => List.mem_cons_of_mem _ ha) fun d => ?_
    exact ⟨(sameRemote_add r c d).1, (sameRemote_add r c d).2.1⟩
  | @handleEvent c event hc hready =>
    have ht := h.takeEvent hc hready
    have hsame := fun d => sameRemote_handleEvent (r.takeEvent c event) c d event
    refine ht.congr hj ?_ ?_ ?_ fun d => ⟨(hsame d).1, (hsame d).2.1⟩
    · cases event <;> rfl
    · cases event <;> exact fun _ hc => hc
    · cases event <;> exact fun _ ha => ha
  | @receiveRTP c =>
    exact h.congr hj rfl (fun _ hc => hc) (fun _ ha => ha) fun d => setPeer_packets c d _ rfl rfl
  | @handleRTP c =>
    exact h.congr hj rfl (fun _ hc => hc) (fun _ ha => ha) fun d => setPeer_packets c d _ rfl rfl
  | @receiveRTCP c =>
    exact h.congr hj rfl (fun _ hc => hc) (fun _ ha => ha) fun d => setPeer_packets c d _ rfl rfl
  | @handleRTCP c packet =>
    cases packet with
    | remb =>
      exact h.congr hj rfl (fun _ hc => hc) (fun _ ha => ha) fun d => setPeer_packets c d _ rfl rfl
    | other =>
      exact h.congr hj rfl (fun _ hc => hc) (fun _ ha => ha) fun d => setPeer_packets c d _ rfl rfl

end Recorded

/-- **Tracks, events and transports agree** in every reachable state. -/
theorem recorded_of_reach {ok : Room → Action → Prop} {r : Room} (h : Reach step ok Room.empty r) :
    Recorded r :=
  h.invariant recorded_empty fun _ _ _ hI _ hs => hI.step (stepped_of_step hs)

end Meeting.Sfu
