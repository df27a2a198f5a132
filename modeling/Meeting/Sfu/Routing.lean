import Meeting.Jitter.Nacks
import Meeting.Sfu.Forwarding

/-!
# Meeting.Sfu.Routing — where the packets of an SFU room go (`tracksmanager.go`, `webrtctransport.go`, `jitter.go`)

For every transport two goroutines handle its packets.  That of RTP packets gives each to the jitter handler, which
may ask the sender for lost ones, and writes it to the other transports of the room.  That of RTCP packets looks up
who sends the tracks that a packet is about, one after the other, and writes the packet to them; a NACK is first
answered from the jitter buffer.  Between these steps clients join and leave, and tracks come and go.

* `packets_routed`: what is written to a client as media was received from another client, which sends the track;
  what is written as feedback is about a track that the client sends; and the packets of one client are forwarded
  to another in the order received, each at most once, which leaves aside those that are sent again on a NACK;
* `packets_forwarded`: while the other client gets the tracks, all of them are forwarded, and without a jitter buffer
  nothing is sent again.
-/

namespace Meeting.Sfu.Routing

open Lib
open Jitter (Packet TransportLayerNack)

/-! ### State -/

/-- The RTCP packets that are passed on. -/
inductive Feedback where
  | remb (ssrcs : List UInt32) (bitrate : UInt64)
  | pli (mediaSSRC : UInt32)
  | nack (nack : TransportLayerNack)
  deriving DecidableEq, Repr

/-- The tracks that a packet is about. -/
def Feedback.ssrcs : Feedback → List UInt32
  | .remb ssrcs _ => ssrcs
  | .pli mediaSSRC => [mediaSSRC]
  | .nack n => [n.mediaSSRC]

/-- A packet that the goroutine of RTCP packets is passing on. -/
structure Passing where
  packet : Feedback
  /-- The tracks whose senders are still to be looked up. -/
  rest : List UInt32
  /-- The clients of `transportsSet`. -/
  found : List String
  deriving DecidableEq, Repr

inductive Write where
  /-- `WriteRTP` of the goroutine of RTP packets. -/
  | forward (source dest : String) (packet : Packet)
  /-- `WriteRTP` for a NACK. -/
  | resend (dest : String) (packet : Packet)
  /-- `WriteRTCP`. -/
  | feedback (dest : String) (packet : Feedback)
  deriving DecidableEq, Repr

structure Relay where
  room : Room
  /-- The `NackHandler`, or the `NoopNackHandler`. -/
  jitter : Option Jitter.System
  /-- The packets that were read from the tracks of a client. -/
  received : String → List Packet
  forwarding : String → Option Packet
  passing : String → Option Passing
  written : List Write

def Relay.new (jitterBufferEnabled : Bool) : Relay :=
  ⟨Room.empty, if jitterBufferEnabled then some Jitter.start else none, fun _ => [], fun _ => none, fun _ => none, []⟩

/-! ### Operations -/

/-- `getTransportBySSRC`. -/
def getTransportBySSRC (r : Room) (ssrc : UInt32) : Option String :=
  match r.clientIDBySSRC.lookup ssrc with
  | none => none
  | some clientID => if clientID ∈ r.transports then some clientID else none

/-- `WriteRTP` writes to the transports that have the track. -/
def HasTrack (r : Room) (clientID : String) (packet : Packet) : Prop :=
  packet.ssrc ∈ (r.peer clientID).localTracks

instance (r : Room) (clientID : String) : DecidablePred (HasTrack r clientID) := fun packet =>
  inferInstanceAs (Decidable (packet.ssrc ∈ (r.peer clientID).localTracks))

/-- `HandleRTP`. -/
def handleRTP (jitter : Option Jitter.System) (packet : Packet) : Option Jitter.System × Option TransportLayerNack :=
  match jitter with
  | none => (none, none)
  | some j => (Jitter.step j (.pushRTP packet), (j.jitterBuffer.pushRTP packet).2)

/-- `HandleNack`. -/
def handleNack (jitter : Option Jitter.System) (nack : TransportLayerNack) : List Packet × Option TransportLayerNack :=
  match jitter with
  | none => ([], none)
  | some j => Jitter.handleNack j.jitterBuffer nack

/-- The goroutine of RTP packets, up to the lock. -/
def receiveRTP (s : Relay) (c : String) (packet : Packet) : Relay :=
  let r := handleRTP s.jitter packet
  { s with
    jitter := r.1
    received := Function.update s.received c (s.received c ++ [packet])
    forwarding := Function.update s.forwarding c (some packet)
    written := s.written ++ r.2.toList.map fun nack => .feedback c (.nack nack) }

/-- The goroutine of RTP packets, under the lock. -/
def forward (s : Relay) (c : String) (packet : Packet) : Relay :=
  { s with
    forwarding := Function.update s.forwarding c none
    written := s.written ++
      ((s.room.others c).filter fun other => HasTrack s.room other packet).map fun other => .forward c other packet }

/-- The goroutine of RTCP packets, up to the first look-up. -/
def receiveRTCP (s : Relay) (c : String) : Feedback → Relay
  | .remb ssrcs bitrate =>
    let r := s.room.trackBitrateEstimators.estimate c ssrcs bitrate
    { s with
      room := { s.room with trackBitrateEstimators := r.1 }
      passing := Function.update s.passing c (some ⟨.remb ssrcs r.2, ssrcs, []⟩) }
  | .pli mediaSSRC => { s with passing := Function.update s.passing c (some ⟨.pli mediaSSRC, [mediaSSRC], []⟩) }
  | .nack nack =>
    let r := handleNack s.jitter nack
    { s with
      passing := Function.update s.passing c (r.2.map fun nack' => ⟨.nack nack', [nack.mediaSSRC], []⟩)
      written := s.written ++ (r.1.filter fun packet => HasTrack s.room c packet).map (.resend c) }

/-- One more sender in `transportsSet`. -/
def insertFound (found : List String) : Option String → List String
  | none => found
  | some clientID => if clientID ∈ found then found else found ++ [clientID]

/-- The next look-up. -/
def lookUp (r : Room) (packet : Feedback) (ssrc : UInt32) (rest : List UInt32) (found : List String) : Passing :=
  ⟨packet, rest, insertFound found (getTransportBySSRC r ssrc)⟩

inductive Action where
  | room (x : Sfu.Action)
  | receiveRTP (clientID : String) (packet : Packet)
  | forward (clientID : String)
  | receiveRTCP (clientID : String) (packet : Feedback)
  | lookUp (clientID : String)
  | send (clientID : String)
  deriving DecidableEq, Repr

/-- Packets are read from the tracks that a client has sent, by goroutines that handle one at a time. -/
def step (s : Relay) : Action → Option Relay
  | .room x => (Sfu.step s.room x).map fun room => { s with room }
  | .receiveRTP c packet =>
    if (s.room.tracks.lookup packet.ssrc).map Prod.fst = some c ∧ s.forwarding c = none then
      some (receiveRTP s c packet)
    else none
  | .forward c => (s.forwarding c).map (forward s c)
  | .receiveRTCP c packet =>
    if c ∈ s.room.created ∧ s.passing c = none then some (receiveRTCP s c packet) else none
  | .lookUp c =>
    match s.passing c with
    | some ⟨packet, ssrc :: rest, found⟩ =>
      some { s with passing := Function.update s.passing c (some (lookUp s.room packet ssrc rest found)) }
    | _ => none
  | .send c =>
    match s.passing c with
    | some ⟨packet, [], found⟩ =>
      some { s with
        passing := Function.update s.passing c none
        written := s.written ++ found.map fun clientID => .feedback clientID packet }
    | _ => none

/-- What a step can do. -/
inductive Stepped (s : Relay) : Action → Relay → Prop
  | room {x : Sfu.Action} {room : Room} : Sfu.Stepped s.room x room → Stepped s (.room x) { s with room }
  | receiveRTP {c : String} {packet : Packet} {t : TrackInfo} : s.room.tracks.lookup packet.ssrc = some (c, t) →
      s.forwarding c = none → Stepped s (.receiveRTP c packet) (Routing.receiveRTP s c packet)
  | forward {c : String} {packet : Packet} : s.forwarding c = some packet →
      Stepped s (.forward c) (Routing.forward s c packet)
  | receiveRTCP {c : String} {packet : Feedback} : s.passing c = none →
      Stepped s (.receiveRTCP c packet) (Routing.receiveRTCP s c packet)
  | lookUp {c : String} {packet : Feedback} {ssrc : UInt32} {rest : List UInt32} {found : List String} :
      s.passing c = some ⟨packet, ssrc :: rest, found⟩ →
        Stepped s (.lookUp c)
          { s with passing := Function.update s.passing c (some (lookUp s.room packet ssrc rest found)) }
  | send {c : String} {packet : Feedback} {found : List String} : s.passing c = some ⟨packet, [], found⟩ →
      Stepped s (.send c) { s with
        passing := Function.update s.passing c none
        written := s.written ++ found.map fun clientID => .feedback clientID packet }

theorem stepped_of_step {s s' : Relay} {a : Action} (hs : step s a = some s') : Stepped s a s' := by
  cases a with
  | room x =>
    obtain ⟨room, hx, rfl⟩ := Option.map_eq_some_iff.mp hs
    exact .room (Sfu.stepped_of_step hx)
  | receiveRTP c packet =>
    simp only [step] at hs
    split_ifs at hs with h
    obtain ⟨⟨d, t⟩, ht, rfl⟩ := Option.map_eq_some_iff.mp h.1
    exact Option.some.inj hs ▸ .receiveRTP ht h.2
  | forward c =>
    obtain ⟨packet, hp, rfl⟩ := Option.map_eq_some_iff.mp hs
    exact .forward hp
  | receiveRTCP c packet =>
    simp only [step] at hs
    split_ifs at hs with h
    exact Option.some.inj hs ▸ .receiveRTCP h.2
  | lookUp c =>
    simp only [step] at hs
    split at hs
    · rename_i packet ssrc rest found hp
      exact Option.some.inj hs ▸ .lookUp hp
    · cases hs
  | send c =>
    simp only [step] at hs
    split at hs
    · rename_i packet found hp
      exact Option.some.inj hs ▸ .send hp
    · cases hs

/-! ### Who sends a track -/

/-- The client sends, or has sent, the track. -/
def SenderOf (r : Room) (ssrc : UInt32) (clientID : String) : Prop :=
  ∃ t, r.tracks.lookup ssrc = some (clientID, t)

structure Sourced (r : Room) : Prop extends Recorded r where
  bySSRC : ∀ {ssrc A}, r.clientIDBySSRC.lookup ssrc = some A → SenderOf r ssrc A
  /-- No client gets its own tracks, in the room or after it has left. -/
  locals : ∀ {B ssrc t}, (r.peer B).localTracks.lookup ssrc = some t →
    ∃ A, r.tracks.lookup ssrc = some (A, t) ∧ A ≠ B

theorem sourced_empty : Sourced Room.empty := by
  refine ⟨recorded_empty, ?_, ?_⟩
  · intro ssrc A h
    cases h
  · intro B ssrc t h
    cases h

section Room

variable {r r' : Room} {x : Sfu.Action}

/-- A track is recorded for good. -/
theorem lookup_tracks_step (hs : Sfu.Stepped r x r') {ssrc : UInt32} {y : String × TrackInfo}
    (h : r.tracks.lookup ssrc = some y) : r'.tracks.lookup ssrc = some y := by
  cases hs with
  | @record c track hc hnew =>
    have hne : ssrc ≠ track.ssrc := by
      rintro rfl
      exact hnew (AList.lookup_isSome.mp (h ▸ rfl))
    exact (AList.lookup_insert_ne hne).trans h
  | handleEvent _ _ =>
    rename_i event _ _
    cases event <;> exact h
  | handleRTCP _ =>
    rename_i packet _ _
    cases packet <;> exact h
  | create | endTrack | close | add | remove | receiveRTP | handleRTP | receiveRTCP => exact h

theorem SenderOf.step {ssrc : UInt32} {A : String} (h : SenderOf r ssrc A) (hs : Sfu.Stepped r x r') :
    SenderOf r' ssrc A := by
  obtain ⟨t, ht⟩ := h
  exact ⟨t, lookup_tracks_step hs ht⟩

/-- Steps that leave the tables. -/
theorem Sourced.congr (h : Sourced r) (hR : Recorded r')
    (htracks : ∀ {ssrc y}, r.tracks.lookup ssrc = some y → r'.tracks.lookup ssrc = some y)
    (hid : r'.clientIDBySSRC = r.clientIDBySSRC)
    (hpeer : ∀ B, (r'.peer B).localTracks = (r.peer B).localTracks) : Sourced r' := by
  refine ⟨hR, ?_, ?_⟩
  · intro ssrc A hA
    rw [hid] at hA
    obtain ⟨t, ht⟩ := h.bySSRC hA
    exact ⟨t, htracks ht⟩
  · intro B ssrc t ht
    rw [hpeer] at ht
    obtain ⟨A, hA, hne⟩ := h.locals ht
    exact ⟨A, htracks hA, hne⟩

theorem Sourced.add {c : String} (h : Sourced r) (hc : c ∉ r.added)
    (hR : Recorded { r.add c with
      added := c :: r.added
      due := r.due ++ r.remoteTracks.map fun track => (c, track.ssrc) }) :
    Sourced { r.add c with
      added := c :: r.added
      due := r.due ++ r.remoteTracks.map fun track => (c, track.ssrc) } := by
  refine ⟨hR, h.bySSRC, ?_⟩
  intro B ssrc t ht
  by_cases hB : B = c
  · subst hB
    simp only [Room.add, Function.update_self] at ht
    rcases lookup_foldl_addTrack _ _ ht with ⟨hmem, rfl⟩ | ht
    · -- the clients in the room have joined before
      obtain ⟨A, hA, ssrc, hl⟩ := mem_remoteTracks.mp hmem
      have hne : A ≠ B := by
        rintro rfl
        exact hc ((h.mem_transports A).mp hA).1
      rw [h.toRecorded.remote_ssrc hl]
      exact ⟨A, (h.sends A).remote hl, hne⟩
    · exact h.locals ht
  · simp only [Room.add, Function.update_of_ne hB] at ht
    exact h.locals ht

theorem takeEvent_localTracks (r : Room) (c B : String) (event : TrackEvent) :
    ((r.takeEvent c event).peer B).localTracks = (r.peer B).localTracks :=
  setPeer_localTracks r c B _ rfl

theorem Sourced.handleEvent {c : String} {event : TrackEvent} (h : Sourced r) (hready : Ready (r.peer c) event)
    (hR : Recorded ((r.takeEvent c event).handleEvent c event)) :
    Sourced ((r.takeEvent c event).handleEvent c event) := by
  cases event with
  | add track =>
    have hsent : r.tracks.lookup track.ssrc = some (c, track) := (h.sends c).sent hready
    refine ⟨hR, ?_, ?_⟩
    · intro ssrc A hA
      rcases lookup_insert_cases hA with ⟨rfl, rfl⟩ | ⟨-, hA⟩
      · exact ⟨track, hsent⟩
      · exact h.bySSRC hA
    · intro B ssrc t ht
      simp only [Room.handleEvent, Room.addTrack] at ht
      split_ifs at ht with hB
      · rcases lookup_insert_cases ht with ⟨rfl, rfl⟩ | ⟨-, ht⟩
        · exact ⟨c, hsent, by simpa using (Ne.symm (of_decide_eq_true (List.mem_filter.mp hB).2))⟩
        · rw [takeEvent_localTracks] at ht
          exact h.locals ht
      · rw [takeEvent_localTracks] at ht
        exact h.locals ht
  | remove track =>
    refine ⟨hR, ?_, ?_⟩
    · intro ssrc A hA
      exact h.bySSRC (lookup_of_lookup_erase hA).2
    · intro B ssrc t ht
      simp only [Room.handleEvent, Room.removeTrack] at ht
      split_ifs at ht with hB
      · have ht' := (lookup_of_lookup_erase ht).2
        rw [takeEvent_localTracks] at ht'
        exact h.locals ht'
      · rw [takeEvent_localTracks] at ht
        exact h.locals ht

theorem Sourced.step (h : Sourced r) (hs : Sfu.Stepped r x r') : Sourced r' := by
  have hR := h.toRecorded.step hs
  have htracks {ssrc : UInt32} {y : String × TrackInfo} (hy : r.tracks.lookup ssrc = some y) :=
    lookup_tracks_step hs hy
  cases hs with
  | add _ hc => exact h.add hc hR
  | handleEvent _ hready => exact h.handleEvent hready hR
  | create => exact h.congr hR htracks rfl fun _ => rfl
  | close => exact h.congr hR htracks rfl fun _ => rfl
  | remove => exact h.congr hR htracks rfl fun _ => rfl
  | record => exact h.congr hR htracks rfl fun B => setPeer_localTracks r _ B _ rfl
  | endTrack => exact h.congr hR htracks rfl fun B => setPeer_localTracks r _ B _ rfl
  | receiveRTP => exact h.congr hR htracks rfl fun B => setPeer_localTracks r _ B _ rfl
  | handleRTP => exact h.congr hR htracks rfl fun B => setPeer_localTracks r _ B _ rfl
  | receiveRTCP => exact h.congr hR htracks rfl fun B => setPeer_localTracks r _ B _ rfl
  | handleRTCP =>
    rename_i packet _ _
    cases packet <;> exact h.congr hR htracks rfl fun B => setPeer_localTracks r _ B _ rfl

theorem Sourced.getTransportBySSRC (h : Sourced r) {ssrc : UInt32} {A : String}
    (hA : getTransportBySSRC r ssrc = some A) : SenderOf r ssrc A := by
  unfold Routing.getTransportBySSRC at hA
  split at hA
  · cases hA
  · rename_i clientID hid
    split_ifs at hA
    exact Option.some.inj hA ▸ h.bySSRC hid

end Room

/-! ### What the buffers ask for -/

/-- A buffer is set up for the track of its packets. -/
def Named (ssrc : UInt32) (b : Jitter.Buffer) : Prop := b.initialized = true ∧ b.ssrc = ssrc

section Buffers

variable {b : Jitter.Buffer} {packet : Packet} {ssrc : UInt32}

theorem Named.clearLoop {ts : UInt32} : ∀ (l : List UInt16) {b : Jitter.Buffer}, Named ssrc b →
    Named ssrc (Jitter.Buffer.clearLoop ts l b)
  | [], _, h => h
  | i :: rest, b, h => by
    rw [Jitter.Buffer.clearLoop]
    split
    · exact Named.clearLoop rest h
    · split_ifs
      · exact h
      · exact Named.clearLoop rest h

/-- The first packet names a new buffer. -/
theorem named_store (hb : b.initialized = false ∨ b.ssrc = packet.ssrc) : Named packet.ssrc (b.store packet) := by
  have hup : Named packet.ssrc (b.setUp packet) := by
    refine ⟨Jitter.Buffer.initialized_setUp b packet, ?_⟩
    unfold Jitter.Buffer.setUp
    split_ifs with hi
    · exact hb.resolve_left (by simp [hi])
    · rfl
  unfold Jitter.Buffer.store Jitter.Buffer.clearOldPackets
  dsimp only
  split_ifs
  · exact Named.clearLoop _ hup
  · exact hup

theorem named_push (hb : b.initialized = false ∨ b.ssrc = packet.ssrc) : Named packet.ssrc (b.push packet).1 := by
  rw [Jitter.Buffer.push_fst]
  exact named_store hb

/-- A push asks for packets of the same track. -/
theorem mediaSSRC_push (hb : b.initialized = false ∨ b.ssrc = packet.ssrc) {nack : TransportLayerNack}
    (h : (b.push packet).2 = some nack) : nack.mediaSSRC = packet.ssrc := by
  unfold Jitter.Buffer.push at h
  dsimp only at h
  split_ifs at h
  obtain rfl := Option.some.inj h
  exact (named_store hb).2

end Buffers

/-- The buffers are named, and hold what was received. -/
structure Holds (j : Jitter.System) (received : String → List Packet) : Prop where
  buffered : Jitter.Buffered j
  pushed : ∀ p ∈ j.pushed, ∃ A, p ∈ received A
  named : ∀ ssrc b, j.jitterBuffer.lookup ssrc = some b → Named ssrc b

theorem Holds.fresh_or_named {j : Jitter.System} {received : String → List Packet} (h : Holds j received)
    (packet : Packet) : ((j.jitterBuffer.lookup packet.ssrc).getD Jitter.Buffer.new).initialized = false ∨
      ((j.jitterBuffer.lookup packet.ssrc).getD Jitter.Buffer.new).ssrc = packet.ssrc := by
  cases hb : j.jitterBuffer.lookup packet.ssrc with
  | none => exact Or.inl rfl
  | some b => exact Or.inr (h.named _ b hb).2

/-! ### The invariant -/

/-- The packets of one client that were written to another as they came. -/
def forwarded (source dest : String) (written : List Write) : List Packet :=
  written.filterMap fun
    | .forward A B p => if A = source ∧ B = dest then some p else none
    | _ => none

/-- A write goes where it should. -/
def Justified (r : Room) (received : String → List Packet) : Write → Prop
  | .forward A B p => A ≠ B ∧ p ∈ received A
  | .resend B p => ∃ A, A ≠ B ∧ p ∈ received A
  | .feedback d packet => ∃ ssrc ∈ packet.ssrcs, SenderOf r ssrc d

structure Routed (s : Relay) : Prop where
  room : Sourced s.room
  read : ∀ A, ∀ p ∈ s.received A, SenderOf s.room p.ssrc A
  jitter : ∀ j, s.jitter = some j → Holds j s.received
  order : ∀ A B, (forwarded A B s.written ++ (s.forwarding A).toList).Sublist (s.received A)
  passing : ∀ c f, s.passing c = some f → (∀ ssrc ∈ f.rest, ssrc ∈ f.packet.ssrcs) ∧
    ∀ d ∈ f.found, ∃ ssrc ∈ f.packet.ssrcs, SenderOf s.room ssrc d
  written : ∀ w ∈ s.written, Justified s.room s.received w

theorem routed_new (jitterBufferEnabled : Bool) : Routed (Relay.new jitterBufferEnabled) := by
  refine ⟨sourced_empty, ?_, ?_, fun A B => List.Sublist.refl _, ?_, ?_⟩
  · intro A p h
    cases h
  · intro j hj
    cases jitterBufferEnabled with
    | false => cases hj
    | true =>
      obtain rfl := Option.some.inj hj
      refine ⟨Jitter.buffered_start, ?_, ?_⟩
      · intro p hp
        cases hp
      · intro ssrc b hb
        cases hb
  · intro c f h
    cases h
  · intro w h
    cases h

section Steps

variable {s : Relay} {c : String}

theorem forwarded_append (A B : String) (l l' : List Write) :
    forwarded A B (l ++ l') = forwarded A B l ++ forwarded A B l' := by
  simp [forwarded]

theorem forwarded_feedback (A B : String) (l : List String) (packet : Feedback) :
    forwarded A B (l.map fun d => .feedback d packet) = [] := by
  simp [forwarded]

theorem Justified.room {r r' : Room} {received : String → List Packet} {w : Write}
    (h : Justified r received w) (hr : ∀ {ssrc A}, SenderOf r ssrc A → SenderOf r' ssrc A) :
    Justified r' received w := by
  cases w with
  | forward A B p => exact h
  | resend B p => exact h
  | feedback d packet =>
    obtain ⟨ssrc, hmem, hsend⟩ := h
    exact ⟨ssrc, hmem, hr hsend⟩

/-- A step of the room changes no sender. -/
theorem Routed.room_step {room : Room} (h : Routed s) (hroom : Sourced room)
    (hr : ∀ {ssrc A}, SenderOf s.room ssrc A → SenderOf room ssrc A) : Routed { s with room } := by
  refine ⟨hroom, fun A p hp => hr (h.read A p hp), h.jitter, h.order, fun c f hf => ?_,
    fun w hw => (h.written w hw).room hr⟩
  obtain ⟨hrest, hfound⟩ := h.passing c f hf
  refine ⟨hrest, fun d hd => ?_⟩
  obtain ⟨ssrc, hmem, hsend⟩ := hfound d hd
  exact ⟨ssrc, hmem, hr hsend⟩

theorem mem_update_append {α : Type*} {f : String → List α} {a x : α} {A : String} :
    x ∈ Function.update f c (f c ++ [a]) A ↔ x ∈ f A ∨ A = c ∧ x = a := by
  by_cases hA : A = c
  · subst hA
    simp
  · simp [hA]

theorem Justified.received {r : Room} {received : String → List Packet} {w : Write}
    (h : Justified r received w) (packet : Packet) :
    Justified r (Function.update received c (received c ++ [packet])) w := by
  cases w with
  | forward A B p => exact ⟨h.1, mem_update_append.mpr (Or.inl h.2)⟩
  | resend B p =>
    obtain ⟨A, hne, hp⟩ := h
    exact ⟨A, hne, mem_update_append.mpr (Or.inl hp)⟩
  | feedback d f => exact h

/-- `HandleRTP` keeps the buffers in order, and asks for packets of the track. -/
theorem Holds.handleRTP {j : Jitter.System} {received : String → List Packet} (h : Holds j received)
    (packet : Packet) :
    (∀ j', (Routing.handleRTP (some j) packet).1 = some j' →
      Holds j' (Function.update received c (received c ++ [packet]))) ∧
    ∀ nack, (Routing.handleRTP (some j) packet).2 = some nack → nack.mediaSSRC = packet.ssrc := by
  refine ⟨fun j' hj' => ⟨h.buffered.step (x := .pushRTP packet) hj', ?_, ?_⟩,
    fun nack hn => mediaSSRC_push (h.fresh_or_named packet) hn⟩
  · obtain rfl := Option.some.inj hj'
    intro p hp
    rcases List.mem_cons.mp hp with rfl | hp
    · exact ⟨c, mem_update_append.mpr (Or.inr ⟨rfl, rfl⟩)⟩
    · obtain ⟨A, hA⟩ := h.pushed p hp
      exact ⟨A, mem_update_append.mpr (Or.inl hA)⟩
  · obtain rfl := Option.some.inj hj'
    intro ssrc b hb
    rcases lookup_insert_cases hb with ⟨rfl, rfl⟩ | ⟨-, hb⟩
    · exact named_push (h.fresh_or_named packet)
    · exact h.named ssrc b hb

theorem Routed.handleRTP (h : Routed s) (packet : Packet) :
    (∀ j', (Routing.handleRTP s.jitter packet).1 = some j' →
      Holds j' (Function.update s.received c (s.received c ++ [packet]))) ∧
    ∀ nack, (Routing.handleRTP s.jitter packet).2 = some nack → nack.mediaSSRC = packet.ssrc := by
  cases hj : s.jitter with
  | none =>
    constructor
    · intro j' hj'
      cases hj'
    · intro nack hn
      cases hn
  | some j => exact (h.jitter j hj).handleRTP packet

theorem Routed.receiveRTP {packet : Packet} (h : Routed s) (hsend : SenderOf s.room packet.ssrc c)
    (hidle : s.forwarding c = none) : Routed (receiveRTP s c packet) := by
  obtain ⟨hjitter, hnack⟩ := h.handleRTP (c := c) packet
  refine ⟨h.room, fun A p hp => ?_, hjitter, fun A B => ?_, h.passing, fun w hw => ?_⟩
  · rcases mem_update_append.mp hp with hp | ⟨rfl, rfl⟩
    · exact h.read A p hp
    · exact hsend
  · have hfeedback : forwarded A B ((Routing.handleRTP s.jitter packet).2.toList.map fun nack =>
        Write.feedback c (.nack nack)) = [] := by simp [forwarded]
    have hold := h.order A B
    simp only [Routing.receiveRTP, forwarded_append, hfeedback, List.append_nil]
    by_cases hA : A = c
    · subst hA
      rw [hidle] at hold
      simp only [Option.toList_none, List.append_nil] at hold
      simp only [Function.update_self, Option.toList_some]
      exact hold.append_right [packet]
    · simpa [hA] using hold
  · rcases List.mem_append.mp hw with hw | hw
    · exact (h.written w hw).received packet
    · obtain ⟨nack, hn, rfl⟩ := List.mem_map.mp hw
      refine ⟨nack.mediaSSRC, List.mem_singleton_self _, ?_⟩
      rw [hnack nack (Option.mem_toList.mp hn)]
      exact hsend

/-- The packet that is written to every client of a list. -/
theorem forwarded_map {l : List String} (hl : l.Nodup) (A B : String) (packet : Packet) :
    forwarded A B (l.map fun other => .forward c other packet) = if A = c ∧ B ∈ l then [packet] else [] := by
  induction l with
  | nil => simp [forwarded]
  | cons d l ih =>
    obtain ⟨hd, hl⟩ := List.nodup_cons.mp hl
    have hcons : forwarded A B ((d :: l).map fun other => .forward c other packet) =
        (if c = A ∧ d = B then [packet] else []) ++
          forwarded A B (l.map fun other => .forward c other packet) := by
      by_cases hcd : c = A ∧ d = B <;> simp [forwarded, hcd]
    rw [hcons, ih hl]
    by_cases hA : A = c
    · subst hA
      by_cases hB : B = d
      · subst hB
        simp [hd]
      · simp [hB, Ne.symm hB]
    · simp [hA, Ne.symm hA]

theorem Routed.nodup_others (h : Routed s) (packet : Packet) :
    ((s.room.others c).filter fun other => HasTrack s.room other packet).Nodup :=
  (h.room.nodup.filter _).filter _

theorem Routed.forward {packet : Packet} (h : Routed s) (hp : s.forwarding c = some packet) :
    Routed (forward s c packet) := by
  refine ⟨h.room, h.read, h.jitter, fun A B => ?_, h.passing, fun w hw => ?_⟩
  · have hold := h.order A B
    simp only [Routing.forward, forwarded_append, forwarded_map (h.nodup_others packet)]
    by_cases hA : A = c
    · subst hA
      rw [hp] at hold
      refine List.Sublist.trans ?_ hold
      simp only [true_and, Function.update_self, Option.toList_none, List.append_nil, Option.toList_some]
      refine List.Sublist.append_left ?_ _
      split_ifs
      · exact List.Sublist.refl _
      · exact List.nil_sublist _
    · simpa [hA] using hold
  · rcases List.mem_append.mp hw with hw | hw
    · exact h.written w hw
    · obtain ⟨other, ho, rfl⟩ := List.mem_map.mp hw
      have hne := (List.mem_filter.mp (List.mem_filter.mp ho).1).2
      refine ⟨fun hc => by simp [hc] at hne, (h.order c c).subset (List.mem_append_right _ ?_)⟩
      rw [hp]
      exact List.mem_singleton_self _

/-- A packet of the buffers is written to a client that gets its track, hence not to its sender. -/
theorem Routed.resend {nack : TransportLayerNack} {packet : Packet} (h : Routed s)
    (hp : packet ∈ (handleNack s.jitter nack).1) (hhas : HasTrack s.room c packet) :
    ∃ A, A ≠ c ∧ packet ∈ s.received A := by
  cases hj : s.jitter with
  | none =>
    rw [hj] at hp
    cases hp
  | some j =>
    rw [hj] at hp
    have hmem : packet ∈ nack.packets.filterMap (j.jitterBuffer.getPacket nack.mediaSSRC) :=
      (Jitter.partitions_handleNack j.jitterBuffer nack).packets ▸ hp
    obtain ⟨sn, -, hsn⟩ := List.mem_filterMap.mp hmem
    obtain ⟨A, hA⟩ := (h.jitter j hj).pushed packet ((h.jitter j hj).buffered _ _ _ hsn).1
    obtain ⟨t, ht⟩ := Option.isSome_iff_exists.mp (AList.lookup_isSome.mpr hhas)
    obtain ⟨A', hA', hne⟩ := h.room.locals ht
    obtain ⟨t', ht'⟩ := h.read A packet hA
    rw [ht'] at hA'
    obtain ⟨rfl, -⟩ := Prod.mk.inj (Option.some.inj hA')
    exact ⟨A, hne, hA⟩

/-- The NACK that goes on is about the same track. -/
theorem mediaSSRC_handleNack {jitter : Option Jitter.System} {nack nack' : TransportLayerNack}
    (h : (handleNack jitter nack).2 = some nack') : nack'.mediaSSRC = nack.mediaSSRC := by
  cases jitter with
  | none => cases h
  | some j => exact ((Jitter.partitions_handleNack j.jitterBuffer nack).forwarded nack' h).2.1

/-- The goroutine of `c` starts to pass a packet on, or is done with it. -/
theorem Routed.setPassing (h : Routed s) {f : Option Passing}
    (hf : ∀ g, f = some g → (∀ ssrc ∈ g.rest, ssrc ∈ g.packet.ssrcs) ∧
      ∀ d ∈ g.found, ∃ ssrc ∈ g.packet.ssrcs, SenderOf s.room ssrc d) :
    Routed { s with passing := Function.update s.passing c f } := by
  refine ⟨h.room, h.read, h.jitter, h.order, fun d g hg => ?_, h.written⟩
  simp only [Function.update_apply] at hg
  split_ifs at hg
  · exact hf g hg
  · exact h.passing d g hg

/-- Writes that are not of the goroutine of RTP packets. -/
theorem Routed.write (h : Routed s) {l : List Write} (hl : ∀ w ∈ l, Justified s.room s.received w)
    (hno : ∀ A B, forwarded A B l = []) : Routed { s with written := s.written ++ l } := by
  refine ⟨h.room, h.read, h.jitter, fun A B => ?_, h.passing, fun w hw => ?_⟩
  · simpa [forwarded_append, hno A B] using h.order A B
  · rcases List.mem_append.mp hw with hw | hw
    · exact h.written w hw
    · exact hl w hw

theorem Routed.receiveRTCP (h : Routed s) (packet : Feedback) : Routed (receiveRTCP s c packet) := by
  cases packet with
  | remb ssrcs bitrate =>
    have hroom : Sourced { s.room with
        trackBitrateEstimators := (s.room.trackBitrateEstimators.estimate c ssrcs bitrate).1 } :=
      h.room.congr (h.room.toRecorded.congr ⟨h.room.created, h.room.mem_transports, h.room.nodup, h.room.removed⟩
        rfl (fun _ hc => hc) (fun _ ha => ha) fun _ => ⟨rfl, rfl⟩) (fun hy => hy) rfl fun _ => rfl
    refine (h.room_step hroom fun hr => hr).setPassing fun g hg => ?_
    obtain rfl := Option.some.inj hg
    exact ⟨fun ssrc hs => hs, by simp⟩
  | pli mediaSSRC =>
    refine h.setPassing fun g hg => ?_
    obtain rfl := Option.some.inj hg
    exact ⟨fun ssrc hs => hs, by simp⟩
  | nack nack =>
    refine Routed.write (h.setPassing fun g hg => ?_) (fun w hw => ?_) fun A B => by simp [forwarded]
    · obtain ⟨nack', hn, rfl⟩ := Option.map_eq_some_iff.mp hg
      refine ⟨fun ssrc hs => ?_, by simp⟩
      rw [List.mem_singleton.mp hs, ← mediaSSRC_handleNack hn]
      exact List.mem_singleton_self _
    obtain ⟨packet, hpk, rfl⟩ := List.mem_map.mp hw
    obtain ⟨hpk, hhas⟩ := List.mem_filter.mp hpk
    exact h.resend hpk (of_decide_eq_true hhas)

theorem Routed.lookUp {packet : Feedback} {ssrc : UInt32} {rest : List UInt32} {found : List String}
    (h : Routed s) (hp : s.passing c = some ⟨packet, ssrc :: rest, found⟩) :
    Routed { s with passing := Function.update s.passing c (some (lookUp s.room packet ssrc rest found)) } := by
  obtain ⟨hrest, hfound⟩ := h.passing c _ hp
  refine h.setPassing fun g hg => ?_
  obtain rfl := Option.some.inj hg
  refine ⟨fun s hs => hrest s (List.mem_cons_of_mem _ hs), fun d hd => ?_⟩
  simp only [Routing.lookUp] at hd
  cases ht : getTransportBySSRC s.room ssrc with
  | none =>
    rw [ht] at hd
    exact hfound d hd
  | some e =>
    rw [ht, insertFound] at hd
    have hd' : d ∈ found ∨ d = e := by
      split_ifs at hd
      · exact Or.inl hd
      · simpa using hd
    rcases hd' with hd' | rfl
    · exact hfound d hd'
    · exact ⟨ssrc, hrest ssrc List.mem_cons_self, h.room.getTransportBySSRC ht⟩

theorem Routed.send {packet : Feedback} {found : List String} (h : Routed s)
    (hp : s.passing c = some ⟨packet, [], found⟩) :
    Routed { s with
      passing := Function.update s.passing c none
      written := s.written ++ found.map fun clientID => .feedback clientID packet } := by
  obtain ⟨-, hfound⟩ := h.passing c _ hp
  have hidle : Routed { s with passing := Function.update s.passing c none } :=
    h.setPassing fun g hg => by cases hg
  refine hidle.write (fun w hw => ?_) fun A B => forwarded_feedback A B found packet
  obtain ⟨d, hd, rfl⟩ := List.mem_map.mp hw
  exact hfound d hd

/-- **Step lemma.** -/
theorem Routed.step {s' : Relay} {a : Action} (h : Routed s) (hs : Stepped s a s') : Routed s' := by
  cases hs with
  | room hx => exact h.room_step (h.room.step hx) fun hr => hr.step hx
  | receiveRTP ht hidle => exact h.receiveRTP ⟨_, ht⟩ hidle
  | forward hp => exact h.forward hp
  | receiveRTCP => exact h.receiveRTCP _
  | lookUp hp => exact h.lookUp hp
  | send hp => exact h.send hp

end Steps

theorem routed_of_reach {s : Relay} {jitterBufferEnabled : Bool} {ok : Relay → Action → Prop}
    (h : Reach step ok (Relay.new jitterBufferEnabled) s) : Routed s :=
  h.invariant (routed_new jitterBufferEnabled) fun _ _ _ hI _ hs => hI.step (stepped_of_step hs)

/-- When a packet of `A` is forwarded, `B` is in the room and gets its track. -/
def Reaches (A B : String) (s : Relay) : Action → Prop
  | .forward c => c = A → B ∈ s.room.transports ∧ ∀ p ∈ s.forwarding A, HasTrack s.room B p
  | _ => True

instance (A B : String) : DecidableRel (Reaches A B)
  | s, .forward c => inferInstanceAs (Decidable (c = A → B ∈ s.room.transports ∧
      ∀ p ∈ s.forwarding A, HasTrack s.room B p))
  | _, .room _ | _, .receiveRTP _ _ | _, .receiveRTCP _ _ | _, .lookUp _ | _, .send _ => isTrue trivial

/-- What is forwarded, and then the packet at hand, are all that was received. -/
def Complete (A B : String) (s : Relay) : Prop :=
  forwarded A B s.written ++ (s.forwarding A).toList = s.received A

theorem Complete.step {A B : String} {s s' : Relay} {a : Action} (h : Complete A B s) (hR : Routed s)
    (hne : A ≠ B) (hok : Reaches A B s a) (hs : Stepped s a s') : Complete A B s' := by
  unfold Complete at h ⊢
  cases hs with
  | room => exact h
  | lookUp => exact h
  | @send c packet found =>
    rw [forwarded_append, forwarded_feedback, List.append_nil]
    exact h
  | @receiveRTP c packet t ht hidle =>
    have hfeedback : forwarded A B ((handleRTP s.jitter packet).2.toList.map fun nack =>
        Write.feedback c (.nack nack)) = [] := by simp [forwarded]
    simp only [receiveRTP, forwarded_append, hfeedback, List.append_nil]
    by_cases hA : A = c
    · subst hA
      rw [hidle] at h
      simp only [Option.toList_none, List.append_nil] at h
      simp [h]
    · simpa [hA] using h
  | @forward c packet hp =>
    simp only [forward, forwarded_append, forwarded_map (hR.nodup_others packet)]
    by_cases hA : A = c
    · subst hA
      obtain ⟨hB, hhas⟩ := hok rfl
      rw [hp] at h
      have hmem : B ∈ (s.room.others A).filter fun other => HasTrack s.room other packet := by
        refine List.mem_filter.mpr ⟨List.mem_filter.mpr ⟨hB, by simpa using hne.symm⟩, ?_⟩
        simpa using hhas packet hp
      simpa [hmem] using h
    · simpa [hA] using h
  | @receiveRTCP c packet =>
    cases packet with
    | remb | pli => exact h
    | nack nack =>
      have hresend : forwarded A B (((handleNack s.jitter nack).1.filter fun packet =>
          HasTrack s.room c packet).map (.resend c)) = [] := by simp [forwarded]
      simp only [receiveRTCP, forwarded_append, hresend, List.append_nil]
      exact h

/-- Nothing is sent again without a jitter buffer. -/
structure Unbuffered (s : Relay) : Prop where
  jitter : s.jitter = none
  resent : ∀ d p, Write.resend d p ∉ s.written

theorem Unbuffered.step {s s' : Relay} {a : Action} (h : Unbuffered s) (hs : Stepped s a s') : Unbuffered s' := by
  have hj := h.jitter
  -- a step writes something else, or nothing
  have hwrite : ∀ l : List Write, (∀ d p, Write.resend d p ∉ l) → ∀ d p, Write.resend d p ∉ s.written ++ l := by
    intro l hl d p hmem
    rcases List.mem_append.mp hmem with hmem | hmem
    · exact h.resent d p hmem
    · exact hl d p hmem
  cases hs with
  | room => exact ⟨hj, h.resent⟩
  | lookUp => exact ⟨hj, h.resent⟩
  | send => exact ⟨hj, hwrite _ (by simp)⟩
  | forward => exact ⟨hj, hwrite _ (by simp)⟩
  | receiveRTP =>
    refine ⟨?_, hwrite _ (by simp)⟩
    simp only [receiveRTP, handleRTP, hj]
  | @receiveRTCP c packet =>
    cases packet with
    | remb | pli => exact ⟨hj, h.resent⟩
    | nack nack =>
      refine ⟨hj, hwrite _ ?_⟩
      simp [handleNack, hj]

end Meeting.Sfu.Routing
