import Meeting.Lib.Runs
import Meeting.Streams.Recording

/-!
# Meeting.Streams.LocalTracks — sending local tracks to the peers (`reducers/peers.ts`, `PeerActions.ts`)

Two places add local tracks to a peer.  The peers reducer adds a new stream to every peer in the store
(`handleLocalMediaStream`), and `handleConnect` adds all local streams to the peer that is connected.  A peer is in
the store before it is connected, so that a stream which comes in between is added twice.  The reducer also keeps
a copy of the local streams of its own, a variable of the module, from which nothing is ever removed.

`addTrack` and `removeTrack` are those of `simple-peer`: it has a sender for every track and stream that were added,
and throws when they are added again, removed or not.  `handleConnect` stops there; the reducer catches the
errors of `removeTrack` only.

* `Sending`: no track is added twice, and the peers that are connected are sent the local tracks;
* `sent_once`: along the runs in which peers are connected with nothing sent before and streams are removed as they
  are stored (`Orderly`), and exactly as long as this is so;
* `sent_twice`: a stream comes between the creation of a peer and its connection.
-/

namespace Meeting.Streams.LocalTracks

open Lib

/-! ### Peers -/

/-- A track, with the stream that it is sent in. -/
abbrev Sent := String × String

/-- The tracks of a local stream, as they are sent. -/
def sentOf (stream : LocalStream) : List Sent := stream.stream.tracks.map fun track => (track, stream.streamId)

/-- A peer of `simple-peer`. -/
structure Peer where
  /-- The calls of `addTrack`. -/
  calls : List Sent
  /-- The senders; true when it was removed. -/
  senders : AList fun _ : Sent => Bool
  /-- The `connect` event was handled. -/
  connected : Bool

def Peer.new : Peer := ⟨[], ∅, false⟩

/-- `addTrack` for several tracks; false when one of the calls throws, after which no more are made. -/
def Peer.addTracks (p : Peer) : List Sent → Peer × Bool
  | [] => (p, true)
  | x :: rest =>
    if x ∈ p.senders then ({ p with calls := p.calls ++ [x] }, false)
    else Peer.addTracks { p with calls := p.calls ++ [x], senders := p.senders.insert x false } rest

/-- `removeTrackFromPeer`: that there is no sender is only logged. -/
def Peer.removeTrack (p : Peer) (x : Sent) : Peer :=
  if x ∈ p.senders then { p with senders := p.senders.insert x true } else p

/-- A sender that was not removed. -/
def Peer.Live (p : Peer) (x : Sent) : Prop := p.senders.lookup x = some false

/-! ### The client -/

structure Client where
  peers : List (String × Peer)
  /-- The `localStreams` of the module of the peers reducer. -/
  copies : AList fun _ : StreamType => LocalStream
  streams : LocalState
  /-- The ids of the streams that there have been. -/
  used : List String

def Client.default : Client := ⟨[], ∅, .default, []⟩

/-- The tracks of a local stream of the store or of the copies, when there is one. -/
def sentAt (streams : AList fun _ : StreamType => LocalStream) (type : StreamType) : List Sent :=
  ((streams.lookup type).map sentOf).getD []

/-- The tracks of all local streams, in the order of the record. -/
def current (s : Client) : List Sent := s.streams.localStreams.entries.flatMap fun x => sentOf x.2

def handleRemoveLocalStream (stream : LocalStream) (peers : List (String × Peer)) : List (String × Peer) :=
  peers.map fun x => (x.1, (sentOf stream).foldl Peer.removeTrack x.2)

/-- The loop of `handleLocalMediaStream`; false when it throws. -/
def handleLocalMediaStream (old : List Sent) (stream : LocalStream) :
    List (String × Peer) → List (String × Peer) × Bool
  | [] => ([], true)
  | x :: rest =>
    let r := (old.foldl Peer.removeTrack x.2).addTracks (sentOf stream)
    if r.2 then
      let rs := handleLocalMediaStream old stream rest
      ((x.1, r.1) :: rs.1, rs.2)
    else ((x.1, r.1) :: rest, false)

def handleConnect (s : Client) (p : Peer) : Peer := { (p.addTracks (current s)).1 with connected := true }

inductive Action where
  /-- `createPeer`, for a user that has no peer in the store. -/
  | peerAdd (userId : String)
  /-- The `connect` event of a peer, which comes once. -/
  | connect (userId : String)
  /-- `MEDIA_STREAM`, resolved with a new stream. -/
  | mediaStream (type : StreamType) (stream : LocalStream)
  /-- `STREAM_REMOVE`. -/
  | streamRemove (stream : LocalStream) (type : StreamType)
  deriving DecidableEq

/-- The peers reducer comes before the streams reducer, which does not run when the first one throws. -/
def step (s : Client) : Action → Option Client
  | .peerAdd userId =>
    if userId ∈ s.peers.map Prod.fst then none else some { s with peers := s.peers ++ [(userId, .new)] }
  | .connect userId =>
    if ∃ x ∈ s.peers, x.1 = userId ∧ x.2.connected = false then
      some { s with peers := s.peers.map fun x =>
        if x.1 = userId ∧ x.2.connected = false then (x.1, handleConnect s x.2) else x }
    else none
  | .mediaStream type stream =>
    if stream.streamId ∈ s.used then none
    else
      let r := handleLocalMediaStream (sentAt s.copies type) stream s.peers
      if r.2 then
        some { s with
          peers := r.1
          copies := s.copies.insert type stream
          streams := (addLocalStream s.streams type stream false).getD s.streams
          used := stream.streamId :: s.used }
      else some { s with peers := r.1, used := stream.streamId :: s.used }
  | .streamRemove stream type =>
    some { s with
      peers := handleRemoveLocalStream stream s.peers
      streams := (removeLocalStream s.streams type false).getD s.streams }

/-! ### The tracks that are sent, and when they are right -/

/-- No track is added twice, and the peers that are connected are sent the local tracks and no others. -/
structure Sending (s : Client) : Prop where
  once : ∀ x ∈ s.peers, x.2.calls.Nodup
  exact : ∀ x ∈ s.peers, x.2.connected = true → ∀ y, x.2.Live y ↔ y ∈ current s

/-- A peer is connected when nothing is sent to it and no local track was; once one is connected, the stream that is
removed has the tracks of the local stream of its type. -/
def Orderly (s : Client) : Action → Prop
  | .connect userId => ∀ x ∈ s.peers, x.1 = userId → x.2.connected = false →
      ∀ y ∈ x.2.senders.entries, y.2 = true ∧ y.1 ∉ current s
  | .streamRemove stream type => (∃ x ∈ s.peers, x.2.connected = true) →
      ∀ y ∈ current s, y ∈ sentOf stream ↔ y ∈ sentAt s.streams.localStreams type
  | _ => True

instance : DecidableRel Orderly
  | s, .connect userId => inferInstanceAs (Decidable (∀ x ∈ s.peers, x.1 = userId → x.2.connected = false →
      ∀ y ∈ x.2.senders.entries, y.2 = true ∧ y.1 ∉ current s))
  | s, .streamRemove stream type => inferInstanceAs (Decidable ((∃ x ∈ s.peers, x.2.connected = true) →
      ∀ y ∈ current s, y ∈ sentOf stream ↔ y ∈ sentAt s.streams.localStreams type))
  | _, .peerAdd _ | _, .mediaStream _ _ => isTrue trivial

/-! ### One peer -/

section Peer

variable {p : Peer}

theorem foldl_removeTrack (l : List Sent) : ∀ p : Peer,
    (l.foldl Peer.removeTrack p).calls = p.calls ∧ (l.foldl Peer.removeTrack p).connected = p.connected ∧
      ∀ y, (l.foldl Peer.removeTrack p).senders.lookup y =
        if y ∈ l then (p.senders.lookup y).map (fun _ => true) else p.senders.lookup y := by
  induction l with
  | nil => exact fun p => ⟨rfl, rfl, fun y => by simp⟩
  | cons x l ih =>
    intro p
    rw [List.foldl_cons]
    obtain ⟨hcalls, hconn, hlookup⟩ := ih (p.removeTrack x)
    have hx : (p.removeTrack x).calls = p.calls ∧ (p.removeTrack x).connected = p.connected ∧
        ∀ y, (p.removeTrack x).senders.lookup y =
          if y = x then (p.senders.lookup y).map (fun _ => true) else p.senders.lookup y := by
      unfold Peer.removeTrack
      split_ifs with hmem
      · refine ⟨rfl, rfl, fun y => ?_⟩
        obtain ⟨b, hb⟩ := Option.isSome_iff_exists.mp (AList.lookup_isSome.mpr hmem)
        split_ifs with hy
        · rw [hy, hb, AList.lookup_insert, Option.map_some]
        · rw [AList.lookup_insert_ne hy]
      · refine ⟨rfl, rfl, fun y => ?_⟩
        split_ifs with hy
        · rw [hy, AList.lookup_eq_none.mpr hmem, Option.map_none]
        · rfl
    refine ⟨hcalls.trans hx.1, hconn.trans hx.2.1, fun y => ?_⟩
    rw [hlookup, hx.2.2]
    by_cases hy : y = x <;> by_cases hl : y ∈ l <;> simp [hy, hl, Option.map_map, Function.comp_def]

/-- Tracks that are not there yet are all added. -/
theorem addTracks_new (l : List Sent) : ∀ p : Peer, l.Nodup → (∀ y ∈ l, y ∉ p.senders) →
    (p.addTracks l).2 = true ∧ (p.addTracks l).1.calls = p.calls ++ l ∧
      (p.addTracks l).1.connected = p.connected ∧
      ∀ y, (p.addTracks l).1.senders.lookup y = if y ∈ l then some false else p.senders.lookup y := by
  induction l with
  | nil => exact fun p _ _ => ⟨rfl, (List.append_nil _).symm, rfl, fun y => by simp [Peer.addTracks]⟩
  | cons x l ih =>
    intro p hnd hnew
    obtain ⟨hx, hnd⟩ := List.nodup_cons.mp hnd
    have hrest : ∀ y ∈ l, y ∉ p.senders.insert x false := by
      intro y hy hmem
      rcases (AList.mem_insert _).mp hmem with rfl | hmem
      · exact hx hy
      · exact hnew y (List.mem_cons_of_mem _ hy) hmem
    obtain ⟨hok, hcalls, hconn, hlookup⟩ :=
      ih { p with calls := p.calls ++ [x], senders := p.senders.insert x false } hnd hrest
    rw [Peer.addTracks, if_neg (hnew x List.mem_cons_self)]
    refine ⟨hok, by rw [hcalls, List.append_assoc, List.singleton_append], hconn, fun y => ?_⟩
    rw [hlookup]
    by_cases hy : y = x
    · subst hy
      simp [hx]
    · simp [hy, AList.lookup_insert_ne hy]

/-- A track that is there already is added once more, before the loop stops. -/
theorem addTracks_again (l : List Sent) : ∀ p : Peer, (∀ y ∈ p.senders, y ∈ p.calls) →
    (∃ y ∈ l, y ∈ p.senders) → ¬ (p.addTracks l).1.calls.Nodup := by
  induction l with
  | nil => exact fun p _ ⟨y, hy, _⟩ => absurd hy List.not_mem_nil
  | cons x l ih =>
    rintro p hcalls ⟨y, hy, hmem⟩
    rw [Peer.addTracks]
    split_ifs with hx
    · intro hnd
      have hdisj := (List.nodup_append.mp hnd).2.2
      exact hdisj x (hcalls x hx) x (List.mem_singleton_self x) rfl
    · refine ih _ ?_ ?_
      · intro z hz
        rcases (AList.mem_insert _).mp hz with rfl | hz
        · exact List.mem_append_right _ (List.mem_singleton_self _)
        · exact List.mem_append_left _ (hcalls z hz)
      · rcases List.mem_cons.mp hy with rfl | hy
        · exact absurd hmem hx
        · exact ⟨y, hy, (AList.mem_insert _).mpr (Or.inr hmem)⟩

theorem live_removeTracks (l : List Sent) (y : Sent) :
    (l.foldl Peer.removeTrack p).Live y ↔ p.Live y ∧ y ∉ l := by
  unfold Peer.Live
  rw [(foldl_removeTrack l p).2.2]
  split_ifs with hy
  · cases p.senders.lookup y <;> simp [hy]
  · simp [hy]

end Peer

/-- The tracks of a stream are sent in it, each once. -/
theorem snd_of_mem_sentOf {stream : LocalStream} {y : Sent} (h : y ∈ sentOf stream) : y.2 = stream.streamId := by
  obtain ⟨track, -, rfl⟩ := List.mem_map.mp h
  rfl

theorem nodup_sentOf (stream : LocalStream) : (sentOf stream).Nodup :=
  stream.stream.nodup.map fun _ _ h => (Prod.mk.inj h).1

/-- A stream that was added to no peer is added to all of them. -/
theorem handleLocalMediaStream_new (old : List Sent) (stream : LocalStream) :
    ∀ peers : List (String × Peer), (∀ x ∈ peers, ∀ y ∈ sentOf stream, y ∉ x.2.senders) →
      handleLocalMediaStream old stream peers =
        (peers.map fun x => (x.1, ((old.foldl Peer.removeTrack x.2).addTracks (sentOf stream)).1), true)
  | [], _ => rfl
  | x :: peers, h => by
    have hnew : ∀ y ∈ sentOf stream, y ∉ (old.foldl Peer.removeTrack x.2).senders := by
      intro y hy hmem
      have hx := h x List.mem_cons_self y hy
      rw [← AList.lookup_isSome, (foldl_removeTrack old x.2).2.2, AList.lookup_eq_none.mpr hx] at hmem
      simp at hmem
    have hrest := handleLocalMediaStream_new old stream peers fun x' hx' => h x' (List.mem_cons_of_mem _ hx')
    rw [handleLocalMediaStream, if_pos (addTracks_new _ _ (nodup_sentOf stream) hnew).1, hrest, List.map_cons]

/-! ### The invariant -/

theorem mem_sentAt {streams : AList fun _ : StreamType => LocalStream} {type : StreamType} {y : Sent} :
    y ∈ sentAt streams type ↔ ∃ stream, streams.lookup type = some stream ∧ y ∈ sentOf stream := by
  unfold sentAt
  cases streams.lookup type <;> simp

theorem mem_current {s : Client} {y : Sent} :
    y ∈ current s ↔ ∃ type, y ∈ sentAt s.streams.localStreams type := by
  unfold current
  rw [List.mem_flatMap]
  constructor
  · rintro ⟨x, hx, hy⟩
    exact ⟨x.1, mem_sentAt.mpr ⟨x.2, AList.mem_lookup_iff.mpr hx, hy⟩⟩
  · rintro ⟨type, hy⟩
    obtain ⟨stream, hl, hy⟩ := mem_sentAt.mp hy
    exact ⟨⟨type, stream⟩, AList.mem_lookup_iff.mp hl, hy⟩

structure Kept (s : Client) : Prop where
  notRecording : s.streams.isRecording = false
  /-- There is a sender for every call. -/
  senders : ∀ x ∈ s.peers, ∀ y, y ∈ x.2.calls ↔ y ∈ x.2.senders
  used : ∀ x ∈ s.peers, ∀ y ∈ x.2.calls, y.2 ∈ s.used
  /-- The copies have every local stream. -/
  copied : ∀ type stream, s.streams.localStreams.lookup type = some stream →
    s.copies.lookup type = some stream
  copies_used : ∀ type stream, s.copies.lookup type = some stream → stream.streamId ∈ s.used
  distinct : ∀ type type' stream stream', s.copies.lookup type = some stream →
    s.copies.lookup type' = some stream' → stream.streamId = stream'.streamId → type = type'

theorem kept_default : Kept .default := by
  refine ⟨rfl, ?_, ?_, ?_, ?_, ?_⟩
  · intro x hx
    cases hx
  · intro x hx
    cases hx
  · intro type stream h
    cases h
  · intro type stream h
    cases h
  · intro type type' stream stream' h
    cases h

theorem sending_default : Sending .default := by
  refine ⟨?_, ?_⟩
  · intro x hx
    cases hx
  · intro x hx
    cases hx

section Kept

variable {s : Client}

/-- Streams of different types have no track in common. -/
theorem Kept.type_eq (h : Kept s) {type type' : StreamType} {y : Sent} (hy : y ∈ sentAt s.copies type)
    (hy' : y ∈ sentAt s.copies type') : type = type' := by
  obtain ⟨stream, hl, hy⟩ := mem_sentAt.mp hy
  obtain ⟨stream', hl', hy'⟩ := mem_sentAt.mp hy'
  exact h.distinct type type' stream stream' hl hl' ((snd_of_mem_sentOf hy).symm.trans (snd_of_mem_sentOf hy'))

theorem Kept.sentAt_copies (h : Kept s) {type : StreamType} {y : Sent}
    (hy : y ∈ sentAt s.streams.localStreams type) : y ∈ sentAt s.copies type := by
  obtain ⟨stream, hl, hy⟩ := mem_sentAt.mp hy
  exact mem_sentAt.mpr ⟨stream, h.copied type stream hl, hy⟩

theorem Kept.nodup_current (h : Kept s) : (current s).Nodup := by
  unfold current
  rw [List.nodup_flatMap]
  refine ⟨fun x _ => nodup_sentOf x.2, ?_⟩
  have hkeys : s.streams.localStreams.entries.Pairwise fun a b => a.1 ≠ b.1 :=
    List.pairwise_map.mp s.streams.localStreams.nodupKeys
  refine List.Pairwise.imp_of_mem ?_ hkeys
  intro a b ha hb hab y hya hyb
  have hya : y ∈ sentAt s.streams.localStreams a.1 := mem_sentAt.mpr ⟨a.2, AList.mem_lookup_iff.mpr ha, hya⟩
  have hyb : y ∈ sentAt s.streams.localStreams b.1 := mem_sentAt.mpr ⟨b.2, AList.mem_lookup_iff.mpr hb, hyb⟩
  exact hab (h.type_eq (h.sentAt_copies hya) (h.sentAt_copies hyb))

theorem Kept.peerAdd (h : Kept s) (userId : String) :
    Kept { s with peers := s.peers ++ [(userId, .new)] } := by
  refine ⟨h.notRecording, ?_, ?_, h.copied, h.copies_used, h.distinct⟩
  · intro x hx y
    rcases List.mem_append.mp hx with hx | hx
    · exact h.senders x hx y
    · rw [List.mem_singleton.mp hx]
      exact ⟨fun hy => absurd hy List.not_mem_nil, fun hy => absurd hy (AList.notMem_empty y)⟩
  · intro x hx y hy
    rcases List.mem_append.mp hx with hx | hx
    · exact h.used x hx y hy
    · rw [List.mem_singleton.mp hx] at hy
      cases hy

theorem sending_peerAdd (hS : Sending s) (userId : String) :
    Sending { s with peers := s.peers ++ [(userId, .new)] } := by
  refine ⟨fun x hx => ?_, fun x hx hconn => ?_⟩
  · rcases List.mem_append.mp hx with hx | hx
    · exact hS.once x hx
    · rw [List.mem_singleton.mp hx]
      exact List.nodup_nil
  · rcases List.mem_append.mp hx with hx | hx
    · exact hS.exact x hx hconn
    · rw [List.mem_singleton.mp hx] at hconn
      cases hconn

/-! ### `connect` -/

/-- The peers after the `connect` event of one of them. -/
def connectPeer (s : Client) (userId : String) (x : String × Peer) : String × Peer :=
  if x.1 = userId ∧ x.2.connected = false then (x.1, handleConnect s x.2) else x

/-- A peer to which no local track was added gets all of them. -/
theorem Kept.handleConnect_new (h : Kept s) {p : Peer} (hnew : ∀ y ∈ current s, y ∉ p.senders) :
    (handleConnect s p).calls = p.calls ++ current s ∧
      ∀ y, (handleConnect s p).senders.lookup y = if y ∈ current s then some false else p.senders.lookup y := by
  obtain ⟨-, hcalls, -, hlookup⟩ := addTracks_new (current s) p h.nodup_current hnew
  exact ⟨hcalls, hlookup⟩

theorem live_of_mem_current {p : Peer} {y : Sent}
    (hlookup : ∀ y, (handleConnect s p).senders.lookup y =
      if y ∈ current s then some false else p.senders.lookup y) :
    (handleConnect s p).Live y ↔ y ∈ current s ∨ p.Live y := by
  unfold Peer.Live
  rw [hlookup]
  split_ifs with hy <;> simp [hy]

/-- The condition on the peer that is connected. -/
def Unsent (s : Client) (p : Peer) : Prop := ∀ y ∈ p.senders.entries, y.2 = true ∧ y.1 ∉ current s

theorem Unsent.new {p : Peer} (hU : Unsent s p) : ∀ y ∈ current s, y ∉ p.senders := by
  intro y hy hmem
  obtain ⟨b, hb⟩ := Option.isSome_iff_exists.mp (AList.lookup_isSome.mpr hmem)
  exact (hU ⟨y, b⟩ (AList.mem_lookup_iff.mp hb)).2 hy

/-- **One `connect` event**: the peer that is connected is sent the local tracks, each once, exactly if the tracks that it
was given before are all removed and none of them is local. -/
theorem Kept.unsent_iff (h : Kept s) {x : String × Peer} (hx : x ∈ s.peers) (hnd : x.2.calls.Nodup) :
    ((handleConnect s x.2).calls.Nodup ∧ ∀ y, (handleConnect s x.2).Live y ↔ y ∈ current s) ↔
      Unsent s x.2 := by
  constructor
  · rintro ⟨honce, hexact⟩
    have hnew : ∀ y ∈ current s, y ∉ x.2.senders := by
      intro y hy hmem
      refine addTracks_again (current s) x.2 (fun z hz => (h.senders x hx z).mpr hz) ⟨y, hy, hmem⟩ ?_
      exact honce
    obtain ⟨-, hlookup⟩ := h.handleConnect_new hnew
    intro y hy
    have hl : x.2.senders.lookup y.1 = some y.2 := AList.mem_lookup_iff.mpr hy
    have hcur : y.1 ∉ current s := fun hc => hnew y.1 hc (AList.lookup_isSome.mp (hl ▸ rfl))
    refine ⟨?_, hcur⟩
    by_contra hlive
    rw [Bool.not_eq_true] at hlive
    rw [hlive] at hl
    exact hcur ((hexact y.1).mp ((live_of_mem_current hlookup).mpr (Or.inr hl)))
  · intro hU
    obtain ⟨hcalls, hlookup⟩ := h.handleConnect_new hU.new
    refine ⟨?_, fun y => ?_⟩
    · rw [hcalls, List.nodup_append]
      refine ⟨hnd, h.nodup_current, fun a ha b hb hab => ?_⟩
      exact hU.new b hb ((h.senders x hx b).mp (hab ▸ ha))
    · rw [live_of_mem_current hlookup, or_iff_left_iff_imp]
      intro hl
      exact absurd (hU ⟨y, false⟩ (AList.mem_lookup_iff.mp hl)).1 nofun

end Kept

section Steps

variable {s : Client} {type : StreamType} {stream : LocalStream}

theorem Kept.current_used (h : Kept s) {y : Sent} (hy : y ∈ current s) : y.2 ∈ s.used := by
  obtain ⟨type, hy⟩ := mem_current.mp hy
  obtain ⟨stream, hl, hy⟩ := mem_sentAt.mp hy
  rw [snd_of_mem_sentOf hy]
  exact h.copies_used type stream (h.copied type stream hl)

theorem Kept.connect {userId : String} (h : Kept s) (hok : Orderly s (.connect userId)) :
    Kept { s with peers := s.peers.map (connectPeer s userId) } := by
  refine ⟨h.notRecording, ?_, ?_, h.copied, h.copies_used, h.distinct⟩
  · intro x' hx' y
    obtain ⟨x, hx, rfl⟩ := List.mem_map.mp hx'
    unfold connectPeer
    split_ifs with hc
    · have hU : Unsent s x.2 := hok x hx hc.1 hc.2
      obtain ⟨hcalls, hlookup⟩ := h.handleConnect_new hU.new
      rw [hcalls, List.mem_append, ← AList.lookup_isSome, hlookup, h.senders x hx y, ← AList.lookup_isSome]
      split_ifs with hy <;> simp [hy]
    · exact h.senders x hx y
  · intro x' hx' y hy
    obtain ⟨x, hx, rfl⟩ := List.mem_map.mp hx'
    unfold connectPeer at hy
    split_ifs at hy with hc
    · have hU : Unsent s x.2 := hok x hx hc.1 hc.2
      rw [(h.handleConnect_new hU.new).1, List.mem_append] at hy
      rcases hy with hy | hy
      · exact h.used x hx y hy
      · exact h.current_used hy
    · exact h.used x hx y hy

theorem Kept.sending_connect {userId : String} (h : Kept s) (hS : Sending s) :
    Sending { s with peers := s.peers.map (connectPeer s userId) } ↔ Orderly s (.connect userId) := by
  constructor
  · intro hS' x hx hid hconn
    have hx' : (x.1, handleConnect s x.2) ∈ s.peers.map (connectPeer s userId) :=
      List.mem_map.mpr ⟨x, hx, if_pos ⟨hid, hconn⟩⟩
    exact (h.unsent_iff hx (hS.once x hx)).mp ⟨hS'.once _ hx', hS'.exact _ hx' rfl⟩
  · intro hok
    have hpeer : ∀ x ∈ s.peers, x.1 = userId ∧ x.2.connected = false →
        (handleConnect s x.2).calls.Nodup ∧ ∀ y, (handleConnect s x.2).Live y ↔ y ∈ current s :=
      fun x hx hc => (h.unsent_iff hx (hS.once x hx)).mpr (hok x hx hc.1 hc.2)
    refine ⟨fun x' hx' => ?_, fun x' hx' hconn => ?_⟩
    · obtain ⟨x, hx, rfl⟩ := List.mem_map.mp hx'
      unfold connectPeer
      split_ifs with hc
      · exact (hpeer x hx hc).1
      · exact hS.once x hx
    · obtain ⟨x, hx, rfl⟩ := List.mem_map.mp hx'
      unfold connectPeer at hconn ⊢
      split_ifs at hconn ⊢ with hc
      · exact (hpeer x hx hc).2
      · exact hS.exact x hx hconn

/-! ### `MEDIA_STREAM` -/

/-- A peer after a new stream has taken the place of an old one. -/
def sendStream (old : List Sent) (stream : LocalStream) (p : Peer) : Peer :=
  ((old.foldl Peer.removeTrack p).addTracks (sentOf stream)).1

theorem Kept.fresh (h : Kept s) (hnew : stream.streamId ∉ s.used) {x : String × Peer} (hx : x ∈ s.peers)
    {y : Sent} (hy : y ∈ sentOf stream) : y ∉ x.2.senders := by
  intro hmem
  have hused := h.used x hx y ((h.senders x hx y).mpr hmem)
  rw [snd_of_mem_sentOf hy] at hused
  exact hnew hused

theorem Kept.sendStream_spec (h : Kept s) (hnew : stream.streamId ∉ s.used) (old : List Sent)
    {x : String × Peer} (hx : x ∈ s.peers) :
    (sendStream old stream x.2).calls = x.2.calls ++ sentOf stream ∧
      (sendStream old stream x.2).connected = x.2.connected ∧
      ∀ y, (sendStream old stream x.2).senders.lookup y = if y ∈ sentOf stream then some false
        else (old.foldl Peer.removeTrack x.2).senders.lookup y := by
  obtain ⟨hcalls, hconn, hlookup⟩ := foldl_removeTrack old x.2
  have hfresh : ∀ y ∈ sentOf stream, y ∉ (old.foldl Peer.removeTrack x.2).senders := by
    intro y hy hmem
    rw [← AList.lookup_isSome, hlookup, AList.lookup_eq_none.mpr (h.fresh hnew hx hy)] at hmem
    simp at hmem
  obtain ⟨-, hcalls', hconn', hlookup'⟩ := addTracks_new _ _ (nodup_sentOf stream) hfresh
  exact ⟨hcalls'.trans (by rw [hcalls]), hconn'.trans hconn, hlookup'⟩

/-- The state after a new stream. -/
def withStream (s : Client) (type : StreamType) (stream : LocalStream) : Client where
  peers := s.peers.map fun x => (x.1, sendStream (sentAt s.copies type) stream x.2)
  copies := s.copies.insert type stream
  streams := { s.streams with localStreams := assign s.streams.localStreams type stream }
  used := stream.streamId :: s.used

theorem Kept.step_mediaStream (h : Kept s) (hnew : stream.streamId ∉ s.used) :
    step s (.mediaStream type stream) = some (withStream s type stream) := by
  have hpeers := handleLocalMediaStream_new (sentAt s.copies type) stream s.peers
    fun x hx y hy => h.fresh hnew hx hy
  have hstreams : addLocalStream s.streams type stream false =
      some { s.streams with localStreams := assign s.streams.localStreams type stream } := by
    unfold addLocalStream
    exact if_neg (by simp [h.notRecording])
  simp only [step, if_neg hnew, hpeers, hstreams, if_true]
  rfl

theorem Kept.mediaStream (h : Kept s) (hnew : stream.streamId ∉ s.used) : Kept (withStream s type stream) := by
  have hother : ∀ type' stream', s.copies.lookup type' = some stream' → stream'.streamId ≠ stream.streamId :=
    fun type' stream' hl heq => hnew (heq ▸ h.copies_used type' stream' hl)
  refine ⟨h.notRecording, ?_, ?_, ?_, ?_, ?_⟩
  · intro x' hx' y
    obtain ⟨x, hx, rfl⟩ := List.mem_map.mp hx'
    obtain ⟨hcalls, -, hlookup⟩ := h.sendStream_spec hnew (sentAt s.copies type) hx
    rw [hcalls, List.mem_append, ← AList.lookup_isSome, hlookup, (foldl_removeTrack _ x.2).2.2,
      h.senders x hx y, ← AList.lookup_isSome]
    split_ifs with hy hy' <;> simp [hy]
  · intro x' hx' y hy
    obtain ⟨x, hx, rfl⟩ := List.mem_map.mp hx'
    rw [(h.sendStream_spec hnew (sentAt s.copies type) hx).1, List.mem_append] at hy
    rcases hy with hy | hy
    · exact List.mem_cons_of_mem _ (h.used x hx y hy)
    · rw [snd_of_mem_sentOf hy]
      exact List.mem_cons_self
  · intro type' stream' hl
    have hl : (assign s.streams.localStreams type stream).lookup type' = some stream' := hl
    rw [lookup_assign] at hl
    show (s.copies.insert type stream).lookup type' = some stream'
    split_ifs at hl with htype
    · rw [htype, AList.lookup_insert, hl]
    · rw [AList.lookup_insert_ne htype, h.copied type' stream' hl]
  · intro type' stream' hl
    rcases lookup_insert_cases hl with ⟨-, rfl⟩ | ⟨-, hl⟩
    · exact List.mem_cons_self
    · exact List.mem_cons_of_mem _ (h.copies_used type' stream' hl)
  · intro a b x y ha hb hid
    rcases lookup_insert_cases ha with ⟨ha, hx⟩ | ⟨-, ha'⟩
    · rcases lookup_insert_cases hb with ⟨hb, -⟩ | ⟨-, hb'⟩
      · exact ha.trans hb.symm
      · exact absurd (hid.symm.trans (by rw [hx])) (hother b y hb')
    · rcases lookup_insert_cases hb with ⟨-, hy⟩ | ⟨-, hb'⟩
      · exact absurd (hid.trans (by rw [hy])) (hother a x ha')
      · exact h.distinct a b x y ha' hb' hid

/-- The local tracks after a new stream: those of the stream, and the old ones that are not in the copy. -/
theorem Kept.mem_current_withStream (h : Kept s) {y : Sent} :
    y ∈ current (withStream s type stream) ↔
      y ∈ sentOf stream ∨ (y ∈ current s ∧ y ∉ sentAt s.copies type) := by
  rw [mem_current, mem_current]
  have hassign : ∀ type', y ∈ sentAt (withStream s type stream).streams.localStreams type' ↔
      if type' = type then y ∈ sentOf stream else y ∈ sentAt s.streams.localStreams type' := by
    intro type'
    show y ∈ sentAt (assign s.streams.localStreams type stream) type' ↔ _
    rw [mem_sentAt, lookup_assign]
    split_ifs
    · simp
    · exact mem_sentAt.symm
  constructor
  · rintro ⟨type', hy⟩
    rw [hassign] at hy
    split_ifs at hy with htype
    · exact Or.inl hy
    · exact Or.inr ⟨⟨type', hy⟩, fun hcopy => htype (h.type_eq (h.sentAt_copies hy) hcopy)⟩
  · rintro (hy | ⟨⟨type', hy⟩, hcopy⟩)
    · exact ⟨type, by rw [hassign, if_pos rfl]; exact hy⟩
    · have htype : type' ≠ type := by
        rintro rfl
        exact hcopy (h.sentAt_copies hy)
      exact ⟨type', by rw [hassign, if_neg htype]; exact hy⟩

theorem Kept.sending_mediaStream (h : Kept s) (hS : Sending s) (hnew : stream.streamId ∉ s.used) :
    Sending (withStream s type stream) := by
  refine ⟨fun x' hx' => ?_, fun x' hx' hconn y => ?_⟩
  · obtain ⟨x, hx, rfl⟩ := List.mem_map.mp hx'
    rw [(h.sendStream_spec hnew (sentAt s.copies type) hx).1, List.nodup_append]
    refine ⟨hS.once x hx, nodup_sentOf stream, fun a ha b hb hab => ?_⟩
    exact h.fresh hnew hx hb ((h.senders x hx b).mp (hab ▸ ha))
  · obtain ⟨x, hx, rfl⟩ := List.mem_map.mp hx'
    obtain ⟨-, hconn', hlookup⟩ := h.sendStream_spec hnew (sentAt s.copies type) hx
    rw [h.mem_current_withStream, ← hS.exact x hx (hconn'.symm.trans hconn), ← live_removeTracks]
    show (sendStream _ stream x.2).senders.lookup y = some false ↔ _
    rw [hlookup]
    unfold Peer.Live
    split_ifs with hy <;> simp [hy]

/-! ### `STREAM_REMOVE` -/

/-- The state after a stream was removed. -/
def withoutStream (s : Client) (stream : LocalStream) (type : StreamType) : Client :=
  { s with
    peers := handleRemoveLocalStream stream s.peers
    streams := (removeLocalStream s.streams type false).getD s.streams }

theorem Kept.withoutStream_streams (h : Kept s) (stream : LocalStream) (type : StreamType) :
    (withoutStream s stream type).streams.isRecording = false ∧
      ∀ type', (withoutStream s stream type).streams.localStreams.lookup type' =
        if type' = type then none else s.streams.localStreams.lookup type' := by
  show ((removeLocalStream s.streams type false).getD s.streams).isRecording = false ∧
    ∀ type', ((removeLocalStream s.streams type false).getD s.streams).localStreams.lookup type' = _
  unfold removeLocalStream
  cases hl : s.streams.localStreams.lookup type with
  | none =>
    refine ⟨h.notRecording, fun type' => ?_⟩
    show s.streams.localStreams.lookup type' = _
    split_ifs with htype
    · rw [htype]
      exact hl
    · rfl
  | some existing =>
    have hrec : ¬ s.streams.isRecording = true := by simp [h.notRecording]
    simp only [if_neg hrec, Option.getD_some]
    refine ⟨h.notRecording, fun type' => ?_⟩
    split_ifs with htype
    · rw [htype, AList.lookup_erase]
    · rw [AList.lookup_erase_ne htype]

theorem Kept.streamRemove (h : Kept s) : Kept (withoutStream s stream type) := by
  obtain ⟨hrec, hlookup⟩ := h.withoutStream_streams stream type
  refine ⟨hrec, ?_, ?_, ?_, h.copies_used, h.distinct⟩
  · intro x' hx' y
    obtain ⟨x, hx, rfl⟩ := List.mem_map.mp hx'
    obtain ⟨hcalls, -, hl⟩ := foldl_removeTrack (sentOf stream) x.2
    rw [hcalls, ← AList.lookup_isSome, hl, h.senders x hx y, ← AList.lookup_isSome]
    split_ifs <;> simp
  · intro x' hx' y hy
    obtain ⟨x, hx, rfl⟩ := List.mem_map.mp hx'
    rw [(foldl_removeTrack (sentOf stream) x.2).1] at hy
    exact h.used x hx y hy
  · intro type' stream' hl
    rw [hlookup] at hl
    split_ifs at hl
    exact h.copied type' stream' hl

theorem Kept.mem_current_withoutStream (h : Kept s) {y : Sent} :
    y ∈ current (withoutStream s stream type) ↔ y ∈ current s ∧ y ∉ sentAt s.streams.localStreams type := by
  obtain ⟨-, hlookup⟩ := h.withoutStream_streams stream type
  have hat : ∀ type', y ∈ sentAt (withoutStream s stream type).streams.localStreams type' ↔
      type' ≠ type ∧ y ∈ sentAt s.streams.localStreams type' := by
    intro type'
    rw [mem_sentAt, mem_sentAt, hlookup]
    split_ifs with htype <;> simp [htype]
  rw [mem_current, mem_current]
  constructor
  · rintro ⟨type', hy⟩
    obtain ⟨htype, hy⟩ := (hat type').mp hy
    refine ⟨⟨type', hy⟩, fun hy' => htype ?_⟩
    exact h.type_eq (h.sentAt_copies hy) (h.sentAt_copies hy')
  · rintro ⟨⟨type', hy⟩, hy'⟩
    refine ⟨type', (hat type').mpr ⟨?_, hy⟩⟩
    rintro rfl
    exact hy' hy

theorem Kept.sending_streamRemove (h : Kept s) (hS : Sending s) :
    Sending (withoutStream s stream type) ↔ Orderly s (.streamRemove stream type) := by
  -- For a peer that is connected: what is still sent is what is still local.
  have hpeer : ∀ x ∈ s.peers, x.2.connected = true → ∀ y,
      (((sentOf stream).foldl Peer.removeTrack x.2).Live y ↔ y ∈ current (withoutStream s stream type)) ↔
        (y ∈ current s → (y ∈ sentOf stream ↔ y ∈ sentAt s.streams.localStreams type)) := by
    intro x hx hconn y
    rw [live_removeTracks, hS.exact x hx hconn, h.mem_current_withoutStream]
    tauto
  constructor
  · rintro hS' ⟨x, hx, hconn⟩ y hy
    have hx' : (x.1, (sentOf stream).foldl Peer.removeTrack x.2) ∈ (withoutStream s stream type).peers :=
      List.mem_map_of_mem hx
    have hconn' : ((sentOf stream).foldl Peer.removeTrack x.2).connected = true :=
      (foldl_removeTrack _ x.2).2.1.trans hconn
    exact (hpeer x hx hconn y).mp (hS'.exact _ hx' hconn' y) hy
  · intro hok
    refine ⟨fun x' hx' => ?_, fun x' hx' hconn y => ?_⟩
    · obtain ⟨x, hx, rfl⟩ := List.mem_map.mp hx'
      rw [(foldl_removeTrack (sentOf stream) x.2).1]
      exact hS.once x hx
    · obtain ⟨x, hx, rfl⟩ := List.mem_map.mp hx'
      have hconn' : x.2.connected = true := (foldl_removeTrack _ x.2).2.1.symm.trans hconn
      exact (hpeer x hx hconn' y).mpr fun hy => hok ⟨x, hx, hconn'⟩ y hy

end Steps

/-! ### Runs -/

/-- What holds of the states of an orderly run. -/
structure Inv (s : Client) : Prop extends Kept s, Sending s

/-- **Step lemma**: the connected peers are still sent the local tracks, each once, exactly if the step is orderly. -/
theorem Inv.step_iff {s s' : Client} {x : Action} (h : Inv s) (hs : step s x = some s') :
    (Sending s' ↔ Orderly s x) ∧ (Orderly s x → Kept s') := by
  cases x with
  | peerAdd userId =>
    simp only [step] at hs
    split_ifs at hs
    obtain rfl := Option.some.inj hs
    exact ⟨iff_of_true (sending_peerAdd h.toSending userId) trivial, fun _ => h.toKept.peerAdd userId⟩
  | connect userId =>
    simp only [step] at hs
    split_ifs at hs
    obtain rfl := Option.some.inj hs
    exact ⟨h.toKept.sending_connect h.toSending, h.toKept.connect⟩
  | mediaStream type stream =>
    by_cases hnew : stream.streamId ∈ s.used
    · simp only [step, if_pos hnew] at hs
      cases hs
    · rw [h.toKept.step_mediaStream hnew] at hs
      obtain rfl := Option.some.inj hs
      exact ⟨iff_of_true (h.toKept.sending_mediaStream h.toSending hnew) trivial,
        fun _ => h.toKept.mediaStream hnew⟩
  | streamRemove stream type =>
    obtain rfl := Option.some.inj hs
    exact ⟨h.toKept.sending_streamRemove h.toSending, fun _ => h.toKept.streamRemove⟩

/-- **Each local track is sent to each peer once**, in every state of an orderly run; and a step that is not orderly
breaks this. -/
theorem sent_once {s : Client} (h : Reach step Orderly .default s) :
    Sending s ∧ ∀ x s', step s x = some s' → (Sending s' ↔ Orderly s x) := by
  have hI : Inv s := Reach.invariant ⟨kept_default, sending_default⟩
    (fun _ _ _ hI hok hs => ⟨(hI.step_iff hs).2 hok, (hI.step_iff hs).1.mpr hok⟩) h
  exact ⟨hI.toSending, fun x s' hs => (hI.step_iff hs).1⟩

/-- A camera stream before the peer, a screen after its connection; the camera is replaced and removed. -/
theorem sent_once_example : ∃ s, exec (guarded step Orderly) .default
      [.mediaStream .camera ⟨⟨["a", "v"], by decide⟩, "c"⟩, .peerAdd "p", .connect "p",
        .mediaStream .desktop ⟨⟨["d"], by decide⟩, "d"⟩, .mediaStream .camera ⟨⟨["w"], by decide⟩, "e"⟩,
        .peerAdd "q", .streamRemove ⟨⟨["d"], by decide⟩, "d"⟩ .desktop, .connect "q"] = some s ∧
    s.peers.map (fun x => x.2.calls) = [[("a", "c"), ("v", "c"), ("d", "d"), ("w", "e")], [("w", "e")]] ∧
    Sending s :=
  exists_exec (by decide) fun _ hs _ => (sent_once hs).1

/-- The camera stream comes when the peer is in the store and not connected yet. -/
theorem sent_twice : ∃ s, exec (guarded step anyStep) .default
      [.peerAdd "p", .mediaStream .camera ⟨⟨["v"], by decide⟩, "c"⟩, .connect "p"] = some s ∧
    s.peers.map (fun x => x.2.calls) = [[("v", "c"), ("v", "c")]] ∧ ¬ Sending s := by
  refine exists_exec (by decide) fun s _ hcalls hS => ?_
  obtain ⟨x, hx, hxc⟩ : ∃ x ∈ s.peers, x.2.calls = [("v", "c"), ("v", "c")] := by
    have hmem : [("v", "c"), ("v", "c")] ∈ s.peers.map fun x => x.2.calls := by
      rw [hcalls]
      exact List.mem_singleton_self _
    obtain ⟨x, hx, hxc⟩ := List.mem_map.mp hmem
    exact ⟨x, hx, hxc⟩
  have honce := hS.once x hx
  rw [hxc] at honce
  exact absurd honce (by decide)

end Meeting.Streams.LocalTracks
