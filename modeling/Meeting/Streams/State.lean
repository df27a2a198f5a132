import Mathlib.Data.List.AList
import Mathlib.Tactic.Common

/-!
# Meeting.Streams.State — the streams reducer (`reducers/streams.ts`)

The part of `StreamsState` that remote tracks live in, and the six actions that change it.  Records are
finite maps, a track is its id, and a `MediaStream` is the set of its tracks (a list without duplicates).
The reducer mutates streams and one record in place; since a state is dropped once the next one is made,
the model writes every such change into the next state.

`streams` is `none` when the reducer throws: `unassociateUserTracks` reads a property of a record entry
without checking that the entry is there.
-/

namespace Meeting.Streams

/-! ### Media streams -/

/-- `MediaStream`, as the set of its tracks. -/
structure MediaStream where
  tracks : List String
  nodup : tracks.Nodup
  deriving DecidableEq

namespace MediaStream

/-- `new MediaStream()`. -/
def new : MediaStream := ⟨[], List.nodup_nil⟩

def addTrack (s : MediaStream) (track : String) : MediaStream :=
  ⟨s.tracks.insert track, s.nodup.insert⟩

def removeTrack (s : MediaStream) (track : String) : MediaStream :=
  ⟨s.tracks.erase track, s.nodup.erase track⟩

@[simp] theorem mem_addTrack {s : MediaStream} {t t' : String} :
    t' ∈ (s.addTrack t).tracks ↔ t' = t ∨ t' ∈ s.tracks := List.mem_insert_iff

@[simp] theorem mem_removeTrack {s : MediaStream} {t t' : String} :
    t' ∈ (s.removeTrack t).tracks ↔ t' ≠ t ∧ t' ∈ s.tracks := s.nodup.mem_erase_iff

end MediaStream

/-! ### Data -/

structure StreamWithURL where
  stream : MediaStream
  streamId : String
  deriving DecidableEq

structure UserStreams where
  userId : String
  streams : List StreamWithURL
  deriving DecidableEq

structure TrackAssociation where
  streamId : String
  userId : String
  deriving DecidableEq, Repr

structure TrackInfo where
  track : String
  mid : String
  association : Option TrackAssociation
  deriving DecidableEq, Repr

structure TrackMetadata where
  mid : String
  kind : String
  userId : String
  streamId : String
  deriving DecidableEq, Repr

structure StreamsState where
  streamsByUserId : AList fun _ : String => UserStreams
  metadataByPeerIdMid : AList fun _ : String => TrackMetadata
  trackIdToPeerIdMid : AList fun _ : String => String
  tracksByPeerIdMid : AList fun _ : String => TrackInfo

def defaultState : StreamsState := ⟨∅, ∅, ∅, ∅⟩

structure AddTrackPayload where
  mid : String
  streamId : String
  userId : String
  track : String
  deriving DecidableEq, Repr

structure MetadataPayload where
  userId : String
  metadata : List TrackMetadata
  deriving DecidableEq, Repr

/-- `userId + peerIdMidSeparator + mid`. -/
def getPeerIdMid (userId mid : String) : String := userId ++ "::" ++ mid

/-! ### Tracks in the streams of one user -/

/-- Add to the stream with this id, or push a new stream. -/
def addToStream (streamId track : String) : List StreamWithURL → List StreamWithURL
  | [] => [{ stream := MediaStream.new.addTrack track, streamId }]
  | s :: rest =>
    if s.streamId = streamId then { s with stream := s.stream.addTrack track } :: rest
    else s :: addToStream streamId track rest

/-- Remove from the stream with this id, and filter the stream out when it has no tracks left. -/
def removeFromStream (streamId track : String) : List StreamWithURL → List StreamWithURL
  | [] => []
  | s :: rest =>
    if s.streamId = streamId then
      if (s.stream.removeTrack track).tracks = [] then rest
      else { s with stream := s.stream.removeTrack track } :: rest
    else s :: removeFromStream streamId track rest

/-! ### The reducer -/

/-- The real user and stream of a track: from the metadata when there is some, else from the payload. -/
def getUserId (state : StreamsState) (payload : AddTrackPayload) : TrackAssociation :=
  match state.metadataByPeerIdMid.lookup (getPeerIdMid payload.userId payload.mid) with
  | some metadata => { userId := metadata.userId, streamId := metadata.streamId }
  | none => { userId := payload.userId, streamId := payload.streamId }

/-- Write the streams of a user back, or drop the user when there are no streams left. -/
def putStreams (m : AList fun _ : String => UserStreams) (userId : String) (userStreams : UserStreams)
    (streams : List StreamWithURL) : AList fun _ : String => UserStreams :=
  if streams ≠ [] then m.insert userId { userStreams with streams } else m.erase userId

def removeTrack (state : StreamsState) (track : String) : StreamsState :=
  match state.trackIdToPeerIdMid.lookup track with
  | none => state
  | some peerIdMid =>
    match state.tracksByPeerIdMid.lookup peerIdMid with
    | none => state
    | some t =>
      match t.association with
      | none => state
      | some a =>
        match state.streamsByUserId.lookup a.userId with
        | none => state
        | some userStreams =>
          match userStreams.streams.find? fun s => s.streamId = a.streamId with
          | none => state
          | some _ =>
            { state with
              streamsByUserId := putStreams state.streamsByUserId a.userId userStreams
                (removeFromStream a.streamId track userStreams.streams)
              tracksByPeerIdMid := state.tracksByPeerIdMid.insert peerIdMid
                { track, mid := t.mid, association := none } }

def addTrack (state : StreamsState) (payload : AddTrackPayload) : StreamsState :=
  let peerIdMid := getPeerIdMid payload.userId payload.mid
  let a := getUserId state payload
  let userStreams := (state.streamsByUserId.lookup a.userId).getD { userId := a.userId, streams := [] }
  { state with
    streamsByUserId := state.streamsByUserId.insert a.userId
      { userStreams with streams := addToStream a.streamId payload.track userStreams.streams }
    trackIdToPeerIdMid := state.trackIdToPeerIdMid.insert payload.track peerIdMid
    tracksByPeerIdMid := state.tracksByPeerIdMid.insert peerIdMid
      { track := payload.track, mid := payload.mid, association := some a } }

/-- The record entry `unassociateUserTracks` writes for one track; it throws when there is none. -/
def unassociatedInfo (state : StreamsState) (track : String) : Option (String × TrackInfo) := do
  let peerIdMid ← state.trackIdToPeerIdMid.lookup track
  let t ← state.tracksByPeerIdMid.lookup peerIdMid
  some (peerIdMid, { track, mid := t.mid, association := none })

def unassociateUserTracks (state : StreamsState) (userId : String) : Option StreamsState :=
  match state.streamsByUserId.lookup userId with
  | none => some state
  | some userStreams => do
    let infos ← (userStreams.streams.flatMap fun s => s.stream.tracks).mapM (unassociatedInfo state)
    some { state with
      streamsByUserId := state.streamsByUserId.erase userId
      tracksByPeerIdMid := infos.foldl (fun m x => m.insert x.1 x.2) state.tracksByPeerIdMid }

/-- `keyBy(payload.metadata, ...)`: the last entry of a key wins. -/
def keyBy (userId : String) (metadata : List TrackMetadata) : AList fun _ : String => TrackMetadata :=
  metadata.foldl (fun m x => m.insert (getPeerIdMid userId x.mid) x) ∅

/-- One turn of the second loop of `setMetadata`; `state` is the state before the action. -/
def applyMetadata (state : StreamsState) (userId : String) (newState : StreamsState)
    (m : TrackMetadata) : StreamsState :=
  match state.tracksByPeerIdMid.lookup (getPeerIdMid userId m.mid) with
  | none => newState
  | some t =>
    match t.association with
    | none => addTrack newState { mid := m.mid, streamId := m.streamId, track := t.track, userId }
    | some a =>
      if a.streamId = m.streamId ∧ a.userId = m.userId then newState
      else addTrack (removeTrack newState t.track)
        { mid := m.mid, streamId := a.streamId, track := t.track, userId }

def setMetadata (state : StreamsState) (payload : MetadataPayload) : StreamsState :=
  let metadataByPeerIdMid := keyBy payload.userId payload.metadata
  -- remove any track the server has lost track of
  let newState := state.tracksByPeerIdMid.entries.foldl (fun newState x =>
    if metadataByPeerIdMid.lookup x.1 = none ∧ x.2.association ≠ none then
      removeTrack newState x.2.track
    else newState) state
  let newState := { newState with metadataByPeerIdMid }
  payload.metadata.foldl (applyMetadata state payload.userId) newState

/-- `key.startsWith(userId + peerIdMidSeparator)`. -/
def isKeyOf (userId key : String) : Bool := (userId ++ "::").toList.isPrefixOf key.toList

/-- One turn of the loop of `removePeer`; `state` is the state before the action.  The source deletes from
the record that `newState` shares with `state`. -/
def removeKey (state newState : StreamsState) (key : String) : StreamsState :=
  match state.tracksByPeerIdMid.lookup key with
  | none => newState
  | some t =>
    let newState := if t.association ≠ none then removeTrack newState t.track else newState
    { newState with trackIdToPeerIdMid := newState.trackIdToPeerIdMid.erase t.track }

def removePeer (state : StreamsState) (userId : String) : StreamsState :=
  let keysToRemove := state.tracksByPeerIdMid.keys.filter (isKeyOf userId)
  { keysToRemove.foldl (removeKey state) state with
    tracksByPeerIdMid := keysToRemove.foldl (fun m key => m.erase key) state.tracksByPeerIdMid }

/-- The actions of remote tracks. -/
inductive Action where
  | streamTrackAdd (payload : AddTrackPayload)
  | streamTrackRemove (track : String)
  | nicknameRemove (userId : String)
  | tracksMetadata (payload : MetadataPayload)
  | peerRemove (userId : String)
  | hangUp
  deriving DecidableEq, Repr

/-- The reducer; `none` when it throws. -/
def streams (state : StreamsState) : Action → Option StreamsState
  | .streamTrackAdd payload => some (addTrack state payload)
  | .streamTrackRemove track => some (removeTrack state track)
  | .nicknameRemove userId => unassociateUserTracks state userId
  | .tracksMetadata payload => some (setMetadata state payload)
  | .peerRemove userId => some (removePeer state userId)
  | .hangUp => some defaultState

end Meeting.Streams
