import Mathlib.Data.List.Chain
import Mathlib.Data.List.Induction
import Meeting.Lib.Lists
import Meeting.Streams.State

/-!
# Meeting.Streams.Recording — the two flags of a recording (`reducers/streams.ts`, `reducers/media.ts`)

The client learns from two events whether the room is recorded: `record_callback`, and `users`, which comes for
every user that joins.  Both end in `handleRecordCallback`: the media reducer takes over the status of the event,
while the streams reducer flips its own flag.

First the part of `StreamsState` that local streams live in.  `peerInstance`, a variable of the module, is the peer
that the streams are recorded over, as the ids of the streams that it was made with.  Its `addStream` and
`removeStream` belong to `simple-peer`; an action says whether they throw.  A reducer that throws is `none`, and
leaves the state.

* `run_snoc`, `isRecording_handle`, `recordStatus_handle`: what an event does to the two flags;
* `flags_agree_iff`: the flags agree after every event exactly if every successful event carries another status
  than the one before it;
* `flags_disagree`: two users join a room that is recorded.
-/

namespace Meeting.Streams

open Lib

/-! ### Local streams -/

inductive StreamType where
  | camera
  | desktop
  deriving DecidableEq, Repr

structure LocalStream where
  stream : MediaStream
  streamId : String
  deriving DecidableEq

/-- The part of `StreamsState` of the local streams, with the `peerInstance` of the module. -/
structure LocalState where
  localStreams : AList fun _ : StreamType => LocalStream
  localRecorders : List String
  streamsRecordUrl : String
  isRecording : Bool
  peerInstance : Option (List String)

def LocalState.default : LocalState := ⟨∅, [], "", false, none⟩

/-- `initializeMediaRecorder`: one more stream for the recording peer, or a new peer. -/
def initializeMediaRecorder (peerInstance : Option (List String)) (roomID userID : String) (stream : LocalStream)
    (peerThrows : Bool) : Option (Option (List String) × String) :=
  if roomID = "" ∧ userID = "" then
    match peerInstance with
    | none => none
    | some streams =>
      if stream.streamId ∉ streams ∧ peerThrows = true then none else some (peerInstance, stream.streamId)
  else some (some [stream.streamId], stream.streamId)

def recordAdditionalStream (peerInstance : Option (List String)) (stream : LocalStream) (peerThrows : Bool) :
    Option (Option (List String) × String) :=
  initializeMediaRecorder peerInstance "" "" stream peerThrows

def addLocalStream (state : LocalState) (type : StreamType) (stream : LocalStream) (peerThrows : Bool) :
    Option LocalState :=
  let localStreams := assign state.localStreams type stream
  if state.isRecording then
    (recordAdditionalStream state.peerInstance stream peerThrows).map fun r =>
      { state with localStreams, peerInstance := r.1, localRecorders := state.localRecorders ++ [r.2] }
  else some { state with localStreams }

/-- `stopRecordAdditionalStream`, without the call of the peer. -/
def stopRecordAdditionalStream (localRecorders : List String) (stream : LocalStream) : List String :=
  localRecorders.filter fun id => stream.streamId ≠ id

def removeLocalStream (state : LocalState) (type : StreamType) (peerThrows : Bool) : Option LocalState :=
  match state.localStreams.lookup type with
  | none => some state
  | some existing =>
    if state.isRecording then
      if state.peerInstance = none ∨ peerThrows = true then none
      else some { state with
        localStreams := state.localStreams.erase type
        localRecorders := stopRecordAdditionalStream state.localRecorders existing }
    else some { state with localStreams := state.localStreams.erase type, localRecorders := [] }

/-- The loop of `recordLocalStream`. -/
def recordStreams (roomID userID : String) :
    List (Σ _ : StreamType, LocalStream) → Option (List String) → Option (Option (List String) × List String)
  | [], peerInstance => some (peerInstance, [])
  | x :: rest, peerInstance => do
    let r ← initializeMediaRecorder peerInstance roomID userID x.2 false
    let rs ← recordStreams roomID userID rest r.1
    some (rs.1, r.2 :: rs.2)

def recordLocalStream (state : LocalState) (recordUrl roomID userID : String) : Option LocalState :=
  (recordStreams roomID userID state.localStreams.entries state.peerInstance).map fun r =>
    { state with
      peerInstance := r.1
      localRecorders := r.2
      streamsRecordUrl := recordUrl
      isRecording := !state.isRecording }

def stopRecordLocalStream (state : LocalState) : LocalState :=
  { state with isRecording := !state.isRecording }

/-! ### Events -/

/-- `SocketHandler`, for a user whose id the server has made up. -/
structure SocketHandler where
  roomName : String
  userId : String
  userId_ne : userId ≠ ""

/-- The two reducers. -/
structure Client where
  streams : LocalState
  /-- `recordStatus` of the media reducer. -/
  recordStatus : Bool

def Client.default : Client := ⟨.default, false⟩

inductive Event where
  | users (recordStatus : Bool) (recordUrl : String)
  | recordCallback (successful recordStatus : Bool) (url : String)
  /-- `MEDIA_STREAM`, resolved. -/
  | mediaStream (type : StreamType) (stream : LocalStream) (peerThrows : Bool)
  /-- `STREAM_REMOVE`. -/
  | streamRemove (type : StreamType) (peerThrows : Bool)

/-- A dispatch to the streams reducer: when it throws, nothing has changed. -/
def Client.dispatch (c : Client) (streams : Option LocalState) : Client :=
  { c with streams := streams.getD c.streams }

def handleRecordCallback (h : SocketHandler) (c : Client) (successful recordStatus : Bool) (url : String) :
    Client :=
  if successful then
    let c := { c with recordStatus }
    if recordStatus then
      c.dispatch
        (recordLocalStream c.streams (url ++ "/" ++ h.roomName ++ "/" ++ h.userId) h.roomName h.userId)
    else c.dispatch (some (stopRecordLocalStream c.streams))
  else c

/-- `handleUsers`: the status is also taken for the success. -/
def handleUsers (h : SocketHandler) (c : Client) (recordStatus : Bool) (recordUrl : String) : Client :=
  handleRecordCallback h c recordStatus recordStatus recordUrl

def handle (h : SocketHandler) (c : Client) : Event → Client
  | .users recordStatus recordUrl => handleUsers h c recordStatus recordUrl
  | .recordCallback successful recordStatus url => handleRecordCallback h c successful recordStatus url
  | .mediaStream type stream peerThrows => c.dispatch (addLocalStream c.streams type stream peerThrows)
  | .streamRemove type peerThrows => c.dispatch (removeLocalStream c.streams type peerThrows)

/-- The client after a sequence of events. -/
def run (h : SocketHandler) (events : List Event) : Client := events.foldl (handle h) .default

/-! ### What the events say -/

/-- The status that an event announces: a successful callback, or a user who joins a room that is recorded. -/
def Event.status : Event → Option Bool
  | .users recordStatus _ => if recordStatus then some true else none
  | .recordCallback successful recordStatus _ => if successful then some recordStatus else none
  | .mediaStream _ _ _ | .streamRemove _ _ => none

def statuses (events : List Event) : List Bool := events.filterMap Event.status

/-- The status that was announced last. -/
def lastStatus (events : List Event) : Bool := (statuses events).getLast?.getD false

/-- Both flags are the status that was announced last. -/
def FlagsAgree (h : SocketHandler) (events : List Event) : Prop :=
  (run h events).streams.isRecording = (run h events).recordStatus ∧
    (run h events).streams.isRecording = lastStatus events

/-- Every event that announces a status announces another one than the event before it. -/
def Alternating (events : List Event) : Prop := (false :: statuses events).IsChain (· ≠ ·)

instance : DecidablePred Alternating := fun events =>
  inferInstanceAs (Decidable ((false :: statuses events).IsChain (· ≠ ·)))

/-! ### What an event does -/

/-- With a user id, recording does not throw. -/
theorem recordStreams_isSome (h : SocketHandler) :
    ∀ (l : List (Σ _ : StreamType, LocalStream)) (peerInstance : Option (List String)),
      ∃ r, recordStreams h.roomName h.userId l peerInstance = some r
  | [], peerInstance => ⟨_, rfl⟩
  | x :: rest, peerInstance => by
    have hname : ¬ (h.roomName = "" ∧ h.userId = "") := fun hn => h.userId_ne hn.2
    obtain ⟨rs, hrs⟩ := recordStreams_isSome h rest (some [x.2.streamId])
    exact ⟨_, by simp [recordStreams, initializeMediaRecorder, hname, hrs]; rfl⟩

theorem isRecording_recordLocalStream (h : SocketHandler) (state : LocalState) (url : String) :
    ∃ state', recordLocalStream state url h.roomName h.userId = some state' ∧
      state'.isRecording = !state.isRecording := by
  obtain ⟨r, hr⟩ := recordStreams_isSome h state.localStreams.entries state.peerInstance
  exact ⟨_, by rw [recordLocalStream, hr, Option.map_some], rfl⟩

/-- The actions of local streams leave the flag. -/
theorem isRecording_addLocalStream {state state' : LocalState} {type : StreamType} {stream : LocalStream}
    {peerThrows : Bool} (h : addLocalStream state type stream peerThrows = some state') :
    state'.isRecording = state.isRecording := by
  unfold addLocalStream at h
  simp only at h
  split_ifs at h
  · obtain ⟨r, -, rfl⟩ := Option.map_eq_some_iff.mp h
    rfl
  · obtain rfl := Option.some.inj h
    rfl

theorem isRecording_removeLocalStream {state state' : LocalState} {type : StreamType} {peerThrows : Bool}
    (h : removeLocalStream state type peerThrows = some state') :
    state'.isRecording = state.isRecording := by
  unfold removeLocalStream at h
  split at h
  next => exact Option.some.inj h ▸ rfl
  next =>
    split_ifs at h
    all_goals
      obtain rfl := Option.some.inj h
      rfl

/-- The flag of the streams reducer is flipped by every event that announces a status, whichever it is. -/
theorem isRecording_handle (h : SocketHandler) (c : Client) (e : Event) :
    (handle h c e).streams.isRecording =
      if e.status = none then c.streams.isRecording else !c.streams.isRecording := by
  have hcallback : ∀ successful recordStatus url,
      (handleRecordCallback h c successful recordStatus url).streams.isRecording =
        if successful then !c.streams.isRecording else c.streams.isRecording := by
    intro successful recordStatus url
    unfold handleRecordCallback
    split_ifs with hs hr
    · obtain ⟨state', hstate, hflag⟩ := isRecording_recordLocalStream h c.streams
        (url ++ "/" ++ h.roomName ++ "/" ++ h.userId)
      simp only [Client.dispatch, hstate, Option.getD_some]
      exact hflag
    · rfl
    · rfl
  have hdispatch : ∀ streams : Option LocalState,
      (∀ state', streams = some state' → state'.isRecording = c.streams.isRecording) →
        (c.dispatch streams).streams.isRecording = c.streams.isRecording := by
    intro streams hflag
    unfold Client.dispatch
    cases hst : streams with
    | none => rfl
    | some state' => exact hflag state' hst
  cases e with
  | users recordStatus recordUrl =>
    refine (hcallback recordStatus recordStatus recordUrl).trans ?_
    cases recordStatus <;> rfl
  | recordCallback successful recordStatus url =>
    refine (hcallback successful recordStatus url).trans ?_
    cases successful <;> rfl
  | mediaStream type stream peerThrows => exact hdispatch _ fun _ => isRecording_addLocalStream
  | streamRemove type peerThrows => exact hdispatch _ fun _ => isRecording_removeLocalStream

/-- The media reducer takes over the status that is announced. -/
theorem recordStatus_handle (h : SocketHandler) (c : Client) (e : Event) :
    (handle h c e).recordStatus = e.status.getD c.recordStatus := by
  have hcallback : ∀ successful recordStatus url,
      (handleRecordCallback h c successful recordStatus url).recordStatus =
        if successful then recordStatus else c.recordStatus := by
    intro successful recordStatus url
    unfold handleRecordCallback
    split_ifs <;> rfl
  cases e with
  | users recordStatus recordUrl =>
    refine (hcallback recordStatus recordStatus recordUrl).trans ?_
    cases recordStatus <;> rfl
  | recordCallback successful recordStatus url =>
    refine (hcallback successful recordStatus url).trans ?_
    cases successful <;> rfl
  | mediaStream type stream peerThrows => rfl
  | streamRemove type peerThrows => rfl

/-! ### Runs -/

theorem run_snoc (h : SocketHandler) (events : List Event) (e : Event) :
    run h (events ++ [e]) = handle h (run h events) e := by
  rw [run, List.foldl_append]
  rfl

theorem statuses_snoc (events : List Event) (e : Event) :
    statuses (events ++ [e]) = statuses events ++ e.status.toList := by
  rw [statuses, List.filterMap_append]
  cases hs : e.status <;> simp [statuses, hs]

theorem lastStatus_snoc (events : List Event) (e : Event) :
    lastStatus (events ++ [e]) = e.status.getD (lastStatus events) := by
  unfold lastStatus
  rw [statuses_snoc]
  cases e.status <;> simp

/-- The media reducer has the status that was announced last. -/
theorem recordStatus_run (h : SocketHandler) (events : List Event) :
    (run h events).recordStatus = lastStatus events := by
  induction events using List.reverseRecOn with
  | nil => rfl
  | append_singleton events e ih => rw [run_snoc, recordStatus_handle, lastStatus_snoc, ih]

theorem alternating_snoc (events : List Event) (e : Event) :
    Alternating (events ++ [e]) ↔ Alternating events ∧ ∀ b ∈ e.status, b ≠ lastStatus events := by
  unfold Alternating
  rw [statuses_snoc, ← List.cons_append, List.isChain_append]
  have hlast : (false :: statuses events).getLast? = some (lastStatus events) := by
    rw [lastStatus, List.getLast?_cons]
  cases hs : e.status with
  | none => simp
  | some b => simp [hlast, eq_comm]

/-- **One event**, after events that have left the flags in agreement. -/
theorem flagsAgree_snoc {h : SocketHandler} {events : List Event} (hag : FlagsAgree h events) (e : Event) :
    FlagsAgree h (events ++ [e]) ↔ ∀ b ∈ e.status, b ≠ lastStatus events := by
  unfold FlagsAgree
  rw [recordStatus_run, run_snoc, isRecording_handle, hag.2, lastStatus_snoc]
  cases hs : e.status with
  | none => simp
  | some b => cases b <;> cases lastStatus events <;> simp

/-- **When the two flags agree**: after every event of a sequence, exactly if every event that announces a status
announces another one than the event before it, the first one that the room is recorded. -/
theorem flags_agree_iff (h : SocketHandler) (events : List Event) :
    (∀ pre, pre <+: events → FlagsAgree h pre) ↔ Alternating events := by
  induction events using List.reverseRecOn with
  | nil =>
    refine ⟨fun _ => List.isChain_singleton _, fun _ pre hpre => ?_⟩
    rw [List.prefix_nil.mp hpre]
    exact ⟨rfl, rfl⟩
  | append_singleton events e ih =>
    rw [alternating_snoc, ← ih]
    constructor
    · intro hall
      have hpre : ∀ pre, pre <+: events → FlagsAgree h pre := fun pre hpre =>
        hall pre (hpre.trans (List.prefix_append events [e]))
      exact ⟨hpre, (flagsAgree_snoc (hpre events (List.prefix_refl _)) e).mp (hall _ (List.prefix_refl _))⟩
    · rintro ⟨hpre, hstatus⟩ pre hp
      rcases List.prefix_concat_iff.mp hp with rfl | hp
      · exact (flagsAgree_snoc (hpre events (List.prefix_refl _)) e).mpr hstatus
      · exact hpre pre hp

/-- Two users join a room that is recorded: the recording goes on, and the streams reducer says that it does not. -/
theorem flags_disagree :
    (run ⟨"room", "user", by decide⟩ [.users true "url", .users true "url"]).recordStatus = true ∧
      (run ⟨"room", "user", by decide⟩ [.users true "url", .users true "url"]).streams.isRecording = false ∧
      lastStatus [.users true "url", .users true "url"] = true ∧
      ¬ FlagsAgree ⟨"room", "user", by decide⟩ [.users true "url", .users true "url"] := by
  have hflag : (run ⟨"room", "user", by decide⟩ [.users true "url", .users true "url"]).streams.isRecording =
      false := by decide
  refine ⟨rfl, hflag, rfl, fun hag => ?_⟩
  have hlast := hag.2
  rw [hflag] at hlast
  cases hlast

end Meeting.Streams
