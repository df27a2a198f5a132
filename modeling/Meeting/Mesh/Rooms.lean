import Meeting.Lib.Lists
import Meeting.Lib.Runs

/-!
# Meeting.Mesh.Rooms — who owns a room (`mesh.go`)

Every websocket connection has a handler of its own, which works through its messages one by one.  All
handlers share `activeRooms`, a map to `ActiveRoom` pointers: each load, store and delete is one
step, so the check of a message and what it then does may be apart.

`create_room` checks the room of the payload and stores the room of the socket:

* `ownership_stable`: along the runs in which the checks still hold when they are acted on
  (`InOrder`), a room keeps its creator until it is removed, at most one user is told that it created
  the room, and only this user changes its recording status;
* `creator_overwritten`: a payload with another room takes a room over.
-/

namespace Meeting.Mesh.Rooms

open Lib

/-! ### State -/

structure ActiveRoom where
  creatorId : String
  recordingStatus : Bool
  deriving DecidableEq, Repr

/-- What is left to do of the message a handler is at. -/
inductive Phase where
  | idle
  /-- `ready`: the nickname is set. -/
  | marked
  /-- `ready`: there are no ready clients. -/
  | removing
  /-- `create_room`: the requested room exists. -/
  | refusing (roomReq : String)
  /-- `create_room`: the requested room does not exist. -/
  | creating
  /-- `create_room`: the room is stored. -/
  | created
  /-- `record`: the user may record. -/
  | approved (recordStatus : Bool)
  /-- `record`: the session is changed, and the pointer of the room loaded. -/
  | loaded (p : ℕ) (recordStatus : Bool)
  deriving DecidableEq, Repr

/-- The handler of a connection; `userId` is the `user_id` of its token. -/
structure Handler where
  clientID : String
  room : String
  userId : String
  phase : Phase
  deriving DecidableEq, Repr

/-- What the handlers send and do, as far as it concerns who owns a room. -/
inductive Event where
  | roomCreated (clientID room userId : String) (successful : Bool) (creatorId : String)
  | removed (room : String)
  deriving DecidableEq, Repr

structure Server where
  /-- The `ActiveRoom` values, by pointer. -/
  objects : List ActiveRoom
  activeRooms : AList fun _ : String => ℕ
  /-- The metadata in the adapters, by room and client. -/
  metadata : AList fun _ : String × String => String
  handlers : AList fun _ : ℕ => Handler
  /-- The latest comes first. -/
  events : List Event

def Server.empty : Server := ⟨[], ∅, ∅, ∅, []⟩

/-! ### The map of rooms -/

def load (s : Server) (room : String) : Option ActiveRoom :=
  (s.activeRooms.lookup room).bind fun p => s.objects[p]?

def roomExists (s : Server) (room : String) : Bool := (s.activeRooms.lookup room).isSome

def creatorOf (s : Server) (room : String) : Option String := (load s room).map ActiveRoom.creatorId

def statusOf (s : Server) (room : String) : Option Bool := (load s room).map ActiveRoom.recordingStatus

def getRoomCreator (s : Server) (room : String) : String := (creatorOf s room).getD ""

def removeRoom (s : Server) (room : String) : Server :=
  { s with activeRooms := s.activeRooms.erase room, events := .removed room :: s.events }

def createRoom (s : Server) (roomCreatorID room : String) : Server :=
  { s with
    objects := s.objects ++ [⟨roomCreatorID, false⟩]
    activeRooms := s.activeRooms.insert room s.objects.length }

/-- The write of `updateRoomRecordStatus`. -/
def writeStatus (s : Server) (p : ℕ) (recordStatus : Bool) : Server :=
  { s with objects := s.objects.modify p fun x => { x with recordingStatus := recordStatus } }

def emit (s : Server) (e : Event) : Server := { s with events := e :: s.events }

/-! ### Steps -/

/-- `SetMetadata`, of a client that is in the room. -/
def setMetadata (s : Server) (room clientID metadata : String) : Server :=
  match s.metadata.lookup (room, clientID) with
  | some _ => { s with metadata := s.metadata.insert (room, clientID) metadata }
  | none => s

def getReadyClients (s : Server) (room : String) : List String :=
  (s.metadata.entries.filter fun e => e.1.1 = room ∧ e.2 ≠ "").map fun e => e.1.2

def setPhase (s : Server) (h : ℕ) (x : Handler) (phase : Phase) : Server :=
  { s with handlers := s.handlers.insert h { x with phase } }

inductive Msg where
  | hangUp
  | ready (nickname : String)
  | signal
  | createRoom (roomReq : String)
  | record (recordStatus : Bool)
  deriving DecidableEq, Repr

/-- The first step of a message. -/
def handle (s : Server) (h : ℕ) (x : Handler) : Msg → Server
  | .hangUp => setMetadata s x.room x.clientID ""
  | .ready nickname => setPhase (setMetadata s x.room x.clientID nickname) h x .marked
  | .signal => s
  | .createRoom roomReq => setPhase s h x (if roomExists s roomReq then .refusing roomReq else .creating)
  | .record recordStatus =>
    setPhase s h x (if x.userId ≠ getRoomCreator s x.room then .idle else .approved recordStatus)

/-- The next step of the message a handler is at. -/
def resume (s : Server) (h : ℕ) (x : Handler) : Option Server :=
  match x.phase with
  | .idle => none
  | .marked => some (setPhase s h x (if (getReadyClients s x.room).length = 0 then .removing else .idle))
  | .removing => some (setPhase (removeRoom s x.room) h x .idle)
  | .refusing roomReq => some (setPhase
      (emit s (.roomCreated x.clientID x.room x.userId false (getRoomCreator s roomReq))) h x .idle)
  | .creating => some (setPhase (createRoom s x.userId x.room) h x .created)
  | .created => some (setPhase (emit s (.roomCreated x.clientID x.room x.userId true x.userId)) h x .idle)
  | .approved recordStatus => some (setPhase s h x
      (match s.activeRooms.lookup x.room with
      | some p => .loaded p recordStatus
      | none => .idle))
  | .loaded p recordStatus => some (setPhase (writeStatus s p recordStatus) h x .idle)

inductive Action where
  | connect (h : ℕ) (clientID room userId : String)
  /-- The client is removed from the adapter. -/
  | leave (h : ℕ)
  | receive (h : ℕ) (msg : Msg)
  | resume (h : ℕ)
  /-- The adapter does not return its clients: there are no ready ones then. -/
  | clientsFailed (h : ℕ)
  /-- The record service answers with an error. -/
  | recordFailed (h : ℕ)
  deriving DecidableEq, Repr

def Action.handler : Action → ℕ
  | .connect h _ _ _ | .leave h | .receive h _ | .resume h | .clientsFailed h | .recordFailed h => h

def step (s : Server) : Action → Option Server
  | .connect h clientID room userId =>
    match s.handlers.lookup h with
    | some _ => none
    | none => some { s with
        handlers := s.handlers.insert h ⟨clientID, room, userId, .idle⟩
        metadata := s.metadata.insert (room, clientID) "" }
  | .leave h => (s.handlers.lookup h).map fun x =>
    { s with metadata := s.metadata.erase (x.room, x.clientID) }
  | .receive h msg => (s.handlers.lookup h).bind fun x =>
    if x.phase = .idle then some (handle s h x msg) else none
  | .resume h => (s.handlers.lookup h).bind fun x => resume s h x
  | .clientsFailed h => (s.handlers.lookup h).bind fun x =>
    if x.phase = .marked then some (setPhase s h x .removing) else none
  | .recordFailed h => (s.handlers.lookup h).bind fun x =>
    match x.phase with
    | .approved _ => some (setPhase s h x .idle)
    | _ => none

/-! ### What is observed -/

/-- The users told that they created the room, since it was last removed. -/
def toldSince (room : String) : List Event → List String
  | [] => []
  | .removed room' :: es => if room' = room then [] else toldSince room es
  | .roomCreated _ room' userId successful _ :: es =>
    if room' = room ∧ successful = true then userId :: toldSince room es else toldSince room es

def told (s : Server) (room : String) : List String := toldSince room s.events

/-- The step is `removeRoom(room)`. -/
def Removes (room : String) (s : Server) (a : Action) : Prop :=
  ∃ h, a = .resume h ∧ ∃ x ∈ s.handlers.lookup h, x.room = room ∧ x.phase = .removing

/-! ### What a step can do -/

/-- The rooms are as before, and nobody new is told that it created one. -/
structure SameRooms (s s' : Server) : Prop where
  objects : s'.objects = s.objects
  activeRooms : s'.activeRooms = s.activeRooms
  told : ∀ room, told s' room = told s room

/-- What a handler becomes at a step that leaves the rooms as they are. -/
inductive Moved (s : Server) : Action → Handler → Prop
  | rest {a : Action} {y : Handler} :
      y.phase = .idle ∨ y.phase = .marked ∨ y.phase = .removing ∨ (∃ roomReq, y.phase = .refusing roomReq) →
      (∀ x, s.handlers.lookup a.handler = some x → x.phase ≠ .created) → Moved s a y
  | creating {h : ℕ} {x : Handler} {roomReq : String} : s.handlers.lookup h = some x → x.phase = .idle →
      roomExists s roomReq = false → Moved s (.receive h (.createRoom roomReq)) { x with phase := .creating }
  | approved {h : ℕ} {x : Handler} {b : Bool} : s.handlers.lookup h = some x → x.phase = .idle →
      x.userId = getRoomCreator s x.room → Moved s (.receive h (.record b)) { x with phase := .approved b }
  | loaded {h p : ℕ} {x : Handler} {b : Bool} : s.handlers.lookup h = some x → x.phase = .approved b →
      s.activeRooms.lookup x.room = some p → Moved s (.resume h) { x with phase := .loaded p b }

inductive Stepped (s : Server) : Action → Server → Prop
  | quiet {a : Action} {s' : Server} : SameRooms s s' → s'.handlers = s.handlers → Stepped s a s'
  | move {a : Action} {s' : Server} {y : Handler} : SameRooms s s' →
      s'.handlers = s.handlers.insert a.handler y → Moved s a y → Stepped s a s'
  | remove {h : ℕ} {x : Handler} : s.handlers.lookup h = some x → x.phase = .removing →
      Stepped s (.resume h) (setPhase (removeRoom s x.room) h x .idle)
  | create {h : ℕ} {x : Handler} : s.handlers.lookup h = some x → x.phase = .creating →
      Stepped s (.resume h) (setPhase (createRoom s x.userId x.room) h x .created)
  | answer {h : ℕ} {x : Handler} : s.handlers.lookup h = some x → x.phase = .created →
      Stepped s (.resume h)
        (setPhase (emit s (.roomCreated x.clientID x.room x.userId true x.userId)) h x .idle)
  | write {h p : ℕ} {x : Handler} {b : Bool} : s.handlers.lookup h = some x → x.phase = .loaded p b →
      Stepped s (.resume h) (setPhase (writeStatus s p b) h x .idle)

section Stepped

variable {s s' : Server} {h : ℕ} {x : Handler}

theorem SameRooms.refl (s : Server) : SameRooms s s := ⟨rfl, rfl, fun _ => rfl⟩

theorem sameRooms_setMetadata (s : Server) (room clientID metadata : String) :
    SameRooms s (setMetadata s room clientID metadata) := by
  unfold setMetadata
  split <;> exact ⟨rfl, rfl, fun _ => rfl⟩

theorem handlers_setMetadata (s : Server) (room clientID metadata : String) :
    (setMetadata s room clientID metadata).handlers = s.handlers := by
  unfold setMetadata
  split <;> rfl

theorem not_created (hx : s.handlers.lookup h = some x) (hp : x.phase ≠ .created) (y : Handler)
    (hy : s.handlers.lookup h = some y) : y.phase ≠ .created := by
  rw [hx, Option.some.injEq] at hy
  exact hy ▸ hp

/-- A step that only moves its handler on. -/
theorem Moved.setPhase {a : Action} {phase : Phase} (hm : Moved s a { x with phase }) (hs : SameRooms s s')
    (hh : s'.handlers = s.handlers) : Stepped s a (setPhase s' a.handler x phase) :=
  .move ⟨hs.objects, hs.activeRooms, hs.told⟩ (by rw [← hh]; rfl) hm

/-- The first step of a message. -/
theorem stepped_handle (hx : s.handlers.lookup h = some x) (hidle : x.phase = .idle) (msg : Msg) :
    Stepped s (.receive h msg) (handle s h x msg) := by
  have hrest : ∀ y, s.handlers.lookup h = some y → y.phase ≠ .created := not_created hx (by simp [hidle])
  cases msg with
  | hangUp => exact .quiet (sameRooms_setMetadata ..) (handlers_setMetadata ..)
  | ready nickname =>
    have hm : Moved s (.receive h (.ready nickname)) { x with phase := .marked } :=
      .rest (Or.inr (Or.inl rfl)) hrest
    exact hm.setPhase (sameRooms_setMetadata ..) (handlers_setMetadata ..)
  | signal => exact .quiet (.refl s) rfl
  | createRoom roomReq =>
    simp only [handle]
    split_ifs with hex
    · have hm : Moved s (.receive h (.createRoom roomReq)) { x with phase := .refusing roomReq } :=
        .rest (Or.inr (Or.inr (Or.inr ⟨_, rfl⟩))) hrest
      exact hm.setPhase (.refl s) rfl
    · exact (Moved.creating hx hidle (by simpa using hex)).setPhase (.refl s) rfl
  | record b =>
    simp only [handle]
    split_ifs with huser
    · have hm : Moved s (.receive h (.record b)) { x with phase := .idle } := .rest (Or.inl rfl) hrest
      exact hm.setPhase (.refl s) rfl
    · exact (Moved.approved hx hidle (not_not.mp huser)).setPhase (.refl s) rfl

/-- Every further step. -/
theorem stepped_resume (hx : s.handlers.lookup h = some x) (hs : resume s h x = some s') :
    Stepped s (.resume h) s' := by
  have hrest : x.phase ≠ .created → ∀ y, s.handlers.lookup h = some y → y.phase ≠ .created := not_created hx
  unfold resume at hs
  cases hp : x.phase with
  | idle => simp [hp] at hs
  | marked =>
    simp only [hp, Option.some.injEq] at hs
    subst hs
    refine Moved.setPhase (.rest ?_ (hrest (by simp [hp]))) (.refl s) rfl
    split_ifs
    · exact Or.inr (Or.inr (Or.inl rfl))
    · exact Or.inl rfl
  | removing =>
    simp only [hp, Option.some.injEq] at hs
    exact hs ▸ .remove hx hp
  | refusing roomReq =>
    simp only [hp, Option.some.injEq] at hs
    subst hs
    refine .move ⟨rfl, rfl, fun room => ?_⟩ rfl (.rest (Or.inl rfl) (hrest (by simp [hp])))
    simp [told, setPhase, emit, toldSince]
  | creating =>
    simp only [hp, Option.some.injEq] at hs
    exact hs ▸ .create hx hp
  | created =>
    simp only [hp, Option.some.injEq] at hs
    exact hs ▸ .answer hx hp
  | approved b =>
    simp only [hp, Option.some.injEq] at hs
    subst hs
    split
    · exact (Moved.loaded hx hp ‹_›).setPhase (.refl s) rfl
    · exact Moved.setPhase (.rest (Or.inl rfl) (hrest (by simp [hp]))) (.refl s) rfl
  | loaded p b =>
    simp only [hp, Option.some.injEq] at hs
    exact hs ▸ .write hx hp

theorem stepped_of_step {a : Action} (hs : step s a = some s') : Stepped s a s' := by
  cases a with
  | connect h clientID room userId =>
    simp only [step] at hs
    cases hx : s.handlers.lookup h with
    | some x => simp [hx] at hs
    | none =>
      simp only [hx, Option.some.injEq] at hs
      subst hs
      refine .move ⟨rfl, rfl, fun _ => rfl⟩ rfl (.rest (Or.inl rfl) fun x hx' => ?_)
      rw [Action.handler, hx] at hx'
      cases hx'
  | leave h =>
    obtain ⟨x, -, rfl⟩ := Option.map_eq_some_iff.mp hs
    exact .quiet ⟨rfl, rfl, fun _ => rfl⟩ rfl
  | receive h msg =>
    obtain ⟨x, hx, hs⟩ := Option.bind_eq_some_iff.mp hs
    split_ifs at hs with hidle
    exact Option.some.inj hs ▸ stepped_handle hx hidle msg
  | resume h =>
    obtain ⟨x, hx, hs⟩ := Option.bind_eq_some_iff.mp hs
    exact stepped_resume hx hs
  | clientsFailed h =>
    obtain ⟨x, hx, hs⟩ := Option.bind_eq_some_iff.mp hs
    split_ifs at hs with hp
    obtain rfl := Option.some.inj hs
    exact Moved.setPhase (.rest (Or.inr (Or.inr (Or.inl rfl))) (not_created hx (by simp [hp]))) (.refl s) rfl
  | recordFailed h =>
    obtain ⟨x, hx, hs⟩ := Option.bind_eq_some_iff.mp hs
    cases hp : x.phase <;> simp only [hp, reduceCtorEq, Option.some.injEq] at hs
    subst hs
    exact Moved.setPhase (.rest (Or.inl rfl) (not_created hx (by simp [hp]))) (.refl s) rfl

end Stepped

/-! ### Owned rooms -/

/-- What a handler relies on for the rest of its message. -/
def Entitled (s : Server) (x : Handler) : Prop :=
  match x.phase with
  | .creating => ∀ v, creatorOf s x.room = some v → v = x.userId
  | .created => creatorOf s x.room = some x.userId
  | .approved _ => x.userId ∈ told s x.room
  | .loaded p _ => p < s.objects.length ∧
      ∀ room, s.activeRooms.lookup room = some p → room = x.room ∧ x.userId ∈ told s x.room
  | _ => True

structure Owned (s : Server) : Prop where
  pointer : ∀ {room p}, s.activeRooms.lookup room = some p → p < s.objects.length
  injective : ∀ {room room' p}, s.activeRooms.lookup room = some p →
    s.activeRooms.lookup room' = some p → room = room'
  creator : ∀ {room u}, u ∈ told s room → creatorOf s room = some u
  /-- The creator has been told, or is about to be. -/
  untold : ∀ {room u}, creatorOf s room = some u → u ∈ told s room ∨
    ∃ h x, s.handlers.lookup h = some x ∧ x.room = room ∧ x.phase = .created
  recording : ∀ {room}, statusOf s room = some true → ∃ u, u ∈ told s room
  entitled : ∀ {h x}, s.handlers.lookup h = some x → Entitled s x
  /-- Handlers about to store one room have the same user. -/
  agreeing : ∀ {h h' x x'}, s.handlers.lookup h = some x → s.handlers.lookup h' = some x' →
    x.phase = .creating → x'.phase = .creating → x.room = x'.room → x.userId = x'.userId

/-- The steps after which what was checked still holds when it is acted on.

* A `create_room` whose requested room does not exist is checked only where the room of the socket is not
  another user's, nor about to be stored by another user.
* A `record` is approved only in a room that exists and whose creator has been answered.
* A room is not removed while a handler is to answer its creator or to change its recording status. -/
def InOrder (s : Server) : Action → Prop
  | .receive h (.createRoom roomReq) => ∀ x ∈ s.handlers.lookup h, roomExists s roomReq = false →
      (∀ v ∈ creatorOf s x.room, v = x.userId) ∧
      ∀ e ∈ s.handlers.entries, e.2.room = x.room → e.2.phase = .creating → e.2.userId = x.userId
  | .receive h (.record _) => ∀ x ∈ s.handlers.lookup h, x.userId = getRoomCreator s x.room →
      roomExists s x.room = true ∧ ∀ e ∈ s.handlers.entries, e.2.room = x.room → e.2.phase ≠ .created
  | .resume h => ∀ x ∈ s.handlers.lookup h, x.phase = .removing →
      ∀ e ∈ s.handlers.entries, e.2.room = x.room → e.2.phase ≠ .created ∧ ∀ b, e.2.phase ≠ .approved b
  | _ => True

instance : DecidableRel InOrder
  | s, .receive h (.createRoom roomReq) => inferInstanceAs (Decidable (∀ x ∈ s.handlers.lookup h,
      roomExists s roomReq = false → (∀ v ∈ creatorOf s x.room, v = x.userId) ∧
      ∀ e ∈ s.handlers.entries, e.2.room = x.room → e.2.phase = .creating → e.2.userId = x.userId))
  | s, .receive h (.record _) => inferInstanceAs (Decidable (∀ x ∈ s.handlers.lookup h,
      x.userId = getRoomCreator s x.room → roomExists s x.room = true ∧
      ∀ e ∈ s.handlers.entries, e.2.room = x.room → e.2.phase ≠ .created))
  | s, .resume h => inferInstanceAs (Decidable (∀ x ∈ s.handlers.lookup h, x.phase = .removing →
      ∀ e ∈ s.handlers.entries, e.2.room = x.room → e.2.phase ≠ .created ∧ ∀ b, e.2.phase ≠ .approved b))
  | _, .connect _ _ _ _ | _, .leave _ | _, .clientsFailed _ | _, .recordFailed _ | _, .receive _ .hangUp
  | _, .receive _ (.ready _) | _, .receive _ .signal => instDecidableTrue

theorem owned_empty : Owned Server.empty := by
  refine ⟨?_, ?_, ?_, ?_, ?_, ?_, ?_⟩
  · intro room p h
    cases h
  · intro room room' p h
    cases h
  · intro room u h
    cases h
  · intro room u h
    cases h
  · intro room h
    cases h
  · intro h x hx
    cases hx
  · intro h h' x x' hx
    cases hx

section Owned

variable {s s' : Server} {a : Action} {h : ℕ} {x y : Handler}

theorem SameRooms.load (hs : SameRooms s s') (room : String) : load s' room = load s room := by
  rw [Rooms.load, hs.activeRooms, hs.objects, Rooms.load]

theorem SameRooms.creatorOf (hs : SameRooms s s') (room : String) :
    creatorOf s' room = creatorOf s room := by
  rw [Rooms.creatorOf, hs.load, Rooms.creatorOf]

theorem SameRooms.statusOf (hs : SameRooms s s') (room : String) : statusOf s' room = statusOf s room := by
  rw [Rooms.statusOf, hs.load, Rooms.statusOf]

theorem SameRooms.entitled (hs : SameRooms s s') : Entitled s' x ↔ Entitled s x := by
  unfold Entitled
  cases x.phase <;> simp only [hs.creatorOf, hs.told, hs.activeRooms, hs.objects]

theorem Owned.quiet (hO : Owned s) (hs : SameRooms s s') (hh : s'.handlers = s.handlers) : Owned s' := by
  refine ⟨?_, ?_, ?_, ?_, ?_, ?_, ?_⟩
  · rw [hs.activeRooms, hs.objects]
    exact hO.pointer
  · rw [hs.activeRooms]
    exact hO.injective
  · intro room u
    rw [hs.told, hs.creatorOf]
    exact hO.creator
  · intro room u
    rw [hs.told, hs.creatorOf, hh]
    exact hO.untold
  · intro room
    rw [hs.told, hs.statusOf]
    exact hO.recording
  · intro h x
    rw [hh, hs.entitled]
    exact hO.entitled
  · rw [hh]
    exact hO.agreeing

/-- A handler moves on. -/
theorem Owned.move (hO : Owned s) (hs : SameRooms s s') (hh : s'.handlers = s.handlers.insert h y)
    (hy : Entitled s y)
    (hnew : y.phase = .creating → ∀ h' x', s.handlers.lookup h' = some x' → x'.phase = .creating →
      x'.room = y.room → x'.userId = y.userId)
    (hold : ∀ x, s.handlers.lookup h = some x → x.phase = .created → x.userId ∈ told s x.room) : Owned s' := by
  refine ⟨?_, ?_, ?_, ?_, ?_, ?_, ?_⟩
  · rw [hs.activeRooms, hs.objects]
    exact hO.pointer
  · rw [hs.activeRooms]
    exact hO.injective
  · intro room u
    rw [hs.told, hs.creatorOf]
    exact hO.creator
  · intro room u hu
    rw [hs.creatorOf] at hu
    rw [hs.told, hh]
    refine or_iff_not_imp_left.mpr fun hnot => ?_
    obtain ⟨h', x', hx', hroom, hp⟩ := (hO.untold hu).resolve_left hnot
    refine ⟨h', x', ?_, hroom, hp⟩
    have hne : h' ≠ h := by
      rintro rfl
      -- the handler that moves has told its user, who is the creator
      have hu' : creatorOf s x'.room = some x'.userId := by
        have := hO.entitled hx'
        rwa [Entitled, hp] at this
      rw [hroom, hu, Option.some.injEq] at hu'
      have := hold x' hx' hp
      rw [hroom, ← hu'] at this
      exact hnot this
    rw [AList.lookup_insert_ne hne, hx']
  · intro room
    rw [hs.told, hs.statusOf]
    exact hO.recording
  · intro h' x' hx'
    rw [hs.entitled]
    rw [hh] at hx'
    rcases lookup_insert_cases hx' with ⟨-, rfl⟩ | ⟨-, hx'⟩
    · exact hy
    · exact hO.entitled hx'
  · intro h₁ h₂ x₁ x₂ h1 h2 hp1 hp2 hroom
    rw [hh] at h1 h2
    rcases lookup_insert_cases h1 with ⟨-, rfl⟩ | ⟨-, h1'⟩ <;>
      rcases lookup_insert_cases h2 with ⟨-, rfl⟩ | ⟨-, h2'⟩
    · rfl
    · exact (hnew hp1 h₂ x₂ h2' hp2 hroom.symm).symm
    · exact hnew hp2 h₁ x₁ h1' hp1 hroom
    · exact hO.agreeing h1' h2' hp1 hp2 hroom

@[simp] theorem load_setPhase (phase : Phase) (r : String) : load (setPhase s h x phase) r = load s r := rfl

theorem load_removeRoom (room r : String) :
    load (removeRoom s room) r = if r = room then none else load s r := by
  unfold load removeRoom
  split_ifs with hr
  · rw [hr, AList.lookup_erase]
    rfl
  · rw [AList.lookup_erase_ne hr]

theorem told_removeRoom (room r : String) :
    told (removeRoom s room) r = if r = room then [] else told s r := by
  simp only [told, removeRoom, toldSince, eq_comm]

theorem creatorOf_removeRoom (room r : String) :
    creatorOf (removeRoom s room) r = if r = room then none else creatorOf s r := by
  rw [creatorOf, load_removeRoom]
  split_ifs <;> rfl

/-- A handler that is not about to answer the creator of the room or to load its pointer can do without it. -/
theorem Entitled.remove {room : String} (hx : Entitled s x)
    (hfree : x.room = room → x.phase ≠ .created ∧ ∀ b, x.phase ≠ .approved b) :
    Entitled (removeRoom s room) x := by
  unfold Entitled at hx ⊢
  cases hp : x.phase with
  | creating =>
    intro v hv
    rw [creatorOf_removeRoom] at hv
    split_ifs at hv
    rw [hp] at hx
    exact hx v hv
  | created =>
    rw [hp] at hx
    simp only [creatorOf_removeRoom, if_neg fun hr => (hfree hr).1 hp]
    exact hx
  | approved b =>
    rw [hp] at hx
    simp only [told_removeRoom, if_neg fun hr => (hfree hr).2 b hp]
    exact hx
  | loaded p b =>
    rw [hp] at hx
    refine ⟨hx.1, fun r hr => ?_⟩
    obtain ⟨hne, hr⟩ := lookup_of_lookup_erase hr
    obtain ⟨rfl, htold⟩ := hx.2 r hr
    exact ⟨rfl, by rwa [told_removeRoom, if_neg hne]⟩
  | _ => trivial

/-- A room is removed while nobody relies on it. -/
theorem Owned.remove (hO : Owned s) {room : String}
    (hfree : ∀ h x, s.handlers.lookup h = some x → x.room = room →
      x.phase ≠ .created ∧ ∀ b, x.phase ≠ .approved b) : Owned (removeRoom s room) := by
  have hactive : ∀ {r p}, (removeRoom s room).activeRooms.lookup r = some p →
      s.activeRooms.lookup r = some p := fun hp => (lookup_of_lookup_erase hp).2
  refine ⟨fun hp => hO.pointer (hactive hp), fun hp hp' => hO.injective (hactive hp) (hactive hp'),
    ?_, ?_, ?_, fun hx => (hO.entitled hx).remove (hfree _ _ hx), hO.agreeing⟩
  · intro r u hu
    rw [told_removeRoom] at hu
    rw [creatorOf_removeRoom]
    split_ifs at hu ⊢
    · cases hu
    · exact hO.creator hu
  · intro r u hu
    rw [creatorOf_removeRoom] at hu
    rw [told_removeRoom]
    split_ifs at hu ⊢
    exact hO.untold hu
  · intro r hr
    rw [statusOf, load_removeRoom] at hr
    rw [told_removeRoom]
    split_ifs at hr ⊢
    · cases hr
    · exact hO.recording hr

theorem load_createRoom (hO : Owned s) (u room r : String) :
    load (createRoom s u room) r = if r = room then some ⟨u, false⟩ else load s r := by
  unfold load createRoom
  split_ifs with hr
  · rw [hr, AList.lookup_insert]
    simp
  · rw [AList.lookup_insert_ne hr]
    cases hp : s.activeRooms.lookup r with
    | none => rfl
    | some p => exact List.getElem?_append_left (hO.pointer hp)

theorem Owned.mine (hO : Owned s) (hx : s.handlers.lookup h = some x) (hp : x.phase = .creating) {v : String}
    (hv : creatorOf s x.room = some v) : v = x.userId := by
  have := hO.entitled hx
  rw [Entitled, hp] at this
  exact this v hv

theorem creatorOf_createRoom (hO : Owned s) (u room r : String) :
    creatorOf (createRoom s u room) r = if r = room then some u else creatorOf s r := by
  rw [creatorOf, load_createRoom hO]
  split_ifs <;> rfl

theorem length_createRoom (u room : String) : (createRoom s u room).objects.length = s.objects.length + 1 :=
  List.length_append

/-- The other handlers of the room have the same user. -/
theorem Owned.entitled_create (hO : Owned s) (hx : s.handlers.lookup h = some x) (hp : x.phase = .creating)
    {h' : ℕ} {z : Handler} (hz : s.handlers.lookup h' = some z) :
    Entitled (createRoom s x.userId x.room) z := by
  have hold := hO.entitled hz
  unfold Entitled at hold ⊢
  cases hpz : z.phase with
  | creating =>
    intro v hv
    rw [hpz] at hold
    rw [creatorOf_createRoom hO] at hv
    split_ifs at hv with hroom
    · exact (Option.some.inj hv).symm.trans (hO.agreeing hx hz hp hpz hroom.symm)
    · exact hold v hv
  | created =>
    rw [hpz] at hold
    simp only [creatorOf_createRoom hO]
    split_ifs with hroom
    · rw [hroom] at hold
      rw [hO.mine hx hp hold]
    · exact hold
  | approved b =>
    rw [hpz] at hold
    exact hold
  | loaded p b =>
    rw [hpz] at hold
    refine ⟨?_, fun r hr => ?_⟩
    · rw [length_createRoom]
      exact Nat.lt_succ_of_lt hold.1
    · -- the new pointer is not the one it has loaded
      rcases lookup_insert_cases hr with ⟨-, rfl⟩ | ⟨-, hr⟩
      · exact absurd hold.1 (lt_irrefl _)
      · exact hold.2 r hr
  | _ => trivial

/-- A room is stored that is not another user's, for a user who is about to be told. -/
theorem Owned.create (hO : Owned s) (hx : s.handlers.lookup h = some x) (hp : x.phase = .creating) :
    Owned (setPhase (createRoom s x.userId x.room) h x .created) := by
  have hcreator : ∀ r, creatorOf (setPhase (createRoom s x.userId x.room) h x .created) r =
      if r = x.room then some x.userId else creatorOf s r := creatorOf_createRoom hO x.userId x.room
  refine ⟨?_, ?_, ?_, ?_, ?_, ?_, ?_⟩
  · intro r p hr
    show p < (createRoom s x.userId x.room).objects.length
    rw [length_createRoom]
    rcases lookup_insert_cases hr with ⟨-, rfl⟩ | ⟨-, hr⟩
    · exact Nat.lt_succ_self _
    · exact Nat.lt_succ_of_lt (hO.pointer hr)
  · intro r r' p hr hr'
    -- the new pointer is not in use
    rcases lookup_insert_cases hr with ⟨rfl, rfl⟩ | ⟨-, hr⟩ <;>
      rcases lookup_insert_cases hr' with ⟨rfl, hp'⟩ | ⟨-, hr'⟩
    · rfl
    · exact absurd (hO.pointer hr') (lt_irrefl _)
    · exact absurd (hO.pointer hr) (hp' ▸ lt_irrefl _)
    · exact hO.injective hr hr'
  · intro r u hu
    have hold := hO.creator hu
    rw [hcreator]
    split_ifs with hr
    · subst hr
      rw [hO.mine hx hp hold]
    · exact hold
  · intro r u hu
    rw [hcreator] at hu
    split_ifs at hu with hr
    · exact Or.inr ⟨h, _, AList.lookup_insert _, hr.symm, rfl⟩
    · refine (hO.untold hu).imp_right ?_
      rintro ⟨h', x', hx', hroom, hp'⟩
      have hne : h' ≠ h := by
        rintro rfl
        exact not_created hx (by simp [hp]) x' hx' hp'
      exact ⟨h', x', (AList.lookup_insert_ne hne).trans hx', hroom, hp'⟩
  · intro r hr
    rw [statusOf, load_setPhase, load_createRoom hO] at hr
    split_ifs at hr
    · cases hr
    · exact hO.recording hr
  · intro h' z hz
    rcases lookup_insert_cases hz with ⟨-, rfl⟩ | ⟨-, hz⟩
    · exact (hcreator x.room).trans (if_pos rfl)
    · exact hO.entitled_create hx hp hz
  · intro h₁ h₂ x₁ x₂ h1 h2 hp1 hp2 hroom
    rcases lookup_insert_cases h1 with ⟨-, rfl⟩ | ⟨-, h1⟩
    · cases hp1
    · rcases lookup_insert_cases h2 with ⟨-, rfl⟩ | ⟨-, h2⟩
      · cases hp2
      · exact hO.agreeing h1 h2 hp1 hp2 hroom

theorem told_answer (c room u r : String) :
    told (emit s (.roomCreated c room u true u)) r = if r = room then u :: told s r else told s r := by
  simp only [told, emit, toldSince, and_true, eq_comm]

/-- The creator is told. -/
theorem Owned.answer (hO : Owned s) {c room u : String} (hu : creatorOf s room = some u) :
    Owned (emit s (.roomCreated c room u true u)) := by
  have hmono : ∀ {r v}, v ∈ told s r → v ∈ told (emit s (.roomCreated c room u true u)) r := by
    intro r v hv
    rw [told_answer]
    split_ifs
    · exact List.mem_cons_of_mem _ hv
    · exact hv
  refine ⟨hO.pointer, hO.injective, ?_, fun hv => (hO.untold hv).imp_left hmono,
    fun hr => (hO.recording hr).imp fun _ => hmono, ?_, hO.agreeing⟩
  · intro r v hv
    rw [told_answer] at hv
    split_ifs at hv with hr
    · rcases List.mem_cons.mp hv with rfl | hv
      · exact hr ▸ hu
      · exact hO.creator hv
    · exact hO.creator hv
  · intro h x hx
    have hold := hO.entitled hx
    unfold Entitled at hold ⊢
    cases hp : x.phase with
    | approved b =>
      rw [hp] at hold
      exact hmono hold
    | loaded p b =>
      rw [hp] at hold
      exact ⟨hold.1, fun r hr => (hold.2 r hr).imp_right hmono⟩
    | creating | created =>
      rw [hp] at hold
      exact hold
    | _ => trivial

theorem load_writeStatus (p : ℕ) (b : Bool) (r : String) :
    load (writeStatus s p b) r = if s.activeRooms.lookup r = some p then
      (load s r).map fun x => { x with recordingStatus := b } else load s r := by
  unfold load writeStatus
  cases hr : s.activeRooms.lookup r with
  | none => simp
  | some q =>
    by_cases hq : q = p
    · subst hq
      simp
    · simp [hq, List.getElem?_modify_ne _ _ (Ne.symm hq)]

theorem creatorOf_writeStatus (p : ℕ) (b : Bool) (r : String) :
    creatorOf (writeStatus s p b) r = creatorOf s r := by
  rw [creatorOf, load_writeStatus]
  split_ifs
  · rw [Option.map_map]
    rfl
  · rfl

/-- The recording status is changed by a user who was told. -/
theorem Owned.write (hO : Owned s) {p : ℕ} {b : Bool}
    (htold : ∀ r, s.activeRooms.lookup r = some p → ∃ u, u ∈ told s r) : Owned (writeStatus s p b) := by
  have hlength : (writeStatus s p b).objects.length = s.objects.length := List.length_modify ..
  refine ⟨fun hr => ?_, hO.injective, ?_, ?_, ?_, ?_, hO.agreeing⟩
  · exact hlength ▸ hO.pointer hr
  · intro r u hu
    rw [creatorOf_writeStatus]
    exact hO.creator hu
  · intro r u hu
    rw [creatorOf_writeStatus] at hu
    exact hO.untold hu
  · intro r hr
    rw [statusOf, load_writeStatus] at hr
    split_ifs at hr with hrp
    · exact htold r hrp
    · exact hO.recording hr
  · intro h x hx
    have hold := hO.entitled hx
    unfold Entitled at hold ⊢
    simp only [creatorOf_writeStatus]
    cases hp : x.phase with
    | loaded q b' =>
      rw [hp] at hold
      exact ⟨hlength ▸ hold.1, hold.2⟩
    | creating | created | approved =>
      rw [hp] at hold
      exact hold
    | _ => trivial

/-- The approved user has been told that it created the room. -/
theorem Owned.told_of_approved (hO : Owned s) (huser : x.userId = getRoomCreator s x.room)
    (hex : roomExists s x.room = true)
    (hanswered : ∀ e ∈ s.handlers.entries, e.2.room = x.room → e.2.phase ≠ .created) :
    x.userId ∈ told s x.room := by
  obtain ⟨p, hp⟩ := Option.isSome_iff_exists.mp hex
  obtain ⟨o, ho⟩ : ∃ o, s.objects[p]? = some o := ⟨_, List.getElem?_eq_getElem (hO.pointer hp)⟩
  have hcreator : creatorOf s x.room = some o.creatorId := by
    rw [creatorOf, load, hp, Option.bind_some, ho, Option.map_some]
  rw [getRoomCreator, hcreator, Option.getD_some] at huser
  rw [huser]
  refine (hO.untold hcreator).resolve_right ?_
  rintro ⟨h', x', hx', hroom, hcreated⟩
  exact hanswered ⟨h', x'⟩ (AList.mem_lookup_iff.mp hx') hroom hcreated

/-- A handler moves on as its checks allow. -/
theorem Owned.moved (hO : Owned s) (hok : InOrder s a) (hs : SameRooms s s')
    (hh : s'.handlers = s.handlers.insert a.handler y) (hm : Moved s a y) : Owned s' := by
  cases hm with
  | rest hphase hnot =>
    refine hO.move hs hh ?_ ?_ fun x hx hp => absurd hp (hnot x hx)
    · unfold Entitled
      rcases hphase with hp | hp | hp | ⟨_, hp⟩ <;> rw [hp] <;> trivial
    · intro hc
      rcases hphase with hp | hp | hp | ⟨_, hp⟩ <;> rw [hp] at hc <;> cases hc
  | creating hx hidle hex =>
    obtain ⟨hmine, hothers⟩ := hok _ hx hex
    refine hO.move hs hh hmine (fun _ h' x' hx' hp' hroom => ?_) fun x' hx' hp' => ?_
    · exact hothers ⟨h', x'⟩ (AList.mem_lookup_iff.mp hx') hroom hp'
    · exact absurd hp' (not_created hx (by simp [hidle]) x' hx')
  | approved hx hidle huser =>
    obtain ⟨hex, hanswered⟩ := hok _ hx huser
    refine hO.move hs hh (hO.told_of_approved huser hex hanswered) (fun hp => by cases hp) fun x' hx' hp' => ?_
    exact absurd hp' (not_created hx (by simp [hidle]) x' hx')
  | loaded hx hp hl =>
    have htold := hO.entitled hx
    rw [Entitled, hp] at htold
    refine hO.move hs hh ⟨hO.pointer hl, fun r hr => ⟨hO.injective hr hl, htold⟩⟩ (fun hp => by cases hp)
      fun x' hx' hp' => ?_
    exact absurd hp' (not_created hx (by simp [hp]) x' hx')

/-- A handler that is done with its message. -/
theorem Owned.rest (hO : Owned s) (hx : s.handlers.lookup h = some x)
    (hold : x.phase = .created → x.userId ∈ told s x.room) : Owned (setPhase s h x .idle) := by
  refine hO.move ⟨rfl, rfl, fun _ => rfl⟩ rfl trivial (fun hp => by cases hp) fun x' hx' hp' => ?_
  rw [hx, Option.some.injEq] at hx'
  exact hx' ▸ hold (hx' ▸ hp')

/-- **Step lemma.** -/
theorem Owned.step (hO : Owned s) (hok : InOrder s a) (hs : Stepped s a s') : Owned s' := by
  cases hs with
  | quiet hs hh => exact hO.quiet hs hh
  | move hs hh hm => exact hO.moved hok hs hh hm
  | remove hx hp =>
    have hfree := hok _ hx hp
    have hO' := hO.remove fun h' x' hx' => hfree ⟨h', x'⟩ (AList.mem_lookup_iff.mp hx')
    exact hO'.rest hx fun hc => by rw [hp] at hc; cases hc
  | create hx hp => exact hO.create hx hp
  | answer hx hp =>
    have hcreator := hO.entitled hx
    rw [Entitled, hp] at hcreator
    exact (hO.answer hcreator).rest hx fun _ => by simp [told_answer]
  | write hx hp =>
    have hloaded := hO.entitled hx
    rw [Entitled, hp] at hloaded
    refine (hO.write fun r hr => ?_).rest hx fun hc => by rw [hp] at hc; cases hc
    obtain ⟨rfl, htold⟩ := hloaded.2 r hr
    exact ⟨_, htold⟩

/-- Only `removeRoom` takes the creator of a room. -/
theorem Owned.creatorOf_step (hO : Owned s) (hs : Stepped s a s') {room u : String}
    (hu : creatorOf s room = some u) (hr : ¬ Removes room s a) : creatorOf s' room = some u := by
  cases hs with
  | quiet hs => rw [hs.creatorOf, hu]
  | move hs => rw [hs.creatorOf, hu]
  | @remove h x hx hp =>
    have hne : room ≠ x.room := fun hroom => hr ⟨h, rfl, x, hx, hroom.symm, hp⟩
    exact (creatorOf_removeRoom x.room room).trans ((if_neg hne).trans hu)
  | @create h x hx hp =>
    refine (creatorOf_createRoom hO x.userId x.room room).trans ?_
    split_ifs with hroom
    · subst hroom
      rw [hO.mine hx hp hu]
    · exact hu
  | answer => exact hu
  | write => exact (creatorOf_writeStatus ..).trans hu

/-- Only a user who was told that it created the room changes its recording status. -/
theorem Owned.told_of_status_step (hO : Owned s) (hs : Stepped s a s') {room : String} {b b' : Bool}
    (hb : statusOf s room = some b) (hb' : statusOf s' room = some b') (hne : b ≠ b') :
    ∃ x, s.handlers.lookup a.handler = some x ∧ x.userId ∈ told s room := by
  have hsame : statusOf s' room ≠ statusOf s room := by
    rw [hb, hb']
    exact fun h' => hne (Option.some.inj h').symm
  cases hs with
  | quiet hs => exact absurd (hs.statusOf room) hsame
  | move hs => exact absurd (hs.statusOf room) hsame
  | @remove h x hx hp =>
    rw [statusOf, load_setPhase, load_removeRoom] at hb' hsame
    split_ifs at hb' hsame
    · cases hb'
    · exact absurd rfl hsame
  | @create h x hx hp =>
    rw [statusOf, load_setPhase, load_createRoom hO] at hb' hsame
    split_ifs at hb' hsame with hroom
    · -- the status was set, so its creator was told, and it is this user
      subst hroom
      obtain rfl : b' = false := (Option.some.inj hb').symm
      obtain ⟨u, hu⟩ := hO.recording (hb.trans (by simpa using hne))
      exact ⟨x, hx, hO.mine hx hp (hO.creator hu) ▸ hu⟩
    · exact absurd rfl hsame
  | answer => exact absurd rfl hsame
  | @write h p x c hx hp =>
    rw [statusOf, load_setPhase, load_writeStatus] at hsame
    split_ifs at hsame with hroom
    · have hloaded := hO.entitled hx
      rw [Entitled, hp] at hloaded
      obtain ⟨rfl, htold⟩ := hloaded.2 room hroom
      exact ⟨x, hx, htold⟩
    · exact absurd rfl hsame

end Owned

theorem owned_of_reach {s : Server} (h : Reach step InOrder Server.empty s) : Owned s :=
  h.invariant owned_empty fun _ _ _ hi hok hs => hi.step hok (stepped_of_step hs)

theorem creatorOf_run {s s' : Server} {room u : String} (hO : Owned s) (hu : creatorOf s room = some u)
    (h : Reach step (fun s a => InOrder s a ∧ ¬ Removes room s a) s s') :
    Owned s' ∧ creatorOf s' room = some u := by
  refine h.invariant (I := fun s => Owned s ∧ creatorOf s room = some u) ⟨hO, hu⟩ ?_
  rintro s a s' ⟨hO, hu⟩ ⟨hok, hkeep⟩ hs
  exact ⟨hO.step hok (stepped_of_step hs), hO.creatorOf_step (stepped_of_step hs) hu hkeep⟩

end Meeting.Mesh.Rooms
