import Meeting.Streams.Ledger

/-!
# Meeting.Streams.Board — what the page has to show of the remote tracks

A `Board` has one tile for each remote track: the track is shown or not, and the metadata name the user and
the stream of its tile.  Of the four records of the streams reducer it has the metadata and none of the other three;
`Meeting.Streams.Playing` proves that the page shows the board.

* `Valid` holds along all possible runs of events: a muted track is shown only where the metadata say;
* `Live` holds along those of direct connections: a track is shown exactly while it is not muted.
-/

namespace Meeting.Streams.Playing

open Meeting.Lib

/-! ### Events -/

inductive Event where
  /-- The `track` event of a peer. -/
  | track (payload : AddTrackPayload) (muted : Bool)
  | mute (track : String)
  | unmute (track : String)
  /-- `PEER_REMOVE` while the connection is still there (`createPeer`, `handleError`). -/
  | peerRemove (userId : String)
  /-- The connection is closed: `handleClose`. -/
  | close (userId : String)
  /-- The `metadata` message. -/
  | metadata (payload : MetadataPayload)
  /-- The `hangUp` message of another user. -/
  | hangUp (userId : String)
  /-- `HANG_UP`: the user leaves the call. -/
  | leave
  deriving DecidableEq, Repr

/-! ### The board -/

/-- A remote track; it is known once it was shown. -/
structure Tile where
  payload : AddTrackPayload
  muted : Bool
  known : Bool
  shown : Bool
  deriving DecidableEq, Repr

structure Board where
  tiles : List Tile
  metadata : AList fun _ : String => TrackMetadata

/-- The stream and the user of a track: those of the metadata when they name the track, else its own. -/
def place (M : AList fun _ : String => TrackMetadata) (p : AddTrackPayload) : TrackAssociation :=
  ((M.lookup p.key).map TrackMetadata.target).getD ⟨p.streamId, p.userId⟩

namespace Board

def start : Board := ⟨[], ∅⟩

/-- The tile of a track that was handed over; a track that is not muted is shown. -/
def tileOf (b : Board) (p : AddTrackPayload) (muted : Bool) : Tile :=
  let old := b.tiles.find? fun x => x.payload.track = p.track
  { payload := p, muted
    known := !muted || (old.map Tile.known).getD false
    shown := !muted || (old.map Tile.shown).getD false }

def put (b : Board) (p : AddTrackPayload) (muted : Bool) : Board :=
  { b with tiles := b.tileOf p muted :: b.tiles.filter fun x => x.payload.track ≠ p.track }

/-- The track is hidden. -/
def hide (track : String) (x : Tile) : Tile :=
  if x.payload.track = track then { x with muted := true, shown := false } else x

/-- The page forgets the tracks of a peer. -/
def forget (userId : String) (x : Tile) : Tile :=
  if x.payload.userId = userId then { x with known := false, shown := false } else x

def next (b : Board) : Event → Board
  | .track p muted => b.put p muted
  | .mute track => { b with tiles := b.tiles.map (hide track) }
  | .unmute track =>
    match b.tiles.find? fun x => x.payload.track = track with
    | none => b
    | some x => b.put x.payload false
  | .peerRemove userId => { b with tiles := b.tiles.map (forget userId) }
  | .close userId => { b with tiles := b.tiles.filter fun x => x.payload.userId ≠ userId }
  -- all known tracks that the metadata name are shown, muted or not, and no others
  | .metadata p =>
    { metadata := keyBy p.userId p.metadata
      tiles := b.tiles.map fun x =>
        { x with shown := x.known && ((keyBy p.userId p.metadata).lookup x.payload.key).isSome } }
  | .hangUp userId =>
    { b with tiles := b.tiles.map fun x =>
        { x with shown := x.shown && (place b.metadata x.payload).userId ≠ userId } }
  | .leave => { metadata := ∅, tiles := (b.tiles.filter fun x => !x.shown).map fun x => { x with known := false } }

def step (b : Board) (e : Event) : Option Board := some (b.next e)

end Board

/-- What the connections do: user ids have no colon, each (peer, mid) has one track, and a track is handed over
again with another stream only while it is muted. -/
def Possible (b : Board) : Event → Prop
  | .track p muted => ':' ∉ p.userId.toList ∧ ∀ x ∈ b.tiles,
      (x.payload.userId = p.userId ∧ x.payload.mid = p.mid ↔ x.payload.track = p.track) ∧
      (x.payload.track = p.track → x.muted = muted ∧ (muted = false → x.payload.streamId = p.streamId))
  | .peerRemove userId | .close userId => ':' ∉ userId.toList
  | _ => True

instance : DecidableRel Possible
  | b, .track p muted => inferInstanceAs (Decidable (':' ∉ p.userId.toList ∧ ∀ x ∈ b.tiles,
      (x.payload.userId = p.userId ∧ x.payload.mid = p.mid ↔ x.payload.track = p.track) ∧
      (x.payload.track = p.track → x.muted = muted ∧ (muted = false → x.payload.streamId = p.streamId))))
  | _, .peerRemove userId | _, .close userId => inferInstanceAs (Decidable (':' ∉ userId.toList))
  | _, .mute _ | _, .unmute _ | _, .metadata _ | _, .hangUp _ | _, .leave => isTrue trivial

/-! ### Boards -/

/-- The track fits on the board: its peer has no other track at its mid. -/
def Fits (b : Board) (p : AddTrackPayload) : Prop :=
  ':' ∉ p.userId.toList ∧ ∀ x ∈ b.tiles, x.payload.key = p.key ↔ x.payload.track = p.track

structure Valid (b : Board) : Prop where
  fits : ∀ x ∈ b.tiles, Fits b x.payload
  unique : ∀ x ∈ b.tiles, ∀ y ∈ b.tiles, x.payload.track = y.payload.track → x = y
  known : ∀ x ∈ b.tiles, x.shown = true → x.known = true
  /-- A muted track is shown only where the metadata say. -/
  placed : ∀ x ∈ b.tiles, x.shown = true → x.muted = true → b.metadata.lookup x.payload.key ≠ none

theorem valid_start : Valid Board.start := by
  constructor <;> intro x hx <;> cases hx

section Boards

variable {b : Board} {p : AddTrackPayload} {x y : Tile} {muted : Bool}

theorem mem_put : y ∈ (b.put p muted).tiles ↔
    y = b.tileOf p muted ∨ y ∈ b.tiles ∧ y.payload.track ≠ p.track := by
  simp [Board.put]

theorem Valid.find (hV : Valid b) (hx : x ∈ b.tiles) {t : String} (ht : x.payload.track = t) :
    b.tiles.find? (fun x => x.payload.track = t) = some x := by
  cases h : b.tiles.find? fun x => x.payload.track = t with
  | none => exact absurd (decide_eq_true ht) (List.find?_eq_none.mp h x hx)
  | some y =>
    have hy : y.payload.track = t := by simpa using List.find?_some h
    rw [hV.unique y (List.mem_of_find?_eq_some h) x hx (hy.trans ht.symm)]

theorem Valid.tileOf (hV : Valid b) (hx : x ∈ b.tiles) (ht : x.payload.track = p.track) (muted : Bool) :
    b.tileOf p muted = ⟨p, muted, !muted || x.known, !muted || x.shown⟩ := by
  simp [Board.tileOf, hV.find hx ht]

theorem tileOf_of_notMem (h : ∀ x ∈ b.tiles, x.payload.track ≠ p.track) (muted : Bool) :
    b.tileOf p muted = ⟨p, muted, !muted, !muted⟩ := by
  have hnone : b.tiles.find? (fun x => x.payload.track = p.track) = none := by
    rw [List.find?_eq_none]
    exact fun x hx => by simpa using h x hx
  simp [Board.tileOf, hnone]

/-- The new tile, beside the one it replaces. -/
theorem Valid.tileOf_cases (hV : Valid b) (p : AddTrackPayload) (muted : Bool) :
    (∃ x ∈ b.tiles, x.payload.track = p.track ∧
      b.tileOf p muted = ⟨p, muted, !muted || x.known, !muted || x.shown⟩) ∨
    (∀ x ∈ b.tiles, x.payload.track ≠ p.track) ∧ b.tileOf p muted = ⟨p, muted, !muted, !muted⟩ := by
  by_cases h : ∃ x ∈ b.tiles, x.payload.track = p.track
  · obtain ⟨x, hx, ht⟩ := h
    exact Or.inl ⟨x, hx, ht, hV.tileOf hx ht muted⟩
  · have h' : ∀ x ∈ b.tiles, x.payload.track ≠ p.track := fun x hx ht => h ⟨x, hx, ht⟩
    exact Or.inr ⟨h', tileOf_of_notMem h' muted⟩

theorem Valid.put (hV : Valid b) (hfit : Fits b p)
    (hmuted : ∀ x ∈ b.tiles, x.payload.track = p.track → muted = true → x.muted = true) :
    Valid (b.put p muted) := by
  have hnew : (b.tileOf p muted).payload = p := rfl
  refine ⟨?_, ?_, ?_, ?_⟩
  · intro y hy
    rcases mem_put.mp hy with rfl | ⟨hy, hyp⟩
    · refine ⟨hfit.1, fun z hz => ?_⟩
      rcases mem_put.mp hz with rfl | ⟨hz, -⟩
      · simp
      · exact hfit.2 z hz
    · refine ⟨(hV.fits y hy).1, fun z hz => ?_⟩
      rcases mem_put.mp hz with rfl | ⟨hz, -⟩
      · rw [hnew, eq_comm, hfit.2 y hy, eq_comm]
      · exact (hV.fits y hy).2 z hz
  · intro y hy z hz ht
    rcases mem_put.mp hy with rfl | ⟨hy, hyp⟩ <;> rcases mem_put.mp hz with rfl | ⟨hz, hzp⟩
    · rfl
    · exact absurd ht.symm hzp
    · exact absurd ht hyp
    · exact hV.unique y hy z hz ht
  · intro y hy hs
    rcases mem_put.mp hy with rfl | ⟨hy, -⟩
    · rcases hV.tileOf_cases p muted with ⟨x, hx, -, he⟩ | ⟨-, he⟩ <;> rw [he] at hs ⊢
      · rcases Bool.or_eq_true _ _ ▸ hs with hs | hs
        · simp [hs]
        · simp [hV.known x hx hs]
      · exact hs
    · exact hV.known y hy hs
  · intro y hy hs hm
    rcases mem_put.mp hy with rfl | ⟨hy, -⟩
    · change muted = true at hm
      rcases hV.tileOf_cases p muted with ⟨x, hx, ht, he⟩ | ⟨-, he⟩
      · rw [he, hm] at hs
        have hkey := (hfit.2 x hx).mpr ht
        exact hkey ▸ hV.placed x hx (by simpa using hs) (hmuted x hx ht hm)
      · rw [he, hm] at hs
        cases hs
    · exact hV.placed y hy hs hm

/-- Changing tiles one by one. -/
theorem Valid.map (hV : Valid b) {M : AList fun _ : String => TrackMetadata} {f : Tile → Tile}
    (hpayload : ∀ x, (f x).payload = x.payload)
    (hknown : ∀ x ∈ b.tiles, (f x).shown = true → (f x).known = true)
    (hplaced : ∀ x ∈ b.tiles, (f x).shown = true → (f x).muted = true → M.lookup x.payload.key ≠ none) :
    Valid ⟨b.tiles.map f, M⟩ := by
  refine ⟨?_, ?_, ?_, ?_⟩
  · intro y hy
    obtain ⟨x, hx, rfl⟩ := List.mem_map.mp hy
    refine ⟨by rw [hpayload]; exact (hV.fits x hx).1, fun z hz => ?_⟩
    obtain ⟨w, hw, rfl⟩ := List.mem_map.mp hz
    rw [hpayload, hpayload]
    exact (hV.fits x hx).2 w hw
  · intro y hy z hz ht
    obtain ⟨x, hx, rfl⟩ := List.mem_map.mp hy
    obtain ⟨w, hw, rfl⟩ := List.mem_map.mp hz
    rw [hpayload, hpayload] at ht
    rw [hV.unique x hx w hw ht]
  · intro y hy
    obtain ⟨x, hx, rfl⟩ := List.mem_map.mp hy
    exact hknown x hx
  · intro y hy
    obtain ⟨x, hx, rfl⟩ := List.mem_map.mp hy
    rw [hpayload]
    exact hplaced x hx

theorem Valid.filter (hV : Valid b) (P : Tile → Bool) : Valid { b with tiles := b.tiles.filter P } := by
  have hmem : ∀ {x}, x ∈ b.tiles.filter P → x ∈ b.tiles := fun h => (List.mem_filter.mp h).1
  exact ⟨fun x hx => ⟨(hV.fits x (hmem hx)).1, fun y hy => (hV.fits x (hmem hx)).2 y (hmem hy)⟩,
    fun x hx y hy => hV.unique x (hmem hx) y (hmem hy), fun x hx => hV.known x (hmem hx),
    fun x hx => hV.placed x (hmem hx)⟩

@[simp] theorem payload_hide (t : String) (x : Tile) : (Board.hide t x).payload = x.payload := by
  unfold Board.hide
  split_ifs <;> rfl

@[simp] theorem known_hide (t : String) (x : Tile) : (Board.hide t x).known = x.known := by
  unfold Board.hide
  split_ifs <;> rfl

@[simp] theorem shown_hide (t : String) (x : Tile) :
    (Board.hide t x).shown = true ↔ x.shown = true ∧ x.payload.track ≠ t := by
  unfold Board.hide
  split_ifs with h <;> simp [h]

@[simp] theorem payload_forget (u : String) (x : Tile) : (Board.forget u x).payload = x.payload := by
  unfold Board.forget
  split_ifs <;> rfl

@[simp] theorem known_forget (u : String) (x : Tile) :
    (Board.forget u x).known = true ↔ x.known = true ∧ x.payload.userId ≠ u := by
  unfold Board.forget
  split_ifs with h <;> simp [h]

@[simp] theorem shown_forget (u : String) (x : Tile) :
    (Board.forget u x).shown = true ↔ x.shown = true ∧ x.payload.userId ≠ u := by
  unfold Board.forget
  split_ifs with h <;> simp [h]

@[simp] theorem muted_forget (u : String) (x : Tile) : (Board.forget u x).muted = x.muted := by
  unfold Board.forget
  split_ifs <;> rfl

/-- A possible track fits. -/
theorem Valid.fits_of_possible (hV : Valid b) (h : Possible b (.track p muted)) : Fits b p := by
  refine ⟨h.1, fun x hx => ?_⟩
  rw [← (h.2 x hx).1]
  constructor
  · exact getPeerIdMid_inj (hV.fits x hx).1 h.1
  · rintro ⟨hu, hmid⟩
    rw [AddTrackPayload.key, AddTrackPayload.key, hu, hmid]

/-- **Step lemma** for boards. -/
theorem Valid.next (hV : Valid b) {e : Event} (h : Possible b e) : Valid (b.next e) := by
  cases e with
  | track p muted =>
    exact hV.put (hV.fits_of_possible h) fun x hx ht hm => ((h.2 x hx).2 ht).1.trans hm
  | mute t =>
    refine hV.map (payload_hide t) (fun x hx hs => ?_) fun x hx hs hm => ?_
    · rw [known_hide]
      exact hV.known x hx ((shown_hide t x).mp hs).1
    · obtain ⟨hs, ht⟩ := (shown_hide t x).mp hs
      rw [Board.hide, if_neg ht] at hm
      exact hV.placed x hx hs hm
  | unmute t =>
    change Valid (match b.tiles.find? fun x => x.payload.track = t with
      | none => b
      | some x => b.put x.payload false)
    split
    · exact hV
    · next x hfind =>
      exact hV.put (hV.fits x (List.mem_of_find?_eq_some hfind)) fun y _ _ hm => absurd hm Bool.false_ne_true
  | peerRemove u =>
    refine hV.map (payload_forget u) (fun x hx hs => ?_) fun x hx hs hm => ?_
    · obtain ⟨hs, hu⟩ := (shown_forget u x).mp hs
      exact (known_forget u x).mpr ⟨hV.known x hx hs, hu⟩
    · exact hV.placed x hx ((shown_forget u x).mp hs).1 (muted_forget u x ▸ hm)
  | close u => exact hV.filter _
  | metadata p =>
    refine hV.map (fun _ => rfl) (fun x hx hs => ?_) fun x hx hs _ => ?_
    · exact (Bool.and_eq_true _ _ ▸ hs).1
    · exact Option.isSome_iff_ne_none.mp (Bool.and_eq_true _ _ ▸ hs).2
  | hangUp u =>
    refine hV.map (fun _ => rfl) (fun x hx hs => ?_) fun x hx hs hm => ?_
    · exact hV.known x hx (Bool.and_eq_true _ _ ▸ hs).1
    · exact hV.placed x hx (Bool.and_eq_true _ _ ▸ hs).1 hm
  | leave =>
    have hhidden : ∀ x ∈ (b.tiles.filter fun x => !x.shown), x.shown ≠ true := by
      intro x hx
      simpa using (List.mem_filter.mp hx).2
    exact (hV.filter _).map (fun _ => rfl) (fun x hx hs => absurd hs (hhidden x hx))
      fun x hx hs => absurd hs (hhidden x hx)

end Boards

/-! ### Direct connections -/

/-- Not a message of the server, and no track is forgotten before its connection is closed. -/
def Event.direct : Event → Bool
  | .track _ _ | .mute _ | .unmute _ | .close _ => true
  | .peerRemove _ | .metadata _ | .hangUp _ | .leave => false

def Direct (b : Board) (e : Event) : Prop := Possible b e ∧ e.direct = true

instance : DecidableRel Direct := fun b e => inferInstanceAs (Decidable (Possible b e ∧ e.direct = true))

/-- Tracks are shown while they are not muted. -/
structure Live (b : Board) : Prop extends Valid b where
  metadata_empty : b.metadata = ∅
  shown : ∀ x ∈ b.tiles, x.shown = !x.muted

theorem Live.put {b : Board} (h : Live b) {p : AddTrackPayload} {muted : Bool}
    (hV : Valid (b.put p muted)) (hm : ∀ x ∈ b.tiles, x.payload.track = p.track → muted = true → x.muted = true) :
    Live (b.put p muted) := by
  refine ⟨hV, h.metadata_empty, fun y hy => ?_⟩
  rcases mem_put.mp hy with rfl | ⟨hy, -⟩
  · rcases h.toValid.tileOf_cases p muted with ⟨x, hx, ht, he⟩ | ⟨-, he⟩ <;> rw [he]
    cases muted with
    | false => rfl
    | true => simp [h.shown x hx, hm x hx ht rfl]
  · exact h.shown y hy

theorem Live.next {b : Board} (h : Live b) {e : Event} (hok : Direct b e) : Live (b.next e) := by
  have hV := h.toValid.next hok.1
  cases e with
  | track p muted => exact h.put hV fun x hx ht hm => ((hok.1.2 x hx).2 ht).1.trans hm
  | mute t =>
    refine ⟨hV, h.metadata_empty, fun y hy => ?_⟩
    obtain ⟨x, hx, rfl⟩ := List.mem_map.mp hy
    unfold Board.hide
    split_ifs
    · rfl
    · exact h.shown x hx
  | unmute t =>
    simp only [Board.next] at hV ⊢
    cases hfind : b.tiles.find? fun x => x.payload.track = t with
    | none => exact h
    | some x =>
      rw [hfind] at hV
      exact h.put hV fun y _ _ hm => absurd hm Bool.false_ne_true
  | close u => exact ⟨hV, h.metadata_empty, fun x hx => h.shown x (List.mem_filter.mp hx).1⟩
  | peerRemove u | metadata p | hangUp u | leave => exact absurd hok.2 Bool.false_ne_true

/-- **Run lemma** for direct connections. -/
theorem live_of_reach {b : Board} (h : Reach Board.step Direct Board.start b) : Live b := by
  refine h.invariant ⟨valid_start, rfl, ?_⟩ ?_
  · intro x hx
    cases hx
  · intro b e b' hI he hb
    obtain rfl := Option.some.inj hb
    exact hI.next he

end Meeting.Streams.Playing
