import Meeting.Streams.Board

/-!
# Meeting.Streams.Playing — remote tracks on the page (`PeerActions.ts`, `SocketActions.ts`, `reducers/streams.ts`)

`PeerHandler.handleTrack` sets `onmute` and `onunmute` on every remote track; these handlers, the end of a
connection and the messages of the server are what the streams reducer is told.  `Page` is that code: the
payloads the handlers hold and the reducer's state.

* `page_shows_board`: along every possible run of events no action throws, and the streams on the page are
  those of the shown tiles;
* `unmuted_shown`: with direct connections, a track is on the page exactly while it is not muted.
-/

namespace Meeting.Streams.Playing

open Meeting.Lib

/-! ### The page -/

/-- What the handlers set on the tracks hold, and the state of the reducer. -/
structure Page where
  handlers : List AddTrackPayload
  state : StreamsState

namespace Page

def start : Page := ⟨[], defaultState⟩

def dispatch (s : Page) (a : Action) : Option Page := (streams s.state a).map fun state => { s with state }

/-- Setting `onmute` and `onunmute` drops the handlers the track had before. -/
def setHandlers (s : Page) (p : AddTrackPayload) : Page :=
  { s with handlers := p :: s.handlers.filter fun x => x.track ≠ p.track }

def handleTrack (s : Page) (p : AddTrackPayload) (muted : Bool) : Option Page :=
  if muted then some (s.setHandlers p) else (s.setHandlers p).dispatch (.streamTrackAdd p)

/-- `track.onmute`. -/
def onmute (s : Page) (track : String) : Option Page :=
  match s.handlers.find? fun x => x.track = track with
  | none => some s
  | some _ => s.dispatch (.streamTrackRemove track)

/-- `track.onunmute`. -/
def onunmute (s : Page) (track : String) : Option Page :=
  match s.handlers.find? fun x => x.track = track with
  | none => some s
  | some p => s.dispatch (.streamTrackAdd p)

/-- The tracks of all streams on the page. -/
def tracks (state : StreamsState) : List String :=
  state.streamsByUserId.entries.flatMap fun x => x.2.streams.flatMap fun s => s.stream.tracks

/-- `stopAllTracks` takes the handlers off the tracks on the page. -/
def stopAllTracks (s : Page) : Page :=
  { s with handlers := s.handlers.filter fun x => x.track ∉ tracks s.state }

def step (s : Page) : Event → Option Page
  | .track p muted => s.handleTrack p muted
  | .mute track => s.onmute track
  | .unmute track => s.onunmute track
  | .peerRemove userId => s.dispatch (.peerRemove userId)
  -- the tracks of a closed connection send no more events
  | .close userId => { s with handlers := s.handlers.filter fun x => x.userId ≠ userId }.dispatch (.peerRemove userId)
  | .metadata payload => s.dispatch (.tracksMetadata payload)
  | .hangUp userId => s.dispatch (.nicknameRemove userId)
  | .leave => s.stopAllTracks.dispatch .hangUp

end Page

/-! ### The page refines the board -/

/-- The association the state has for a known tile. -/
def association (M : AList fun _ : String => TrackMetadata) (x : Tile) : Option TrackAssociation :=
  if x.shown then some (place M x.payload) else none

structure Refines (s : Page) (b : Board) : Prop where
  handlers : ∀ p, p ∈ s.handlers ↔ ∃ x ∈ b.tiles, x.payload = p
  rep : Rep s.state
  metadata : s.state.metadataByPeerIdMid = b.metadata
  entries : ∀ k t a, entry s.state k = some (t, a) ↔ ∃ x ∈ b.tiles, x.known = true ∧ x.payload.key = k ∧
    x.payload.track = t ∧ a = association b.metadata x
  none_stale : ∀ u i t, ¬ Stale s.state u i t

theorem refines_start : Refines Page.start Board.start := by
  refine ⟨by simp [Page.start, Board.start], rep_defaultState, rfl, fun k t a => ⟨?_, ?_⟩, exact_start.none_stale⟩
  · intro h
    cases h
  · rintro ⟨x, hx, -⟩
    cases hx

theorem getUserId_eq_place (st : StreamsState) (p : AddTrackPayload) :
    getUserId st p = place st.metadataByPeerIdMid p := by
  unfold getUserId place AddTrackPayload.key
  cases st.metadataByPeerIdMid.lookup (getPeerIdMid p.userId p.mid) <;> rfl

/-- Where the metadata say, only the key matters. -/
theorem place_congr {M : AList fun _ : String => TrackMetadata} {p q : AddTrackPayload} (hkey : p.key = q.key)
    (hM : M.lookup p.key ≠ none) : place M p = place M q := by
  obtain ⟨m, hm⟩ := Option.ne_none_iff_exists'.mp hM
  rw [place, place, ← hkey, hm]
  rfl

theorem none_stale_of_clear {st st' : StreamsState} {T : List String} (hn : ∀ u i t, ¬ Stale st u i t)
    (hentry : ∀ k, entry st' k = (entry st k).map (clear T))
    (hmem : ∀ u i t, Member st'.streamsByUserId u i t →
      Member st.streamsByUserId u i t ∧ (Associated st u i t → t ∉ T)) : ∀ u i t, ¬ Stale st' u i t := by
  rintro u i t ⟨hm, ha⟩
  obtain ⟨hm, ht⟩ := hmem u i t hm
  by_cases hst : Associated st u i t
  · exact ha ((associated_clear hentry).mpr ⟨hst, ht hst⟩)
  · exact hn u i t ⟨hm, hst⟩

section Refines

variable {s s' : Page} {b : Board} {p : AddTrackPayload} {st : StreamsState}

theorem Refines.associated (h : Refines s b) {u i t : String} :
    Member s.state.streamsByUserId u i t ↔ Associated s.state u i t := by
  refine ⟨fun hm => ?_, h.rep.holds⟩
  by_contra ha
  exact h.none_stale u i t ⟨hm, ha⟩

/-- The streams on the page are those of the shown tiles. -/
theorem Refines.member (h : Refines s b) (hV : Valid b) {u i t : String} :
    Member s.state.streamsByUserId u i t ↔
      ∃ x ∈ b.tiles, x.shown = true ∧ x.payload.track = t ∧ place b.metadata x.payload = ⟨i, u⟩ := by
  rw [h.associated]
  constructor
  · rintro ⟨k, hk⟩
    obtain ⟨x, hx, -, -, ht, ha⟩ := (h.entries k t _).mp hk
    unfold association at ha
    split_ifs at ha with hs
    exact ⟨x, hx, hs, ht, (Option.some.inj ha).symm⟩
  · rintro ⟨x, hx, hs, ht, hp⟩
    exact ⟨x.payload.key, (h.entries _ _ _).mpr
      ⟨x, hx, hV.known x hx hs, rfl, ht, by rw [association, if_pos hs, hp]⟩⟩

/-- The handlers after a track was handed over. -/
theorem Refines.handlers_put (h : Refines s b) {muted : Bool} {handlers : List AddTrackPayload}
    (hh : ∀ q, q ∈ handlers ↔ q = p ∨ q ∈ s.handlers ∧ q.track ≠ p.track) (q : AddTrackPayload) :
    q ∈ handlers ↔ ∃ x ∈ (b.put p muted).tiles, x.payload = q := by
  rw [hh, h.handlers]
  simp only [mem_put]
  constructor
  · rintro (rfl | ⟨⟨x, hx, rfl⟩, ht⟩)
    · exact ⟨_, Or.inl rfl, rfl⟩
    · exact ⟨x, Or.inr ⟨hx, ht⟩, rfl⟩
  · rintro ⟨x, rfl | ⟨hx, ht⟩, rfl⟩
    · exact Or.inl rfl
    · exact Or.inr ⟨⟨x, hx, rfl⟩, ht⟩

/-- A muted track is handed over: the state stays as it is. -/
theorem Refines.put_muted (h : Refines s b) (hV : Valid b) (hfit : Fits b p)
    (hmuted : ∀ x ∈ b.tiles, x.payload.track = p.track → x.muted = true) :
    Refines (s.setHandlers p) (b.put p true) := by
  -- a muted track is shown only where the metadata say, so its stream id does not matter
  have hassoc : ∀ x ∈ b.tiles, x.payload.track = p.track →
      association b.metadata ⟨p, true, x.known, x.shown⟩ = association b.metadata x := by
    intro x hx ht
    unfold association
    split_ifs with hs
    · rw [place_congr ((hfit.2 x hx).mpr ht) (hV.placed x hx hs (hmuted x hx ht))]
    · rfl
  refine ⟨h.handlers_put fun q => by simp [Page.setHandlers], h.rep, h.metadata, fun k t a => ?_, h.none_stale⟩
  refine (h.entries k t a).trans ⟨?_, ?_⟩
  · rintro ⟨x, hx, hknown, rfl, rfl, rfl⟩
    by_cases ht : x.payload.track = p.track
    · refine ⟨_, mem_put.mpr (Or.inl (hV.tileOf hx ht true).symm), hknown, ?_, ht.symm, (hassoc x hx ht).symm⟩
      exact ((hfit.2 x hx).mpr ht).symm
    · exact ⟨x, mem_put.mpr (Or.inr ⟨hx, ht⟩), hknown, rfl, rfl, rfl⟩
  · rintro ⟨y, hy, hknown, rfl, rfl, rfl⟩
    rcases mem_put.mp hy with rfl | ⟨hy, -⟩
    · rcases hV.tileOf_cases p true with ⟨x, hx, ht, he⟩ | ⟨-, he⟩
      · rw [he] at hknown ⊢
        exact ⟨x, hx, hknown, (hfit.2 x hx).mpr ht, ht, hassoc x hx ht⟩
      · rw [he] at hknown
        cases hknown
    · exact ⟨y, hy, hknown, rfl, rfl, rfl⟩

/-- A track is added to the page. -/
theorem Refines.put_unmuted (h : Refines s b) (hfit : Fits b p)
    (hsame : ∀ x ∈ b.tiles, x.payload.track = p.track → x.shown = true →
      place b.metadata x.payload = place b.metadata p) {handlers : List AddTrackPayload}
    (hh : ∀ q, q ∈ handlers ↔ q = p ∨ q ∈ s.handlers ∧ q.track ≠ p.track) :
    Refines ⟨handlers, addTrack s.state p⟩ (b.put p false) := by
  have hplace : getUserId s.state p = place b.metadata p := by rw [getUserId_eq_place, h.metadata]
  have hkey : ∀ t a, entry s.state p.key = some (t, a) →
      t = p.track ∧ (a = none ∨ a = some (getUserId s.state p)) := by
    intro t a hk
    obtain ⟨x, hx, -, hxk, rfl, rfl⟩ := (h.entries _ _ _).mp hk
    have ht := (hfit.2 x hx).mp hxk
    refine ⟨ht, ?_⟩
    unfold association
    split_ifs with hs
    · exact Or.inr (by rw [hplace, hsame x hx ht hs])
    · exact Or.inl rfl
  have huniq : ∀ k a, entry s.state k = some (p.track, a) → k = p.key := by
    intro k a hk
    obtain ⟨x, hx, -, rfl, ht, -⟩ := (h.entries _ _ _).mp hk
    exact (hfit.2 x hx).mpr ht
  obtain ⟨hC, hentry, hlink⟩ := addTrack_spec h.rep.toCoherent (fun t a hk => (hkey t a hk).1) huniq
  refine ⟨h.handlers_put hh, ⟨hC, fun t => hlink t (h.rep.linked t)⟩, h.metadata, fun k t a => ?_,
    fun u i t hs => h.none_stale u i t (hs.of_addTrack h.rep.toCoherent hkey huniq)⟩
  rw [hentry, hplace]
  change (if k = p.key then _ else _) = _ ↔ _
  split_ifs with hk
  · -- the new tile is the only one at the key
    rw [Option.some.injEq, Prod.mk.injEq]
    constructor
    · rintro ⟨rfl, rfl⟩
      exact ⟨_, mem_put.mpr (Or.inl rfl), rfl, hk.symm, rfl, rfl⟩
    · rintro ⟨y, hy, -, hyk, rfl, rfl⟩
      rcases mem_put.mp hy with rfl | ⟨hy, ht⟩
      · exact ⟨rfl, rfl⟩
      · exact absurd ((hfit.2 y hy).mp (hyk.trans hk)) ht
  · refine (h.entries k t a).trans ⟨?_, ?_⟩
    · rintro ⟨x, hx, hknown, rfl, hta⟩
      exact ⟨x, mem_put.mpr (Or.inr ⟨hx, fun ht => hk ((hfit.2 x hx).mpr ht)⟩), hknown, rfl, hta⟩
    · rintro ⟨y, hy, hknown, rfl, hta⟩
      rcases mem_put.mp hy with rfl | ⟨hy, -⟩
      · exact absurd rfl hk
      · exact ⟨y, hy, hknown, rfl, hta⟩

/-- Tracks are hidden. -/
theorem Refines.of_clear (h : Refines s b) {T : List String} {f : Tile → Tile} (hR : Rep st)
    (hmeta : st.metadataByPeerIdMid = s.state.metadataByPeerIdMid)
    (hentry : ∀ k, entry st k = (entry s.state k).map (clear T))
    (hmem : ∀ u i t, Member st.streamsByUserId u i t →
      Member s.state.streamsByUserId u i t ∧ (Associated s.state u i t → t ∉ T))
    (hpayload : ∀ x, (f x).payload = x.payload) (hknown : ∀ x, (f x).known = x.known)
    (hshown : ∀ x ∈ b.tiles, (f x).shown = true ↔ x.shown = true ∧ x.payload.track ∉ T) :
    Refines { s with state := st } { b with tiles := b.tiles.map f } := by
  have hassoc : ∀ x ∈ b.tiles, association b.metadata (f x) =
      if x.payload.track ∈ T then none else association b.metadata x := by
    intro x hx
    have := hshown x hx
    unfold association
    rw [hpayload]
    split_ifs <;> simp_all
  refine ⟨fun q => ?_, hR, hmeta.trans h.metadata, fun k t a => ?_, none_stale_of_clear h.none_stale hentry hmem⟩
  · simp [h.handlers, hpayload]
  · simp only [hentry, map_clear_eq_some, h.entries, List.mem_map, exists_exists_and_eq_and, hpayload, hknown]
    constructor
    · rintro (⟨ht, rfl, _, x, hx, hk, rfl, rfl, rfl⟩ | ⟨ht, x, hx, hk, rfl, rfl, rfl⟩)
      · exact ⟨x, hx, hk, rfl, rfl, by rw [hassoc x hx, if_pos ht]⟩
      · exact ⟨x, hx, hk, rfl, rfl, by rw [hassoc x hx, if_neg ht]⟩
    · rintro ⟨x, hx, hk, rfl, rfl, rfl⟩
      rw [hassoc x hx]
      split_ifs with ht
      · exact Or.inl ⟨ht, rfl, _, x, hx, hk, rfl, rfl, rfl⟩
      · exact Or.inr ⟨ht, x, hx, hk, rfl, rfl, rfl⟩

/-- The tracks of a peer are forgotten; their tiles may stay or go. -/
theorem Refines.peerRemove (h : Refines s b) (hV : Valid b) {u : String} (hu : ':' ∉ u.toList)
    {handlers : List AddTrackPayload} {tiles : List Tile}
    (hh : ∀ q, q ∈ handlers ↔ ∃ x ∈ tiles, x.payload = q)
    (htiles : ∀ x, x.known = true → (x ∈ tiles ↔ x ∈ b.tiles ∧ x.payload.userId ≠ u)) :
    Refines ⟨handlers, removePeer s.state u⟩ { b with tiles } := by
  obtain ⟨hR, hmeta, hentry, hmem⟩ := removePeer_spec h.rep u
  have hkeys : ∀ x ∈ b.tiles, (isKeyOf u x.payload.key = true ↔ x.payload.userId = u) :=
    fun x hx => isKeyOf_getPeerIdMid hu (hV.fits x hx).1
  refine ⟨hh, hR, hmeta.trans h.metadata, fun k t a => ?_, ?_⟩
  · change entry (removePeer s.state u) k = _ ↔ _
    rw [hentry]
    constructor
    · intro hk
      split_ifs at hk with hkey
      obtain ⟨x, hx, hknown, rfl, hta⟩ := (h.entries _ _ _).mp hk
      exact ⟨x, (htiles x hknown).mpr ⟨hx, fun hxu => hkey ((hkeys x hx).mpr hxu)⟩, hknown, rfl, hta⟩
    · rintro ⟨x, hx, hknown, rfl, hta⟩
      obtain ⟨hx, hxu⟩ := (htiles x hknown).mp hx
      rw [if_neg fun hkey => hxu ((hkeys x hx).mp hkey)]
      exact (h.entries _ _ _).mpr ⟨x, hx, hknown, rfl, hta⟩
  · rintro u' i t ⟨hm, hn⟩
    obtain ⟨hm, hgone⟩ := (hmem u' i t).mp hm
    obtain ⟨k, hk⟩ := h.associated.mp hm
    exact hn ⟨k, by rw [hentry, if_neg fun hkey => hgone ⟨k, hkey, hk⟩, hk]⟩

/-- The known tracks go where the metadata say. -/
theorem Refines.tracksMetadata (h : Refines s b) (p : MetadataPayload) :
    Refines { s with state := setMetadata s.state p } (b.next (.metadata p)) := by
  obtain ⟨hR, hmeta, hentry, hmem⟩ := setMetadata_spec h.rep p
  have hassoc : ∀ x : Tile, x.known = true → association (keyBy p.userId p.metadata)
      { x with shown := x.known && ((keyBy p.userId p.metadata).lookup x.payload.key).isSome } =
        ((keyBy p.userId p.metadata).lookup x.payload.key).map TrackMetadata.target := by
    intro x hknown
    unfold association place
    cases hm : (keyBy p.userId p.metadata).lookup x.payload.key <;> simp [hknown]
  refine ⟨fun q => ?_, hR, hmeta, fun k t a => ?_, ?_⟩
  · simp [h.handlers, Board.next]
  · change entry (setMetadata s.state p) k = _ ↔ _
    simp only [Board.next, List.mem_map, exists_exists_and_eq_and]
    rw [hentry, Option.map_eq_some_iff]
    constructor
    · rintro ⟨⟨t', a'⟩, hk, he⟩
      obtain ⟨x, hx, hknown, rfl, rfl, -⟩ := (h.entries _ _ _).mp hk
      obtain ⟨rfl, rfl⟩ := Prod.mk.inj he
      exact ⟨x, hx, hknown, rfl, rfl, (hassoc x hknown).symm⟩
    · rintro ⟨x, hx, hknown, rfl, rfl, rfl⟩
      exact ⟨_, (h.entries _ _ _).mpr ⟨x, hx, hknown, rfl, rfl, rfl⟩, by rw [hassoc x hknown]⟩
  · rintro u i t ⟨hm, hn⟩
    exact h.none_stale u i t (((hmem u i t).mp hm).resolve_right hn)

/-- The tracks of a user who hung up. -/
theorem Refines.mem_tracksOf (h : Refines s b) (hV : Valid b) {x : Tile} (hx : x ∈ b.tiles) {u : String} :
    x.payload.track ∈ tracksOf s.state u ↔ x.shown = true ∧ (place b.metadata x.payload).userId = u := by
  rw [Meeting.Streams.mem_tracksOf]
  simp only [h.member hV]
  constructor
  · rintro ⟨i, y, hy, hs, ht, hp⟩
    obtain rfl := hV.unique y hy x hx ht
    exact ⟨hs, by rw [hp]⟩
  · rintro ⟨hs, rfl⟩
    exact ⟨_, x, hx, hs, rfl, rfl⟩

theorem Refines.nicknameRemove (h : Refines s b) (hV : Valid b) (u : String) :
    ∃ st, unassociateUserTracks s.state u = some st ∧
      Refines { s with state := st } (b.next (.hangUp u)) := by
  have hsome : (unassociateUserTracks s.state u).isSome :=
    unassociateUserTracks_isSome h.rep fun i t hm => (h.associated.mp hm).imp fun k hk => ⟨_, hk⟩
  obtain ⟨st, hst⟩ := Option.isSome_iff_exists.mp hsome
  obtain ⟨hR, hmeta, hentry, hmem⟩ := unassociateUserTracks_spec h.rep hst
  refine ⟨st, hst, h.of_clear hR hmeta hentry (fun u' i t hm => ?_) (fun _ => rfl) (fun _ => rfl) fun x hx => ?_⟩
  · obtain ⟨hu, hm⟩ := (hmem u' i t).mp hm
    refine ⟨hm, fun ha ht => hu ?_⟩
    -- a track of the user's streams is associated with the user
    obtain ⟨i', hm'⟩ := Meeting.Streams.mem_tracksOf.mp ht
    obtain ⟨k, hk⟩ := h.associated.mp hm'
    exact congrArg TrackAssociation.userId (Option.some.inj (h.rep.toCoherent.associated_unique hk ha)).symm
  · rw [h.mem_tracksOf hV hx]
    simp only [Bool.and_eq_true, decide_eq_true_eq]
    tauto

theorem mem_tracks {t : String} : t ∈ Page.tracks st ↔ ∃ u i, Member st.streamsByUserId u i t := by
  simp only [Page.tracks, List.mem_flatMap]
  constructor
  · rintro ⟨⟨u, us⟩, hus, x, hx, ht⟩
    exact ⟨u, x.streamId, us, AList.mem_lookup_iff.mpr hus, x, hx, rfl, ht⟩
  · rintro ⟨u, i, us, hus, x, hx, -, ht⟩
    exact ⟨⟨u, us⟩, AList.mem_lookup_iff.mp hus, x, hx, ht⟩

theorem Refines.leave (h : Refines s b) (hV : Valid b) :
    Refines { s.stopAllTracks with state := defaultState } (b.next .leave) := by
  have hshown : ∀ x ∈ b.tiles, x.payload.track ∈ Page.tracks s.state ↔ x.shown = true := by
    intro x hx
    rw [mem_tracks]
    simp only [h.member hV]
    constructor
    · rintro ⟨u, i, y, hy, hs, ht, -⟩
      obtain rfl := hV.unique y hy x hx ht
      exact hs
    · intro hs
      exact ⟨_, _, x, hx, hs, rfl, rfl⟩
  refine ⟨fun q => ?_, rep_defaultState, rfl, fun k t a => ⟨?_, ?_⟩, exact_start.none_stale⟩
  · simp only [Page.stopAllTracks, Board.next, List.mem_filter, List.mem_map, exists_exists_and_eq_and,
      decide_eq_true_eq, h.handlers]
    constructor
    · rintro ⟨⟨x, hx, rfl⟩, hn⟩
      exact ⟨x, ⟨hx, by simpa [hshown x hx] using hn⟩, rfl⟩
    · rintro ⟨x, ⟨hx, hs⟩, rfl⟩
      exact ⟨⟨x, hx, rfl⟩, by simpa [hshown x hx] using hs⟩
  · intro hk
    cases hk
  · rintro ⟨y, hy, hknown, -⟩
    obtain ⟨x, -, rfl⟩ := List.mem_map.mp hy
    cases hknown

/-- The handlers on a track hold the payload of its tile. -/
theorem Refines.find_handlers (h : Refines s b) (hV : Valid b) (t : String) :
    s.handlers.find? (fun x => x.track = t) =
      (b.tiles.find? fun x => x.payload.track = t).map Tile.payload := by
  cases hq : s.handlers.find? fun x => x.track = t with
  | none =>
    rw [eq_comm, Option.map_eq_none_iff, List.find?_eq_none]
    exact fun x hx => List.find?_eq_none.mp hq x.payload ((h.handlers _).mpr ⟨x, hx, rfl⟩)
  | some q =>
    obtain ⟨x, hx, rfl⟩ := (h.handlers q).mp (List.mem_of_find?_eq_some hq)
    rw [hV.find hx (by simpa using List.find?_some hq), Option.map_some]

theorem Refines.onmute (h : Refines s b) (hV : Valid b) (t : String) :
    ∃ s', s.onmute t = some s' ∧ Refines s' (b.next (.mute t)) := by
  unfold Page.onmute
  rw [h.find_handlers hV]
  cases hfind : b.tiles.find? fun x => x.payload.track = t with
  | none =>
    have hid : ∀ x ∈ b.tiles, Board.hide t x = x := by
      intro x hx
      rw [Board.hide, if_neg (by simpa using List.find?_eq_none.mp hfind x hx)]
    have hnext : b.next (.mute t) = b := by
      rw [Board.next, List.map_congr_left hid, List.map_id']
    rw [hnext]
    exact ⟨s, rfl, h⟩
  | some x =>
    obtain ⟨-, hentry, hmem⟩ := removeTrack_spec h.rep.toCoherent (h.rep.linked t)
    refine ⟨_, rfl, h.of_clear (removeTrack_rep h.rep t) removeTrack_metadata hentry (fun u i t' hm => ?_)
      (payload_hide t) (known_hide t) fun y _ => ?_⟩
    · obtain ⟨hm, hn⟩ := (hmem u i t').mp hm
      exact ⟨hm, fun ha ht => hn ⟨List.mem_singleton.mp ht, ha⟩⟩
    · rw [shown_hide, List.mem_singleton]

theorem Refines.onunmute (h : Refines s b) (hV : Valid b) (t : String) :
    ∃ s', s.onunmute t = some s' ∧ Refines s' (b.next (.unmute t)) := by
  unfold Page.onunmute
  rw [h.find_handlers hV]
  simp only [Board.next]
  cases hfind : b.tiles.find? fun x => x.payload.track = t with
  | none => exact ⟨s, rfl, h⟩
  | some x =>
    have hx := List.mem_of_find?_eq_some hfind
    refine ⟨_, rfl, h.put_unmuted (hV.fits x hx) (fun y hy ht _ => ?_) fun q => ?_⟩
    · rw [hV.unique y hy x hx ht]
    · rw [h.handlers]
      constructor
      · rintro ⟨y, hy, rfl⟩
        by_cases ht : y.payload.track = x.payload.track
        · exact Or.inl (by rw [hV.unique y hy x hx ht])
        · exact Or.inr ⟨⟨y, hy, rfl⟩, ht⟩
      · rintro (rfl | ⟨hq, -⟩)
        · exact ⟨x, hx, rfl⟩
        · exact hq

/-- **Step lemma**: the page follows every possible event. -/
theorem Refines.step (h : Refines s b) (hV : Valid b) {e : Event} (hok : Possible b e) :
    ∃ s', s.step e = some s' ∧ Refines s' (b.next e) := by
  cases e with
  | track p muted =>
    have hfit := hV.fits_of_possible hok
    cases muted with
    | true => exact ⟨_, rfl, h.put_muted hV hfit fun x hx ht => ((hok.2 x hx).2 ht).1⟩
    | false =>
      refine ⟨_, rfl, h.put_unmuted hfit (fun x hx ht _ => ?_) fun q => by simp [Page.setHandlers]⟩
      rw [place, place, (hfit.2 x hx).mpr ht, ((hok.2 x hx).2 ht).2 rfl, (((hok.2 x hx).1).mpr ht).1]
  | mute t => exact h.onmute hV t
  | unmute t => exact h.onunmute hV t
  | peerRemove u =>
    refine ⟨_, rfl, h.peerRemove hV hok (fun q => ?_) fun x hx => ?_⟩
    · simp [h.handlers]
    · rw [List.mem_map]
      constructor
      · rintro ⟨y, hy, rfl⟩
        have hu := ((known_forget u y).mp hx).2
        rw [Board.forget, if_neg hu]
        exact ⟨hy, hu⟩
      · rintro ⟨hx, hu⟩
        exact ⟨x, hx, by rw [Board.forget, if_neg hu]⟩
  | close u =>
    refine ⟨_, rfl, h.peerRemove hV hok (fun q => ?_) fun x hx => ?_⟩
    · simp only [List.mem_filter, decide_eq_true_eq, h.handlers]
      constructor
      · rintro ⟨⟨x, hx, rfl⟩, hu⟩
        exact ⟨x, ⟨hx, hu⟩, rfl⟩
      · rintro ⟨x, ⟨hx, hu⟩, rfl⟩
        exact ⟨⟨x, hx, rfl⟩, hu⟩
    · simp
  | metadata p => exact ⟨_, rfl, h.tracksMetadata p⟩
  | hangUp u =>
    obtain ⟨st, hst, hR⟩ := h.nicknameRemove hV u
    exact ⟨_, congrArg (Option.map _) hst, hR⟩
  | leave => exact ⟨_, rfl, h.leave hV⟩

end Refines

/-! ### Runs -/

/-- **Run lemma**: the page follows every possible run. -/
theorem refines_of_exec {ok : Board → Event → Prop} [DecidableRel ok] (hok : ∀ b e, ok b e → Possible b e)
    {es : List Event} {b : Board} (h : exec (guarded Board.step ok) Board.start es = some b) :
    ∃ s, exec Page.step Page.start es = some s ∧ Refines s b ∧ Valid b := by
  refine exec_simulation (R := fun s b => Refines s b ∧ Valid b) ?_ es ⟨refines_start, valid_start⟩ h
  rintro s b e b' ⟨hR, hV⟩ hb
  obtain ⟨he, hb'⟩ := guarded_eq_some.mp hb
  obtain rfl := Option.some.inj hb'
  obtain ⟨s', hs', hR'⟩ := hR.step hV (hok b e he)
  exact ⟨s', hs', hR', hV.next (hok b e he)⟩

/-- **The page shows the board**: along every possible run of events no action throws, and a track is in a
stream of a user exactly when its tile is shown and placed there. -/
theorem page_shows_board {es : List Event} {b : Board}
    (h : exec (guarded Board.step Possible) Board.start es = some b) :
    ∃ s, exec Page.step Page.start es = some s ∧ ∀ u i t, Member s.state.streamsByUserId u i t ↔
      ∃ x ∈ b.tiles, x.shown = true ∧ x.payload.track = t ∧ place b.metadata x.payload = ⟨i, u⟩ := by
  obtain ⟨s, hs, hR, hV⟩ := refines_of_exec (fun _ _ => id) h
  exact ⟨s, hs, fun u i t => hR.member hV⟩

/-- A track of the server is muted between two copies of the same metadata. -/
def mutedBetween : List Event :=
  [.track ⟨"0", "s", "server", "t"⟩ true, .unmute "t", .metadata ⟨"server", [⟨"0", "video", "alice", "a"⟩]⟩,
    .mute "t", .metadata ⟨"server", [⟨"0", "video", "alice", "a"⟩]⟩]

/-- The second copy puts the muted track back on the page. -/
theorem page_shows_board_example : ∃ b s, exec (guarded Board.step Possible) Board.start mutedBetween = some b ∧
    exec Page.step Page.start mutedBetween = some s ∧ (∃ x ∈ b.tiles, x.muted = true) ∧
    Member s.state.streamsByUserId "alice" "a" "t" := by
  obtain ⟨b, hb, hP⟩ := (Option.any_eq_true (fun b : Board => decide (∃ x ∈ b.tiles, x.muted = true ∧
    x.shown = true ∧ x.payload.track = "t" ∧ place b.metadata x.payload = ⟨"a", "alice"⟩))
    (exec (guarded Board.step Possible) Board.start mutedBetween)).mp (by decide)
  obtain ⟨x, hx, hm, hshown⟩ := of_decide_eq_true hP
  obtain ⟨s, hs, hmem⟩ := page_shows_board hb
  exact ⟨b, s, hb, hs, ⟨x, hx, hm⟩, (hmem _ _ _).mpr ⟨x, hx, hshown⟩⟩

/-- **Unmuted tracks are shown**: with direct connections no action throws, and a track is on the page, in the
stream of its peer it was last handed over with, exactly while it is not muted. -/
theorem unmuted_shown {es : List Event} {b : Board}
    (h : exec (guarded Board.step Direct) Board.start es = some b) :
    ∃ s, exec Page.step Page.start es = some s ∧ ∀ u i t, Member s.state.streamsByUserId u i t ↔
      ∃ x ∈ b.tiles, x.muted = false ∧ x.payload.userId = u ∧ x.payload.streamId = i ∧ x.payload.track = t := by
  obtain ⟨s, hs, hR, hV⟩ := refines_of_exec (fun _ _ h => h.1) h
  have hL := live_of_reach (reach_of_exec h)
  have hplace : ∀ p : AddTrackPayload, place b.metadata p = ⟨p.streamId, p.userId⟩ := by
    intro p
    rw [hL.metadata_empty]
    rfl
  refine ⟨s, hs, fun u i t => (hR.member hV).trans (exists_congr fun x => and_congr_right fun hx => ?_)⟩
  rw [hL.shown x hx, hplace, Bool.not_eq_true', TrackAssociation.mk.injEq]
  tauto

/-- A track comes back in another stream, and another peer leaves. -/
def handedAgain : List Event :=
  [.track ⟨"0", "s", "alice", "t"⟩ false, .track ⟨"0", "s", "bob", "t'"⟩ false, .mute "t",
    .track ⟨"0", "s'", "alice", "t"⟩ true, .unmute "t", .close "bob"]

theorem unmuted_shown_example : ∃ b s, exec (guarded Board.step Direct) Board.start handedAgain = some b ∧
    exec Page.step Page.start handedAgain = some s ∧
    ∀ u i t, Member s.state.streamsByUserId u i t ↔ u = "alice" ∧ i = "s'" ∧ t = "t" := by
  obtain ⟨b, hb, hP⟩ := (Option.any_eq_true (fun b : Board =>
    decide (b.tiles = [⟨⟨"0", "s'", "alice", "t"⟩, false, true, true⟩]))
    (exec (guarded Board.step Direct) Board.start handedAgain)).mp (by decide)
  obtain ⟨s, hs, hmem⟩ := unmuted_shown hb
  refine ⟨b, s, hb, hs, fun u i t => (hmem u i t).trans ?_⟩
  rw [of_decide_eq_true hP]
  constructor
  · rintro ⟨x, hx, -, rfl, rfl, rfl⟩
    obtain rfl := List.mem_singleton.mp hx
    exact ⟨rfl, rfl, rfl⟩
  · rintro ⟨rfl, rfl, rfl⟩
    exact ⟨_, List.mem_singleton_self _, rfl, rfl, rfl, rfl⟩

end Meeting.Streams.Playing
