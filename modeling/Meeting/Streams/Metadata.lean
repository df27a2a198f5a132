import Meeting.Streams.Ledger

/-!
# Meeting.Streams.Metadata — what `TRACKS_METADATA` leaves behind

`setMetadata_spec` says what the two loops of `setMetadata` do to a state that is only coherent.  In the states that
the reducer reaches along consistent runs no track is left behind in a stream, and the action is exact: the new
associations are those that the payload asks for, each track is in the stream that it is associated with and in no
other one, and the action can be repeated.

* `lookup_keyBy_iff`: the metadata of a key are those of the last entry with its mid;
* `metadata_reassociates`: the action in every state of a consistent run.
-/

namespace Meeting.Streams

open Lib

/-! ### The last entry of a mid -/

/-- `m` is the last entry of its mid. -/
def IsLastEntry (metadata : List TrackMetadata) (m : TrackMetadata) : Prop :=
  ∃ pre post, metadata = pre ++ m :: post ∧ ∀ x ∈ post, x.mid ≠ m.mid

theorem lookup_keyBy_of_last (userId : String) {metadata : List TrackMetadata} {m : TrackMetadata}
    (h : IsLastEntry metadata m) :
    (keyBy userId metadata).lookup (getPeerIdMid userId m.mid) = some m := by
  obtain ⟨pre, post, rfl, hpost⟩ := h
  exact lookup_keyBy_last pre post fun x hx hkey => hpost x hx (getPeerIdMid_inj_mid hkey)

/-- Every mid of a list has a last entry. -/
theorem exists_lastEntry {metadata : List TrackMetadata} {m : TrackMetadata} (h : m ∈ metadata) :
    ∃ m', IsLastEntry metadata m' ∧ m'.mid = m.mid := by
  induction metadata using List.reverseRecOn with
  | nil => cases h
  | append_singleton l x ih =>
    by_cases hx : x.mid = m.mid
    · exact ⟨x, ⟨l, [], rfl, fun y hy => absurd hy List.not_mem_nil⟩, hx⟩
    · have hl : m ∈ l := by
        rcases List.mem_append.mp h with h | h
        · exact h
        · exact absurd (congrArg TrackMetadata.mid (List.mem_singleton.mp h)).symm hx
      obtain ⟨m', ⟨pre, post, rfl, hpost⟩, hmid⟩ := ih hl
      refine ⟨m', ⟨pre, post ++ [x], by simp, fun y hy => ?_⟩, hmid⟩
      rcases List.mem_append.mp hy with hy | hy
      · exact hpost y hy
      · rw [List.mem_singleton.mp hy, hmid]
        exact hx

/-- The metadata of a key are those of the last entry with its mid. -/
theorem lookup_keyBy_iff {userId k : String} {metadata : List TrackMetadata} {m : TrackMetadata} :
    (keyBy userId metadata).lookup k = some m ↔
      IsLastEntry metadata m ∧ getPeerIdMid userId m.mid = k := by
  constructor
  · intro h
    obtain ⟨hm, rfl⟩ := exists_mem_of_lookup_keyBy metadata h
    obtain ⟨m', hlast, hmid⟩ := exists_lastEntry hm
    have hm' := lookup_keyBy_of_last userId hlast
    rw [hmid, h, Option.some.injEq] at hm'
    exact ⟨hm' ▸ hlast, rfl⟩
  · rintro ⟨hlast, rfl⟩
    exact lookup_keyBy_of_last userId hlast

/-- A key has an entry exactly if some metadata has its mid. -/
theorem lookup_keyBy_ne_none_iff {userId k : String} {metadata : List TrackMetadata} :
    (keyBy userId metadata).lookup k ≠ none ↔ ∃ m ∈ metadata, getPeerIdMid userId m.mid = k := by
  constructor
  · intro hsome
    obtain ⟨m, hm⟩ := Option.ne_none_iff_exists'.mp hsome
    exact ⟨m, exists_mem_of_lookup_keyBy metadata hm⟩
  · rintro ⟨m, hm, rfl⟩
    obtain ⟨m', hm'⟩ := lookup_keyBy_isSome userId metadata hm
    rw [hm']
    exact nofun

/-! ### The action -/

/-- What `TRACKS_METADATA` with this payload makes of a state. -/
structure Reassociates (st : StreamsState) (p : MetadataPayload) (st' : StreamsState) : Prop where
  /-- A known track is associated if its key is that of an entry. -/
  associated : ∀ k i, st.tracksByPeerIdMid.lookup k = some i →
    ∃ i', st'.tracksByPeerIdMid.lookup k = some i' ∧ i'.track = i.track ∧
      (i'.association ≠ none ↔ ∃ m ∈ p.metadata, getPeerIdMid p.userId m.mid = k)
  /-- The last entry of a mid decides. -/
  last : ∀ k i' a, st'.tracksByPeerIdMid.lookup k = some i' →
    (i'.association = some a ↔
      ∃ m, IsLastEntry p.metadata m ∧ getPeerIdMid p.userId m.mid = k ∧ a = m.target)
  /-- An associated track is in its stream and in no other one. -/
  member : ∀ k i' a, st'.tracksByPeerIdMid.lookup k = some i' → i'.association = some a →
    ∀ u s, Member st'.streamsByUserId u s i'.track ↔ u = a.userId ∧ s = a.streamId
  /-- Nothing is known that was not known before. -/
  unknown : ∀ k, st.tracksByPeerIdMid.lookup k = none → st'.tracksByPeerIdMid.lookup k = none
  /-- A track that is not known has no key and is in no stream, before and after. -/
  untouched : ∀ t, st.trackIdToPeerIdMid.lookup t = none →
    st'.trackIdToPeerIdMid.lookup t = none ∧ ∀ u s, ¬ Member st.streamsByUserId u s t ∧
      ¬ Member st'.streamsByUserId u s t
  /-- The same payload changes nothing when it comes again. -/
  again : (∀ k, entry (setMetadata st' p) k = entry st' k) ∧
    ∀ u s t, Member (setMetadata st' p).streamsByUserId u s t ↔ Member st'.streamsByUserId u s t

section Exact

variable {s : System} {p : MetadataPayload}

theorem Exact.setMetadata (h : Exact s) (p : MetadataPayload) :
    Exact ⟨setMetadata s.state p, s.uses⟩ :=
  h.tracksMetadata (h.toTracked.step (a := .tracksMetadata p) trivial rfl)

/-- A track without a key is in no stream. -/
theorem Exact.not_member (h : Exact s) {t : String} (ht : s.state.trackIdToPeerIdMid.lookup t = none)
    (u i : String) : ¬ Member s.state.streamsByUserId u i t := by
  intro hm
  obtain ⟨k, hk⟩ := h.associated.mp hm
  rw [h.rep.linked t k _ hk] at ht
  cases ht

/-- The associations after the action are those of the metadata. -/
theorem Exact.association_setMetadata (h : Exact s) {k : String} {i' : TrackInfo}
    (hk : (Streams.setMetadata s.state p).tracksByPeerIdMid.lookup k = some i') :
    i'.association = ((keyBy p.userId p.metadata).lookup k).map TrackMetadata.target := by
  obtain ⟨-, -, hentry, -⟩ := setMetadata_spec h.rep p
  have hk' := entry_of_lookup hk
  rw [hentry] at hk'
  obtain ⟨x, -, hx⟩ := Option.map_eq_some_iff.mp hk'
  exact (Prod.mk.inj hx).2.symm

/-- A track is in the stream that it is associated with, and in no other one. -/
theorem Exact.member_iff (h : Exact s) {k : String} {i : TrackInfo} {a : TrackAssociation}
    (hi : s.state.tracksByPeerIdMid.lookup k = some i) (ha : i.association = some a) (u streamId : String) :
    Member s.state.streamsByUserId u streamId i.track ↔ u = a.userId ∧ streamId = a.streamId := by
  have hk := entry_of_lookup hi
  rw [ha] at hk
  refine h.associated.trans ⟨fun hassoc => ?_, ?_⟩
  · have heq := h.rep.toCoherent.associated_unique hk hassoc
    obtain rfl := Option.some.inj heq
    exact ⟨rfl, rfl⟩
  · rintro ⟨rfl, rfl⟩
    exact ⟨k, hk⟩

/-- The action gives no track a key. -/
theorem Exact.trackIdToPeerIdMid_setMetadata (h : Exact s) {t : String}
    (ht : s.state.trackIdToPeerIdMid.lookup t = none) :
    (Streams.setMetadata s.state p).trackIdToPeerIdMid.lookup t = none := by
  obtain ⟨-, -, hentry, -⟩ := setMetadata_spec h.rep p
  refine Option.eq_none_iff_forall_not_mem.mpr fun k hk => ?_
  obtain ⟨a, ha⟩ := (h.setMetadata p).rep.back hk
  rw [hentry] at ha
  obtain ⟨x, hx, hxt⟩ := Option.map_eq_some_iff.mp ha
  obtain rfl : x.1 = t := (Prod.mk.inj hxt).1
  rw [h.rep.linked x.1 k x.2 hx] at ht
  cases ht

theorem Exact.entry_setMetadata_again (h : Exact s) (k : String) :
    entry (Streams.setMetadata (Streams.setMetadata s.state p) p) k =
      entry (Streams.setMetadata s.state p) k := by
  obtain ⟨hR, -, hentry, -⟩ := setMetadata_spec h.rep p
  obtain ⟨-, -, hentry', -⟩ := setMetadata_spec hR p
  rw [hentry', hentry, Option.map_map]
  rfl

theorem Exact.reassociates (h : Exact s) (p : MetadataPayload) :
    Reassociates s.state p (Streams.setMetadata s.state p) := by
  obtain ⟨-, -, hentry, -⟩ := setMetadata_spec h.rep p
  have h' := h.setMetadata p
  have h'' := h'.setMetadata p
  refine ⟨?_, ?_, ?_, ?_, ?_, h.entry_setMetadata_again, ?_⟩
  · intro k i hi
    have hk : entry (Streams.setMetadata s.state p) k =
        some (i.track, ((keyBy p.userId p.metadata).lookup k).map TrackMetadata.target) := by
      rw [hentry, entry_of_lookup hi, Option.map_some]
    obtain ⟨i', hi', htrack, hassoc⟩ := entry_eq_some.mp hk
    refine ⟨i', hi', htrack, ?_⟩
    rw [hassoc, ne_eq, Option.map_eq_none_iff]
    exact lookup_keyBy_ne_none_iff
  · intro k i' a hi'
    rw [h.association_setMetadata hi', Option.map_eq_some_iff]
    constructor
    · rintro ⟨m, hm, rfl⟩
      obtain ⟨hlast, hkey⟩ := lookup_keyBy_iff.mp hm
      exact ⟨m, hlast, hkey, rfl⟩
    · rintro ⟨m, hlast, hkey, rfl⟩
      exact ⟨m, lookup_keyBy_iff.mpr ⟨hlast, hkey⟩, rfl⟩
  · intro k i' a hi' ha u i
    exact h'.member_iff hi' ha u i
  · intro k hk
    have hnone : entry (Streams.setMetadata s.state p) k = none := by
      rw [hentry, entry, hk]
      rfl
    exact Option.map_eq_none_iff.mp hnone
  · intro t ht
    have hnone := h.trackIdToPeerIdMid_setMetadata (p := p) ht
    exact ⟨hnone, fun u i => ⟨h.not_member ht u i, h'.not_member hnone u i⟩⟩
  · intro u i t
    refine h''.associated.trans (Iff.trans ?_ h'.associated.symm)
    exact exists_congr fun k => by
      show entry (Streams.setMetadata (Streams.setMetadata s.state p) p) k = _ ↔
        entry (Streams.setMetadata s.state p) k = _
      rw [h.entry_setMetadata_again]

end Exact

/-- **`TRACKS_METADATA` re-associates exactly**, in every state of a consistent run and for every payload. -/
theorem metadata_reassociates {s : System} (h : Reach step Consistent start s) (p : MetadataPayload) :
    Reassociates s.state p (setMetadata s.state p) := by
  have hE : Exact s := h.invariant exact_start fun _ _ _ hI hok hs => hI.step hok hs
  exact hE.reassociates p

/-- Two tracks of a peer swap their users; one mid comes twice and one is not known. -/
theorem metadata_reassociates_example : ∃ s, exec (guarded step Consistent) start
    [.streamTrackAdd ⟨"0", "s", "peer", "t"⟩, .streamTrackAdd ⟨"1", "s", "peer", "t'"⟩,
      .tracksMetadata ⟨"peer", [⟨"0", "video", "alice", "a"⟩, ⟨"1", "video", "bob", "b"⟩]⟩] = some s ∧
    s.state.streamsByUserId.keys = ["bob", "alice"] ∧
    Reassociates s.state
      ⟨"peer", [⟨"0", "video", "carol", "c"⟩, ⟨"1", "video", "alice", "a"⟩, ⟨"2", "audio", "dave", "d"⟩,
        ⟨"0", "video", "bob", "b"⟩]⟩
      (setMetadata s.state ⟨"peer", [⟨"0", "video", "carol", "c"⟩, ⟨"1", "video", "alice", "a"⟩,
        ⟨"2", "audio", "dave", "d"⟩, ⟨"0", "video", "bob", "b"⟩]⟩) :=
  exists_exec (by decide) fun _ hs _ => metadata_reassociates hs _

end Meeting.Streams
