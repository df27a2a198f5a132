import Meeting.Lib.Lists
import Meeting.Lib.Runs

/-!
# Meeting.Sfu.Lobby — the rooms of the SFU (`MemoryTracksManager` of `tracksmanager.go`)

`Add` puts a transport into the `RoomPeersManager` of its room, which it makes for the first one, and starts a
goroutine that waits until the transport has closed and cleans up: it removes the client id of the transport from
that manager, and the room when the manager is empty.  Both run under `mu` and are steps.  Of a
`RoomPeersManager` only its `transports` matter here; it is named by the order in which they are made.

* `live_in_room`: along the runs in which no client is added to a room again before the clean-up of its earlier
  transport there (`CleanedBefore`), every live transport is in the manager of its room;
* `live_without_room`: the clean-up of the old transport removes the new one, and the room.
-/

namespace Meeting.Sfu.Lobby

open Lib

/-! ### State -/

inductive Phase where
  | live
  /-- Its clean-up has still to run. -/
  | closed
  | cleaned
  deriving DecidableEq, Repr

/-- A transport that was added, with the manager that its goroutine has. -/
structure Added where
  clientID : String
  room : String
  manager : ℕ
  phase : Phase
  deriving DecidableEq, Repr

/-- `MemoryTracksManager`, the managers that it made and the transports. -/
structure Tracks where
  roomPeersManager : AList fun _ : String => ℕ
  /-- The number of managers that were made, and the `transports` of each. -/
  made : ℕ
  transports : ℕ → AList fun _ : String => ℕ
  added : AList fun _ : ℕ => Added

def Tracks.empty : Tracks := ⟨∅, 0, fun _ => ∅, ∅⟩

/-! ### Operations -/

/-- `Add`. -/
def Tracks.add (s : Tracks) (transport : ℕ) (clientID room : String) : Tracks :=
  let (s, manager) :=
    match s.roomPeersManager.lookup room with
    | some manager => (s, manager)
    | none =>
      ({ s with roomPeersManager := s.roomPeersManager.insert room s.made, made := s.made + 1 }, s.made)
  { s with
    transports := Function.update s.transports manager ((s.transports manager).insert clientID transport)
    added := s.added.insert transport ⟨clientID, room, manager, .live⟩ }

/-- The goroutine of a transport that has closed. -/
def Tracks.cleanUp (s : Tracks) (transport : ℕ) (a : Added) : Tracks :=
  let left := (s.transports a.manager).erase a.clientID
  { s with
    transports := Function.update s.transports a.manager left
    roomPeersManager :=
      if left.keys = [] then s.roomPeersManager.erase a.room else s.roomPeersManager
    added := s.added.insert transport { a with phase := .cleaned } }

inductive Action where
  | add (transport : ℕ) (clientID room : String)
  | close (transport : ℕ)
  | cleanUp (transport : ℕ)
  deriving DecidableEq, Repr

/-- A client is added to a room again after its previous transport has closed. -/
def step (s : Tracks) : Action → Option Tracks
  | .add transport clientID room =>
    if transport ∉ s.added ∧
        ∀ x ∈ s.added.entries, x.2.clientID = clientID → x.2.room = room → x.2.phase ≠ .live then
      some (s.add transport clientID room)
    else none
  | .close transport =>
    match s.added.lookup transport with
    | none => none
    | some a =>
      if a.phase = .live then
        some { s with added := s.added.insert transport { a with phase := .closed } }
      else none
  | .cleanUp transport =>
    match s.added.lookup transport with
    | none => none
    | some a => if a.phase = .closed then some (s.cleanUp transport a) else none

/-- What a step can do. -/
inductive Stepped (s : Tracks) : Action → Tracks → Prop
  | join {t m : ℕ} {c room : String} : t ∉ s.added →
      (∀ x ∈ s.added.entries, x.2.clientID = c → x.2.room = room → x.2.phase ≠ .live) →
      s.roomPeersManager.lookup room = some m → Stepped s (.add t c room) { s with
        transports := Function.update s.transports m ((s.transports m).insert c t)
        added := s.added.insert t ⟨c, room, m, .live⟩ }
  | create {t : ℕ} {c room : String} : t ∉ s.added → s.roomPeersManager.lookup room = none →
      Stepped s (.add t c room) { s with
        roomPeersManager := s.roomPeersManager.insert room s.made
        made := s.made + 1
        transports := Function.update s.transports s.made ((s.transports s.made).insert c t)
        added := s.added.insert t ⟨c, room, s.made, .live⟩ }
  | close {t : ℕ} {a : Added} : s.added.lookup t = some a → a.phase = .live →
      Stepped s (.close t) { s with added := s.added.insert t { a with phase := .closed } }
  | cleanUp {t : ℕ} {a : Added} : s.added.lookup t = some a → a.phase = .closed →
      Stepped s (.cleanUp t) (s.cleanUp t a)

theorem stepped_of_step {s s' : Tracks} {x : Action} (hs : step s x = some s') : Stepped s x s' := by
  cases x with
  | add t c room =>
    simp only [step] at hs
    split_ifs at hs with h
    obtain rfl := Option.some.inj hs
    unfold Tracks.add
    cases hm : s.roomPeersManager.lookup room with
    | some m => exact .join h.1 h.2 hm
    | none => exact .create h.1 hm
  | close t =>
    simp only [step] at hs
    cases ha : s.added.lookup t with
    | none => simp [ha] at hs
    | some a =>
      simp only [ha] at hs
      split_ifs at hs with hp
      exact Option.some.inj hs ▸ .close ha hp
  | cleanUp t =>
    simp only [step] at hs
    cases ha : s.added.lookup t with
    | none => simp [ha] at hs
    | some a =>
      simp only [ha] at hs
      split_ifs at hs with hp
      exact Option.some.inj hs ▸ .cleanUp ha hp

/-! ### The invariant -/

/-- No client is added to a room while the clean-up of an earlier transport of it there has still to run. -/
def CleanedBefore (s : Tracks) : Action → Prop
  | .add _ clientID room =>
    ∀ x ∈ s.added.entries, x.2.clientID = clientID → x.2.room = room → x.2.phase ≠ .closed
  | _ => True

instance : DecidableRel CleanedBefore
  | s, .add _ clientID room => inferInstanceAs (Decidable
      (∀ x ∈ s.added.entries, x.2.clientID = clientID → x.2.room = room → x.2.phase ≠ .closed))
  | _, .close _ | _, .cleanUp _ => isTrue trivial

structure Held (s : Tracks) : Prop where
  /-- A transport that was not cleaned up is in its manager, which is that of its room. -/
  held : ∀ {t a}, s.added.lookup t = some a → a.phase ≠ .cleaned →
    (s.transports a.manager).lookup a.clientID = some t ∧ s.roomPeersManager.lookup a.room = some a.manager
  rooms : ∀ {room room' m}, s.roomPeersManager.lookup room = some m →
    s.roomPeersManager.lookup room' = some m → room = room'
  made : ∀ {room m}, s.roomPeersManager.lookup room = some m → m < s.made

theorem held_empty : Held Tracks.empty := by
  refine ⟨?_, ?_, ?_⟩
  · intro t a h
    cases h
  · intro room room' m h
    cases h
  · intro room m h
    cases h

section Held

variable {s : Tracks} {t m : ℕ} {c room : String} {a : Added}

theorem Held.join (h : Held s) (hm : s.roomPeersManager.lookup room = some m)
    (hclean : ∀ x ∈ s.added.entries, x.2.clientID = c → x.2.room = room → x.2.phase = .cleaned) :
    Held { s with
      transports := Function.update s.transports m ((s.transports m).insert c t)
      added := s.added.insert t ⟨c, room, m, .live⟩ } := by
  refine ⟨?_, h.rooms, h.made⟩
  intro t' a' ha' hp
  rcases lookup_insert_cases ha' with ⟨rfl, rfl⟩ | ⟨-, ha'⟩
  · refine ⟨?_, hm⟩
    simp only [Function.update_self]
    exact AList.lookup_insert _
  · obtain ⟨hin, hr⟩ := h.held ha' hp
    refine ⟨?_, hr⟩
    show (Function.update s.transports m ((s.transports m).insert c t) a'.manager).lookup a'.clientID = some t'
    by_cases hmm : a'.manager = m
    · -- another transport of the room has another client id
      have hroom : a'.room = room := h.rooms hr (hmm ▸ hm)
      have hne : a'.clientID ≠ c := fun he => hp (hclean ⟨t', a'⟩ (AList.mem_lookup_iff.mp ha') he hroom)
      rw [hmm, Function.update_self, AList.lookup_insert_ne hne, ← hmm]
      exact hin
    · rw [Function.update_of_ne hmm]
      exact hin

theorem Held.create (h : Held s) (hm : s.roomPeersManager.lookup room = none) :
    Held { s with
      roomPeersManager := s.roomPeersManager.insert room s.made
      made := s.made + 1
      transports := Function.update s.transports s.made ((s.transports s.made).insert c t)
      added := s.added.insert t ⟨c, room, s.made, .live⟩ } := by
  have hold : ∀ {r m}, s.roomPeersManager.lookup r = some m → r ≠ room ∧ m ≠ s.made := by
    intro r m hr
    refine ⟨?_, Nat.ne_of_lt (h.made hr)⟩
    rintro rfl
    rw [hm] at hr
    cases hr
  refine ⟨?_, ?_, ?_⟩
  · intro t' a' ha' hp
    rcases lookup_insert_cases ha' with ⟨rfl, rfl⟩ | ⟨-, ha'⟩
    · refine ⟨?_, AList.lookup_insert _⟩
      simp only [Function.update_self]
      exact AList.lookup_insert _
    · obtain ⟨hin, hr⟩ := h.held ha' hp
      obtain ⟨hroom, hmm⟩ := hold hr
      refine ⟨?_, by rw [AList.lookup_insert_ne hroom, hr]⟩
      simp only [Function.update_of_ne hmm]
      exact hin
  · intro r r' m hr hr'
    rcases lookup_insert_cases hr with ⟨rfl, rfl⟩ | ⟨-, hr⟩
    · rcases lookup_insert_cases hr' with ⟨rfl, -⟩ | ⟨-, hr'⟩
      · rfl
      · exact absurd rfl (hold hr').2
    · rcases lookup_insert_cases hr' with ⟨-, rfl⟩ | ⟨-, hr'⟩
      · exact absurd rfl (hold hr).2
      · exact h.rooms hr hr'
  · intro r m hr
    rcases lookup_insert_cases hr with ⟨-, rfl⟩ | ⟨-, hr⟩
    · exact Nat.lt_succ_self _
    · exact Nat.lt_succ_of_lt (h.made hr)

theorem Held.close (h : Held s) (ha : s.added.lookup t = some a) (hp : a.phase = .live) :
    Held { s with added := s.added.insert t { a with phase := .closed } } := by
  have hheld := h.held ha (by simp [hp])
  refine ⟨?_, h.rooms, h.made⟩
  intro t' a' ha' hp'
  rcases lookup_insert_cases ha' with ⟨rfl, rfl⟩ | ⟨-, ha'⟩
  · exact hheld
  · exact h.held ha' hp'

/-- The manager of a transport is empty after a clean-up only if no other transport is held there. -/
theorem Held.cleanUp (h : Held s) (ha : s.added.lookup t = some a) (hp : a.phase = .closed) :
    Held (s.cleanUp t a) := by
  obtain ⟨hin, hr⟩ := h.held ha (by simp [hp])
  have hsub : ∀ {r m}, (s.cleanUp t a).roomPeersManager.lookup r = some m →
      s.roomPeersManager.lookup r = some m := by
    intro r m hl
    simp only [Tracks.cleanUp] at hl
    split_ifs at hl
    · exact (lookup_of_lookup_erase hl).2
    · exact hl
  refine ⟨?_, fun h1 h2 => h.rooms (hsub h1) (hsub h2), fun h1 => h.made (hsub h1)⟩
  intro t' a' ha' hp'
  rcases lookup_insert_cases ha' with ⟨-, rfl⟩ | ⟨hne, ha'⟩
  · exact absurd rfl hp'
  · obtain ⟨hin', hr'⟩ := h.held ha' hp'
    -- a transport of the same manager has another client id
    have hleft : a'.manager = a.manager →
        ((s.transports a.manager).erase a.clientID).lookup a'.clientID = some t' := by
      intro hmm
      have hid : a'.clientID ≠ a.clientID := by
        intro he
        rw [hmm, he, hin, Option.some.injEq] at hin'
        exact hne hin'.symm
      rw [AList.lookup_erase_ne hid, ← hmm]
      exact hin'
    constructor
    · show (Function.update s.transports a.manager _ a'.manager).lookup a'.clientID = some t'
      by_cases hmm : a'.manager = a.manager
      · rw [hmm, Function.update_self]
        exact hleft hmm
      · rw [Function.update_of_ne hmm]
        exact hin'
    · simp only [Tracks.cleanUp]
      split_ifs with hempty
      · have hroom : a'.room ≠ a.room := by
          intro he
          have hmm : a'.manager = a.manager := by
            rw [he, hr, Option.some.injEq] at hr'
            exact hr'.symm
          have hmem : a'.clientID ∈ ((s.transports a.manager).erase a.clientID).keys :=
            AList.lookup_isSome.mp (hleft hmm ▸ rfl)
          rw [hempty] at hmem
          cases hmem
        rw [AList.lookup_erase_ne hroom, hr']
      · exact hr'

/-- **Step lemma.** -/
theorem Held.step {s' : Tracks} {x : Action} (h : Held s) (hok : CleanedBefore s x) (hs : Stepped s x s') :
    Held s' := by
  cases hs with
  | join _ hlive hm =>
    refine h.join hm fun y hy hid hroom => ?_
    cases hp : y.2.phase with
    | live => exact absurd hp (hlive y hy hid hroom)
    | closed => exact absurd hp (hok y hy hid hroom)
    | cleaned => rfl
  | create _ hm => exact h.create hm
  | close ha hp => exact h.close ha hp
  | cleanUp ha hp => exact h.cleanUp ha hp

end Held

/-- **A live transport stays in its room**: along every run in which clients are added again after the clean-up of
their earlier transports, a transport that has not closed is registered in the manager of its room. -/
theorem live_in_room {s : Tracks} (h : Reach step CleanedBefore Tracks.empty s) {t : ℕ} {a : Added}
    (ha : s.added.lookup t = some a) (hlive : a.phase = .live) :
    ∃ m, s.roomPeersManager.lookup a.room = some m ∧ (s.transports m).lookup a.clientID = some t := by
  have hH := Reach.invariant (I := Held) held_empty
    (fun _ _ _ hI hok hs => hI.step hok (stepped_of_step hs)) h
  obtain ⟨hin, hr⟩ := hH.held ha (by simp [hlive])
  exact ⟨a.manager, hr, hin⟩

/-- A client hangs up and is ready again after the clean-up; the room was empty in between. -/
theorem live_in_room_example : ∃ s, exec (guarded step CleanedBefore) Tracks.empty
      [.add 0 "a" "r", .close 0, .cleanUp 0, .add 1 "b" "r", .add 2 "a" "r", .close 1] = some s ∧
    s.added.lookup 2 = some ⟨"a", "r", 1, .live⟩ ∧
    ∃ m, s.roomPeersManager.lookup "r" = some m ∧ (s.transports m).lookup "a" = some 2 :=
  exists_exec (by decide) fun _ hs ha => live_in_room hs ha rfl

/-- A client hangs up and is ready again before the clean-up. -/
theorem live_without_room : ∃ s, exec (guarded step anyStep) Tracks.empty
      [.add 0 "a" "r", .close 0, .add 1 "a" "r", .cleanUp 0] = some s ∧
    (s.added.lookup 1 = some ⟨"a", "r", 0, .live⟩ ∧ s.roomPeersManager.lookup "r" = none ∧
      (s.transports 0).lookup "a" = none) ∧ Reach step anyStep Tracks.empty s :=
  exists_exec (by decide) fun _ hs _ => hs

end Meeting.Sfu.Lobby
