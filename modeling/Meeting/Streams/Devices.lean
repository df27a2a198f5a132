import Meeting.Lib.Lists
import Meeting.Lib.Runs

/-!
# Meeting.Streams.Devices — the device dropdown and the tracks of the camera stream

A selection in `DeviceDropdown` sets the constraint of its kind and then changes the local camera stream: a new track for
the constraint replaces the old one, `No <device>` mutes the track, and the device that was selected before `No <device>`
is only unmuted.  For this the component remembers that device (`lastDevice`), and it does not forget it when another one
is selected in between.

A track carries the constraint that it was obtained for.  `getUserMedia` succeeds, with a track that is enabled, and ends
before the next selection.  What is told to the peers is left out.

* `tracksOf_handleDevice`: the tracks of the kind after a selection;
* `selects_shown_iff`: a selection gives the device it shows exactly if it is right to unmute (`Recalls`).
-/

namespace Meeting.Streams.Devices

open Lib

inductive MediaKind where
  | audio | video
  deriving DecidableEq, Repr

inductive FacingMode where
  | user | environment
  deriving DecidableEq, Repr

/-- `AudioConstraint` and `VideoConstraint`.  A device of the list has a name, a plain constraint has none. -/
inductive Constraint where
  | bool (on : Bool)
  | device (deviceId : String) (name : Option String)
  | facing (facingMode : FacingMode) (exact : Bool)
  deriving DecidableEq, Repr

/-- The constraint as a condition. -/
def Constraint.truthy : Constraint → Bool
  | .bool on => on
  | _ => true

def isDeviceConstraint : Constraint → Bool
  | .device deviceId _ => deviceId != ""
  | _ => false

/-- `toPlainConstraint`: the name is dropped, but not from a device without an id. -/
def toPlainConstraint (c : Constraint) : Constraint :=
  if isDeviceConstraint c then
    match c with
    | .device deviceId _ => .device deviceId none
    | c => c
  else c

structure MediaStreamTrack where
  kind : MediaKind
  constraint : Constraint
  enabled : Bool
  deriving DecidableEq, Repr

/-- The constraints of the `media` state, the camera stream of `localStreams`, and what the component remembers. -/
structure State where
  audio : Constraint
  video : Constraint
  localStream : Option (List MediaStreamTrack)
  lastDevice : Option Constraint
  deriving DecidableEq, Repr

def State.constraint (s : State) : MediaKind → Constraint
  | .audio => s.audio
  | .video => s.video

/-- `MEDIA_AUDIO_CONSTRAINT_SET` and `MEDIA_VIDEO_CONSTRAINT_SET`. -/
def State.setConstraint (s : State) (kind : MediaKind) (constraint : Constraint) : State :=
  match kind with
  | .audio => { s with audio := constraint }
  | .video => { s with video := constraint }

/-- What can be selected: `No <device>`, the default device, or one of the list. -/
inductive Choice where
  | none
  | default
  | device (deviceId name : String)
  deriving DecidableEq, Repr

def defaultDevices : MediaKind → Constraint
  | .audio => .bool true
  | .video => .facing .user false

def Choice.constraint (kind : MediaKind) : Choice → Constraint
  | .none => .bool false
  | .default => defaultDevices kind
  | .device deviceId name => .device deviceId (some name)

/-! ### The reducers -/

def getTracksByKind (stream : List MediaStreamTrack) (kind : MediaKind) : List MediaStreamTrack :=
  stream.filter fun t => t.kind = kind

/-- `oldTrack.enabled = false` for the first track of the kind. -/
def muteFirst (kind : MediaKind) : List MediaStreamTrack → List MediaStreamTrack
  | [] => []
  | t :: ts => if t.kind = kind then { t with enabled := false } :: ts else t :: muteFirst kind ts

/-- `handleLocalMediaTrack`, on the camera stream. -/
def handleLocalMediaTrack (kind : MediaKind) (track : Option MediaStreamTrack) (localStream : List MediaStreamTrack) :
    List MediaStreamTrack :=
  match (getTracksByKind localStream kind).head?, track with
  | some _, some newTrack => localStream.eraseP (fun t => t.kind = kind) ++ [newTrack]
  | some _, none => muteFirst kind localStream
  | none, some newTrack => localStream ++ [newTrack]
  | none, none => localStream

/-- `handleLocalMediaTrackEnable`, on the camera stream. -/
def handleLocalMediaTrackEnable (kind : MediaKind) (localStream : List MediaStreamTrack) : List MediaStreamTrack :=
  localStream.map fun t => if t.kind = kind then { t with enabled := true } else t

/-! ### The component -/

/-- The track of the payload of `getMediaTrack`: a new one, unless the constraint is `false`. -/
def obtainedTrack (kind : MediaKind) (constraint : Constraint) : Option MediaStreamTrack :=
  if constraint.truthy then some ⟨kind, constraint, true⟩ else none

/-- `DeviceDropdown.getMediaTrack`.  Constraints are equal as JSON texts exactly if they are equal. -/
def getMediaTrack (s : State) (kind : MediaKind) (constraint : Constraint) : State :=
  if constraint.truthy ∧ s.lastDevice = some constraint then
    { s with localStream := s.localStream.map (handleLocalMediaTrackEnable kind) }
  else { s with localStream := s.localStream.map (handleLocalMediaTrack kind (obtainedTrack kind constraint)) }

def handleDevice (kind : MediaKind) (s : State) (choice : Choice) : State :=
  let constraint := toPlainConstraint (choice.constraint kind)
  let lastDevice := if !constraint.truthy && (s.constraint kind).truthy then some (s.constraint kind) else s.lastDevice
  getMediaTrack (({ s with lastDevice } : State).setConstraint kind constraint) kind constraint

def step (kind : MediaKind) (s : State) (choice : Choice) : Option State := some (handleDevice kind s choice)

/-! ### What a selection shows -/

/-- The tracks of the kind in the camera stream. -/
def tracksOf (kind : MediaKind) (s : State) : List MediaStreamTrack := getTracksByKind (s.localStream.getD []) kind

/-- The call starts with the track that was obtained for the constraint that is selected. -/
structure Starts (kind : MediaKind) (s : State) : Prop where
  camera : s.localStream.isSome
  tracks : tracksOf kind s = if (s.constraint kind).truthy then [⟨kind, s.constraint kind, true⟩] else []
  lastDevice : s.lastDevice = none

/-- A device is the one track of the kind, obtained for its constraint and enabled; `No <device>` has none enabled. -/
def Selects (kind : MediaKind) (choice : Choice) (s : State) : Prop :=
  if choice = .none then ∀ t ∈ tracksOf kind s, t.enabled = false
  else tracksOf kind s = [⟨kind, toPlainConstraint (choice.constraint kind), true⟩]

/-- If the device is the one that is remembered, then its track is the one that is there. -/
def Recalls (kind : MediaKind) (s : State) (choice : Choice) : Prop :=
  choice ≠ .none → s.lastDevice = some (toPlainConstraint (choice.constraint kind)) →
    (tracksOf kind s).map MediaStreamTrack.constraint = [toPlainConstraint (choice.constraint kind)]

instance (kind : MediaKind) (choice : Choice) (s : State) : Decidable (Selects kind choice s) := by
  unfold Selects
  infer_instance

instance (kind : MediaKind) : DecidableRel (Recalls kind) := fun s choice =>
  inferInstanceAs (Decidable (choice ≠ .none → s.lastDevice = some _ → (tracksOf kind s).map _ = [_]))

/-- What is shown is what is there. -/
def Shows (kind : MediaKind) (s : State) : Prop :=
  if (s.constraint kind).truthy then tracksOf kind s = [⟨kind, s.constraint kind, true⟩]
  else ∀ t ∈ tracksOf kind s, t.enabled = false

section

variable {kind : MediaKind}

theorem getTracksByKind_muteFirst : ∀ stream : List MediaStreamTrack,
    getTracksByKind (muteFirst kind stream) kind =
      match getTracksByKind stream kind with
      | [] => []
      | t :: ts => { t with enabled := false } :: ts
  | [] => rfl
  | t :: ts => by
    have ih := getTracksByKind_muteFirst ts
    unfold getTracksByKind at ih ⊢
    by_cases h : t.kind = kind
    · simp [muteFirst, h]
    · simp [muteFirst, h, ih]

theorem getTracksByKind_enable (stream : List MediaStreamTrack) :
    getTracksByKind (handleLocalMediaTrackEnable kind stream) kind =
      (getTracksByKind stream kind).map fun t => { t with enabled := true } := by
  unfold getTracksByKind handleLocalMediaTrackEnable
  induction stream with
  | nil => rfl
  | cons t ts ih =>
    by_cases h : t.kind = kind
    · simp only [List.map_cons, List.filter_cons, h, decide_true, if_true, ih]
    · simp only [List.map_cons, List.filter_cons, h, decide_false, Bool.false_eq_true, if_false, ih]

/-- A new track takes the place of the first one of its kind; without one, this is muted. -/
theorem getTracksByKind_handleLocalMediaTrack (constraint : Constraint) (stream : List MediaStreamTrack) :
    getTracksByKind (handleLocalMediaTrack kind (obtainedTrack kind constraint) stream) kind =
      if constraint.truthy then (getTracksByKind stream kind).tail ++ [⟨kind, constraint, true⟩]
      else match getTracksByKind stream kind with
        | [] => []
        | t :: ts => { t with enabled := false } :: ts := by
  have hself : ∀ t : MediaStreamTrack, t.kind = kind → getTracksByKind [t] kind = [t] := by
    intro t h
    simp [getTracksByKind, h]
  have happend : ∀ l l' : List MediaStreamTrack,
      getTracksByKind (l ++ l') kind = getTracksByKind l kind ++ getTracksByKind l' kind := fun l l' =>
    List.filter_append l l'
  unfold handleLocalMediaTrack obtainedTrack
  split_ifs with htruthy
  · cases hold : getTracksByKind stream kind with
    | nil =>
      simp only [List.head?_nil]
      rw [happend, hold, hself _ rfl, List.tail_nil]
    | cons t ts =>
      have htail := filter_eraseP (p := fun t : MediaStreamTrack => decide (t.kind = kind)) stream
      simp only [List.head?_cons]
      rw [happend, hself _ rfl]
      exact congrArg (· ++ _) (htail.trans (congrArg List.tail hold))
  · cases hold : getTracksByKind stream kind with
    | nil =>
      simp only [List.head?_nil]
      exact hold
    | cons t ts =>
      simp only [List.head?_cons]
      rw [getTracksByKind_muteFirst, hold]

theorem truthy_toPlainConstraint (c : Constraint) : (toPlainConstraint c).truthy = c.truthy := by
  unfold toPlainConstraint
  split_ifs
  · cases c <;> rfl
  · rfl

/-- Only `No <device>` is `false`. -/
theorem truthy_constraint (kind : MediaKind) (choice : Choice) :
    (toPlainConstraint (choice.constraint kind)).truthy = decide (choice ≠ .none) := by
  rw [truthy_toPlainConstraint]
  cases choice with
  | none => rfl
  | default => cases kind <;> rfl
  | device deviceId name => rfl

/-- **The tracks of the kind after a selection.** -/
theorem tracksOf_handleDevice {s : State} (hcamera : s.localStream.isSome) (choice : Choice) :
    tracksOf kind (handleDevice kind s choice) =
      if choice = .none then
        match tracksOf kind s with
        | [] => []
        | t :: ts => { t with enabled := false } :: ts
      else if s.lastDevice = some (toPlainConstraint (choice.constraint kind)) then
        (tracksOf kind s).map fun t => { t with enabled := true }
      else (tracksOf kind s).tail ++ [⟨kind, toPlainConstraint (choice.constraint kind), true⟩] := by
  obtain ⟨stream, hstream⟩ := Option.isSome_iff_exists.mp hcamera
  -- setting the constraint changes neither the stream nor what is remembered
  have hset : ∀ (s : State) (c : Constraint), (s.setConstraint kind c).localStream = s.localStream ∧
      (s.setConstraint kind c).lastDevice = s.lastDevice := by
    intro s c
    cases kind <;> exact ⟨rfl, rfl⟩
  have htruthy := truthy_constraint kind choice
  unfold handleDevice getMediaTrack tracksOf
  simp only [(hset _ _).1, (hset _ _).2, htruthy, hstream]
  by_cases hnone : choice = .none
  · subst hnone
    simp only [ne_eq, not_true_eq_false, decide_false, Bool.false_eq_true, false_and, if_false, if_true,
      Option.map_some, Option.getD_some]
    exact getTracksByKind_handleLocalMediaTrack (.bool false) stream
  · simp only [ne_eq, hnone, not_false_eq_true, decide_true, Bool.not_true, Bool.false_and, Bool.false_eq_true, if_false,
      true_and]
    split_ifs with hlast
    · exact getTracksByKind_enable stream
    · simp only [Option.map_some, Option.getD_some]
      rw [getTracksByKind_handleLocalMediaTrack, htruthy, if_pos (decide_eq_true hnone)]

theorem isSome_handleDevice {s : State} (hcamera : s.localStream.isSome) (choice : Choice) :
    (handleDevice kind s choice).localStream.isSome := by
  obtain ⟨stream, hstream⟩ := Option.isSome_iff_exists.mp hcamera
  unfold handleDevice getMediaTrack State.setConstraint
  cases kind <;> dsimp only <;> split_ifs <;> simp [hstream]

/-- There is never more than one track of the kind. -/
structure AtMostOne (kind : MediaKind) (s : State) : Prop where
  camera : s.localStream.isSome
  length : (tracksOf kind s).length ≤ 1

theorem AtMostOne.handleDevice {s : State} (h : AtMostOne kind s) (choice : Choice) :
    AtMostOne kind (handleDevice kind s choice) := by
  refine ⟨isSome_handleDevice h.camera choice, ?_⟩
  have hlength := h.length
  rw [tracksOf_handleDevice h.camera]
  split_ifs
  · cases hold : tracksOf kind s with
    | nil => exact Nat.zero_le 1
    | cons t ts =>
      rw [hold] at hlength
      exact hlength
  · rw [List.length_map]
    exact hlength
  · rw [List.length_append, List.length_tail, List.length_singleton]
    omega

/-- **One selection** gives what it shows exactly if it is right to unmute. -/
theorem selects_handleDevice_iff {s : State} (h : AtMostOne kind s) (choice : Choice) :
    Selects kind choice (handleDevice kind s choice) ↔ Recalls kind s choice := by
  have hlength := h.length
  unfold Selects Recalls
  rw [tracksOf_handleDevice h.camera]
  by_cases hnone : choice = .none
  · rw [if_pos hnone, if_pos hnone]
    refine iff_of_true ?_ fun hne => absurd hnone hne
    cases hold : tracksOf kind s with
    | nil => exact fun t ht => absurd ht List.not_mem_nil
    | cons t ts =>
      obtain rfl : ts = [] := by
        rw [hold, List.length_cons] at hlength
        exact List.length_eq_zero_iff.mp (by omega)
      intro t' ht'
      rw [List.mem_singleton.mp ht']
  · rw [if_neg hnone, if_neg hnone]
    by_cases hlast : s.lastDevice = some (toPlainConstraint (choice.constraint kind))
    · -- the tracks that are there are unmuted, whatever they were obtained for
      rw [if_pos hlast]
      simp only [ne_eq, hnone, not_false_eq_true, hlast, forall_const]
      cases hold : tracksOf kind s with
      | nil => simp
      | cons t ts =>
        have hkind : t.kind = kind := by
          have hmem : t ∈ tracksOf kind s := by
            rw [hold]
            exact List.mem_cons_self
          exact of_decide_eq_true (List.mem_filter.mp hmem).2
        simp [hkind]
    · rw [if_neg hlast]
      refine iff_of_true ?_ fun _ h => absurd h hlast
      have htail : (tracksOf kind s).tail = [] := by
        rw [← List.length_eq_zero_iff, List.length_tail]
        omega
      rw [htail, List.nil_append]

theorem constraint_handleDevice (s : State) (choice : Choice) :
    (handleDevice kind s choice).constraint kind = toPlainConstraint (choice.constraint kind) := by
  unfold handleDevice getMediaTrack State.setConstraint State.constraint
  cases kind <;> dsimp only <;> split_ifs <;> rfl

theorem shows_handleDevice {s : State} {choice : Choice}
    (h : Selects kind choice (handleDevice kind s choice)) : Shows kind (handleDevice kind s choice) := by
  unfold Shows
  unfold Selects at h
  rw [constraint_handleDevice, truthy_constraint]
  by_cases hnone : choice = .none
  · rw [if_pos hnone] at h
    rw [if_neg (by simp [hnone])]
    exact h
  · rw [if_neg hnone] at h
    rw [if_pos (decide_eq_true hnone)]
    exact h

theorem Starts.atMostOne {s : State} (h : Starts kind s) : AtMostOne kind s := by
  refine ⟨h.camera, ?_⟩
  rw [h.tracks]
  split_ifs
  · exact Nat.le_refl 1
  · exact Nat.zero_le 1

theorem Starts.shows {s : State} (h : Starts kind s) : Shows kind s := by
  unfold Shows
  rw [h.tracks]
  split_ifs
  · rfl
  · exact fun t ht => absurd ht List.not_mem_nil

theorem atMostOne_of_reach {s₀ s : State} {ok : State → Choice → Prop} (h₀ : Starts kind s₀)
    (h : Reach (step kind) ok s₀ s) : AtMostOne kind s :=
  h.invariant h₀.atMostOne fun s choice s' hI _ hstep => by
    obtain rfl := Option.some.inj hstep
    exact hI.handleDevice choice

end

/-- A call with camera `A` and the default microphone. -/
def cameraA : State :=
  { audio := .bool true
    video := .device "A" none
    localStream := some [⟨.audio, .bool true, true⟩, ⟨.video, .device "A" none, true⟩]
    lastDevice := none }

end Meeting.Streams.Devices
