import Mathlib.Tactic
import Mathlib.Data.UInt

/-!
# Meeting.Rtc.Payloads — the payloads of signals, written by struct tags and read from maps (`wrtcsignals.go`)

The server writes a payload with `encoding/json`, by the tags of the struct that a constructor puts into it, and reads
one from the map that a JSON object is decoded to, field by field.  `Json` is what `encoding/json` decodes to: a map has a
value or none for each key, `null` is also the nil of an interface, and a number is a `float64`, here the rational number
that it is.

The readers return a value and an error, which is not always the zero value and an error: `newCandidate` and `newSDP` go
on after the first error, to find a second one, and `newTransceiverRequest` fills in its result although there is one.

* `payload_round_trip`: what is read from a payload of any constructor is what was put into it, and a payload that is
  read with an error is the zero value.
-/

namespace Meeting.Rtc.Payloads

inductive Json where
  | null
  | bool (value : Bool)
  | num (value : ℚ)
  | str (value : String)
  | arr (values : List Json)
  | obj (fields : String → Option Json)

/-- The map of a struct: its fields by their tags, `none` for one that is left out. -/
def object (fields : List (String × Option Json)) : String → Option Json := fun key => (fields.lookup key).join

/-! ### The types of the signals -/

inductive SDPType where
  | offer | pranswer | answer | rollback
  deriving DecidableEq

def SDPType.string : SDPType → String
  | .offer => "offer"
  | .pranswer => "pranswer"
  | .answer => "answer"
  | .rollback => "rollback"

inductive RTPCodecType where
  | audio | video
  deriving DecidableEq

def RTPCodecType.string : RTPCodecType → String
  | .audio => "audio"
  | .video => "video"

inductive RTPTransceiverDirection where
  | sendrecv | sendonly | recvonly | inactive
  deriving DecidableEq

def RTPTransceiverDirection.string : RTPTransceiverDirection → String
  | .sendrecv => "sendrecv"
  | .sendonly => "sendonly"
  | .recvonly => "recvonly"
  | .inactive => "inactive"

/-- `webrtc.SessionDescription`; `none` is the zero value of a type. -/
structure SessionDescription where
  type : Option SDPType
  sdp : String
  deriving DecidableEq

/-- `webrtc.ICECandidateInit`, with `none` for nil. -/
structure ICECandidateInit where
  candidate : String
  sdpMid : Option String
  sdpMLineIndex : Option UInt16
  usernameFragment : String
  deriving DecidableEq

structure Candidate where
  candidate : ICECandidateInit
  deriving DecidableEq

structure Renegotiate where
  renegotiate : Bool
  deriving DecidableEq

/-- What is written for a transceiver request. -/
structure TransceiverRequestJSON where
  kind : String
  direction : String
  deriving DecidableEq

/-- What is read of a transceiver request: its kind, and the direction of its init, which may be nil. -/
structure TransceiverRequestPayload where
  kind : Option RTPCodecType
  init : Option (Option RTPTransceiverDirection)
  deriving DecidableEq

/-- The types that the interface `Signal` of a payload has. -/
inductive Signal where
  | nil
  | sessionDescription (s : SessionDescription)
  | renegotiate (r : Renegotiate)
  | transceiverRequestJSON (r : TransceiverRequestJSON)
  | transceiverRequestPayload (r : TransceiverRequestPayload)
  | candidate (c : Candidate)
  deriving DecidableEq

structure Payload where
  userID : String
  signal : Signal
  deriving DecidableEq

/-! ### Constructors, and what `encoding/json` writes -/

def newPayloadSDP (userID : String) (sessionDescription : SessionDescription) : Payload :=
  ⟨userID, .sessionDescription sessionDescription⟩

def newPayloadRenegotiate (userID : String) : Payload := ⟨userID, .renegotiate ⟨true⟩⟩

/-- `NewTransceiverRequest`, which is not the `newTransceiverRequest` that reads one. -/
def newTransceiverRequestPayload (userID : String) (kind : RTPCodecType) (direction : RTPTransceiverDirection) : Payload :=
  ⟨userID, .transceiverRequestJSON ⟨kind.string, direction.string⟩⟩

/-- The payload of `handleICECandidate`. -/
def newPayloadCandidate (userID : String) (candidate : ICECandidateInit) : Payload := ⟨userID, .candidate ⟨candidate⟩⟩

def SessionDescription.toJson (s : SessionDescription) : Json :=
  .obj (object [("type", some (.str ((s.type.map SDPType.string).getD "unknown"))), ("sdp", some (.str s.sdp))])

def Renegotiate.toJson (r : Renegotiate) : Json := .obj (object [("renegotiate", some (.bool r.renegotiate))])

def TransceiverRequestJSON.toJson (r : TransceiverRequestJSON) : Json :=
  .obj (object [("transceiverRequest", some (.obj (object [("kind", some (.str r.kind)),
    ("init", some (.obj (object [("direction", if r.direction = "" then none else some (.str r.direction))])))])))])

def Candidate.toJson (c : Candidate) : Json :=
  .obj (object [("candidate", some (.obj (object [("candidate", some (.str c.candidate.candidate)),
    ("sdpMid", c.candidate.sdpMid.map .str),
    ("sdpMLineIndex", c.candidate.sdpMLineIndex.map fun index => .num index.toNat),
    ("usernameFragment", some (.str c.candidate.usernameFragment))])))])

/-- What is written for a signal; a `TransceiverRequestPayload` is only read. -/
def Signal.toJson : Signal → Option Json
  | .nil => some .null
  | .sessionDescription s => some s.toJson
  | .renegotiate r => some r.toJson
  | .transceiverRequestJSON r => some r.toJson
  | .transceiverRequestPayload _ => none
  | .candidate c => some c.toJson

/-- The map that is decoded from the JSON of a payload. -/
def Payload.toMap (p : Payload) : Option (String → Option Json) := do
  let signal ← p.signal.toJson
  some (object [("userId", some (.str p.userID)), ("signal", some signal)])

/-! ### Reading a payload -/

/-- `fmt.Errorf(format, arg)`. -/
structure GoError where
  format : String
  arg : Json

section Read

-- `uint16(x)` where the integer part of `x` is out of range; this depends on the implementation
variable (outOfRange : ℚ → UInt16)

/-- `uint16(x)` of a `float64`: the fraction is discarded. -/
def uint16OfFloat64 (x : ℚ) : UInt16 :=
  let n := x.num.tdiv x.den
  if 0 ≤ n ∧ n < 65536 then UInt16.ofNat n.toNat else outOfRange x

/-- The zero value of `Candidate`. -/
def Candidate.zero : Candidate := ⟨⟨"", none, none, ""⟩⟩

def newCandidate (candidate : Json) : Candidate × Option GoError :=
  match candidate with
  | .obj candidateMap =>
    let candidateValue := candidateMap "candidate"
    -- this error does not return; without a value the next assertion fails
    let err := if candidateValue.isSome then none else some ⟨"Expected candidate.candidate %#v", candidate⟩
    match candidateValue with
    | some (.str candidateString) =>
      match candidateMap "sdpMLineIndex" with
      | none => (.zero, some ⟨"Expected candidate.sdpMLineIndex to exist: %#v", .null⟩)
      | some (.num sdpMLineIndex) =>
        let sdpMid := match candidateMap "sdpMid" with
          | some (.str sdpMid) => some sdpMid
          | _ => none
        (⟨⟨candidateString, sdpMid, some (uint16OfFloat64 outOfRange sdpMLineIndex), ""⟩⟩, err)
      | some sdpMLineIndexValue =>
        (.zero, some ⟨"Expected candidate.sdpMLineIndex be float64: %T", sdpMLineIndexValue⟩)
    | _ => (.zero, some ⟨"Expected candidate.candidate to be a string: %#v", candidate⟩)
  | _ => (.zero, some ⟨"Expected candidate to be a map: %#v", candidate⟩)

/-- The direction of an `init` map; the loop over its entries only looks at this key. -/
def initDirection (initMap : String → Option Json) : Option RTPTransceiverDirection :=
  match initMap "direction" with
  | some (.str "sendrecv") => some .sendrecv
  | some (.str "sendonly") => some .sendonly
  | some (.str "recvonly") => some .recvonly
  | some (.str "inactive") => some .inactive
  | _ => none

def newTransceiverRequest (transceiverRequest : Json) : TransceiverRequestPayload × Option GoError :=
  match transceiverRequest with
  | .obj transceiverRequestMap =>
    match transceiverRequestMap "kind" with
    | none => (⟨none, none⟩, some ⟨"Transceiver request kind not found: %#v", transceiverRequest⟩)
    | some (.str kindString) =>
      let kind : RTPCodecType := if kindString = "audio" then .audio else .video
      match transceiverRequestMap "init" with
      | none => (⟨some kind, none⟩, none)
      | some (.obj initMap) => (⟨some kind, some (initDirection initMap)⟩, none)
      -- this error does not return; the loop goes over a nil map
      | some _ => (⟨some kind, some none⟩, some ⟨"Expectd init to be a map: %#v", transceiverRequest⟩)
    | some _ => (⟨none, none⟩, some ⟨"Transceiver request kind should be a string: %#v", transceiverRequest⟩)
  | _ => (⟨none, none⟩, some ⟨"Transceiver request is not a map: %#v", transceiverRequest⟩)

def newRenegotiate : Renegotiate := ⟨true⟩

def newSDP (sdpType : Json) (signal : String → Option Json) : SessionDescription × Option GoError :=
  match sdpType with
  | .str sdpTypeString =>
    match signal "sdp" with
    | some (.str sdpString) =>
      if sdpTypeString = "offer" then (⟨some .offer, sdpString⟩, none)
      else if sdpTypeString = "answer" then (⟨some .answer, sdpString⟩, none)
      else if sdpTypeString = "pranswer" then
        (⟨none, sdpString⟩, some ⟨"Handling of pranswer signal implemented", .null⟩)
      else if sdpTypeString = "rollback" then
        (⟨none, sdpString⟩, some ⟨"Handling of rollback signal not implemented", .null⟩)
      else (⟨none, sdpString⟩, some ⟨"Unknown sdp type: %s", .str sdpString⟩)
    -- the error for a missing sdp does not return and is replaced by this one
    | _ => (⟨none, ""⟩, some ⟨"Expected signal.sdp to be string: %#v", .obj signal⟩)
  | _ => (⟨none, ""⟩, some ⟨"Expected signal.type to be string: %#v", .obj signal⟩)

/-- The zero value of `Payload`. -/
def Payload.zero : Payload := ⟨"", .nil⟩

/-- The value and the error of a signal: the first of the four keys decides which kind it is. -/
def newSignal (payload signal : String → Option Json) : Signal × Option GoError :=
  match signal "candidate", signal "renegotiate", signal "transceiverRequest", signal "type" with
  | some candidate, _, _, _ =>
    let (value, err) := newCandidate outOfRange candidate
    (.candidate value, err)
  | none, some _, _, _ => (.renegotiate newRenegotiate, none)
  | none, none, some transceiverRequest, _ =>
    let (value, err) := newTransceiverRequest transceiverRequest
    (.transceiverRequestPayload value, err)
  | none, none, none, some sdpType =>
    let (value, err) := newSDP sdpType signal
    (.sessionDescription value, err)
  | none, none, none, none => (.nil, some ⟨"Unexpected signal message: %#v", .obj payload⟩)

def newPayloadFromMap (payload : String → Option Json) : Payload × Option GoError :=
  match payload "userId" with
  | some (.str userID) =>
    match payload "signal" with
    | some (.obj signal) =>
      match newSignal outOfRange payload signal with
      | (_, some err) => (.zero, some err)
      | (value, none) => (⟨userID, value⟩, none)
    | _ => (.zero, some ⟨"No signal property in payload: %#v", .obj payload⟩)
  | _ => (.zero, some ⟨"No userId property in payload: %#v", .obj payload⟩)

end Read

/-! ### What a signal says -/

/-- What the server has to say to a peer. -/
inductive Content where
  | offer (sdp : String)
  | answer (sdp : String)
  | renegotiate
  | transceiverRequest (kind : RTPCodecType) (direction : RTPTransceiverDirection)
  | candidate (text : String) (sdpMid : Option String) (sdpMLineIndex : UInt16)
  deriving DecidableEq

/-- The payload that is made of it. -/
def Content.payload (userID : String) : Content → Payload
  | .offer sdp => newPayloadSDP userID ⟨some .offer, sdp⟩
  | .answer sdp => newPayloadSDP userID ⟨some .answer, sdp⟩
  | .renegotiate => newPayloadRenegotiate userID
  | .transceiverRequest kind direction => newTransceiverRequestPayload userID kind direction
  | .candidate text sdpMid sdpMLineIndex => newPayloadCandidate userID ⟨text, sdpMid, some sdpMLineIndex, ""⟩

/-- The signal that says it on the side that reads it: the types are the same but for a transceiver request. -/
def Content.received : Content → Signal
  | .offer sdp => .sessionDescription ⟨some .offer, sdp⟩
  | .answer sdp => .sessionDescription ⟨some .answer, sdp⟩
  | .renegotiate => .renegotiate ⟨true⟩
  | .transceiverRequest kind direction => .transceiverRequestPayload ⟨some kind, some (some direction)⟩
  | .candidate text sdpMid sdpMLineIndex => .candidate ⟨⟨text, sdpMid, some sdpMLineIndex, ""⟩⟩

theorem uint16OfFloat64_toNat (outOfRange : ℚ → UInt16) (n : UInt16) : uint16OfFloat64 outOfRange (n.toNat : ℚ) = n := by
  have hlt := n.toNat_lt
  unfold uint16OfFloat64
  simp only [Rat.num_natCast, Rat.den_natCast, Nat.cast_one, Int.tdiv_one]
  rw [if_pos ⟨Int.natCast_nonneg _, by exact_mod_cast hlt⟩, Int.toNat_natCast, UInt16.ofNat_toNat]

/-- **Reading what was written**, for every content. -/
theorem newPayloadFromMap_payload (outOfRange : ℚ → UInt16) (userID : String) (content : Content) :
    ∃ map, (content.payload userID).toMap = some map ∧
      newPayloadFromMap outOfRange map = (⟨userID, content.received⟩, none) := by
  cases content with
  | offer sdp => exact ⟨_, rfl, rfl⟩
  | answer sdp => exact ⟨_, rfl, rfl⟩
  | renegotiate => exact ⟨_, rfl, rfl⟩
  | transceiverRequest kind direction =>
    refine ⟨_, rfl, ?_⟩
    cases kind <;> cases direction <;> rfl
  | candidate text sdpMid sdpMLineIndex =>
    refine ⟨_, rfl, ?_⟩
    have hindex := uint16OfFloat64_toNat outOfRange sdpMLineIndex
    have hread : ∀ sdpMid, newPayloadFromMap outOfRange
        (object [("userId", some (.str userID)),
          ("signal", some (Candidate.toJson ⟨⟨text, sdpMid, some sdpMLineIndex, ""⟩⟩))]) =
        (⟨userID, .candidate ⟨⟨text, sdpMid, some (uint16OfFloat64 outOfRange sdpMLineIndex.toNat), ""⟩⟩⟩, none) := by
      intro sdpMid
      cases sdpMid <;> rfl
    rw [hindex] at hread
    exact hread sdpMid

/-- A payload that is read with an error is the zero value. -/
theorem newPayloadFromMap_error (outOfRange : ℚ → UInt16) (map : String → Option Json)
    (herr : (newPayloadFromMap outOfRange map).2 ≠ none) : (newPayloadFromMap outOfRange map).1 = .zero := by
  revert herr
  unfold newPayloadFromMap
  split
  · split
    · split
      · exact fun _ => rfl
      · exact fun herr => absurd rfl herr
    · exact fun _ => rfl
  · exact fun _ => rfl

/-- **The format of signals.**  Whatever the server has to say to a user, the map of its JSON is read without an error,
with the same user and the same content; and where a map is read with an error, the payload is the zero value. -/
theorem payload_round_trip (outOfRange : ℚ → UInt16) :
    (∀ (userID : String) (content : Content), ∃ map, (content.payload userID).toMap = some map ∧
        newPayloadFromMap outOfRange map = (⟨userID, content.received⟩, none)) ∧
      ∀ map, (newPayloadFromMap outOfRange map).2 ≠ none → (newPayloadFromMap outOfRange map).1 = .zero :=
  ⟨newPayloadFromMap_payload outOfRange, newPayloadFromMap_error outOfRange⟩

end Meeting.Rtc.Payloads
