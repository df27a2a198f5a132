import Meeting.Streams.State

/-!
# Meeting.Insertable.Worker — the insertable streams worker (`insertable-streams/index.ts`)

The worker handles one message at a time.  What it leaves for later is a list of pending tasks: key
derivations that are under way, each with what its `then` callback closes over, and the callback of
`handlePassword` that regenerates the decrypt contexts.  Tasks complete in any order, between messages.

A decrypt context is a JavaScript object that callbacks compare by identity; the model gives every context
it creates a reference number.  What the browser computes (text encoding, key derivation, AES-GCM) is a
parameter, `Crypto`; key derivations do not reject.
-/

namespace Meeting.Insertable

open Streams (TrackMetadata)

abbrev Byte := BitVec 8

/-- `TextEncoder` and `crypto.subtle`. -/
structure Crypto (Key : Type) where
  textEncode : String → List Byte
  /-- PBKDF2 of a password and a salt. -/
  deriveKey : List Byte → List Byte → Key
  /-- AES-GCM with the given iv and additional data. -/
  encrypt : Key → (iv additionalData data : List Byte) → List Byte
  decrypt : Key → (iv additionalData data : List Byte) → Option (List Byte)

structure WorkerParams where
  url : String
  userId : String
  deriving DecidableEq, Repr

/-! ### The context -/

structure DecryptContext (Key : Type) where
  /-- The identity of the object. -/
  ref : ℕ
  key : Option Key
  userId : String
  password : String
  deriving DecidableEq, Repr

structure EncryptContext (Key : Type) where
  key : Option Key
  password : String
  deriving DecidableEq, Repr

/-- What is left to do after a message. -/
inductive Task where
  /-- `createKey` of `updateEncryptContext`; `handlePassword` regenerates the decrypt contexts after it. -/
  | encryptKey (password : String) (thenRegenerate : Bool)
  /-- The callback of `handlePassword`. -/
  | regenerate
  /-- `createKey` of `updateDecryptContext`, for the context `ref`. -/
  | decryptKey (mid : String) (ref : ℕ) (password userId : String)
  deriving DecidableEq, Repr

/-- `context` and `metadataByMid`, the next object reference and the pending tasks. -/
structure Worker (Key : Type) where
  password : String
  decryptContextByMid : AList fun _ : String => DecryptContext Key
  encryptContext : EncryptContext Key
  metadataByMid : AList fun _ : String => TrackMetadata
  nextRef : ℕ
  pending : List Task

section

variable {Key : Type} (crypto : Crypto Key) (params : WorkerParams)

def Worker.init : Worker Key :=
  { password := "", decryptContextByMid := ∅, encryptContext := ⟨none, ""⟩, metadataByMid := ∅, nextRef := 0,
    pending := [] }

/-- The key of a password and a user: the salt is the url, a zero byte and the user id. -/
def createKey (password userId : String) : Key :=
  crypto.deriveKey (crypto.textEncode password)
    (crypto.textEncode params.url ++ [0] ++ crypto.textEncode userId)

def getUserId (w : Worker Key) (mid userId : String) : String :=
  match w.metadataByMid.lookup mid with
  | none => userId
  | some metadata => metadata.userId

/-- A new context object for `mid`, and the derivation of its key when there is a password. -/
def replaceContext (w : Worker Key) (mid userId : String) : Worker Key :=
  { w with
    decryptContextByMid := w.decryptContextByMid.insert mid
      { ref := w.nextRef, key := none, userId, password := w.password }
    nextRef := w.nextRef + 1
    pending := if w.password = "" then w.pending
      else w.pending ++ [.decryptKey mid w.nextRef w.password userId] }

def updateDecryptContext (w : Worker Key) (mid userId : String) : Worker Key :=
  match w.decryptContextByMid.lookup mid with
  | none => replaceContext w mid (getUserId w mid userId)
  | some c =>
    if c.userId = getUserId w mid userId ∧ c.password = w.password then w
    else replaceContext w mid (getUserId w mid userId)

/-- The callback of a promise that is resolved. -/
def resolved (w : Worker Key) (thenRegenerate : Bool) : Worker Key :=
  if thenRegenerate then { w with pending := w.pending ++ [.regenerate] } else w

def updateEncryptContext (w : Worker Key) (thenRegenerate : Bool) : Worker Key :=
  if w.encryptContext.password = w.password then resolved w thenRegenerate
  else if w.password = "" then
    resolved { w with encryptContext := { w.encryptContext with key := none } } thenRegenerate
  else
    { w with
      encryptContext := { w.encryptContext with password := w.password }
      pending := w.pending ++ [.encryptKey w.password thenRegenerate] }

/-! ### Messages -/

inductive Message where
  | password (password : String)
  | metadata (metadata : List TrackMetadata)
  | encrypt
  | decrypt (mid userId : String) (streams : Bool)
  deriving DecidableEq, Repr

/-- `metadata.reduce(...)`: the last entry of a mid wins. -/
def byMid (metadata : List TrackMetadata) : AList fun _ : String => TrackMetadata :=
  metadata.foldl (fun obj m => obj.insert m.mid m) ∅

/-- One turn of the loop of `handleMetadata`. -/
def applyMetadata (w : Worker Key) (mid : String) : Worker Key :=
  match w.metadataByMid.lookup mid with
  | none => { w with decryptContextByMid := w.decryptContextByMid.erase mid }
  | some m => updateDecryptContext w mid m.userId

def handleMetadata (w : Worker Key) (metadata : List TrackMetadata) : Worker Key :=
  w.decryptContextByMid.keys.foldl applyMetadata { w with metadataByMid := byMid metadata }

def handlePassword (w : Worker Key) (password : String) : Worker Key :=
  updateEncryptContext { w with password } true

/-- `onmessage`.  Piping the streams of a message is not seen in the context. -/
def onmessage (w : Worker Key) : Message → Worker Key
  | .password password => handlePassword w password
  | .metadata metadata => handleMetadata w metadata
  | .encrypt => updateEncryptContext w false
  | .decrypt mid userId _ => updateDecryptContext w mid userId

/-! ### Tasks -/

/-- One turn of the loop in the callback of `handlePassword`. -/
def regenerateContext (w : Worker Key) (mid : String) : Worker Key :=
  match w.decryptContextByMid.lookup mid with
  | none => w
  | some c => updateDecryptContext w mid c.userId

def runTask (w : Worker Key) : Task → Worker Key
  | .encryptKey password thenRegenerate =>
    let key := createKey crypto params password params.userId
    resolved (if w.encryptContext.password = password then
      { w with encryptContext := { w.encryptContext with key := some key } } else w) thenRegenerate
  | .regenerate => w.decryptContextByMid.keys.foldl regenerateContext w
  | .decryptKey mid ref password userId =>
    match w.decryptContextByMid.lookup mid with
    | none => w
    | some c =>
      if c.ref = ref then
        let c := { c with key := some (createKey crypto params password userId) }
        { w with decryptContextByMid := w.decryptContextByMid.insert mid c }
      else w

/-! ### Frames -/

inductive FrameType where
  | key | delta | empty
  deriving DecidableEq, Repr

/-- An encoded frame; audio frames have no type. -/
structure RTCEncodedFrame where
  type : Option FrameType
  data : List Byte
  deriving DecidableEq, Repr

def ivByteLength : ℕ := 16

/-- `getCryptoOffset`, with `frameTypeToCryptoOffset`. -/
def getCryptoOffset (frame : RTCEncodedFrame) : ℕ :=
  match frame.type with
  | some .key => 10
  | some .delta => 3
  | some .empty => 1
  | none => 1

/-- What becomes of a frame. -/
inductive Outcome where
  | enqueue (frame : RTCEncodedFrame)
  | drop
  | throw
  deriving DecidableEq, Repr

/-- The frame as it is sent under a key; a typed array longer than its buffer throws. -/
def encryptFrame (key : Key) (iv : List Byte) (frame : RTCEncodedFrame) : Outcome :=
  if frame.data.length < getCryptoOffset frame then .throw
  else
    let additionalData := frame.data.take (getCryptoOffset frame)
    let encryptedData := crypto.encrypt key iv additionalData (frame.data.drop (getCryptoOffset frame))
    .enqueue { frame with data := additionalData ++ encryptedData ++ iv }

def encrypt (w : Worker Key) (iv : List Byte) (frame : RTCEncodedFrame) : Outcome :=
  match w.encryptContext.key with
  | none => if w.password = "" then .enqueue frame else .drop
  | some key => encryptFrame crypto key iv frame

/-- The frame as it is received under a key; what throws is caught, and the frame left as it was. -/
def decryptFrame (key : Key) (frame : RTCEncodedFrame) : RTCEncodedFrame :=
  let offset := getCryptoOffset frame
  if frame.data.length < offset + ivByteLength then frame
  else
    let additionalData := frame.data.take offset
    let encryptedData := (frame.data.drop offset).take (frame.data.length - offset - ivByteLength)
    match crypto.decrypt key (frame.data.drop (frame.data.length - ivByteLength)) additionalData
      encryptedData with
    | none => frame
    | some decryptedData => { frame with data := additionalData ++ decryptedData }

/-- The key a frame of a mid is decrypted with. -/
def decryptKey (w : Worker Key) (mid : String) : Option Key :=
  (w.decryptContextByMid.lookup mid).bind DecryptContext.key

def decrypt (w : Worker Key) (mid : String) (frame : RTCEncodedFrame) : RTCEncodedFrame :=
  match decryptKey w mid with
  | none => frame
  | some key => decryptFrame crypto key frame

/-! ### Runs -/

/-- The worker and the messages it has received, the latest first. -/
structure System (Key : Type) where
  worker : Worker Key
  history : List Message

def System.start : System Key := ⟨Worker.init, []⟩

inductive Event where
  | message (m : Message)
  | complete (task : Task)
  deriving DecidableEq, Repr

def step (s : System Key) : Event → Option (System Key)
  | .message m => some ⟨onmessage s.worker m, m :: s.history⟩
  | .complete task =>
    if task ∈ s.worker.pending then
      let w := { s.worker with pending := s.worker.pending.erase task }
      some { s with worker := runTask crypto params w task }
    else none

end

/-- No derivation and no callback is pending. -/
def Quiescent {Key : Type} (w : Worker Key) : Prop := w.pending = []

end Meeting.Insertable
