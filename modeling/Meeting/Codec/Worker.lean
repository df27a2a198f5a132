import Meeting.Codec.Header
import Meeting.Lib.Blocks

/-!
# Meeting.Codec.Worker — splitting a message into chunks (`codec/index.ts`, `workerFunc` and `Encoder`)

`onmessage` is the worker: one error event when a chunk has no room for data, otherwise one data event for
each turn of the loop and a final done event.  The loop takes fuel and is `none` when it runs out; every
turn reads at least one byte, so `totalSizeBytes + 1` turns are enough (`workerLoop_eq`).

Each turn of the loop is recorded with the header it encodes.  `turn p k` is the `k`-th one, and
`chunk_eq` its bytes: the header, the sender id and the `k`-th block of the data.
-/

namespace Meeting.Codec

open Lib

structure DataContainer where
  senderId : String
  data : List Byte
  deriving DecidableEq, Repr

/-- The message to the worker.  `maxMessageSizeBytes` is a JavaScript number; being a size in bytes, it is taken as an
integer here. -/
structure WorkerPayload where
  messageId : ℕ
  maxMessageSizeBytes : ℤ
  data : List Byte
  senderId : String
  senderIdBytes : List Byte
  deriving DecidableEq, Repr

/-- `ChunkEvent`, `DoneEvent` and `ErrorEvent`. -/
inductive EncoderEvent where
  | data (messageId chunkNum totalChunks : ℕ) (senderId : String) (chunk : List Byte)
  | done (messageId : ℕ) (senderId : String)
  | error (messageId : ℕ) (senderId : String) (error : String)
  deriving DecidableEq, Repr

namespace WorkerPayload

variable (p : WorkerPayload)

def totalSizeBytes : ℕ := p.data.length

def senderIdSizeBytes : ℕ := p.senderIdBytes.length

def maxChunkSize : ℤ := p.maxMessageSizeBytes - headerSizeBytes

def dataBytesInChunk : ℤ := p.maxChunkSize - p.senderIdSizeBytes

/-- `Math.ceil(totalSizeBytes / dataBytesInChunk)`, read only when `dataBytesInChunk > 0`. -/
def totalChunks : ℕ :=
  (p.totalSizeBytes + p.dataBytesInChunk.toNat - 1) / p.dataBytesInChunk.toNat

def chunkSizeBytes (readOffset : ℕ) : ℤ :=
  min p.maxChunkSize (p.senderIdSizeBytes + p.totalSizeBytes - readOffset)

def readSize (readOffset : ℕ) : ℤ := p.chunkSizeBytes readOffset - p.senderIdSizeBytes

def header (chunkNum readOffset : ℕ) : Header where
  messageId := p.messageId
  chunkNum := chunkNum
  totalChunks := p.totalChunks
  senderIdSizeBytes := p.senderIdSizeBytes
  chunkSizeBytes := p.chunkSizeBytes readOffset
  totalSizeBytes := p.totalSizeBytes

/-- The buffer of a chunk: allocated with zeros, then the header, the sender id and the slice of the input
are written one after the other. -/
def chunk (chunkNum readOffset : ℕ) : List Byte :=
  let headerBytes := encodeHeader (p.header chunkNum readOffset)
  let chunk := List.replicate (headerBytes.length + (p.chunkSizeBytes readOffset).toNat) 0
  let chunk := overwrite chunk headerBytes 0
  let writeOffset := headerBytes.length
  let chunk := overwrite chunk p.senderIdBytes writeOffset
  let writeOffset := writeOffset + p.senderIdSizeBytes
  overwrite chunk ((p.data.drop readOffset).take (p.readSize readOffset).toNat) writeOffset

end WorkerPayload

/-- The loop of the worker: the header of every turn with the event it posts, `none` when out of fuel. -/
def workerLoop (p : WorkerPayload) : ℕ → ℕ → ℕ → Option (List (Header × EncoderEvent))
  | 0, _, _ => none
  | fuel + 1, chunkNum, readOffset =>
    if readOffset < p.totalSizeBytes then do
      let rest ← workerLoop p fuel (chunkNum + 1) (readOffset + (p.readSize readOffset).toNat)
      some ((p.header chunkNum readOffset, .data p.messageId chunkNum p.totalChunks p.senderId
        (p.chunk chunkNum readOffset)) :: rest)
    else some []

/-- The turns of the loop for a message. -/
def workerTurns (p : WorkerPayload) : Option (List (Header × EncoderEvent)) :=
  workerLoop p (p.totalSizeBytes + 1) 0 0

/-- `self.onmessage`: the events posted for a payload. -/
def onmessage (p : WorkerPayload) : Option (List EncoderEvent) :=
  if p.dataBytesInChunk ≤ 0 then
    some [.error p.messageId p.senderId "Not enough space for data."]
  else do
    let turns ← workerTurns p
    some (turns.map Prod.snd ++ [.done p.messageId p.senderId])

/-! ### What the loop posts -/

section Loop

variable {p : WorkerPayload}

/-- Data bytes of a full chunk. -/
def WorkerPayload.dataBytes (p : WorkerPayload) : ℕ := p.dataBytesInChunk.toNat

/-- The `k`-th turn of the loop. -/
def turn (p : WorkerPayload) (k : ℕ) : Header × EncoderEvent :=
  (p.header k (k * p.dataBytes), .data p.messageId k p.totalChunks p.senderId
    (p.chunk k (k * p.dataBytes)))

theorem lt_totalChunks_iff (hd : 0 < p.dataBytes) {k : ℕ} :
    k < p.totalChunks ↔ k * p.dataBytes < p.totalSizeBytes := by
  show k < (p.totalSizeBytes + p.dataBytes - 1) / p.dataBytes ↔ _
  rw [← Nat.succ_le_iff, Nat.le_div_iff_mul_le hd, Nat.succ_mul]
  omega

variable (hd : 0 < p.dataBytesInChunk)
include hd

theorem dataBytes_pos : 0 < p.dataBytes := by
  have : p.dataBytes = p.dataBytesInChunk.toNat := rfl
  omega

theorem readSize_toNat {readOffset : ℕ} (h : readOffset < p.totalSizeBytes) :
    (p.readSize readOffset).toNat = min p.dataBytes (p.totalSizeBytes - readOffset) := by
  unfold WorkerPayload.readSize WorkerPayload.chunkSizeBytes WorkerPayload.dataBytes
  unfold WorkerPayload.dataBytesInChunk at hd ⊢
  omega

/-- The chunk size of a turn counts the sender id and the bytes read. -/
theorem chunkSizeBytes_eq {readOffset : ℕ} (h : readOffset < p.totalSizeBytes) :
    p.chunkSizeBytes readOffset =
      ((p.senderIdSizeBytes + min p.dataBytes (p.totalSizeBytes - readOffset) : ℕ) : ℤ) := by
  unfold WorkerPayload.chunkSizeBytes WorkerPayload.dataBytes
  unfold WorkerPayload.dataBytesInChunk at hd ⊢
  omega

/-- **The loop terminates**: with fuel for one turn per unread byte it posts the turns from `k` on. -/
theorem workerLoop_eq : ∀ (fuel k : ℕ),
    p.totalSizeBytes - min (k * p.dataBytes) p.totalSizeBytes < fuel →
    workerLoop p fuel k (min (k * p.dataBytes) p.totalSizeBytes) =
      some ((List.range' k (p.totalChunks - k)).map (turn p))
  | 0, _, h => absurd h (Nat.not_lt_zero _)
  | fuel + 1, k, h => by
    have hpos := dataBytes_pos hd
    unfold workerLoop
    by_cases hk : k * p.dataBytes < p.totalSizeBytes
    · have hmin : min (k * p.dataBytes) p.totalSizeBytes = k * p.dataBytes := by omega
      rw [hmin] at h ⊢
      have hnext : k * p.dataBytes + (p.readSize (k * p.dataBytes)).toNat =
          min ((k + 1) * p.dataBytes) p.totalSizeBytes := by
        rw [readSize_toNat hd hk, Nat.succ_mul]
        omega
      have hlt := (lt_totalChunks_iff hpos).mpr hk
      rw [if_pos hk, hnext, workerLoop_eq fuel (k + 1) (by rw [Nat.succ_mul]; omega)]
      rw [show p.totalChunks - k = (p.totalChunks - (k + 1)) + 1 by omega, List.range'_succ]
      rfl
    · have hge : ¬ k < p.totalChunks := fun hlt => hk ((lt_totalChunks_iff hpos).mp hlt)
      rw [if_neg (by omega), show p.totalChunks - k = 0 by omega]
      rfl

theorem workerTurns_eq : workerTurns p = some ((List.range p.totalChunks).map (turn p)) := by
  have h := workerLoop_eq hd (p.totalSizeBytes + 1) 0 (by omega)
  rw [Nat.zero_mul, Nat.zero_min, Nat.sub_zero, ← List.range_eq_range'] at h
  exact h

theorem onmessage_eq : onmessage p = some ((List.range p.totalChunks).map (fun k => (turn p k).2) ++
    [.done p.messageId p.senderId]) := by
  unfold onmessage
  rw [if_neg (by omega), workerTurns_eq hd]
  simp [Function.comp_def]

/-- **Bytes of a chunk**: header, sender id, block of the data. -/
theorem chunk_eq {k : ℕ} (hk : k < p.totalChunks) :
    p.chunk k (k * p.dataBytes) = encodeHeader (p.header k (k * p.dataBytes)) ++ p.senderIdBytes ++
      block p.dataBytes k p.data := by
  have hoff := (lt_totalChunks_iff (dataBytes_pos hd)).mp hk
  have hslice : (p.data.drop (k * p.dataBytes)).take (p.readSize (k * p.dataBytes)).toNat =
      block p.dataBytes k p.data := by
    rw [readSize_toNat hd hoff, block]
    apply List.ext_getElem?
    intro i
    simp only [List.getElem?_take, List.getElem?_drop]
    unfold WorkerPayload.totalSizeBytes
    split_ifs with h1 h2 h2
    · rfl
    · omega
    · rw [List.getElem?_eq_none (by omega)]
    · rfl
  have hsize : (p.chunkSizeBytes (k * p.dataBytes)).toNat =
      p.senderIdBytes.length + (block p.dataBytes k p.data).length := by
    rw [chunkSizeBytes_eq hd hoff, block_length]
    rfl
  unfold WorkerPayload.chunk
  simp only [hslice, hsize, WorkerPayload.senderIdSizeBytes]
  -- each write starts at the end of the part already filled
  rw [overwrite_zero, overwrite_append rfl, overwrite_append (by simp)]
  simp [List.drop_replicate]

end Loop

/-! ### The encoder -/

/-- `maxMessageId`. -/
def maxMessageId : ℕ := 2 ^ 16

/-- `maxMessageSizeBytes` is taken as an integer, as in `WorkerPayload`. -/
structure Encoder where
  maxMessageSizeBytes : ℤ
  counter : ℕ
  deriving DecidableEq, Repr

/-- The constructor; it throws when a message cannot even hold a header. -/
def Encoder.new (maxMessageSizeBytes : ℤ) : Except String Encoder :=
  if maxMessageSizeBytes ≤ headerSizeBytes then
    .error "maxMessageSizeBytes should be greater than headerSize"
  else .ok ⟨maxMessageSizeBytes, 0⟩

variable (textEncode : String → List Byte)

/-- `Encoder.encode`: the payload handed to the worker, with the next message id. -/
def Encoder.encode (e : Encoder) (dataContainer : DataContainer) : Encoder × WorkerPayload :=
  let counter := e.counter + 1
  let counter := if counter ≥ maxMessageId then 1 else counter
  ({ e with counter },
    { messageId := counter
      maxMessageSizeBytes := e.maxMessageSizeBytes
      senderIdBytes := textEncode dataContainer.senderId
      senderId := dataContainer.senderId
      data := dataContainer.data })

/-- The payloads of a sequence of `encode` calls. -/
def Encoder.encodeAll (e : Encoder) : List DataContainer → List WorkerPayload
  | [] => []
  | d :: ds => (e.encode textEncode d).2 :: (e.encode textEncode d).1.encodeAll ds

variable {textEncode}

/-- The next message id, which starts again at 1 after 65535. -/
def Encoder.nextId (e : Encoder) : ℕ := e.counter % 65535 + 1

theorem encode_eq {e : Encoder} (he : e.counter < maxMessageId) (d : DataContainer) :
    e.encode textEncode d = ({ e with counter := e.nextId },
      { messageId := e.nextId
        maxMessageSizeBytes := e.maxMessageSizeBytes
        senderIdBytes := textEncode d.senderId
        senderId := d.senderId
        data := d.data }) := by
  rw [show maxMessageId = 65536 from rfl] at he
  have hcounter : (if e.counter + 1 ≥ maxMessageId then 1 else e.counter + 1) = e.nextId := by
    rw [show maxMessageId = 65536 from rfl, Encoder.nextId]
    split_ifs with hwrap
    · rw [show e.counter = 65535 by omega]
    · omega
  simp only [Encoder.encode, hcounter]

theorem encode_messageId_lt {e : Encoder} (d : DataContainer) :
    (e.encode textEncode d).2.messageId < maxMessageId := by
  simp only [Encoder.encode]
  split_ifs with h
  · decide
  · omega

/-- **Payloads of a run of calls**: each carries its call, and the ids go round from 1 to 65535. -/
theorem encodeAll_eq : ∀ (ds : List DataContainer) (e : Encoder), e.counter < maxMessageId →
    e.encodeAll textEncode ds = ds.mapIdx fun i d =>
      { messageId := (e.counter + i) % 65535 + 1
        maxMessageSizeBytes := e.maxMessageSizeBytes
        senderIdBytes := textEncode d.senderId
        senderId := d.senderId
        data := d.data }
  | [], _, _ => rfl
  | d :: ds, e, he => by
    have hnext : e.nextId < maxMessageId := by
      rw [show maxMessageId = 65536 from rfl, Encoder.nextId]
      omega
    simp only [Encoder.encodeAll, encode_eq he]
    rw [encodeAll_eq ds _ hnext, List.mapIdx_cons, Encoder.nextId, Nat.add_zero]
    congr 1
    refine List.mapIdx_eq_mapIdx_iff.mpr fun i hi => ?_
    have hstep : (e.counter % 65535 + 1 + i) % 65535 = (e.counter + (i + 1)) % 65535 := by omega
    rw [hstep]

end Meeting.Codec
