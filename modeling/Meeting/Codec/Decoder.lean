import Mathlib.Data.List.AList
import Std.Data.String.ToNat
import Meeting.Codec.Worker
import Meeting.Lib.Lists

/-!
# Meeting.Codec.Decoder — putting chunks together again (`codec/index.ts`, `Decoder`)

`decode` is one call of `Decoder.decode`: the new `chunksByMessageId` and either the exception thrown or
the value returned.  An exception does not undo the assignments made before it.

`Sendable p` collects what the worker and the header need to transport a message; `progress p R` is the
container of a message of which the chunks in `R` have arrived.  `decode_chunk` is the one spec lemma of
`decode`: fed chunk `k` of a sendable message it moves the container from `R` to `k :: R`, and delivers
the message when that was the last chunk missing.
-/

namespace Meeting.Codec

open Lib

structure ChunkContainer where
  senderId : String
  data : List Byte
  chunksReceived : ℕ
  totalChunks : ℤ
  deriving DecidableEq, Repr

/-- `chunksByMessageId`. -/
abbrev Decoder := AList fun _ : String => ChunkContainer

/-- `Uint8Array.prototype.set(source, offset)`. -/
def typedArraySet (target source : List Byte) (offset : ℤ) : Except String (List Byte) :=
  if offset < 0 ∨ offset + source.length > target.length then .error "offset is out of bounds"
  else .ok (overwrite target source offset.toNat)

/-- `new Uint8Array(length)`. -/
def newUint8Array (length : ℤ) : Except String (List Byte) :=
  if length < 0 then .error "Invalid typed array length" else .ok (List.replicate length.toNat 0)

/-- `chunksByMessageId[id] || { ... }`. -/
def Decoder.container (self : Decoder) (id senderId : String) (header : Header) :
    Except String ChunkContainer :=
  match self.lookup id with
  | some container => .ok container
  | none => do
    let data ← newUint8Array header.totalSizeBytes
    .ok { senderId, data, chunksReceived := 0, totalChunks := header.totalChunks }

/-- `Decoder.decode`. -/
def Decoder.decode (textDecode : List Byte → String) (self : Decoder) (input : List Byte) :
    Decoder × Except String (Option DataContainer) :=
  let header := decodeHeader input
  let dataStart := headerSizeBytes + header.senderIdSizeBytes.toNat
  let dataSize := header.chunkSizeBytes - header.senderIdSizeBytes
  let senderId := textDecode ((input.drop headerSizeBytes).take (dataStart - headerSizeBytes))
  let id := senderId ++ "_" ++ toString header.messageId
  match self.container id senderId header with
  | .error err => (self, .error err)
  | .ok container =>
    let self := self.insert id container
    let isLastChunk := header.chunkNum = header.totalChunks - 1
    -- the last chunk may be shorter, so its offset is counted from the end
    let offset := if isLastChunk then container.data.length - dataSize
      else header.chunkNum * dataSize
    match typedArraySet container.data (input.drop dataStart) offset with
    | .error err => (self, .error err)
    | .ok data =>
      let container := { container with data, chunksReceived := container.chunksReceived + 1 }
      if (container.chunksReceived : ℤ) = container.totalChunks then
        (self.erase id, .ok (some { senderId := container.senderId, data := container.data }))
      else (self.insert id container, .ok none)

/-- Feed a decoder one chunk after the other. -/
def Decoder.decodeAll (textDecode : List Byte → String) (self : Decoder) :
    List (List Byte) → Decoder × List (Except String (Option DataContainer))
  | [] => (self, [])
  | input :: inputs =>
    let (self, out) := self.decode textDecode input
    let (self, outs) := self.decodeAll textDecode inputs
    (self, out :: outs)

/-! ### Keys of partial messages -/

/-- The key under which the chunks of a message are collected. -/
def WorkerPayload.id (p : WorkerPayload) : String := p.senderId ++ "_" ++ toString (p.messageId : ℤ)

theorem underscore_notMem_repr (n : ℕ) : '_' ∉ n.repr.toList := by
  rw [Nat.toList_repr]
  intro h
  exact absurd (Nat.isDigit_of_mem_toDigits (by decide) (by decide) h) (by decide)

/-- The key determines the sender and the message id: the digits of the id contain no `_`. -/
theorem id_inj {p q : WorkerPayload} (h : p.id = q.id) :
    p.senderId = q.senderId ∧ p.messageId = q.messageId := by
  have hl := congrArg String.toList h
  simp only [WorkerPayload.id, String.toList_append, List.append_assoc] at hl
  obtain ⟨hs, hm⟩ := append_cons_inj_right (underscore_notMem_repr p.messageId)
    (underscore_notMem_repr q.messageId) hl
  exact ⟨String.ext hs, Nat.repr_inj.mp (String.ext hm)⟩

/-! ### One chunk of a message -/

/-- A message that the worker splits without an error, whose headers fit and whose sender id survives the
text codec. -/
structure Sendable (textDecode : List Byte → String) (p : WorkerPayload) : Prop where
  room : 0 < p.dataBytesInChunk
  nonempty : p.data ≠ []
  fits : ∀ k < p.totalChunks, (p.header k (k * p.dataBytes)).Fits
  text : textDecode p.senderIdBytes = p.senderId

theorem Sendable.totalChunks_pos {textDecode : List Byte → String} {p : WorkerPayload} (h : Sendable textDecode p) :
    0 < p.totalChunks :=
  (lt_totalChunks_iff (dataBytes_pos h.room)).mpr (by
    rw [Nat.zero_mul]
    exact List.length_pos_iff.mpr h.nonempty)

/-- The container of a message of which the chunks `R` have arrived. -/
def progress (p : WorkerPayload) (R : List ℕ) : ChunkContainer where
  senderId := p.senderId
  data := masked 0 p.dataBytes R p.data
  chunksReceived := R.length
  totalChunks := p.totalChunks

section Chunk

variable {textDecode : List Byte → String} {p : WorkerPayload}

/-- With all chunks the buffer has the data. -/
theorem masked_eq_data {R : List ℕ} (hroom : 0 < p.dataBytesInChunk) (hall : ∀ k < p.totalChunks, k ∈ R) :
    masked 0 p.dataBytes R p.data = p.data := by
  rw [masked_eq_self]
  intro i hi
  refine hall _ ((lt_totalChunks_iff (dataBytes_pos hroom)).mpr ?_)
  exact lt_of_le_of_lt (Nat.div_mul_le_self _ _) hi

/-- Both ways of computing the write offset give the start of the block. -/
theorem write_offset {k : ℕ} (hp : Sendable textDecode p) (hk : k < p.totalChunks) :
    (if (k : ℤ) = p.totalChunks - 1 then (p.data.length : ℤ) - (block p.dataBytes k p.data).length
      else (k : ℤ) * (block p.dataBytes k p.data).length) = ((k * p.dataBytes : ℕ) : ℤ) := by
  have hpos := dataBytes_pos hp.room
  have hoff : k * p.dataBytes < p.data.length := (lt_totalChunks_iff hpos).mp hk
  rw [block_length]
  split_ifs with hlast
  · have hend : ¬ (k + 1) * p.dataBytes < p.data.length := fun h => by
      have := (lt_totalChunks_iff hpos).mpr h
      omega
    rw [Nat.succ_mul] at hend
    omega
  · have hnext : (k + 1) * p.dataBytes < p.data.length :=
      (lt_totalChunks_iff hpos).mp (by omega)
    rw [Nat.succ_mul] at hnext
    rw [show min p.dataBytes (p.data.length - k * p.dataBytes) = p.dataBytes by omega]
    push_cast
    rfl

theorem typedArraySet_block {k : ℕ} {R : List ℕ} (hp : Sendable textDecode p)
    (hk : k < p.totalChunks) :
    typedArraySet (masked 0 p.dataBytes R p.data) (block p.dataBytes k p.data)
      ((k * p.dataBytes : ℕ) : ℤ) = .ok (masked 0 p.dataBytes (k :: R) p.data) := by
  have hpos := dataBytes_pos hp.room
  have hoff : k * p.dataBytes < p.data.length := (lt_totalChunks_iff hpos).mp hk
  unfold typedArraySet
  rw [if_neg, Int.toNat_natCast, overwrite_masked hpos hoff.le]
  rw [block_length, masked_length]
  omega

/-- The decoder reads back the parts of a chunk. -/
theorem chunk_parts {k : ℕ} (hp : Sendable textDecode p) (hk : k < p.totalChunks) :
    decodeHeader (p.chunk k (k * p.dataBytes)) = p.header k (k * p.dataBytes) ∧
    ((p.chunk k (k * p.dataBytes)).drop headerSizeBytes).take p.senderIdSizeBytes =
      p.senderIdBytes ∧
    (p.chunk k (k * p.dataBytes)).drop (headerSizeBytes + p.senderIdSizeBytes) =
      block p.dataBytes k p.data := by
  rw [chunk_eq hp.room hk]
  refine ⟨?_, ?_, ?_⟩
  · rw [List.append_assoc]
    exact decodeHeader_encodeHeader (hp.fits k hk) _
  · rw [List.append_assoc, List.drop_left' (encodeHeader_length _)]
    exact List.take_left
  · apply List.drop_left'
    rw [List.length_append, encodeHeader_length]
    rfl

/-- **One call of `decode`** on chunk `k` of a message of which the chunks `R` have arrived. -/
theorem decode_chunk {k : ℕ} {R : List ℕ} {self : Decoder} (hp : Sendable textDecode p)
    (hk : k < p.totalChunks)
    (hself : self.lookup p.id = some (progress p R) ∨ self.lookup p.id = none ∧ R = []) :
    self.decode textDecode (p.chunk k (k * p.dataBytes)) =
      if R.length + 1 = p.totalChunks then
        ((self.insert p.id (progress p R)).erase p.id,
          .ok (some { senderId := p.senderId, data := masked 0 p.dataBytes (k :: R) p.data }))
      else ((self.insert p.id (progress p R)).insert p.id (progress p (k :: R)), .ok none) := by
  obtain ⟨hheader, hsender, hdata⟩ := chunk_parts hp hk
  have hoff : k * p.dataBytes < p.totalSizeBytes :=
    (lt_totalChunks_iff (dataBytes_pos hp.room)).mp hk
  have hsid : (p.header k (k * p.dataBytes)).senderIdSizeBytes.toNat = p.senderIdSizeBytes := rfl
  have hsize : (p.header k (k * p.dataBytes)).chunkSizeBytes -
      (p.header k (k * p.dataBytes)).senderIdSizeBytes = (block p.dataBytes k p.data).length := by
    show p.chunkSizeBytes (k * p.dataBytes) - (p.senderIdSizeBytes : ℤ) = _
    rw [chunkSizeBytes_eq hp.room hoff, block_length]
    push_cast
    show _ = min (p.dataBytes : ℤ) ((p.totalSizeBytes - k * p.dataBytes : ℕ) : ℤ)
    omega
  -- the container is the one of the chunks `R`, found in the map or newly made
  have hcontainer : self.container p.id p.senderId (p.header k (k * p.dataBytes)) =
      .ok (progress p R) := by
    unfold Decoder.container
    rcases hself with h | ⟨h, rfl⟩
    · rw [h]
    · rw [h]
      simp only [newUint8Array]
      rw [if_neg (not_lt.mpr (hp.fits k hk).totalSizeBytes.1)]
      simp only [progress, masked_nil, List.length_nil]
      rfl
  unfold Decoder.decode
  simp only [hheader, hsid, Nat.add_sub_cancel_left, hsender, hp.text, hsize, hdata]
  rw [show p.senderId ++ "_" ++ toString (p.header k (k * p.dataBytes)).messageId = p.id from rfl,
    hcontainer]
  simp only [progress, masked_length]
  rw [show (p.header k (k * p.dataBytes)).chunkNum = (k : ℤ) from rfl,
    show (p.header k (k * p.dataBytes)).totalChunks = (p.totalChunks : ℤ) from rfl,
    write_offset hp hk, typedArraySet_block hp hk]
  simp only [List.length_cons]
  by_cases hlast : R.length + 1 = p.totalChunks
  · have hlast' : ((R.length + 1 : ℕ) : ℤ) = p.totalChunks := by exact_mod_cast hlast
    rw [if_pos hlast]
    exact if_pos hlast'
  · have hlast' : ¬ ((R.length + 1 : ℕ) : ℤ) = p.totalChunks := by exact_mod_cast hlast
    rw [if_neg hlast]
    exact if_neg hlast'

end Chunk

end Meeting.Codec
