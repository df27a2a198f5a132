import Mathlib.Data.Rat.Floor
import Meeting.Codec.Transport

/-!
# Meeting.Codec.Chunks — the stream of chunks that a worker posts, and what its headers say

The number of chunks is computed before the loop, by a division, while the loop goes on until all data are read.  The
two agree (`chunk_stream`): the slices of the data are its blocks, and there are as many as the quotient says.

The fields of a header are cut to their width when they are written, and the worker only refuses a message of which no
byte fits into a chunk.  A header is read back exactly if it fits (`decodeHeader_encodeHeader_iff`), so that the headers
of a message are read back exactly if its counts and sizes fit (`headers_read_back_iff`).
-/

namespace Meeting.Codec

open Lib

/-! ### The stream of chunks -/

/-- The chunks of a message: 16 bytes of header, the sender id and a slice of the data. -/
structure ChunkStream (p : WorkerPayload) (slices chunks : List (List Byte)) : Prop where
  count : (chunks.length : ℤ) = ⌈(p.data.length : ℚ) / (p.maxMessageSizeBytes - 16 - p.senderIdBytes.length : ℚ)⌉
  parts : ∀ k, chunks[k]? = slices[k]?.map fun slice =>
    encodeHeader (p.header k (k * p.dataBytes)) ++ p.senderIdBytes ++ slice
  header_length : ∀ k, (encodeHeader (p.header k (k * p.dataBytes))).length = 16
  flatten : slices.flatten = p.data
  atMost : ∀ chunk ∈ chunks, (chunk.length : ℤ) ≤ p.maxMessageSizeBytes
  full : ∀ k chunk, chunks[k]? = some chunk → k + 1 < chunks.length → (chunk.length : ℤ) = p.maxMessageSizeBytes

section Stream

variable {p : WorkerPayload} (hd : 0 < p.dataBytesInChunk)
include hd

theorem maxMessageSizeBytes_eq : p.maxMessageSizeBytes = 16 + p.senderIdBytes.length + (p.dataBytes : ℤ) := by
  have hint : (p.dataBytes : ℤ) = p.maxMessageSizeBytes - 16 - p.senderIdBytes.length := Int.toNat_of_nonneg hd.le
  omega

/-- The chunks have room for the data. -/
theorem length_le_totalChunks_mul : p.data.length ≤ p.totalChunks * p.dataBytes :=
  not_lt.mp fun hlt => lt_irrefl _ ((lt_totalChunks_iff (dataBytes_pos hd)).mpr hlt)

/-- The quotient that the source rounds up. -/
theorem totalChunks_eq_ceil :
    (p.totalChunks : ℤ) = ⌈(p.data.length : ℚ) / (p.maxMessageSizeBytes - 16 - p.senderIdBytes.length : ℚ)⌉ := by
  have hpos := dataBytes_pos hd
  have hroom : (p.maxMessageSizeBytes - 16 - p.senderIdBytes.length : ℚ) = (p.dataBytes : ℚ) := by
    rw [maxMessageSizeBytes_eq hd]
    push_cast
    ring
  have hposQ : (0 : ℚ) < p.dataBytes := by exact_mod_cast hpos
  rw [hroom, eq_comm, Int.ceil_eq_iff, lt_div_iff₀ hposQ, div_le_iff₀ hposQ]
  constructor
  · -- one chunk less does not hold the data
    rcases Nat.eq_zero_or_pos p.totalChunks with hzero | hchunks
    · rw [hzero]
      have hlen : (0 : ℚ) ≤ p.data.length := Nat.cast_nonneg _
      push_cast
      linarith
    · have hlt := (lt_totalChunks_iff hpos).mp (Nat.sub_lt hchunks Nat.one_pos)
      have hcast : (((p.totalChunks - 1) * p.dataBytes : ℕ) : ℚ) < p.data.length := by exact_mod_cast hlt
      push_cast [Nat.cast_sub hchunks] at hcast ⊢
      exact hcast
  · have hle := length_le_totalChunks_mul hd
    exact_mod_cast hle

theorem length_chunk {k : ℕ} (hk : k < p.totalChunks) :
    ((p.chunk k (k * p.dataBytes)).length : ℤ) =
      16 + p.senderIdBytes.length + min p.dataBytes (p.data.length - k * p.dataBytes : ℕ) := by
  rw [chunk_eq hd hk, List.length_append, List.length_append, encodeHeader_length, block_length]
  push_cast [headerSizeBytes]
  rfl

theorem chunkStream_chunksOf :
    ChunkStream p ((List.range p.totalChunks).map fun k => block p.dataBytes k p.data) (chunksOf p) := by
  have hpos := dataBytes_pos hd
  have hmax := maxMessageSizeBytes_eq hd
  have hlength := length_chunksOf hd
  refine ⟨?_, ?_, fun k => rfl, ?_, ?_, ?_⟩
  · rw [hlength]
    exact totalChunks_eq_ceil hd
  · intro k
    simp only [chunksOf_eq hd, List.getElem?_map, Option.map_map]
    by_cases hk : k < p.totalChunks
    · rw [List.getElem?_range hk]
      exact congrArg some (chunk_eq hd hk)
    · rw [List.getElem?_eq_none (by rw [List.length_range]; omega)]
      rfl
  · exact flatten_blocks (length_le_totalChunks_mul hd)
  · intro chunk hchunk
    rw [chunksOf_eq hd] at hchunk
    obtain ⟨k, hk, rfl⟩ := List.mem_map.mp hchunk
    rw [length_chunk hd (List.mem_range.mp hk), hmax]
    omega
  · intro k chunk hchunk hnext
    rw [hlength] at hnext
    have hk : k < p.totalChunks := by omega
    simp only [chunksOf_eq hd, List.getElem?_map, List.getElem?_range hk, Option.map_some, Option.some.injEq] at hchunk
    -- the next chunk starts within the data, so that this one is full
    have hstart : (k + 1) * p.dataBytes < p.data.length := (lt_totalChunks_iff hpos).mp hnext
    rw [← hchunk, length_chunk hd hk, hmax]
    rw [Nat.succ_mul] at hstart
    omega

end Stream

/-- **Shape of the chunk stream.**  A message of which no byte fits into a chunk gets one error event.  For any other one
the loop ends, and the events are those of its chunks, numbered from 0 on and each with their number, and one done
event. -/
theorem chunk_stream (p : WorkerPayload) :
    p.maxMessageSizeBytes - 16 - p.senderIdBytes.length ≤ 0 ∧
        onmessage p = some [.error p.messageId p.senderId "Not enough space for data."] ∨
      0 < p.maxMessageSizeBytes - 16 - p.senderIdBytes.length ∧ ∃ slices chunks, ChunkStream p slices chunks ∧
        onmessage p = some ((chunks.mapIdx fun k chunk =>
          EncoderEvent.data p.messageId k chunks.length p.senderId chunk) ++ [.done p.messageId p.senderId]) := by
  have hroom : p.maxMessageSizeBytes - 16 - p.senderIdBytes.length = p.dataBytesInChunk := rfl
  rw [hroom]
  rcases le_or_gt p.dataBytesInChunk 0 with hd | hd
  · exact Or.inl ⟨hd, if_pos hd⟩
  · exact Or.inr ⟨hd, _, _, chunkStream_chunksOf hd, onmessage_chunks hd⟩

/-! ### Headers that are read back -/

/-- Every header that the worker encodes is read back from the chunk it is posted with. -/
def ReadsBack (p : WorkerPayload) : Prop :=
  ∀ t ∈ (workerTurns p).getD [], ∀ chunk ∈ t.2.chunk?, decodeHeader chunk = t.1

/-- The counts and sizes of a message fit the header: 16 bits for the size of the sender id and the number of chunks, 31
bits for the size of the data and the size of a chunk. -/
structure SizesFit (p : WorkerPayload) : Prop where
  senderId : p.senderIdBytes.length < 65536
  chunks : (p.data.length : ℤ) ≤ 65535 * (p.maxMessageSizeBytes - 16 - p.senderIdBytes.length)
  total : p.data.length < 2147483648
  chunk : p.senderIdBytes.length + min (p.maxMessageSizeBytes - 16 - p.senderIdBytes.length) p.data.length < 2147483648

section Headers

variable {p : WorkerPayload}

theorem readsBack_iff_fits (hd : 0 < p.dataBytesInChunk) :
    ReadsBack p ↔ ∀ k < p.totalChunks, (p.header k (k * p.dataBytes)).Fits := by
  unfold ReadsBack
  rw [workerTurns_eq hd, Option.getD_some, List.forall_mem_map]
  refine ⟨fun h k hk => ?_, fun h k hk chunk hchunk => ?_⟩
  · have hback := h k (List.mem_range.mpr hk) _ rfl
    rw [chunk_eq hd hk, List.append_assoc] at hback
    exact (decodeHeader_encodeHeader_iff _ _).mp hback
  · obtain rfl := Option.some.inj hchunk
    rw [chunk_eq hd (List.mem_range.mp hk), List.append_assoc]
    exact (decodeHeader_encodeHeader_iff _ _).mpr (h k (List.mem_range.mp hk))

/-- The first header has the largest sizes, so that all fit if it does. -/
theorem fits_iff_sizesFit (hid : p.messageId < 65536) (hd : 0 < p.dataBytesInChunk) (hdata : p.data ≠ []) :
    (∀ k < p.totalChunks, (p.header k (k * p.dataBytes)).Fits) ↔ SizesFit p := by
  have hpos := dataBytes_pos hd
  have hlen : 0 < p.data.length := List.length_pos_iff.mpr hdata
  have hroom : p.maxMessageSizeBytes - 16 - p.senderIdBytes.length = (p.dataBytes : ℤ) :=
    (Int.toNat_of_nonneg hd.le).symm
  have hchunks : p.totalChunks < 65536 ↔ p.data.length ≤ 65535 * p.dataBytes := by
    have hlt := lt_totalChunks_iff hpos (k := 65535)
    rw [show p.totalSizeBytes = p.data.length from rfl] at hlt
    omega
  have hsize : ∀ k < p.totalChunks, p.chunkSizeBytes (k * p.dataBytes) =
      ((p.senderIdBytes.length + min p.dataBytes (p.data.length - k * p.dataBytes) : ℕ) : ℤ) := fun k hk =>
    chunkSizeBytes_eq hd ((lt_totalChunks_iff hpos).mp hk)
  constructor
  · intro h
    have hfirst : 0 < p.totalChunks := (lt_totalChunks_iff hpos).mpr (by rw [Nat.zero_mul]; exact hlen)
    have hfits := h 0 hfirst
    have h1 := hfits.totalChunks.2
    have h2 := hfits.senderIdSizeBytes.2
    have h3 := hfits.chunkSizeBytes.2
    have h4 := hfits.totalSizeBytes.2
    simp only [WorkerPayload.header, WorkerPayload.senderIdSizeBytes, WorkerPayload.totalSizeBytes, hsize 0 hfirst]
      at h1 h2 h3 h4
    refine ⟨by omega, ?_, by omega, ?_⟩
    · rw [hroom]
      exact_mod_cast hchunks.mp (by omega)
    · rw [hroom]
      omega
  · rintro ⟨h1, h2, h3, h4⟩ k hk
    rw [hroom] at h2 h4
    have hcount := hchunks.mpr (by exact_mod_cast h2)
    constructor <;> simp only [WorkerPayload.header, WorkerPayload.senderIdSizeBytes, WorkerPayload.totalSizeBytes,
      hsize k hk, FitsBits] <;> omega

theorem readsBack_iff (hid : p.messageId < 65536) (hd : 0 < p.dataBytesInChunk) :
    ReadsBack p ↔ p.data = [] ∨ SizesFit p := by
  rw [readsBack_iff_fits hd]
  by_cases hdata : p.data = []
  · have hnone : p.totalChunks = 0 := by
      by_contra hne
      have hlt := (lt_totalChunks_iff (dataBytes_pos hd)).mp (Nat.pos_of_ne_zero hne)
      rw [WorkerPayload.totalSizeBytes, hdata] at hlt
      exact absurd hlt (Nat.not_lt_zero _)
    refine iff_of_true (fun k hk => ?_) (Or.inl hdata)
    rw [hnone] at hk
    exact absurd hk (Nat.not_lt_zero k)
  · rw [fits_iff_sizesFit hid hd hdata]
    exact (or_iff_right hdata).symm

/-- **When no header is cut**: a message with an id of the encoder that the worker does not refuse has all its headers
read back exactly if it is empty or its counts and sizes fit. -/
theorem headers_read_back_iff (p : WorkerPayload) (hid : 1 ≤ p.messageId ∧ p.messageId ≤ 65535)
    (herror : ∀ e ∈ (onmessage p).getD [], e.isError = false) : ReadsBack p ↔ p.data = [] ∨ SizesFit p :=
  readsBack_iff (Nat.lt_succ_of_le hid.2) (room_of_no_error herror)

end Headers

theorem headers_read_back_example : ReadsBack ⟨1, 19, [1, 2, 3], "a", [97]⟩ := by
  refine (headers_read_back_iff ⟨1, 19, [1, 2, 3], "a", [97]⟩ (by decide) (by decide +kernel)).mpr (Or.inr ?_)
  exact ⟨by decide, by decide, by decide, by decide⟩

/-- A message of 65536 bytes, one in each chunk. -/
def byteByByte : WorkerPayload := ⟨1, 18, List.replicate 65536 7, "a", [97]⟩

/-- The number of its chunks is cut to 0: it is posted without an error, and the decoder never takes it for complete. -/
theorem total_chunks_cut :
    (∀ e ∈ (onmessage byteByByte).getD [], e.isError = false) ∧ byteByByte.totalChunks = 65536 ∧
      (decodeHeader (byteByByte.chunk 0 0)).totalChunks = 0 ∧ ¬ ReadsBack byteByByte := by
  have hd : 0 < byteByByte.dataBytesInChunk := by decide
  have hlen : byteByByte.totalSizeBytes = 65536 := List.length_replicate
  have hchunks : byteByByte.totalChunks = 65536 := by
    rw [WorkerPayload.totalChunks, hlen]
    rfl
  refine ⟨?_, hchunks, ?_, ?_⟩
  · rw [onmessage_eq hd, Option.getD_some]
    intro e he
    rcases List.mem_append.mp he with h | h
    · obtain ⟨k, -, rfl⟩ := List.mem_map.mp h
      rfl
    · rw [List.mem_singleton.mp h]
      rfl
  · have hfirst := chunk_eq hd (k := 0) (by rw [hchunks]; decide)
    rw [Nat.zero_mul] at hfirst
    rw [hfirst, List.append_assoc, totalChunks_decodeHeader]
    show (toInt32 byteByByte.totalChunks &&& 0xFFFF).toInt = 0
    rw [hchunks]
    rfl
  · rw [readsBack_iff (by decide) hd, not_or]
    refine ⟨?_, fun hfit => ?_⟩
    · exact List.cons_ne_nil _ _
    · have hmany := hfit.chunks
      rw [show byteByByte.data.length = 65536 from hlen] at hmany
      exact absurd hmany (by decide)

end Meeting.Codec
