import Meeting.Codec.Transport

/-!
# Meeting.Codec.Stream — a decoder that is fed messages one after the other

The worker of an encoder splits one message after the other, and a data channel keeps the order.  `At ps stream n k` says
that `stream` are the chunks of the messages `ps` from chunk `k` of message `n` on, and `Holds ps n k` is the decoder
that was fed those before: it holds the first `k` chunks of message `n` and nothing else.  `decode_next` is one call of `decode`.
-/

namespace Meeting.Codec.Stream

open Lib

/-- The chunks from chunk `k` of message `n` on. -/
def rest (ps : List WorkerPayload) (n k : ℕ) : List (List Byte) := ((ps.drop n).flatMap chunksOf).drop k

/-- What comes after chunk `k` of message `n`. -/
def next (ps : List WorkerPayload) (n k : ℕ) : ℕ × ℕ :=
  match ps[n]? with
  | none => (n, k)
  | some p => if k + 1 = p.totalChunks then (n + 1, 0) else (n, k + 1)

structure At (ps : List WorkerPayload) (stream : List (List Byte)) (n k : ℕ) : Prop where
  stream : stream = rest ps n k
  message : n ≤ ps.length
  chunk : k = 0 ∨ ∃ p, ps[n]? = some p ∧ k < p.totalChunks

/-- The decoder holds the first `k` chunks of message `n`. -/
def Holds (ps : List WorkerPayload) (n k : ℕ) (self : Decoder) : Prop :=
  ∀ id, self.lookup id = (ps[n]?.filter fun p => k ≠ 0 ∧ id = p.id).map fun p => progress p (List.range k).reverse

section Rest

variable {textDecode : List Byte → String} {ps : List WorkerPayload} {p : WorkerPayload} {n k : ℕ}

theorem rest_eq (hn : ps[n]? = some p) (hk : k ≤ (chunksOf p).length) :
    rest ps n k = (chunksOf p).drop k ++ rest ps (n + 1) 0 := by
  obtain ⟨hlt, hp⟩ := List.getElem?_eq_some_iff.mp hn
  rw [rest, List.drop_eq_getElem_cons hlt, hp, List.flatMap_cons, List.drop_append_of_le_length hk]
  rfl

theorem rest_of_length_le (hn : ps.length ≤ n) (k : ℕ) : rest ps n k = [] := by
  rw [rest, List.drop_eq_nil_of_le hn, List.flatMap_nil, List.drop_nil]

theorem At.nil (hps : ∀ p ∈ ps, Sendable textDecode p) (h : At ps [] n k) : n = ps.length := by
  by_contra hne
  have hlt : n < ps.length := lt_of_le_of_ne h.message hne
  have hn : ps[n]? = some ps[n] := List.getElem?_eq_getElem hlt
  have hs := hps _ (List.mem_of_getElem? hn)
  have hk : k < ps[n].totalChunks := by
    rcases h.chunk with rfl | ⟨p, hp, hk⟩
    · exact hs.totalChunks_pos
    · rwa [Option.some.inj (hn.symm.trans hp)]
  have hlen : (chunksOf ps[n]).length = ps[n].totalChunks := length_chunksOf hs.room
  have hstream := congrArg List.length h.stream
  rw [rest_eq hn (by omega), List.length_append, List.length_drop, List.length_nil] at hstream
  omega

/-- The first chunk of a stream, and where it is then. -/
theorem At.cons {c : List Byte} {stream : List (List Byte)} (hps : ∀ p ∈ ps, Sendable textDecode p)
    (h : At ps (c :: stream) n k) : ∃ p, ps[n]? = some p ∧ k < p.totalChunks ∧ c = p.chunk k (k * p.dataBytes) ∧
      At ps stream (next ps n k).1 (next ps n k).2 := by
  have hlt : n < ps.length := by
    by_contra hge
    have := h.stream
    rw [rest_of_length_le (by omega)] at this
    cases this
  have hn : ps[n]? = some ps[n] := List.getElem?_eq_getElem hlt
  have hs := hps _ (List.mem_of_getElem? hn)
  generalize ps[n] = p at hn hs
  have hk : k < p.totalChunks := by
    rcases h.chunk with rfl | ⟨q, hq, hk⟩
    · exact hs.totalChunks_pos
    · rwa [Option.some.inj (hn.symm.trans hq)]
  have hlen : (chunksOf p).length = p.totalChunks := length_chunksOf hs.room
  have hc : (chunksOf p)[k]? = some (p.chunk k (k * p.dataBytes)) := by
    rw [chunksOf_eq hs.room, List.getElem?_map, List.getElem?_range hk]
    rfl
  obtain ⟨hklt, hc⟩ := List.getElem?_eq_some_iff.mp hc
  have hstream := h.stream
  rw [rest_eq hn (by omega), List.drop_eq_getElem_cons hklt, hc, List.cons_append] at hstream
  obtain ⟨hchunk, hstream⟩ := List.cons.inj hstream
  refine ⟨p, hn, hk, hchunk, ?_⟩
  rw [next, hn]
  dsimp only
  split_ifs with hlast
  · refine ⟨?_, hlt, Or.inl rfl⟩
    rw [hstream, List.drop_eq_nil_of_le (by omega), List.nil_append]
  · refine ⟨?_, hlt.le, Or.inr ⟨p, hn, by omega⟩⟩
    rw [hstream, rest_eq hn (by omega)]

/-- One more message. -/
theorem At.concat {stream : List (List Byte)} (hps : ∀ p ∈ ps, Sendable textDecode p) (h : At ps stream n k)
    (p : WorkerPayload) : At (ps ++ [p]) (stream ++ chunksOf p) n k := by
  refine ⟨?_, ?_, ?_⟩
  · rw [h.stream, rest, rest, List.drop_append_of_le_length h.message, List.flatMap_append,
      List.drop_append_of_le_length, List.flatMap_singleton]
    rcases h.chunk with rfl | ⟨q, hq, hk⟩
    · exact Nat.zero_le _
    · obtain ⟨hlt, hq'⟩ := List.getElem?_eq_some_iff.mp hq
      rw [List.drop_eq_getElem_cons hlt, hq', List.flatMap_cons, List.length_append,
        length_chunksOf (hps q (List.mem_of_getElem? hq)).room]
      omega
  · rw [List.length_append]
    exact Nat.le_add_right_of_le h.message
  · exact h.chunk.imp_right fun ⟨q, hq, hk⟩ => ⟨q, getElem?_append_of_some hq, hk⟩

end Rest

section Holds

variable {textDecode : List Byte → String} {ps : List WorkerPayload} {p : WorkerPayload} {n k : ℕ} {self : Decoder}

theorem holds_zero : Holds ps n 0 self ↔ ∀ id, self.lookup id = none := by
  refine forall_congr' fun id => ?_
  rw [Option.filter_eq_none_iff.mpr (by simp), Option.map_none]

/-- What the decoder holds, by the message. -/
theorem holds_iff (hn : ps[n]? = some p) (hk : k ≠ 0) : Holds ps n k self ↔
    self.lookup p.id = some (progress p (List.range k).reverse) ∧ ∀ id ≠ p.id, self.lookup id = none := by
  unfold Holds
  rw [hn]
  refine ⟨fun h => ⟨?_, fun id hid => ?_⟩, fun h id => ?_⟩
  · rw [h p.id]
    simp [hk]
  · rw [h id]
    simp [hid]
  · by_cases hid : id = p.id
    · subst hid
      rw [h.1]
      simp [hk]
    · rw [h.2 id hid]
      simp [hid]

/-- The decoder holds what it did when there are more messages. -/
theorem Holds.concat {stream : List (List Byte)} (h : Holds ps n k self) (hat : At ps stream n k) (p : WorkerPayload) :
    Holds (ps ++ [p]) n k self := by
  rcases hat.chunk with rfl | ⟨q, hq, hk⟩
  · exact holds_zero.mpr (holds_zero.mp h)
  · intro id
    rw [h id, hq, getElem?_append_of_some hq]

/-- **One call of `decode`** for the next chunk: the message is delivered when it was its last one. -/
theorem decode_next (hp : Sendable textDecode p) (hn : ps[n]? = some p) (hk : k < p.totalChunks) (h : Holds ps n k self) :
    Holds ps (next ps n k).1 (next ps n k).2 (self.decode textDecode (p.chunk k (k * p.dataBytes))).1 ∧
      (self.decode textDecode (p.chunk k (k * p.dataBytes))).2 =
        .ok (if k + 1 = p.totalChunks then some ⟨p.senderId, p.data⟩ else none) := by
  have hself : self.lookup p.id = some (progress p (List.range k).reverse) ∨
      self.lookup p.id = none ∧ (List.range k).reverse = [] := by
    by_cases hk0 : k = 0
    · subst hk0
      exact Or.inr ⟨holds_zero.mp h _, rfl⟩
    · exact Or.inl ((holds_iff hn hk0).mp h).1
  have hother : ∀ id ≠ p.id, self.lookup id = none := by
    intro id hid
    by_cases hk0 : k = 0
    · subst hk0
      exact holds_zero.mp h id
    · exact ((holds_iff hn hk0).mp h).2 id hid
  have hrange : k :: (List.range k).reverse = (List.range (k + 1)).reverse := by
    rw [List.range_succ, List.reverse_concat]
  rw [decode_chunk hp hk hself, List.length_reverse, List.length_range, next, hn]
  dsimp only
  split_ifs with hlast
  · refine ⟨holds_zero.mpr fun id => ?_, ?_⟩
    · by_cases hid : id = p.id
      · rw [hid, AList.lookup_erase]
      · rw [AList.lookup_erase_ne hid, AList.lookup_insert_ne hid, hother id hid]
    · rw [masked_eq_data hp.room fun j hj => ?_]
      rw [hrange, List.mem_reverse, List.mem_range]
      omega
  · refine ⟨(holds_iff hn (Nat.succ_ne_zero k)).mpr ⟨?_, fun id hid => ?_⟩, rfl⟩
    · rw [AList.lookup_insert, hrange]
    · rw [AList.lookup_insert_ne hid, AList.lookup_insert_ne hid, hother id hid]

end Holds

end Meeting.Codec.Stream
