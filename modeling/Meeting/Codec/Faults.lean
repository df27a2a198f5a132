import Meeting.Codec.Transport

/-!
# Meeting.Codec.Faults — a decoder that is fed chunks again, or chunks that are no chunks

The decoder counts the chunks of a message and does not look which ones they are.  As long as no chunk comes again while
its message is collected (`Fresh`), as many chunks as the message has are all of them, so that what is delivered is
complete (`complete_of_fresh`).  A chunk that comes twice stands for one that is missing.

An exception leaves the decoder as it was, but for one case (`rejected_unchanged_iff`): the container of a new message is
stored before its first chunk is written into it, and stays when the chunk does not fit.
-/

namespace Meeting.Codec

open Lib

/-! ### Chunks that come again -/

/-- The chunks of each message that came since it was delivered last, after one more arrival. -/
def collect (msgs : List WorkerPayload) (R : ℕ → List (List Byte)) (a : ℕ × List Byte) : ℕ → List (List Byte) :=
  Function.update R a.1
    (if msgs[a.1]?.map (fun p => (chunksOf p).length) = some ((R a.1).length + 1) then [] else a.2 :: R a.1)

/-- No chunk comes again while its message is collected. -/
def Fresh (msgs : List WorkerPayload) : (ℕ → List (List Byte)) → List (ℕ × List Byte) → Prop
  | _, [] => True
  | R, a :: rest => a.2 ∉ R a.1 ∧ Fresh msgs (collect msgs R a) rest

instance decidableFresh (msgs : List WorkerPayload) :
    ∀ (R : ℕ → List (List Byte)) (arrivals : List (ℕ × List Byte)), Decidable (Fresh msgs R arrivals)
  | _, [] => instDecidableTrue
  | R, a :: rest =>
    have := decidableFresh msgs (collect msgs R a) rest
    inferInstanceAs (Decidable (a.2 ∉ R a.1 ∧ Fresh msgs (collect msgs R a) rest))

/-- What is delivered for message `m` is the message, and all its chunks have come. -/
def Complete (msgs : List WorkerPayload) (fed : List (ℕ × List Byte)) (m : ℕ) (c : DataContainer) : Prop :=
  ∃ p, msgs[m]? = some p ∧ c = ⟨p.senderId, p.data⟩ ∧ ∀ chunk ∈ chunksOf p, (m, chunk) ∈ fed

/-- The decoder holds what came since the last delivery of each message, no chunk of it twice. -/
structure Collects (textDecode : List Byte → String) (msgs : List WorkerPayload) (fed : List (ℕ × List Byte))
    (R : ℕ → List (List Byte)) (decoder : Decoder) : Prop where
  came : ∀ m chunk, chunk ∈ R m → (m, chunk) ∈ fed
  held : ∀ m p, msgs[m]? = some p → ∃ ks : List ℕ, ks.Nodup ∧ (∀ k ∈ ks, k < p.totalChunks) ∧
    R m = ks.map (fun k => p.chunk k (k * p.dataBytes)) ∧
    (decoder.lookup p.id = some (progress p ks) ∨ decoder.lookup p.id = none ∧ ks = [])

section Repeats

variable {textDecode : List Byte → String} {msgs : List WorkerPayload} {fed : List (ℕ × List Byte)}
  {R : ℕ → List (List Byte)} {self : Decoder}

theorem mem_posted {m : ℕ} {chunk : List Byte} :
    (m, chunk) ∈ posted msgs ↔ ∃ p, msgs[m]? = some p ∧ chunk ∈ chunksOf p := by
  unfold posted
  simp only [List.mem_flatMap, List.mem_map, Prod.mk.injEq, Prod.exists]
  constructor
  · rintro ⟨p, m', hp, chunk', hchunk, rfl, rfl⟩
    exact ⟨p, List.mem_zipIdx_iff_getElem?.mp hp, hchunk⟩
  · rintro ⟨p, hp, hchunk⟩
    exact ⟨p, m, List.mem_zipIdx_iff_getElem?.mpr hp, chunk, hchunk, rfl, rfl⟩

/-- A message of which a chunk is posted has room and data. -/
theorem sendable_of_mem_chunksOf {p : WorkerPayload} {chunk : List Byte} (htext : textDecode p.senderIdBytes = p.senderId)
    (hfits : ∀ t ∈ (workerTurns p).getD [], t.1.Fits) (hchunk : chunk ∈ chunksOf p) :
    Sendable textDecode p ∧ ∃ k < p.totalChunks, chunk = p.chunk k (k * p.dataBytes) := by
  have hroom : 0 < p.dataBytesInChunk := by
    by_contra h
    unfold chunksOf onmessage at hchunk
    rw [if_pos (not_lt.mp h)] at hchunk
    simp [EncoderEvent.chunk?] at hchunk
  rw [chunksOf_eq hroom, List.mem_map] at hchunk
  obtain ⟨k, hk, rfl⟩ := hchunk
  rw [List.mem_range] at hk
  refine ⟨⟨hroom, ?_, fun k hk => ?_, htext⟩, k, hk, rfl⟩
  · rintro hnil
    have hlt := (lt_totalChunks_iff (dataBytes_pos hroom)).mp hk
    rw [WorkerPayload.totalSizeBytes, hnil] at hlt
    exact absurd hlt (Nat.not_lt_zero _)
  · rw [workerTurns_eq hroom, Option.getD_some] at hfits
    exact hfits _ (List.mem_map_of_mem (List.mem_range.mpr hk))

theorem collect_self {m : ℕ} {p : WorkerPayload} (hp : msgs[m]? = some p) (hroom : 0 < p.dataBytesInChunk)
    (chunk : List Byte) :
    collect msgs R (m, chunk) m = if (R m).length + 1 = p.totalChunks then [] else chunk :: R m := by
  unfold collect
  rw [Function.update_self, hp, Option.map_some, length_chunksOf hroom]
  exact if_congr (Option.some_inj.trans eq_comm) rfl rfl

theorem mem_collect {a : ℕ × List Byte} {m : ℕ} {chunk : List Byte} (h : chunk ∈ collect msgs R a m) :
    chunk ∈ R m ∨ (m, chunk) = a := by
  unfold collect at h
  rw [Function.update_apply] at h
  split_ifs at h with hm hlast
  · cases h
  · subst hm
    rcases List.mem_cons.mp h with rfl | h
    · exact Or.inr rfl
    · exact Or.inl h
  · exact Or.inl h

/-- Messages with different senders or ids are collected under different keys. -/
theorem id_ne_of_ne (hdistinct : (msgs.map fun p => (p.senderId, p.messageId)).Nodup) {m m' : ℕ}
    {p q : WorkerPayload} (hq : msgs[m']? = some q) (hp : msgs[m]? = some p) (hne : m' ≠ m) : q.id ≠ p.id := by
  intro hid
  obtain ⟨hs, hi⟩ := id_inj hid
  refine hne ((List.getElem?_inj ?_ hdistinct).mp ?_)
  · rw [List.length_map]
    exact (List.getElem?_eq_some_iff.mp hq).1
  · rw [List.getElem?_map, List.getElem?_map, hq, hp, Option.map_some, Option.map_some, hs, hi]

/-- **As many different chunks as the message has** make it complete. -/
theorem complete_of_nodup {m : ℕ} {p : WorkerPayload} {ks : List ℕ} (hp : msgs[m]? = some p)
    (hroom : 0 < p.dataBytesInChunk) (hnodup : ks.Nodup) (hlt : ∀ k ∈ ks, k < p.totalChunks)
    (hlen : ks.length = p.totalChunks) (hcame : ∀ k ∈ ks, (m, p.chunk k (k * p.dataBytes)) ∈ fed) :
    Complete msgs fed m ⟨p.senderId, masked 0 p.dataBytes ks p.data⟩ := by
  have hall : ∀ k < p.totalChunks, k ∈ ks := fun k hk => mem_of_nodup_length hnodup hlt hlen hk
  refine ⟨p, hp, ?_, fun chunk hchunk => ?_⟩
  · rw [masked_eq_data hroom hall]
  · rw [chunksOf_eq hroom] at hchunk
    obtain ⟨k, hk, rfl⟩ := List.mem_map.mp hchunk
    exact hcame k (hall k (List.mem_range.mp hk))

/-- **Step lemma**: an arrival that is no repetition keeps the invariant, and a delivery is complete. -/
theorem Collects.step (hdistinct : (msgs.map fun p => (p.senderId, p.messageId)).Nodup)
    (htext : ∀ p ∈ msgs, textDecode p.senderIdBytes = p.senderId)
    (hfits : ∀ p ∈ msgs, ∀ t ∈ (workerTurns p).getD [], t.1.Fits)
    {a : ℕ × List Byte} (ha : a ∈ posted msgs) (h : Collects textDecode msgs fed R self) (hfresh : a.2 ∉ R a.1) :
    Collects textDecode msgs (fed ++ [a]) (collect msgs R a) (self.decode textDecode a.2).1 ∧
      ∀ c, (self.decode textDecode a.2).2 = .ok (some c) → Complete msgs (fed ++ [a]) a.1 c := by
  obtain ⟨m, chunk⟩ := a
  obtain ⟨p, hp, hchunk⟩ := mem_posted.mp ha
  have hmem := List.mem_of_getElem? hp
  obtain ⟨hsend, k, hk, rfl⟩ := sendable_of_mem_chunksOf (htext p hmem) (hfits p hmem) hchunk
  obtain ⟨ks, hnodup, hlt, hR, hself⟩ := h.held m p hp
  have hknew : k ∉ ks := by
    intro hin
    refine hfresh ?_
    show _ ∈ R m
    rw [hR]
    exact List.mem_map_of_mem hin
  have hnodup' : (k :: ks).Nodup := List.nodup_cons.mpr ⟨hknew, hnodup⟩
  have hlt' : ∀ j ∈ k :: ks, j < p.totalChunks := List.forall_mem_cons.mpr ⟨hk, hlt⟩
  -- what is collected of this message after the arrival, and of all others
  have hsame := collect_self (R := R) hp hsend.room (p.chunk k (k * p.dataBytes))
  rw [hR, List.length_map] at hsame
  have hother : ∀ m', m' ≠ m → collect msgs R (m, p.chunk k (k * p.dataBytes)) m' = R m' := fun m' hne =>
    Function.update_of_ne hne _ _
  have hkeys : ∀ m' q, msgs[m']? = some q → m' ≠ m → q.id ≠ p.id := fun m' q hq hne =>
    id_ne_of_ne hdistinct hq hp hne
  have hcame : ∀ m' chunk, chunk ∈ collect msgs R (m, p.chunk k (k * p.dataBytes)) m' →
      (m', chunk) ∈ fed ++ [(m, p.chunk k (k * p.dataBytes))] := by
    intro m' chunk' hin
    rcases mem_collect hin with hin | heq
    · exact List.mem_append_left _ (h.came m' chunk' hin)
    · exact List.mem_append_right _ (List.mem_singleton.mpr heq)
  rw [decode_chunk hsend hk hself]
  by_cases hlast : ks.length + 1 = p.totalChunks
  · rw [if_pos hlast] at hsame ⊢
    refine ⟨⟨hcame, fun m' q hq => ?_⟩, fun c hc => ?_⟩
    · by_cases hm : m' = m
      · subst hm
        obtain rfl : p = q := Option.some.inj (hp.symm.trans hq)
        exact ⟨[], List.nodup_nil, by simp, by rw [hsame, List.map_nil], Or.inr ⟨AList.lookup_erase _ _, rfl⟩⟩
      · rw [hother m' hm, AList.lookup_erase_ne (hkeys m' q hq hm), AList.lookup_insert_ne (hkeys m' q hq hm)]
        exact h.held m' q hq
    · obtain rfl := Option.some.inj (Except.ok.inj hc)
      refine complete_of_nodup hp hsend.room hnodup' hlt' hlast (List.forall_mem_cons.mpr ⟨?_, fun j hj => ?_⟩)
      · exact List.mem_append_right _ List.mem_cons_self
      · refine List.mem_append_left _ (h.came m _ ?_)
        rw [hR]
        exact List.mem_map_of_mem hj
  · rw [if_neg hlast] at hsame ⊢
    refine ⟨⟨hcame, fun m' q hq => ?_⟩, fun c hc => ?_⟩
    · by_cases hm : m' = m
      · subst hm
        obtain rfl : p = q := Option.some.inj (hp.symm.trans hq)
        exact ⟨k :: ks, hnodup', hlt', hsame, Or.inl (AList.lookup_insert _)⟩
      · rw [hother m' hm, AList.lookup_insert_ne (hkeys m' q hq hm), AList.lookup_insert_ne (hkeys m' q hq hm)]
        exact h.held m' q hq
    · cases Except.ok.inj hc

/-- **Run lemma**: in what comes after `fed` every delivery is complete. -/
theorem Collects.run (hdistinct : (msgs.map fun p => (p.senderId, p.messageId)).Nodup)
    (htext : ∀ p ∈ msgs, textDecode p.senderIdBytes = p.senderId)
    (hfits : ∀ p ∈ msgs, ∀ t ∈ (workerTurns p).getD [], t.1.Fits) :
    ∀ (post fed : List (ℕ × List Byte)) (R : ℕ → List (List Byte)) (self : Decoder),
      Collects textDecode msgs fed R self → (∀ a ∈ post, a ∈ posted msgs) → Fresh msgs R post →
        ∀ i a c, post[i]? = some a → (self.decodeAll textDecode (post.map Prod.snd)).2[i]? = some (.ok (some c)) →
          Complete msgs (fed ++ post.take (i + 1)) a.1 c
  | [], _, _, _, _, _, _, i, a, c, hi, _ => by cases hi
  | b :: post, fed, R, self, h, hposted, hfresh, i, a, c, hi, hc => by
    obtain ⟨hnext, hfirst⟩ := h.step hdistinct htext hfits (hposted b List.mem_cons_self) hfresh.1
    cases i with
    | zero =>
      obtain rfl := Option.some.inj hi
      exact hfirst c (Option.some.inj hc)
    | succ i =>
      have hrest := Collects.run hdistinct htext hfits post _ _ _ hnext
        (fun a ha => hposted a (List.mem_cons_of_mem _ ha)) hfresh.2 i a c hi hc
      rw [List.append_assoc] at hrest
      exact hrest

/-- **No incomplete message is delivered** as long as no chunk comes again while its message is collected: whatever of the
posted chunks is fed, in any order, what the decoder returns is a whole message, and all chunks of it have been fed. -/
theorem complete_of_fresh {textDecode : List Byte → String} {msgs : List WorkerPayload}
    (hdistinct : (msgs.map fun p => (p.senderId, p.messageId)).Nodup)
    (htext : ∀ p ∈ msgs, textDecode p.senderIdBytes = p.senderId)
    (hfits : ∀ p ∈ msgs, ∀ t ∈ (workerTurns p).getD [], t.1.Fits) {arrivals : List (ℕ × List Byte)}
    (hposted : ∀ a ∈ arrivals, a ∈ posted msgs) (hfresh : Fresh msgs (fun _ => []) arrivals)
    {i : ℕ} {a : ℕ × List Byte} {c : DataContainer} (hi : arrivals[i]? = some a)
    (hc : (Decoder.decodeAll textDecode ∅ (arrivals.map Prod.snd)).2[i]? = some (.ok (some c))) :
    Complete msgs (arrivals.take (i + 1)) a.1 c := by
  have hstart : Collects textDecode msgs [] (fun _ => []) ∅ :=
    ⟨fun _ _ h => absurd h List.not_mem_nil, fun _ _ _ => ⟨[], List.nodup_nil, by simp, rfl, Or.inr ⟨rfl, rfl⟩⟩⟩
  exact hstart.run hdistinct htext hfits arrivals [] _ ∅ hposted hfresh i a c hi hc

/-- Two messages of two chunks each. -/
def twoMessages : List WorkerPayload := [⟨1, 18, [1, 2], "a", [97]⟩, ⟨2, 18, [3, 4], "a", [97]⟩]

/-- The chunks of both are mixed, and the first message comes once more. -/
theorem complete_of_fresh_example :
    Complete twoMessages
      ((([0, 2, 1, 3, 1, 0].map fun i => (posted twoMessages).getD i (0, [])) : List (ℕ × List Byte)).take 6) 0
      ⟨"a", [1, 2]⟩ :=
  @complete_of_fresh asciiDecode twoMessages (by decide) (by decide) (by decide +kernel)
    ([0, 2, 1, 3, 1, 0].map fun i => (posted twoMessages).getD i (0, [])) (by decide +kernel) (by decide +kernel) 5
    ((posted twoMessages).getD 0 (0, [])) ⟨"a", [1, 2]⟩ (by decide +kernel) (by decide +kernel)

/-- The first chunk of a message comes twice: the message is delivered without its second byte, of which the chunk has
not come. -/
theorem incomplete_delivered :
    ∃ first second, posted [⟨1, 18, [1, 2], "a", [97]⟩] = [(0, first), (0, second)] ∧ first ≠ second ∧
      (Decoder.decodeAll asciiDecode ∅ [first, first]).2 = [.ok none, .ok (some ⟨"a", [1, 0]⟩)] := by
  refine ⟨WorkerPayload.chunk ⟨1, 18, [1, 2], "a", [97]⟩ 0 0, WorkerPayload.chunk ⟨1, 18, [1, 2], "a", [97]⟩ 1 1, ?_⟩
  decide +kernel

end Repeats

/-! ### Chunks that are refused -/

/-- The text of the sender id of an input. -/
def senderOf (textDecode : List Byte → String) (input : List Byte) : String :=
  textDecode ((input.drop headerSizeBytes).take (decodeHeader input).senderIdSizeBytes.toNat)

/-- The data of an input. -/
def dataOf (input : List Byte) : List Byte := input.drop (headerSizeBytes + (decodeHeader input).senderIdSizeBytes.toNat)

/-- The key under which `decode` collects an input. -/
def keyOf (textDecode : List Byte → String) (input : List Byte) : String :=
  senderOf textDecode input ++ "_" ++ toString (decodeHeader input).messageId

/-- The position at which `decode` writes the data of an input into a buffer of `length` bytes. -/
def offsetOf (input : List Byte) (length : ℤ) : ℤ :=
  let header := decodeHeader input
  let dataSize := header.chunkSizeBytes - header.senderIdSizeBytes
  if header.chunkNum = header.totalChunks - 1 then length - dataSize else header.chunkNum * dataSize

/-- The header asks for a buffer into which the data of the input cannot be written. -/
def Misfits (input : List Byte) : Prop :=
  let header := decodeHeader input
  let offset := offsetOf input header.totalSizeBytes
  0 ≤ header.totalSizeBytes ∧ (offset < 0 ∨ header.totalSizeBytes < offset + (dataOf input).length)

/-- An exception leaves all partial messages as they were. -/
def RejectsUnchanged (textDecode : List Byte → String) (self : Decoder) (input : List Byte) : Prop :=
  ∀ err, (self.decode textDecode input).2 = .error err →
    ∀ id, (self.decode textDecode input).1.lookup id = self.lookup id

section Rejects

variable {textDecode : List Byte → String} {self : Decoder} {input : List Byte}

/-- **One call of `decode`** on any input: there is no container for it, its data do not fit, or it is taken. -/
theorem decode_cases (textDecode : List Byte → String) (self : Decoder) (input : List Byte) :
    (∃ err, self.container (keyOf textDecode input) (senderOf textDecode input) (decodeHeader input) = .error err ∧
        self.decode textDecode input = (self, .error err)) ∨
      ∃ container, self.container (keyOf textDecode input) (senderOf textDecode input) (decodeHeader input) =
          .ok container ∧
        ((∃ err, typedArraySet container.data (dataOf input) (offsetOf input container.data.length) = .error err ∧
            self.decode textDecode input = (self.insert (keyOf textDecode input) container, .error err)) ∨
          (∃ data, typedArraySet container.data (dataOf input) (offsetOf input container.data.length) = .ok data) ∧
            ∃ out, (self.decode textDecode input).2 = .ok out) := by
  have hsender : (input.drop headerSizeBytes).take
      (headerSizeBytes + (decodeHeader input).senderIdSizeBytes.toNat - headerSizeBytes) =
        (input.drop headerSizeBytes).take (decodeHeader input).senderIdSizeBytes.toNat := by
    rw [Nat.add_sub_cancel_left]
  unfold Decoder.decode
  dsimp only
  rw [hsender]
  cases hcontainer : self.container (keyOf textDecode input) (senderOf textDecode input) (decodeHeader input) with
  | error err =>
    refine Or.inl ⟨err, rfl, ?_⟩
    unfold keyOf senderOf at hcontainer
    rw [hcontainer]
  | ok container =>
    refine Or.inr ⟨container, rfl, ?_⟩
    unfold keyOf senderOf at hcontainer
    rw [hcontainer]
    cases hwrite : typedArraySet container.data (dataOf input) (offsetOf input container.data.length) with
    | error err =>
      refine Or.inl ⟨err, rfl, ?_⟩
      unfold dataOf offsetOf at hwrite
      dsimp only at hwrite ⊢
      rw [hwrite]
      rfl
    | ok data =>
      refine Or.inr ⟨⟨data, rfl⟩, ?_⟩
      unfold dataOf offsetOf at hwrite
      dsimp only at hwrite ⊢
      rw [hwrite]
      dsimp only
      split_ifs
      · exact ⟨_, rfl⟩
      · exact ⟨_, rfl⟩

/-- Storing a container where it is already changes nothing. -/
theorem lookup_insert_same {key : String} {container : ChunkContainer} (h : self.lookup key = some container)
    (id : String) : (self.insert key container).lookup id = self.lookup id := by
  by_cases hid : id = key
  · rw [hid, AList.lookup_insert, h]
  · exact AList.lookup_insert_ne hid

/-- The first chunk of a message is written into a buffer of as many zeros as its header says. -/
theorem container_new (h : self.lookup (keyOf textDecode input) = none) (senderId : String) :
    self.container (keyOf textDecode input) senderId (decodeHeader input) =
      if (decodeHeader input).totalSizeBytes < 0 then .error "Invalid typed array length"
      else .ok ⟨senderId, List.replicate (decodeHeader input).totalSizeBytes.toNat 0, 0,
        (decodeHeader input).totalChunks⟩ := by
  unfold Decoder.container newUint8Array
  rw [h]
  split_ifs with hneg
  · rfl
  · rfl

/-- The write into the buffer of a new message fails exactly if the chunk misfits. -/
theorem typedArraySet_new (hsize : 0 ≤ (decodeHeader input).totalSizeBytes) :
    (∃ err, typedArraySet (List.replicate (decodeHeader input).totalSizeBytes.toNat 0) (dataOf input)
      (offsetOf input (List.replicate (decodeHeader input).totalSizeBytes.toNat (0 : Byte)).length) = .error err) ↔
      Misfits input := by
  have hlen : ((List.replicate (decodeHeader input).totalSizeBytes.toNat (0 : Byte)).length : ℤ) =
      (decodeHeader input).totalSizeBytes := by
    rw [List.length_replicate, Int.toNat_of_nonneg hsize]
  unfold typedArraySet Misfits
  rw [hlen]
  split_ifs with hout
  · exact iff_of_true ⟨_, rfl⟩ ⟨hsize, hout⟩
  · exact iff_of_false (fun ⟨err, h⟩ => by cases h) fun h => hout h.2

/-- For a message that is there, no exception changes anything. -/
theorem rejectsUnchanged_of_some {container : ChunkContainer}
    (hlook : self.lookup (keyOf textDecode input) = some container) : RejectsUnchanged textDecode self input := by
  intro err herr id
  have hcontainer : self.container (keyOf textDecode input) (senderOf textDecode input) (decodeHeader input) =
      .ok container := by
    unfold Decoder.container
    rw [hlook]
  rcases decode_cases textDecode self input with ⟨err', -, hdecode⟩ | ⟨container', hc, hwrite⟩
  · rw [hdecode]
  · obtain rfl := Except.ok.inj (hcontainer.symm.trans hc)
    rcases hwrite with ⟨err', -, hdecode⟩ | ⟨-, out, hout⟩
    · rw [hdecode]
      exact lookup_insert_same hlook id
    · rw [hout] at herr
      cases herr

/-- For a new message, an exception changes nothing exactly if its container is not stored. -/
theorem rejectsUnchanged_of_none (hlook : self.lookup (keyOf textDecode input) = none) :
    RejectsUnchanged textDecode self input ↔ ¬ Misfits input := by
  have hnew := container_new hlook (senderOf textDecode input)
  rcases decode_cases textDecode self input with ⟨err, hc, hdecode⟩ | ⟨container, hc, hwrite⟩
  · -- the size is negative
    refine iff_of_true (fun _ _ id => by rw [hdecode]) fun h => ?_
    rw [hnew, if_neg (not_lt.mpr h.1)] at hc
    cases hc
  · have hsize : 0 ≤ (decodeHeader input).totalSizeBytes := by
      by_contra hneg
      rw [hnew, if_pos (not_le.mp hneg)] at hc
      cases hc
    rw [hnew, if_neg (not_lt.mpr hsize)] at hc
    obtain rfl := Except.ok.inj hc
    have hset := typedArraySet_new hsize
    rcases hwrite with ⟨err, herr, hdecode⟩ | ⟨⟨data, hdata⟩, out, hout⟩
    · refine iff_of_false (fun h => ?_) fun h => h (hset.mp ⟨err, herr⟩)
      have hkey := h err (by rw [hdecode]) (keyOf textDecode input)
      rw [hdecode, AList.lookup_insert, hlook] at hkey
      cases hkey
    · refine iff_of_true (fun err herr => ?_) fun h => ?_
      · rw [hout] at herr
        cases herr
      · obtain ⟨err, herr⟩ := hset.mpr h
        rw [hdata] at herr
        cases herr

theorem rejectsUnchanged_iff :
    RejectsUnchanged textDecode self input ↔ ¬ (self.lookup (keyOf textDecode input) = none ∧ Misfits input) := by
  cases hlook : self.lookup (keyOf textDecode input) with
  | some container => exact iff_of_true (rejectsUnchanged_of_some hlook) fun h => by cases h.1
  | none =>
    rw [rejectsUnchanged_of_none hlook]
    exact not_congr (and_iff_right rfl).symm

end Rejects

/-- **When a refused chunk leaves the decoder unchanged**: after any inputs whatsoever, exactly if it is not the first
chunk of a message with a header that asks for a buffer into which the chunk does not fit. -/
theorem rejected_unchanged_iff (textDecode : List Byte → String) (inputs : List (List Byte)) (input : List Byte) :
    RejectsUnchanged textDecode (Decoder.decodeAll textDecode ∅ inputs).1 input ↔
      ¬ ((Decoder.decodeAll textDecode ∅ inputs).1.lookup (keyOf textDecode input) = none ∧ Misfits input) :=
  rejectsUnchanged_iff

/-- A chunk of one byte for a message of no bytes is refused by a new decoder, which keeps an empty message. -/
theorem rejected_leaves_container :
    (Decoder.decode asciiDecode ∅ [0, 1, 0, 0, 0, 2, 0, 0, 0, 0, 0, 1, 0, 0, 0, 0, 7]).2 =
        .error "offset is out of bounds" ∧
      (Decoder.decode asciiDecode ∅ [0, 1, 0, 0, 0, 2, 0, 0, 0, 0, 0, 1, 0, 0, 0, 0, 7]).1.lookup "_1" =
        some ⟨"", [], 0, 2⟩ ∧
      ¬ RejectsUnchanged asciiDecode ∅ [0, 1, 0, 0, 0, 2, 0, 0, 0, 0, 0, 1, 0, 0, 0, 0, 7] := by
  refine ⟨by decide +kernel, by decide +kernel, fun h => ?_⟩
  have hkey := h "offset is out of bounds" (by decide +kernel) "_1"
  exact absurd hkey (by decide +kernel)

end Meeting.Codec
