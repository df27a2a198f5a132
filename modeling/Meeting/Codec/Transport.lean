import Mathlib.Data.List.Perm.Basic
import Meeting.Codec.Decoder

/-!
# Meeting.Codec.Transport — many encoders, one decoder

`calls` are the `encode` calls of all senders, `messages` the payloads that the encoders make of them, `posted` the chunks
the workers post for these, each tagged with the position of its message.  The decoder is fed the posted chunks in some
order `arrivals`; two messages with the same sender and the same id must not overlap in it (`NonOverlapping`).

The invariant along the feed (`Partial`): the decoder holds exactly the messages of which some but not all
chunks have arrived, each with the data of the chunks that did.  `delivers_all` then says that the
decoder answers as `expected`, nothing until the last chunk of a message arrives and then what `encode` was called with,
so that every call is answered once.
-/

namespace Meeting.Codec

open Lib

/-- A sender: its id, the encoder the constructor returned, and the data of its `encode` calls. -/
structure Sender where
  senderId : String
  encoder : Encoder
  fresh : Encoder.new encoder.maxMessageSizeBytes = .ok encoder
  calls : List (List Byte)

/-- What `encode` was called with. -/
def Sender.containers (s : Sender) : List DataContainer := s.calls.map fun data => ⟨s.senderId, data⟩

/-- The payloads that the encoder of a sender makes of its calls. -/
def Sender.payloads (textEncode : String → List Byte) (s : Sender) : List WorkerPayload :=
  s.encoder.encodeAll textEncode s.containers

/-- The `encode` calls of all senders. -/
def calls (senders : List Sender) : List DataContainer := senders.flatMap Sender.containers

/-- The payloads of all calls of all senders. -/
def messages (textEncode : String → List Byte) (senders : List Sender) : List WorkerPayload :=
  senders.flatMap (Sender.payloads textEncode)

def EncoderEvent.isError : EncoderEvent → Bool
  | .error _ _ _ => true
  | _ => false

/-- The chunk of a data event. -/
def EncoderEvent.chunk? : EncoderEvent → Option (List Byte)
  | .data _ _ _ _ chunk => some chunk
  | _ => none

/-- The chunks posted for a message. -/
def chunksOf (p : WorkerPayload) : List (List Byte) :=
  ((onmessage p).getD []).filterMap EncoderEvent.chunk?

/-- All chunks posted, each with the position of its message. -/
def posted (msgs : List WorkerPayload) : List (ℕ × List Byte) :=
  msgs.zipIdx.flatMap fun pm => (chunksOf pm.1).map fun chunk => (pm.2, chunk)

/-- No chunk of message `b` arrives before a chunk of message `a`. -/
def Precedes {β : Type} (arrivals : List (ℕ × β)) (a b : ℕ) : Prop :=
  arrivals.Pairwise fun x y => ¬ (x.1 = b ∧ y.1 = a)

/-- Messages with the same sender and the same message id arrive one after the other. -/
def NonOverlapping {β : Type} (msgs : List WorkerPayload) (arrivals : List (ℕ × β)) : Prop :=
  ∀ (a : Fin msgs.length) (b : Fin msgs.length), a ≠ b →
    (msgs.get a).senderId = (msgs.get b).senderId →
    (msgs.get a).messageId = (msgs.get b).messageId →
    Precedes arrivals a b ∨ Precedes arrivals b a

instance {β : Type} (arrivals : List (ℕ × β)) (a b : ℕ) : Decidable (Precedes arrivals a b) :=
  inferInstanceAs (Decidable (List.Pairwise _ _))

instance {β : Type} (msgs : List WorkerPayload) (arrivals : List (ℕ × β)) :
    Decidable (NonOverlapping msgs arrivals) :=
  inferInstanceAs (Decidable (∀ (a : Fin msgs.length) (b : Fin msgs.length), a ≠ b → _ → _ → _ ∨ _))

/-- What the decoder has to answer: `null`, except for the last chunk of a message that arrives, where it is what `encode`
was called with. -/
def expected {β : Type} (calls : List DataContainer) :
    List (ℕ × β) → List (Except String (Option DataContainer))
  | [] => []
  | (m, _) :: rest => .ok (if m ∈ rest.map Prod.fst then none else calls[m]?) :: expected calls rest

/-- The message in an answer. -/
def answer? : Except String (Option DataContainer) → Option DataContainer
  | .ok container => container
  | .error _ => none

/-- The message that a payload carries. -/
def WorkerPayload.container (p : WorkerPayload) : DataContainer := ⟨p.senderId, p.data⟩

/-! ### Posted chunks by number -/

section Posted

variable {msgs : List WorkerPayload}

/-- The bytes of chunk `k` of message `m`. -/
def bytesOf (msgs : List WorkerPayload) (mk : ℕ × ℕ) : List Byte :=
  (msgs[mk.1]?.map fun p => p.chunk mk.2 (mk.2 * p.dataBytes)).getD []

/-- The chunk numbers of all messages. -/
def numbers (msgs : List WorkerPayload) : List (ℕ × ℕ) :=
  msgs.zipIdx.flatMap fun pm => (List.range pm.1.totalChunks).map fun k => (pm.2, k)

theorem chunksOf_eq {p : WorkerPayload} (hd : 0 < p.dataBytesInChunk) :
    chunksOf p = (List.range p.totalChunks).map fun k => p.chunk k (k * p.dataBytes) := by
  unfold chunksOf
  rw [onmessage_eq hd, Option.getD_some, List.filterMap_append, List.filterMap_map]
  simp only [Function.comp_def, turn, EncoderEvent.chunk?, List.filterMap_eq_map', List.filterMap_cons,
    List.filterMap_nil, List.append_nil]

theorem length_chunksOf {p : WorkerPayload} (hd : 0 < p.dataBytesInChunk) : (chunksOf p).length = p.totalChunks := by
  rw [chunksOf_eq hd, List.length_map, List.length_range]

/-- **Events of a message**: its chunks, numbered from 0 on and each with their number, and one done event. -/
theorem onmessage_chunks {p : WorkerPayload} (hd : 0 < p.dataBytesInChunk) :
    onmessage p = some ((chunksOf p).mapIdx (fun k chunk =>
      EncoderEvent.data p.messageId k (chunksOf p).length p.senderId chunk) ++ [.done p.messageId p.senderId]) := by
  have hevents : (chunksOf p).mapIdx (fun k chunk =>
      EncoderEvent.data p.messageId k (chunksOf p).length p.senderId chunk) =
        (List.range p.totalChunks).map fun k => (turn p k).2 := by
    rw [length_chunksOf hd, chunksOf_eq hd]
    apply List.ext_getElem?
    intro k
    simp only [List.getElem?_mapIdx, List.getElem?_map, Option.map_map]
    by_cases hk : k < p.totalChunks
    · rw [List.getElem?_range hk]
      rfl
    · rw [List.getElem?_eq_none (by rw [List.length_range]; omega)]
      rfl
  rw [onmessage_eq hd, hevents]

theorem posted_eq (hd : ∀ p ∈ msgs, 0 < p.dataBytesInChunk) :
    posted msgs = (numbers msgs).map fun mk => (mk.1, bytesOf msgs mk) := by
  unfold posted numbers
  rw [List.map_flatMap]
  apply List.flatMap_congr
  rintro ⟨p, m⟩ hpm
  have hm : msgs[m]? = some p := List.mem_zipIdx_iff_getElem?.mp hpm
  rw [chunksOf_eq (hd _ (List.mem_of_getElem? hm)), List.map_map, List.map_map]
  apply List.map_congr_left
  intro k _
  simp [bytesOf, hm]

theorem mem_numbers {m k : ℕ} :
    (m, k) ∈ numbers msgs ↔ ∃ p, msgs[m]? = some p ∧ k < p.totalChunks := by
  unfold numbers
  simp only [List.mem_flatMap, List.mem_map, List.mem_range, Prod.mk.injEq, Prod.exists]
  constructor
  · rintro ⟨p, m', hp, k', hk, rfl, rfl⟩
    exact ⟨p, List.mem_zipIdx_iff_getElem?.mp hp, hk⟩
  · rintro ⟨p, hp, hk⟩
    exact ⟨p, m, List.mem_zipIdx_iff_getElem?.mpr hp, k, hk, rfl, rfl⟩

theorem numbers_nodup : (numbers msgs).Nodup := by
  unfold numbers
  rw [List.nodup_flatMap]
  constructor
  · rintro ⟨p, m⟩ _
    exact List.nodup_range.map fun a b h => (Prod.mk.inj h).2
  · have hz : (msgs.zipIdx.map Prod.snd).Nodup := by
      rw [List.zipIdx_map_snd]
      exact List.nodup_range'
    rw [List.Nodup, List.pairwise_map] at hz
    refine hz.imp ?_
    rintro ⟨p, m⟩ ⟨q, m'⟩ hne x hx hy
    simp only [List.mem_map] at hx hy
    obtain ⟨_, _, rfl⟩ := hx
    obtain ⟨_, _, he⟩ := hy
    exact hne (Prod.mk.inj he).1.symm

end Posted

/-! ### The feed -/

section Feed

/-- The chunk numbers of message `m` among the arrivals, latest first. -/
def received (m : ℕ) (arrivals : List (ℕ × ℕ)) : List ℕ :=
  ((arrivals.filter fun x => x.1 = m).map Prod.snd).reverse

theorem received_append (m : ℕ) (pre post : List (ℕ × ℕ)) :
    received m (pre ++ post) = received m post ++ received m pre := by
  simp [received]

theorem received_concat_self (m k : ℕ) (pre : List (ℕ × ℕ)) :
    received m (pre ++ [(m, k)]) = k :: received m pre := by
  rw [received_append]
  simp [received]

theorem received_concat_of_ne {m m' : ℕ} (h : m' ≠ m) (k : ℕ) (pre : List (ℕ × ℕ)) :
    received m' (pre ++ [(m, k)]) = received m' pre := by
  rw [received_append]
  simp [received, h.symm]

theorem mem_received {m k : ℕ} {arrivals : List (ℕ × ℕ)} :
    k ∈ received m arrivals ↔ (m, k) ∈ arrivals := by
  simp [received]

theorem received_eq_nil_iff {m : ℕ} {arrivals : List (ℕ × ℕ)} :
    received m arrivals = [] ↔ m ∉ arrivals.map Prod.fst := by
  rw [List.eq_nil_iff_forall_not_mem]
  simp [mem_received]

theorem received_nodup {m : ℕ} {arrivals : List (ℕ × ℕ)} (h : arrivals.Nodup) :
    (received m arrivals).Nodup := by
  rw [received, List.nodup_reverse]
  refine (h.filter _).map_on ?_
  rintro ⟨a, i⟩ ha ⟨b, j⟩ hb (rfl : i = j)
  simp only [List.mem_filter, decide_eq_true_eq] at ha hb
  rw [ha.2, hb.2]

/-- All chunks of sendable messages arrive, once each, in an order without overlaps. -/
structure Feed (textDecode : List Byte → String) (msgs : List WorkerPayload)
    (arrivals : List (ℕ × ℕ)) : Prop where
  sendable : ∀ p ∈ msgs, Sendable textDecode p
  perm : arrivals.Perm (numbers msgs)
  order : NonOverlapping msgs arrivals

/-- A message with key `id` is under way: some, but not all, of its chunks have arrived, and `c` is what
they give. -/
def UnderWay (msgs : List WorkerPayload) (pre : List (ℕ × ℕ)) (id : String) (c : ChunkContainer) : Prop :=
  ∃ m p, msgs[m]? = some p ∧ p.id = id ∧ received m pre ≠ [] ∧
    (received m pre).length < p.totalChunks ∧ c = progress p (received m pre)

/-- The decoder holds exactly the messages that are under way. -/
def Partial (msgs : List WorkerPayload) (pre : List (ℕ × ℕ)) (self : Decoder) : Prop :=
  ∀ id c, self.lookup id = some c ↔ UnderWay msgs pre id c

variable {textDecode : List Byte → String} {msgs : List WorkerPayload} {arr pre post : List (ℕ × ℕ)}
  {p : WorkerPayload} {m k : ℕ}

theorem Feed.mem_iff (hF : Feed textDecode msgs arr) (hp : msgs[m]? = some p) :
    (m, k) ∈ arr ↔ k < p.totalChunks := by
  rw [hF.perm.mem_iff, mem_numbers, hp]
  simp

/-- The chunks received and the chunks still to come are all chunks. -/
theorem Feed.length_add (hF : Feed textDecode msgs (pre ++ post)) (hp : msgs[m]? = some p) :
    (received m pre).length + (received m post).length = p.totalChunks := by
  have hnd : (pre ++ post).Nodup := hF.perm.nodup_iff.mpr numbers_nodup
  have hperm : (received m (pre ++ post)).Perm (List.range p.totalChunks) := by
    rw [List.perm_ext_iff_of_nodup (received_nodup hnd) List.nodup_range]
    intro k
    rw [mem_received, hF.mem_iff hp, List.mem_range]
  have hlen := hperm.length_eq
  rw [received_append, List.length_append, List.length_range] at hlen
  omega

/-- A message that is under way is the only one with its key that a chunk can arrive for. -/
theorem Feed.alone (hF : Feed textDecode msgs (pre ++ (m, k) :: post)) (hp : msgs[m]? = some p)
    {m' : ℕ} {q : WorkerPayload} (hq : msgs[m']? = some q) (hid : q.id = p.id)
    (hsome : received m' pre ≠ []) (hopen : (received m' pre).length < q.totalChunks) : m' = m := by
  by_contra hne
  -- `m'` has a chunk before the one of `m`, and one after it
  have hbefore : m' ∈ pre.map Prod.fst := by
    by_contra h
    exact hsome (received_eq_nil_iff.mpr h)
  have hafter : m' ∈ post.map Prod.fst := by
    by_contra h
    have hnil : received m' ((m, k) :: post) = [] := by
      rw [received_eq_nil_iff]
      simpa [hne] using h
    have hlen := hF.length_add hq
    rw [hnil, List.length_nil] at hlen
    omega
  obtain ⟨⟨_, k₁⟩, hk₁, rfl⟩ := List.mem_map.mp hbefore
  obtain ⟨⟨_, k₂⟩, hk₂, rfl⟩ := List.mem_map.mp hafter
  obtain ⟨hm, rfl⟩ := List.getElem?_eq_some_iff.mp hp
  obtain ⟨hm', rfl⟩ := List.getElem?_eq_some_iff.mp hq
  obtain ⟨hs, hi⟩ := id_inj hid
  rcases hF.order ⟨m, hm⟩ ⟨_, hm'⟩ (fun h => hne (congrArg Fin.val h).symm) hs.symm hi.symm
    with h | h
  · exact (List.pairwise_append.mp h).2.2 _ hk₁ (m, k) List.mem_cons_self ⟨rfl, rfl⟩
  · have hcons := (List.pairwise_append.mp h).2.1
    exact (List.pairwise_cons.mp hcons).1 _ hk₂ ⟨rfl, rfl⟩

/-- An arrival does not touch messages with another key. -/
theorem underWay_concat_of_ne (hp : msgs[m]? = some p) {id : String} (hid : id ≠ p.id)
    (c : ChunkContainer) : UnderWay msgs (pre ++ [(m, k)]) id c ↔ UnderWay msgs pre id c := by
  refine exists_congr fun m' => exists_congr fun q => ?_
  refine and_congr_right fun hq => and_congr_right fun hid' => ?_
  have hne : m' ≠ m := by
    rintro rfl
    rw [hp, Option.some.injEq] at hq
    exact hid (hid' ▸ congrArg _ hq.symm)
  rw [received_concat_of_ne hne]

/-- The container `decode` works on is the one of the chunks received so far. -/
theorem Feed.container (hF : Feed textDecode msgs (pre ++ (m, k) :: post)) (hp : msgs[m]? = some p)
    {self : Decoder} (hI : Partial msgs pre self) :
    self.lookup p.id = some (progress p (received m pre)) ∨
      self.lookup p.id = none ∧ received m pre = [] := by
  by_cases hR : received m pre = []
  · refine Or.inr ⟨?_, hR⟩
    cases h : self.lookup p.id with
    | none => rfl
    | some c =>
      obtain ⟨m', q, hq, hid, hsome, hopen, -⟩ := (hI _ _).mp h
      have hm : m' = m := hF.alone hp hq hid hsome hopen
      exact absurd hR (hm ▸ hsome)
  · have hlen := hF.length_add hp
    have hpos : 0 < (received m ((m, k) :: post)).length := by
      rw [List.length_pos_iff, ne_eq, received_eq_nil_iff]
      simp
    exact Or.inl ((hI _ _).mpr ⟨m, p, hp, rfl, hR, by omega, rfl⟩)

/-- After the last chunk of a message its data are complete. -/
theorem Feed.masked_received (hF : Feed textDecode msgs (pre ++ post)) (hp : msgs[m]? = some p)
    (hnil : received m post = []) : masked 0 p.dataBytes (received m pre) p.data = p.data := by
  have hsend := hF.sendable p (List.mem_of_getElem? hp)
  refine masked_eq_data hsend.room fun k hk => ?_
  have hmem := (hF.mem_iff hp).mpr hk
  rw [List.mem_append, ← mem_received, ← mem_received, hnil] at hmem
  simpa using hmem

/-- The messages that chunks arrive for. -/
theorem Feed.mem_labels_iff (hF : Feed textDecode msgs arr) : m ∈ arr.map Prod.fst ↔ m < msgs.length := by
  rw [List.mem_map]
  constructor
  · rintro ⟨⟨_, k⟩, hk, rfl⟩
    obtain ⟨p, hp, -⟩ := mem_numbers.mp (hF.perm.mem_iff.mp hk)
    exact (List.getElem?_eq_some_iff.mp hp).1
  · intro hm
    have hp : msgs[m]? = some msgs[m] := List.getElem?_eq_getElem hm
    have hfirst := (hF.mem_iff hp (k := 0)).mpr (hF.sendable _ (List.getElem_mem hm)).totalChunks_pos
    exact ⟨(m, 0), hfirst, rfl⟩

/-- **Step lemma**: one arrival keeps the invariant and is answered as expected. -/
theorem Feed.step (hF : Feed textDecode msgs (pre ++ (m, k) :: post)) {self : Decoder}
    (hI : Partial msgs pre self) :
    Partial msgs (pre ++ [(m, k)]) (self.decode textDecode (bytesOf msgs (m, k))).1 ∧
      (self.decode textDecode (bytesOf msgs (m, k))).2 =
        .ok (if m ∈ post.map Prod.fst then none else (msgs.map WorkerPayload.container)[m]?) := by
  obtain ⟨p, hp, hk⟩ := mem_numbers.mp (hF.perm.mem_iff.mp
    (List.mem_append_right pre (List.mem_cons_self (a := (m, k)) (l := post))))
  have hsend := hF.sendable p (List.mem_of_getElem? hp)
  have hF' : Feed textDecode msgs ((pre ++ [(m, k)]) ++ post) := by simpa using hF
  have hlen := hF'.length_add hp
  rw [received_concat_self, List.length_cons] at hlen
  have hbytes : bytesOf msgs (m, k) = p.chunk k (k * p.dataBytes) := by simp [bytesOf, hp]
  -- other messages with the same key are not under way
  have hother : ∀ m' q, msgs[m']? = some q → q.id = p.id → received m' (pre ++ [(m, k)]) ≠ [] →
      (received m' (pre ++ [(m, k)])).length < q.totalChunks → m' = m := by
    intro m' q hq hid hsome hopen
    by_contra hne
    rw [received_concat_of_ne hne] at hsome hopen
    exact hne (hF.alone hp hq hid hsome hopen)
  rw [hbytes, decode_chunk hsend hk (hF.container hp hI)]
  by_cases hlast : (received m pre).length + 1 = p.totalChunks
  · rw [if_pos hlast]
    have hnil : received m post = [] := List.length_eq_zero_iff.mp (by omega)
    have hpost : m ∉ post.map Prod.fst := received_eq_nil_iff.mp hnil
    refine ⟨fun id c => ?_, ?_⟩
    · by_cases hid : id = p.id
      · subst hid
        rw [AList.lookup_erase]
        refine ⟨fun h => by simp at h, ?_⟩
        rintro ⟨m', q, hq, hid, hsome, hopen, -⟩
        obtain rfl := hother m' q hq hid hsome hopen
        rw [received_concat_self, List.length_cons] at hopen
        rw [hp, Option.some.injEq] at hq
        subst hq
        omega
      · rw [AList.lookup_erase_ne hid, AList.lookup_insert_ne hid, hI, underWay_concat_of_ne hp hid]
    · have hfull := hF'.masked_received hp hnil
      rw [received_concat_self] at hfull
      rw [if_neg hpost, List.getElem?_map, hp, Option.map_some, hfull]
      rfl
  · rw [if_neg hlast]
    have hpost : m ∈ post.map Prod.fst := by
      by_contra h
      rw [received_eq_nil_iff.mpr h, List.length_nil] at hlen
      exact hlast (by omega)
    have hpos : 0 < (received m post).length := by
      rw [List.length_pos_iff, ne_eq, received_eq_nil_iff]
      exact not_not.mpr hpost
    refine ⟨fun id c => ?_, by rw [if_pos hpost]⟩
    by_cases hid : id = p.id
    · subst hid
      rw [AList.lookup_insert]
      constructor
      · intro h
        obtain rfl := Option.some.inj h
        refine ⟨m, p, hp, rfl, ?_, ?_, ?_⟩ <;> rw [received_concat_self]
        · exact List.cons_ne_nil _ _
        · rw [List.length_cons]
          omega
      · rintro ⟨m', q, hq, hid, hsome, hopen, rfl⟩
        obtain rfl := hother m' q hq hid hsome hopen
        rw [hp, Option.some.injEq] at hq
        rw [received_concat_self, hq]
    · rw [AList.lookup_insert_ne hid, AList.lookup_insert_ne hid, hI, underWay_concat_of_ne hp hid]

/-- **Run lemma**: the rest of the feed is answered as expected, and nothing is left at its end. -/
theorem Feed.run (hF : Feed textDecode msgs arr) : ∀ (post pre : List (ℕ × ℕ)) (self : Decoder),
    arr = pre ++ post → Partial msgs pre self →
      (self.decodeAll textDecode (post.map (bytesOf msgs))).1 = ∅ ∧
        (self.decodeAll textDecode (post.map (bytesOf msgs))).2 = expected (msgs.map WorkerPayload.container) post
  | [], pre, self, harr, hI => by
    refine ⟨?_, rfl⟩
    rw [List.append_nil] at harr
    subst harr
    -- every message is complete, so none is under way
    have hnone : ∀ id, self.lookup id = none := by
      intro id
      cases h : self.lookup id with
      | none => rfl
      | some c =>
        obtain ⟨m, p, hp, -, -, hopen, -⟩ := (hI _ _).mp h
        have hlen := (show Feed textDecode msgs (arr ++ []) by simpa using hF).length_add hp
        simp only [received, List.filter_nil, List.map_nil, List.reverse_nil, List.length_nil] at hlen hopen
        omega
    apply AList.ext
    cases he : self.entries with
    | nil => exact he
    | cons x xs =>
      have hmem : x.1 ∈ self.keys := by simp [AList.keys, he]
      have hlook := AList.lookup_isSome.mpr (AList.mem_keys.mpr hmem)
      rw [hnone] at hlook
      simp at hlook
  | (m, k) :: post, pre, self, harr, hI => by
    have hF' : Feed textDecode msgs (pre ++ (m, k) :: post) := harr ▸ hF
    obtain ⟨hI', hout⟩ := hF'.step hI
    obtain ⟨hempty, houts⟩ := Feed.run hF post (pre ++ [(m, k)]) _ (by simp [harr]) hI'
    refine ⟨hempty, ?_⟩
    simp only [List.map_cons, Decoder.decodeAll, expected]
    rw [hout, houts]

theorem Feed.decodeAll (hF : Feed textDecode msgs arr) :
    Decoder.decodeAll textDecode ∅ (arr.map (bytesOf msgs)) = (∅, expected (msgs.map WorkerPayload.container) arr) := by
  have hI : Partial msgs [] (∅ : Decoder) := by
    intro id c
    refine ⟨fun h => by simp at h, ?_⟩
    rintro ⟨m, p, -, -, hsome, -⟩
    exact absurd rfl hsome
  obtain ⟨h1, h2⟩ := hF.run arr [] ∅ rfl hI
  exact Prod.ext h1 h2

end Feed

/-! ### End to end -/

section EndToEnd

variable {textEncode : String → List Byte} {textDecode : List Byte → String} {senders : List Sender}

/-- **Payloads of a sender**: one for each call, the ids counted from 1 to 65535 and from 1 on again. -/
theorem Sender.payloads_eq (s : Sender) : s.payloads textEncode = s.calls.mapIdx fun i data =>
    { messageId := i % 65535 + 1
      maxMessageSizeBytes := s.encoder.maxMessageSizeBytes
      data := data
      senderId := s.senderId
      senderIdBytes := textEncode s.senderId } := by
  have hcounter : s.encoder.counter = 0 := by
    have hfresh := s.fresh
    unfold Encoder.new at hfresh
    split_ifs at hfresh
    exact congrArg Encoder.counter (Except.ok.inj hfresh).symm
  rw [Sender.payloads, encodeAll_eq _ _ (by rw [hcounter]; decide), hcounter, Sender.containers]
  refine List.ext_getElem? fun i => ?_
  rw [List.getElem?_mapIdx, List.getElem?_mapIdx, List.getElem?_map, Option.map_map, Nat.zero_add]
  rfl

/-- A payload of the senders is one of their calls. -/
theorem mem_messages {p : WorkerPayload} (hp : p ∈ messages textEncode senders) :
    ∃ s ∈ senders, p.senderId = s.senderId ∧ p.data ∈ s.calls ∧
      p.senderIdBytes = textEncode s.senderId := by
  obtain ⟨s, hs, hp⟩ := List.mem_flatMap.mp hp
  rw [Sender.payloads_eq, List.mem_mapIdx] at hp
  obtain ⟨i, hi, rfl⟩ := hp
  exact ⟨s, hs, rfl, List.getElem_mem hi, rfl⟩

/-- The payloads carry what `encode` was called with. -/
theorem map_container_messages : (messages textEncode senders).map WorkerPayload.container = calls senders := by
  rw [messages, calls, List.map_flatMap]
  refine List.flatMap_congr fun s _ => ?_
  rw [Sender.payloads_eq, Sender.containers]
  refine List.ext_getElem? fun i => ?_
  rw [List.getElem?_map, List.getElem?_mapIdx, List.getElem?_map, Option.map_map]
  rfl

/-- A message that is posted without an error has room for data in its chunks. -/
theorem room_of_no_error {p : WorkerPayload} (herror : ∀ e ∈ (onmessage p).getD [], e.isError = false) :
    0 < p.dataBytesInChunk := by
  by_contra h
  unfold onmessage at herror
  rw [if_pos (not_lt.mp h)] at herror
  simp [EncoderEvent.isError] at herror

theorem sendable_of_posted {p : WorkerPayload}
    (htext : ∀ s ∈ senders, textDecode (textEncode s.senderId) = s.senderId)
    (hdata : ∀ s ∈ senders, ∀ data ∈ s.calls, data ≠ [])
    (hp : p ∈ messages textEncode senders)
    (herror : ∀ e ∈ (onmessage p).getD [], e.isError = false)
    (hfits : ∀ t ∈ (workerTurns p).getD [], t.1.Fits) : Sendable textDecode p := by
  obtain ⟨s, hs, hid, hcall, hbytes⟩ := mem_messages hp
  have hroom := room_of_no_error herror
  refine ⟨hroom, hdata s hs _ hcall, fun k hk => ?_, ?_⟩
  · rw [workerTurns_eq hroom, Option.getD_some] at hfits
    exact hfits _ (List.mem_map_of_mem (List.mem_range.mpr hk))
  · rw [hbytes, hid]
    exact htext s hs

theorem precedes_map {β γ : Type} {f : ℕ × β → ℕ × γ} (hf : ∀ x, (f x).1 = x.1)
    {l : List (ℕ × β)} {a b : ℕ} : Precedes (l.map f) a b ↔ Precedes l a b := by
  unfold Precedes
  rw [List.pairwise_map]
  simp only [hf]

theorem expected_map {β γ : Type} {f : ℕ × β → ℕ × γ} (hf : ∀ x, (f x).1 = x.1)
    (calls : List DataContainer) (l : List (ℕ × β)) : expected calls (l.map f) = expected calls l := by
  induction l with
  | nil => rfl
  | cons x l ih =>
    have hlabels : (l.map f).map Prod.fst = l.map Prod.fst := by
      rw [List.map_map]
      exact List.map_congr_left fun y _ => hf y
    rw [List.map_cons, show f x = (x.1, (f x).2) from Prod.ext (hf x) rfl]
    simp only [expected, hlabels, ih]

/-- What is answered, in the order in which the last chunks arrive. -/
theorem filterMap_expected {β : Type} (calls : List DataContainer) : ∀ l : List (ℕ × β),
    (expected calls l).filterMap answer? = (l.map Prod.fst).dedup.filterMap (calls[·]?)
  | [] => rfl
  | (m, b) :: l => by
    rw [expected, List.filterMap_cons, List.map_cons, filterMap_expected calls l]
    by_cases hm : m ∈ l.map Prod.fst
    · rw [if_pos hm, List.dedup_cons_of_mem hm]
      rfl
    · rw [if_neg hm, List.dedup_cons_of_notMem hm, List.filterMap_cons]
      rfl

/-- If a chunk of every message arrives, and none of anything else, every call is answered once. -/
theorem answers_perm {β : Type} {calls : List DataContainer} {l : List (ℕ × β)}
    (hl : ∀ m, m ∈ l.map Prod.fst ↔ m < calls.length) : ((expected calls l).filterMap answer?).Perm calls := by
  have hrange : ((l.map Prod.fst).dedup).Perm (List.range calls.length) := by
    refine (List.perm_ext_iff_of_nodup (List.nodup_dedup _) List.nodup_range).mpr fun m => ?_
    rw [List.mem_dedup, hl, List.mem_range]
  rw [filterMap_expected]
  refine (hrange.filterMap _).trans (List.Perm.of_eq ?_)
  exact filterMap_range_getElem? calls

/-- **Chunk transport.**  Every payload carries its call and the next id of the counter, and its chunks are posted, numbered
from 0 on, and then one done event.  Whatever the order in which the posted chunks arrive, as long as messages of one
sender with one id (a wrapped counter) do not overlap, the decoder answers every chunk with `null` but the
last one of each message, which it answers with what `encode` was called with, so that each call is answered once; and it
keeps nothing. -/
theorem delivers_all
    (htext : ∀ s ∈ senders, textDecode (textEncode s.senderId) = s.senderId)
    (hdata : ∀ s ∈ senders, ∀ data ∈ s.calls, data ≠ [])
    (herror : ∀ p ∈ messages textEncode senders, ∀ e ∈ (onmessage p).getD [], e.isError = false)
    (hfits : ∀ p ∈ messages textEncode senders, ∀ t ∈ (workerTurns p).getD [], t.1.Fits)
    {arrivals : List (ℕ × List Byte)}
    (hperm : arrivals.Perm (posted (messages textEncode senders)))
    (horder : NonOverlapping (messages textEncode senders) arrivals) :
    (∀ s ∈ senders, s.payloads textEncode = s.calls.mapIdx fun i data =>
      { messageId := i % 65535 + 1
        maxMessageSizeBytes := s.encoder.maxMessageSizeBytes
        data := data
        senderId := s.senderId
        senderIdBytes := textEncode s.senderId }) ∧
    (∀ p ∈ messages textEncode senders, chunksOf p ≠ [] ∧
      onmessage p = some ((chunksOf p).mapIdx (fun k chunk =>
        EncoderEvent.data p.messageId k (chunksOf p).length p.senderId chunk) ++ [.done p.messageId p.senderId])) ∧
    Decoder.decodeAll textDecode ∅ (arrivals.map Prod.snd) = (∅, expected (calls senders) arrivals) ∧
    ((Decoder.decodeAll textDecode ∅ (arrivals.map Prod.snd)).2.filterMap answer?).Perm (calls senders) := by
  have hsend : ∀ p ∈ messages textEncode senders, Sendable textDecode p := fun p hp =>
    sendable_of_posted htext hdata hp (herror p hp) (hfits p hp)
  rw [posted_eq fun p hp => (hsend p hp).room] at hperm
  obtain ⟨arr, harr, rfl⟩ := exists_map_of_perm hperm
  have hlabel : ∀ mk : ℕ × ℕ, (mk.1, bytesOf (messages textEncode senders) mk).1 = mk.1 := fun _ => rfl
  have hF : Feed textDecode (messages textEncode senders) arr := by
    refine ⟨hsend, harr, fun a b hne hs hi => ?_⟩
    exact (horder a b hne hs hi).imp (precedes_map hlabel).mp (precedes_map hlabel).mp
  have hdecode := hF.decodeAll
  rw [map_container_messages] at hdecode
  refine ⟨fun s _ => s.payloads_eq, fun p hp => ⟨?_, onmessage_chunks (hsend p hp).room⟩, ?_, ?_⟩
  · rw [ne_eq, ← List.length_eq_zero_iff, length_chunksOf (hsend p hp).room]
    exact (hsend p hp).totalChunks_pos.ne'
  · rw [expected_map hlabel, List.map_map]
    exact hdecode
  · rw [List.map_map]
    refine (List.Perm.of_eq (congrArg (fun out => out.2.filterMap answer?) hdecode)).trans (answers_perm fun m => ?_)
    rw [hF.mem_labels_iff, ← map_container_messages, List.length_map]

/-- Two senders, three messages in five chunks, arriving in reverse order. -/
def reverseSenders : List Sender :=
  [⟨"a", ⟨19, 0⟩, rfl, [[1, 2, 3], [4]]⟩, ⟨"a_1", ⟨21, 0⟩, rfl, [[5, 6, 7]]⟩]

def asciiEncode (s : String) : List Byte := s.toList.map fun c => BitVec.ofNat 8 c.toNat

def asciiDecode (bytes : List Byte) : String := String.ofList (bytes.map fun b => Char.ofNat b.toNat)

theorem delivers_reverse :
    (posted (messages asciiEncode reverseSenders)).map (fun chunk => (chunk.1, chunk.2.length)) =
      [(0, 19), (0, 18), (1, 18), (2, 21), (2, 20)] ∧
    Decoder.decodeAll asciiDecode ∅ ((posted (messages asciiEncode reverseSenders)).reverse.map Prod.snd) =
      (∅, [.ok none, .ok (some ⟨"a_1", [5, 6, 7]⟩), .ok (some ⟨"a", [4]⟩), .ok none, .ok (some ⟨"a", [1, 2, 3]⟩)]) :=
  ⟨by decide, (delivers_all (by decide) (by decide) (by decide) (by decide) (List.reverse_perm _) (by decide)).2.2.1⟩

end EndToEnd

end Meeting.Codec
