import Meeting.Insertable.Worker

/-!
# Meeting.Insertable.Frames — the format of an encrypted frame (`insertable-streams/index.ts`, `encrypt` and `decrypt`)

An encrypted frame is the clear prefix, the ciphertext with its tag, and the iv.  `encrypt` writes the three one after
the other; `decrypt` finds the prefix by the type of the frame and the other two from the end.  It is a chain of promises
(`decryptChain`): what the first callback throws is caught, and the last one enqueues the frame, whatever it is by then.

* `enqueued_decryptChain`: the chain enqueues one frame, the one that `decrypt` gives;
* `frame_round_trip`: an encrypted frame is decrypted to what it was, and a frame that cannot be decrypted is passed on.
-/

namespace Meeting.Insertable

/-- `new Uint8Array(buffer, byteOffset, length)`; without a length up to the end of the buffer. -/
def uint8View (buffer : List Byte) (byteOffset : ℕ) : Option ℤ → Except String (List Byte)
  | none =>
    if buffer.length < byteOffset then .error "Start offset is outside the bounds of the buffer"
    else .ok (buffer.drop byteOffset)
  | some length =>
    if length < 0 ∨ buffer.length < byteOffset + length then .error "Invalid typed array length"
    else .ok ((buffer.drop byteOffset).take length.toNat)

/-- A promise of the chain that is settled, with the frame and what was enqueued by then. -/
structure Settled where
  outcome : Except String Unit
  frame : RTCEncodedFrame
  enqueued : List RTCEncodedFrame

/-- `.catch(callback)`. -/
def Settled.catch (s : Settled) (callback : String → Settled → Settled) : Settled :=
  match s.outcome with
  | .ok _ => s
  | .error err => callback err { s with outcome := .ok () }

/-- `.finally(callback)`, with a callback that does not throw. -/
def Settled.finally (s : Settled) (callback : Settled → Settled) : Settled := { callback s with outcome := s.outcome }

/-- `controller.enqueue(frame)`. -/
def Settled.enqueue (s : Settled) : Settled := { s with enqueued := s.enqueued ++ [s.frame] }

section

variable {Key : Type} (crypto : Crypto Key)

/-- The parts of a frame: the additional data, the encrypted data and the iv. -/
def encryptedParts (frame : RTCEncodedFrame) : Except String (List Byte × List Byte × List Byte) := do
  let additionalData ← uint8View frame.data 0 (some (getCryptoOffset frame))
  let offset := additionalData.length
  let encryptedData ← uint8View frame.data offset (some ((frame.data.length : ℤ) - offset - ivByteLength))
  let offset := offset + encryptedData.length
  let iv ← uint8View frame.data offset none
  .ok (additionalData, encryptedData, iv)

/-- The first callback of the chain: the data of the frame are replaced at its very end. -/
def decryptCallback (key : Key) (frame : RTCEncodedFrame) : Settled :=
  match encryptedParts frame with
  | .error err => ⟨.error err, frame, []⟩
  | .ok (additionalData, encryptedData, iv) =>
    match crypto.decrypt key iv additionalData encryptedData with
    | none => ⟨.error "OperationError", frame, []⟩
    | some decryptedData => ⟨.ok (), { frame with data := additionalData ++ decryptedData }, []⟩

/-- `decrypt`, with all that it does to its controller. -/
def decryptChain (w : Worker Key) (mid : String) (frame : RTCEncodedFrame) : Settled :=
  match w.decryptContextByMid.lookup mid with
  | none => Settled.enqueue ⟨.ok (), frame, []⟩
  | some ctx =>
    match ctx.key with
    | none => Settled.enqueue ⟨.ok (), frame, []⟩
    | some key => ((decryptCallback crypto key frame).catch fun _ s => s).finally Settled.enqueue

/-- Documented behaviour of AES-GCM with a tag of 128 bits. -/
structure Crypto.Lawful (crypto : Crypto Key) : Prop where
  decrypt_encrypt : ∀ key iv additionalData data,
    crypto.decrypt key iv additionalData (crypto.encrypt key iv additionalData data) = some data
  length_encrypt : ∀ key iv additionalData data, (crypto.encrypt key iv additionalData data).length = data.length + 16

/-! ### The parts of a frame -/

variable {crypto}

theorem uint8View_some {buffer : List Byte} {byteOffset n : ℕ} (h : byteOffset + n ≤ buffer.length) :
    uint8View buffer byteOffset (some (n : ℤ)) = .ok ((buffer.drop byteOffset).take n) := by
  unfold uint8View
  dsimp only
  rw [if_neg (by omega), Int.toNat_natCast]

theorem uint8View_none {buffer : List Byte} {byteOffset : ℕ} (h : byteOffset ≤ buffer.length) :
    uint8View buffer byteOffset none = .ok (buffer.drop byteOffset) :=
  if_neg (not_lt.mpr h)

theorem uint8View_error {buffer : List Byte} {byteOffset : ℕ} {length : ℤ}
    (h : length < 0 ∨ buffer.length < byteOffset + length) :
    uint8View buffer byteOffset (some length) = .error "Invalid typed array length" :=
  if_pos h

theorem length_clear {frame : RTCEncodedFrame} (h : getCryptoOffset frame ≤ frame.data.length) :
    (frame.data.take (getCryptoOffset frame)).length = getCryptoOffset frame := by
  rw [List.length_take]
  omega

/-- The clear prefix of a frame that has one. -/
theorem uint8View_clear {frame : RTCEncodedFrame} (h : getCryptoOffset frame ≤ frame.data.length) :
    uint8View frame.data 0 (some (getCryptoOffset frame)) = .ok (frame.data.take (getCryptoOffset frame)) := by
  rw [uint8View_some (by omega), List.drop_zero]

/-- **The slices of a frame** with room for the prefix and the iv. -/
theorem encryptedParts_of_le {frame : RTCEncodedFrame} (h : getCryptoOffset frame + ivByteLength ≤ frame.data.length) :
    encryptedParts frame = .ok (frame.data.take (getCryptoOffset frame),
      (frame.data.drop (getCryptoOffset frame)).take (frame.data.length - getCryptoOffset frame - ivByteLength),
      frame.data.drop (frame.data.length - ivByteLength)) := by
  have hclear : getCryptoOffset frame ≤ frame.data.length := by omega
  have hlen := length_clear hclear
  have hsize : (frame.data.length : ℤ) - getCryptoOffset frame - ivByteLength =
      ((frame.data.length - getCryptoOffset frame - ivByteLength : ℕ) : ℤ) := by omega
  have hbodyLen : ((frame.data.drop (getCryptoOffset frame)).take
      (frame.data.length - getCryptoOffset frame - ivByteLength)).length =
        frame.data.length - getCryptoOffset frame - ivByteLength := by
    rw [List.length_take, List.length_drop]
    omega
  have hend : getCryptoOffset frame + (frame.data.length - getCryptoOffset frame - ivByteLength) =
      frame.data.length - ivByteLength := by omega
  unfold encryptedParts
  rw [uint8View_clear hclear]
  simp only [Except.bind, bind, hlen, hsize]
  rw [uint8View_some (by omega)]
  simp only [hbodyLen, hend]
  rw [uint8View_none (by omega)]

/-- A shorter frame has none: the prefix is cut off, or the length of the ciphertext is negative. -/
theorem encryptedParts_of_lt {frame : RTCEncodedFrame} (h : frame.data.length < getCryptoOffset frame + ivByteLength) :
    ∃ err, encryptedParts frame = .error err := by
  unfold encryptedParts
  by_cases hclear : frame.data.length < getCryptoOffset frame
  · rw [uint8View_error (Or.inr (by omega))]
    exact ⟨_, rfl⟩
  · rw [uint8View_clear (not_lt.mp hclear)]
    simp only [Except.bind, bind, length_clear (not_lt.mp hclear)]
    rw [uint8View_error (Or.inl (by omega))]
    exact ⟨_, rfl⟩

/-- **The chain enqueues one frame**, the one that the short form of `decrypt` gives. -/
theorem enqueued_decryptChain (w : Worker Key) (mid : String) (frame : RTCEncodedFrame) :
    (decryptChain crypto w mid frame).enqueued = [decrypt crypto w mid frame] := by
  unfold decryptChain decrypt decryptKey
  cases hctx : w.decryptContextByMid.lookup mid with
  | none => rfl
  | some ctx =>
    cases hkey : ctx.key with
    | none => simp [hkey, Settled.enqueue]
    | some key =>
      simp only [Option.bind_some, hkey, decryptCallback, decryptFrame]
      rcases lt_or_ge frame.data.length (getCryptoOffset frame + ivByteLength) with hshort | hroom
      · obtain ⟨err, hparts⟩ := encryptedParts_of_lt hshort
        rw [hparts, if_pos hshort]
        rfl
      · rw [encryptedParts_of_le hroom, if_neg (not_lt.mpr hroom)]
        dsimp only
        cases crypto.decrypt key (frame.data.drop (frame.data.length - ivByteLength))
          (frame.data.take (getCryptoOffset frame))
          ((frame.data.drop (getCryptoOffset frame)).take
            (frame.data.length - getCryptoOffset frame - ivByteLength)) with
        | none => rfl
        | some decryptedData => rfl

theorem decryptChain_of_key {w : Worker Key} {mid : String} {key : Key} (hkey : decryptKey w mid = some key)
    (frame : RTCEncodedFrame) : (decryptChain crypto w mid frame).enqueued = [decryptFrame crypto key frame] := by
  rw [enqueued_decryptChain, decrypt, hkey]

/-- **What is encrypted is decrypted again**, by the same key. -/
theorem decryptFrame_encrypted (hcrypto : crypto.Lawful) {key : Key} {iv : List Byte} (hiv : iv.length = ivByteLength)
    {frame : RTCEncodedFrame} (hclear : getCryptoOffset frame ≤ frame.data.length) :
    decryptFrame crypto key { frame with
      data := frame.data.take (getCryptoOffset frame) ++ crypto.encrypt key iv
        (frame.data.take (getCryptoOffset frame)) (frame.data.drop (getCryptoOffset frame)) ++ iv } = frame := by
  -- the parts that are read are those that were written
  have hoffset : ∀ data, getCryptoOffset { frame with data } = getCryptoOffset frame := fun _ => rfl
  have hhead := length_clear hclear
  generalize hbody : crypto.encrypt key iv (frame.data.take (getCryptoOffset frame))
    (frame.data.drop (getCryptoOffset frame)) = body
  have htotal : (frame.data.take (getCryptoOffset frame) ++ body ++ iv).length =
      getCryptoOffset frame + body.length + ivByteLength := by
    rw [List.length_append, List.length_append, hhead, hiv]
  unfold decryptFrame
  simp only [hoffset, htotal]
  rw [if_neg (by omega)]
  have h1 : (frame.data.take (getCryptoOffset frame) ++ body ++ iv).take (getCryptoOffset frame) =
      frame.data.take (getCryptoOffset frame) := by
    rw [List.append_assoc]
    exact List.take_left' hhead
  have h2 : ((frame.data.take (getCryptoOffset frame) ++ body ++ iv).drop (getCryptoOffset frame)).take
      (getCryptoOffset frame + body.length + ivByteLength - getCryptoOffset frame - ivByteLength) = body := by
    rw [List.append_assoc, List.drop_left' hhead]
    exact List.take_left' (by omega)
  have h3 : (frame.data.take (getCryptoOffset frame) ++ body ++ iv).drop
      (getCryptoOffset frame + body.length + ivByteLength - ivByteLength) = iv := by
    refine List.drop_left' ?_
    rw [List.length_append, hhead]
    omega
  rw [h1, h2, h3, ← hbody, hcrypto.decrypt_encrypt]
  dsimp only
  rw [List.take_append_drop]

/-- What a worker with a key sends. -/
theorem encrypt_eq {w : Worker Key} {key : Key} {iv : List Byte} {frame : RTCEncodedFrame}
    (hkey : w.encryptContext.key = some key) (hclear : getCryptoOffset frame ≤ frame.data.length) :
    encrypt crypto w iv frame = .enqueue { frame with
      data := frame.data.take (getCryptoOffset frame) ++ crypto.encrypt key iv
        (frame.data.take (getCryptoOffset frame)) (frame.data.drop (getCryptoOffset frame)) ++ iv } := by
  simp only [encrypt, hkey, encryptFrame]
  rw [if_neg (not_lt.mpr hclear)]

/-- A frame of which the slices throw, or which does not decrypt, is left as it is. -/
theorem decryptFrame_of_fails {key : Key} {frame : RTCEncodedFrame}
    (hfails : (∃ err, encryptedParts frame = .error err) ∨ ∃ additionalData encryptedData iv,
      encryptedParts frame = .ok (additionalData, encryptedData, iv) ∧
        crypto.decrypt key iv additionalData encryptedData = none) : decryptFrame crypto key frame = frame := by
  unfold decryptFrame
  dsimp only
  rcases lt_or_ge frame.data.length (getCryptoOffset frame + ivByteLength) with hshort | hroom
  · rw [if_pos hshort]
  · have hparts := encryptedParts_of_le hroom
    rw [if_neg (not_lt.mpr hroom)]
    rcases hfails with ⟨err, herr⟩ | ⟨additionalData, encryptedData, iv, hok, hnone⟩
    · rw [hparts] at herr
      cases herr
    · rw [hparts] at hok
      obtain ⟨rfl, rfl, rfl⟩ : _ ∧ _ ∧ _ := by simpa using hok
      rw [hnone]

/-- **Round trip of an encrypted frame.**  A worker with a key sends a frame that has its clear prefix with this prefix,
32 bytes longer, and a worker that has the key for the mid enqueues the frame as it was, once.  A frame of any length of
which the slices throw, or which does not decrypt, is enqueued once, as it is. -/
theorem frame_round_trip {Key : Type} {crypto : Crypto Key} (hcrypto : crypto.Lawful) {key : Key} :
    (∀ (sender receiver : Worker Key) (mid : String) (iv : List Byte) (frame : RTCEncodedFrame),
        sender.encryptContext.key = some key → decryptKey receiver mid = some key → iv.length = ivByteLength →
        getCryptoOffset frame ≤ frame.data.length →
          ∃ sent, encrypt crypto sender iv frame = .enqueue sent ∧ sent.type = frame.type ∧
            sent.data.take (getCryptoOffset frame) = frame.data.take (getCryptoOffset frame) ∧
            sent.data.length = frame.data.length + 32 ∧
            (decryptChain crypto receiver mid sent).enqueued = [frame]) ∧
      ∀ (receiver : Worker Key) (mid : String) (frame : RTCEncodedFrame), decryptKey receiver mid = some key →
        ((∃ err, encryptedParts frame = .error err) ∨ ∃ additionalData encryptedData iv,
          encryptedParts frame = .ok (additionalData, encryptedData, iv) ∧
            crypto.decrypt key iv additionalData encryptedData = none) →
          (decryptChain crypto receiver mid frame).enqueued = [frame] := by
  refine ⟨fun sender receiver mid iv frame hsender hreceiver hiv hclear => ?_,
    fun receiver mid frame hreceiver hfails => ?_⟩
  · have hhead := length_clear hclear
    refine ⟨_, encrypt_eq hsender hclear, rfl, ?_, ?_, ?_⟩
    · rw [List.append_assoc]
      exact List.take_left' hhead
    · have hrest : (frame.data.drop (getCryptoOffset frame)).length = frame.data.length - getCryptoOffset frame :=
        List.length_drop
      have h16 : ivByteLength = 16 := rfl
      simp only [List.length_append, hhead, hcrypto.length_encrypt, hrest, hiv]
      omega
    · rw [decryptChain_of_key hreceiver, decryptFrame_encrypted hcrypto hiv hclear]
  · rw [decryptChain_of_key hreceiver, decryptFrame_of_fails hfails]

end

/-- Sixteen bytes of the key, the iv and the additional data. -/
def toyTag (key iv additionalData : List Byte) : List Byte := (key ++ iv ++ additionalData ++ List.replicate 16 0).take 16

/-- A cipher that only appends a tag. -/
def toyCrypto : Crypto (List Byte) where
  textEncode := fun _ => []
  deriveKey := fun password _ => password
  encrypt := fun key iv additionalData data => data ++ toyTag key iv additionalData
  decrypt := fun key iv additionalData data =>
    if data.drop (data.length - 16) = toyTag key iv additionalData then some (data.take (data.length - 16)) else none

theorem length_toyTag (key iv additionalData : List Byte) : (toyTag key iv additionalData).length = 16 := by
  simp only [toyTag, List.length_take, List.length_append, List.length_replicate]
  omega

theorem toyCrypto_lawful : toyCrypto.Lawful := by
  constructor
  · intro key iv additionalData data
    simp only [toyCrypto, List.length_append, length_toyTag, Nat.add_sub_cancel]
    rw [if_pos (List.drop_left' rfl), List.take_left' rfl]
  · intro key iv additionalData data
    simp only [toyCrypto, List.length_append, length_toyTag]

theorem frame_round_trip_example :
    ∃ sent, encrypt toyCrypto { Worker.init with encryptContext := ⟨some [7], "p"⟩ } (List.replicate 16 1)
        ⟨some .delta, [1, 2, 3, 4]⟩ = .enqueue sent ∧ sent.data.length = 36 ∧
      (decryptChain toyCrypto { Worker.init with decryptContextByMid := AList.singleton "0" ⟨0, some [7], "u", "p"⟩ } "0"
        sent).enqueued = [⟨some .delta, [1, 2, 3, 4]⟩] := by
  obtain ⟨sent, hsent, -, -, hlen, hback⟩ := (frame_round_trip toyCrypto_lawful).1
    { Worker.init with encryptContext := ⟨some [7], "p"⟩ }
    { Worker.init with decryptContextByMid := AList.singleton "0" ⟨0, some [7], "u", "p"⟩ } "0" (List.replicate 16 1)
    ⟨some .delta, [1, 2, 3, 4]⟩ rfl rfl rfl (by decide)
  exact ⟨sent, hsent, hlen, hback⟩

end Meeting.Insertable
