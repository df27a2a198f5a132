import Mathlib.Data.List.GetD
import Mathlib.Data.Set.Function
import Mathlib.Tactic

/-!
# Meeting.Codec.Header — the 16-byte chunk header (`codec/header.ts`)

Header fields are JavaScript numbers with integer values (`ℤ`).  The bit operators of the source act on
the 32-bit pattern of a number (`toInt32`), a store into a `Uint8Array` keeps the low eight bits
(`toUint8`), and `<<`, `|` give back a signed 32-bit number (`BitVec.toInt`).

* `Header.Fits`: the documented widths, 16-bit counts and 31-bit sizes.
* `decodeHeader_encodeHeader`: a header that fits is read back from any buffer that starts with its
  encoding, and no other one is (`decodeHeader_encodeHeader_iff`), since the fields are cut (`Header.cut`);
* `header_codec`: the arrays of 16 bytes without a negative size are the encodings of the headers that fit.
-/

namespace Meeting.Codec

/-- An element of a `Uint8Array`. -/
abbrev Byte := BitVec 8

/-- `headerSizeBytes`. -/
def headerSizeBytes : ℕ := 16

structure Header where
  messageId : ℤ
  chunkNum : ℤ
  totalChunks : ℤ
  senderIdSizeBytes : ℤ
  chunkSizeBytes : ℤ
  totalSizeBytes : ℤ
  deriving DecidableEq, Repr

/-- `ToInt32`: the 32-bit pattern the bit operators work on. -/
def toInt32 (n : ℤ) : BitVec 32 := BitVec.ofInt 32 n

/-- `ToUint8`: what a store into a `Uint8Array` keeps. -/
def toUint8 (x : BitVec 32) : Byte := x.setWidth 8

/-- `(n & mask) >> k`, stored into a `Uint8Array`. -/
def maskShift (n : ℤ) (mask : BitVec 32) (k : ℕ) : Byte := toUint8 ((toInt32 n &&& mask).sshiftRight k)

def encodeHeader (header : Header) : List Byte :=
  [ maskShift header.messageId 0xFF00 8
  , maskShift header.messageId 0x00FF 0
  , maskShift header.chunkNum 0xFF00 8
  , maskShift header.chunkNum 0x00FF 0
  , maskShift header.totalChunks 0xFF00 8
  , maskShift header.totalChunks 0x00FF 0
  , maskShift header.senderIdSizeBytes 0xFF00 8
  , maskShift header.senderIdSizeBytes 0x00FF 0
  , maskShift header.chunkSizeBytes 0x7F000000 24
  , maskShift header.chunkSizeBytes 0x00FF0000 16
  , maskShift header.chunkSizeBytes 0x0000FF00 8
  , maskShift header.chunkSizeBytes 0x000000FF 0
  , maskShift header.totalSizeBytes 0x7F000000 24
  , maskShift header.totalSizeBytes 0x00FF0000 16
  , maskShift header.totalSizeBytes 0x0000FF00 8
  , maskShift header.totalSizeBytes 0x000000FF 0 ]

/-- `data[i]` as an operand of a bit operator; past the end it is `undefined`, which counts as `0`. -/
def byteAt (data : List Byte) (i : ℕ) : BitVec 32 := (data.getD i 0).setWidth 32

/-- `data[i] << 8 | data[i + 1]`. -/
def read16 (data : List Byte) (i : ℕ) : ℤ := (byteAt data i <<< 8 ||| byteAt data (i + 1)).toInt

/-- `data[i] << 24 | data[i + 1] << 16 | data[i + 2] << 8 | data[i + 3]`. -/
def read32 (data : List Byte) (i : ℕ) : ℤ :=
  (byteAt data i <<< 24 ||| byteAt data (i + 1) <<< 16 ||| byteAt data (i + 2) <<< 8 |||
    byteAt data (i + 3)).toInt

def decodeHeader (data : List Byte) : Header where
  messageId := read16 data 0
  chunkNum := read16 data 2
  totalChunks := read16 data 4
  senderIdSizeBytes := read16 data 6
  chunkSizeBytes := read32 data 8
  totalSizeBytes := read32 data 12

@[simp] theorem encodeHeader_length (h : Header) : (encodeHeader h).length = headerSizeBytes := rfl

/-! ### Fields that fit their width -/

/-- `n` fits a field of `w` bits. -/
def FitsBits (w : ℕ) (n : ℤ) : Prop := 0 ≤ n ∧ n < 2 ^ w

instance (w : ℕ) (n : ℤ) : Decidable (FitsBits w n) := inferInstanceAs (Decidable (_ ∧ _))

/-- The documented widths of the header fields. -/
structure Header.Fits (h : Header) : Prop where
  messageId : FitsBits 16 h.messageId
  chunkNum : FitsBits 16 h.chunkNum
  totalChunks : FitsBits 16 h.totalChunks
  senderIdSizeBytes : FitsBits 16 h.senderIdSizeBytes
  chunkSizeBytes : FitsBits 31 h.chunkSizeBytes
  totalSizeBytes : FitsBits 31 h.totalSizeBytes

instance (h : Header) : Decidable h.Fits :=
  decidable_of_iff (FitsBits 16 h.messageId ∧ FitsBits 16 h.chunkNum ∧ FitsBits 16 h.totalChunks ∧
      FitsBits 16 h.senderIdSizeBytes ∧ FitsBits 31 h.chunkSizeBytes ∧ FitsBits 31 h.totalSizeBytes)
    ⟨fun ⟨h1, h2, h3, h4, h5, h6⟩ => ⟨h1, h2, h3, h4, h5, h6⟩,
      fun ⟨h1, h2, h3, h4, h5, h6⟩ => ⟨h1, h2, h3, h4, h5, h6⟩⟩

theorem toInt32_toNat_lt {w : ℕ} {n : ℤ} (hw : w ≤ 31) (h : FitsBits w n) :
    (toInt32 n).toNat < 2 ^ w := by
  have hpow : (2 : ℤ) ^ w ≤ 2 ^ 31 := pow_le_pow_right₀ (by norm_num) hw
  have h2 := h.2
  simp only [toInt32, BitVec.toNat_ofInt]
  rw [Int.emod_eq_of_lt h.1 (by norm_num; omega), Int.toNat_lt h.1]
  exact_mod_cast h2

theorem toInt32_toInt {w : ℕ} {n : ℤ} (hw : w ≤ 31) (h : FitsBits w n) : (toInt32 n).toInt = n := by
  have hpow : (2 : ℤ) ^ w ≤ 2 ^ 31 := pow_le_pow_right₀ (by norm_num) hw
  have h1 := h.1
  have h2 := h.2
  simp only [toInt32, BitVec.toInt_ofInt]
  rw [Int.bmod_eq_of_le_mul_two] <;> norm_num <;> omega

/-- Two bytes of a 16-bit pattern put together again. -/
theorem join16 {x : BitVec 32} (h : x.toNat < 2 ^ 16) :
    (toUint8 ((x &&& 0xFF00).sshiftRight 8)).setWidth 32 <<< 8 |||
      (toUint8 ((x &&& 0x00FF).sshiftRight 0)).setWidth 32 = x := by
  have hz : ∀ j, 16 ≤ j → x.toNat.testBit j = false := fun j hj =>
    Nat.testBit_lt_two_pow (lt_of_lt_of_le h (Nat.pow_le_pow_right (by decide) hj))
  ext i hi
  simp only [toUint8, BitVec.getElem_or, BitVec.getElem_shiftLeft, BitVec.getElem_setWidth,
    BitVec.getLsbD_setWidth, BitVec.getLsbD_sshiftRight, BitVec.getLsbD_and]
  interval_cases i <;> simp +decide (disch := omega)
    [BitVec.getLsbD_eq_getElem, BitVec.getElem_eq_testBit_toNat, hz]

/-- Four bytes of a 31-bit pattern put together again. -/
theorem join32 {x : BitVec 32} (h : x.toNat < 2 ^ 31) :
    (toUint8 ((x &&& 0x7F000000).sshiftRight 24)).setWidth 32 <<< 24 |||
      (toUint8 ((x &&& 0x00FF0000).sshiftRight 16)).setWidth 32 <<< 16 |||
      (toUint8 ((x &&& 0x0000FF00).sshiftRight 8)).setWidth 32 <<< 8 |||
      (toUint8 ((x &&& 0x000000FF).sshiftRight 0)).setWidth 32 = x := by
  have hz : x.toNat.testBit 31 = false := Nat.testBit_lt_two_pow h
  ext i hi
  simp only [toUint8, BitVec.getElem_or, BitVec.getElem_shiftLeft, BitVec.getElem_setWidth,
    BitVec.getLsbD_setWidth, BitVec.getLsbD_sshiftRight, BitVec.getLsbD_and]
  interval_cases i <;> simp +decide (disch := omega)
    [BitVec.getLsbD_eq_getElem, BitVec.getElem_eq_testBit_toNat, hz]

/-! ### What the fields keep of the numbers of a header -/

/-- What a field of the width of `mask` keeps of a number. -/
def keep (mask : BitVec 32) (n : ℤ) : ℤ := (toInt32 n &&& mask).toInt

/-- The header that is read back. -/
def Header.cut (h : Header) : Header where
  messageId := keep 0xFFFF h.messageId
  chunkNum := keep 0xFFFF h.chunkNum
  totalChunks := keep 0xFFFF h.totalChunks
  senderIdSizeBytes := keep 0xFFFF h.senderIdSizeBytes
  chunkSizeBytes := keep 0x7FFFFFFF h.chunkSizeBytes
  totalSizeBytes := keep 0x7FFFFFFF h.totalSizeBytes

theorem toNat_and_lt {w : ℕ} (x : BitVec 32) {mask : BitVec 32} (h : mask.toNat < 2 ^ w) :
    (x &&& mask).toNat < 2 ^ w := by
  rw [BitVec.toNat_and]
  exact lt_of_le_of_lt Nat.and_le_right h

theorem read16_eq {data : List Byte} {i : ℕ} {n : ℤ} (h0 : data.getD i 0 = maskShift n 0xFF00 8)
    (h1 : data.getD (i + 1) 0 = maskShift n 0x00FF 0) : read16 data i = keep 0xFFFF n := by
  have hlt : (toInt32 n &&& 0xFFFF).toNat < 2 ^ 16 := toNat_and_lt _ (by decide)
  have hhigh : toInt32 n &&& 0xFFFF &&& 0xFF00 = toInt32 n &&& 0xFF00 := by rw [BitVec.and_assoc]; rfl
  have hlow : toInt32 n &&& 0xFFFF &&& 0x00FF = toInt32 n &&& 0x00FF := by rw [BitVec.and_assoc]; rfl
  have hjoin := join16 hlt
  rw [hhigh, hlow] at hjoin
  simp only [read16, byteAt, h0, h1, maskShift, hjoin, keep]

theorem read32_eq {data : List Byte} {i : ℕ} {n : ℤ} (h0 : data.getD i 0 = maskShift n 0x7F000000 24)
    (h1 : data.getD (i + 1) 0 = maskShift n 0x00FF0000 16)
    (h2 : data.getD (i + 2) 0 = maskShift n 0x0000FF00 8)
    (h3 : data.getD (i + 3) 0 = maskShift n 0x000000FF 0) : read32 data i = keep 0x7FFFFFFF n := by
  have hlt : (toInt32 n &&& 0x7FFFFFFF).toNat < 2 ^ 31 := toNat_and_lt _ (by decide)
  have hkeep : ∀ mask : BitVec 32, 0x7FFFFFFF &&& mask = mask →
      toInt32 n &&& 0x7FFFFFFF &&& mask = toInt32 n &&& mask := by
    intro mask hmask
    rw [BitVec.and_assoc, hmask]
  have hjoin := join32 hlt
  rw [hkeep _ rfl, hkeep _ rfl, hkeep _ rfl, hkeep _ rfl] at hjoin
  simp only [read32, byteAt, h0, h1, h2, h3, maskShift, hjoin, keep]

/-- A pattern of `w` bits is a number that fits them. -/
theorem fitsBits_toInt {w : ℕ} (hw : w ≤ 31) {x : BitVec 32} (h : x.toNat < 2 ^ w) : FitsBits w x.toInt := by
  have hpow : 2 ^ w ≤ 2 ^ 31 := Nat.pow_le_pow_right (by decide) hw
  have hint : x.toInt = x.toNat := BitVec.toInt_eq_toNat_of_lt (by omega)
  rw [hint]
  exact ⟨Int.natCast_nonneg _, by exact_mod_cast h⟩

/-- Nothing is cut off exactly the numbers that fit. -/
theorem keep_eq_self_iff {w : ℕ} (hw : w ≤ 31) {mask : BitVec 32} (hmask : mask.toNat = 2 ^ w - 1) {n : ℤ} :
    keep mask n = n ↔ FitsBits w n := by
  constructor
  · intro h
    have hlt : mask.toNat < 2 ^ w := by
      rw [hmask]
      exact Nat.sub_lt (Nat.two_pow_pos w) Nat.one_pos
    rw [← h]
    exact fitsBits_toInt hw (toNat_and_lt _ hlt)
  · intro h
    have hand : toInt32 n &&& mask = toInt32 n := by
      apply BitVec.eq_of_toNat_eq
      rw [BitVec.toNat_and, hmask, Nat.and_two_pow_sub_one_of_lt_two_pow (toInt32_toNat_lt hw h)]
    rw [keep, hand, toInt32_toInt hw h]

theorem Header.cut_eq_self_iff {h : Header} : h.cut = h ↔ h.Fits := by
  have h16 : ∀ {n : ℤ}, keep 0xFFFF n = n ↔ FitsBits 16 n := keep_eq_self_iff (by decide) rfl
  have h31 : ∀ {n : ℤ}, keep 0x7FFFFFFF n = n ↔ FitsBits 31 n := keep_eq_self_iff (by decide) rfl
  constructor
  · intro heq
    obtain ⟨h1, h2, h3, h4, h5, h6⟩ := (Header.mk.injEq ..).mp heq
    exact ⟨h16.mp h1, h16.mp h2, h16.mp h3, h16.mp h4, h31.mp h5, h31.mp h6⟩
  · rintro ⟨h1, h2, h3, h4, h5, h6⟩
    exact (Header.mk.injEq ..).mpr ⟨h16.mpr h1, h16.mpr h2, h16.mpr h3, h16.mpr h4, h31.mpr h5, h31.mpr h6⟩

/-- What is read back from a buffer that starts with the encoding of a header. -/
theorem decodeHeader_encodeHeader_eq (h : Header) (rest : List Byte) :
    decodeHeader (encodeHeader h ++ rest) = h.cut := by
  have e1 : read16 (encodeHeader h ++ rest) 0 = keep 0xFFFF h.messageId := read16_eq rfl rfl
  have e2 : read16 (encodeHeader h ++ rest) 2 = keep 0xFFFF h.chunkNum := read16_eq rfl rfl
  have e3 : read16 (encodeHeader h ++ rest) 4 = keep 0xFFFF h.totalChunks := read16_eq rfl rfl
  have e4 : read16 (encodeHeader h ++ rest) 6 = keep 0xFFFF h.senderIdSizeBytes := read16_eq rfl rfl
  have e5 : read32 (encodeHeader h ++ rest) 8 = keep 0x7FFFFFFF h.chunkSizeBytes := read32_eq rfl rfl rfl rfl
  have e6 : read32 (encodeHeader h ++ rest) 12 = keep 0x7FFFFFFF h.totalSizeBytes := read32_eq rfl rfl rfl rfl
  simp only [decodeHeader, Header.cut, e1, e2, e3, e4, e5, e6]

theorem totalChunks_decodeHeader (h : Header) (rest : List Byte) :
    (decodeHeader (encodeHeader h ++ rest)).totalChunks = (toInt32 h.totalChunks &&& 0xFFFF).toInt := by
  rw [decodeHeader_encodeHeader_eq]
  rfl

/-- **A header is read back exactly if it fits.** -/
theorem decodeHeader_encodeHeader_iff (h : Header) (rest : List Byte) :
    decodeHeader (encodeHeader h ++ rest) = h ↔ h.Fits := by
  rw [decodeHeader_encodeHeader_eq, Header.cut_eq_self_iff]

/-- **Header round trip**, with anything behind the header. -/
theorem decodeHeader_encodeHeader {h : Header} (hf : h.Fits) (rest : List Byte) :
    decodeHeader (encodeHeader h ++ rest) = h :=
  (decodeHeader_encodeHeader_iff h rest).mpr hf

/-! ### Arrays of 16 bytes -/

/-- Two bytes that are put together come apart again. -/
theorem split16 (a c : Byte) :
    toUint8 (((a.setWidth 32 <<< 8 ||| c.setWidth 32) &&& 0xFF00).sshiftRight 8) = a ∧
      toUint8 (((a.setWidth 32 <<< 8 ||| c.setWidth 32) &&& 0x00FF).sshiftRight 0) = c := by
  constructor <;>
  · ext i hi
    simp only [toUint8, BitVec.getElem_setWidth, BitVec.getLsbD_sshiftRight, BitVec.getLsbD_and,
      BitVec.getLsbD_or, BitVec.getLsbD_shiftLeft, BitVec.getLsbD_setWidth]
    interval_cases i <;> simp +decide [BitVec.getLsbD_eq_getElem]

/-- So do four, of which the first has its top bit clear: `encodeHeader` masks this bit out. -/
theorem split32 {a : Byte} (ha : a.toNat < 128) (c d e : Byte) :
    let x : BitVec 32 := a.setWidth 32 <<< 24 ||| c.setWidth 32 <<< 16 ||| d.setWidth 32 <<< 8 ||| e.setWidth 32
    toUint8 ((x &&& 0x7F000000).sshiftRight 24) = a ∧ toUint8 ((x &&& 0x00FF0000).sshiftRight 16) = c ∧
      toUint8 ((x &&& 0x0000FF00).sshiftRight 8) = d ∧ toUint8 ((x &&& 0x000000FF).sshiftRight 0) = e := by
  have hz : a.toNat.testBit 7 = false := Nat.testBit_lt_two_pow ha
  intro x
  refine ⟨?_, ?_, ?_, ?_⟩ <;>
  · ext i hi
    simp only [x, toUint8, BitVec.getElem_setWidth, BitVec.getLsbD_sshiftRight, BitVec.getLsbD_and,
      BitVec.getLsbD_or, BitVec.getLsbD_shiftLeft, BitVec.getLsbD_setWidth]
    interval_cases i <;> simp +decide [BitVec.getLsbD_eq_getElem, BitVec.getElem_eq_testBit_toNat, hz]

theorem maskShift_read16 (data : List Byte) (i : ℕ) :
    maskShift (read16 data i) 0xFF00 8 = data.getD i 0 ∧
      maskShift (read16 data i) 0x00FF 0 = data.getD (i + 1) 0 := by
  simp only [maskShift, toInt32, read16, BitVec.ofInt_toInt]
  exact split16 _ _

theorem maskShift_read32 {data : List Byte} {i : ℕ} (h : (data.getD i 0).toNat < 128) :
    maskShift (read32 data i) 0x7F000000 24 = data.getD i 0 ∧
      maskShift (read32 data i) 0x00FF0000 16 = data.getD (i + 1) 0 ∧
      maskShift (read32 data i) 0x0000FF00 8 = data.getD (i + 2) 0 ∧
      maskShift (read32 data i) 0x000000FF 0 = data.getD (i + 3) 0 := by
  simp only [maskShift, toInt32, read32, BitVec.ofInt_toInt]
  exact split32 h _ _ _

/-- The top bit of the first byte is the sign. -/
theorem read32_neg_iff (data : List Byte) (i : ℕ) : read32 data i < 0 ↔ 128 ≤ (data.getD i 0).toNat := by
  have hmsb : (byteAt data i <<< 24 ||| byteAt data (i + 1) <<< 16 ||| byteAt data (i + 2) <<< 8 |||
      byteAt data (i + 3)).msb = (data.getD i 0).msb := by
    simp only [byteAt, BitVec.msb_eq_getLsbD_last, BitVec.getLsbD_or, BitVec.getLsbD_shiftLeft,
      BitVec.getLsbD_setWidth]
    simp
  have hint := BitVec.msb_eq_toInt (x := byteAt data i <<< 24 ||| byteAt data (i + 1) <<< 16 |||
    byteAt data (i + 2) <<< 8 ||| byteAt data (i + 3))
  rw [hmsb, BitVec.msb_eq_decide] at hint
  exact (decide_eq_decide.mp hint).symm

/-- An array of 16 bytes with the top bits of both sizes clear. -/
structure HeaderBytes (data : List Byte) : Prop where
  length : data.length = headerSizeBytes
  chunkSize : (data.getD 8 0).toNat < 128
  totalSize : (data.getD 12 0).toNat < 128

/-- **Round trip of the bytes.** -/
theorem encodeHeader_decodeHeader {data : List Byte} (h : HeaderBytes data) :
    encodeHeader (decodeHeader data) = data := by
  have hdata : (List.range headerSizeBytes).map (fun i => data.getD i 0) = data := by
    rw [← h.length]
    apply List.ext_getElem
    · simp
    · intro i _ hi
      simp [hi]
  have e1 := maskShift_read16 data 0
  have e2 := maskShift_read16 data 2
  have e3 := maskShift_read16 data 4
  have e4 := maskShift_read16 data 6
  have e5 := maskShift_read32 h.chunkSize
  have e6 := maskShift_read32 h.totalSize
  calc encodeHeader (decodeHeader data)
      = (List.range headerSizeBytes).map (fun i => data.getD i 0) := by
        simp only [encodeHeader, decodeHeader, e1, e2, e3, e4, e5, e6]
        rfl
    _ = data := hdata

theorem headerBytes_encodeHeader {h : Header} (hf : h.Fits) : HeaderBytes (encodeHeader h) := by
  have hback := decodeHeader_encodeHeader hf []
  rw [List.append_nil] at hback
  have h8 := read32_neg_iff (encodeHeader h) 8
  have h12 := read32_neg_iff (encodeHeader h) 12
  rw [show read32 (encodeHeader h) 8 = h.chunkSizeBytes from congrArg Header.chunkSizeBytes hback] at h8
  rw [show read32 (encodeHeader h) 12 = h.totalSizeBytes from congrArg Header.totalSizeBytes hback] at h12
  have hchunk := hf.chunkSizeBytes.1
  have htotal := hf.totalSizeBytes.1
  exact ⟨rfl, by omega, by omega⟩

/-- What is decoded from such an array fits, since it is read back from its own encoding. -/
theorem fits_decodeHeader {data : List Byte} (h : HeaderBytes data) : (decodeHeader data).Fits := by
  rw [← decodeHeader_encodeHeader_iff _ [], List.append_nil, encodeHeader_decodeHeader h]

/-- **The header codec is a bijection** between the headers that fit and the arrays of 16 bytes whose bytes 8 and 12 are
below 128, with `decodeHeader` the inverse.  In any other array a byte 8 or 12 from 128 on makes its size negative. -/
theorem header_codec :
    (∀ h : Header, h.Fits → decodeHeader (encodeHeader h) = h) ∧
      (∀ data : List Byte, data.length = headerSizeBytes → (data.getD 8 0).toNat < 128 →
        (data.getD 12 0).toNat < 128 → encodeHeader (decodeHeader data) = data) ∧
      (∀ data : List Byte, data.length = headerSizeBytes →
        ((decodeHeader data).chunkSizeBytes < 0 ↔ 128 ≤ (data.getD 8 0).toNat) ∧
        ((decodeHeader data).totalSizeBytes < 0 ↔ 128 ≤ (data.getD 12 0).toNat)) ∧
      Set.BijOn encodeHeader {h | h.Fits} {data | HeaderBytes data} := by
  have hleft : ∀ h : Header, h.Fits → decodeHeader (encodeHeader h) = h := by
    intro h hf
    have hback := decodeHeader_encodeHeader hf []
    rwa [List.append_nil] at hback
  have hright : ∀ data, HeaderBytes data → encodeHeader (decodeHeader data) = data := fun _ =>
    encodeHeader_decodeHeader
  have hinv : Set.InvOn decodeHeader encodeHeader {h | h.Fits} {data | HeaderBytes data} := ⟨hleft, hright⟩
  refine ⟨hleft, fun data hlen h8 h12 => hright data ⟨hlen, h8, h12⟩, fun data _ => ?_, ?_⟩
  · exact ⟨read32_neg_iff data 8, read32_neg_iff data 12⟩
  · apply hinv.bijOn
    · intro h hf
      exact headerBytes_encodeHeader hf
    · intro data hdata
      exact fits_decodeHeader hdata

/-- The header of the test, and an array with a negative size. -/
theorem header_codec_example :
    decodeHeader (encodeHeader ⟨0xEFA1, 0xABCD, 2, 0xFAEB, 0x7FABCDEF, 0x7FDACD56⟩) =
        ⟨0xEFA1, 0xABCD, 2, 0xFAEB, 0x7FABCDEF, 0x7FDACD56⟩ ∧
      (decodeHeader (List.replicate 16 128)).totalSizeBytes < 0 :=
  ⟨header_codec.1 _ (by decide), ((header_codec.2.2.1 _ (by decide)).2).mpr (by decide)⟩

end Meeting.Codec
