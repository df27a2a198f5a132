import Mathlib.Data.List.GetD
import Mathlib.Data.Nat.Digits.Defs
import Mathlib.Tactic
import Meeting.Lib.GoStrings
import Meeting.Lib.Lists

/-!
# Meeting.Ids.BaseN — ids in base N (`basen.go`, `uuid.go`)

`encode` divides the number that the bytes stand for again and again, and writes the digit of the lowest order first;
`decode` adds up powers of the base, one for each position of the string.  `big.Int` is `ℕ`: `setBytes` and `bytes` are
its big-endian bytes.  A loop that does not end, or an index that is out of range, is `none`.

* `encode_eq`: with two characters or more, the characters of the digits of the number;
* `decode_eq`: on a string over the alphabet, the number with these digits;
* `baseN_codec`: what one of them makes, the other one undoes, up to leading zeros.
-/

namespace Meeting.Ids

open Lib

def alphabetBase62 : GoString := GoString.ofString "0123456789abcdefghijklmnopqrstuvwxyzABCDEFGHIJKLMNOPQRSTUVWXYZ"

/-- `big.Int.SetBytes`. -/
def setBytes (data : List UInt8) : ℕ := data.foldl (fun value b => value * 256 + b.toNat) 0

/-- `big.Int.Bytes`: no leading zeros, and nothing at all for 0. -/
def bytes (value : ℕ) : List UInt8 := ((Nat.digits 256 value).map UInt8.ofNat).reverse

structure BaseNEncoder where
  alphabet : GoString

/-- The loop of `Encode`: `none` when it runs out of fuel, and when an index is out of range. -/
def encodeLoop (alphabet : GoString) : ℕ → ℕ → GoString → Option GoString
  | 0, _, _ => none
  | fuel + 1, value, result =>
    if value ≠ 0 then do
      let char ← alphabet[value % alphabet.length]?
      encodeLoop alphabet fuel (value / alphabet.length) (result ++ [char])
    else some result

/-- `BaseNEncoder.Encode`: every turn halves the value at least, so that a turn for each bit is enough. -/
def BaseNEncoder.encode (e : BaseNEncoder) (data : List UInt8) : Option GoString :=
  encodeLoop e.alphabet (8 * data.length + 1) (setBytes data) []

structure BaseNDecoder where
  alphabet : GoString
  runeToValue : ℕ → Option ℕ

def newBaseNDecoder (alphabet : GoString) : BaseNDecoder where
  alphabet
  runeToValue := alphabet.range.foldl (fun runeToValue x => Function.update runeToValue x.2 (some x.1)) fun _ => none

/-- The loop of `Decode` over the positions and runes that are left. -/
def decodeLoop (d : BaseNDecoder) : List (ℕ × ℕ) → ℕ → Except GoString ℕ
  | [], value => .ok value
  | (i, r) :: rest, value =>
    match d.runeToValue r with
    | none => .error (GoString.ofString "Character " ++ GoString.ofRune r ++
        GoString.ofString " not found in alphabet: " ++ d.alphabet)
    | some val => decodeLoop d rest (value + val * d.alphabet.length ^ i)

def BaseNDecoder.decode (d : BaseNDecoder) (data : GoString) : Except GoString (List UInt8) :=
  (decodeLoop d data.range 0).map bytes

def defaultBaseNEncoder : BaseNEncoder := ⟨alphabetBase62⟩

/-- `NewUUIDBase62` with the 16 bytes that `uuid.New` returns. -/
def newUUIDBase62 (value : List.Vector UInt8 16) : Option GoString := defaultBaseNEncoder.encode value.toList

/-! ### Bytes of a number -/

theorem setBytes_eq_ofDigits (data : List UInt8) : setBytes data = Nat.ofDigits 256 (data.reverse.map UInt8.toNat) := by
  rw [Nat.ofDigits_eq_foldr, List.foldr_map, List.foldr_reverse]
  unfold setBytes
  congr 1
  funext value b
  push_cast
  ring

theorem setBytes_cons_zero (data : List UInt8) : setBytes (0 :: data) = setBytes data := rfl

theorem setBytes_lt (data : List UInt8) : setBytes data < 2 ^ (8 * data.length) := by
  have hlt := Nat.ofDigits_lt_base_pow_length (b := 256) (l := data.reverse.map UInt8.toNat) (by decide) (by
    intro x hx
    obtain ⟨b, -, rfl⟩ := List.mem_map.mp hx
    exact b.toNat_lt)
  rw [List.length_map, List.length_reverse] at hlt
  rw [setBytes_eq_ofDigits, pow_mul]
  exact hlt

theorem setBytes_bytes (value : ℕ) : setBytes (bytes value) = value := by
  have hsame : (Nat.digits 256 value).map (UInt8.toNat ∘ UInt8.ofNat) = Nat.digits 256 value := by
    conv_rhs => rw [← List.map_id (Nat.digits 256 value)]
    refine List.map_congr_left fun x hx => ?_
    exact UInt8.toNat_ofNat_of_lt' (Nat.digits_lt_base (by decide) hx)
  rw [setBytes_eq_ofDigits, bytes, List.reverse_reverse, List.map_map, hsame, Nat.ofDigits_digits]

/-- **Bytes to a number and back**: what is lost are the leading zeros. -/
theorem bytes_setBytes (data : List UInt8) : bytes (setBytes data) = data.dropWhile (· = 0) := by
  induction data with
  | nil => simp [bytes, setBytes]
  | cons b data ih =>
    by_cases hb : b = 0
    · subst hb
      rw [setBytes_cons_zero, ih, List.dropWhile_cons_of_pos (by decide)]
    · -- the first byte is the digit of the highest order
      have hdigits : Nat.digits 256 (setBytes (b :: data)) = (b :: data).reverse.map UInt8.toNat := by
        rw [setBytes_eq_ofDigits]
        refine Nat.digits_ofDigits 256 (by decide) _ (fun x hx => ?_) fun hne => ?_
        · obtain ⟨c, -, rfl⟩ := List.mem_map.mp hx
          exact c.toNat_lt
        · simp only [List.reverse_cons, List.map_append, List.map_cons, List.map_nil, List.getLast_append_of_ne_nil,
            ne_eq, List.cons_ne_self, not_false_eq_true, List.getLast_singleton]
          exact fun h => hb (UInt8.toNat_inj.mp h)
      rw [bytes, hdigits, List.map_map, List.dropWhile_cons_of_neg (by simpa using hb)]
      simp [Function.comp_def]

/-- Bytes of one length are the same if they are up to leading zeros. -/
theorem eq_of_dropWhile_eq {d d' : List UInt8} (hlen : d.length = d'.length)
    (h : d.dropWhile (· = 0) = d'.dropWhile (· = 0)) : d = d' := by
  have hzeros : ∀ l : List UInt8, l = List.replicate (l.length - (l.dropWhile (· = 0)).length) 0 ++
      l.dropWhile (· = 0) := by
    intro l
    have htake : l.takeWhile (· = 0) = List.replicate (l.takeWhile (· = 0)).length 0 :=
      List.eq_replicate_of_mem fun b hb => of_decide_eq_true (List.all_eq_true.mp List.all_takeWhile b hb)
    have happend := List.takeWhile_append_dropWhile (p := fun b : UInt8 => decide (b = 0)) (l := l)
    have hlength := congrArg List.length happend
    rw [List.length_append] at hlength
    rw [show l.length - (l.dropWhile (· = 0)).length = (l.takeWhile (· = 0)).length by omega, ← htake]
    exact happend.symm
  rw [hzeros d, hzeros d', h, hlen]

/-! ### The encoder -/

/-- **The loop of `Encode` terminates**, and appends the characters of the digits of the value. -/
theorem encodeLoop_eq {alphabet : GoString} (hbase : 2 ≤ alphabet.length) : ∀ (fuel value : ℕ) (result : GoString),
    value < 2 ^ fuel → encodeLoop alphabet (fuel + 1) value result =
      some (result ++ (Nat.digits alphabet.length value).map fun digit => alphabet.getD digit 0) := by
  intro fuel
  induction fuel with
  | zero =>
    intro value result h
    obtain rfl : value = 0 := by omega
    simp [encodeLoop]
  | succ fuel ih =>
    intro value result h
    rw [encodeLoop]
    by_cases hzero : value = 0
    · subst hzero
      simp
    · have hmod : value % alphabet.length < alphabet.length := Nat.mod_lt _ (by omega)
      have hhalf : value / alphabet.length < 2 ^ fuel := by
        rw [Nat.div_lt_iff_lt_mul (by omega)]
        calc value < 2 ^ fuel * 2 := by rw [← pow_succ]; exact h
          _ ≤ 2 ^ fuel * alphabet.length := Nat.mul_le_mul_left _ hbase
      rw [if_pos hzero, List.getElem?_eq_getElem hmod, Nat.digits_def' (by omega) (Nat.pos_of_ne_zero hzero)]
      show encodeLoop alphabet (fuel + 1) _ _ = _
      rw [ih _ _ hhalf, List.map_cons, List.getD_eq_getElem _ _ hmod, List.append_assoc]
      rfl

theorem encode_eq {alphabet : GoString} (hbase : 2 ≤ alphabet.length) (data : List UInt8) :
    BaseNEncoder.encode ⟨alphabet⟩ data =
      some ((Nat.digits alphabet.length (setBytes data)).map fun digit => alphabet.getD digit 0) :=
  encodeLoop_eq hbase _ _ _ (setBytes_lt data)

/-! ### The decoder -/

section Decoder

variable {alphabet : GoString}

variable (hascii : ∀ b ∈ alphabet, b < 0x80)
include hascii

theorem runeToValue_of_mem (hnodup : alphabet.Nodup) {b : UInt8} (hb : b ∈ alphabet) :
    (newBaseNDecoder alphabet).runeToValue b.toNat = some (alphabet.idxOf b) := by
  refine foldl_update_of_mem _ _ (alphabet.idxOf b, b.toNat) ?_ ?_
  · rw [GoString.map_snd_range hascii]
    exact hnodup.map fun _ _ h => UInt8.toNat_inj.mp h
  · rw [GoString.range_of_ascii hascii]
    refine List.mem_map.mpr ⟨(b, alphabet.idxOf b), ?_, rfl⟩
    rw [List.mem_zipIdx_iff_getElem?]
    exact List.getElem?_idxOf hb

theorem runeToValue_of_notMem {r : ℕ} (hr : r ∉ alphabet.map UInt8.toNat) :
    (newBaseNDecoder alphabet).runeToValue r = none := by
  refine foldl_update_of_notMem _ _ r ?_
  rw [GoString.map_snd_range hascii]
  exact hr

/-- The loop of `Decode` fails exactly if there is a rune that is not in the alphabet. -/
theorem decodeLoop_error_iff (hnodup : alphabet.Nodup) : ∀ (l : List (ℕ × ℕ)) (value : ℕ),
    (∃ err, decodeLoop (newBaseNDecoder alphabet) l value = .error err) ↔ ∃ x ∈ l, x.2 ∉ alphabet.map UInt8.toNat
  | [], value => by simp [decodeLoop]
  | (i, r) :: rest, value => by
    rw [decodeLoop, List.exists_mem_cons_iff]
    by_cases hr : r ∈ alphabet.map UInt8.toNat
    · obtain ⟨b, hb, rfl⟩ := List.mem_map.mp hr
      rw [runeToValue_of_mem hascii hnodup hb, decodeLoop_error_iff hnodup rest]
      exact (or_iff_right (not_not.mpr hr)).symm
    · rw [runeToValue_of_notMem hascii hr]
      exact iff_of_true ⟨_, rfl⟩ (Or.inl hr)

/-- The loop of `Decode` adds up the digits of a string over the alphabet. -/
theorem decodeLoop_eq (hnodup : alphabet.Nodup) : ∀ (s : GoString) (i value : ℕ), (∀ b ∈ s, b ∈ alphabet) →
    decodeLoop (newBaseNDecoder alphabet) ((s.zipIdx i).map fun x => (x.2, x.1.toNat)) value =
      .ok (value + alphabet.length ^ i * Nat.ofDigits alphabet.length (s.map alphabet.idxOf))
  | [], i, value, _ => by simp [decodeLoop]
  | b :: s, i, value, h => by
    have hrest : ∀ b' ∈ s, b' ∈ alphabet := fun b' hb' => h b' (List.mem_cons_of_mem _ hb')
    rw [List.zipIdx_cons, List.map_cons, decodeLoop, runeToValue_of_mem hascii hnodup (h b List.mem_cons_self)]
    dsimp only
    rw [decodeLoop_eq hnodup s (i + 1) _ hrest, List.map_cons, Nat.ofDigits_cons,
      show (newBaseNDecoder alphabet).alphabet = alphabet from rfl]
    congr 1
    ring

theorem decode_eq (hnodup : alphabet.Nodup) {s : GoString} (hs : ∀ b ∈ s, b ∈ alphabet) :
    (newBaseNDecoder alphabet).decode s =
      .ok (bytes (Nat.ofDigits alphabet.length (s.map alphabet.idxOf))) := by
  unfold BaseNDecoder.decode
  rw [GoString.range_of_ascii fun b hb => hascii b (hs b hb), decodeLoop_eq hascii hnodup s 0 0 hs]
  simp [Except.map]

theorem decode_error_iff (hnodup : alphabet.Nodup) (s : GoString) :
    (∃ err, (newBaseNDecoder alphabet).decode s = .error err) ↔ ∃ x ∈ s.range, x.2 ∉ alphabet.map UInt8.toNat := by
  rw [← decodeLoop_error_iff hascii hnodup s.range 0]
  unfold BaseNDecoder.decode
  cases decodeLoop (newBaseNDecoder alphabet) s.range 0 with
  | error err => exact iff_of_true ⟨err, rfl⟩ ⟨err, rfl⟩
  | ok value => exact iff_of_false (fun ⟨_, h⟩ => by cases h) fun ⟨_, h⟩ => by cases h

end Decoder

/-! ### Round trips -/

section RoundTrips

variable {alphabet : GoString} (hbase : 2 ≤ alphabet.length)
include hbase

theorem getD_mem_of_digits {value digit : ℕ} (h : digit ∈ Nat.digits alphabet.length value) :
    alphabet.getD digit 0 ∈ alphabet := by
  have hlt : digit < alphabet.length := Nat.digits_lt_base (by omega) h
  rw [List.getD_eq_getElem _ _ hlt]
  exact List.getElem_mem hlt

/-- A digit is the place of its character. -/
theorem idxOf_digits (hnodup : alphabet.Nodup) (value : ℕ) :
    ((Nat.digits alphabet.length value).map fun digit => alphabet.getD digit 0).map alphabet.idxOf =
      Nat.digits alphabet.length value := by
  rw [List.map_map]
  conv_rhs => rw [← List.map_id (Nat.digits alphabet.length value)]
  refine List.map_congr_left fun digit h => ?_
  have hlt : digit < alphabet.length := Nat.digits_lt_base (by omega) h
  show alphabet.idxOf (alphabet.getD digit 0) = digit
  rw [List.getD_eq_getElem _ _ hlt]
  exact hnodup.idxOf_getElem digit hlt

theorem decode_encode (hnodup : alphabet.Nodup) (hascii : ∀ b ∈ alphabet, b < 0x80) (d : List UInt8) :
    ∃ s, BaseNEncoder.encode ⟨alphabet⟩ d = some s ∧
      (newBaseNDecoder alphabet).decode s = .ok (d.dropWhile (· = 0)) := by
  refine ⟨_, encode_eq hbase d, ?_⟩
  have hover : ∀ b ∈ (Nat.digits alphabet.length (setBytes d)).map fun digit => alphabet.getD digit 0,
      b ∈ alphabet := by
    intro b hb
    obtain ⟨digit, hdigit, rfl⟩ := List.mem_map.mp hb
    exact getD_mem_of_digits hbase hdigit
  rw [decode_eq hascii hnodup hover, idxOf_digits hbase hnodup, Nat.ofDigits_digits, bytes_setBytes]

theorem encode_decode (hnodup : alphabet.Nodup) (hascii : ∀ b ∈ alphabet, b < 0x80) {s : GoString}
    (hs : ∀ b ∈ s, b ∈ alphabet) (hlast : s.getLast? ≠ alphabet.head?) :
    ∃ d, (newBaseNDecoder alphabet).decode s = .ok d ∧ BaseNEncoder.encode ⟨alphabet⟩ d = some s := by
  refine ⟨_, decode_eq hascii hnodup hs, ?_⟩
  -- the digits of the number are those of the string, since the last of them is not 0
  have hdigits : Nat.digits alphabet.length (Nat.ofDigits alphabet.length (s.map alphabet.idxOf)) =
      s.map alphabet.idxOf := by
    refine Nat.digits_ofDigits _ (by omega) _ (fun digit hdigit => ?_) fun hne hzero => hlast ?_
    · obtain ⟨b, hb, rfl⟩ := List.mem_map.mp hdigit
      exact List.idxOf_lt_length_iff.mpr (hs b hb)
    · have hsne : s ≠ [] := fun h => hne (by rw [h]; rfl)
      rw [List.getLast_map] at hzero
      have hmem := hs _ (List.getLast_mem hsne)
      have hfirst := List.getElem?_idxOf hmem
      rw [hzero] at hfirst
      rw [List.getLast?_eq_some_getLast hsne, ← hfirst, List.head?_eq_getElem?]
  have hback : (s.map alphabet.idxOf).map (fun digit => alphabet.getD digit 0) = s := by
    rw [List.map_map]
    conv_rhs => rw [← List.map_id s]
    refine List.map_congr_left fun b hb => ?_
    show alphabet.getD (alphabet.idxOf b) 0 = b
    rw [List.getD_eq_getElem?_getD, List.getElem?_idxOf (hs b hb), Option.getD_some]
  rw [encode_eq hbase, setBytes_bytes, hdigits, hback]

theorem encode_injective {d d' : List UInt8} (hnodup : alphabet.Nodup) (hascii : ∀ b ∈ alphabet, b < 0x80)
    (hlen : d.length = d'.length) (h : BaseNEncoder.encode ⟨alphabet⟩ d = BaseNEncoder.encode ⟨alphabet⟩ d') :
    d = d' := by
  obtain ⟨s, hs, hd⟩ := decode_encode hbase hnodup hascii d
  obtain ⟨s', hs', hd'⟩ := decode_encode hbase hnodup hascii d'
  obtain rfl : s = s' := Option.some.inj (hs.symm.trans (h.trans hs'))
  exact eq_of_dropWhile_eq hlen (Except.ok.inj (hd.symm.trans hd'))

end RoundTrips

theorem two_le_length_alphabetBase62 : 2 ≤ alphabetBase62.length := by decide +kernel

theorem nodup_alphabetBase62 : alphabetBase62.Nodup := by decide +kernel

theorem ascii_alphabetBase62 : ∀ b ∈ alphabetBase62, b < 0x80 := by decide +kernel

/-- Different UUIDs have different ids. -/
theorem newUUIDBase62_injective : Function.Injective newUUIDBase62 := by
  intro u u' h
  have hlen : u.toList.length = u'.toList.length := by rw [u.toList_length, u'.toList_length]
  exact List.Vector.toList_injective
    (encode_injective two_le_length_alphabetBase62 nodup_alphabetBase62 ascii_alphabetBase62 hlen h)

/-- **The base-N codec**, for any alphabet of two or more different ASCII characters.  `Decode` undoes `Encode` up to
leading zeros, `Encode` undoes `Decode` on strings that do not end in a zero, `Decode` fails exactly on the strings with
a character that is not in the alphabet, and `Encode` tells bytes of the same length apart. -/
theorem baseN_codec {alphabet : GoString} (hbase : 2 ≤ alphabet.length) (hnodup : alphabet.Nodup)
    (hascii : ∀ b ∈ alphabet, b < 0x80) :
    (∀ d, ∃ s, BaseNEncoder.encode ⟨alphabet⟩ d = some s ∧
        (newBaseNDecoder alphabet).decode s = .ok (d.dropWhile (· = 0))) ∧
      (∀ s : GoString, (∀ b ∈ s, b ∈ alphabet) → s.getLast? ≠ alphabet.head? →
        ∃ d, (newBaseNDecoder alphabet).decode s = .ok d ∧ BaseNEncoder.encode ⟨alphabet⟩ d = some s) ∧
      (∀ s : GoString, (∃ err, (newBaseNDecoder alphabet).decode s = .error err) ↔
        ∃ x ∈ s.range, x.2 ∉ alphabet.map UInt8.toNat) ∧
      (∀ s : GoString, (∃ err, (newBaseNDecoder alphabet).decode s = .error err) ↔ ∃ b ∈ s, b ∉ alphabet) ∧
      (∀ d d' : List UInt8, d.length = d'.length →
        BaseNEncoder.encode ⟨alphabet⟩ d = BaseNEncoder.encode ⟨alphabet⟩ d' → d = d') ∧
      Function.Injective newUUIDBase62 := by
  refine ⟨decode_encode hbase hnodup hascii, fun s hs hlast => encode_decode hbase hnodup hascii hs hlast,
    decode_error_iff hascii hnodup, fun s => ?_, fun d d' hlen h => encode_injective hbase hnodup hascii hlen h,
    newUUIDBase62_injective⟩
  exact (decode_error_iff hascii hnodup s).trans (GoString.exists_rune_notMem hascii s 0)

/-- 62 characters, and bytes with a zero in front. -/
theorem baseN_codec_example : ∃ s, BaseNEncoder.encode ⟨alphabetBase62⟩ [0, 1, 0] = some s ∧
    s = GoString.ofString "84" ∧ (newBaseNDecoder alphabetBase62).decode s = .ok [1, 0] := by
  obtain ⟨s, hs, hd⟩ :=
    (baseN_codec two_le_length_alphabetBase62 nodup_alphabetBase62 ascii_alphabetBase62).1 [0, 1, 0]
  refine ⟨s, hs, ?_, hd⟩
  have hvalue : BaseNEncoder.encode ⟨alphabetBase62⟩ [0, 1, 0] = some (GoString.ofString "84") := by decide +kernel
  exact Option.some.inj (hs.symm.trans hvalue)

end Meeting.Ids
