import Mathlib.Tactic.Common
import Mathlib.Data.UInt

/-!
# Meeting.Lib.GoStrings — Go strings as bytes, and the runes that `range` finds in them

A Go string is a sequence of bytes.  A `for i, r := range s` loop decodes it as UTF-8: `i` is the position of the first
byte of a rune, and a byte that starts no well-formed encoding counts as U+FFFD and as one byte (`decodeRune`).

* `decodeRune_of_lt`, `rune_ge`: a byte below 0x80 is a rune of its own, and any other byte starts a rune that is not
  below 0x80;
* `range_of_ascii`: the runes of an ASCII string are its bytes.

`atoi` is `strconv.Atoi` for an `int` of `intSize` bits.
-/

namespace Meeting.Lib

abbrev GoString := List UInt8

namespace GoString

/-- The bytes of a string literal. -/
def ofString (s : String) : GoString := s.toUTF8.toList

/-- U+FFFD, which stands for a byte that is not UTF-8. -/
def runeError : ℕ := 0xFFFD

/-- The smallest second byte after the first byte `b`: no overlong encodings. -/
def secondLo (b : UInt8) : UInt8 := if b = 0xE0 then 0xA0 else if b = 0xF0 then 0x90 else 0x80

/-- The largest second byte after the first byte `b`: no surrogates, nothing above U+10FFFF. -/
def secondHi (b : UInt8) : UInt8 := if b = 0xED then 0x9F else if b = 0xF4 then 0x8F else 0xBF

def isCont (b : UInt8) : Bool := 0x80 ≤ b && b ≤ 0xBF

/-- The six bits of a continuation byte. -/
def contBits (b : UInt8) : ℕ := b.toNat % 64

def decodeTwo (b : UInt8) : GoString → ℕ × ℕ
  | b1 :: _ => if isCont b1 then (b.toNat % 32 * 64 + contBits b1, 2) else (runeError, 1)
  | [] => (runeError, 1)

def decodeThree (b : UInt8) : GoString → ℕ × ℕ
  | b1 :: b2 :: _ =>
    if secondLo b ≤ b1 ∧ b1 ≤ secondHi b ∧ isCont b2 then
      (b.toNat % 16 * 4096 + contBits b1 * 64 + contBits b2, 3)
    else (runeError, 1)
  | _ => (runeError, 1)

def decodeFour (b : UInt8) : GoString → ℕ × ℕ
  | b1 :: b2 :: b3 :: _ =>
    if secondLo b ≤ b1 ∧ b1 ≤ secondHi b ∧ isCont b2 ∧ isCont b3 then
      (b.toNat % 8 * 262144 + contBits b1 * 4096 + contBits b2 * 64 + contBits b3, 4)
    else (runeError, 1)
  | _ => (runeError, 1)

/-- `utf8.DecodeRuneInString` of a string with first byte `b`: the rune and its number of bytes. -/
def decodeRune (b : UInt8) (rest : GoString) : ℕ × ℕ :=
  if b < 0x80 then (b.toNat, 1)
  else if b < 0xC2 then (runeError, 1)
  else if b < 0xE0 then decodeTwo b rest
  else if b < 0xF0 then decodeThree b rest
  else if b < 0xF5 then decodeFour b rest
  else (runeError, 1)

/-- The pairs of a `range` loop from position `i` on, with `skip` more bytes of the rune before. -/
def rangeFrom : ℕ → ℕ → GoString → List (ℕ × ℕ)
  | _, _, [] => []
  | skip + 1, i, _ :: rest => rangeFrom skip (i + 1) rest
  | 0, i, b :: rest => (i, (decodeRune b rest).1) :: rangeFrom ((decodeRune b rest).2 - 1) (i + 1) rest

/-- The pairs of position and rune of `for i, r := range s`. -/
def range (s : GoString) : List (ℕ × ℕ) := rangeFrom 0 0 s

/-- `string(r)` of a rune. -/
def ofRune (r : ℕ) : GoString :=
  if r < 0x80 then [UInt8.ofNat r]
  else if r < 0x800 then [UInt8.ofNat (0xC0 + r / 64), UInt8.ofNat (0x80 + r % 64)]
  else if r < 0x10000 then
    [UInt8.ofNat (0xE0 + r / 4096), UInt8.ofNat (0x80 + r / 64 % 64), UInt8.ofNat (0x80 + r % 64)]
  else [UInt8.ofNat (0xF0 + r / 262144), UInt8.ofNat (0x80 + r / 4096 % 64), UInt8.ofNat (0x80 + r / 64 % 64),
    UInt8.ofNat (0x80 + r % 64)]

theorem decodeRune_of_lt {b : UInt8} (h : b < 0x80) (rest : GoString) : decodeRune b rest = (b.toNat, 1) := by
  unfold decodeRune
  rw [if_pos h]

theorem runeError_ge : 128 ≤ runeError := by decide

theorem decodeTwo_ge {b : UInt8} (hlo : 194 ≤ b.toNat) (hhi : b.toNat < 224) (rest : GoString) :
    128 ≤ (decodeTwo b rest).1 := by
  unfold decodeTwo
  split
  · split_ifs
    · show 128 ≤ b.toNat % 32 * 64 + _
      omega
    · exact runeError_ge
  · exact runeError_ge

theorem secondHi_le (b : UInt8) : (secondHi b).toNat ≤ 191 := by
  unfold secondHi
  split_ifs <;> decide

theorem decodeThree_ge {b : UInt8} (hlo : 224 ≤ b.toNat) (hhi : b.toNat < 240) (rest : GoString) :
    128 ≤ (decodeThree b rest).1 := by
  unfold decodeThree
  split
  · next b1 b2 _ =>
    split_ifs with hcont
    · show 128 ≤ b.toNat % 16 * 4096 + contBits b1 * 64 + contBits b2
      -- after 0xE0 the second byte is at least 0xA0
      by_cases he : b = 0xE0
      · have hlow : 160 ≤ b1.toNat := by
          have hle := UInt8.le_iff_toNat_le.mp hcont.1
          rw [he] at hle
          exact hle
        have hhigh := (UInt8.le_iff_toNat_le.mp hcont.2.1).trans (secondHi_le b)
        have hbits : 32 ≤ contBits b1 := by
          unfold contBits
          omega
        omega
      · have hne : b.toNat ≠ 224 := fun heq => he (UInt8.toNat_inj.mp heq)
        omega
    · exact runeError_ge
  · exact runeError_ge

theorem decodeFour_ge {b : UInt8} (hlo : 240 ≤ b.toNat) (hhi : b.toNat < 245) (rest : GoString) :
    128 ≤ (decodeFour b rest).1 := by
  unfold decodeFour
  split
  · next b1 b2 b3 _ =>
    split_ifs with hcont
    · show 128 ≤ b.toNat % 8 * 262144 + contBits b1 * 4096 + contBits b2 * 64 + contBits b3
      -- after 0xF0 the second byte is at least 0x90
      by_cases he : b = 0xF0
      · have hlow : 144 ≤ b1.toNat := by
          have hle := UInt8.le_iff_toNat_le.mp hcont.1
          rw [he] at hle
          exact hle
        have hhigh := (UInt8.le_iff_toNat_le.mp hcont.2.1).trans (secondHi_le b)
        have hbits : 16 ≤ contBits b1 := by
          unfold contBits
          omega
        omega
      · have hne : b.toNat ≠ 240 := fun heq => he (UInt8.toNat_inj.mp heq)
        omega
    · exact runeError_ge
  · exact runeError_ge

/-- A byte that is not ASCII starts a rune that is not ASCII. -/
theorem rune_ge {b : UInt8} (h : ¬ b < 0x80) (rest : GoString) : 128 ≤ (decodeRune b rest).1 := by
  unfold decodeRune
  rw [if_neg h]
  split_ifs with h1 h2 h3 h4
  · exact runeError_ge
  · exact decodeTwo_ge (UInt8.le_iff_toNat_le.mp (UInt8.not_lt.mp h1)) (UInt8.lt_iff_toNat_lt.mp h2) rest
  · exact decodeThree_ge (UInt8.le_iff_toNat_le.mp (UInt8.not_lt.mp h2)) (UInt8.lt_iff_toNat_lt.mp h3) rest
  · exact decodeFour_ge (UInt8.le_iff_toNat_le.mp (UInt8.not_lt.mp h3)) (UInt8.lt_iff_toNat_lt.mp h4) rest
  · exact runeError_ge

theorem rangeFrom_of_ascii : ∀ (s : GoString) (i : ℕ), (∀ b ∈ s, b < 0x80) →
    rangeFrom 0 i s = (s.zipIdx i).map fun x => (x.2, x.1.toNat)
  | [], _, _ => rfl
  | b :: rest, i, h => by
    have hb := h b List.mem_cons_self
    have hrest := rangeFrom_of_ascii rest (i + 1) fun b' hb' => h b' (List.mem_cons_of_mem _ hb')
    rw [rangeFrom, decodeRune_of_lt hb]
    exact congrArg (List.cons (i, b.toNat)) hrest

/-- **The runes of an ASCII string** are its bytes, each at its position. -/
theorem range_of_ascii {s : GoString} (h : ∀ b ∈ s, b < 0x80) :
    range s = s.zipIdx.map fun x => (x.2, x.1.toNat) :=
  rangeFrom_of_ascii s 0 h

theorem map_snd_range {s : GoString} (h : ∀ b ∈ s, b < 0x80) : s.range.map Prod.snd = s.map UInt8.toNat := by
  rw [range_of_ascii h, List.map_map]
  show s.zipIdx.map (UInt8.toNat ∘ Prod.fst) = _
  rw [← List.map_map, List.zipIdx_map_fst]

/-- A string has a rune that is none of the ASCII bytes `A` exactly if it has a byte that is none of them. -/
theorem exists_rune_notMem {A : GoString} (hA : ∀ b ∈ A, b < 0x80) : ∀ (s : GoString) (i : ℕ),
    (∃ x ∈ rangeFrom 0 i s, x.2 ∉ A.map UInt8.toNat) ↔ ∃ b ∈ s, b ∉ A
  | [], _ => by simp [rangeFrom]
  | b :: rest, i => by
    by_cases hb : b ∈ A
    · have hlt := hA b hb
      have hmem : b.toNat ∈ A.map UInt8.toNat := List.mem_map_of_mem hb
      rw [rangeFrom, decodeRune_of_lt hlt]
      have ih := exists_rune_notMem hA rest (i + 1)
      simp only [List.exists_mem_cons_iff, hmem, hb, not_true_eq_false, false_or]
      exact ih
    · refine iff_of_true ⟨(i, (decodeRune b rest).1), by rw [rangeFrom]; exact List.mem_cons_self, ?_⟩
        ⟨b, List.mem_cons_self, hb⟩
      intro hin
      obtain ⟨b', hb', heq⟩ := List.mem_map.mp hin
      by_cases hlt : b < 0x80
      · rw [decodeRune_of_lt hlt] at heq
        exact hb (UInt8.toNat_inj.mp heq ▸ hb')
      · have hge := rune_ge hlt rest
        have hsmall := UInt8.lt_iff_toNat_lt.mp (hA b' hb')
        rw [show (0x80 : UInt8).toNat = 128 from rfl] at hsmall
        dsimp only at heq
        omega

example : range (ofString "a€b") = [(0, 97), (1, 0x20AC), (4, 98)] := by decide +kernel

/-! ### Numbers -/

/-- The number that decimal digits stand for, with the digits before them. -/
def parseDigits : GoString → ℕ → Option ℕ
  | [], n => some n
  | b :: rest, n => if 0x30 ≤ b ∧ b ≤ 0x39 then parseDigits rest (n * 10 + (b.toNat - 0x30)) else none

/-- `strconv.Atoi`: a sign, if there is one, and then one digit at least; `none` where it returns an error, which it
does for a number out of range, too. -/
def atoi (intSize : ℕ) (s : GoString) : Option ℤ :=
  let digits := if s.head? = some 0x2D ∨ s.head? = some 0x2B then s.tail else s
  if digits = [] then none
  else (parseDigits digits 0).bind fun un =>
    let n : ℤ := if s.head? = some 0x2D then -un else un
    if -2 ^ (intSize - 1) ≤ n ∧ n < 2 ^ (intSize - 1) then some n else none

theorem atoi_nil (intSize : ℕ) : atoi intSize [] = none := rfl

example : [atoi 32 (ofString "6379"), atoi 32 (ofString "-0"), atoi 32 (ofString "3000x"), atoi 32 (ofString "+"),
    atoi 32 (ofString "2147483648"), atoi 64 (ofString "2147483648")] =
      [some 6379, some 0, none, none, none, some 2147483648] := by decide +kernel

end GoString

end Meeting.Lib
