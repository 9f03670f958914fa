import Mathlib.Tactic.Common
import PartCAD.Lib.Text

/-!
# Base64

Bytes as text, and the reader of such text that passes over what is not in the alphabet.

* `b64decode_b64encode` : the text of some bytes is read as these bytes.
-/

namespace PartCAD.Lib.Base64

/-- The character of six bits. -/
def alphabet (n : ℕ) : Char :=
  if n < 26 then Char.ofNat (n + 65)
  else if n < 52 then Char.ofNat (n + 71)
  else if n < 62 then Char.ofNat (n - 4)
  else if n = 62 then '+'
  else '/'

/-- The six bits of a character of the alphabet. -/
def sixBits (c : Char) : Option ℕ :=
  let n := c.toNat
  if 65 ≤ n ∧ n ≤ 90 then some (n - 65)
  else if 97 ≤ n ∧ n ≤ 122 then some (n - 71)
  else if 48 ≤ n ∧ n ≤ 57 then some (n + 4)
  else if n = 43 then some 62
  else if n = 47 then some 63
  else none

def byte (n : ℕ) : UInt8 := UInt8.ofNat n

/-- `base64.b64encode` -/
@[grind =]
def b64encode : Bytes → Str
  | a :: b :: c :: bs =>
    alphabet (a.toNat / 4) :: alphabet (a.toNat % 4 * 16 + b.toNat / 16) ::
      alphabet (b.toNat % 16 * 4 + c.toNat / 64) :: alphabet (c.toNat % 64) :: b64encode bs
  | [a, b] =>
    [alphabet (a.toNat / 4), alphabet (a.toNat % 4 * 16 + b.toNat / 16),
      alphabet (b.toNat % 16 * 4), '=']
  | [a] => [alphabet (a.toNat / 4), alphabet (a.toNat % 4 * 16), '=', '=']
  | [] => []

/-- The reader, with its place in a group of four, the bits that are left over and the number of
`=` just read. -/
@[grind =]
def b64decodeGo : ℕ → ℕ → ℕ → Str → Option Bytes
  | quad, _, _, [] => if quad = 0 then some [] else none
  | quad, left, pads, c :: s =>
    if c = '=' then
      if 2 ≤ quad then
        if 4 ≤ quad + (pads + 1) then some [] else b64decodeGo quad left (pads + 1) s
      else b64decodeGo quad left pads s
    else
      match sixBits c with
      | none => b64decodeGo quad left pads s
      | some v =>
        match quad with
        | 0 => b64decodeGo 1 v 0 s
        | 1 => (b64decodeGo 2 (v % 16) 0 s).map (byte (left * 4 + v / 16) :: ·)
        | 2 => (b64decodeGo 3 (v % 4) 0 s).map (byte (left * 16 + v / 4) :: ·)
        | _ => (b64decodeGo 0 0 0 s).map (byte (left * 64 + v) :: ·)

/-- `base64.b64decode` of a text; `none` where it raises. -/
def b64decode (s : Str) : Option Bytes :=
  if s.any (128 ≤ ·.toNat) then none else b64decodeGo 0 0 0 s

/-- `base64.b64decode` of bytes. -/
def b64decodeBytes (b : Bytes) : Option Bytes :=
  b64decodeGo 0 0 0 (b.map fun x => Char.ofNat x.toNat)

/-! ## Reading what was written -/

theorem sixBits_alphabet {n : ℕ} (h : n < 64) :
    sixBits (alphabet n) = some n ∧ alphabet n ≠ '=' ∧ (alphabet n).toNat < 128 := by
  revert n
  decide

theorem b64decodeGo_first {n : ℕ} (h : n < 64) (left pads : ℕ) (s : Str) :
    b64decodeGo 0 left pads (alphabet n :: s) = b64decodeGo 1 n 0 s := by
  obtain ⟨hbits, hpad, -⟩ := sixBits_alphabet h
  rw [b64decodeGo, if_neg hpad, hbits]
  rfl

theorem b64decodeGo_second {n : ℕ} (h : n < 64) (left pads : ℕ) (s : Str) :
    b64decodeGo 1 left pads (alphabet n :: s) =
      (b64decodeGo 2 (n % 16) 0 s).map (byte (left * 4 + n / 16) :: ·) := by
  obtain ⟨hbits, hpad, -⟩ := sixBits_alphabet h
  rw [b64decodeGo, if_neg hpad, hbits]
  rfl

theorem b64decodeGo_third {n : ℕ} (h : n < 64) (left pads : ℕ) (s : Str) :
    b64decodeGo 2 left pads (alphabet n :: s) =
      (b64decodeGo 3 (n % 4) 0 s).map (byte (left * 16 + n / 4) :: ·) := by
  obtain ⟨hbits, hpad, -⟩ := sixBits_alphabet h
  rw [b64decodeGo, if_neg hpad, hbits]
  rfl

theorem b64decodeGo_fourth {n : ℕ} (h : n < 64) (left pads : ℕ) (s : Str) :
    b64decodeGo 3 left pads (alphabet n :: s) =
      (b64decodeGo 0 0 0 s).map (byte (left * 64 + n) :: ·) := by
  obtain ⟨hbits, hpad, -⟩ := sixBits_alphabet h
  rw [b64decodeGo, if_neg hpad, hbits]
  rfl

theorem byte_eq {n : ℕ} {a : UInt8} (h : n = a.toNat) : byte n = a := by
  rw [h, byte, UInt8.ofNat_toNat]

theorem b64decodeGo_b64encode (bs : Bytes) : b64decodeGo 0 0 0 (b64encode bs) = some bs := by
  induction bs using b64encode.induct with
  | case1 a b c bs ih =>
    have ha := a.toNat_lt
    have hb := b.toNat_lt
    have hc := c.toNat_lt
    have h1 : byte (a.toNat / 4 * 4 + (a.toNat % 4 * 16 + b.toNat / 16) / 16) = a :=
      byte_eq (by omega)
    have h2 : byte ((a.toNat % 4 * 16 + b.toNat / 16) % 16 * 16 +
        (b.toNat % 16 * 4 + c.toNat / 64) / 4) = b := byte_eq (by omega)
    have h3 : byte ((b.toNat % 16 * 4 + c.toNat / 64) % 4 * 64 + c.toNat % 64) = c :=
      byte_eq (by omega)
    rw [b64encode, b64decodeGo_first (by omega), b64decodeGo_second (by omega),
      b64decodeGo_third (by omega), b64decodeGo_fourth (by omega), ih, h1, h2, h3]
    rfl
  | case2 a b =>
    have ha := a.toNat_lt
    have hb := b.toNat_lt
    have h1 : byte (a.toNat / 4 * 4 + (a.toNat % 4 * 16 + b.toNat / 16) / 16) = a :=
      byte_eq (by omega)
    have h2 : byte ((a.toNat % 4 * 16 + b.toNat / 16) % 16 * 16 + b.toNat % 16 * 4 / 4) = b :=
      byte_eq (by omega)
    rw [b64encode, b64decodeGo_first (by omega), b64decodeGo_second (by omega),
      b64decodeGo_third (by omega), h1, h2]
    rfl
  | case3 a =>
    have ha := a.toNat_lt
    have h1 : byte (a.toNat / 4 * 4 + a.toNat % 4 * 16 / 16) = a := byte_eq (by omega)
    rw [b64encode, b64decodeGo_first (by omega), b64decodeGo_second (by omega), h1]
    rfl
  | case4 => rfl

theorem ascii_b64encode (bs : Bytes) : ∀ c ∈ b64encode bs, c.toNat < 128 := by
  induction bs using b64encode.induct with
  | case1 a b c bs ih =>
    have ha := a.toNat_lt
    have hb := b.toNat_lt
    have hc := c.toNat_lt
    intro x hx
    simp only [b64encode, List.mem_cons] at hx
    rcases hx with rfl | rfl | rfl | rfl | hx
    · exact (sixBits_alphabet (by omega)).2.2
    · exact (sixBits_alphabet (by omega)).2.2
    · exact (sixBits_alphabet (by omega)).2.2
    · exact (sixBits_alphabet (by omega)).2.2
    · exact ih x hx
  | case2 a b =>
    have ha := a.toNat_lt
    have hb := b.toNat_lt
    intro x hx
    simp only [b64encode, List.mem_cons, List.not_mem_nil, or_false] at hx
    rcases hx with rfl | rfl | rfl | rfl
    · exact (sixBits_alphabet (by omega)).2.2
    · exact (sixBits_alphabet (by omega)).2.2
    · exact (sixBits_alphabet (by omega)).2.2
    · decide
  | case3 a =>
    have ha := a.toNat_lt
    intro x hx
    simp only [b64encode, List.mem_cons, List.not_mem_nil, or_false] at hx
    rcases hx with rfl | rfl | rfl | rfl
    · exact (sixBits_alphabet (by omega)).2.2
    · exact (sixBits_alphabet (by omega)).2.2
    · decide
    · decide
  | case4 => simp [b64encode]

theorem b64decode_b64encode (bs : Bytes) : b64decode (b64encode bs) = some bs := by
  have hascii : (b64encode bs).any (128 ≤ ·.toNat) = false := by
    rw [List.any_eq_false]
    intro c hc
    have := ascii_b64encode bs c hc
    simpa using this
  rw [b64decode, hascii]
  exact b64decodeGo_b64encode bs

end PartCAD.Lib.Base64
