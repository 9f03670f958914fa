import PartCAD.Lib.Repr

/-!
# Python bytes

Bytes are the list of their values.  The methods used by the modelled code, and numbers read from
their texts:

* `ascii`, `decodeAscii`, `strip`, `lower`, `partition`, `splitCrlf`;
* `parseInt_toDigits` : the digits of a number are read as the number;
* `not_infix_of_prefix` : a separator is not there before it is complete.
-/

namespace PartCAD.Lib.Bytes

open PartCAD.Lib

/-! ## Text -/

/-- The bytes of a text in ASCII. -/
def ascii (s : Str) : Bytes := s.map fun c => c.toNat.toUInt8

/-- `b.decode("ascii")`; `none` where it raises. -/
def decodeAscii (b : Bytes) : Option Str :=
  if b.all fun x => x < 128 then some (b.map fun x => Char.ofNat x.toNat) else none

def IsAscii (s : Str) : Prop := ∀ c ∈ s, c.toNat < 128

theorem ascii_append (s t : Str) : ascii (s ++ t) = ascii s ++ ascii t := List.map_append

theorem toNat_toUInt8 {n : ℕ} (h : n < 128) : n.toUInt8.toNat = n := by
  rw [Nat.toUInt8_eq, UInt8.toNat_ofNat']
  omega

theorem decodeAscii_ascii {s : Str} (h : IsAscii s) : decodeAscii (ascii s) = some s := by
  have hsmall : (ascii s).all (fun x => x < 128) = true := by
    rw [List.all_eq_true]
    intro x hx
    obtain ⟨c, hc, rfl⟩ := List.mem_map.1 hx
    rw [decide_eq_true_eq, UInt8.lt_iff_toNat_lt, toNat_toUInt8 (h c hc)]
    exact h c hc
  have hback : (ascii s).map (fun x => Char.ofNat x.toNat) = s := by
    rw [ascii, List.map_map]
    conv_rhs => rw [← List.map_id s]
    refine List.map_congr_left fun c hc => ?_
    simp only [Function.comp, toNat_toUInt8 (h c hc), Char.ofNat_toNat, id_eq]
  rw [decodeAscii, if_pos hsmall, hback]

theorem isAscii_of_isDigits {ds : Str} (h : ∀ c ∈ ds, c.isDigit = true) : IsAscii ds := by
  intro c hc
  have hdigit : 48 ≤ c.toNat ∧ c.toNat ≤ 57 := by
    simpa [Char.isDigit, UInt32.le_iff_toNat_le] using h c hc
  omega

theorem toNat_of_mem_ascii {s : Str} (h : IsAscii s) {x : UInt8} (hx : x ∈ ascii s) :
    ∃ c ∈ s, x.toNat = c.toNat := by
  obtain ⟨c, hc, rfl⟩ := List.mem_map.1 hx
  exact ⟨c, hc, toNat_toUInt8 (h c hc)⟩

/-- The bytes of digits are not those of other characters. -/
theorem toNat_of_mem_digits {ds : Str} (h : IsDigits ds) {x : UInt8} (hx : x ∈ ascii ds) :
    48 ≤ x.toNat ∧ x.toNat ≤ 57 := by
  obtain ⟨c, hc, hxc⟩ := toNat_of_mem_ascii (isAscii_of_isDigits h.2) hx
  have hdigit : 48 ≤ c.toNat ∧ c.toNat ≤ 57 := by
    simpa [Char.isDigit, UInt32.le_iff_toNat_le] using h.2 c hc
  omega

/-! ## Methods -/

/-- ASCII white space. -/
def isSpace (x : UInt8) : Bool := x = 32 ∨ (9 ≤ x ∧ x ≤ 13)

theorem isSpace_of_digit {x : UInt8} (h : 48 ≤ x.toNat) : isSpace x = false := by
  have hblank : (32 : UInt8).toNat = 32 := rfl
  have hreturn : (13 : UInt8).toNat = 13 := rfl
  apply decide_eq_false
  rintro (rfl | ⟨-, hle⟩)
  · omega
  · rw [UInt8.le_iff_toNat_le] at hle
    omega

/-- `b.strip()` -/
def strip (b : Bytes) : Bytes := ((b.dropWhile isSpace).reverse.dropWhile isSpace).reverse

/-- `b.lower()` -/
def lower (b : Bytes) : Bytes := b.map fun x => if 65 ≤ x ∧ x ≤ 90 then x + 32 else x

/-- `b.partition(x)`, without the separator in the middle. -/
def partition (x : UInt8) (b : Bytes) : Bytes × Bytes :=
  (b.takeWhile (· ≠ x), (b.dropWhile (· ≠ x)).drop 1)

/-- `b.split(b"\r\n")` -/
def splitCrlf : Bytes → List Bytes
  | 13 :: 10 :: b => [] :: splitCrlf b
  | x :: b =>
    match splitCrlf b with
    | line :: lines => (x :: line) :: lines
    | [] => [[x]]
  | [] => [[]]

theorem strip_append {ws b : Bytes} (hws : ∀ x ∈ ws, isSpace x = true)
    (hb : ∀ x ∈ b, isSpace x = false) : strip (ws ++ b) = b := by
  have hdrop : ∀ b : Bytes, (∀ x ∈ b, isSpace x = false) → b.dropWhile isSpace = b := by
    intro b hb
    cases b with
    | nil => rfl
    | cons x b => rw [List.dropWhile_cons_of_neg (by simp [hb x])]
  have hfront : (ws ++ b).dropWhile isSpace = b := by
    rw [List.dropWhile_append_of_pos hws, hdrop b hb]
  have hback : b.reverse.dropWhile isSpace = b.reverse := hdrop b.reverse (by simpa using hb)
  rw [strip, hfront, hback, List.reverse_reverse]

theorem partition_append {x : UInt8} {b : Bytes} (hb : x ∉ b) (rest : Bytes) :
    partition x (b ++ x :: rest) = (b, rest) := by
  have htrue : ∀ y ∈ b, decide (y ≠ x) = true := by
    intro y hy
    apply decide_eq_true
    rintro rfl
    exact hb hy
  rw [partition, List.takeWhile_append_of_pos htrue, List.dropWhile_append_of_pos htrue]
  simp

theorem splitCrlf_append {line : Bytes} (h : 13 ∉ line) (rest : Bytes) :
    splitCrlf (line ++ 13 :: 10 :: rest) = line :: splitCrlf rest := by
  induction line with
  | nil => rfl
  | cons x line ih =>
    obtain ⟨hx, hline⟩ := not_or.1 (mt List.mem_cons.2 h)
    rw [List.cons_append, splitCrlf.eq_def]
    split
    · rename_i heq
      exact absurd (List.cons.inj heq).1.symm hx
    · rename_i y c _ heq
      obtain ⟨rfl, rfl⟩ := List.cons.inj heq
      rw [ih hline]
    · rename_i heq
      exact absurd heq (by simp)

/-! ## Numbers -/

/-- Digits with single underscores between them, without the underscores. -/
def plainDigits : Str → Option Str
  | [] => none
  | [c] => if c.isDigit then some [c] else none
  | c :: '_' :: s => if c.isDigit then (plainDigits s).map (c :: ·) else none
  | c :: s => if c.isDigit then (plainDigits s).map (c :: ·) else none

/-- `int(s)` of a text in ASCII; `none` where it raises. -/
def parseInt (s : Str) : Option ℤ :=
  let (neg, s) := takeSign (PartCAD.Lib.strip s)
  (plainDigits s).map fun ds => if neg then -(digitsValue ds : ℤ) else digitsValue ds

theorem plainDigits_of_isDigits {ds : Str} (h : IsDigits ds) : plainDigits ds = some ds := by
  obtain ⟨hne, hds⟩ := h
  induction ds with
  | nil => exact absurd rfl hne
  | cons c ds ih =>
    have hc : c.isDigit = true := hds c (List.mem_cons_self ..)
    cases ds with
    | nil => rw [plainDigits, if_pos hc]
    | cons d ds =>
      have hd : d ≠ '_' := ne_of_isDigit (hds d (by simp)) rfl
      rw [plainDigits, if_pos hc, ih (by simp) fun x hx => hds x (List.mem_cons_of_mem _ hx)]
      · rfl
      · exact fun hnil => absurd hnil (by simp)
      · exact fun s heq => hd (List.cons.inj heq).1

theorem takeSign_of_isDigits {ds : Str} (h : IsDigits ds) : takeSign ds = (false, ds) := by
  obtain ⟨hne, hds⟩ := h
  obtain ⟨d, ds, rfl⟩ := List.exists_cons_of_ne_nil hne
  have hd : d.isDigit = true := hds d (List.mem_cons_self ..)
  have hminus : d ≠ '-' := ne_of_isDigit hd rfl
  have hplus : d ≠ '+' := ne_of_isDigit hd rfl
  unfold takeSign
  split
  · rename_i heq
    exact absurd (List.cons.inj heq).1 hminus
  · rename_i heq
    exact absurd (List.cons.inj heq).1 hplus
  · rfl

theorem parseInt_toDigits (n : ℕ) : parseInt (Nat.toDigits 10 n) = some (n : ℤ) := by
  have hdigits := isDigits_toDigits n
  have hstrip : PartCAD.Lib.strip (Nat.toDigits 10 n) = Nat.toDigits 10 n :=
    strip_of_forall fun c hc => isSpace_of_isDigit (hdigits.2 c hc)
  simp [parseInt, hstrip, takeSign_of_isDigits hdigits, plainDigits_of_isDigits hdigits, digitsValue]

/-! ## Separators -/

/-- A separator that begins with a byte that is nowhere before it is not there until it is
complete. -/
theorem not_infix_of_prefix {x : UInt8} {sep line p : Bytes} (hline : x ∉ line)
    (hp : p <+: line ++ x :: sep) (hne : p ≠ line ++ x :: sep) : ¬ (x :: sep) <:+: p := by
  rintro ⟨front, back, rfl⟩
  obtain ⟨rest, hrest⟩ := hp
  have hrest' : rest ≠ [] := by
    rintro rfl
    rw [List.append_nil] at hrest
    exact hne hrest
  have hpos : 0 < rest.length := List.length_pos_iff.2 hrest'
  have hcount := congrArg List.length hrest
  simp only [List.length_append, List.length_cons] at hcount
  -- the byte would be in the line
  have hfront : front.length < line.length := by omega
  have hmem := congrArg (·[front.length]?) hrest
  simp only [List.append_assoc, List.getElem?_append_left hfront, List.cons_append,
    List.getElem?_append_right (Nat.le_refl _), Nat.sub_self, List.getElem?_cons_zero] at hmem
  exact hline (List.mem_of_getElem? hmem.symm)

end PartCAD.Lib.Bytes
