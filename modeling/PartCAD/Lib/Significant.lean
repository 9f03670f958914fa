import Mathlib.Algebra.Order.Field.Rat
import Mathlib.Data.Int.Log
import Mathlib.Data.Rat.Floor
import Mathlib.Tactic.FieldSimp
import Mathlib.Tactic.Linarith
import Mathlib.Tactic.NormNum
import PartCAD.Lib.Decimal

/-!
# Numbers in a few digits

A number is written with so many significant digits, the nearest such number, without zeros at its end
and with an exponent where it is large or small.

* `significand`, `nearest` : the digits that are written, and the number that they are;
* `formatG` : the text;
* `isDecimal_formatG` : **the text is the nearest number**;
* `nearest_eq_iff` : **which is the number itself when it has so few digits**.
-/

namespace PartCAD.Lib

/-! ## The nearest number -/

/-- The nearest natural number, of two the even one. -/
def roundEven (x : ℚ) : ℕ :=
  if x - ⌊x⌋₊ < 1 / 2 ∨ (x - ⌊x⌋₊ = 1 / 2 ∧ ⌊x⌋₊ % 2 = 0) then ⌊x⌋₊ else ⌊x⌋₊ + 1

theorem roundEven_natCast (n : ℕ) : roundEven n = n := by
  rw [roundEven, Nat.floor_natCast, if_pos]
  left
  rw [sub_self]
  norm_num

theorem le_roundEven {m : ℕ} {x : ℚ} (h : (m : ℚ) ≤ x) : m ≤ roundEven x := by
  have hfloor : m ≤ ⌊x⌋₊ := Nat.le_floor h
  unfold roundEven
  split
  · exact hfloor
  · omega

theorem roundEven_le {m : ℕ} {x : ℚ} (hx : 0 ≤ x) (h : x < m) : roundEven x ≤ m := by
  have hfloor : ⌊x⌋₊ < m := (Nat.floor_lt hx).2 h
  unfold roundEven
  split
  · omega
  · omega

/-- A positive number with its point before the last of `p` digits. -/
def scaled (p : ℕ) (x : ℚ) : ℚ := x / (10 : ℚ) ^ (Int.log 10 x - (p - 1))

/-- The digits that are written, as a number, and the exponent of the first. -/
def significand (p : ℕ) (x : ℚ) : ℕ × ℤ :=
  if roundEven (scaled p x) = 10 ^ p then (10 ^ (p - 1), Int.log 10 x + 1)
  else (roundEven (scaled p x), Int.log 10 x)

/-- The number that is written. -/
def nearest (p : ℕ) (x : ℚ) : ℚ :=
  if x = 0 then 0 else ((significand p x).1 : ℚ) * (10 : ℚ) ^ ((significand p x).2 - (p - 1))

/-- A number of few digits. -/
def Short (p : ℕ) (x : ℚ) : Prop := ∃ (m : ℕ) (k : ℤ), m < 10 ^ p ∧ x = m * (10 : ℚ) ^ k

section

variable {p : ℕ} {x : ℚ}

theorem ten_zpow_pos (k : ℤ) : (0 : ℚ) < (10 : ℚ) ^ k := zpow_pos (by norm_num) k

theorem scaled_mul (p : ℕ) (x : ℚ) : scaled p x * (10 : ℚ) ^ (Int.log 10 x - (p - 1)) = x :=
  div_mul_cancel₀ x (ten_zpow_pos _).ne'

theorem le_scaled (hp : 0 < p) (hx : 0 < x) : ((10 ^ (p - 1) : ℕ) : ℚ) ≤ scaled p x := by
  have hlog := Int.zpow_log_le_self (b := 10) (by norm_num) hx
  have hcast : ((10 ^ (p - 1) : ℕ) : ℚ) = (10 : ℚ) ^ ((p : ℤ) - 1) := by
    rw [Nat.cast_pow, ← zpow_natCast, Nat.cast_sub hp]
    norm_num
  rw [hcast, scaled, le_div_iff₀ (ten_zpow_pos _), ← zpow_add₀ (by norm_num)]
  have hexp : (p : ℤ) - 1 + (Int.log 10 x - (p - 1)) = Int.log 10 x := by ring
  rw [hexp]
  exact_mod_cast hlog

theorem scaled_lt (x : ℚ) : scaled p x < ((10 ^ p : ℕ) : ℚ) := by
  have hlog := Int.lt_zpow_succ_log_self (b := 10) (by norm_num) x
  have hcast : ((10 ^ p : ℕ) : ℚ) = (10 : ℚ) ^ (p : ℤ) := by
    rw [Nat.cast_pow, ← zpow_natCast]
    norm_num
  rw [hcast, scaled, div_lt_iff₀ (ten_zpow_pos _), ← zpow_add₀ (by norm_num)]
  have hexp : (p : ℤ) + (Int.log 10 x - (p - 1)) = Int.log 10 x + 1 := by ring
  rw [hexp]
  exact_mod_cast hlog

theorem significand_bounds (hp : 0 < p) (hx : 0 < x) :
    10 ^ (p - 1) ≤ (significand p x).1 ∧ (significand p x).1 < 10 ^ p := by
  have hlower := le_scaled hp hx
  have hle := le_roundEven hlower
  have hge : roundEven (scaled p x) ≤ 10 ^ p :=
    roundEven_le (le_trans (Nat.cast_nonneg _) hlower) (scaled_lt x)
  unfold significand
  split
  · exact ⟨le_rfl, Nat.pow_lt_pow_right (by norm_num) (by omega)⟩
  · rename_i hne
    exact ⟨hle, lt_of_le_of_ne hge hne⟩

theorem nearest_of_pos (hx : 0 < x) :
    nearest p x = ((significand p x).1 : ℚ) * (10 : ℚ) ^ ((significand p x).2 - (p - 1)) :=
  if_neg hx.ne'

theorem short_nearest (hp : 0 < p) (hx : 0 ≤ x) : Short p (nearest p x) := by
  rcases hx.eq_or_lt with rfl | hx
  · exact ⟨0, 0, by positivity, by simp [nearest]⟩
  · exact ⟨_, _, (significand_bounds hp hx).2, nearest_of_pos hx⟩

/-- A number of few digits is written as it is. -/
theorem nearest_of_short (hp : 0 < p) (hx : 0 ≤ x) (h : Short p x) : nearest p x = x := by
  rcases hx.eq_or_lt with rfl | hpos
  · exact if_pos rfl
  obtain ⟨m, k, hm, hmk⟩ := h
  -- with the point before its last digit it is a natural number
  have hscaled : scaled p x = m * (10 : ℚ) ^ (k - (Int.log 10 x - (p - 1))) := by
    rw [scaled, div_eq_iff (ten_zpow_pos _).ne', mul_assoc, ← zpow_add₀ (by norm_num), sub_add_cancel]
    exact hmk
  have hlower := le_scaled hp hpos
  generalize hj : k - (Int.log 10 x - (p - 1)) = j at hscaled
  have hj0 : 0 ≤ j := by
    by_contra hneg
    have hshift : (10 : ℚ) ^ j ≤ (10 : ℚ) ^ (-1 : ℤ) := zpow_le_zpow_right₀ (by norm_num) (by omega)
    have hmlt : (m : ℚ) < (10 : ℚ) ^ p := by exact_mod_cast hm
    have hpow : (10 : ℚ) ^ p = 10 * ((10 ^ (p - 1) : ℕ) : ℚ) := by
      have hp' : p = p - 1 + 1 := by omega
      rw [Nat.cast_pow]
      nth_rewrite 1 [hp']
      rw [pow_succ]
      push_cast
      ring
    have hle : scaled p x ≤ m * (10 : ℚ) ^ (-1 : ℤ) := by
      rw [hscaled]
      exact mul_le_mul_of_nonneg_left hshift (Nat.cast_nonneg m)
    rw [zpow_neg_one] at hle
    rw [hpow] at hmlt
    linarith
  obtain ⟨n, rfl⟩ := Int.eq_ofNat_of_zero_le hj0
  have hnat : scaled p x = ((m * 10 ^ n : ℕ) : ℚ) := by
    rw [hscaled, zpow_natCast]
    push_cast
    ring
  have hround : roundEven (scaled p x) = m * 10 ^ n := by rw [hnat, roundEven_natCast]
  have hne : roundEven (scaled p x) ≠ 10 ^ p := by
    have hlt := scaled_lt (p := p) x
    rw [hnat] at hlt
    rw [hround]
    exact (Nat.cast_lt.1 hlt).ne
  rw [nearest_of_pos hpos, significand, if_neg hne]
  dsimp only
  rw [hround, ← hnat, scaled_mul]

/-- **A number is written as it is when it has few digits.** -/
theorem nearest_eq_iff (hp : 0 < p) (hx : 0 ≤ x) : nearest p x = x ↔ Short p x :=
  ⟨fun h => h ▸ short_nearest hp hx, nearest_of_short hp hx⟩

end

/-! ## Text -/

/-- Digits with a point among them, without the zeros at the end. -/
def pointed (int frac : Str) : Str :=
  match frac.rdropWhile (· == '0') with
  | [] => int
  | frac => int ++ '.' :: frac

/-- Two digits at least. -/
def padded (ds : Str) : Str := if ds.length < 2 then '0' :: ds else ds

/-- An exponent with its sign. -/
def exponentText (k : ℤ) : Str :=
  'e' :: ((if k < 0 then ['-'] else ['+']) ++ padded (Nat.toDigits 10 k.natAbs))

/-- `'%.pg' % x` for a number of a sign and a size. -/
def formatG (p : ℕ) (negative : Bool) (size : ℚ) : Str :=
  (if negative then ['-'] else []) ++
    if size = 0 then ['0']
    else
      let (coefficient, k) := significand p size
      let ds := Nat.toDigits 10 coefficient
      if -4 ≤ k ∧ k < p then
        if 0 ≤ k then pointed (ds.take (k.toNat + 1)) (ds.drop (k.toNat + 1))
        else pointed ['0'] (List.replicate (-k - 1).toNat '0' ++ ds)
      else pointed (ds.take 1) (ds.drop 1) ++ exponentText k

example : formatG 6 true (1234567 : ℚ) = "-1.23457e+06".toList := by decide +kernel

section

variable {t : Digits}

theorem digits_toDigits (n : ℕ) : ∀ c ∈ Nat.toDigits 10 n, t.isDigit c :=
  fun _ hc => t.isDigit_of_ascii (isDigit_of_mem_toDigits hc)

theorem number_toDigits (n : ℕ) : t.number (Nat.toDigits 10 n) = n := by
  rw [t.number_eq_digitsValue fun c hc => isDigit_of_mem_toDigits hc, digitsValue,
    Nat.ofDigitChars_ten_toDigits]

theorem length_toDigits {p n : ℕ} (hp : 0 < p) (hlower : 10 ^ (p - 1) ≤ n) (hupper : n < 10 ^ p) :
    (Nat.toDigits 10 n).length = p := by
  have hle : (Nat.toDigits 10 n).length ≤ p := (Nat.length_toDigits_le_iff (by norm_num) hp).2 hupper
  have hpos : 0 < (Nat.toDigits 10 n).length := Nat.length_toDigits_pos
  by_contra hne
  have hshort : (Nat.toDigits 10 n).length ≤ p - 1 := by omega
  have hlt := (Nat.length_toDigits_le_iff (by norm_num) (by omega)).1 hshort
  omega

theorem number_zero : t.number ['0'] = 0 := number_toDigits 0

theorem number_replicate (n : ℕ) : t.number (List.replicate n '0') = 0 := by
  induction n with
  | zero => rfl
  | succ n ih => rw [List.replicate_succ, ← List.singleton_append, t.number_append, number_zero, ih, mul_zero]

/-- Zeros at the end of a fraction make no difference. -/
theorem isMantissa_pointed {int frac : Str} (hne : int ≠ []) (hint : ∀ c ∈ int, t.isDigit c)
    (hfrac : ∀ c ∈ frac, t.isDigit c) :
    ∃ coefficient decimals : ℕ, IsMantissa t (pointed int frac) coefficient decimals ∧
      ∀ e : ℤ, (coefficient : ℚ) * (10 : ℚ) ^ (e - decimals) =
        (t.number (int ++ frac) : ℚ) * (10 : ℚ) ^ (e - frac.length) := by
  have hparts : frac.rdropWhile (· == '0') ++ frac.rtakeWhile (· == '0') = frac :=
    List.rdropWhile_append_rtakeWhile
  have hzeros : frac.rtakeWhile (· == '0') = List.replicate (frac.rtakeWhile (· == '0')).length '0' := by
    refine List.eq_replicate_iff.2 ⟨rfl, fun c hc => ?_⟩
    exact beq_iff_eq.1 (List.mem_rtakeWhile_imp (p := (· == '0')) hc)
  unfold pointed
  generalize frac.rdropWhile (· == '0') = kept at hparts
  generalize (frac.rtakeWhile (· == '0')).length = n at hzeros
  rw [hzeros] at hparts
  subst hparts
  have hvalue : ∀ e : ℤ, (t.number (int ++ kept) : ℚ) * (10 : ℚ) ^ (e - kept.length) =
      (t.number (int ++ (kept ++ List.replicate n '0')) : ℚ) *
        (10 : ℚ) ^ (e - (kept ++ List.replicate n '0').length) := by
    intro e
    rw [← List.append_assoc, t.number_append (int ++ kept), number_replicate, List.length_replicate, add_zero,
      List.length_append, List.length_replicate]
    have hexp : e - (kept.length : ℤ) = n + (e - ((kept.length + n : ℕ) : ℤ)) := by
      push_cast
      ring
    rw [hexp, zpow_add₀ (by norm_num), zpow_natCast]
    push_cast
    ring
  have hkept : ∀ c ∈ kept, t.isDigit c := fun c hc => hfrac c (List.mem_append_left _ hc)
  cases kept with
  | nil =>
    refine ⟨t.number int, 0, .whole hne hint, fun e => ?_⟩
    rw [← hvalue, List.append_nil]
    rfl
  | cons c kept => exact ⟨_, _, .point hint hkept (.inl hne), hvalue⟩

theorem padded_spec {ds : Str} (hne : ds ≠ []) (hds : ∀ c ∈ ds, t.isDigit c) :
    padded ds ≠ [] ∧ (∀ c ∈ padded ds, t.isDigit c) ∧ t.number (padded ds) = t.number ds := by
  unfold padded
  split
  · refine ⟨List.cons_ne_nil _ _, fun c hc => ?_, ?_⟩
    · rcases List.mem_cons.1 hc with rfl | hc
      · exact t.isDigit_of_ascii rfl
      · exact hds c hc
    · rw [← List.singleton_append, t.number_append, number_zero, mul_zero, zero_add]
  · exact ⟨hne, hds, rfl⟩

theorem isExponent_exponentText (k : ℤ) : IsExponent t (exponentText k) k := by
  obtain ⟨hne, hdigits, hnumber⟩ := padded_spec Nat.toDigits_ne_nil (digits_toDigits (t := t) k.natAbs)
  rw [number_toDigits] at hnumber
  rw [exponentText]
  generalize padded (Nat.toDigits 10 k.natAbs) = ds at hne hdigits hnumber
  by_cases hneg : k < 0
  · have hexponent := IsExponent.some (.inl rfl) .minus hne hdigits
    have hk : signed true (t.number ds : ℤ) = k := by
      rw [hnumber, signed, if_pos rfl]
      omega
    rw [if_pos hneg]
    rwa [hk] at hexponent
  · have hexponent := IsExponent.some (.inl rfl) .plus hne hdigits
    have hk : signed false (t.number ds : ℤ) = k := by
      rw [hnumber, signed, if_neg Bool.false_ne_true]
      omega
    rw [if_neg hneg]
    rwa [hk] at hexponent

/-- **The text is the nearest number.** -/
theorem isDecimal_formatG {p : ℕ} (hp : 0 < p) (negative : Bool) {size : ℚ} (hsize : 0 ≤ size) :
    IsDecimal t (formatG p negative size) (signed negative (nearest p size)) := by
  have hsign : IsSign (if negative then ['-'] else []) negative := by
    cases negative with
    | false => exact .none
    | true => exact .minus
  rcases hsize.eq_or_lt with rfl | hpos
  · have hmantissa : IsMantissa t ['0'] (t.number ['0']) 0 :=
      .whole (List.cons_ne_nil _ _) fun c hc => by
        rw [List.mem_singleton.1 hc]
        exact t.isDigit_of_ascii rfl
    have hdecimal := IsDecimal.mk hsign hmantissa .none
    rw [number_zero] at hdecimal
    simpa [formatG, nearest] using hdecimal
  obtain ⟨hlower, hupper⟩ := significand_bounds hp hpos
  have hlength := length_toDigits hp hlower hupper
  rw [nearest_of_pos hpos, formatG, if_neg hpos.ne']
  generalize (if negative then ['-'] else [] : Str) = sign at hsign ⊢
  generalize significand p size = s at hlower hupper hlength
  obtain ⟨coefficient, k⟩ := s
  dsimp only at hlower hupper hlength ⊢
  have hdigits : ∀ c ∈ Nat.toDigits 10 coefficient, t.isDigit c := digits_toDigits coefficient
  have hnumber : t.number (Nat.toDigits 10 coefficient) = coefficient := number_toDigits coefficient
  generalize Nat.toDigits 10 coefficient = ds at hlength hdigits hnumber
  have htake : ∀ n, ∀ c ∈ ds.take n, t.isDigit c := fun n c hc => hdigits c (List.mem_of_mem_take hc)
  have hdrop : ∀ n, ∀ c ∈ ds.drop n, t.isDigit c := fun n c hc => hdigits c (List.mem_of_mem_drop hc)
  have hfront : ∀ n, ds.take (n + 1) ≠ [] := by
    intro n hnil
    have hlen := congrArg List.length hnil
    rw [List.length_take, hlength, List.length_nil] at hlen
    omega
  split
  · rename_i hrange
    split
    · rename_i hk
      obtain ⟨c, d, hmantissa, hvalue⟩ := isMantissa_pointed (hfront k.toNat) (htake _) (hdrop (k.toNat + 1))
      have hdecimal := IsDecimal.mk hsign hmantissa .none
      rw [List.append_nil, hvalue, List.take_append_drop, hnumber, List.length_drop, hlength] at hdecimal
      have hexp : (0 : ℤ) - ((p - (k.toNat + 1) : ℕ) : ℤ) = k - (p - 1) := by omega
      rwa [hexp] at hdecimal
    · rename_i hk
      have hzero : ∀ c ∈ ['0'], t.isDigit c := by
        intro c hc
        rw [List.mem_singleton.1 hc]
        exact t.isDigit_of_ascii rfl
      have hfrac : ∀ c ∈ List.replicate (-k - 1).toNat '0' ++ ds, t.isDigit c := by
        intro c hc
        rcases List.mem_append.1 hc with hc | hc
        · rw [List.eq_of_mem_replicate hc]
          exact t.isDigit_of_ascii rfl
        · exact hdigits c hc
      obtain ⟨c, d, hmantissa, hvalue⟩ := isMantissa_pointed (List.cons_ne_nil _ _) hzero hfrac
      have hdecimal := IsDecimal.mk hsign hmantissa .none
      rw [List.append_nil, hvalue, t.number_append ['0'], t.number_append (List.replicate _ _), number_zero,
        number_replicate, mul_zero, mul_zero, zero_add, zero_add, hnumber, List.length_append,
        List.length_replicate, hlength] at hdecimal
      have hexp : (0 : ℤ) - (((-k - 1).toNat + p : ℕ) : ℤ) = k - (p - 1) := by omega
      rwa [hexp] at hdecimal
  · obtain ⟨c, d, hmantissa, hvalue⟩ := isMantissa_pointed (hfront 0) (htake _) (hdrop 1)
    have hdecimal := IsDecimal.mk hsign hmantissa (isExponent_exponentText k)
    rw [hvalue, List.take_append_drop, hnumber, List.length_drop, hlength] at hdecimal
    have hexp : k - ((p - 1 : ℕ) : ℤ) = k - (p - 1) := by omega
    rwa [hexp] at hdecimal

/-- What is read off the text. -/
theorem numberOf_formatG {p : ℕ} (hp : 0 < p) (negative : Bool) {size : ℚ} (hsize : 0 ≤ size) :
    numberOf t (formatG p negative size) = some (signed negative (nearest p size)) :=
  numberOf_iff.2 (isDecimal_formatG hp negative hsize)

end

end PartCAD.Lib
