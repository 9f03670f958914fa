import Mathlib.Algebra.Order.Field.Basic
import Mathlib.Algebra.Field.Rat
import Mathlib.Data.List.DropRight
import Mathlib.Data.List.TakeWhile
import Mathlib.Tactic.Ring
import PartCAD.Lib.Repr

/-!
# Decimal numbers in text

A number in text is an optional sign, digits with a point among them or beside them, and an optional
exponent, as in `[+-]?(\d+\.?\d*|\.\d+)([eE][+-]?\d+)?`.

* `Digits` : the characters that are digits, and what they are worth;
* `IsDecimal`, `numberOf` : a text is a number, and the number is read off it;
* `numberOf_iff` : **the two agree**;
* `IsDecimal.append_unique` : where a number ends, before a unit.
-/

namespace PartCAD.Lib

/-! ## Digits -/

/-- The digits, as `unicodedata.decimal` has them. -/
structure Digits where
  value : Char → Option ℕ
  ascii : ∀ c : Char, c.isDigit → value c = some (c.toNat - 48)
  latin : ∀ c : Char, c.toNat < 256 → c.isDigit = false → value c = none
  space : ∀ c : Char, isSpace c → value c = none
  kelvin : value '\u212a' = none

/-- No digits but those from `0` to `9`. -/
def asciiDigits : Digits where
  value c := if c.isDigit then some (c.toNat - 48) else none
  ascii _ h := if_pos h
  latin c _ h := if_neg (by simp [h])
  space c h := by
    refine if_neg fun hdigit => ?_
    rw [isSpace_of_isDigit hdigit] at h
    cases h
  kelvin := rfl

namespace Digits

variable (t : Digits)

def isDigit (c : Char) : Bool := (t.value c).isSome

/-- The number that digits are, read from the left. -/
def number (s : Str) : ℕ := s.foldl (fun n c => 10 * n + (t.value c).getD 0) 0

theorem foldl_eq (s : Str) (n : ℕ) :
    s.foldl (fun n c => 10 * n + (t.value c).getD 0) n = 10 ^ s.length * n + t.number s := by
  unfold number
  induction s generalizing n with
  | nil => simp
  | cons c s ih =>
    rw [List.foldl_cons, List.foldl_cons, ih, ih (10 * 0 + _), List.length_cons]
    ring

theorem number_append (s s' : Str) : t.number (s ++ s') = 10 ^ s'.length * t.number s + t.number s' := by
  rw [number, List.foldl_append, foldl_eq]
  rfl

theorem number_eq_digitsValue {s : Str} (h : ∀ c ∈ s, c.isDigit) : t.number s = digitsValue s := by
  rw [digitsValue, Nat.ofDigitChars_eq_foldl, number]
  suffices hfold : ∀ n, s.foldl (fun n c => 10 * n + (t.value c).getD 0) n =
      s.foldl (fun n c => 10 * n + (c.toNat - '0'.toNat)) n from hfold 0
  induction s with
  | nil => exact fun _ => rfl
  | cons c s ih =>
    intro n
    rw [List.foldl_cons, List.foldl_cons, t.ascii c (h c List.mem_cons_self)]
    exact ih (fun d hd => h d (List.mem_cons_of_mem c hd)) _

theorem isDigit_of_ascii {c : Char} (h : c.isDigit) : t.isDigit c = true := by
  rw [isDigit, t.ascii c h]
  rfl

theorem not_isDigit {c : Char} (hc : c.toNat < 256) (h : c.isDigit = false) : t.isDigit c = false := by
  rw [isDigit, t.latin c hc h]
  rfl

theorem isSpace_of_isDigit {c : Char} (h : t.isDigit c = true) : isSpace c = false := by
  refine Bool.eq_false_iff.2 fun hspace => ?_
  rw [isDigit, t.space c hspace] at h
  cases h

end Digits

/-! ## Numbers -/

/-- A sign, or none. -/
inductive IsSign : Str → Bool → Prop
  | none : IsSign [] false
  | plus : IsSign ['+'] false
  | minus : IsSign ['-'] true

/-- The sign of a number. -/
def signed {α : Type} [Neg α] (neg : Bool) (x : α) : α := if neg then -x else x

section

variable (t : Digits)

/-- Digits, with a point among them or beside them: what they are without it, and how many come
after it. -/
inductive IsMantissa : Str → ℕ → ℕ → Prop
  | whole {int : Str} : int ≠ [] → (∀ c ∈ int, t.isDigit c) → IsMantissa int (t.number int) 0
  | point {int frac : Str} : (∀ c ∈ int, t.isDigit c) → (∀ c ∈ frac, t.isDigit c) →
      int ≠ [] ∨ frac ≠ [] → IsMantissa (int ++ '.' :: frac) (t.number (int ++ frac)) frac.length

/-- An exponent, or none. -/
inductive IsExponent : Str → ℤ → Prop
  | none : IsExponent [] 0
  | some {mark : Char} {sign ds : Str} {neg : Bool} : mark = 'e' ∨ mark = 'E' → IsSign sign neg →
      ds ≠ [] → (∀ c ∈ ds, t.isDigit c) → IsExponent (mark :: (sign ++ ds)) (signed neg (t.number ds : ℤ))

/-- A text is a number. -/
inductive IsDecimal : Str → ℚ → Prop
  | mk {sign mantissa exponent : Str} {neg : Bool} {coefficient decimals : ℕ} {e : ℤ} :
      IsSign sign neg → IsMantissa t mantissa coefficient decimals → IsExponent t exponent e →
        IsDecimal (sign ++ (mantissa ++ exponent))
          (signed neg ((coefficient : ℚ) * (10 : ℚ) ^ (e - decimals)))

/-- The exponent that a text is. -/
def exponentOf : Str → Option ℤ
  | [] => some 0
  | mark :: s =>
    let (neg, ds) := takeSign s
    if (mark = 'e' ∨ mark = 'E') ∧ ds ≠ [] ∧ ds.all t.isDigit then
      some (signed neg (t.number ds : ℤ))
    else none

/-- The digits after a point, and the rest. -/
def takeFraction : Str → Str × Str
  | '.' :: s => (s.takeWhile t.isDigit, s.dropWhile t.isDigit)
  | s => ([], s)

/-- The number that a text is. -/
def numberOf (s : Str) : Option ℚ :=
  let (neg, s) := takeSign s
  let int := s.takeWhile t.isDigit
  let (frac, s) := takeFraction t (s.dropWhile t.isDigit)
  if int = [] ∧ frac = [] then none
  else
    (exponentOf t s).map fun (e : ℤ) =>
      signed neg ((t.number (int ++ frac) : ℚ) * (10 : ℚ) ^ (e - frac.length))

end

example : numberOf asciiDigits "-2.50e1".toList = some (-25) := by decide +kernel

/-! ## What is read -/

theorem isSign_takeSign (s : Str) : ∃ sign, IsSign sign (takeSign s).1 ∧ s = sign ++ (takeSign s).2 := by
  unfold takeSign
  split
  · exact ⟨['-'], .minus, rfl⟩
  · exact ⟨['+'], .plus, rfl⟩
  · exact ⟨[], .none, rfl⟩

theorem takeSign_append {sign s : Str} {neg : Bool} (h : IsSign sign neg)
    (hplus : s.head? ≠ some '+') (hminus : s.head? ≠ some '-') : takeSign (sign ++ s) = (neg, s) := by
  cases h with
  | plus => rfl
  | minus => rfl
  | none =>
    rw [List.nil_append]
    unfold takeSign
    split
    · exact absurd rfl hminus
    · exact absurd rfl hplus
    · rfl

theorem takeWhile_append_of {p : Char → Bool} {s s' : Str} (hs : ∀ c ∈ s, p c)
    (hs' : ∀ c ∈ s'.head?, p c = false) :
    (s ++ s').takeWhile p = s ∧ (s ++ s').dropWhile p = s' := by
  rw [List.takeWhile_append_of_pos hs, List.dropWhile_append_of_pos hs]
  cases s' with
  | nil => exact ⟨List.append_nil s, rfl⟩
  | cons c s' =>
    have hc : ¬ p c = true := by
      rw [hs' c rfl]
      exact Bool.false_ne_true
    rw [List.takeWhile_cons_of_neg hc, List.dropWhile_cons_of_neg hc]
    exact ⟨List.append_nil s, rfl⟩

section

variable {t : Digits}

theorem Digits.head?_ne {ds : Str} (hds : ∀ c ∈ ds, t.isDigit c) {c : Char} (hc : c.toNat < 256)
    (h : c.isDigit = false) : ds.head? ≠ some c := by
  intro hhead
  have hdigit := hds c (List.mem_of_mem_head? hhead)
  rw [t.not_isDigit hc h] at hdigit
  cases hdigit

theorem exponentOf_iff {s : Str} {e : ℤ} : exponentOf t s = some e ↔ IsExponent t s e := by
  constructor
  · intro h
    cases s with
    | nil =>
      obtain rfl := Option.some.inj h
      exact .none
    | cons mark s =>
      obtain ⟨sign, hsign, hs⟩ := isSign_takeSign s
      rw [exponentOf] at h
      generalize takeSign s = r at h hsign hs
      obtain ⟨neg, ds⟩ := r
      dsimp only at h hsign hs
      split at h
      · rename_i hok
        obtain rfl := Option.some.inj h
        rw [hs]
        exact .some hok.1 hsign hok.2.1 (List.all_eq_true.1 hok.2.2)
      · cases h
  · rintro (_ | ⟨hmark, hsign, hne, hds⟩)
    · rfl
    · rw [exponentOf, takeSign_append hsign (t.head?_ne hds (by decide) rfl)
        (t.head?_ne hds (by decide) rfl)]
      exact if_pos ⟨hmark, hne, List.all_eq_true.2 hds⟩

theorem IsExponent.head? {s : Str} {e : ℤ} (h : IsExponent t s e) :
    ∀ c ∈ s.head?, c = 'e' ∨ c = 'E' := by
  cases h with
  | none => exact nofun
  | some hmark =>
    intro c hc
    obtain rfl := Option.some.inj hc
    exact hmark

theorem IsExponent.isDigit_head? {s : Str} {e : ℤ} (h : IsExponent t s e) :
    ∀ c ∈ s.head?, t.isDigit c = false := by
  intro c hc
  rcases h.head? c hc with rfl | rfl
  · exact t.not_isDigit (by decide) rfl
  · exact t.not_isDigit (by decide) rfl

/-- A number starts with a digit or with a point. -/
theorem IsMantissa.head? {s : Str} {n d : ℕ} (h : IsMantissa t s n d) (tail : Str) {c : Char}
    (hc : c.toNat < 256) (hdigit : c.isDigit = false) (hpoint : c ≠ '.') :
    (s ++ tail).head? ≠ some c := by
  cases h with
  | whole hne hint =>
    rw [List.head?_append_of_ne_nil _ hne]
    exact t.head?_ne hint hc hdigit
  | @point int frac hint hfrac _ =>
    cases int with
    | nil => exact fun h => hpoint (Option.some.inj h).symm
    | cons a int =>
      have ha : ∀ b ∈ [a], t.isDigit b := fun b hb => hint b (by simp_all)
      exact t.head?_ne ha hc hdigit

/-- **What is read off a text**, which is a number. -/
theorem numberOf_iff {s : Str} {x : ℚ} : numberOf t s = some x ↔ IsDecimal t s x := by
  constructor
  · intro h
    obtain ⟨sign, hsign, hs⟩ := isSign_takeSign s
    rw [numberOf] at h
    generalize takeSign s = r at h hsign hs
    obtain ⟨neg, rest⟩ := r
    dsimp only at h hsign hs
    have hint : ∀ c ∈ rest.takeWhile t.isDigit, t.isDigit c := fun c hc => List.mem_takeWhile_imp hc
    have hrest : rest = rest.takeWhile t.isDigit ++ rest.dropWhile t.isDigit :=
      (List.takeWhile_append_dropWhile).symm
    generalize rest.takeWhile t.isDigit = int at h hint hrest
    generalize rest.dropWhile t.isDigit = tail at h hrest
    subst hs hrest
    unfold takeFraction at h
    split at h
    · rename_i tail
      have hfrac : ∀ c ∈ tail.takeWhile t.isDigit, t.isDigit c := fun c hc => List.mem_takeWhile_imp hc
      have htail : tail = tail.takeWhile t.isDigit ++ tail.dropWhile t.isDigit :=
        (List.takeWhile_append_dropWhile).symm
      generalize tail.takeWhile t.isDigit = frac at h hfrac htail
      generalize tail.dropWhile t.isDigit = exponent at h htail
      subst htail
      dsimp only at h
      split at h
      · cases h
      · rename_i hne
        obtain ⟨e, he, rfl⟩ := Option.map_eq_some_iff.1 h
        have hmantissa := IsMantissa.point hint hfrac (not_and_or.1 hne)
        have hdecimal := IsDecimal.mk hsign hmantissa (exponentOf_iff.1 he)
        rwa [List.append_assoc, List.cons_append] at hdecimal
    · dsimp only at h
      split at h
      · cases h
      · rename_i hne
        obtain ⟨e, he, rfl⟩ := Option.map_eq_some_iff.1 h
        have hne : int ≠ [] := fun hnil => hne ⟨hnil, rfl⟩
        have hdecimal := IsDecimal.mk hsign (.whole hne hint) (exponentOf_iff.1 he)
        simpa using hdecimal
  · rintro ⟨hsign, hmantissa, hexp⟩
    rename_i sign mantissa exponent neg coefficient decimals e
    have hsigned : takeSign (sign ++ (mantissa ++ exponent)) = (neg, mantissa ++ exponent) :=
      takeSign_append hsign (hmantissa.head? _ (by decide) rfl (by decide))
        (hmantissa.head? _ (by decide) rfl (by decide))
    rw [numberOf, hsigned]
    dsimp only
    cases hmantissa with
    | whole hne hint =>
      obtain ⟨htake, hdrop⟩ := takeWhile_append_of hint hexp.isDigit_head?
      have hfraction : takeFraction t exponent = ([], exponent) := by
        unfold takeFraction
        split
        · rcases hexp.head? '.' rfl with h | h
          · exact absurd h (by decide)
          · exact absurd h (by decide)
        · rfl
      rw [htake, hdrop, hfraction]
      dsimp only
      rw [if_neg fun h => hne h.1, exponentOf_iff.2 hexp, List.append_nil]
      rfl
    | @point int frac hint hfrac hne =>
      have hpoint : ∀ c ∈ ('.' :: (frac ++ exponent)).head?, t.isDigit c = false := by
        intro c hc
        obtain rfl := Option.some.inj hc
        exact t.not_isDigit (by decide) rfl
      obtain ⟨htake, hdrop⟩ := takeWhile_append_of hint hpoint
      obtain ⟨htake', hdrop'⟩ := takeWhile_append_of hfrac hexp.isDigit_head?
      rw [List.append_assoc, List.cons_append, htake, hdrop, takeFraction, htake', hdrop']
      dsimp only
      rw [if_neg fun h => hne.elim (fun h' => h' h.1) fun h' => h' h.2, exponentOf_iff.2 hexp]
      rfl

theorem IsDecimal.mem {s : Str} {x : ℚ} (h : IsDecimal t s x) :
    ∀ c ∈ s, t.isDigit c ∨ c ∈ "+-.eE".toList := by
  obtain ⟨hsign, hmantissa, hexp⟩ := h
  have hsigns : ∀ {sign : Str} {neg : Bool}, IsSign sign neg → ∀ c ∈ sign, c ∈ "+-.eE".toList := by
    rintro sign neg (_ | _ | _) c hc
    · cases hc
    · simp_all
    · simp_all
  intro c hc
  rcases List.mem_append.1 hc with hc | hc
  · exact .inr (hsigns hsign c hc)
  rcases List.mem_append.1 hc with hc | hc
  · cases hmantissa with
    | whole hne hint => exact .inl (hint c hc)
    | point hint hfrac hne =>
      rcases List.mem_append.1 hc with hc | hc
      · exact .inl (hint c hc)
      · rcases List.mem_cons.1 hc with rfl | hc
        · exact .inr (by simp)
        · exact .inl (hfrac c hc)
  · cases hexp with
    | none => cases hc
    | some hmark hsign hne hds =>
      rcases List.mem_cons.1 hc with rfl | hc
      · rcases hmark with rfl | rfl
        · exact .inr (by simp)
        · exact .inr (by simp)
      · rcases List.mem_append.1 hc with hc | hc
        · exact .inr (hsigns hsign c hc)
        · exact .inl (hds c hc)

/-! ## Where a number ends -/

/-- A number ends in a digit or a point. -/
def closes (t : Digits) (c : Char) : Bool := t.isDigit c || c == '.'

theorem IsDecimal.getLast? {s : Str} {x : ℚ} (h : IsDecimal t s x) :
    ∃ s' c, s = s' ++ [c] ∧ closes t c := by
  have hdigits : ∀ ds : Str, ds ≠ [] → (∀ c ∈ ds, t.isDigit c) → ∀ before : Str,
      ∃ s' c, before ++ ds = s' ++ [c] ∧ closes t c := by
    intro ds hne hds before
    refine ⟨before ++ ds.dropLast, ds.getLast hne, ?_, ?_⟩
    · rw [List.append_assoc, List.dropLast_append_getLast]
    · rw [closes, hds _ (List.getLast_mem hne), Bool.true_or]
  obtain ⟨hsign, hmantissa, hexp⟩ := h
  rename_i sign mantissa exponent neg coefficient decimals e
  cases hexp with
  | @some mark sign' ds neg' hmark hsign' hne hds =>
    obtain ⟨s', c, heq, hc⟩ := hdigits ds hne hds (sign ++ (mantissa ++ mark :: sign'))
    refine ⟨s', c, ?_, hc⟩
    rw [← heq]
    simp
  | none =>
    rw [List.append_nil]
    cases hmantissa with
    | whole hne hint => exact hdigits mantissa hne hint sign
    | @point int frac hint hfrac hne =>
      cases frac with
      | nil =>
        refine ⟨sign ++ int, '.', by simp, ?_⟩
        rw [closes, beq_self_eq_true, Bool.or_true]
      | cons c frac =>
        obtain ⟨s', d, heq, hd⟩ := hdigits (c :: frac) (by simp) hfrac (sign ++ (int ++ ['.']))
        refine ⟨s', d, ?_, hd⟩
        rw [← heq]
        simp

/-- **A number before a text without digits and points** is read in one way. -/
theorem IsDecimal.append_unique {s s' rest rest' : Str} {x x' : ℚ} (h : IsDecimal t s x)
    (h' : IsDecimal t s' x') (hrest : ∀ c ∈ rest, closes t c = false)
    (hrest' : ∀ c ∈ rest', closes t c = false) (heq : s ++ rest = s' ++ rest') :
    s = s' ∧ rest = rest' := by
  have hdrop : ∀ {s rest : Str} {x : ℚ}, IsDecimal t s x → (∀ c ∈ rest, closes t c = false) →
      (s ++ rest).rdropWhile (fun c => ! closes t c) = s := by
    intro s rest x h hrest
    obtain ⟨s', c, rfl, hc⟩ := h.getLast?
    induction rest using List.reverseRecOn with
    | nil =>
      rw [List.append_nil, List.rdropWhile_concat_neg]
      simp [hc]
    | append_singleton rest d ih =>
      rw [← List.append_assoc, List.rdropWhile_concat_pos]
      · exact ih fun c hc => hrest c (List.mem_append_left _ hc)
      · rw [hrest d (by simp)]
        rfl
  have hs : s = s' := by
    rw [← hdrop h hrest, ← hdrop h' hrest', heq]
  subst hs
  exact ⟨rfl, List.append_cancel_left heq⟩

/-- A number is read in one way. -/
theorem IsDecimal.unique {s : Str} {x x' : ℚ} (h : IsDecimal t s x) (h' : IsDecimal t s x') : x = x' :=
  Option.some.inj ((numberOf_iff.2 h).symm.trans (numberOf_iff.2 h'))

theorem IsDecimal.ne_nil {s : Str} {x : ℚ} (h : IsDecimal t s x) : s ≠ [] := by
  obtain ⟨s', c, rfl, -⟩ := h.getLast?
  simp

theorem isSpace_of_closes {c : Char} (h : closes t c) : isSpace c = false := by
  rcases Bool.or_eq_true_iff.1 h with hdigit | hpoint
  · exact t.isSpace_of_isDigit hdigit
  · rw [beq_iff_eq.1 hpoint]
    rfl

/-- There are no blanks around a number. -/
theorem IsDecimal.trimmed {s : Str} {x : ℚ} (h : IsDecimal t s x) : Trimmed s where
  front c hc := by
    obtain ⟨hsign, hmantissa, hexp⟩ := h
    cases hsign with
    | plus =>
      obtain rfl := Option.some.inj hc
      rfl
    | minus =>
      obtain rfl := Option.some.inj hc
      rfl
    | none =>
      cases hmantissa with
      | whole hne hint =>
        rw [List.nil_append, List.head?_append_of_ne_nil _ hne] at hc
        exact t.isSpace_of_isDigit (hint c (List.mem_of_mem_head? hc))
      | @point int frac hint hfrac hne =>
        cases int with
        | nil =>
          obtain rfl := Option.some.inj hc
          rfl
        | cons a int =>
          obtain rfl := Option.some.inj hc
          exact t.isSpace_of_isDigit (hint a List.mem_cons_self)
  back c hc := by
    obtain ⟨s', d, rfl, hd⟩ := h.getLast?
    rw [List.getLast?_concat] at hc
    obtain rfl := Option.some.inj hc
    exact isSpace_of_closes hd

end

end PartCAD.Lib
