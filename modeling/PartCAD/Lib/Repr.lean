import Mathlib.Data.List.DropRight
import Mathlib.Data.List.TakeWhile
import PartCAD.Lib.Value

/-!
# The text of a value

`str` and `repr` of values, and the reading of a number as `decimal.Decimal` does it.

* `strText` : `str(v)`, over the characters that `repr` prints as they are;
* `toIntegral_decimalOf_intText` : reading a number back that was written as an integer;
* `Trimmed` : what `strip` gives.
-/

namespace PartCAD.Lib

/-! ## `repr` -/

/-- A number in `w` hexadecimal digits. -/
def hexText : ℕ → ℕ → Str
  | 0, _ => []
  | w + 1, n => hexText w (n / 16) ++ [Nat.digitChar (n % 16)]

/-- `repr` of one character inside quotes. -/
def charText (printable : Char → Bool) (quote c : Char) : Str :=
  if c = quote ∨ c = '\\' then ['\\', c]
  else if c = '\t' then ['\\', 't']
  else if c = '\n' then ['\\', 'n']
  else if c = '\r' then ['\\', 'r']
  else if c.toNat < 32 ∨ c.toNat = 127 then '\\' :: 'x' :: hexText 2 c.toNat
  else if c.toNat < 127 ∨ printable c then [c]
  else if c.toNat < 256 then '\\' :: 'x' :: hexText 2 c.toNat
  else if c.toNat < 65536 then '\\' :: 'u' :: hexText 4 c.toNat
  else '\\' :: 'U' :: hexText 8 c.toNat

/-- `repr(s)` -/
def quoteText (printable : Char → Bool) (s : Str) : Str :=
  let quote := if '\'' ∈ s ∧ '"' ∉ s then '"' else '\''
  quote :: s.flatMap (charText printable quote) ++ [quote]

section

variable {F : Type} [PyFloat F] (printable : Char → Bool)

mutual

/-- `repr(v)` -/
def reprText : Value F → Str
  | .none => "None".toList
  | .bool true => "True".toList
  | .bool false => "False".toList
  | .int n => intText n
  | .float x => PyFloat.repr x
  | .str s => quoteText printable s
  | .bytes b => bytesText b
  | .list vs => '[' :: List.intercalate ", ".toList (reprTexts vs) ++ [']']
  | .dict items => '{' :: List.intercalate ", ".toList (reprItems items) ++ ['}']

def reprTexts : List (Value F) → List Str
  | [] => []
  | v :: vs => reprText v :: reprTexts vs

def reprItems : List (Str × Value F) → List Str
  | [] => []
  | (k, v) :: items => (quoteText printable k ++ ": ".toList ++ reprText v) :: reprItems items

end

/-- `str(v)` -/
def strText : Value F → Str
  | .str s => s
  | v => reprText printable v

theorem strText_str (s : Str) : strText printable (.str s : Value F) = s := rfl

theorem strText_int (n : ℤ) : strText printable (.int n : Value F) = intText n := rfl

theorem strText_float (x : F) : strText printable (.float x) = PyFloat.repr x := rfl

end

/-! ## Numbers read from text -/

/-- The digits of a number, as a number. -/
def digitsValue (s : Str) : ℕ := Nat.ofDigitChars 10 s 0

/-- An optional sign, and the rest. -/
def takeSign : Str → Bool × Str
  | '-' :: s => (true, s)
  | '+' :: s => (false, s)
  | s => (false, s)

/-- `c.isspace()` -/
def isSpace (c : Char) : Bool :=
  let n := c.toNat
  (9 ≤ n ∧ n ≤ 13) ∨ (28 ≤ n ∧ n ≤ 32) ∨ n = 133 ∨ n = 160 ∨ n = 5760 ∨
    (8192 ≤ n ∧ n ≤ 8202) ∨ n = 8232 ∨ n = 8233 ∨ n = 8239 ∨ n = 8287 ∨ n = 12288

/-- `s.strip()` -/
def strip (s : Str) : Str := ((s.dropWhile isSpace).reverse.dropWhile isSpace).reverse

/-- A finite number as `decimal.Decimal` reads it, in ASCII digits: sign, coefficient and
exponent. -/
def decimalOf (s : Str) : Option (Bool × ℕ × ℤ) :=
  let (neg, s) := takeSign ((strip s).filter (· ≠ '_'))
  let int := s.takeWhile (·.isDigit)
  let s := s.dropWhile (·.isDigit)
  let (frac, s) :=
    match s with
    | '.' :: s => (s.takeWhile (·.isDigit), s.dropWhile (·.isDigit))
    | s => ([], s)
  if int = [] ∧ frac = [] then none
  else
    let coefficient := digitsValue (int ++ frac)
    match s with
    | [] => some (neg, coefficient, -frac.length)
    | e :: s =>
      let (negExp, ds) := takeSign s
      if (e = 'e' ∨ e = 'E') ∧ ds ≠ [] ∧ ds.all (·.isDigit) then
        let exponent : ℤ := if negExp then -digitsValue ds else digitsValue ds
        some (neg, coefficient, exponent - frac.length)
      else none

/-- The integer that a number is, if it is one. -/
def toIntegral : Bool × ℕ × ℤ → Option ℤ
  | (neg, coefficient, .ofNat e) =>
    some (if neg then -(coefficient * 10 ^ e : ℕ) else (coefficient * 10 ^ e : ℕ))
  | (neg, coefficient, .negSucc e) =>
    if coefficient % 10 ^ (e + 1) = 0 then
      some (if neg then -(coefficient / 10 ^ (e + 1) : ℕ) else (coefficient / 10 ^ (e + 1) : ℕ))
    else none

example : (decimalOf "4.0".toList).bind toIntegral = some 4 := by decide

theorem isDigit_of_mem_toDigits {n : ℕ} {c : Char} (h : c ∈ Nat.toDigits 10 n) :
    c.isDigit = true :=
  Nat.isDigit_of_mem_toDigits (by decide) (by decide) h

theorem isDigits_toDigits (n : ℕ) : IsDigits (Nat.toDigits 10 n) :=
  ⟨Nat.toDigits_ne_nil, fun _ h => isDigit_of_mem_toDigits h⟩

theorem strip_of_forall {s : Str} (h : ∀ c ∈ s, isSpace c = false) : strip s = s := by
  have hdrop : ∀ t : Str, (∀ c ∈ t, isSpace c = false) → t.dropWhile isSpace = t := by
    intro t ht
    cases t with
    | nil => rfl
    | cons a t => exact List.dropWhile_cons_of_neg (by simp [ht a (by simp)])
  rw [strip, hdrop s h, hdrop s.reverse (by simpa using h), List.reverse_reverse]

theorem isSpace_of_isDigit {c : Char} (h : c.isDigit = true) : isSpace c = false := by
  have hrange : 48 ≤ c.toNat ∧ c.toNat ≤ 57 := by
    simpa [Char.isDigit, UInt32.le_iff_toNat_le] using h
  simp only [isSpace, decide_eq_false_iff_not]
  omega

theorem toNat_of_isAlphanum {c : Char} (h : c.isAlphanum) :
    (65 ≤ c.toNat ∧ c.toNat ≤ 90) ∨ (97 ≤ c.toNat ∧ c.toNat ≤ 122) ∨ (48 ≤ c.toNat ∧ c.toNat ≤ 57) := by
  rcases Bool.or_eq_true_iff.1 h with h | h
  · rcases Bool.or_eq_true_iff.1 h with h | h
    · exact Or.inl (of_decide_eq_true h)
    · obtain ⟨hle, hle'⟩ := Bool.and_eq_true_iff.1 h
      exact Or.inr (Or.inl ⟨of_decide_eq_true hle, of_decide_eq_true hle'⟩)
  · obtain ⟨hle, hle'⟩ := Bool.and_eq_true_iff.1 h
    exact Or.inr (Or.inr ⟨of_decide_eq_true hle, of_decide_eq_true hle'⟩)

theorem isSpace_of_isAlphanum {c : Char} (h : c.isAlphanum) : isSpace c = false := by
  have hrange := toNat_of_isAlphanum h
  rw [isSpace]
  refine decide_eq_false ?_
  omega

/-- Digits with a sign in front. -/
theorem decimalOf_sign (neg : Bool) {ds : Str} (h : IsDigits ds) :
    decimalOf (if neg then '-' :: ds else ds) = some (neg, digitsValue ds, 0) := by
  obtain ⟨hne, hds⟩ := h
  have hds' : ∀ c ∈ ds, isSpace c = false ∧ (decide (c ≠ '_')) = true ∧ c.isDigit = true := by
    intro c hc
    refine ⟨isSpace_of_isDigit (hds c hc), ?_, hds c hc⟩
    exact decide_eq_true (ne_of_isDigit (hds c hc) rfl)
  have hfilter : ds.filter (· ≠ '_') = ds := List.filter_eq_self.2 fun c hc => (hds' c hc).2.1
  have htake : ds.takeWhile (·.isDigit) = ds := List.takeWhile_eq_self_iff.2 hds
  have hdrop : ds.dropWhile (·.isDigit) = [] := List.dropWhile_eq_nil_iff.2 hds
  have hstrip : strip (if neg then '-' :: ds else ds) = if neg then '-' :: ds else ds := by
    refine strip_of_forall fun c hc => ?_
    cases neg with
    | false => exact (hds' c hc).1
    | true =>
      rcases List.mem_cons.1 hc with rfl | hc
      · decide
      · exact (hds' c hc).1
  have hsign : takeSign ((if neg then '-' :: ds else ds).filter (· ≠ '_')) = (neg, ds) := by
    cases neg with
    | true =>
      rw [if_pos rfl, List.filter_cons_of_pos (by decide), hfilter]
      rfl
    | false =>
      obtain ⟨d, ds, rfl⟩ := List.exists_cons_of_ne_nil hne
      have hd : d.isDigit = true := hds d (by simp)
      have hm : d ≠ '-' := ne_of_isDigit hd rfl
      have hp : d ≠ '+' := ne_of_isDigit hd rfl
      simp only [Bool.false_eq_true, if_false, hfilter]
      unfold takeSign
      split <;> simp_all
  simp only [decimalOf, hstrip, hsign, htake, hdrop, List.append_nil, hne, false_and, if_false,
    List.length_nil]
  rfl

theorem decimalOf_intText (n : ℤ) : decimalOf (intText n) = some (decide (n < 0), n.natAbs, 0) := by
  cases n with
  | ofNat n =>
    have h := decimalOf_sign false (isDigits_toDigits n)
    have hneg : decide ((n : ℤ) < 0) = false := decide_eq_false (by omega)
    simpa [intText, digitsValue, hneg] using h
  | negSucc n =>
    have h := decimalOf_sign true (isDigits_toDigits (n + 1))
    simpa [intText, digitsValue] using h

/-- An integer is read back from its text. -/
theorem toIntegral_decimalOf_intText (n : ℤ) :
    (decimalOf (intText n)).bind toIntegral = some n := by
  have hzero : ∀ neg : Bool, toIntegral (neg, n.natAbs, 0) =
      some (if neg then -((n.natAbs * 10 ^ 0 : ℕ) : ℤ) else (n.natAbs * 10 ^ 0 : ℕ)) :=
    fun _ => rfl
  rw [decimalOf_intText, Option.bind_some, hzero, Option.some.injEq]
  by_cases hn : n < 0
  · simp only [hn, decide_true, if_true]
    omega
  · simp only [hn, decide_false, Bool.false_eq_true, if_false]
    omega

theorem notMem_intText {n : ℤ} {c : Char} (hd : c.isDigit = false) (hc : c ≠ '-') :
    c ∉ intText n := by
  have hdigits : ∀ m : ℕ, c ∉ Nat.toDigits 10 m := by
    intro m hmem
    exact ne_of_isDigit (isDigit_of_mem_toDigits hmem) hd rfl
  cases n with
  | ofNat n => exact hdigits n
  | negSucc n =>
    rintro (_ | ⟨_, h⟩)
    · exact hc rfl
    · exact hdigits (n + 1) h

/-! ## Blank ends -/

/-- Neither end is blank. -/
structure Trimmed (s : Str) : Prop where
  front : ∀ c ∈ s.head?, isSpace c = false
  back : ∀ c ∈ s.getLast?, isSpace c = false

theorem strip_eq (s : Str) : strip s = (s.dropWhile isSpace).rdropWhile isSpace := rfl

theorem trimmed_nil : Trimmed [] := ⟨by simp, by simp⟩

theorem trimmed_strip (s : Str) : Trimmed (strip s) where
  front c hc := by
    have hpre : strip s <+: s.dropWhile isSpace := List.rdropWhile_prefix isSpace _
    cases hstrip : strip s with
    | nil => simp [hstrip] at hc
    | cons a t =>
      rw [hstrip] at hc hpre
      obtain rfl : a = c := by simpa using hc
      obtain ⟨rest, hrest⟩ := hpre
      have hhead := List.head?_dropWhile_not isSpace s
      rw [← hrest] at hhead
      simpa using hhead
  back c hc := by
    have hne : strip s ≠ [] := by
      intro h
      simp [h] at hc
    have hlast := List.rdropWhile_last_not isSpace (s.dropWhile isSpace) hne
    rw [List.getLast?_eq_some_getLast hne] at hc
    obtain rfl := Option.some.inj hc
    exact Bool.eq_false_iff.2 hlast

/-- Stripping keeps what has no blank ends. -/
theorem strip_eq_self_iff {s : Str} : strip s = s ↔ Trimmed s := by
  constructor
  · intro h
    exact h ▸ trimmed_strip s
  · rintro ⟨hfront, hback⟩
    have hdrop : s.dropWhile isSpace = s := by
      cases s with
      | nil => rfl
      | cons a t => exact List.dropWhile_cons_of_neg (by simpa using hfront a)
    rw [strip_eq, hdrop, List.rdropWhile_eq_self_iff]
    intro hne
    simpa using hback _ (List.getLast?_eq_some_getLast hne ▸ rfl)

/-- What is stripped off is blank. -/
theorem exists_strip (s : Str) : ∃ front back : Str,
    (∀ c ∈ front, isSpace c) ∧ (∀ c ∈ back, isSpace c) ∧ s = front ++ (strip s ++ back) := by
  refine ⟨s.takeWhile isSpace, (s.dropWhile isSpace).rtakeWhile isSpace,
    fun c hc => List.mem_takeWhile_imp hc, fun c hc => List.mem_rtakeWhile_imp hc, ?_⟩
  rw [strip_eq, List.rdropWhile_append_rtakeWhile, List.takeWhile_append_dropWhile]

/-- Blanks around a text without blank ends are stripped off. -/
theorem strip_append {front s back : Str} (hfront : ∀ c ∈ front, isSpace c)
    (hback : ∀ c ∈ back, isSpace c) (hs : Trimmed s) : strip (front ++ (s ++ back)) = s := by
  have hrdrop : ∀ t : Str, Trimmed t → (t ++ back).rdropWhile isSpace = t := by
    intro t ht
    induction back using List.reverseRecOn with
    | nil =>
      rw [List.append_nil, List.rdropWhile_eq_self_iff]
      intro hne
      exact Bool.eq_false_iff.1 (ht.back _ (List.getLast?_eq_some_getLast hne ▸ rfl))
    | append_singleton back c ih =>
      rw [← List.append_assoc, List.rdropWhile_concat_pos _ _ _ (hback c (by simp))]
      exact ih fun d hd => hback d (List.mem_append_left _ hd)
  rw [strip_eq, List.dropWhile_append_of_pos hfront]
  cases s with
  | nil =>
    have hnil : back.dropWhile isSpace = [] := List.dropWhile_eq_nil_iff.2 hback
    rw [List.nil_append, hnil]
    rfl
  | cons a s =>
    have ha : ¬ isSpace a = true := Bool.eq_false_iff.1 (hs.front a rfl)
    rw [List.cons_append, List.dropWhile_cons_of_neg ha, ← List.cons_append]
    exact hrdrop _ hs

theorem strip_front {front : Str} (hfront : ∀ c ∈ front, isSpace c) (s : Str) :
    strip (front ++ s) = strip s := by
  rw [strip_eq, List.dropWhile_append_of_pos hfront, strip_eq]

theorem strip_back {back : Str} (hback : ∀ c ∈ back, isSpace c) (s : Str) :
    strip (s ++ back) = strip s := by
  obtain ⟨front, blank, hfront, hblank, hs⟩ := exists_strip s
  have hblanks : ∀ c ∈ blank ++ back, isSpace c :=
    fun c hc => (List.mem_append.1 hc).elim (hblank c) (hback c)
  have hstrip := strip_append hfront hblanks (trimmed_strip s)
  rwa [← List.append_assoc (strip s), ← List.append_assoc front, ← hs] at hstrip

theorem strip_dropWhile (s : Str) : strip (s.dropWhile isSpace) = strip s := by
  have hblank : ∀ c ∈ s.takeWhile isSpace, isSpace c := fun c hc => List.mem_takeWhile_imp hc
  have h := strip_front hblank (s.dropWhile isSpace)
  have hparts : s.takeWhile isSpace ++ s.dropWhile isSpace = s := List.takeWhile_append_dropWhile
  rw [hparts] at h
  exact h.symm

theorem strip_rdropWhile (s : Str) : strip (s.rdropWhile isSpace) = strip s := by
  have hblank : ∀ c ∈ s.rtakeWhile isSpace, isSpace c := fun c hc => List.mem_rtakeWhile_imp hc
  have h := strip_back hblank (s.rdropWhile isSpace)
  rw [List.rdropWhile_append_rtakeWhile] at h
  exact h.symm

/-- Blanks are stripped off on either side of what is not blank. -/
theorem strip_append_cons {c : Char} (hc : isSpace c = false) (s s' : Str) :
    strip (s ++ c :: s') = s.dropWhile isSpace ++ c :: s'.rdropWhile isSpace := by
  have hdrop : ∀ u v : Str, (u ++ c :: v).dropWhile isSpace = u.dropWhile isSpace ++ c :: v := by
    intro u v
    rw [List.dropWhile_append]
    split
    · rename_i hnil
      rw [List.isEmpty_iff.1 hnil, List.dropWhile_cons_of_neg (by rw [hc]; exact Bool.false_ne_true)]
      rfl
    · rfl
  rw [strip_eq, hdrop, List.rdropWhile, List.reverse_append, List.reverse_cons, List.append_assoc,
    List.singleton_append, hdrop, List.reverse_append, List.reverse_cons, List.reverse_reverse,
    List.append_assoc, List.singleton_append]
  rfl

/-- What is between two trimmed ends does not matter. -/
theorem Trimmed.append {s t : Str} (hs : Trimmed s) (ht : Trimmed t) (hs' : s ≠ []) (ht' : t ≠ [])
    (mid : Str) : Trimmed (s ++ mid ++ t) where
  front c hc := by
    obtain ⟨a, s, rfl⟩ := List.exists_cons_of_ne_nil hs'
    exact hs.front c (by simpa using hc)
  back c hc := by
    rw [List.getLast?_append_of_ne_nil _ ht'] at hc
    exact ht.back c hc

theorem trimmed_join {c : Char} {ps : List Str} (h : ∀ p ∈ ps, p ≠ [] ∧ Trimmed p) :
    Trimmed (Text.join c ps) := by
  induction ps with
  | nil => exact trimmed_nil
  | cons p ps ih =>
    have hp := h p (List.mem_cons_self ..)
    have hps : ∀ q ∈ ps, q ≠ [] ∧ Trimmed q := fun q hq => h q (List.mem_cons_of_mem _ hq)
    by_cases hnil : ps = []
    · subst hnil
      exact hp.2
    · have hjoin : Text.join c ps ≠ [] := fun heq => hnil (Text.join_eq_nil (fun q hq => (hps q hq).1) heq)
      rw [Text.join_cons_of_ne_nil c p hnil, List.append_cons]
      exact hp.2.append (ih hps) hp.1 hjoin [c]

/-! ## Words -/

/-- `s.split()` -/
def words (s : Str) : List Str := (s.splitOnP isSpace).filter (· ≠ [])

theorem words_join {ps : List Str} (h : ∀ p ∈ ps, p ≠ [] ∧ ∀ c ∈ p, isSpace c = false) :
    words (Text.join ' ' ps) = ps := by
  induction ps with
  | nil => rfl
  | cons p ps ih =>
    obtain ⟨hne, hp⟩ := h p List.mem_cons_self
    have hps := ih fun q hq => h q (List.mem_cons_of_mem _ hq)
    by_cases hnil : ps = []
    · subst hnil
      have hsplit : p.splitOnP isSpace = [p] := List.splitOnP_eq_singleton hp
      rw [words, Text.join, hsplit]
      simp [hne]
    · have hsplit : (p ++ ' ' :: Text.join ' ' ps).splitOnP isSpace =
          p :: (Text.join ' ' ps).splitOnP isSpace :=
        List.splitOnP_append_cons_of_forall_mem hp ' ' rfl _
      rw [words, Text.join_cons_of_ne_nil ' ' p hnil, hsplit, List.filter_cons, if_pos (by simpa using hne)]
      exact congrArg (p :: ·) hps

end PartCAD.Lib
