import Mathlib.Data.List.Sort
import Mathlib.Tactic.Common
import PartCAD.Lib.Numerals
import PartCAD.Lib.Text

/-!
# Python values

The values that configurations and stored data are made of, over a type `F` of floats of which only
the text is known (`PyFloat`).  A dictionary is the list of its items.

* `Value.WellFormed` : no dictionary has a key twice;
* `Value.Same` : equality up to the order of the keys.
-/

namespace PartCAD.Lib

/-! ## Numbers -/

/-- `str(n)` -/
def intText : ℤ → Str
  | .ofNat n => Nat.toDigits 10 n
  | .negSucc n => '-' :: Nat.toDigits 10 (n + 1)

/-- A digit and more digits. -/
def IsDigits (s : Str) : Prop := s ≠ [] ∧ ∀ c ∈ s, c.isDigit

theorem ne_of_isDigit {c d : Char} (hc : c.isDigit = true) (hd : d.isDigit = false) : c ≠ d := by
  rintro rfl
  rw [hc] at hd
  cases hd

/-- What `repr` gives for a finite float: digits, and at least one of a fraction and an
exponent. -/
def IsFloatText (s : Str) : Prop :=
  ∃ neg int frac exp : Str,
    s = neg ++ int ++ frac ++ exp ∧ (neg = [] ∨ neg = ['-']) ∧
    (IsDigits int ∧ (int = ['0'] ∨ int.head? ≠ some '0')) ∧
    (frac = [] ∨ ∃ ds, IsDigits ds ∧ frac = '.' :: ds) ∧
    (exp = [] ∨ ∃ sign ds, (sign = '+' ∨ sign = '-') ∧ IsDigits ds ∧ exp = 'e' :: sign :: ds) ∧
    (frac ≠ [] ∨ exp ≠ [])

/-- Finite floats, with `repr`, `float` of a text and of an integer, and `bool`. -/
class PyFloat (F : Type) where
  repr : F → Str
  ofText : Str → Option F
  ofInt : ℤ → Option F
  isZero : F → Bool
  ofText_repr : ∀ x, ofText (repr x) = some x
  isFloatText_repr : ∀ x, IsFloatText (repr x)

/-- The floats from 0.0 to 9.0. -/
abbrev DigitFloat := Fin 10

instance : PyFloat DigitFloat where
  repr d := [Nat.digitChar d, '.', '0']
  ofText s := (List.finRange 10).find? fun d => s = [Nat.digitChar d, '.', '0']
  ofInt n := (List.finRange 10).find? fun d => (d.val : ℤ) = n
  isZero d := d = 0
  ofText_repr := by decide
  isFloatText_repr d := by
    refine ⟨[], [Nat.digitChar d], ".0".toList, [], by simp, Or.inl rfl, ⟨?_, ?_⟩,
      Or.inr ⟨['0'], ?_, rfl⟩, Or.inl rfl, Or.inl (by simp)⟩
    · refine ⟨by simp, fun c hc => ?_⟩
      rw [List.mem_singleton.1 hc, Nat.isDigit_digitChar]
      exact decide_eq_true d.isLt
    · revert d
      decide
    · refine ⟨by simp, fun c hc => ?_⟩
      rw [List.mem_singleton.1 hc]
      rfl

theorem notMem_of_isFloatText {s : Str} {c : Char} (h : IsFloatText s) (hd : c.isDigit = false)
    (hc : c ∉ "-+.e".toList) : c ∉ s := by
  have hdigits : ∀ ds : Str, IsDigits ds → c ∉ ds := by
    intro ds hds hmem
    exact ne_of_isDigit (hds.2 c hmem) hd rfl
  obtain ⟨neg, int, frac, exp, rfl, hneg, ⟨hint, -⟩, hfrac, hexp, -⟩ := h
  simp only [List.mem_append, not_or]
  refine ⟨⟨⟨?_, hdigits int hint⟩, ?_⟩, ?_⟩
  · rcases hneg with rfl | rfl
    · simp
    · exact fun h => hc (by simp [List.mem_singleton.1 h])
  · rcases hfrac with rfl | ⟨ds, hds, rfl⟩
    · simp
    · rintro (_ | ⟨_, h⟩)
      · exact hc (by simp)
      · exact hdigits ds hds h
  · rcases hexp with rfl | ⟨sign, ds, hsign, hds, rfl⟩
    · simp
    · rintro (_ | ⟨_, _ | ⟨_, h⟩⟩)
      · exact hc (by simp)
      · rcases hsign with rfl | rfl
        · exact hc (by simp)
        · exact hc (by simp)
      · exact hdigits ds hds h

/-! ## Values -/

/-- A value. -/
inductive Value (F : Type) where
  | none
  | bool (b : Bool)
  | int (n : ℤ)
  | float (x : F)
  | str (s : Str)
  | bytes (b : Bytes)
  | list (vs : List (Value F))
  | dict (items : List (Str × Value F))

/-- Induction on a value, with the values in a list and those in a dictionary. -/
@[elab_as_elim]
theorem Value.induction {F : Type} {motive : Value F → Prop} (none : motive .none)
    (bool : ∀ b, motive (.bool b)) (int : ∀ n, motive (.int n)) (float : ∀ x, motive (.float x))
    (str : ∀ s, motive (.str s)) (bytes : ∀ b, motive (.bytes b))
    (list : ∀ vs, (∀ v ∈ vs, motive v) → motive (.list vs))
    (dict : ∀ items : List (Str × Value F), (∀ p ∈ items, motive p.2) → motive (.dict items))
    (v : Value F) : motive v :=
  @Value.rec F motive (fun vs => ∀ v ∈ vs, motive v) (fun items => ∀ p ∈ items, motive p.2)
    (fun p => motive p.2) none bool int float str bytes list dict (by simp)
    (fun _ _ hv hvs => List.forall_mem_cons.2 ⟨hv, hvs⟩) (by simp)
    (fun _ _ hp hps => List.forall_mem_cons.2 ⟨hp, hps⟩) (fun _ _ hv => hv) v

/-- `repr` of one byte inside quotes. -/
def byteText (quote : Char) (x : UInt8) : Str :=
  let c := Char.ofNat x.toNat
  if c = quote ∨ c = '\\' then ['\\', c]
  else if c = '\t' then ['\\', 't']
  else if c = '\n' then ['\\', 'n']
  else if c = '\r' then ['\\', 'r']
  else if 32 ≤ x ∧ x < 127 then [c]
  else ['\\', 'x', Nat.digitChar (x.toNat / 16), Nat.digitChar (x.toNat % 16)]

/-- `repr(b)` -/
def bytesText (b : Bytes) : Str :=
  let quote := if 39 ∈ b ∧ 34 ∉ b then '"' else '\''
  'b' :: quote :: b.flatMap (byteText quote) ++ [quote]

/-- The items in the order of their keys. -/
def sortItems {α : Type} (items : List (Str × α)) : List (Str × α) :=
  items.insertionSort fun p q => p.1 ≤ q.1

theorem perm_sortItems {α : Type} (items : List (Str × α)) : (sortItems items).Perm items :=
  List.perm_insertionSort _ items

theorem pairwise_sortItems {α : Type} (items : List (Str × α)) :
    (sortItems items).Pairwise fun p q => p.1 ≤ q.1 := by
  have htotal : Std.Total fun p q : Str × α => p.1 ≤ q.1 := ⟨fun p q => Std.le_total⟩
  have htrans : IsTrans (Str × α) fun p q => p.1 ≤ q.1 := ⟨fun _ _ _ => Std.le_trans⟩
  exact List.pairwise_insertionSort _ items

/-- Sorting forgets the order of items with different keys. -/
theorem sortItems_eq_of_perm {α : Type} {items items' : List (Str × α)} (h : items.Perm items')
    (hnodup : (items.map Prod.fst).Nodup) : sortItems items = sortItems items' := by
  have hperm : (sortItems items).Perm (sortItems items') :=
    (perm_sortItems items).trans (h.trans (perm_sortItems items').symm)
  refine List.Perm.eq_of_pairwise (fun p q hp hq hle hge => ?_) (pairwise_sortItems _)
    (pairwise_sortItems _) hperm
  have hp' : p ∈ items := (perm_sortItems items).mem_iff.1 hp
  have hq' : q ∈ items := h.mem_iff.2 ((perm_sortItems items').mem_iff.1 hq)
  exact List.inj_on_of_nodup_map hnodup hp' hq' (Std.le_antisymm hle hge)

namespace Value

variable {F : Type}

mutual

/-- No dictionary has a key twice. -/
def WellFormed : Value F → Prop
  | .list vs => WellFormedList vs
  | .dict items => (items.map Prod.fst).Nodup ∧ WellFormedItems items
  | _ => True

def WellFormedList : List (Value F) → Prop
  | [] => True
  | v :: vs => WellFormed v ∧ WellFormedList vs

def WellFormedItems : List (Str × Value F) → Prop
  | [] => True
  | (_, v) :: items => WellFormed v ∧ WellFormedItems items

end

mutual

/-- The value with the items of every dictionary in the order of their keys. -/
def canon : Value F → Value F
  | .list vs => .list (canonList vs)
  | .dict items => .dict (sortItems (canonItems items))
  | .none => .none
  | .bool b => .bool b
  | .int n => .int n
  | .float x => .float x
  | .str s => .str s
  | .bytes b => .bytes b

def canonList : List (Value F) → List (Value F)
  | [] => []
  | v :: vs => canon v :: canonList vs

def canonItems : List (Str × Value F) → List (Str × Value F)
  | [] => []
  | (k, v) :: items => (k, canon v) :: canonItems items

end

/-- Equality up to the order of the keys. -/
def Same (v w : Value F) : Prop := canon v = canon w

end Value

end PartCAD.Lib
