import Mathlib.Algebra.Order.Floor.Ring
import Mathlib.Analysis.SpecialFunctions.Log.Base
import Mathlib.Analysis.SpecialFunctions.Trigonometric.Arctan
import PartCAD.Expression.Syntax
import PartCAD.Lib.Euler

/-!
# Numbers of Python

Integers have no bound, and a number with an integer and a float is one of floats.  What floats are is
left open; here they may be the real numbers, without rounding.

* `Number.binary`, `NumericFunction.apply` : the operators and the functions of numbers;
* `exact` : the real numbers as floats;
* `NumericFunction.value` : what the functions mean;
* `toReal_binary`, `toReal_apply` : they are what they mean.
-/

namespace PartCAD.Expr

open PartCAD.Lib

/-! ## The functions -/

/-- The functions in `NUMERIC_FUNCTIONS`. -/
inductive NumericFunction
  | abs
  | bool
  | float
  | int
  | len
  | round
  | pow
  | acos
  | asin
  | atan
  | atan2
  | ceil
  | cos
  | degrees
  | floor
  | hypot
  | log
  | radians
  | sin
  | sqrt
  | tan
  deriving DecidableEq, Repr

/-- The name that stands for it in an expression. -/
def NumericFunction.name : NumericFunction → Str
  | .abs => "abs".toList
  | .bool => "bool".toList
  | .float => "float".toList
  | .int => "int".toList
  | .len => "len".toList
  | .round => "round".toList
  | .pow => "pow".toList
  | .acos => "acos".toList
  | .asin => "asin".toList
  | .atan => "atan".toList
  | .atan2 => "atan2".toList
  | .ceil => "ceil".toList
  | .cos => "cos".toList
  | .degrees => "degrees".toList
  | .floor => "floor".toList
  | .hypot => "hypot".toList
  | .log => "log".toList
  | .radians => "radians".toList
  | .sin => "sin".toList
  | .sqrt => "sqrt".toList
  | .tan => "tan".toList

/-- The constants in `SAFE_NAMES`. -/
inductive NamedConstant
  | e
  | pi
  | upperPi
  | mPi
  | inch
  | inches
  | foot
  | feet
  deriving DecidableEq, Repr

def NamedConstant.name : NamedConstant → Str
  | .e => "e".toList
  | .pi => "pi".toList
  | .upperPi => "PI".toList
  | .mPi => "M_PI".toList
  | .inch => "INCH".toList
  | .inches => "INCHES".toList
  | .foot => "FOOT".toList
  | .feet => "FEET".toList

/-! ## Floats -/

/-- The floats of the interpreter.  What is no number has no integer near it, and a function of `math`
has no value outside its domain. -/
structure Floats (F : Type) where
  ofInt : ℤ → F
  add : F → F → F
  sub : F → F → F
  mul : F → F → F
  div : F → F → F
  floorDiv : F → F → F
  mod : F → F → F
  divInt : ℤ → ℤ → F
  neg : F → F
  abs : F → F
  isZero : F → Bool
  trunc : F → Option ℤ
  floor : F → Option ℤ
  ceil : F → Option ℤ
  round : F → Option ℤ
  roundTo : F → ℤ → F
  math : NumericFunction → List F → Option F
  constant : NamedConstant → F

variable {F : Type} (fl : Floats F)

namespace Number

/-- The integer that it is. -/
def asInt : Number F → Option ℤ
  | .int n => some n
  | .bool b => some (if b then 1 else 0)
  | .float _ => none

def toFloat : Number F → F
  | .int n => fl.ofInt n
  | .bool b => fl.ofInt (if b then 1 else 0)
  | .float x => x

/-- An operator on integers. -/
def intBinary (op : Operator) (m n : ℤ) : Option (Except Str (Number F)) :=
  match op with
  | .add => some (.ok (.int (m + n)))
  | .sub => some (.ok (.int (m - n)))
  | .mult => some (.ok (.int (m * n)))
  | .div => some (if n = 0 then .error "ZeroDivisionError".toList else .ok (.float (fl.divInt m n)))
  | .floorDiv => some (if n = 0 then .error "ZeroDivisionError".toList else .ok (.int (m.fdiv n)))
  | .mod => some (if n = 0 then .error "ZeroDivisionError".toList else .ok (.int (m.fmod n)))
  | _ => none

/-- An operator on floats. -/
def floatBinary (op : Operator) (x y : F) : Option (Except Str (Number F)) :=
  match op with
  | .add => some (.ok (.float (fl.add x y)))
  | .sub => some (.ok (.float (fl.sub x y)))
  | .mult => some (.ok (.float (fl.mul x y)))
  | .div => some (if fl.isZero y then .error "ZeroDivisionError".toList else .ok (.float (fl.div x y)))
  | .floorDiv =>
    some (if fl.isZero y then .error "ZeroDivisionError".toList else .ok (.float (fl.floorDiv x y)))
  | .mod => some (if fl.isZero y then .error "ZeroDivisionError".toList else .ok (.float (fl.mod x y)))
  | _ => none

/-- The arithmetic of numbers; the other operators are left out, `_check` lets none of them through. -/
def binary (op : Operator) (a b : Number F) : Option (Except Str (Number F)) :=
  match a.asInt, b.asInt with
  | some m, some n => intBinary fl op m n
  | _, _ => floatBinary fl op (a.toFloat fl) (b.toFloat fl)

/-- `+a` and `-a` -/
def unary (op : UnaryOperator) (a : Number F) : Option (Number F) :=
  match op, a.asInt with
  | .uAdd, some n => some (.int n)
  | .uAdd, none => some a
  | .uSub, some n => some (.int (-n))
  | .uSub, none => some (.float (fl.neg (a.toFloat fl)))
  | _, _ => none

end Number

/-! ## Rounding -/

/-- `m / n` as an integer, the even one of two that are as near. -/
def halfEven (m n : ℤ) : ℤ :=
  let q := m.fdiv n
  let r := m.fmod n
  if 2 * r < n then q else if n < 2 * r then q + 1 else if q % 2 = 0 then q else q + 1

/-- `round(n, digits)` of an integer. -/
def roundInt (n digits : ℤ) : ℤ :=
  if 0 ≤ digits then n else halfEven n (10 ^ (-digits).toNat) * 10 ^ (-digits).toNat

/-! ## The functions of numbers -/

/-- An integer near a float. -/
def nearInt : Option ℤ → Except Str (Number F)
  | some n => .ok (.int n)
  | none => .error "ValueError".toList

/-- A function of one number. -/
def one (args : List (Number F)) (call : Number F → Except Str (Number F)) : Except Str (Number F) :=
  match args with
  | [a] => call a
  | _ => .error "TypeError".toList

/-- A function of one number, which may be left out. -/
def oneOr (missing : Number F) (args : List (Number F)) (call : Number F → Except Str (Number F)) :
    Except Str (Number F) :=
  match args with
  | [] => .ok missing
  | [a] => call a
  | _ => .error "TypeError".toList

/-- Integers and floats are treated apart. -/
def Number.byKind (a : Number F) (onInt : ℤ → Except Str (Number F)) (onFloat : F → Except Str (Number F)) :
    Except Str (Number F) :=
  match a.asInt with
  | some n => onInt n
  | none => onFloat (a.toFloat fl)

/-- `round` -/
def roundNumber : List (Number F) → Except Str (Number F)
  | [a] => a.byKind fl (fun n => .ok (.int n)) (fun x => nearInt (fl.round x))
  | [a, digits] =>
    digits.byKind fl
      (fun k => a.byKind fl (fun n => .ok (.int (roundInt n k))) (fun x => .ok (.float (fl.roundTo x k))))
      (fun _ => .error "TypeError".toList)
  | _ => .error "TypeError".toList

/-- The number of arguments of a function of `math`. -/
def NumericFunction.takes : NumericFunction → ℕ → Bool
  | .pow, n | .atan2, n => n == 2
  | .log, n => n == 1 || n == 2
  | .hypot, _ => true
  | _, n => n == 1

/-- A function of `math`: it takes floats. -/
def mathCall (f : NumericFunction) (args : List (Number F)) : Except Str (Number F) :=
  if f.takes args.length then
    match fl.math f (args.map (Number.toFloat fl)) with
    | some x => .ok (.float x)
    | none => .error "ValueError".toList
  else .error "TypeError".toList

/-- A function called with numbers. -/
def NumericFunction.apply (f : NumericFunction) (args : List (Number F)) : Except Str (Number F) :=
  match f with
  | .abs => one args fun a => a.byKind fl (fun n => .ok (.int |n|)) (fun x => .ok (.float (fl.abs x)))
  | .bool =>
    oneOr (.bool false) args fun a =>
      a.byKind fl (fun n => .ok (.bool (n ≠ 0))) (fun x => .ok (.bool (!fl.isZero x)))
  | .float => oneOr (.float (fl.ofInt 0)) args fun a => .ok (.float (a.toFloat fl))
  | .int =>
    oneOr (.int 0) args fun a => a.byKind fl (fun n => .ok (.int n)) (fun x => nearInt (fl.trunc x))
  | .len => .error "TypeError".toList
  | .round => roundNumber fl args
  | .ceil => one args fun a => a.byKind fl (fun n => .ok (.int n)) (fun x => nearInt (fl.ceil x))
  | .floor => one args fun a => a.byKind fl (fun n => .ok (.int n)) (fun x => nearInt (fl.floor x))
  | f => mathCall fl f args

/-! ## What the functions mean -/

noncomputable section

/-- The nearest integer, the even one of two that are as near. -/
def roundEven (x : ℝ) : ℤ :=
  if 2 * Int.fract x < 1 then ⌊x⌋
  else if 1 < 2 * Int.fract x then ⌊x⌋ + 1
  else if ⌊x⌋ % 2 = 0 then ⌊x⌋
  else ⌊x⌋ + 1

/-- Towards zero. -/
def truncate (x : ℝ) : ℤ := if 0 ≤ x then ⌊x⌋ else ⌈x⌉

/-- To so many digits after the point. -/
def roundTo (x : ℝ) (digits : ℤ) : ℝ := roundEven (x * 10 ^ digits) / 10 ^ digits

/-- The value of a function. -/
def NumericFunction.value (f : NumericFunction) (args : List ℝ) : ℝ :=
  match f, args with
  | .abs, [x] => |x|
  | .bool, [x] => if x = 0 then 0 else 1
  | .float, [x] => x
  | .int, [x] => truncate x
  | .round, [x] => roundEven x
  | .round, [x, digits] => roundTo x ⌊digits⌋
  | .pow, [x, y] => x ^ y
  | .acos, [x] => Real.arccos x
  | .asin, [x] => Real.arcsin x
  | .atan, [x] => Real.arctan x
  | .atan2, [y, x] => Lib.atan2 y x
  | .ceil, [x] => ⌈x⌉
  | .cos, [x] => Real.cos x
  | .degrees, [x] => x * (180 / Real.pi)
  | .floor, [x] => ⌊x⌋
  | .hypot, xs => √((xs.map (· ^ 2)).sum)
  | .log, [x] => Real.log x
  | .log, [x, base] => Real.logb base x
  | .radians, [x] => x * (Real.pi / 180)
  | .sin, [x] => Real.sin x
  | .sqrt, [x] => √x
  | .tan, [x] => Real.tan x
  | _, _ => 0

/-- Where a function has a value.  The number of digits has to be an integer for Python too, and a number
has no length. -/
def NumericFunction.Domain (f : NumericFunction) (args : List (ℝ × Bool)) : Prop :=
  match f, args with
  | .abs, [_] => True
  | .bool, [] => True
  | .bool, [_] => True
  | .float, [] => True
  | .float, [_] => True
  | .int, [] => True
  | .int, [_] => True
  | .round, [_] => True
  | .round, [_, digits] => digits.2 = true
  | .pow, [x, y] => 0 < x.1 ∨ x.1 = 0 ∧ 0 ≤ y.1 ∨ x.1 < 0 ∧ ∃ n : ℤ, y.1 = n
  | .acos, [x] => |x.1| ≤ 1
  | .asin, [x] => |x.1| ≤ 1
  | .atan, [_] => True
  | .atan2, [_, _] => True
  | .ceil, [_] => True
  | .cos, [_] => True
  | .degrees, [_] => True
  | .floor, [_] => True
  | .hypot, _ => True
  | .log, [x] => 0 < x.1
  | .log, [x, base] => 0 < x.1 ∧ 0 < base.1 ∧ base.1 ≠ 1
  | .radians, [_] => True
  | .sin, [_] => True
  | .sqrt, [x] => 0 ≤ x.1
  | .tan, [x] => Real.cos x.1 ≠ 0
  | _, _ => False

def NamedConstant.value : NamedConstant → ℝ
  | .e => Real.exp 1
  | .pi => Real.pi
  | .upperPi => Real.pi
  | .mPi => Real.pi
  | .inch => 25.4
  | .inches => 25.4
  | .foot => 304.8
  | .feet => 304.8

open Classical in
/-- Floats that are the real numbers. -/
def exact : Floats ℝ where
  ofInt n := n
  add x y := x + y
  sub x y := x - y
  mul x y := x * y
  div x y := x / y
  floorDiv x y := ⌊x / y⌋
  mod x y := x - y * ⌊x / y⌋
  divInt m n := m / n
  neg x := -x
  abs x := |x|
  isZero x := decide (x = 0)
  trunc x := some (truncate x)
  floor x := some ⌊x⌋
  ceil x := some ⌈x⌉
  round x := some (roundEven x)
  roundTo := roundTo
  math f args := if f.Domain (args.map (·, false)) then some (f.value args) else none
  constant := NamedConstant.value

/-! ## What is an integer -/

/-- The real number that it is. -/
def Number.toReal (a : Number ℝ) : ℝ := a.toFloat exact

/-- It is an integer for Python: `2.0` is none. -/
def Number.integral (a : Number ℝ) : Bool := a.asInt.isSome

/-- The value of a function is an integer for Python. -/
def NumericFunction.integral (f : NumericFunction) (args : List Bool) : Bool :=
  match f with
  | .abs => args.headD false
  | .bool | .int | .ceil | .floor => true
  | .round => args.length == 1 || args.headD false
  | _ => false

end

theorem toReal_of_asInt {a : Number ℝ} {n : ℤ} (h : a.asInt = some n) : a.toReal = n := by
  cases a with
  | int m =>
    obtain rfl : m = n := Option.some.inj h
    rfl
  | bool b =>
    obtain rfl : (if b then 1 else 0) = n := Option.some.inj h
    rfl
  | float x => cases h

theorem integral_of_asInt {a : Number ℝ} {n : ℤ} (h : a.asInt = some n) : a.integral = true := by
  rw [Number.integral, h]
  rfl

theorem integral_of_none {a : Number ℝ} (h : a.asInt = none) : a.integral = false := by
  rw [Number.integral, h]
  rfl

/-! ## Rounding of integers -/

theorem truncate_intCast (n : ℤ) : truncate n = n := by
  rw [truncate, Int.floor_intCast, Int.ceil_intCast, ite_self]

theorem roundEven_intCast (n : ℤ) : roundEven n = n := by
  have hfract : 2 * Int.fract (n : ℝ) < 1 := by
    rw [Int.fract_intCast, mul_zero]
    exact one_pos
  rw [roundEven, if_pos hfract, Int.floor_intCast]

theorem floor_div_of_pos (m : ℤ) {n : ℤ} (hn : 0 < n) : ⌊(m : ℝ) / n⌋ = m.fdiv n := by
  rw [Int.fdiv_eq_ediv_of_nonneg m hn.le, Int.floor_div_cast_of_nonneg hn.le, Int.floor_intCast]

/-- The quotient of integers is rounded down, whatever their signs. -/
theorem floor_div (m : ℤ) {n : ℤ} (hn : n ≠ 0) : ⌊(m : ℝ) / n⌋ = m.fdiv n := by
  rcases lt_or_gt_of_ne hn with hneg | hpos
  · have hopposite : (m : ℝ) / n = ((-m : ℤ) : ℝ) / ((-n : ℤ) : ℝ) := by
      rw [Int.cast_neg, Int.cast_neg, neg_div_neg_eq]
    rw [hopposite, floor_div_of_pos (-m) (by omega), Int.neg_fdiv_neg]
  · exact floor_div_of_pos m hpos

theorem halfEven_eq (m : ℤ) {n : ℤ} (hn : 0 < n) : roundEven (m / n) = halfEven m n := by
  have hpos : (0 : ℝ) < n := by exact_mod_cast hn
  have hsplit : n * m.fdiv n + m.fmod n = m := Int.mul_fdiv_add_fmod m n
  have hfract : 2 * Int.fract ((m : ℝ) / n) = (2 * m.fmod n : ℤ) / n := by
    have hm : (m : ℝ) = n * m.fdiv n + m.fmod n := by exact_mod_cast hsplit.symm
    rw [Int.fract, floor_div_of_pos m hn]
    push_cast
    field_simp
    linear_combination hm
  have hless : 2 * Int.fract ((m : ℝ) / n) < 1 ↔ 2 * m.fmod n < n := by
    rw [hfract, div_lt_one hpos, Int.cast_lt]
  have hmore : 1 < 2 * Int.fract ((m : ℝ) / n) ↔ n < 2 * m.fmod n := by
    rw [hfract, one_lt_div hpos, Int.cast_lt]
  simp only [roundEven, halfEven, hless, hmore, floor_div_of_pos m hn]

theorem roundTo_int (n digits : ℤ) : roundTo n digits = roundInt n digits := by
  rw [roundTo, roundInt]
  by_cases h : 0 ≤ digits
  · -- the digits before the point are all kept
    lift digits to ℕ using h
    have hscaled : (n : ℝ) * 10 ^ (digits : ℤ) = ((n * 10 ^ digits : ℤ) : ℝ) := by
      push_cast
      rw [zpow_natCast]
    have hne : (10 : ℝ) ^ (digits : ℤ) ≠ 0 := zpow_ne_zero _ (by norm_num)
    rw [if_pos (by omega), hscaled, roundEven_intCast, ← hscaled, mul_div_cancel_right₀ _ hne]
  · set k := (-digits).toNat with hk
    have hdigits : digits = -(k : ℤ) := by omega
    have hten : (0 : ℤ) < 10 ^ k := by positivity
    have hscaled : (n : ℝ) * 10 ^ digits = n / ((10 ^ k : ℤ) : ℝ) := by
      rw [hdigits, zpow_neg, zpow_natCast]
      push_cast
      rfl
    rw [if_neg h, hscaled, halfEven_eq n hten, hdigits, zpow_neg, zpow_natCast, div_inv_eq_mul]
    push_cast
    rfl

/-! ## The functions are what they mean -/

section

variable {args : List (Number ℝ)}

/-- A number with the kind that it has for Python. -/
noncomputable def Number.kinded (a : Number ℝ) : ℝ × Bool := (a.toReal, a.integral)

/-- The call has the value that the function has there. -/
def NumericFunction.Gives (f : NumericFunction) (args : List (Number ℝ)) : Prop :=
  ∃ c, f.apply exact args = .ok c ∧ c.toReal = f.value (args.map Number.toReal) ∧
    c.integral = f.integral (args.map Number.integral)

/-- A function of one number, for integers and for floats. -/
theorem gives_of_kinds {f : NumericFunction} {a : Number ℝ} (onInt : ℤ → Number ℝ)
    (onFloat : ℝ → Number ℝ)
    (happly : f.apply exact [a] = a.byKind exact (fun n => .ok (onInt n)) (fun x => .ok (onFloat x)))
    (hint : ∀ n : ℤ, (onInt n).toReal = f.value [(n : ℝ)] ∧ (onInt n).integral = f.integral [true])
    (hfloat : ∀ x : ℝ, (onFloat x).toReal = f.value [x] ∧ (onFloat x).integral = f.integral [false]) :
    f.Gives [a] := by
  rw [Number.byKind] at happly
  cases h : a.asInt with
  | some n =>
    rw [h] at happly
    refine ⟨onInt n, happly, ?_, ?_⟩
    · rw [List.map_singleton, toReal_of_asInt h]
      exact (hint n).1
    · rw [List.map_singleton, integral_of_asInt h]
      exact (hint n).2
  | none =>
    rw [h] at happly
    refine ⟨onFloat (a.toFloat exact), happly, (hfloat _).1, ?_⟩
    rw [List.map_singleton, integral_of_none h]
    exact (hfloat _).2

/-- The functions of `math`, which answer with floats. -/
def NumericFunction.isMath : NumericFunction → Bool
  | .abs | .bool | .float | .int | .len | .round | .ceil | .floor => false
  | _ => true

theorem domain_math {f : NumericFunction} (hf : f.isMath = true) (h : f.Domain (args.map Number.kinded)) :
    f.Domain (args.map fun a => (a.toReal, false)) ∧ f.takes args.length = true := by
  rcases args with _ | ⟨a, _ | ⟨b, _ | ⟨c, rest⟩⟩⟩ <;> cases f <;>
    first | exact ⟨h, rfl⟩ | exact h.elim | cases hf

theorem exact_math {f : NumericFunction} (h : f.Domain (args.map fun a => (a.toReal, false))) :
    exact.math f (args.map (Number.toFloat exact)) = some (f.value (args.map Number.toReal)) := by
  have hargs : (args.map Number.toReal).map (·, false) = args.map fun a => (a.toReal, false) :=
    List.map_map
  rw [← hargs] at h
  exact if_pos h

theorem gives_math {f : NumericFunction} (hf : f.isMath = true)
    (h : f.Domain (args.map Number.kinded)) : f.Gives args := by
  obtain ⟨hdomain, htakes⟩ := domain_math hf h
  have hcall : mathCall exact f args = .ok (.float (f.value (args.map Number.toReal))) := by
    rw [mathCall, if_pos htakes, exact_math hdomain]
  have happly : f.apply exact args = mathCall exact f args := by
    cases f <;> first | rfl | cases hf
  have hintegral : f.integral (args.map Number.integral) = false := by
    cases f <;> first | rfl | cases hf
  exact ⟨_, happly.trans hcall, rfl, hintegral.symm⟩

theorem gives_bool {a : Number ℝ} : NumericFunction.bool.Gives [a] := by
  refine gives_of_kinds (fun n => .bool (n ≠ 0)) (fun x => .bool (!decide (x = 0))) rfl ?_ ?_
  · intro n
    refine ⟨?_, rfl⟩
    show (((if decide (n ≠ 0) then 1 else 0 : ℤ)) : ℝ) = if (n : ℝ) = 0 then 0 else 1
    by_cases hn : n = 0
    · simp [hn]
    · simp [hn]
  · intro x
    refine ⟨?_, rfl⟩
    show (((if (!decide (x = 0)) then 1 else 0 : ℤ)) : ℝ) = if x = 0 then 0 else 1
    by_cases hx : x = 0
    · simp [hx]
    · simp [hx]

theorem gives_round {a digits : Number ℝ} (h : digits.integral = true) :
    NumericFunction.round.Gives [a, digits] := by
  obtain ⟨k, hk⟩ := Option.isSome_iff_exists.1 h
  have hdigits : ⌊digits.toReal⌋ = k := by rw [toReal_of_asInt hk, Int.floor_intCast]
  cases ha : a.asInt with
  | some n =>
    refine ⟨.int (roundInt n k), ?_, ?_, ?_⟩
    · simp only [NumericFunction.apply, roundNumber, Number.byKind, hk, ha]
    · show ((roundInt n k : ℤ) : ℝ) = roundTo a.toReal ⌊digits.toReal⌋
      rw [hdigits, toReal_of_asInt ha, roundTo_int]
    · exact (integral_of_asInt ha).symm
  | none =>
    refine ⟨.float (roundTo a.toReal k), ?_, ?_, ?_⟩
    · simp only [NumericFunction.apply, roundNumber, Number.byKind, hk, ha]
      rfl
    · show roundTo a.toReal k = roundTo a.toReal ⌊digits.toReal⌋
      rw [hdigits]
    · exact (integral_of_none ha).symm

/-- **The functions are what they mean** where they have a value. -/
theorem gives_of_domain {f : NumericFunction} (h : f.Domain (args.map Number.kinded)) :
    f.Gives args := by
  by_cases hf : f.isMath = true
  · exact gives_math hf h
  rcases args with _ | ⟨a, _ | ⟨b, _ | ⟨c, rest⟩⟩⟩
  · cases f with
    | bool => exact ⟨_, rfl, Int.cast_zero, rfl⟩
    | float => exact ⟨_, rfl, Int.cast_zero, rfl⟩
    | int => exact ⟨_, rfl, Int.cast_zero, rfl⟩
    | _ => first | exact h.elim | exact absurd rfl hf
  · cases f with
    | abs =>
      refine gives_of_kinds (fun n => .int |n|) (fun x => .float |x|) rfl (fun n => ⟨?_, rfl⟩)
        (fun x => ⟨rfl, rfl⟩)
      exact Int.cast_abs
    | bool => exact gives_bool
    | float => exact ⟨_, rfl, rfl, rfl⟩
    | int =>
      refine gives_of_kinds .int (fun x => .int (truncate x)) rfl (fun n => ⟨?_, rfl⟩) (fun x => ⟨rfl, rfl⟩)
      exact congrArg Int.cast (truncate_intCast n).symm
    | round =>
      refine gives_of_kinds .int (fun x => .int (roundEven x)) rfl (fun n => ⟨?_, rfl⟩) (fun x => ⟨rfl, rfl⟩)
      exact congrArg Int.cast (roundEven_intCast n).symm
    | ceil =>
      refine gives_of_kinds .int (fun x => .int ⌈x⌉) rfl (fun n => ⟨?_, rfl⟩) (fun x => ⟨rfl, rfl⟩)
      exact congrArg Int.cast (Int.ceil_intCast n).symm
    | floor =>
      refine gives_of_kinds .int (fun x => .int ⌊x⌋) rfl (fun n => ⟨?_, rfl⟩) (fun x => ⟨rfl, rfl⟩)
      exact congrArg Int.cast (Int.floor_intCast n).symm
    | _ => first | exact h.elim | exact absurd rfl hf
  · cases f with
    | round => exact gives_round h
    | _ => first | exact h.elim | exact absurd rfl hf
  · cases f <;> first | exact h.elim | exact absurd rfl hf

end

end PartCAD.Expr
