import PartCAD.Lib.Significant

/-!
# Where the subject of a simulation stands

The offset of a subject is declared as a location, written into a parameter of the scene as seven numbers
with blanks between them, and read back by the template of the scene.

* `normalizeOffset`, `formatOffset`, `sceneParameters` : what is written;
* `survives_location_iff` : **it comes back when each number has six digits at most**.
-/

namespace PartCAD.Simulation

open PartCAD.Lib

/-! ## Locations -/

/-- A finite number with its sign, which a zero has too. -/
structure Signed where
  negative : Bool
  size : ℚ
  nonneg : 0 ≤ size

def Signed.value (x : Signed) : ℚ := signed x.negative x.size

/-- `float(n)` -/
def Signed.ofInt (n : ℤ) : Signed := ⟨n < 0, n.natAbs, Nat.cast_nonneg _⟩

/-- A location as it is declared: a translation, an axis and an angle. -/
structure Packed where
  translation : List Signed
  axis : List Signed
  angle : Signed

def Packed.numbers (location : Packed) : List Signed :=
  location.translation ++ (location.axis ++ [location.angle])

/-- `IDENTITY_OFFSET` -/
def identityOffset : Packed where
  translation := [.ofInt 0, .ofInt 0, .ofInt 0]
  axis := [.ofInt 0, .ofInt 0, .ofInt 1]
  angle := .ofInt 0

section

variable (ofText : Str → Option Signed)

/-- `float(value)`; of a text it is what `ofText` says. -/
def floatOf : Value Signed → Option Signed
  | .float x => some x
  | .int n => some (.ofInt n)
  | .bool b => some (.ofInt b.toNat)
  | .str s => ofText s
  | _ => none

/-- The values that a loop over a value takes. -/
def valuesOf : Value Signed → Option (List (Value Signed))
  | .list vs => some vs
  | .str s => some (s.map fun c => .str [c])
  | .dict items => some (items.map fun p => .str p.1)
  | _ => none

/-- The three parts of an offset, if it has them. -/
def packed (offset : Value Signed) : Option Packed := do
  let [translation, axis, angle] ← valuesOf offset | none
  let translation ← (← valuesOf translation).mapM (floatOf ofText)
  let axis ← (← valuesOf axis).mapM (floatOf ofText)
  let angle ← floatOf ofText angle
  if translation.length ≠ 3 ∨ axis.length ≠ 3 then none
  return { translation, axis, angle }

/-- `normalize_offset` -/
def normalizeOffset : Value Signed → Packed
  | .none => identityOffset
  | offset => (packed ofText offset).getD identityOffset

end

/-- `format_offset` -/
def formatOffset (offset : Packed) : Str :=
  Text.join ' ' (offset.numbers.map fun x => formatG 6 x.negative x.size)

/-- The parameters that a scene with the parameters `declared` is asked for. -/
def sceneParameters (declared : List Str) (subject kind : Str) (offset : Packed) :
    Option (List (Str × Str)) :=
  if "subject".toList ∉ declared then none
  else
    some ([("subject".toList, subject)] ++
      (if "subject_kind".toList ∈ declared then [("subject_kind".toList, kind)] else []) ++
      if "subject_offset".toList ∈ declared then [("subject_offset".toList, formatOffset offset)] else [])

/-! ## What comes back -/

/-- The numbers of a text are those of the location, and no separator of an instance name is in it. -/
structure Survives (t : Digits) (location : Packed) (text : Str) : Prop where
  numbers : (words text).map (numberOf t) = location.numbers.map fun x => some x.value
  plain : ∀ c ∈ [',', ';', '='], c ∉ text

section

variable {t : Digits}

theorem signed_injective {negative : Bool} {x y : ℚ} (h : signed negative x = signed negative y) : x = y := by
  cases negative with
  | false => exact h
  | true => exact neg_injective h

theorem words_formatOffset (location : Packed) :
    words (formatOffset location) = location.numbers.map fun x => formatG 6 x.negative x.size := by
  refine words_join fun p hp => ?_
  obtain ⟨x, -, rfl⟩ := List.mem_map.1 hp
  have hdecimal := isDecimal_formatG (t := asciiDigits) (p := 6) (by norm_num) x.negative x.nonneg
  refine ⟨hdecimal.ne_nil, fun c hc => ?_⟩
  rcases hdecimal.mem c hc with hdigit | hmark
  · exact asciiDigits.isSpace_of_isDigit hdigit
  · have hall : ("+-.eE".toList.all fun c => ! isSpace c) = true := by decide
    simpa using List.all_eq_true.1 hall c hmark

/-- The text has no separator of an instance name in it. -/
theorem plain_formatOffset (location : Packed) : ∀ c ∈ [',', ';', '='], c ∉ formatOffset location := by
  intro c hc hmem
  have hall : ([',', ';', '='].all fun c =>
      ! asciiDigits.isDigit c && (! "+-.eE".toList.contains c && c != ' ')) = true := by decide
  have hother : asciiDigits.isDigit c = false ∧ c ∉ "+-.eE".toList ∧ c ≠ ' ' := by
    simpa using List.all_eq_true.1 hall c hc
  rcases Text.mem_join hmem with hspace | ⟨p, hp, hcp⟩
  · exact hother.2.2 hspace
  · obtain ⟨x, -, rfl⟩ := List.mem_map.1 hp
    have hdecimal := isDecimal_formatG (t := asciiDigits) (p := 6) (by norm_num) x.negative x.nonneg
    rcases hdecimal.mem c hcp with hdigit | hmark
    · rw [hother.1] at hdigit
      cases hdigit
    · exact hother.2.1 hmark

/-- **A location comes back when each of its numbers has six digits at most.** -/
theorem survives_location_iff (location : Packed) :
    Survives t location (formatOffset location) ↔ ∀ x ∈ location.numbers, Short 6 x.size := by
  have hone : ∀ x : Signed, numberOf t (formatG 6 x.negative x.size) = some x.value ↔ Short 6 x.size := by
    intro x
    rw [numberOf_formatG (by norm_num) x.negative x.nonneg, Option.some.injEq,
      ← nearest_eq_iff (by norm_num) x.nonneg]
    exact ⟨signed_injective, congrArg (signed x.negative)⟩
  constructor
  · rintro ⟨hnumbers, -⟩ x hx
    rw [words_formatOffset, List.map_map] at hnumbers
    exact (hone x).1 (List.map_inj_left.1 hnumbers x hx)
  · intro h
    refine ⟨?_, plain_formatOffset location⟩
    rw [words_formatOffset, List.map_map]
    exact List.map_inj_left.2 fun x hx => (hone x).2 (h x hx)

end

/-! ## Declared offsets -/

/-- A number as it is declared. -/
inductive Numeral where
  | int (n : ℤ)
  | float (x : Signed)

def Numeral.toValue : Numeral → Value Signed
  | .int n => .int n
  | .float x => .float x

def Numeral.toSigned : Numeral → Signed
  | .int n => .ofInt n
  | .float x => x

theorem floatOf_toValue (ofText : Str → Option Signed) (n : Numeral) :
    floatOf ofText n.toValue = some n.toSigned := by
  cases n with
  | int n => rfl
  | float x => rfl

/-- Seven numbers as an offset is declared with them. -/
def offsetOf (x y z u v w angle : Numeral) : Value Signed :=
  .list [.list [x.toValue, y.toValue, z.toValue], .list [u.toValue, v.toValue, w.toValue], angle.toValue]

theorem normalizeOffset_offsetOf (ofText : Str → Option Signed) (x y z u v w angle : Numeral) :
    normalizeOffset ofText (offsetOf x y z u v w angle) =
      ⟨[x.toSigned, y.toSigned, z.toSigned], [u.toSigned, v.toSigned, w.toSigned], angle.toSigned⟩ := by
  have hthree : ∀ a b c : Numeral, [a.toValue, b.toValue, c.toValue].mapM (floatOf ofText) =
      some [a.toSigned, b.toSigned, c.toSigned] := by
    intro a b c
    simp [floatOf_toValue]
  have hpacked : packed ofText (offsetOf x y z u v w angle) =
      some ⟨[x.toSigned, y.toSigned, z.toSigned], [u.toSigned, v.toSigned, w.toSigned], angle.toSigned⟩ := by
    simp [packed, offsetOf, valuesOf, hthree, floatOf_toValue]
  rw [normalizeOffset, hpacked]
  · rfl
  · exact nofun

/-- A number of seven digits along the first axis. -/
def sevenDigits : Value Signed :=
  offsetOf (.int 1234567) (.int 0) (.int 0) (.int 0) (.int 0) (.int 1) (.int 90)

end PartCAD.Simulation
