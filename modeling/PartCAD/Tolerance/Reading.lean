import PartCAD.Lib.Decimal
import PartCAD.Lib.Dict
import PartCAD.Lib.Regex
import PartCAD.Tolerance.Blocks

/-!
# What a STEP file says about tolerances

A block is searched for lengths, for units and for tolerances, and the tolerances are resolved when all of the
file has been read.

* `measure`, `siUnit`, `conversionUnit`, `toleranceValue`, `geometricTolerance` : what is searched for;
* `arguments`, `geometricMagnitude` : the list of a geometric tolerance;
* `readBlock`, `lengthMm`, `reduce`, `ofStepFile` : the tolerance of the file;
* `values_congr` : it depends on what the tables hold.
-/

namespace PartCAD.Tolerance

open PartCAD.Lib PartCAD.Lib.Regex PartCAD.Lib.Lexeme

/-! ## Bytes -/

/-- `\s` of bytes, and what `strip` takes off them. -/
def isBlank (c : Char) : Bool := c = ' ' ∨ (9 ≤ c.toNat ∧ c.toNat ≤ 13)

/-- `\w` of bytes -/
def isWord (c : Char) : Bool := c.isAlphanum ∨ c = '_'

/-- `s.strip(…)` -/
def stripOf (p : Char → Bool) (s : Str) : Str := ((s.dropWhile p).reverse.dropWhile p).reverse

def strip (s : Str) : Str := stripOf isBlank s

/-! ## Patterns -/

/-- `_KEYWORDS` -/
def keywords : List Str :=
  ["TOLERANCE".toList, "MEASURE_WITH_UNIT".toList, "SI_UNIT".toList, "CONVERSION_BASED_UNIT".toList]

/-- One of the keywords is in the block. -/
def keyed (block : Str) : Bool := keywords.any fun keyword => keyword <:+: block

def token (s : String) : Regex := .text s.toList

/-- `\s*` -/
def blanks : Regex := .many isBlank

/-- `(\d+)` -/
def number : Regex := .group (atLeastOne Char.isDigit)

/-- `#(\d+)\s*=\s*[^;]*?` -/
def recordStart : Regex := seqs [token "#", number, blanks, token "=", blanks, .fewest (· ≠ ';')]

/-- `_MEASURE` -/
def measure : Regex := seqs [recordStart, token "MEASURE_WITH_UNIT", blanks, token "(", blanks,
  opt (token "POSITIVE_"), token "LENGTH_MEASURE", blanks, token "(", blanks,
  .group (.fewest (· ∉ ['(', ')', ','])), blanks, token ")", blanks, token ",", blanks, token "#", number]

/-- `_SI_UNIT` -/
def siUnit : Regex := seqs [recordStart, .wordStart (token "SI_UNIT"), blanks, token "(", blanks,
  .group (.alt (token "$") (seqs [token ".", atLeastOne Char.isUpper, token "."])), blanks, token ",", blanks,
  token ".", .group (atLeastOne Char.isUpper), token ".", blanks, token ")"]

/-- `_CONVERSION_UNIT` -/
def conversionUnit : Regex := seqs [recordStart, .wordStart (token "CONVERSION_BASED_UNIT"), blanks, token "(",
  blanks, .quoted, blanks, token ",", blanks, token "#", number]

/-- `_TOLERANCE_VALUE` -/
def toleranceValue : Regex := seqs [.wordStart (token "TOLERANCE_VALUE"), blanks, token "(", blanks, token "#",
  number, blanks, token ",", blanks, token "#", number, blanks, token ")"]

/-- `_GEOMETRIC_TOLERANCE` -/
def geometricTolerance : Regex := seqs [.wordStart (.char Char.isUpper),
  .many (fun c => c.isUpper || c.isDigit || c = '_'), token "TOLERANCE", blanks, token "("]

/-- `match.group(k + 1)` -/
def groupOf (m : Match) (k : ℕ) : Str := m.groups.getD k []

/-- `int(match.group(k + 1))` -/
def numberOf (m : Match) (k : ℕ) : ℕ := digitsValue (groupOf m k)

/-! ## Argument lists -/

/-- The loop of `_arguments`, over so many characters of a string: what has been read of an argument, then the
arguments, and how far it is to the parenthesis that closes the list. -/
@[grind =]
def argumentsGo : ℕ → ℕ → Str → Str → Option (List Str × ℕ)
  | _, _, _, [] => none
  | skip + 1, depth, argument, c :: rest =>
    (argumentsGo skip depth (argument ++ [c]) rest).map fun x => (x.1, x.2 + 1)
  | 0, depth, argument, c :: rest =>
    if c = '\'' then
      (stringLength rest).bind fun n => (argumentsGo n depth (argument ++ [c]) rest).map fun x => (x.1, x.2 + 1)
    else if c = '(' then (argumentsGo 0 (depth + 1) (argument ++ [c]) rest).map fun x => (x.1, x.2 + 1)
    else if c = ')' then
      if depth - 1 = 0 then some ([strip argument], 0)
      else (argumentsGo 0 (depth - 1) (argument ++ [c]) rest).map fun x => (x.1, x.2 + 1)
    else if c = ',' ∧ depth = 1 then (argumentsGo 0 depth [] rest).map fun x => (strip argument :: x.1, x.2 + 1)
    else (argumentsGo 0 depth (argument ++ [c]) rest).map fun x => (x.1, x.2 + 1)

/-- `_arguments`, of a text behind the opening parenthesis. -/
def arguments (s : Str) : Option (List Str) := (argumentsGo 0 1 [] s).map Prod.fst

/-- `_is_text_or_omitted` -/
def isTextOrOmitted (argument : Str) : Bool := argument = ['$'] ∨ argument.head? = some '\''

/-- `_REFERENCE.match`: the digits. -/
def reference : Str → Option Str
  | '#' :: digits => if digits ≠ [] ∧ digits.all Char.isDigit then some digits else none
  | _ => none

/-- The digits of the magnitude, among the arguments of a geometric tolerance. -/
def magnitudeDigits : List Str → Option Str
  | name :: description :: magnitude :: _ :: _ =>
    if isTextOrOmitted name ∧ isTextOrOmitted description then reference magnitude else none
  | _ => none

/-- `_geometric_magnitude`, of a text behind the opening parenthesis. -/
def geometricMagnitude (s : Str) : Option ℕ := ((arguments s).bind magnitudeDigits).map digitsValue

/-! ## Tables -/

/-- What is used of floats. -/
structure Floats (F : Type) where
  /-- `float` of bytes -/
  parse : Str → Option F
  literal : ℚ → F
  nan : F
  mul : F → F → F
  sub : F → F → F
  abs : F → F
  lt : F → F → Bool
  le : F → F → Bool

/-- A unit: so many millimetres, or a measure that says how much of another one it is. -/
inductive LengthUnit (F : Type) where
  | scale (value : F)
  | measure (id : ℕ)
  deriving DecidableEq

/-- What has been read of a file. -/
structure Tables (F : Type) where
  measures : Dict ℕ (F × ℕ)
  units : Dict ℕ (LengthUnit F)
  toleranceValues : List (ℕ × ℕ)
  magnitudes : List ℕ

/-- `_SI_PREFIXES.get` -/
def siPrefix (name : Str) : Option ℚ :=
  if name = [] then some 1
  else if name = "KILO".toList then some (10 ^ 3)
  else if name = "HECTO".toList then some (10 ^ 2)
  else if name = "DECA".toList then some 10
  else if name = "DECI".toList then some (1 / 10)
  else if name = "CENTI".toList then some (1 / 10 ^ 2)
  else if name = "MILLI".toList then some (1 / 10 ^ 3)
  else if name = "MICRO".toList then some (1 / 10 ^ 6)
  else if name = "NANO".toList then some (1 / 10 ^ 9)
  else none

/-- How many metres a unit is that is found. `$` stands for no prefix. -/
def scaleFactor (m : Match) : Option ℚ :=
  if groupOf m 2 ≠ "METRE".toList then none
  else siPrefix (if groupOf m 1 = ['$'] then [] else stripOf (· = '.') (groupOf m 1))

section

variable {F : Type} (fl : Floats F)

/-- A measure that is found, if its number is one. -/
def measureItem (m : Match) : Option (ℕ × (F × ℕ)) :=
  (fl.parse (groupOf m 1)).map fun value => (numberOf m 0, (value, numberOf m 2))

/-- A unit that is found with its factor, if it is a metre whose prefix is known. -/
def scaleItem (m : Match) : Option (ℕ × LengthUnit F) :=
  (scaleFactor m).map fun factor => (numberOf m 0, .scale (fl.mul (fl.literal factor) (fl.literal 1000)))

/-- A unit that is so much of another one. -/
def conversionItem (m : Match) : ℕ × LengthUnit F := (numberOf m 0, .measure (numberOf m 1))

/-- `_read_block` -/
def readBlock (tables : Tables F) (block : Str) : Tables F :=
  if keyed block = true then
    let block := withoutComments block
    { measures := tables.measures.setAll ((search isWord measure block).filterMap (measureItem fl))
      units := (tables.units.setAll ((search isWord siUnit block).filterMap (scaleItem fl))).setAll
        ((search isWord conversionUnit block).map conversionItem)
      toleranceValues := tables.toleranceValues ++
        (search isWord toleranceValue block).map fun m => (numberOf m 0, numberOf m 1)
      magnitudes := tables.magnitudes ++
        (search isWord geometricTolerance block).filterMap fun m => geometricMagnitude (block.drop m.stop) }
  else tables

/-- What is read of a file in some blocks. -/
def readBlocks (blocks : List Str) : Tables F := blocks.foldl (readBlock fl) ⟨.empty, .empty, [], []⟩

/-! ## Lengths -/

theorem length_filter_lt {ids seen : List ℕ} {id : ℕ} (h : id ∈ ids) (hseen : id ∉ seen) :
    (ids.filter (· ∉ id :: seen)).length < (ids.filter (· ∉ seen)).length := by
  have hsplit : ids.filter (· ∉ id :: seen) = (ids.filter (· ∉ seen)).filter (· ≠ id) := by
    rw [List.filter_filter]
    refine List.filter_congr fun x _ => ?_
    simp
  rw [hsplit, List.length_filter_lt_length_iff_exists]
  exact ⟨id, List.mem_filter.mpr ⟨h, decide_eq_true hseen⟩, by simp⟩

/-- `_unit_mm`, with what `_length_mm` does to get to the next unit. -/
@[grind =]
def unitMm (measures : Dict ℕ (F × ℕ)) (units : Dict ℕ (LengthUnit F)) (seen : List ℕ) (id : ℕ) : Option F :=
  match h : units.get? id with
  | none => none
  | some (.scale value) => some value
  | some (.measure measureId) =>
    if hseen : id ∈ seen then none
    else
      match measures.get? measureId with
      | none => none
      | some (value, unitId) => (unitMm measures units (id :: seen) unitId).map (fl.mul value)
termination_by (units.keys.filter (· ∉ seen)).length
decreasing_by exact length_filter_lt (Dict.mem_keys_iff_isSome.mpr (by rw [h]; rfl)) hseen

/-- `_length_mm` -/
def lengthMm (tables : Tables F) (id : ℕ) : Option F :=
  match tables.measures.get? id with
  | none => none
  | some (value, unitId) => (unitMm fl tables.measures tables.units [] unitId).map (fl.mul value)

/-- `max` of two -/
def maxOf (x y : F) : F := if fl.lt x y = true then y else x

/-- `min` of two -/
def minOf (x y : F) : F := if fl.lt y x = true then y else x

/-- The largest deviation that a pair of bounds permits. -/
def deviation (tables : Tables F) (bounds : ℕ × ℕ) : Option F :=
  match lengthMm fl tables bounds.1, lengthMm fl tables bounds.2 with
  | some low, some high => some (maxOf fl (fl.abs low) (fl.abs high))
  | _, _ => none

/-- The tolerances that the file states. -/
def values (tables : Tables F) : List F :=
  tables.toleranceValues.filterMap (deviation fl tables) ++
    tables.magnitudes.filterMap fun id => (lengthMm fl tables id).map fl.abs

/-- `reduce` -/
def reduce : List F → Option F
  | [] => none
  | x :: xs =>
    let smallest := xs.foldl (minOf fl) x
    let largest := xs.foldl (maxOf fl) x
    let within := fl.mul (fl.literal (1 / 10 ^ 9)) (maxOf fl (fl.literal 1) (fl.abs largest))
    if fl.le (fl.sub largest smallest) within = true then some largest else some fl.nan

/-- `of_step_file`, of a file that is read in such chunks. -/
def ofStepFile (chunks : List Str) : Option F := reduce fl (values fl (readBlocks fl (blocks chunks)))

/-! ## What the tolerance depends on -/

variable {fl}

/-- The same numbers of measures and units say the same. -/
structure Tables.Same (t t' : Tables F) : Prop where
  measures : t.measures.Same t'.measures
  units : t.units.Same t'.units
  toleranceValues : t.toleranceValues = t'.toleranceValues
  magnitudes : t.magnitudes = t'.magnitudes

theorem unitMm_eq (measures : Dict ℕ (F × ℕ)) (units : Dict ℕ (LengthUnit F)) (seen : List ℕ) (id : ℕ) :
    unitMm fl measures units seen id =
      match units.get? id with
      | none => none
      | some (.scale value) => some value
      | some (.measure measureId) =>
        if id ∈ seen then none
        else
          match measures.get? measureId with
          | none => none
          | some (value, unitId) => (unitMm fl measures units (id :: seen) unitId).map (fl.mul value) := by
  rw [unitMm]
  split <;> simp_all

theorem unitMm_congr {t t' : Tables F} (h : t.Same t') (seen : List ℕ) (id : ℕ) :
    unitMm fl t.measures t.units seen id = unitMm fl t'.measures t'.units seen id := by
  induction seen, id using unitMm.induct t.measures t.units with
  | case1 seen id hnone => rw [unitMm_eq, unitMm_eq, ← h.units id, hnone]
  | case2 seen id value hscale => rw [unitMm_eq, unitMm_eq, ← h.units id, hscale]
  | case3 seen id measureId hmeasure hseen =>
    rw [unitMm_eq, unitMm_eq, ← h.units id, hmeasure]
    dsimp only
    rw [if_pos hseen, if_pos hseen]
  | case4 seen id measureId hmeasure hseen hnone =>
    rw [unitMm_eq, unitMm_eq, ← h.units id, hmeasure]
    dsimp only
    rw [← h.measures measureId, hnone]
  | case5 seen id measureId hmeasure hseen value unitId hsome ih =>
    rw [unitMm_eq, unitMm_eq, ← h.units id, hmeasure]
    dsimp only
    rw [← h.measures measureId, hsome]
    dsimp only
    rw [ih]

theorem lengthMm_congr {t t' : Tables F} (h : t.Same t') (id : ℕ) : lengthMm fl t id = lengthMm fl t' id := by
  rw [lengthMm, lengthMm, h.measures id]
  split
  · rfl
  · rw [unitMm_congr h]

/-- **The tolerances depend on what the tables hold**, and not on the order. -/
theorem values_congr {t t' : Tables F} (h : t.Same t') : values fl t = values fl t' := by
  have hdeviation : deviation fl t = deviation fl t' := by
    funext bounds
    rw [deviation, deviation, lengthMm_congr h, lengthMm_congr h]
  rw [values, values, hdeviation, h.toleranceValues, h.magnitudes]
  simp only [lengthMm_congr h]

end

end PartCAD.Tolerance
