import Mathlib.Algebra.Order.Field.Basic
import Mathlib.Tactic.Linarith
import PartCAD.Lib.Numerals
import PartCAD.Lib.Text

/-!
# Parameters of movement

A declaration states some of a lowest, a highest and a default value.  The others are filled in, and a
range that runs backwards is read as one value.

* `configNormalize`, `checkMovementRange` : what is filled in, and what is repaired;
* `movementParameter` : the parameter that a declaration makes;
* `ordered_iff` : **when its default is in its range**.
-/

namespace PartCAD.Ports

open PartCAD.Lib

/-! ## The functions -/

inductive MovementType where
  | move
  | turn
  deriving DecidableEq

structure MovementConfig (K : Type) where
  type : Option MovementType
  dir : Option (K × K × K)
  min : Option K
  max : Option K
  default : Option K

/-- A number, a list, or a dictionary. -/
inductive MovementDeclaration (K : Type) where
  | number (v : K)
  | list (v : K) (vs : List K)
  | dict (config : MovementConfig K)

/-- `InterfaceParameter` -/
structure InterfaceParameter (K : Type) where
  name : Str
  type : MovementType
  dir : K × K × K
  min : K
  max : K
  default : K

section

variable {K : Type}

/-- The long form of a declaration. -/
def MovementDeclaration.long : MovementDeclaration K → MovementConfig K
  | number v => ⟨none, none, some v, some v, some v⟩
  | list v vs => ⟨none, none, some v, vs[0]?, vs[1]?⟩
  | dict config => config

variable [Field K] [LinearOrder K]

/-- `InterfaceParameter.config_normalize` -/
def configNormalize (declaration : MovementDeclaration K) : MovementConfig K :=
  let config := declaration.long
  match config.default with
  | some default =>
    { config with min := some (config.min.getD default), max := some (config.max.getD default) }
  | none =>
    let low := config.min.getD 0
    let high := config.max.getD 0
    { config with
      min := some low
      max := some high
      default := some (if low * high ≤ 0 then 0 else (low + high) / 2) }

/-- The names that say along or about which axis a parameter moves. -/
def axisOf (name : Str) : Option (MovementType × K × K × K) :=
  if name = "moveX".toList then some (.move, 1, 0, 0)
  else if name = "moveY".toList then some (.move, 0, 1, 0)
  else if name = "moveZ".toList then some (.move, 0, 0, 1)
  else if name = "turnX".toList then some (.turn, 1, 0, 0)
  else if name = "turnY".toList then some (.turn, 0, 1, 0)
  else if name = "turnZ".toList then some (.turn, 0, 0, 1)
  else none

/-- `InterfaceParameter.config_finalize` -/
def configFinalize (name : Str) (config : MovementConfig K) : MovementConfig K :=
  let config := match axisOf name with
    | some (type, dir) => { config with type := some type, dir := some dir }
    | none => config
  { config with type := some (config.type.getD .move) }

/-- `_check_movement_range` -/
def checkMovementRange (config : MovementConfig K) : MovementConfig K :=
  match config.min, config.max with
  | some low, some high =>
    if low ≤ high then config
    else
      { config with
        max := some low
        default := if low < config.default.getD low then some low else config.default }
  | _, _ => config

def makeParameter (name : Str) (config : MovementConfig K) : InterfaceParameter K where
  name := name
  type := config.type.getD .move
  dir := config.dir.getD (1, 0, 0)
  min := config.min.getD 0
  max := config.max.getD 0
  default := config.default.getD 0

/-- The parameter that `Interface.__init__` makes of a declaration. -/
def movementParameter (name : Str) (declaration : MovementDeclaration K) : InterfaceParameter K :=
  makeParameter name (checkMovementRange (configFinalize name (configNormalize declaration)))

/-! ## Ranges -/

/-- Its default is in its range. -/
def InterfaceParameter.Ordered (p : InterfaceParameter K) : Prop := p.min ≤ p.default ∧ p.default ≤ p.max

/-- A stated default is no less than a stated minimum, and no more than a stated maximum, unless these
are the wrong way round.  Without one, the range is not the wrong way round, or it begins at zero. -/
def MovementConfig.InRange (config : MovementConfig K) : Prop :=
  match config.default with
  | some default =>
    (∀ low, config.min = some low → low ≤ default) ∧
      ∀ low high, config.min = some low → config.max = some high → low ≤ high → default ≤ high
  | none => config.min.getD 0 ≤ config.max.getD 0 ∨ config.min.getD 0 = 0

/-- The three numbers after a check. -/
theorem ordered_check {config : MovementConfig K} {low high default : K} (name : Str)
    (hmin : config.min = some low) (hmax : config.max = some high)
    (hdefault : config.default = some default) :
    (makeParameter name (checkMovementRange config)).Ordered ↔
      low ≤ default ∧ (low ≤ high → default ≤ high) := by
  unfold checkMovementRange
  rw [hmin, hmax]
  dsimp only
  split
  · rename_i hle
    simp [InterfaceParameter.Ordered, makeParameter, hmin, hmax, hdefault, hle]
  · rename_i hlt
    rw [hdefault, Option.getD_some]
    split
    · rename_i habove
      simp [InterfaceParameter.Ordered, makeParameter, habove.le, hlt]
    · rename_i hbelow
      simp only [InterfaceParameter.Ordered, makeParameter, Option.getD_some]
      exact ⟨fun h => ⟨h.1, fun hle => absurd hle hlt⟩, fun h => ⟨h.1, not_lt.1 hbelow⟩⟩

theorem ordered_finalize (name : Str) (config : MovementConfig K) :
    (makeParameter name (checkMovementRange (configFinalize name config))).Ordered ↔
      (makeParameter name (checkMovementRange config)).Ordered := by
  have hmin : (configFinalize name config).min = config.min := by
    unfold configFinalize
    cases axisOf (K := K) name <;> rfl
  have hmax : (configFinalize name config).max = config.max := by
    unfold configFinalize
    cases axisOf (K := K) name <;> rfl
  have hdefault : (configFinalize name config).default = config.default := by
    unfold configFinalize
    cases axisOf (K := K) name <;> rfl
  unfold checkMovementRange
  rw [hmin, hmax]
  split
  · split
    · simp only [InterfaceParameter.Ordered, makeParameter, hmin, hmax, hdefault]
    · simp only [InterfaceParameter.Ordered, makeParameter, hdefault]
  · simp only [InterfaceParameter.Ordered, makeParameter, hmin, hmax, hdefault]

variable [IsStrictOrderedRing K]

/-- What is filled in for a default that is not stated. -/
theorem filledIn (low high : K) :
    (low ≤ (if low * high ≤ 0 then 0 else (low + high) / 2) ∧
      (low ≤ high → (if low * high ≤ 0 then 0 else (low + high) / 2) ≤ high)) ↔ low ≤ high ∨ low = 0 := by
  split
  · rename_i hsign
    constructor
    · rintro ⟨hlow, -⟩
      by_contra hne
      obtain ⟨hhigh, hzero⟩ := not_or.1 hne
      have hneg : low < 0 := lt_of_le_of_ne hlow hzero
      exact absurd (mul_pos_of_neg_of_neg hneg ((not_le.1 hhigh).trans hneg)) (not_lt.2 hsign)
    · intro h
      have hlow : low ≤ 0 := by
        by_contra hpos
        rcases h with h | h
        · exact absurd (mul_pos (not_le.1 hpos) ((not_le.1 hpos).trans_le h)) (not_lt.2 hsign)
        · exact hpos h.le
      refine ⟨hlow, fun hle => ?_⟩
      by_contra hneg
      have hhigh := not_le.1 hneg
      exact absurd (mul_pos_of_neg_of_neg (hle.trans_lt hhigh) hhigh) (not_lt.2 hsign)
  · rename_i hsign
    constructor
    · rintro ⟨hlow, -⟩
      refine Or.inl ?_
      rw [le_div_iff₀ two_pos] at hlow
      linarith
    · rintro (h | h)
      · refine ⟨?_, fun _ => ?_⟩
        · rw [le_div_iff₀ two_pos]
          linarith
        · rw [div_le_iff₀ two_pos]
          linarith
      · exact absurd (by rw [h, zero_mul]) hsign

end

/-- **When the default of a parameter is in its range.** -/
theorem ordered_iff {K : Type} [Field K] [LinearOrder K] [IsStrictOrderedRing K] (name : Str)
    (declaration : MovementDeclaration K) :
    (movementParameter name declaration).Ordered ↔ declaration.long.InRange := by
  unfold movementParameter
  rw [ordered_finalize]
  cases hdefault : declaration.long.default with
  | some default =>
    have hconfig : configNormalize declaration =
        { declaration.long with
          min := some (declaration.long.min.getD default)
          max := some (declaration.long.max.getD default) } := by
      unfold configNormalize
      dsimp only
      rw [hdefault]
    rw [ordered_check name (by rw [hconfig]) (by rw [hconfig]) (by rw [hconfig, hdefault]),
      MovementConfig.InRange, hdefault]
    cases declaration.long.min with
    | none => cases declaration.long.max <;> simp
    | some low => cases declaration.long.max <;> simp
  | none =>
    have hconfig : configNormalize declaration =
        { declaration.long with
          min := some (declaration.long.min.getD 0)
          max := some (declaration.long.max.getD 0)
          default := some (if declaration.long.min.getD 0 * declaration.long.max.getD 0 ≤ 0 then 0
            else (declaration.long.min.getD 0 + declaration.long.max.getD 0) / 2) } := by
      unfold configNormalize
      dsimp only
      rw [hdefault]
    rw [ordered_check name (by rw [hconfig]) (by rw [hconfig]) (by rw [hconfig]), filledIn,
      MovementConfig.InRange, hdefault]

/-- A range around zero. -/
theorem ordered_around_zero : (movementParameter "moveZ".toList (.list (-1 : ℚ) [3])).Ordered :=
  (ordered_iff _ _).2 (Or.inl (by decide))

/-- A screw that may move from 3 on. -/
theorem not_ordered_from_three :
    ¬ (movementParameter "moveZ".toList (.list (3 : ℚ) [])).Ordered := by
  have hmin : (movementParameter "moveZ".toList (.list (3 : ℚ) [])).min = 3 := by decide
  have hdefault : (movementParameter "moveZ".toList (.list (3 : ℚ) [])).default = 0 := by decide +kernel
  rintro ⟨hlow, -⟩
  rw [hmin, hdefault] at hlow
  exact absurd hlow (by norm_num)

end PartCAD.Ports
