import Mathlib.Data.Rat.Defs
import PartCAD.Lib.Chase
import PartCAD.Package.Names
import PartCAD.Package.Paths

/-!
# The base part of a part to convert

An alias and an enrich point at another part, with values for its parameters.  A conversion follows
them down to a part that is no reference, collecting the values on the way, and writes them into the
declaration of that part.

* `Place.pointsTo` : where a reference points, as its factory reads it;
* `lookAt`, `baseConfig` : how the conversion follows it;
* `updateParametersWithDefaults` : the values become the defaults of the parameters.
-/

namespace PartCAD.Convert.BasePart

open PartCAD.Lib PartCAD.Lib.Text PartCAD.Package

/-! ## Numbers -/

/-- Finite floats with the numbers that they are. -/
class ExactFloat (F : Type) extends PyFloat F where
  toRat : F → ℚ

instance : ExactFloat DigitFloat where
  toRat d := (d.val : ℚ)

/-- `int(s)`, in ASCII digits, which single underscores may stand between. -/
def intOfText (s : Str) : Option ℤ :=
  let (neg, ds) := takeSign (strip s)
  if (split '_' ds).all fun group => group ≠ [] ∧ group.all (·.isDigit) then
    let n := digitsValue (ds.filter (· ≠ '_'))
    some (if neg then -n else n)
  else none

section

variable {F : Type} [ExactFloat F]

/-- The number that a value is, for a comparison. -/
def numberOf : Value F → Option ℚ
  | .int n => some n
  | .bool b => some (if b then 1 else 0)
  | .float x => some (ExactFloat.toRat x)
  | _ => none

/-- `int(value)` -/
def intOf : Value F → Option ℤ
  | .int n => some n
  | .bool b => some (if b then 1 else 0)
  | .float x => some ((ExactFloat.toRat x).num.tdiv (ExactFloat.toRat x).den)
  | .str s => intOfText s
  | .bytes b => intOfText (b.map fun x => Char.ofNat x.toNat)
  | .none | .list _ | .dict _ => none

end

/-! ## Declarations -/

/-- A declared parameter.  Its bounds are numbers. -/
structure ParamData (F : Type) where
  type : Option ParamType
  default : Option (Value F)
  min : Option ℚ
  max : Option ℚ

/-- The declaration of a part.  `package` is the older `project` where that is there, and `rest` has what
the conversion does not look at. -/
structure PartConfig (F : Type) where
  type : Str
  sourceResolved : Option Str
  source : Option Str
  package : Option Str
  with_ : Option (Dict Str (Value F))
  parameters : Option (Dict Str (ParamData F))
  rest : Dict Str (Value F)

/-- A part, by its package and its name, with its declaration. -/
structure Place (F : Type) where
  project : Str
  name : Str
  config : PartConfig F

def Place.id {F : Type} (a : Place F) : Str × Str := (a.project, a.name)

/-- `SHALLOW_COPY_SUFFICIENT_TYPES` -/
def shallowCopySufficientTypes : List Str := ["alias".toList, "enrich".toList]

def PartConfig.IsReference {F : Type} (c : PartConfig F) : Prop := c.type ∈ shallowCopySufficientTypes

instance {F : Type} (c : PartConfig F) : Decidable c.IsReference :=
  inferInstanceAs (Decidable (c.type ∈ shallowCopySufficientTypes))

inductive ConvertError where
  /-- raised by `int`, by `float`, or where a text does not have as many pieces as are taken -/
  | unreadable
  | circular (partName baseSource : Str)
  | noProject (basePackage partName : Str)
  | noPart (basePartName projectName : Str)
  deriving DecidableEq

def ConvertError.message : ConvertError → Str
  | .unreadable => []
  | .circular partName baseSource =>
    "Circular reference detected in part '".toList ++ partName ++ "' (source: '".toList ++ baseSource ++
      "')".toList
  | .noProject basePackage partName =>
    "Base project '".toList ++ basePackage ++ "' not found for part '".toList ++ partName ++ "'.".toList
  | .noPart basePartName projectName =>
    "Base part '".toList ++ basePartName ++ "' not found in project '".toList ++ projectName ++
      "'.".toList

section

variable {F : Type} [ExactFloat F]

/-! ## Where a reference points

Packages are found by `getProject`, which gives the name of a package at a path. -/

variable (getProject : Str → Option Str) (parts : Dict (Str × Str) (PartConfig F))

/-- `reference.source_of` -/
def sourceOf (a : Place F) : Option Str :=
  let sourceName := match a.config.source with
    | some source => some source
    | none => a.config.package.map fun _ => a.name
  sourceName.bind fun sourceName =>
    match a.config.package with
    | some package =>
      let packageName :=
        if package = "this".toList ∨ package = [] then a.project
        else if startswith package ['/', '/'] then package
        else getChildProjectPath a.project package
      some (packageName ++ ':' :: sourceName)
    | none =>
      if ':' ∉ sourceName then some (a.project ++ ':' :: sourceName)
      else normalizeResourcePath a.project sourceName

/-- The part that a reference points at.  Which instance of it that is, is said after the `;`. -/
def Place.pointsTo (a : Place F) : Option (Place F) := do
  let source ← sourceOf a
  let (package, item) ← resolveResourcePath a.project source
  let project ← getProject package
  let name := (partition ';' item).1
  let config ← parts.get? (project, name)
  some ⟨project, name, config⟩

/-- The value that a reference states for a parameter: in `with`, else in the name of its source. -/
def Place.states (a : Place F) (parameter : Str) : Option (Value F) :=
  ((a.config.with_.getD Dict.empty).get? parameter).or
    ((a.config.source.bind fun source => (parseParameterizedName source).2.get? parameter).map .str)

/-! ## How a conversion follows it -/

/-- One piece of the list of parameters. -/
def parseParameter (parameters : Dict Str (Value F)) (param : Str) : Option (Dict Str (Value F)) :=
  match split '=' param with
  | [key, value] =>
    if '.' ∈ value then (PyFloat.ofText value).map fun x => parameters.set key (.float x)
    else (intOfText value).map fun n => parameters.set key (.int n)
  | _ => none

def parseParametersFromSource (sourceValue : Str) : Option (Str × Dict Str (Value F)) :=
  if ';' ∈ sourceValue then
    let (baseSource, paramsStr) := partition ';' sourceValue
    ((split ',' paramsStr).foldlM parseParameter Dict.empty).map fun parameters => (baseSource, parameters)
  else some (sourceValue, Dict.empty)

/-- Where the loop of `get_final_base_part_config` is, with what it has collected. -/
structure Stop (F : Type) where
  finalParams : Dict Str (Value F)
  place : Place F

/-- `resolve_resource_path`, `get_project` and `get_part_config` for the source of a part. -/
def findBase (a : Place F) (baseSource : Str) : Except ConvertError (Place F) :=
  match resolveResourcePath a.project baseSource with
  | none => .error .unreadable
  | some (basePackage, basePartName) =>
    match getProject basePackage with
    | none => .error (.noProject basePackage a.name)
    | some baseProject =>
      match parts.get? (baseProject, basePartName) with
      | none => .error (.noPart basePartName baseProject)
      | some config => .ok ⟨baseProject, basePartName, config⟩

/-- One turn of the loop.  A source that came up before is looked for by `chase`. -/
def lookAt (s : Stop F) : Look Str ConvertError (Stop F) :=
  if s.place.config.IsReference then
    match s.place.config.sourceResolved.or s.place.config.source with
    | none => .stop
    | some sourceValue =>
      match parseParametersFromSource sourceValue with
      | none => .fail .unreadable
      | some (baseSource, params) =>
        .go baseSource <| (findBase getProject parts s.place baseSource).map fun base =>
          ⟨(s.finalParams.update (s.place.config.with_.getD Dict.empty)).update params, base⟩
  else .stop

/-- The declaration that the loop ends at, with what was collected in its `with`. -/
def Stop.withParams (s : Stop F) : PartConfig F :=
  if s.finalParams.items = [] then s.place.config
  else
    { s.place.config with
      with_ := some ((s.place.config.with_.getD Dict.empty).update s.finalParams) }

/-! ## Values as defaults -/

/-- A value as the type of a parameter has it. -/
def convertValue (type : Option ParamType) (value : Value F) : Option (Value F) :=
  match type with
  | some .int => (intOf value).map .int
  | some .float => (floatOf value).map .float
  | _ => some value

/-- A bound that is the value goes. -/
def ParamData.setDefault (p : ParamData F) (value : Value F) : ParamData F :=
  { p with
    default := some value
    min := p.min.filter fun m => numberOf value ≠ some m
    max := p.max.filter fun m => numberOf value ≠ some m }

/-- One value after the other, and whether none of them was refused. -/
def updateDefaults : List (Str × Value F) → Dict Str (ParamData F) → Dict Str (ParamData F) × Bool
  | [], parameters => (parameters, true)
  | (paramName, newValue) :: withValues, parameters =>
    match parameters.get? paramName with
    | none => updateDefaults withValues parameters
    | some paramData =>
      match convertValue paramData.type newValue with
      | none => (parameters, false)
      | some newValue => updateDefaults withValues (parameters.set paramName (paramData.setDefault newValue))

/-- The declaration afterwards, and whether no value was refused. -/
def updateParametersWithDefaults (c : PartConfig F) : PartConfig F × Bool :=
  if c.IsReference then (c, true)
  else
    match c.with_, c.parameters with
    | some withValues, some parameters =>
      let (parameters, went) := updateDefaults withValues.items parameters
      ({ c with parameters := some parameters }, went)
    | _, _ => (c, true)

/-- What comes of the two functions: a declaration with the package and the name of its part, or what is
raised; and the declarations of all parts. -/
structure Outcome (F : Type) where
  result : Except ConvertError (PartConfig F × Str × Str)
  parts : Dict (Str × Str) (PartConfig F)

/-- What is done at the end of the loop.  But for the part that is converted, what the loop ends at is the
declaration that its package has. -/
def finish (sources : List Str) (s : Stop F) : Outcome F :=
  let (config, went) := updateParametersWithDefaults s.withParams
  { result := if went then .ok (config, s.place.project, s.place.name) else .error .unreadable
    parts := if sources = [] then parts else parts.set s.place.id config }

/-- `get_final_base_part_config` and `update_parameters_with_defaults`, with some fuel for the loop. -/
def baseConfig (fuel : ℕ) (part : Place F) : Option (Outcome F) :=
  (chase (lookAt getProject parts) fuel [] ⟨Dict.empty, part⟩).map fun
    | .ended sources s => finish parts sources s
    | .again baseSource s => ⟨.error (.circular s.place.name baseSource), parts⟩
    | .failed e => ⟨.error e, parts⟩

end

end PartCAD.Convert.BasePart
