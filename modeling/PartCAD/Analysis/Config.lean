import PartCAD.Lib.Dict
import PartCAD.Lib.Quantity

/-!
# Boundary conditions

What a part declares for an analysis: the instances of its interfaces that are held, those that are
loaded and with how much, and those that a fluid leaves through.

* `parseForce` : a load in newtons, from a mass or a force;
* `quantityOf_units` : **the order in which the units are tried does not matter**;
* `AnalysisConfig.read` : the section of one analysis.
-/

namespace PartCAD.Cae

open PartCAD.Lib PartCAD.Lib.Text

inductive Analysis where
  | fea
  | cfd
  deriving DecidableEq, Repr

def Analysis.text : Analysis → Str
  | .fea => "fea".toList
  | .cfd => "cfd".toList

/-! ## Errors -/

/-- `CaeConfigError`, by what its text is made from. -/
inductive CaeConfigError where
  | notANumber (what : Str) (value : Value ℚ)
  | empty (what : Str)
  | notAForce (what : Str) (value : Value ℚ) (units : List Str)
  | notAnInstance (what : Str) (item : Value ℚ)
  | noInstance (what : Str)
  | notInstances (what : Str) (value : Value ℚ)
  | notAnInterface (what : Str) (entry : Value ℚ)
  | notInterfaces (what : Str) (value : Value ℚ)
  | notLoads (value : Value ℚ)
  | emptySection (analysis : Analysis)
  | notASection (analysis : Analysis) (config : Value ℚ)
  | unknown (analysis : Analysis) (names keys : List Str)
  | notAnImplementation (analysis : Analysis) (value : Value ℚ)
  | nothing (analysis : Analysis)

def commas (texts : List Str) : Str := ", ".toList.intercalate texts

def quoted (s : Str) : Str := '\'' :: (s ++ ":'".toList)

/-- The text of an error, with `repr` for the values in it. -/
def CaeConfigError.message (repr : Value ℚ → Str) : CaeConfigError → Str
  | .notANumber what value => what ++ " is not a number: ".toList ++ repr value
  | .empty what => what ++ " is empty".toList
  | .notAForce what value units =>
    what ++ " is not a force or a mass: ".toList ++ repr value ++
      ". Write a number (kilograms), or a number and a unit (".toList ++
      commas (units.insertionSort (· ≤ ·)) ++ ")".toList
  | .notAnInstance what item => what ++ " names an instance that is not a name: ".toList ++ repr item
  | .noInstance what => what ++ " names no instance".toList
  | .notInstances what value =>
    what ++ " is neither an interface instance nor a list of them: ".toList ++ repr value
  | .notAnInterface what entry => what ++ " names an interface that is not a name: ".toList ++ repr entry
  | .notInterfaces what value =>
    what ++ " is neither a list of interfaces nor a map of them: ".toList ++ repr value
  | .notLoads value => "'load:' is not a map of interfaces to forces: ".toList ++ repr value
  | .emptySection analysis => quoted analysis.text ++ " is empty".toList
  | .notASection analysis config => quoted analysis.text ++ " is not a section: ".toList ++ repr config
  | .unknown analysis names keys =>
    quoted analysis.text ++ " does not take ".toList ++ commas (names.insertionSort (· ≤ ·)) ++
      "; it takes ".toList ++
      commas ((keys.filter (· ∉ ["desc".toList, "implementation".toList])).map quoted) ++
      " and 'implementation:'".toList
  | .notAnImplementation analysis value =>
    '\'' :: (analysis.text ++ ": implementation:' is not a '<package>:<file type>' name: ".toList ++
      repr value)
  | .nothing analysis => quoted analysis.text ++ " declares neither 'fix:' nor 'load:'".toList

/-! ## Forces -/

/-- `GRAVITY`, in newtons for a kilogram -/
def gravity : ℚ := 98 / 10

/-- `_MASS_UNITS` -/
def massUnits : List (Str × ℚ) :=
  [("mg".toList, 1 / 1000000), ("g".toList, 1 / 1000), ("kg".toList, 1), ("ton".toList, 1000),
    ("tonne".toList, 1000), ("lb".toList, 45359237 / 100000000), ("pound".toList, 45359237 / 100000000)]

/-- `_FORCE_UNITS` -/
def forceUnits : List (Str × ℚ) :=
  [("n".toList, 1), ("nm".toList, 1), ("mn".toList, 1 / 1000), ("kn".toList, 1000), ("newton".toList, 1)]

/-- The names of the units with what one of them is in newtons: a mass is weighed. -/
def newtons : List (Str × ℚ) := (massUnits.map fun p => (p.1, p.2 * gravity)) ++ forceUnits

/-- `_UNIT_NAMES`, the longest first, each in the plural and in the singular. -/
def spelled : List (Str × ℚ) :=
  (newtons.insertionSort fun p q => q.1.length ≤ p.1.length).flatMap fun p => [(p.1 ++ ['s'], p.2), p]

/-- `parse_force` -/
def parseForce (t : Digits) (value : Value ℚ) (what : Str) : Except CaeConfigError ℚ :=
  match value with
  | .int n => .ok (n * gravity)
  | .float x => .ok (x * gravity)
  | .str s =>
    let text := strip s
    if text = [] then .error (.empty what)
    else
      match quantityOf t spelled text with
      | some (amount, factor) => .ok (amount * factor)
      | none =>
        match numberOf t text with
        | some number => .ok (number * gravity)
        | none => .error (.notAForce what value (newtons.map Prod.fst))
  | _ => .error (.notANumber what value)

/-- No unit is spelled as another one. -/
theorem clear_units {t : Digits} : Clear t spelled := by
  refine clear_of_latin (by decide) ?_
  have hunique : (spelled.all fun p => spelled.all fun q =>
      ! decide (p.1 = q.1) || decide (p.2 = q.2)) = true := by decide +kernel
  intro p hp q hq hsame
  have h := List.all_eq_true.1 (List.all_eq_true.1 hunique p hp) q hq
  simpa [hsame] using h

/-- **The order in which the units are tried does not matter.** -/
theorem quantityOf_units {t : Digits} {names : List (Str × ℚ)} (h : names.Perm spelled) (s : Str) :
    quantityOf t names (strip s) = quantityOf t spelled (strip s) :=
  quantityOf_perm clear_units h s

example : (parseForce asciiDigits (.str "5 KGs".toList) []).toOption = some 49 := by decide +kernel

/-! ## Declarations -/

/-- `EVERY_INSTANCE` -/
def everyInstance : Str := ['*']

/-- A name of an instance in a list of them. -/
def instanceName (what : Str) : Value ℚ → Except CaeConfigError Str
  | .str s => .ok s
  | item => .error (.notAnInstance what item)

/-- `_instance_names` -/
def instanceNames (value : Value ℚ) (what : Str) : Except CaeConfigError (List Str) :=
  match value with
  | .none => .ok [everyInstance]
  | .str s => .ok [s]
  | .list [] => .error (.noInstance what)
  | .list items => items.mapM (instanceName what)
  | value => .error (.notInstances what value)

/-- `'key: interface:'` -/
def whatOf (key interface : Str) : Str := '\'' :: (key ++ ": ".toList ++ interface ++ ":'".toList)

/-- An interface in a list of them, that is meant whole. -/
def wholeInterface (key : Str) : Value ℚ → Except CaeConfigError (Str × List Str)
  | .str s => .ok (s, [everyInstance])
  | entry => .error (.notAnInterface (quoted key) entry)

/-- An interface with its instances. -/
def someInstances (key : Str) (p : Str × Value ℚ) : Except CaeConfigError (Str × List Str) :=
  (instanceNames p.2 (whatOf key p.1)).map fun instances => (p.1, instances)

/-- `_parse_fix` and `_parse_outlet`: the instances named under a key, by their interfaces. -/
def readInstances (key : Str) : Value ℚ → Except CaeConfigError (Dict Str (List Str))
  | .none => .ok .empty
  | .str s => .ok (.ofPairs [(s, [everyInstance])])
  | .list entries => (entries.mapM (wholeInterface key)).map .ofPairs
  | .dict items => (items.mapM (someInstances key)).map .ofPairs
  | value => .error (.notInterfaces (quoted key) value)

/-- The load of one instance. -/
def readAmount (t : Digits) (interface : Str) (p : Str × Value ℚ) : Except CaeConfigError (Str × ℚ) :=
  (parseForce t p.2 ("'load: ".toList ++ interface ++ ": ".toList ++ p.1 ++ ":'".toList)).map
    fun amount => (p.1, amount)

/-- The loads of one interface. -/
def readLoad (t : Digits) (p : Str × Value ℚ) : Except CaeConfigError (Str × Dict Str ℚ) :=
  match p.2 with
  | .dict [] => .error (.noInstance (whatOf "load".toList p.1))
  | .dict items => (items.mapM (readAmount t p.1)).map fun amounts => (p.1, .ofPairs amounts)
  | value =>
    (parseForce t value (whatOf "load".toList p.1)).map fun amount =>
      (p.1, .ofPairs [(everyInstance, amount)])

/-- `_parse_load` -/
def readLoads (t : Digits) : Value ℚ → Except CaeConfigError (Dict Str (Dict Str ℚ))
  | .none => .ok .empty
  | .dict items => (items.mapM (readLoad t)).map .ofPairs
  | value => .error (.notLoads value)

/-- `_parse_implementation` -/
def readImplementation (analysis : Analysis) : Value ℚ → Except CaeConfigError (Option Str)
  | .none => .ok none
  | .str s => if strip s = [] then .error (.notAnImplementation analysis (.str s)) else .ok (some (strip s))
  | value => .error (.notAnImplementation analysis value)

/-- `AnalysisConfig` -/
structure AnalysisConfig where
  analysis : Analysis
  fixtures : Dict Str (List Str)
  loads : Dict Str (Dict Str ℚ)
  outlets : Dict Str (List Str)
  implementation : Option Str

/-- The keys that the section of an analysis takes. -/
def sectionKeys (analysis : Analysis) : List Str :=
  ["fix".toList, "load".toList, "desc".toList, "implementation".toList] ++
    if analysis = .cfd then ["outlet".toList] else []

/-- `config.get(key)` -/
def getValue (items : List (Str × Value ℚ)) (key : Str) : Value ℚ := (lookupItem key items).getD .none

/-- `AnalysisConfig.__init__` -/
def AnalysisConfig.read (t : Digits) (analysis : Analysis) (config : Value ℚ) :
    Except CaeConfigError AnalysisConfig :=
  match config with
  | .none => .error (.emptySection analysis)
  | .dict items => do
    let unknown := (items.map Prod.fst).filter (· ∉ sectionKeys analysis)
    if unknown ≠ [] then throw (.unknown analysis unknown (sectionKeys analysis))
    let implementation ← readImplementation analysis (getValue items "implementation".toList)
    let fixtures ← readInstances "fix".toList (getValue items "fix".toList)
    let loads ← readLoads t (getValue items "load".toList)
    let outlets ← readInstances "outlet".toList (getValue items "outlet".toList)
    if fixtures.items = [] ∧ loads.items = [] then throw (.nothing analysis)
    return { analysis, fixtures, loads, outlets, implementation }
  | config => .error (.notASection analysis config)

end PartCAD.Cae
