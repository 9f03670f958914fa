import Mathlib.Data.List.Lex
import PartCAD.Manufacturing.Job

/-!
# Manufacturing sections

A part says in a section of its declaration how it is made, and by which machines it may be cut.  The section
is read as YAML has it, with keys and values of any type.

* `Yaml` : values;
* `machineConfig`, `readMachine`, `readMachines`, `init` : how the section is read.
-/

namespace PartCAD.Manufacturing

open PartCAD.Lib PartCAD.Cam

/-! ## Values -/

inductive YamlFloat where
  | finite (x : ℚ)
  | infinite (negative : Bool)
  | nan

/-- A value; bytes, dates and times are known by their text. -/
inductive Yaml where
  | null
  | bool (b : Bool)
  | int (n : ℤ)
  | float (x : YamlFloat)
  | str (s : Str)
  | other (text : Str) (empty : Bool)
  | list (items : List Yaml)
  | set (items : List Yaml)
  | dict (items : List (Yaml × Yaml))

abbrev Items : Type := List (Yaml × Yaml)

namespace Yaml

/-- `bool(value)` -/
def truthy : Yaml → Bool
  | null => false
  | bool b => b
  | int n => n ≠ 0
  | float (.finite x) => x ≠ 0
  | float _ => true
  | str s => ! s.isEmpty
  | other _ empty => ! empty
  | list items => ! items.isEmpty
  | set items => ! items.isEmpty
  | dict items => ! items.isEmpty

def hashable : Yaml → Bool
  | list _ => false
  | set _ => false
  | dict _ => false
  | _ => true

/-- `value in keys`, for keys that are texts -/
def isIn (keys : List Str) : Yaml → Bool
  | str s => s ∈ keys
  | _ => false

end Yaml

/-- `items.get(key)` -/
def get (items : Items) (key : Str) : Option Yaml := (items.find? fun p => p.1.isIn [key]).map Prod.snd

/-- What else Python makes of a value: `str(value)` and `repr(value)`. -/
structure Texts where
  str : Yaml → Str
  repr : Yaml → Str
  str_str : ∀ s, str (.str s) = s

/-- What is raised. -/
inductive Raised where
  | attributeError
  | typeError
  | overflowError
  | valueError (text : Str)

/-! ## Quantities -/

/-- The parsers. -/
inductive Quantity where
  | length
  | feed
  | number

def Quantity.noun : Quantity → Str
  | length => "length".toList
  | feed => "feed".toList
  | number => "number".toList

/-- An integer that `float` takes. -/
def InFloat (n : ℤ) : Prop := n.natAbs < 2 ^ 1024 - 2 ^ 970

instance : DecidablePred InFloat := fun _ => inferInstanceAs (Decidable (_ < _))

section

variable (t : Digits) (texts : Texts)

def Quantity.parse : Quantity → Value ℚ → Str → Except CamConfigError ℚ
  | length => parseLength t
  | feed => parseFeed t
  | number => parseNumber t

/-- A value of a text, a number or a float, for the text of an error. -/
def yamlOf : Value ℚ → Yaml
  | .int n => .int n
  | .float x => .float (.finite x)
  | .str s => .str s
  | _ => .null

/-- A number that is read, and a `CamConfigError` as the `ValueError` that it is. -/
def raised : Except CamConfigError ℚ → Except Raised YamlFloat
  | .ok x => .ok (.finite x)
  | .error e => .error (.valueError (e.message (texts.repr ∘ yamlOf)))

/-- `parse_length`, `parse_feed` and `parse_number`, of any value. -/
def Quantity.read (q : Quantity) (value : Yaml) (what : Str) : Except Raised YamlFloat :=
  match value with
  | .int n => if InFloat n then raised texts (q.parse t (.int n) what) else .error .overflowError
  | .float (.finite x) => raised texts (q.parse t (.float x) what)
  | .float (.infinite true) =>
    .error (.valueError (what ++ " is not a positive ".toList ++ q.noun ++ ": ".toList ++ texts.repr value))
  | .float x => .ok x
  | .str s => raised texts (q.parse t (.str s) what)
  | value => .error (.valueError (what ++ " is not a number: ".toList ++ texts.repr value))

end

/-- `value_parsers` -/
def valueParsers : List (Str × Quantity) :=
  lengthKeys.map (·, .length) ++ feedKeys.map (·, .feed) ++ numberKeys.map (·, .number)

/-! ## Machines -/

/-- `_METHOD_MAP` -/
def methodMap : List (Str × ℕ) :=
  [("additive".toList, 100), ("subtractive".toList, 200), ("forming".toList, 300), ("sheet_metal".toList, 400)]

/-- `MACHINES` -/
def machineKinds : List Str := ["cnc".toList, "drill".toList, "laser".toList]

/-- `MACHINE_OWN_KEYS` -/
def machineOwnKeys (kind : Str) : List Str :=
  if kind = "laser".toList then ["toolAxis".toList, "kerf".toList] else ["toolAxis".toList]

/-- `MACHINE_JOB_KEYS` -/
def machineJobKeys (kind : Str) : List Str :=
  if kind = "cnc".toList then
    ["diameter".toList, "depth".toList, "depth_per_pass".toList, "safe_z".toList, "feed".toList,
      "plunge".toList, "speed".toList, "stepover".toList, "operation".toList, "direction".toList]
  else if kind = "laser".toList then ["power".toList, "feed".toList, "direction".toList]
  else ["diameter".toList, "safe_z".toList, "peck".toList, "plunge".toList, "speed".toList]

/-- `machine_keys` -/
def machineKeys (kind : Str) : List Str :=
  machineOwnKeys kind ++ machineJobKeys kind ++ ["implementation".toList, "desc".toList]

/-- `SHARED_JOB_KEYS` -/
def sharedJobKeys : List Str :=
  lengthKeys ++ feedKeys ++ numberKeys ++
    ["operation".toList, "direction".toList, "implementation".toList, "desc".toList]

/-- `_SECTION_KEYS` -/
def sectionKeys : List Str := ["method".toList, "source".toList, "instructions".toList]

/-- `_AXES` -/
def axes : List (Str × (ℤ × ℤ × ℤ)) :=
  [("+x".toList, (1, 0, 0)), ("-x".toList, (-1, 0, 0)), ("+y".toList, (0, 1, 0)),
    ("-y".toList, (0, -1, 0)), ("+z".toList, (0, 0, 1)), ("-z".toList, (0, 0, -1))]

/-- `tool_axis_vector`; an error is the text of a `ValueError`. -/
def toolAxisVector (name : Str) : Except Str (ℤ × ℤ × ℤ) :=
  let key := lower (strip name)
  match lookupItem key axes with
  | some vector => .ok vector
  | none =>
    match lookupItem ('+' :: key) axes with
    | some vector => .ok vector
    | none =>
      .error ("'".toList ++ name ++ "' is not an axis; write one of ".toList ++
        commas ((axes.map Prod.fst).insertionSort (· ≤ ·)))

structure MachineConfig where
  kind : Str
  declared : Bool
  options : Items
  toolAxis : Str
  vector : ℤ × ℤ × ℤ

/-- `"'%s: %s:'" % (kind, key)` -/
def optionText (kind key : Str) : Str := "'".toList ++ kind ++ ": ".toList ++ key ++ ":'".toList

section

variable (t : Digits) (texts : Texts)

/-- An option is replaced by what is read of it, unless it is missing or `None`. -/
def changeOption (kind : Str) (options : Items) (parser : Str × Quantity) : Except Raised Items :=
  match get options parser.1 with
  | none => .ok options
  | some .null => .ok options
  | some value => (parser.2.read t texts value (optionText kind parser.1)).map fun x =>
      options.map fun p => if p.1.isIn [parser.1] = true then (p.1, .float x) else p

/-- The axis that a subsection states. -/
def statedAxis (config : Items) : Str :=
  match get config "toolAxis".toList with
  | none => "-Z".toList
  | some value => if value.truthy then texts.str value else "-Z".toList

/-- `MachineConfig` -/
def machineConfig (kind : Str) (config : Items) (declared : Bool) : Except Raised MachineConfig :=
  let toolAxis := statedAxis texts config
  let options := config.filter fun p => ! p.1.isIn ["toolAxis".toList]
  match toolAxisVector toolAxis with
  | .error e => .error (.valueError (optionText kind "toolAxis".toList ++ " ".toList ++ e))
  | .ok vector => (valueParsers.foldlM (changeOption t texts kind) options).map fun options =>
      ⟨kind, declared, options, toolAxis, vector⟩

/-- `sorted(keys)` of texts. -/
def sortedTexts (keys : List Yaml) : Except Raised (List Str) :=
  if keys.all (fun key => match key with | .str _ => true | _ => false) then
    .ok ((keys.filterMap fun | .str s => some s | _ => none).insertionSort (· ≤ ·))
  else .error .typeError

/-- `_read_machine`: an error within is what it records. -/
def readMachine (kind : Str) (config : Yaml) (declared : Bool) : Except Raised (Except Str MachineConfig) :=
  let read (items : Items) : Except Raised (Except Str MachineConfig) :=
    let unknown := (items.map Prod.fst).filter fun key => ! key.isIn (machineKeys kind)
    if unknown ≠ [] then
      (sortedTexts unknown).map fun names =>
        .error ("'".toList ++ kind ++ ":' does not take ".toList ++ commas names ++ "; it takes ".toList ++
          commas ((machineKeys kind).map fun key => "'".toList ++ key ++ ":'".toList))
    else
      match machineConfig t texts kind items declared with
      | .ok machine => .ok (.ok machine)
      | .error (.valueError e) => .ok (.error e)
      | .error e => .error e
  match config with
  | .null => read []
  | .dict items => read items
  | config => .ok (.error ("'".toList ++ kind ++ ":' is not a section: ".toList ++ texts.repr config))

/-! ## Sections -/

structure PartConfigManufacturing where
  declaredSection : Bool
  method : Option ℕ
  source : Yaml
  instructions : Yaml
  machineError : Option Str
  machines : List (Str × MachineConfig)
  job : Items
  logged : List Str

/-- The machines that are named, one after the other, until one cannot be read. -/
def readNamed (items : Items) : List Str → List (Str × MachineConfig) →
    Except Raised (Except Str (List (Str × MachineConfig)))
  | [], machines => .ok (.ok machines)
  | kind :: kinds, machines =>
    match readMachine t texts kind ((get items kind).getD .null) true with
    | .error e => .error e
    | .ok (.error e) => .ok (.error e)
    | .ok (.ok machine) => readNamed items kinds (machines ++ [(kind, machine)])

/-- `_method_string` -/
def methodString (method : Option ℕ) : Str :=
  match method with
  | none => "none".toList
  | some n => ((methodMap.find? fun p => p.2 = n).map Prod.fst).getD "unknown".toList

/-- A part is cut: it is subtractive, or says something and no method. -/
def describesCut (declaredSection : Bool) (method : Option ℕ) : Bool :=
  method = some 200 || (declaredSection && method = none)

/-- `_read_machines` -/
def readMachines (self : PartConfigManufacturing) (items : Items) : Except Raised PartConfigManufacturing :=
  if describesCut self.declaredSection self.method = false then
    let stray := (items.map Prod.fst).filter fun key => key.isIn sharedJobKeys || key.isIn machineKinds
    if stray ≠ [] then
      (sortedTexts stray).map fun names =>
        { self with machineError := some ("'method: ".toList ++ methodString self.method ++
            "' describes no cut, so it does not take ".toList ++
            commas (names.map fun key => "'".toList ++ key ++ ":'".toList)) }
    else .ok self
  else
    let shared := items.filter fun p => p.1.isIn sharedJobKeys
    let unknown := (items.map Prod.fst).filter fun key =>
      ! key.isIn sharedJobKeys && ! key.isIn machineKinds && ! key.isIn sectionKeys
    if unknown ≠ [] then
      (sortedTexts unknown).map fun names =>
        { self with machineError := some ("'manufacturing:' does not take ".toList ++ commas names) }
    else
      let named := machineKinds.filter fun kind => (get items kind).isSome
      if named = [] then
        (readMachine t texts "cnc".toList .null false).map fun
          | .ok machine => { self with job := shared, machines := [("cnc".toList, machine)] }
          | .error e => { self with job := shared, machineError := some e }
      else
        (readNamed t texts items named []).map fun
          | .ok machines => { self with job := shared, machines := machines }
          | .error e => { self with job := shared, machineError := some e }

/-- `_METHOD_MAP.get(method)` -/
def methodOf (method : Yaml) : Except Raised (Option ℕ) :=
  if method.hashable then
    match method with
    | .str s => .ok (lookupItem s methodMap)
    | _ => .ok none
  else .error .typeError

/-- What is logged of a method that is not known. -/
def logMethod (methodText : Yaml) : Option ℕ → List Str
  | some _ => []
  | none =>
    match methodText with
    | .null => []
    | methodText => ["Unknown manufacturing method '".toList ++ texts.str methodText ++
        "'. Supported methods: ['additive', 'subtractive', 'forming', 'sheet_metal'].".toList]

/-- `PartConfigManufacturing`, of a section that is a mapping -/
def initSection (items : Items) : Except Raised PartConfigManufacturing :=
  let methodText := (get items "method".toList).getD .null
  (methodOf methodText).bind fun method =>
    readMachines t texts ⟨! items.isEmpty, method, (get items "source".toList).getD .null,
      (get items "instructions".toList).getD .null, none, [], [], logMethod texts methodText method⟩ items

/-- `PartConfigManufacturing` -/
def init (finalConfig : Items) : Except Raised PartConfigManufacturing :=
  let manufacturingConfig := (get finalConfig "manufacturing".toList).getD (.dict [])
  if manufacturingConfig.truthy then
    match manufacturingConfig with
    | .dict items => initSection t texts items
    | _ => .error .attributeError
  else initSection t texts []

end

end PartCAD.Manufacturing
