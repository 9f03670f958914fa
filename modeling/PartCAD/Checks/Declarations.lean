import PartCAD.Cache.Hash
import PartCAD.Package.FileFactory
import PartCAD.Package.Names
import PartCAD.Supply.Cart

/-!
# What the checks read

A check judges a shape by its configuration and by what that leads to: the software it ships with,
the suppliers, the interfaces of its connections, the objects an assembly is procured from.

* `Shape`, `Software`, `Declarations` : the objects, and what their names lead to;
* `unreproducibleReason`, `verifyAsync`, `toleranceFailure`, `supplyFailure` : what is wrong with one of
  them;
* `expectedOverlapPairs` : the pairs of parts whose joint requires them to share space.
-/

namespace PartCAD.Checks

open PartCAD.Lib PartCAD.Lib.Text PartCAD.Assembly PartCAD.Supply
open PartCAD.File (declaredHash)

variable {F : Type}

abbrev Config (F : Type) := Dict Str (Value F)

/-- A text of a configuration. -/
def textAt (config : Config F) (key : Str) : Option Str :=
  match config.get? key with
  | some (.str s) => some s
  | _ => none

/-! ## Files -/

/-- `ShapeConfigStore` -/
def storeData (config : Config F) : StoreData where
  vendor := textAt config "vendor".toList
  sku := textAt config "sku".toList
  countPerSku :=
    match config.get? "count_per_sku".toList with
    | some (.int n) => n.toNat
    | _ => 1

def fileFrom (config : Config F) : Option Str := textAt config "fileFrom".toList

/-- `declared_hash` of a configuration. -/
def fileHash (config : Config F) : Option Str := declaredHash (textAt config "fileHash".toList)

/-- `PACKAGE_FILE_SOURCES` -/
def packageFileSources : List Str := ["plugin".toList]

def isPackageFile (config : Config F) : Bool :=
  match fileFrom config with
  | none => true
  | some source => packageFileSources.contains source

/-- `str` of a text or of `None`. -/
def orNone (s : Option Str) : Str := s.getD "None".toList

def unreproducibleReason (config : Config F) : Option Str :=
  if isPurchasable (storeData config) then none
  else if isPackageFile config then none
  else if (fileHash config).isSome then none
  else some ("it is fetched with 'fileFrom: ".toList ++ orNone (fileFrom config) ++
    "', declares no 'fileHash', and names no vendor and SKU to order it by, ".toList ++
    "so nothing says which one it is".toList)

/-! ## Software -/

structure Software (F : Type) where
  config : Config F
  /-- why the file cannot be had -/
  missing : Option Str
  /-- `file_hash_failure` of the file -/
  hashFailure : Str → Option Str

def Software.verifyAsync (software : Software F) : Option Str :=
  match unreproducibleReason software.config with
  | some failure => some failure
  | none =>
    match software.missing with
    | some failure => some failure
    | none =>
      ((fileHash software.config).bind software.hashFailure).map
        ("the file does not match its 'fileHash': ".toList ++ ·)

/-- The texts of a list. -/
def texts (vs : List (Value F)) : List Str :=
  vs.filterMap fun v =>
    match v with
    | .str s => some s
    | _ => none

/-- `resolved_software_refs`; `none` where a reference climbs above the root. -/
def resolvedSoftwareRefs (projectName : Str) (config : Config F) : Option (List Str) :=
  match config.get? "software_resolved".toList with
  | some (.list (v :: vs)) => some (texts (v :: vs))
  | _ =>
    let refs := match config.get? "software".toList with
      | some (.str s) => [s]
      | some (.list vs) => texts vs
      | _ => []
    (declaredSoftwareRefs projectName refs).map SoftwareRefs.refs

/-! ## Shapes -/

/-- The metadata of a connection. -/
structure Connection where
  target : Option Str
  interferes : List Str
  withInterface : Option Str
  toInterface : Option Str

/-- The instructions of a connection. -/
structure How where
  selfScrew : Bool
  snapIn : Bool

/-- How a child is held. -/
structure Link where
  name : Option Str
  connection : Option Connection
  how : Option How

/-- A child of an assembly.  An assembly is embedded when its configuration has `child` set. -/
inductive Child where
  | part (link : Link) (object : Object)
  | assembly (link : Link) (object : Object) (embedded : Bool) (children : List Child)

mutual
/-- The child as the walks over bills of materials see it. -/
def Child.item : Child → Item
  | .part _ object => .part object
  | .assembly _ object embedded children => .assembly object embedded (items children)
def items : List Child → List Item
  | [] => []
  | child :: rest => child.item :: items rest
end

mutual
/-- What `connected_children` yields for a child. -/
def Child.connected : Child → List Link
  | .part link _ => [link]
  | .assembly link _ embedded children =>
    link :: if embedded then connectedChildren children else []
def connectedChildren : List Child → List Link
  | [] => []
  | child :: rest => child.connected ++ connectedChildren rest
end

/-- What `get_tolerance` answers, but `None`. -/
inductive Tolerance where
  /-- tolerated feature by feature -/
  | nan
  | length (isZero : Bool)

/-- What `get_interference_async` finds. -/
structure Interference where
  overlaps : List (Str × Str)
  unchecked : List Str
  indeterminate : List (Str × Str)

/-- The classes that the checks tell apart. -/
inductive ShapeClass where
  | part
  | assembly
  | other
  deriving DecidableEq

structure Shape (F : Type) where
  projectName : Str
  name : Str
  kind : Str
  shapeClass : ShapeClass
  isManufacturable : Bool
  cacheable : Bool
  cacheDependenciesBroken : Bool
  hash : Cache.CacheHash
  config : Config F
  /-- `get_final_config` -/
  finalConfig : Config F
  tolerance : Option Tolerance
  material : Option Str
  color : Option Str
  finish : Option Str
  /-- no children where the assembly cannot be instantiated -/
  children : Option (List Child)
  /-- `get_interference_async` for a least volume and a least fraction, or the defaults; an error
  where it raises -/
  interference : Option (Value F) → Option (Value F) → Except Unit (Option Interference)

/-- `_NON_GEOMETRIC_CONFIG_KEYS` -/
def nonGeometricConfigKeys : List Str :=
  ["aliases".toList, "author".toList, "cache".toList, "cache_dependencies_ignore".toList,
    "category".toList, "count_per_sku".toList, "desc".toList, "docs".toList, "example".toList,
    "images".toList, "label".toList, "license".toList, "manufacturable".toList,
    "manufacturing".toList, "name".toList, "orig_name".toList, "properties".toList, "sku".toList,
    "summary".toList, "supplier".toList, "tags".toList, "title".toList, "url".toList,
    "vendor".toList]

/-- The hash object of a new shape. -/
def newHash [PyFloat F] (config : Config F) (cacheable : Bool) : Cache.CacheHash :=
  let hash := Cache.CacheHash.init none cacheable
  if cacheable then
    hash.addDict (some (config.items.filter fun p => ! nonGeometricConfigKeys.contains p.1))
  else hash

namespace Shape

variable (shape : Shape F)

def getCacheable : Bool := shape.cacheable && ! shape.cacheDependenciesBroken

def getStoreData : StoreData := storeData shape.finalConfig

/-- The manufacturing method that a configuration names. -/
def methodString : Option Str :=
  match shape.finalConfig.get? "manufacturing".toList with
  | some (.dict manufacturing) =>
    match lookupItem "method".toList manufacturing with
    | some (.str s) => some s
    | _ => none
  | _ => none

/-- The methods of parts. -/
def partMethods : List Str :=
  ["additive".toList, "subtractive".toList, "forming".toList, "sheet_metal".toList]

/-- `METHOD_ASSY` -/
def methodAssy : Str := "assy".toList

/-- `get_manufacturing_data` names a method. -/
def hasMethod : Bool :=
  match shape.shapeClass, shape.methodString with
  | .assembly, some method => method = methodAssy
  | _, some method => partMethods.contains method
  | _, none => false

def cartObject [PyFloat F] : CartObject where
  storeData := shape.getStoreData
  material := shape.material
  color := shape.color
  finish := shape.finish
  embedded := match shape.config.get? "child".toList with
    | some v => Package.truthy v
    | none => false
  children := items (shape.children.getD [])

end Shape

/-! ## Declarations -/

/-- An interface, by what `get_self_screw` answers; an error where it raises. -/
structure Interface where
  selfScrew : Except Unit Bool

/-- What names lead to. -/
structure Declarations (F : Type) where
  currentProjectPath : Str
  decimals : Decimals
  project : Str → Option (Supply.Shelf (Shape F))
  /-- `software.lookup` -/
  software : Str → Option (Software F)
  /-- `get_interface` -/
  interface : Str → Except Unit (Option Interface)
  /-- `find_part_suppliers` -/
  suppliers : ProviderCartItem → Except Unit (List Str)
  /-- `is_part_available` of a provider -/
  available : Str → ProviderCartItem → Except Unit Bool
  files : Str → Option Bytes

namespace Declarations

section

variable [PyFloat F] (d : Declarations F)

/-- The objects that a cart may hold. -/
def cart : CartContext (Shape F) where
  currentProjectPath := d.currentProjectPath
  project := d.project
  object shape := shape.cartObject
  decimals := d.decimals

end

variable (d : Declarations F) (shape : Shape F)

def reproducibilityFailure : Option Str :=
  (unreproducibleReason shape.finalConfig).map ("It is not reproducible: ".toList ++ ·)

/-- What is wrong with one reference. -/
def refFailure (ref : Str) : Option Str :=
  match d.software ref with
  | none => some ("the software '".toList ++ ref ++ "' is not found".toList)
  | some software => software.verifyAsync.map fun failure =>
      "the software '".toList ++ ref ++ "' cannot be relied on: ".toList ++ failure

def softwareFailure : Except Unit (Option Str) :=
  match resolvedSoftwareRefs shape.projectName shape.finalConfig with
  | none => .error ()
  | some refs =>
    match refs.filterMap d.refFailure with
    | [] => .ok none
    | failure :: rest =>
      .ok (some (rest.foldl (fun text failure => text ++ "; ".toList ++ failure) failure))

/-- The first provider that has the item. -/
def anyAvailable (item : ProviderCartItem) : List Str → Except Unit Bool
  | [] => .ok false
  | provider :: rest =>
    match d.available provider item with
    | .error e => .error e
    | .ok true => .ok true
    | .ok false => anyAvailable item rest

def supplyFailure [PyFloat F] : Except Unit (Option Str) :=
  match setSpec d.cart (shape.projectName ++ ':' :: shape.name) with
  | none => .error ()
  | some item =>
    match d.suppliers item with
    | .error e => .error e
    | .ok [] => .ok (some "No suppliers found".toList)
    | .ok suppliers =>
      match d.anyAvailable item suppliers with
      | .error e => .error e
      | .ok true => .ok none
      | .ok false => .ok (some ("No suppliers provide the ".toList ++ shape.kind))

def toleranceFailure : Option Str :=
  match shape.tolerance with
  | none => some ("No manufacturing tolerance: the part type '".toList ++
      orNone (textAt shape.config "type".toList) ++ "' does not accept one".toList)
  | some .nan => none
  | some (.length true) => some "No manufacturing tolerance is specified".toList
  | some (.length false) => none

/-! ## Joints -/

/-- `tuple(sorted((a, b)))` -/
def sortedPair (a b : Str) : Str × Str := if b < a then (b, a) else (a, b)

def cutsItsOwnThread : Option Str → Bool
  | none | some [] => false
  | some spec =>
    match d.interface spec with
    | .ok (some interface) =>
      match interface.selfScrew with
      | .ok selfScrew => selfScrew
      | .error _ => false
    | _ => false

/-- What the joint of one child requires. -/
def expectedOf (child : Link) : List (Str × Str) :=
  match child.connection, child.name with
  | some connection, some name =>
    match connection.target with
    | none => []
    | some target =>
      let further := connection.interferes.map (sortedPair name)
      let driven := match child.how with
        | some how => how.selfScrew || how.snapIn
        | none => false
      if driven || d.cutsItsOwnThread connection.withInterface ||
          d.cutsItsOwnThread connection.toInterface then
        further ++ [sortedPair name target]
      else further
  | _, _ => []

def expectedOverlapPairs : List (Str × Str) :=
  (connectedChildren (shape.children.getD [])).flatMap d.expectedOf

def nameMatches (name pattern : Str) : Bool := name = pattern || ('/' :: pattern).isSuffixOf name

def isExpected (expected : List (Str × Str)) (overlap : Str × Str) : Bool :=
  expected.any fun p =>
    (nameMatches overlap.1 p.1 && nameMatches overlap.2 p.2) ||
      (nameMatches overlap.1 p.2 && nameMatches overlap.2 p.1)

end Declarations

end PartCAD.Checks
