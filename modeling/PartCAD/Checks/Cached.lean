import PartCAD.Lib.Answers
import PartCAD.Lib.Repr
import PartCAD.Checks.Declarations

/-!
# The checks, and the memory of their verdicts

A check is asked about a shape, with a context.  `test` comes to a verdict, which may take asking
other checks about other objects; `testCached` remembers it under the hash of the shape and a key, and
asks again only when nothing is found there.

* `manufacturability`, `interference` : what the two checks do;
* `cacheKey` : what a verdict is remembered under;
* `testCached`, `perform` : the calls, on the memory.
-/

namespace PartCAD.Checks

open PartCAD.Lib PartCAD.Lib.Text PartCAD.Supply

/-! ## Questions -/

/-- `test_ctx` -/
structure TestCtx where
  forceManufacturing : Bool
  logWrapper : Bool
  notCacheable : Bool
  actionPrefix : Option Str

def TestCtx.empty : TestCtx := ⟨false, false, false, none⟩

/-- The checks; those whose verdict is about one shape go by their names. -/
inductive Test where
  | manufacturability
  | interference
  | other (name : Str)
  deriving DecidableEq

def Test.name : Test → Str
  | .manufacturability => "manufacturability".toList
  | .interference => "interference".toList
  | .other name => name

structure Question (F : Type) where
  test : Test
  testsToRun : List Test
  shape : Shape F
  ctx : TestCtx

/-- The ways in which a check asks another one. -/
inductive Command (F : Type) where
  | test (q : Question F)
  | testLogWrapper (q : Question F)

/-- A check: what it looks at, the verdict on it, and whether it sets `NOT_CACHEABLE`. -/
structure OtherCheck (F ρ : Type) where
  cacheKeySuffix : Declarations F → Shape F → Except Unit Str
  look : Declarations F → Shape F → TestCtx → ρ
  verdict : ρ → Except Unit (Bool × Bool)

/-- What stays as it is, whatever the declarations. -/
structure Machine (F ρ : Type) where
  printable : Char → Bool
  digest : Bytes → Str
  /-- `hashlib.sha256(..).hexdigest()` -/
  sha256 : Str → Str
  /-- some tier of the cache takes an entry of this name -/
  keeps : Str → Bool
  other : Str → OtherCheck F ρ

abbrev Checking (F α : Type) := Program (Command F) (fun _ => Bool) Unit α

variable {F ρ : Type} [PyFloat F]

/-! ## Manufacturability -/

def testPart (d : Declarations F) (part : Shape F) : Except Unit Bool :=
  let canBePurchased := isPurchasable part.getStoreData
  if ! canBePurchased && ! part.hasMethod then .ok false
  else if ! canBePurchased && (Declarations.toleranceFailure part).isSome then .ok false
  else
    match d.softwareFailure part with
    | .error e => .error e
    | .ok (some _) => .ok false
    | .ok none => (d.supplyFailure part).map Option.isNone

/-- What all tests are asked with about one object. -/
def commands (testsToRun : List Test) (object : Shape F) (ctx : TestCtx) : List (Command F) :=
  testsToRun.map fun t =>
    if ctx.logWrapper then .testLogWrapper ⟨t, testsToRun, object, ctx⟩
    else .test ⟨t, testsToRun, object, ctx⟩

/-- The loop over the bill of materials. -/
def testObjects (d : Declarations F) (testsToRun : List Test) (ctx : TestCtx) :
    List Str → Bool → Checking F Bool
  | [], failed => .done failed
  | objectName :: rest, failed =>
    match resolveCartObject d.cart objectName with
    | none => testObjects d testsToRun ctx rest true
    | some object => (Program.gather (commands testsToRun object ctx)).bind fun results =>
        testObjects d testsToRun ctx rest (failed || results.contains false)

/-- The context for what an assembly is procured from. -/
def Question.forced (q : Question F) : TestCtx :=
  { q.ctx with
    forceManufacturing := true
    actionPrefix := some (q.shape.projectName ++ ':' :: q.shape.name) }

def testAssembly (d : Declarations F) (q : Question F) : Checking F Bool :=
  match d.softwareFailure q.shape with
  | .error e => .raised e
  | .ok (some _) => .done false
  | .ok none =>
    if isPurchasable q.shape.getStoreData then
      match d.supplyFailure q.shape with
      | .error e => .raised e
      | .ok failure => .done failure.isNone
    else
      match q.shape.children with
      | none => .raised ()
      | some children =>
        (testObjects d q.testsToRun q.forced (getSupplyBom (items children)).keys
          (! q.shape.hasMethod)).bind fun failed => .done (! failed)

/-- `ManufacturabilityTest.test` -/
def manufacturability (d : Declarations F) (q : Question F) : Checking F Bool :=
  if ! q.shape.isManufacturable && ! q.ctx.forceManufacturing then .done true
  else if (Declarations.reproducibilityFailure q.shape).isSome then .done false
  else
    match q.shape.shapeClass with
    | .part =>
      match testPart d q.shape with
      | .error e => .raised e
      | .ok verdict => .done verdict
    | .assembly => testAssembly d q
    | .other => .done true

/-! ## Interference -/

/-- An entry of the `interference` section; `none` is the default. -/
def interferenceOption (shape : Shape F) (key : Str) : Option (Value F) :=
  match shape.config.get? "interference".toList with
  | some (.dict config) => lookupItem key config
  | _ => none

def minVolume (shape : Shape F) : Option (Value F) := interferenceOption shape "minVolume".toList

def minFraction (shape : Shape F) : Option (Value F) := interferenceOption shape "minFraction".toList

/-- `InterferenceTest.test` : the verdict, and whether it sets `NOT_CACHEABLE`. -/
def interference (d : Declarations F) (shape : Shape F) : Bool × Bool :=
  if shape.shapeClass ≠ .assembly then (true, false)
  else
    match shape.interference (minVolume shape) (minFraction shape) with
    | .error _ => (false, true)
    | .ok none => (true, true)
    | .ok (some result) =>
      let expected := d.expectedOverlapPairs shape
      let reported := result.overlaps.filter fun o => ! Declarations.isExpected expected o
      (reported.isEmpty || ! shape.isManufacturable,
        ! result.indeterminate.isEmpty || ! result.unchecked.isEmpty)

/-! ## The key -/

/-- What is declared about the software behind a reference. -/
def declaredRef (d : Declarations F) (ref : Str) : Str :=
  match d.software ref with
  | none => ref ++ "@".toList
  | some software => ref ++ '@' :: orNone (fileFrom software.config) ++
      '@' :: orNone (fileHash software.config)

variable (M : Machine F ρ)

def manufacturabilitySuffix (d : Declarations F) (shape : Shape F) : Except Unit Str :=
  let config := shape.finalConfig
  let file :=
    if (fileFrom config).isSome || (fileHash config).isSome then
      ["file:".toList ++ orNone (fileFrom config) ++ '@' :: orNone (fileHash config)]
    else []
  match resolvedSoftwareRefs shape.projectName config with
  | none => .error ()
  | some refs =>
    match file ++ refs.map (declaredRef d) with
    | [] => .ok []
    | declared => .ok (".declared=".toList ++ (M.sha256 (join ';' declared)).take 16)

def boolText (b : Bool) : Str := if b then "True".toList else "False".toList

def interferenceSuffix (shape : Shape F) : Str :=
  ",manufacturable=".toList ++ boolText shape.isManufacturable ++
    ",minVolume=".toList ++ ((minVolume shape).map (strText M.printable)).getD "0.05".toList ++
    ",minFraction=".toList ++ ((minFraction shape).map (strText M.printable)).getD "0.0".toList

def cacheKeySuffix (d : Declarations F) (test : Test) (shape : Shape F) : Except Unit Str :=
  match test with
  | .manufacturability => manufacturabilitySuffix M d shape
  | .interference => .ok (interferenceSuffix M shape)
  | .other name => (M.other name).cacheKeySuffix d shape

/-- `cache_key` -/
def cacheKey (d : Declarations F) (q : Question F) : Except Unit Str :=
  (cacheKeySuffix M d q.test q.shape).map fun suffix =>
    "test.".toList ++ q.test.name ++ ".manufacturable=".toList ++
      (if q.shape.isManufacturable then ['1'] else ['0']) ++ suffix

/-! ## The memory -/

/-- The entries by name.  Nothing reads `asked` : which question an entry answers, and the declarations
at that moment. -/
structure Memory (F : Type) where
  bytes : Str → Option Bytes
  asked : Str → Option (Declarations F × Question F)

namespace Memory

def empty : Memory F := ⟨fun _ => none, fun _ => none⟩

/-- `write_data_async` of one item. -/
def write (m : Memory F) (name : Str) (data : Bytes) (d : Declarations F) (q : Question F) :
    Memory F where
  bytes n := if n = name then some data else m.bytes n
  asked n := if n = name then some (d, q) else m.asked n

/-- An entry is evicted. -/
def forget (m : Memory F) (name : Str) : Memory F where
  bytes n := if n = name then none else m.bytes n
  asked n := if n = name then none else m.asked n

end Memory

/-- The name of an entry; `none` when no hash is produced. -/
def entryName (d : Declarations F) (q : Question F) (key : Str) : Option Str :=
  (q.shape.hash.get M.digest d.files).1.bind fun hash => if hash = [] then none else
    some (hash ++ '.' :: key)

/-- `bytes([result])` -/
def verdictBytes (result : Bool) : Bytes := [if result then 1 else 0]

/-! ## The calls -/

/-- What a check does: its verdict, and whether it sets `NOT_CACHEABLE`. -/
def test (d : Declarations F) (q : Question F) : Checking F (Bool × Bool) :=
  match q.test with
  | .manufacturability => (manufacturability d q).bind fun verdict => .done (verdict, false)
  | .interference => .done (interference d q.shape)
  | .other name =>
    match (M.other name).verdict ((M.other name).look d q.shape q.ctx) with
    | .error e => .raised e
    | .ok verdict => .done verdict

/-- What a call came to; `none` when it did not come to an end. -/
abbrev Outcome (F α : Type) := Option (Except Unit α × Memory F)

/-- `Test.test_cached`, for what a run of `test` comes to. -/
def testCachedWith (d : Declarations F) (run : Memory F → Outcome F (Bool × Bool)) (q : Question F)
    (m : Memory F) : Outcome F Bool :=
  if q.shape.getCacheable then
    match cacheKey M d q with
    | .error e => some (.error e, m)
    | .ok key =>
      match (entryName M d q key).bind m.bytes with
      | some (byte :: rest) => some (.ok (if rest ≠ [] then false else byte ≠ 0), m)
      | _ =>
        (run m).map fun rm =>
          match rm with
          | (.error e, m') => (.error e, m')
          | (.ok (result, notCacheable), m') =>
            match entryName M d q key with
            | some name =>
              if notCacheable || q.ctx.notCacheable || ! M.keeps name then (.ok result, m')
              else (.ok result, m'.write name (verdictBytes result) d q)
            | none => (.ok result, m')
  else (run m).map fun rm => (rm.1.map Prod.fst, rm.2)

/-- `test_log_wrapper` sets `log_wrapper`. -/
def Question.logged (q : Question F) : Question F := { q with ctx := { q.ctx with logWrapper := true } }

/-- What a check is asked by a command. -/
def Command.question : Command F → Question F
  | .test q => q
  | .testLogWrapper q => q.logged

/-- A command, nested at most so deep. -/
def perform (d : Declarations F) : ℕ → Command F → Memory F → Outcome F Bool
  | 0, _, _ => none
  | n + 1, .test q, m =>
    ((test M d q).runWith (perform d n) m).map fun rm => (rm.1.map Prod.fst, rm.2)
  | n + 1, .testLogWrapper q, m =>
    testCachedWith M d ((test M d q.logged).runWith (perform d n)) q.logged m

def testCached (d : Declarations F) (n : ℕ) (q : Question F) (m : Memory F) : Outcome F Bool :=
  testCachedWith M d ((test M d q).runWith (perform M d n)) q m

/-- The verdict that `test` comes to when nothing is remembered. -/
def judge (d : Declarations F) : ℕ → Question F → Option (Except Unit Bool)
  | 0, _ => none
  | n + 1, q => ((test M d q).value fun c => judge d n c.question).map fun r => r.map Prod.fst

end PartCAD.Checks
