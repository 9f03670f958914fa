import PartCAD.Package.Names

/-!
# User configurations

A process resolves its options from a configuration file, its environment and defaults, and keeps
most of them as attributes.  A client hands its configuration to the daemon as plain data.

* `init`, `applyOptions`, `toDict`, `fromDict` : the configuration of a process, what the command
  line does to it, and the way from one process to another;
* `populateAddresses_idempotent` : the addresses of a user are filled in once.
-/

namespace PartCAD.Settings

open PartCAD.Lib

/-! ## Options -/

/-- The options of a configuration, and its sections. -/
inductive Key where
  | threadsMax
  | cacheMem
  | cacheFiles
  | cacheFilesMaxEntrySize
  | cacheFilesMinEntrySize
  | cacheMemoryMaxEntrySize
  | cacheMemoryDoubleCacheMaxEntrySize
  | cacheRemote
  | cacheRemoteServer
  | cacheRemoteNamespace
  | cacheRemoteExpiration
  | cacheRemoteMaxEntrySize
  | cacheRemoteMinEntrySize
  | cacheS3
  | cacheS3Bucket
  | cacheS3Prefix
  | cacheS3Region
  | cacheS3EndpointUrl
  | cacheS3MaxEntrySize
  | cacheS3MinEntrySize
  | cacheDependenciesIgnore
  | pythonSandbox
  | remoteSandbox
  | remoteSandboxToken
  | javascriptSandbox
  | ignoreBundledOpenscad
  | internalStateDir
  | logLevel
  | forceUpdate
  | develIndex
  | offline
  | gitCloneTimeout
  | gitCloneRetryMax
  | gitCloneRetryPatience
  | pluginQueryTimeout
  | useDocker
  | useDockerPython
  | useDockerKicad
  | caeFeaImplementation
  | caeCfdImplementation
  | camImplementation
  | tags
  | gitConfig
  | gitAuth
  | parameters
  | user
  deriving DecidableEq

/-- `OPTION_KEYS` -/
def optionKeys : List Key :=
  [.threadsMax, .cacheMem, .cacheFiles, .cacheFilesMaxEntrySize, .cacheFilesMinEntrySize,
    .cacheMemoryMaxEntrySize, .cacheMemoryDoubleCacheMaxEntrySize, .cacheRemote, .cacheRemoteServer,
    .cacheRemoteNamespace, .cacheRemoteExpiration, .cacheRemoteMaxEntrySize,
    .cacheRemoteMinEntrySize, .cacheS3, .cacheS3Bucket, .cacheS3Prefix, .cacheS3Region,
    .cacheS3EndpointUrl, .cacheS3MaxEntrySize, .cacheS3MinEntrySize, .cacheDependenciesIgnore,
    .pythonSandbox, .remoteSandbox, .remoteSandboxToken, .ignoreBundledOpenscad, .internalStateDir,
    .logLevel, .forceUpdate, .develIndex, .offline, .gitCloneTimeout, .gitCloneRetryMax,
    .gitCloneRetryPatience, .pluginQueryTimeout, .useDocker, .useDockerPython, .useDockerKicad,
    .caeFeaImplementation, .caeCfdImplementation, .camImplementation, .tags]

/-- `SECTION_PATHS` -/
def sectionPaths : List Key := [.gitConfig, .gitAuth, .parameters, .user]

/-- `user_config_options` of the command line, without the ones of telemetry. -/
def cliOptions : List Key :=
  [.threadsMax, .cacheFiles, .cacheFilesMaxEntrySize, .cacheFilesMinEntrySize,
    .cacheMemoryMaxEntrySize, .cacheMemoryDoubleCacheMaxEntrySize, .cacheMem, .cacheRemote,
    .cacheRemoteServer, .cacheS3, .cacheS3Bucket, .cacheS3EndpointUrl, .cacheDependenciesIgnore,
    .pythonSandbox, .javascriptSandbox, .ignoreBundledOpenscad, .internalStateDir, .forceUpdate,
    .offline, .develIndex]

/-- The environment variable that an option is bound to. -/
def Key.envVar : Key → Option String
  | .threadsMax => some "PC_THREADS_MAX"
  | .cacheMem => some "PC_CACHE_MEM"
  | .cacheFiles => some "PC_CACHE_FILES"
  | .cacheFilesMaxEntrySize => some "PC_CACHE_FILES_MAX_ENTRY_SIZE"
  | .cacheFilesMinEntrySize => some "PC_CACHE_FILES_MIN_ENTRY_SIZE"
  | .cacheMemoryMaxEntrySize => some "PC_CACHE_MEMORY_MAX_ENTRY_SIZE"
  | .cacheMemoryDoubleCacheMaxEntrySize => some "PC_CACHE_MEMORY_DOUBLE_CACHE_MAX_ENTRY_SIZE"
  | .cacheRemote => some "PC_CACHE_REMOTE"
  | .cacheRemoteServer => some "PC_CACHE_REMOTE_SERVER"
  | .cacheRemoteNamespace => some "PC_CACHE_REMOTE_NAMESPACE"
  | .cacheRemoteExpiration => some "PC_CACHE_REMOTE_EXPIRATION"
  | .cacheRemoteMaxEntrySize => some "PC_CACHE_REMOTE_MAX_ENTRY_SIZE"
  | .cacheRemoteMinEntrySize => some "PC_CACHE_REMOTE_MIN_ENTRY_SIZE"
  | .cacheS3 => some "PC_CACHE_S3"
  | .cacheS3Bucket => some "PC_CACHE_S3_BUCKET"
  | .cacheS3Prefix => some "PC_CACHE_S3_PREFIX"
  | .cacheS3Region => some "PC_CACHE_S3_REGION"
  | .cacheS3EndpointUrl => some "PC_CACHE_S3_ENDPOINT_URL"
  | .cacheS3MaxEntrySize => some "PC_CACHE_S3_MAX_ENTRY_SIZE"
  | .cacheS3MinEntrySize => some "PC_CACHE_S3_MIN_ENTRY_SIZE"
  | .cacheDependenciesIgnore => some "PC_CACHE_DEPENDENCIES_IGNORE"
  | .pythonSandbox => some "PC_PYTHON_SANDBOX"
  | .remoteSandbox => some "PC_REMOTE_SANDBOX"
  | .remoteSandboxToken => some "PC_REMOTE_SANDBOX_TOKEN"
  | .javascriptSandbox => some "PC_JAVASCRIPT_SANDBOX"
  | .ignoreBundledOpenscad => some "IGNORE_BUNDLED_OPENSCAD"
  | .internalStateDir => some "PC_INTERNAL_STATE_DIR"
  | .logLevel => some "PC_LOG_LEVEL"
  | .forceUpdate => some "PC_FORCE_UPDATE"
  | .develIndex => some "PC_DEVEL_INDEX"
  | .offline => some "PC_OFFLINE"
  | .gitCloneTimeout => some "PC_GIT_CLONE_TIMEOUT"
  | .gitCloneRetryMax => none
  | .gitCloneRetryPatience => none
  | .pluginQueryTimeout => some "PC_PLUGIN_QUERY_TIMEOUT"
  | .useDocker => some "PC_USE_DOCKER"
  | .useDockerPython => some "PC_USE_DOCKER_PYTHON"
  | .useDockerKicad => some "PC_USE_DOCKER_KICAD"
  | .caeFeaImplementation => some "PC_CAE_FEA_IMPLEMENTATION"
  | .caeCfdImplementation => some "PC_CAE_CFD_IMPLEMENTATION"
  | .camImplementation => some "PC_CAM_IMPLEMENTATION"
  | .tags => some "PC_TAGS"
  | .gitConfig => none
  | .gitAuth => none
  | .parameters => none
  | .user => none

/-- How an option is read: `get_bool`, `get_int` and the like, with what is done to what they give. -/
inductive Reader where
  | bool
  | int
  | float
  | string
  /-- `get_int` where it `is_set`. -/
  | setInt
  /-- `get_string` where it `is_set`. -/
  | setString
  /-- `get_int`, and 180 for a number that is not positive. -/
  | positive
  /-- `get_string(key) or default` -/
  | stringOr (default : String)
  | raw
  /-- `get(key) or {}` -/
  | mapping
  deriving DecidableEq

def Key.reader : Key → Reader
  | .threadsMax => .setInt
  | .cacheMem => .bool
  | .cacheFiles => .bool
  | .cacheFilesMaxEntrySize => .int
  | .cacheFilesMinEntrySize => .int
  | .cacheMemoryMaxEntrySize => .int
  | .cacheMemoryDoubleCacheMaxEntrySize => .int
  | .cacheRemote => .bool
  | .cacheRemoteServer => .string
  | .cacheRemoteNamespace => .string
  | .cacheRemoteExpiration => .int
  | .cacheRemoteMaxEntrySize => .int
  | .cacheRemoteMinEntrySize => .int
  | .cacheS3 => .bool
  | .cacheS3Bucket => .string
  | .cacheS3Prefix => .string
  | .cacheS3Region => .string
  | .cacheS3EndpointUrl => .string
  | .cacheS3MaxEntrySize => .int
  | .cacheS3MinEntrySize => .int
  | .cacheDependenciesIgnore => .bool
  | .pythonSandbox => .string
  | .remoteSandbox => .setString
  | .remoteSandboxToken => .setString
  | .javascriptSandbox => .string
  | .ignoreBundledOpenscad => .bool
  | .internalStateDir => .string
  | .logLevel => .string
  | .forceUpdate => .bool
  | .develIndex => .bool
  | .offline => .bool
  | .gitCloneTimeout => .positive
  | .gitCloneRetryMax => .int
  | .gitCloneRetryPatience => .float
  | .pluginQueryTimeout => .positive
  | .useDocker => .bool
  | .useDockerPython => .bool
  | .useDockerKicad => .bool
  | .caeFeaImplementation => .stringOr "//pub/feature/cae/calculix:fea"
  | .caeCfdImplementation => .stringOr "//pub/feature/cae/calculix:cfd"
  | .camImplementation => .stringOr "//builtin/cam:gcode"
  | .tags => .raw
  | .gitConfig => .mapping
  | .gitAuth => .mapping
  | .parameters => .mapping
  | .user => .mapping

/-- The options that are read from the layers whenever they are asked for. -/
def Key.live (key : Key) : Bool :=
  key ∈ sectionPaths ∨ key = .gitCloneRetryMax ∨ key = .gitCloneRetryPatience

section

variable {F : Type}

/-! ## Layers -/

/-- A process: its configuration file, its environment, and what it finds on its machine. -/
structure Process (F : Type) where
  file : Key → Value F
  environ : String → Option Str
  conda : Bool
  node : Bool
  configDir : Str

def text (s : String) : Value F := .str s.toList

/-- `set_default` -/
def Process.default (process : Process F) : Key → Value F
  | .threadsMax => .none
  | .cacheMem => .bool true
  | .cacheFiles => .bool true
  | .cacheFilesMaxEntrySize => .int (10 * 1024 * 1024)
  | .cacheFilesMinEntrySize => .int 100
  | .cacheMemoryMaxEntrySize => .int (100 * 1024 * 1024)
  | .cacheMemoryDoubleCacheMaxEntrySize => .int (1 * 1024 * 1024)
  | .cacheRemote => .bool false
  | .cacheRemoteServer => text ""
  | .cacheRemoteNamespace => text "partcad"
  | .cacheRemoteExpiration => .int (7 * 24 * 60 * 60)
  | .cacheRemoteMaxEntrySize => .int (1024 * 1024)
  | .cacheRemoteMinEntrySize => .int 100
  | .cacheS3 => .bool false
  | .cacheS3Bucket => text ""
  | .cacheS3Prefix => text "partcad/"
  | .cacheS3Region => text ""
  | .cacheS3EndpointUrl => text ""
  | .cacheS3MaxEntrySize => .int (100 * 1024 * 1024)
  | .cacheS3MinEntrySize => .int 100
  | .cacheDependenciesIgnore => .bool false
  | .pythonSandbox => text (if process.conda then "conda" else "venv")
  | .remoteSandbox => .none
  | .remoteSandboxToken => .none
  | .javascriptSandbox =>
    text (if process.node then "none" else if process.conda then "conda" else "none")
  | .ignoreBundledOpenscad => .bool false
  | .internalStateDir => .str process.configDir
  | .logLevel => text "debug"
  | .forceUpdate => .bool false
  | .develIndex => .bool false
  | .offline => .bool false
  | .gitCloneTimeout => .int 180
  | .gitCloneRetryMax => .none
  | .gitCloneRetryPatience => .none
  | .pluginQueryTimeout => .int 180
  | .useDocker => .bool true
  | .useDockerPython => .bool false
  | .useDockerKicad => .bool true
  | .caeFeaImplementation => text "//pub/feature/cae/calculix:fea"
  | .caeCfdImplementation => text "//pub/feature/cae/calculix:cfd"
  | .camImplementation => text "//builtin/cam:gcode"
  | .tags => text ""
  | .gitConfig => .none
  | .gitAuth => .none
  | .parameters => .none
  | .user => .none

/-- The value of the upper layer, or that of the lower one where it has none. -/
def Value.layer (v w : Value F) : Value F :=
  match v with
  | .none => w
  | v => v

/-- The layers of a configuration; what `set` puts in comes before the others. -/
structure Layers (F : Type) where
  override : Dict Key (Value F)
  env : Key → Value F
  file : Key → Value F
  default : Key → Value F

namespace Layers

def get (layers : Layers F) (key : Key) : Value F :=
  Value.layer ((layers.override.get? key).getD .none)
    (Value.layer (layers.env key) (Value.layer (layers.file key) (layers.default key)))

def set (layers : Layers F) (key : Key) (value : Value F) : Layers F :=
  { layers with override := layers.override.set key value }

end Layers

namespace Process

/-- `bind_env` -/
def env (process : Process F) (key : Key) : Value F :=
  match key.envVar.bind process.environ with
  | some s => .str s
  | none => .none

def layers (process : Process F) : Layers F where
  override := Dict.empty
  env := process.env
  file := process.file
  default := process.default

/-- What an option is in a process of its own. -/
def get (process : Process F) (key : Key) : Value F := process.layers.get key

end Process

/-! ## Reading -/

/-- `str.isspace` -/
def isSpace (c : Char) : Bool :=
  c.toNat ∈ [0x20, 0x85, 0xA0, 0x1680, 0x2028, 0x2029, 0x202F, 0x205F, 0x3000] ∨
    (0x09 ≤ c.toNat ∧ c.toNat ≤ 0x0D) ∨ (0x1C ≤ c.toNat ∧ c.toNat ≤ 0x1F) ∨
    (0x2000 ≤ c.toNat ∧ c.toNat ≤ 0x200A)

/-- `s.strip().lower()`; no letter beyond ASCII has one of those of `falseTexts` as its small one. -/
def normal (s : Str) : Str :=
  (((s.dropWhile isSpace).reverse.dropWhile isSpace).reverse).map Char.toLower

/-- `_FALSE` -/
def falseTexts : List Str :=
  ["0".toList, "false".toList, "no".toList, "n".toList, "off".toList, "f".toList, []]

/-- `get_int`, `get_float` and `get_string` of the layers; `none` is an exception. -/
structure Casts (F : Type) where
  getInt : Value F → Option ℤ
  getFloat : Value F → Option F
  getString : Value F → Option Str

section

variable [PyFloat F]

def toBool : Value F → Bool
  | .none => false
  | .bool b => b
  | .int n => n ≠ 0
  | .float x => ! PyFloat.isZero x
  | .str s => normal s ∉ falseTexts
  | _ => true

/-- `get(path) or {}` -/
def mappingOf (v : Value F) : Value F := if Package.truthy v then v else .dict []

def Reader.read (casts : Casts F) (reader : Reader) (v : Value F) : Option (Value F) :=
  match reader with
  | .bool => some (.bool (toBool v))
  | .int => (casts.getInt v).map .int
  | .float => (casts.getFloat v).map .float
  | .string => (casts.getString v).map .str
  | .setInt =>
    match v with
    | .none => some .none
    | v => (casts.getInt v).map .int
  | .setString =>
    match v with
    | .none => some .none
    | v => (casts.getString v).map .str
  | .positive => (casts.getInt v).map fun n => .int (if n ≤ 0 then 180 else n)
  | .stringOr default =>
    (casts.getString v).map fun s => .str (if s = [] then default.toList else s)
  | .raw => some v
  | .mapping => some (mappingOf v)

end

/-! ## Addresses of a user -/

def childFields : List Str := ["shippingAddress".toList, "billingAddress".toList]

/-- `field in address` -/
def hasField (address : Value F) (field : Str) : Option Bool :=
  match address with
  | .dict items => some (lookupItem field items).isSome
  | .str s => some (decide (field <:+: s))
  | .list vs =>
    some (vs.any fun v =>
      match v with
      | .str s => s = field
      | _ => false)
  | _ => none

/-- `if field not in address: address[field] = value` -/
def fillField (address : Value F) (field : Str × Value F) : Option (Value F) :=
  match hasField address field.1, address with
  | some true, address => some address
  | some false, .dict items => some (.dict (setItem field.1 field.2 items))
  | _, _ => none

def fillAddress (parents : List (Str × Value F)) (address : Value F) : Option (Value F) :=
  parents.foldlM fillField address

def fillAddressOf (parents : List (Str × Value F)) (data : List (Str × Value F)) (addressType : Str) :
    Option (List (Str × Value F)) :=
  match lookupItem addressType data with
  | some address => (fillAddress parents address).map fun filled => setItem addressType filled data
  | none => some (setItem addressType (.dict parents) data)

/-- `parent_fields`, with their values -/
def parentItems (data : List (Str × Value F)) : List (Str × Value F) :=
  data.filter fun p => p.1 ∉ childFields

/-- `__populate_addresses` -/
def populateAddresses : Value F → Option (Value F)
  | .dict data => (childFields.foldlM (fillAddressOf (parentItems data)) data).map .dict
  | _ => none

/-! ## Configurations -/

structure UserConfig (F : Type) where
  layers : Layers F
  /-- the attributes in which options are kept -/
  kept : Key → Value F
  useDockerPython : Bool
  useDockerKicad : Bool
  pythonSandboxDeclared : Bool

/-- What `to_dict` gives. -/
structure Data (F : Type) where
  options : Dict Key (Value F)
  pythonSandboxDeclared : Bool

/-- The options that are kept as attributes. -/
def keptKeys : List Key := (optionKeys ++ [Key.javascriptSandbox]).filter fun key => ! key.live

/-- The layers after the settings of another process have come in. -/
def Process.layersWith (process : Process F) : Option (Data F) → Layers F
  | some data => data.options.items.foldl (fun layers p => layers.set p.1 p.2) process.layers
  | none => process.layers

/-- An entry of a dictionary, where there is a value for it. -/
def setGiven (data : Dict Key (Value F)) (key : Key) : Option (Value F) → Dict Key (Value F)
  | some value => data.set key value
  | none => data

/-- `value is not None` -/
def given : Value F → Option (Value F)
  | .none => none
  | value => some value

section

variable [PyFloat F]

/-- Whether the sandbox was asked for. -/
def Process.sandboxDeclared (process : Process F) : Option (Data F) → Bool
  | some data => data.pythonSandboxDeclared
  | none =>
    -- the variable is not bound yet when this is asked
    Package.truthy (process.env .pythonSandbox) || (given (process.file .pythonSandbox)).isSome

/-- `__init__`; `none` is an exception. -/
def init (casts : Casts F) (process : Process F) (settings : Option (Data F)) :
    Option (UserConfig F) :=
  let layers := process.layersWith settings
  (populateAddresses (mappingOf (layers.get .user))).bind fun user =>
    let layers := layers.set .user user
    let kept := fun key : Key => (key.reader.read casts (layers.get key)).getD .none
    if keptKeys.all fun key => (key.reader.read casts (layers.get key)).isSome then
      some {
        layers := layers
        kept := kept
        useDockerPython := toBool (kept .useDocker) && toBool (kept .useDockerPython)
        useDockerKicad := toBool (kept .useDocker) && toBool (kept .useDockerKicad)
        pythonSandboxDeclared := process.sandboxDeclared settings }
    else none

namespace UserConfig

/-- `setattr` of the attribute that an option is kept in -/
def setattr (c : UserConfig F) (key : Key) (value : Value F) : UserConfig F :=
  { c with
    kept := Function.update c.kept key value
    pythonSandboxDeclared := key = .pythonSandbox ∨ c.pythonSandboxDeclared }

/-- `parameter_config[object_id] = {}` and `parameter_config[object_id][key] = value`; the first is
done always, since the view has no items of its own. -/
def setParameter (c : UserConfig F) (extra : Str × Str × Value F) : Option (UserConfig F) :=
  match mappingOf (c.layers.get .parameters) with
  | .dict items =>
    let parameters := setItem extra.1 (.dict [(extra.2.1, extra.2.2)]) items
    some { c with layers := c.layers.set .parameters (.dict parameters) }
  | _ => none

/-- What the command line does: `kwargs` has the options that are given. -/
def applyOptions (kwargs : Key → Value F) (extraParams : List (Str × Str × Value F))
    (c : UserConfig F) : Option (UserConfig F) :=
  let assign (c : UserConfig F) (key : Key) : UserConfig F :=
    match given (kwargs key) with
    | some value => c.setattr key value
    | none => c
  extraParams.foldlM setParameter (cliOptions.foldl assign c)

def toDict (c : UserConfig F) : Data F where
  options :=
    let data := optionKeys.foldl (fun data key => setGiven data key (given (c.layers.get key))) Dict.empty
    sectionPaths.foldl
      (fun data path =>
        let value := c.layers.get path
        setGiven data path (if Package.truthy value then some value else none)) data
  pythonSandboxDeclared := c.pythonSandboxDeclared

end UserConfig

/-- `from_dict` -/
def fromDict (casts : Casts F) (process : Process F) (data : Data F) : Option (UserConfig F) :=
  init casts process (some data)

/-- A client: its process, and what it is given on the command line. -/
def client (casts : Casts F) (process : Process F) (kwargs : Key → Value F)
    (extraParams : List (Str × Str × Value F)) : Option (UserConfig F) :=
  (init casts process none).bind (UserConfig.applyOptions kwargs extraParams)

end

/-- What a context reads of a configuration. -/
inductive Attribute where
  | option (key : Key)
  | useDockerPython
  | useDockerKicad
  | pythonSandboxDeclared

def UserConfig.read [PyFloat F] (casts : Casts F) (c : UserConfig F) : Attribute → Option (Value F)
  | .option key =>
    if key.live then key.reader.read casts (c.layers.get key) else some (c.kept key)
  | .useDockerPython => some (.bool c.useDockerPython)
  | .useDockerKicad => some (.bool c.useDockerKicad)
  | .pythonSandboxDeclared => some (.bool c.pythonSandboxDeclared)

/-! ## Filling in addresses -/

/-- An address that has the fields of its user. -/
def Complete (parents : List (Str × Value F)) (address : Value F) : Prop :=
  ∀ p ∈ parents, hasField address p.1 = some true

theorem hasField_setItem (items : List (Str × Value F)) (field field' : Str) (value : Value F)
    (h : field = field' ∨ hasField (.dict items) field' = some true) :
    hasField (.dict (setItem field value items)) field' = some true := by
  simp only [hasField, lookupItem_setItem, Option.some.injEq] at h ⊢
  split
  · rfl
  · rename_i hne
    exact h.resolve_left hne

theorem fillField_spec {address filled : Value F} {field : Str × Value F}
    (h : fillField address field = some filled) :
    hasField filled field.1 = some true ∧
      ∀ field', hasField address field' = some true → hasField filled field' = some true := by
  unfold fillField at h
  split at h
  · rename_i hfield
    obtain rfl := Option.some.inj h
    exact ⟨hfield, fun _ => id⟩
  · obtain rfl := Option.some.inj h
    exact ⟨hasField_setItem _ _ _ _ (Or.inl rfl), fun _ h => hasField_setItem _ _ _ _ (Or.inr h)⟩
  · cases h

theorem fillAddress_spec {parents : List (Str × Value F)} :
    ∀ {address filled : Value F}, fillAddress parents address = some filled →
      Complete parents filled ∧
        ∀ field, hasField address field = some true → hasField filled field = some true := by
  induction parents with
  | nil =>
    intro address filled h
    obtain rfl := Option.some.inj h
    exact ⟨fun _ hp => absurd hp List.not_mem_nil, fun _ => id⟩
  | cons p parents ih =>
    intro address filled h
    obtain ⟨next, hnext, hrest⟩ := Option.bind_eq_some_iff.1 h
    obtain ⟨hfield, hkeep⟩ := fillField_spec hnext
    obtain ⟨hcomplete, hkeep'⟩ := ih hrest
    refine ⟨?_, fun field hf => hkeep' field (hkeep field hf)⟩
    intro q hq
    rcases List.mem_cons.1 hq with rfl | hq
    · exact hkeep' _ hfield
    · exact hcomplete q hq

theorem fillAddress_of_complete {parents : List (Str × Value F)} {address : Value F}
    (h : Complete parents address) : fillAddress parents address = some address := by
  induction parents with
  | nil => rfl
  | cons p parents ih =>
    have hfield : fillField address p = some address := by
      unfold fillField
      rw [h p List.mem_cons_self]
    have hrest := ih fun q hq => h q (List.mem_cons_of_mem _ hq)
    rw [fillAddress, List.foldlM_cons, hfield]
    exact hrest

/-- An address of the user that has the fields of the user. -/
def CompleteOf (parents data : List (Str × Value F)) (addressType : Str) : Prop :=
  ∃ address, lookupItem addressType data = some address ∧ Complete parents address

theorem complete_dict (parents : List (Str × Value F)) : Complete parents (.dict parents) := by
  intro p hp
  cases h : lookupItem p.1 parents with
  | none =>
    have hnot := lookupItem_eq_none.1 h
    exact absurd (List.mem_map_of_mem hp) hnot
  | some v =>
    rw [hasField, h]
    rfl

theorem CompleteOf.setItem {parents data : List (Str × Value F)} {addressType other : Str}
    {address : Value F} (h : CompleteOf parents data other) (haddress : Complete parents address) :
    CompleteOf parents (setItem addressType address data) other := by
  by_cases heq : addressType = other
  · exact ⟨address, by rw [lookupItem_setItem, if_pos heq], haddress⟩
  · obtain ⟨address', hlookup, hcomplete⟩ := h
    exact ⟨address', by rw [lookupItem_setItem, if_neg heq, hlookup], hcomplete⟩

theorem fillAddressOf_spec {parents data filled : List (Str × Value F)} {addressType : Str}
    (h : fillAddressOf parents data addressType = some filled) :
    ∃ address, Complete parents address ∧ filled = setItem addressType address data := by
  unfold fillAddressOf at h
  split at h
  · obtain ⟨address, haddress, rfl⟩ := Option.map_eq_some_iff.1 h
    exact ⟨address, (fillAddress_spec haddress).1, rfl⟩
  · exact ⟨_, complete_dict parents, (Option.some.inj h).symm⟩

theorem setItem_of_lookup {κ α : Type} [DecidableEq κ] {k : κ} {v : α} {items : List (κ × α)}
    (h : lookupItem k items = some v) : setItem k v items = items := by
  induction items with
  | nil => cases h
  | cons p items ih =>
    obtain ⟨q, w⟩ := p
    rw [lookupItem] at h
    rw [Lib.setItem]
    split at h
    · rename_i hq
      rw [if_pos hq, hq, Option.some.inj h]
    · rename_i hq
      rw [if_neg hq, ih h]

theorem fillAddressOf_of_complete {parents data : List (Str × Value F)} {addressType : Str}
    (h : CompleteOf parents data addressType) :
    fillAddressOf parents data addressType = some data := by
  obtain ⟨address, hlookup, hcomplete⟩ := h
  unfold fillAddressOf
  rw [hlookup]
  simp only [fillAddress_of_complete hcomplete, Option.map_some, setItem_of_lookup hlookup]

theorem parentItems_setItem {addressType : Str} (haddress : addressType ∈ childFields)
    (address : Value F) (data : List (Str × Value F)) :
    parentItems (setItem addressType address data) = parentItems data := by
  unfold parentItems
  induction data with
  | nil => simp [setItem, haddress]
  | cons p data ih =>
    obtain ⟨field, value⟩ := p
    rw [setItem]
    split
    · rename_i hfield
      simp [hfield, haddress]
    · rw [List.filter_cons, List.filter_cons, ih]

/-- The addresses of some of the types are filled in, and the fields of the user stay. -/
theorem foldlM_fillAddressOf {parents : List (Str × Value F)} {types : List Str}
    (htypes : ∀ t ∈ types, t ∈ childFields) :
    ∀ {data filled : List (Str × Value F)},
      types.foldlM (fillAddressOf parents) data = some filled →
        parentItems filled = parentItems data ∧ (∀ t ∈ types, CompleteOf parents filled t) ∧
          ∀ t, CompleteOf parents data t → CompleteOf parents filled t := by
  induction types with
  | nil =>
    intro data filled h
    obtain rfl := Option.some.inj h
    exact ⟨rfl, fun _ ht => absurd ht List.not_mem_nil, fun _ => id⟩
  | cons t types ih =>
    intro data filled h
    obtain ⟨next, hnext, hrest⟩ := Option.bind_eq_some_iff.1 h
    obtain ⟨address, hcomplete, rfl⟩ := fillAddressOf_spec hnext
    obtain ⟨hparents, hfilled, hkeep⟩ := ih (fun t ht => htypes t (List.mem_cons_of_mem _ ht)) hrest
    refine ⟨?_, ?_, fun t' ht' => hkeep t' (ht'.setItem hcomplete)⟩
    · rw [hparents, parentItems_setItem (htypes t List.mem_cons_self)]
    · intro t' ht'
      rcases List.mem_cons.1 ht' with rfl | ht'
      · exact hkeep t' ⟨address, by rw [lookupItem_setItem, if_pos rfl], hcomplete⟩
      · exact hfilled t' ht'

theorem foldlM_fillAddressOf_of_complete {parents data : List (Str × Value F)} {types : List Str}
    (h : ∀ t ∈ types, CompleteOf parents data t) :
    types.foldlM (fillAddressOf parents) data = some data := by
  induction types with
  | nil => rfl
  | cons t types ih =>
    rw [List.foldlM_cons, fillAddressOf_of_complete (h t List.mem_cons_self)]
    exact ih fun t ht => h t (List.mem_cons_of_mem _ ht)

/-- **Addresses are filled in once**: a user whose addresses are filled in is left alone. -/
theorem populateAddresses_idempotent {user filled : Value F} (h : populateAddresses user = some filled) :
    populateAddresses filled = some filled := by
  unfold populateAddresses at h
  split at h
  · obtain ⟨data, hdata, rfl⟩ := Option.map_eq_some_iff.1 h
    obtain ⟨hparents, hcomplete, -⟩ := foldlM_fillAddressOf (fun t ht => ht) hdata
    rw [populateAddresses, hparents, foldlM_fillAddressOf_of_complete hcomplete]
    rfl
  · cases h

theorem truthy_populateAddresses [PyFloat F] {user filled : Value F} (h : populateAddresses user = some filled) :
    Package.truthy filled = true := by
  unfold populateAddresses at h
  split at h
  · obtain ⟨data, hdata, rfl⟩ := Option.map_eq_some_iff.1 h
    obtain ⟨-, hcomplete, -⟩ := foldlM_fillAddressOf (fun t ht => ht) hdata
    obtain ⟨address, hlookup, -⟩ := hcomplete _ List.mem_cons_self
    cases data with
    | nil => cases hlookup
    | cons p data => rfl
  · cases h

end

end PartCAD.Settings
