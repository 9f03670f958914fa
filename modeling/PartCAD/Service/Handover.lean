import PartCAD.Service.UserConfig

/-!
# Handing over a user configuration

The daemon builds a context from the configuration of the client that asks for it.

* `get_handed` : what an option is in the daemon then;
* `Sound` : what holds of a configuration from when it is there;
* `HandedOver` : where a daemon reads what the client reads;
* `handedOver_iff` : it is just there;
* `handedOver_self` : a client that is given nothing on the command line and a daemon like it.
-/

namespace PartCAD.Settings

open PartCAD.Lib

section

variable {F : Type}

/-! ## What the layers give -/

theorem layer_of_ne_none {v : Value F} (h : v ≠ .none) (w : Value F) : Value.layer v w = v := by
  cases v with
  | none => exact absurd rfl h
  | _ => rfl

theorem Layers.get_set_self (layers : Layers F) (key : Key) {value : Value F} (h : value ≠ .none) :
    (layers.set key value).get key = value := by
  rw [get, set, Dict.get?_set_self]
  exact layer_of_ne_none h _

theorem Layers.get_set_of_ne (layers : Layers F) {key key' : Key} (value : Value F) (h : key ≠ key') :
    (layers.set key value).get key' = layers.get key' := by
  rw [get, set, Dict.get?_set_of_ne _ _ h]
  rfl

theorem override_foldl_set (items : List (Key × Value F)) (layers : Layers F) :
    items.foldl (fun layers p => layers.set p.1 p.2) layers =
      { layers with override := layers.override.setAll items } := by
  induction items generalizing layers with
  | nil => rfl
  | cons p items ih => rw [List.foldl_cons, ih]; rfl

/-- What another process hands over comes before the layers of its own. -/
theorem get_layersWith (process : Process F) (data : Data F) (key : Key) :
    (process.layersWith (some data)).get key =
      Value.layer ((data.options.get? key).getD .none) (process.get key) := by
  have hall : (Dict.empty : Dict Key (Value F)).setAll data.options.items = data.options :=
    Dict.empty_update data.options
  rw [Process.layersWith, override_foldl_set, Process.layers, Layers.get]
  simp only [hall]
  rfl

theorem get?_foldl_setGiven (f : Key → Option (Value F)) (keys : List Key)
    (data : Dict Key (Value F)) (key : Key) :
    (keys.foldl (fun data key => setGiven data key (f key)) data).get? key =
      if key ∈ keys then (f key).or (data.get? key) else data.get? key := by
  induction keys generalizing data with
  | nil => rfl
  | cons first keys ih =>
    have hfirst : (setGiven data first (f first)).get? key =
        if key = first then (f key).or (data.get? key) else data.get? key := by
      by_cases heq : key = first
      · subst heq
        rw [if_pos rfl]
        cases f key with
        | none => rfl
        | some v => exact Dict.get?_set_self data key v
      · rw [if_neg heq]
        cases f first with
        | none => rfl
        | some v => exact Dict.get?_set_of_ne data v (Ne.symm heq)
    rw [List.foldl_cons, ih, hfirst]
    by_cases heq : key = first
    · simp only [heq, List.mem_cons, true_or, if_true]
      split
      · cases f first <;> rfl
      · rfl
    · simp only [heq, List.mem_cons, false_or, if_false]

section

variable [PyFloat F]

theorem ne_none_of_truthy {v : Value F} (h : Package.truthy v = true) : v ≠ .none := by
  rintro rfl
  cases h

/-- What is handed over for an option. -/
theorem get?_toDict (c : UserConfig F) (key : Key) :
    c.toDict.options.get? key =
      if key ∈ sectionPaths then
        if Package.truthy (c.layers.get key) then some (c.layers.get key) else none
      else if key ∈ optionKeys then given (c.layers.get key) else none := by
  rw [UserConfig.toDict]
  simp only [get?_foldl_setGiven, Dict.get?_empty, Option.or_none]
  split
  · rename_i hsection
    have hoption : key ∉ optionKeys := by
      revert hsection
      cases key <;> decide
    rw [if_neg hoption, Option.or_none]
  · rfl

/-- What an option is in the daemon. -/
theorem get_handed (c : UserConfig F) (daemon : Process F) (key : Key) :
    (daemon.layersWith (some c.toDict)).get key =
      if key ∈ sectionPaths then
        if Package.truthy (c.layers.get key) then c.layers.get key else daemon.get key
      else if key ∈ optionKeys then Value.layer (c.layers.get key) (daemon.get key)
      else daemon.get key := by
  rw [get_layersWith, get?_toDict]
  split
  · split
    · rename_i htruthy
      exact layer_of_ne_none (ne_none_of_truthy htruthy) _
    · rfl
  · split
    · cases c.layers.get key <;> rfl
    · rfl

/-! ## Configurations that are there -/

theorem init_eq_some {casts : Casts F} {process : Process F} {settings : Option (Data F)}
    {c : UserConfig F} :
    init casts process settings = some c ↔
      ∃ user, populateAddresses (mappingOf ((process.layersWith settings).get .user)) = some user ∧
        c.layers = (process.layersWith settings).set .user user ∧
        (∀ key ∈ keptKeys, (key.reader.read casts (c.layers.get key)).isSome = true) ∧
        (c.kept = fun key => (key.reader.read casts (c.layers.get key)).getD .none) ∧
        c.useDockerPython = (toBool (c.kept .useDocker) && toBool (c.kept .useDockerPython)) ∧
        c.useDockerKicad = (toBool (c.kept .useDocker) && toBool (c.kept .useDockerKicad)) ∧
        c.pythonSandboxDeclared = process.sandboxDeclared settings := by
  unfold init
  constructor
  · intro h
    obtain ⟨user, huser, hc⟩ := Option.bind_eq_some_iff.1 h
    dsimp only at hc
    split at hc
    · rename_i hall
      obtain rfl := Option.some.inj hc
      exact ⟨user, huser, rfl, fun key hkey => List.all_eq_true.1 hall key hkey, rfl, rfl, rfl, rfl⟩
    · cases hc
  · obtain ⟨layers, kept, python, kicad, declared⟩ := c
    rintro ⟨user, huser, hlayers, hall, hkept, hpython, hkicad, hdeclared⟩
    dsimp only at hlayers hall hkept hpython hkicad hdeclared
    subst hlayers hkept hpython hkicad hdeclared
    rw [Option.bind_eq_some_iff]
    refine ⟨user, huser, ?_⟩
    dsimp only
    rw [if_pos (List.all_eq_true.2 hall)]

theorem exists_init {casts : Casts F} {process : Process F} {settings : Option (Data F)} {user : Value F}
    (huser : populateAddresses (mappingOf ((process.layersWith settings).get .user)) = some user)
    (hread : ∀ key ∈ keptKeys, (key.reader.read casts
      (((process.layersWith settings).set .user user).get key)).isSome = true) :
    ∃ c, init casts process settings = some c := by
  unfold init
  dsimp only
  rw [huser, Option.bind_some]
  rw [if_pos (List.all_eq_true.2 hread)]
  exact ⟨_, rfl⟩

/-- What holds of a configuration from then on: its user's addresses are filled in, and whether a
container is used for something follows from the options. -/
structure Sound (c : UserConfig F) : Prop where
  user : populateAddresses (c.layers.get .user) = some (c.layers.get .user)
  useDockerPython :
    c.useDockerPython = (toBool (c.kept .useDocker) && toBool (c.kept .useDockerPython))
  useDockerKicad :
    c.useDockerKicad = (toBool (c.kept .useDocker) && toBool (c.kept .useDockerKicad))

theorem sound_init {casts : Casts F} {process : Process F} {settings : Option (Data F)}
    {c : UserConfig F} (h : init casts process settings = some c) : Sound c := by
  obtain ⟨user, huser, hlayers, -, -, hpython, hkicad, -⟩ := init_eq_some.1 h
  refine ⟨?_, hpython, hkicad⟩
  have hne := ne_none_of_truthy (truthy_populateAddresses huser)
  rw [hlayers, Layers.get_set_self _ _ hne]
  exact populateAddresses_idempotent huser

theorem Sound.setattr {c : UserConfig F} (h : Sound c) {key : Key} (hkey : key ∈ cliOptions)
    (value : Value F) : Sound (c.setattr key value) := by
  have hkept : ∀ other : Key, other ∉ cliOptions → (c.setattr key value).kept other = c.kept other := by
    intro other hother
    exact Function.update_of_ne (fun heq : other = key => hother (heq ▸ hkey)) _ _
  refine ⟨h.user, ?_, ?_⟩
  · rw [hkept .useDocker (by decide), hkept .useDockerPython (by decide)]
    exact h.useDockerPython
  · rw [hkept .useDocker (by decide), hkept .useDockerKicad (by decide)]
    exact h.useDockerKicad

theorem Sound.setParameter {c c' : UserConfig F} {extra : Str × Str × Value F} (h : Sound c)
    (hc : c.setParameter extra = some c') : Sound c' := by
  unfold UserConfig.setParameter at hc
  split at hc
  · obtain rfl := Option.some.inj hc
    refine ⟨?_, h.useDockerPython, h.useDockerKicad⟩
    dsimp only
    rw [Layers.get_set_of_ne _ _ (by decide)]
    exact h.user
  · cases hc

theorem Sound.foldl_assign {kwargs : Key → Value F} {keys : List Key}
    (hkeys : ∀ key ∈ keys, key ∈ cliOptions) : ∀ {c : UserConfig F}, Sound c →
      Sound (keys.foldl (fun c key =>
        match given (kwargs key) with
        | some value => c.setattr key value
        | none => c) c) := by
  induction keys with
  | nil => exact fun h => h
  | cons key keys ih =>
    intro c h
    rw [List.forall_mem_cons] at hkeys
    rw [List.foldl_cons]
    apply ih hkeys.2
    cases given (kwargs key) with
    | none => exact h
    | some value => exact h.setattr hkeys.1 value

theorem Sound.foldlM_setParameter {extraParams : List (Str × Str × Value F)} :
    ∀ {c c' : UserConfig F}, Sound c →
      extraParams.foldlM UserConfig.setParameter c = some c' → Sound c' := by
  induction extraParams with
  | nil =>
    intro c c' h hc
    obtain rfl := Option.some.inj hc
    exact h
  | cons extra extraParams ih =>
    intro c c' h hc
    obtain ⟨next, hnext, hrest⟩ := Option.bind_eq_some_iff.1 hc
    exact ih (h.setParameter hnext) hrest

theorem sound_client {casts : Casts F} {process : Process F} {kwargs : Key → Value F}
    {extraParams : List (Str × Str × Value F)} {c : UserConfig F}
    (h : client casts process kwargs extraParams = some c) : Sound c := by
  obtain ⟨c₀, hinit, happly⟩ := Option.bind_eq_some_iff.1 h
  exact ((sound_init hinit).foldl_assign fun _ hkey => hkey).foldlM_setParameter happly

/-! ## Where the daemon reads what the client reads -/

/-- What a daemon reads for an option of a client. -/
structure HandedOver (casts : Casts F) (c : UserConfig F) (daemon : Process F) : Prop where
  /-- An option that the layers of the client have a value for is read as that value. -/
  resolved : ∀ key ∈ optionKeys, c.layers.get key ≠ .none →
    c.read casts (.option key) = key.reader.read casts (c.layers.get key)
  /-- An option without a value is read as what the daemon has for it. -/
  unset : ∀ key ∈ optionKeys, c.layers.get key = .none →
    c.read casts (.option key) = key.reader.read casts (daemon.get key)
  /-- The daemon has nothing in a section that the client has nothing in. -/
  sections : ∀ path ∈ sectionPaths, Package.truthy (c.layers.get path) = false →
    Package.truthy (daemon.get path) = false
  /-- An option that is not handed over is read as what the daemon has for it. -/
  kept : ∀ key, key ∉ sectionPaths → key ∉ optionKeys →
    c.read casts (.option key) = key.reader.read casts (daemon.get key)

theorem mappingOf_eq_empty {v : Value F} : mappingOf v = .dict [] ↔ Package.truthy v = false := by
  unfold mappingOf
  constructor
  · intro h
    split at h
    · rw [h]
      rfl
    · rename_i hfalsy
      exact Bool.eq_false_iff.2 hfalsy
  · intro h
    rw [if_neg (Bool.eq_false_iff.1 h)]

theorem read_section (casts : Casts F) (c : UserConfig F) {path : Key} (h : path ∈ sectionPaths) :
    c.read casts (.option path) = some (mappingOf (c.layers.get path)) ∧
      ∀ v : Value F, path.reader.read casts v = some (mappingOf v) := by
  have hlive : path.live = true := by
    unfold Key.live
    exact decide_eq_true (Or.inl h)
  have hreader : path.reader = .mapping := by
    revert h
    cases path <;> decide
  rw [UserConfig.read, if_pos hlive, hreader]
  exact ⟨rfl, fun _ => rfl⟩

/-- The options, read from what is handed over. -/
theorem handedOver_iff_read (casts : Casts F) (c : UserConfig F) (daemon : Process F) :
    (∀ key : Key, c.read casts (.option key) =
        key.reader.read casts ((daemon.layersWith (some c.toDict)).get key)) ↔
      HandedOver casts c daemon := by
  simp only [get_handed]
  constructor
  · intro h
    refine ⟨?_, ?_, ?_, ?_⟩
    · intro key hkey hne
      have hsection : key ∉ sectionPaths := by
        revert hkey
        cases key <;> decide
      have hread := h key
      rwa [if_neg hsection, if_pos hkey, layer_of_ne_none hne] at hread
    · intro key hkey hnone
      have hsection : key ∉ sectionPaths := by
        revert hkey
        cases key <;> decide
      have hread := h key
      rwa [if_neg hsection, if_pos hkey, hnone] at hread
    · intro path hpath hfalsy
      have hread := h path
      obtain ⟨hclient, hreader⟩ := read_section casts c hpath
      rw [if_pos hpath, if_neg (Bool.eq_false_iff.1 hfalsy), hclient, hreader,
        mappingOf_eq_empty.2 hfalsy] at hread
      exact mappingOf_eq_empty.1 (Option.some.inj hread).symm
    · intro key hsection hkey
      have hread := h key
      rwa [if_neg hsection, if_neg hkey] at hread
  · intro h key
    by_cases hsection : key ∈ sectionPaths
    · obtain ⟨hclient, hreader⟩ := read_section casts c hsection
      rw [if_pos hsection, hclient, hreader]
      by_cases htruthy : Package.truthy (c.layers.get key) = true
      · rw [if_pos htruthy]
      · have hfalsy := Bool.eq_false_iff.2 htruthy
        rw [if_neg htruthy, mappingOf_eq_empty.2 hfalsy,
          mappingOf_eq_empty.2 (h.sections key hsection hfalsy)]
    · rw [if_neg hsection]
      by_cases hkey : key ∈ optionKeys
      · rw [if_pos hkey]
        by_cases hnone : c.layers.get key = .none
        · rw [hnone]
          exact h.unset key hkey hnone
        · rw [layer_of_ne_none hnone]
          exact h.resolved key hkey hnone
      · rw [if_neg hkey]
        exact h.kept key hsection hkey

/-- What a configuration reads is what its layers give. -/
theorem read_init {casts : Casts F} {process : Process F} {settings : Option (Data F)}
    {c : UserConfig F} (h : init casts process settings = some c) (key : Key) :
    c.read casts (.option key) = key.reader.read casts (c.layers.get key) := by
  obtain ⟨user, -, -, hall, hkept, -⟩ := init_eq_some.1 h
  rw [UserConfig.read]
  split
  · rfl
  · rename_i hlive
    have hmem : key ∈ keptKeys := by
      revert hlive
      cases key <;> decide
    obtain ⟨v, hv⟩ := Option.isSome_iff_exists.1 (hall key hmem)
    simp only [hkept, hv, Option.getD_some]

/-- The layers of the daemon once the user's addresses are filled in again. -/
theorem get_set_user {c : UserConfig F} (hc : Sound c) (daemon : Process F) :
    let layers := daemon.layersWith (some c.toDict)
    populateAddresses (mappingOf (layers.get .user)) = some (layers.get .user) ∧
      ∀ key, (layers.set .user (layers.get .user)).get key = layers.get key := by
  have htruthy := truthy_populateAddresses hc.user
  have huser : (daemon.layersWith (some c.toDict)).get .user = c.layers.get .user := by
    rw [get_handed, if_pos (by decide), if_pos htruthy]
  dsimp only
  constructor
  · rw [huser, mappingOf, if_pos htruthy]
    exact hc.user
  · intro key
    by_cases hkey : Key.user = key
    · subst hkey
      exact Layers.get_set_self _ _ (by rw [huser]; exact ne_none_of_truthy htruthy)
    · exact Layers.get_set_of_ne _ _ hkey

/-- A client that is given nothing on the command line, and a daemon like it. -/
theorem handedOver_self {casts : Casts F} {process : Process F} {c : UserConfig F}
    (hc : client casts process (fun _ => .none) [] = some c) : HandedOver casts c process := by
  have hinit : init casts process none = some c := by
    obtain ⟨c₀, hinit, happly⟩ := Option.bind_eq_some_iff.1 hc
    rw [hinit, ← happly]
    rfl
  have hsound := sound_init hinit
  have hget : ∀ key : Key, key ≠ .user → c.layers.get key = process.get key := by
    intro key hkey
    obtain ⟨user, -, hlayers, -⟩ := init_eq_some.1 hinit
    rw [hlayers, Layers.get_set_of_ne _ _ (Ne.symm hkey)]
    rfl
  have hread : ∀ key : Key, key ≠ .user →
      c.read casts (.option key) = key.reader.read casts (process.get key) := by
    intro key hkey
    rw [read_init hinit, hget key hkey]
  refine ⟨fun key _ _ => read_init hinit key, fun key hkey _ => hread key ?_, ?_, ?_⟩
  · rintro rfl
    exact absurd hkey (by decide)
  · intro path _ hfalsy
    rw [← hget path ?_]
    · exact hfalsy
    · rintro rfl
      rw [truthy_populateAddresses hsound.user] at hfalsy
      cases hfalsy
  · intro key hsection _
    refine hread key ?_
    rintro rfl
    exact hsection (by decide)

end

end

/-- Conversions that take a value of the type asked for. -/
def plainCasts : Casts DigitFloat where
  getInt
    | .int n => some n
    | _ => none
  getFloat
    | .float x => some x
    | _ => none
  getString
    | .str s => some s
    | _ => none

/-- A process without a configuration file. -/
def plainProcess : Process DigitFloat where
  file _ := .none
  environ _ := none
  conda := false
  node := false
  configDir := ['c']

def isTrue : Option (Value DigitFloat) → Bool
  | some (.bool b) => b
  | _ => false

/-- A client that is started with `--offline`. -/
def offlineOption (key : Key) : Value DigitFloat := if key = .offline then .bool true else .none

end PartCAD.Settings
