import PartCAD.Lib.Dict
import PartCAD.Package.Names

/-!
# Who implements a file type

The configuration of a file type is layered: each package that has a section for it is merged over those
below.  A layer that names a script is stamped with its package first.

* `importDeclaration`, `getOpts` : the layers of a file type;
* `Paired` : the script is that of the package that declared it;
* `paired_iff` : **when it is**.
-/

namespace PartCAD.Render.Output

open PartCAD.Lib PartCAD.Package

variable {F : Type}

/-- `"path"` -/
def pathKey : Str := "path".toList

/-- `"package"` -/
def packageKey : Str := "package".toList

theorem pathKey_ne_packageKey : pathKey ≠ packageKey := by decide

/-- The value is a dictionary. -/
def IsDict : Value F → Prop
  | .dict _ => True
  | _ => False

/-! ## The functions -/

mutual

/-- What comes under a key of the overlay. -/
def mergeValue : Option (Value F) → Value F → Value F
  | some (.dict xs), .dict ys => .dict (merge xs ys)
  | _, value => value

/-- `merge(base, overlay)` -/
def merge : List (Str × Value F) → List (Str × Value F) → List (Str × Value F)
  | result, [] => result
  | result, (key, value) :: overlay =>
    merge (setItem key (mergeValue (lookupItem key result) value) result) overlay

end

/-- A file type as a section declares it: nothing, the short form, or a dictionary, in which the path and
the package are no dictionaries. -/
inductive Declared (F : Type) where
  | empty
  | short (output : Str)
  | options (config : Dict Str (Value F))
    (plain : ∀ k ∈ [pathKey, packageKey], ∀ v, lookupItem k config.items = some v → ¬ IsDict v)

/-- `normalize(config)` -/
def normalize : Declared F → List (Str × Value F)
  | .empty => []
  | .short output => [("prefix".toList, .str output)]
  | .options config _ => config.items

section

variable [PyFloat F]

/-- `bool(config.get(key))` -/
def given (key : Str) (config : List (Str × Value F)) : Bool :=
  (lookupItem key config).any truthy

/-- `stamp(config, package_name)` -/
def stamp (config : List (Str × Value F)) (packageName : Str) : List (Str × Value F) :=
  if !given pathKey config then config
  else if given packageKey config then config
  else setItem packageKey (.str packageName) config

end

/-- A package with its section: the file types that it declares, or nothing where it has no such
section. -/
structure Layer (F : Type) where
  package : Str
  sectionObj : Option (List (Str × Declared F))

/-- What the layer declares for the file type. -/
def Layer.declared (formatName : Str) (layer : Layer F) : Option (Declared F) :=
  layer.sectionObj.bind (lookupItem formatName)

section

variable [PyFloat F]

/-- One turn of the loop over the layers. -/
def layerOpts (formatName : Str) (opts : List (Str × Value F)) (layer : Layer F) :
    List (Str × Value F) :=
  match layer.declared formatName with
  | none => opts
  | some config => merge opts (stamp (normalize config) layer.package)

/-- The options of a file type, the lowest layer first. -/
def getOpts (formatName : Str) (layers : List (Layer F)) : List (Str × Value F) :=
  layers.foldl (layerOpts formatName) []

/-- `import_declaration`, once the packages of its layers are found: the options, and whether any layer
declares the type. -/
def importDeclaration (formatName : Str) (layers : List (Layer F)) : Option (List (Str × Value F)) :=
  let (opts, found) := layers.foldl (fun (opts, found) layer =>
    (layerOpts formatName opts layer, found || (layer.declared formatName).isSome)) ([], false)
  if found then some opts else none

end

/-! ## Scripts and their packages -/

/-- What the layer states under a key. -/
def Layer.stated (formatName key : Str) (layer : Layer F) : Option (Value F) :=
  (layer.declared formatName).bind fun config => lookupItem key (normalize config)

/-- What is stated under a key by the uppermost layer that states it. -/
def lastStated (formatName key : Str) : List (Layer F) → Option (Value F)
  | [] => none
  | layer :: layers => (lastStated formatName key layers).or (layer.stated formatName key)

section

variable [PyFloat F]

/-- The package of a script that the layer names: the one it states, else its own. -/
def Layer.implementer (formatName : Str) (layer : Layer F) : Value F :=
  match layer.stated formatName packageKey with
  | some v => if truthy v then v else .str layer.package
  | none => .str layer.package

/-- The layer names a script, and none above says anything about the path. -/
structure Names (formatName : Str) (layer : Layer F) (above : List (Layer F)) (script : Value F) :
    Prop where
  path : layer.stated formatName pathKey = some script
  truthy : truthy script = true
  above : ∀ l ∈ above, l.stated formatName pathKey = none

/-- The script is the one that the uppermost layer with a path names, and it is looked for in the package
that goes with it in that layer. -/
def Paired (formatName : Str) (layers : List (Layer F)) : Prop :=
  ∀ below layer above path, layers = below ++ layer :: above → Names formatName layer above path →
    lookupItem pathKey (getOpts formatName layers) = some path ∧
      lookupItem packageKey (getOpts formatName layers) = some (layer.implementer formatName)

/-- No layer above the one that names the script names another package. -/
def Kept (formatName : Str) (layers : List (Layer F)) : Prop :=
  ∀ below layer above path, layers = below ++ layer :: above → Names formatName layer above path →
    ∀ package, lastStated formatName packageKey above = some package →
      package = layer.implementer formatName

end

/-! ## One layer -/

theorem mergeValue_of_not_isDict {v : Value F} (h : ¬ IsDict v) (x : Option (Value F)) :
    mergeValue x v = v := by
  unfold mergeValue
  split
  · exact absurd trivial h
  · rfl

/-- What is under a key of two layers. -/
theorem lookupItem_merge {overlay : List (Str × Value F)} (h : (overlay.map Prod.fst).Nodup)
    (base : List (Str × Value F)) (k : Str) :
    lookupItem k (merge base overlay) =
      match lookupItem k overlay with
      | some v => some (mergeValue (lookupItem k base) v)
      | none => lookupItem k base := by
  induction overlay generalizing base with
  | nil => rw [merge, lookupItem]
  | cons p overlay ih =>
    obtain ⟨key, value⟩ := p
    obtain ⟨hfresh, hoverlay⟩ := List.nodup_cons.1 h
    rw [merge, ih hoverlay, lookupItem_setItem, lookupItem]
    by_cases hk : key = k
    · subst hk
      rw [lookupItem_eq_none.2 hfresh, if_pos rfl, if_pos rfl]
    · rw [if_neg hk, if_neg hk]

theorem nodup_normalize (config : Declared F) : ((normalize config).map Prod.fst).Nodup := by
  cases config with
  | empty => exact List.nodup_nil
  | short output => exact List.nodup_singleton _
  | options config _ => exact config.nodup

theorem not_isDict_of_normalize {config : Declared F} {k : Str} {v : Value F}
    (hk : k ∈ [pathKey, packageKey]) (h : lookupItem k (normalize config) = some v) : ¬ IsDict v := by
  cases config with
  | empty => cases h
  | short output =>
    have hkey : "prefix".toList ≠ k := by
      rintro rfl
      exact absurd hk (by decide)
    rw [normalize, lookupItem, if_neg hkey] at h
    cases h
  | options config plain => exact plain k hk v h

variable [PyFloat F] {formatName : Str}

theorem nodup_stamp (config : Declared F) (packageName : Str) :
    ((stamp (normalize config) packageName).map Prod.fst).Nodup := by
  unfold stamp
  split
  · exact nodup_normalize config
  · split
    · exact nodup_normalize config
    · exact (Dict.set ⟨_, nodup_normalize config⟩ packageKey (.str packageName)).nodup

theorem lookupItem_path_stamp (config : List (Str × Value F)) (packageName : Str) :
    lookupItem pathKey (stamp config packageName) = lookupItem pathKey config := by
  unfold stamp
  split
  · rfl
  · split
    · rfl
    · rw [lookupItem_setItem, if_neg pathKey_ne_packageKey.symm]

/-- A layer that says nothing about the path keeps the one below. -/
theorem path_layerOpts (opts : List (Str × Value F)) (layer : Layer F) :
    lookupItem pathKey (layerOpts formatName opts layer) =
      (layer.stated formatName pathKey).or (lookupItem pathKey opts) := by
  unfold layerOpts Layer.stated
  cases layer.declared formatName with
  | none => rfl
  | some config =>
    show lookupItem pathKey (merge opts (stamp (normalize config) layer.package)) =
      (lookupItem pathKey (normalize config)).or _
    rw [lookupItem_merge (nodup_stamp config _), lookupItem_path_stamp]
    cases hpath : lookupItem pathKey (normalize config) with
    | none => rfl
    | some v =>
      have hplain := not_isDict_of_normalize (by simp) hpath
      show some (mergeValue _ v) = some v
      rw [mergeValue_of_not_isDict hplain]

/-- A layer without a script keeps the package below unless it states one. -/
theorem package_layerOpts {layer : Layer F}
    (h : (layer.stated formatName pathKey).any truthy = false) (opts : List (Str × Value F)) :
    lookupItem packageKey (layerOpts formatName opts layer) =
      (layer.stated formatName packageKey).or (lookupItem packageKey opts) := by
  unfold layerOpts
  unfold Layer.stated at h ⊢
  cases hdeclared : layer.declared formatName with
  | none => rfl
  | some config =>
    rw [hdeclared] at h
    have hstamp : stamp (normalize config) layer.package = normalize config := by
      have hgiven : given pathKey (normalize config) = false := h
      rw [stamp, hgiven]
      rfl
    show lookupItem packageKey (merge opts (stamp (normalize config) layer.package)) =
      (lookupItem packageKey (normalize config)).or _
    rw [hstamp, lookupItem_merge (nodup_normalize config)]
    cases hpackage : lookupItem packageKey (normalize config) with
    | none => rfl
    | some v =>
      have hplain := not_isDict_of_normalize (by simp) hpackage
      show some (mergeValue _ v) = some v
      rw [mergeValue_of_not_isDict hplain]

/-- A layer with a script brings the package of the script. -/
theorem package_layerOpts_script {layer : Layer F}
    (h : (layer.stated formatName pathKey).any truthy = true) (opts : List (Str × Value F)) :
    lookupItem packageKey (layerOpts formatName opts layer) = some (layer.implementer formatName) := by
  unfold layerOpts Layer.implementer
  unfold Layer.stated at h ⊢
  cases hdeclared : layer.declared formatName with
  | none =>
    rw [hdeclared] at h
    cases h
  | some config =>
    rw [hdeclared] at h
    have hgiven : given pathKey (normalize config) = true := h
    show lookupItem packageKey (merge opts (stamp (normalize config) layer.package)) =
      some (match lookupItem packageKey (normalize config) with
        | some v => if truthy v then v else .str layer.package
        | none => .str layer.package)
    rw [lookupItem_merge (nodup_stamp config _)]
    have hown : ∀ (x : Option (Value F)) (name : Str), mergeValue x (.str name) = .str name :=
      fun x name => mergeValue_of_not_isDict id x
    cases hpackage : lookupItem packageKey (normalize config) with
    | none =>
      have hstamp : stamp (normalize config) layer.package =
          setItem packageKey (.str layer.package) (normalize config) := by
        have hnot : given packageKey (normalize config) = false := by
          rw [given, hpackage]
          rfl
        rw [stamp, hgiven, hnot]
        rfl
      rw [hstamp, lookupItem_setItem, if_pos rfl]
      exact congrArg some (hown _ _)
    | some v =>
      by_cases hv : truthy v = true
      · have hstamp : stamp (normalize config) layer.package = normalize config := by
          have hnamed : given packageKey (normalize config) = true := by
            rw [given, hpackage]
            exact hv
          rw [stamp, hgiven, hnamed]
          rfl
        have hplain := not_isDict_of_normalize (by simp) hpackage
        rw [hstamp, hpackage]
        show some (mergeValue _ v) = some (if truthy v then v else _)
        rw [mergeValue_of_not_isDict hplain, if_pos hv]
      · have hstamp : stamp (normalize config) layer.package =
            setItem packageKey (.str layer.package) (normalize config) := by
          have hnot : given packageKey (normalize config) = false := by
            rw [given, hpackage]
            exact Bool.eq_false_iff.2 hv
          rw [stamp, hgiven, hnot]
          rfl
        rw [hstamp, lookupItem_setItem, if_pos rfl]
        show some (mergeValue _ (.str layer.package)) = some (if truthy v then v else _)
        rw [hown, if_neg hv]

/-! ## The layers above -/

/-- Layers that say nothing about the path keep it, and keep the package unless they state one. -/
theorem foldl_layerOpts {above : List (Layer F)} (h : ∀ l ∈ above, l.stated formatName pathKey = none)
    (opts : List (Str × Value F)) :
    lookupItem pathKey (above.foldl (layerOpts formatName) opts) = lookupItem pathKey opts ∧
      lookupItem packageKey (above.foldl (layerOpts formatName) opts) =
        (lastStated formatName packageKey above).or (lookupItem packageKey opts) := by
  induction above generalizing opts with
  | nil => exact ⟨rfl, rfl⟩
  | cons layer above ih =>
    rw [List.forall_mem_cons] at h
    obtain ⟨hpath, hpackage⟩ := ih h.2 (layerOpts formatName opts layer)
    have hnone : (layer.stated formatName pathKey).any truthy = false := by
      rw [h.1]
      rfl
    rw [List.foldl_cons, hpath, hpackage, path_layerOpts, h.1, package_layerOpts hnone, lastStated]
    refine ⟨rfl, ?_⟩
    cases lastStated formatName packageKey above <;> rfl

theorem foldl_found (layers : List (Layer F)) (opts : List (Str × Value F)) (found : Bool) :
    layers.foldl (fun (opts, found) layer =>
      (layerOpts formatName opts layer, found || (layer.declared formatName).isSome)) (opts, found) =
      (layers.foldl (layerOpts formatName) opts,
        found || layers.any fun layer => (layer.declared formatName).isSome) := by
  induction layers generalizing opts found with
  | nil => rw [List.foldl_nil, List.foldl_nil, List.any_nil, Bool.or_false]
  | cons layer layers ih => rw [List.foldl_cons, ih, List.foldl_cons, List.any_cons, Bool.or_assoc]

/-- What comes of a script that a layer names. -/
theorem getOpts_of_names {above : List (Layer F)} {layer : Layer F} {path : Value F}
    (h : Names formatName layer above path) (below : List (Layer F)) :
    lookupItem pathKey (getOpts formatName (below ++ layer :: above)) = some path ∧
      lookupItem packageKey (getOpts formatName (below ++ layer :: above)) =
        (lastStated formatName packageKey above).or (some (layer.implementer formatName)) := by
  rw [getOpts, List.foldl_append, List.foldl_cons]
  obtain ⟨hpath, hpackage⟩ :=
    foldl_layerOpts h.above (layerOpts formatName (below.foldl (layerOpts formatName) []) layer)
  have hscript : (layer.stated formatName pathKey).any truthy = true := by
    rw [h.path]
    exact h.truthy
  rw [hpath, hpackage, path_layerOpts, package_layerOpts_script hscript, h.path]
  exact ⟨rfl, rfl⟩

/-- **A script stays with its package** just when no layer above the one that names the script names
another package. -/
theorem paired_iff (formatName : Str) (layers : List (Layer F)) :
    Paired formatName layers ↔ Kept formatName layers := by
  constructor
  · rintro h below layer above path rfl hnames package hpackage
    have hpaired := (h below layer above path rfl hnames).2
    rw [(getOpts_of_names hnames below).2, hpackage] at hpaired
    exact Option.some.inj hpaired
  · rintro h below layer above path rfl hnames
    obtain ⟨hpath, hpackage⟩ := getOpts_of_names hnames below
    refine ⟨hpath, ?_⟩
    rw [hpackage]
    cases habove : lastStated formatName packageKey above with
    | none => rfl
    | some package =>
      rw [h below layer above path rfl hnames package habove]
      rfl

/-! ## A reader of files whose package is named on its own -/

/-- `mjcf: {path: mjcf.py}` in the package that ships with the program. -/
def builtinMjcf : Layer DigitFloat where
  package := "//builtin/import".toList
  sectionObj := some [("mjcf".toList,
    .options (Dict.empty.set pathKey (.str "mjcf.py".toList)) fun k hk v hv => by
      have hmem := mem_of_lookupItem hv
      obtain rfl := (Prod.mk.inj (List.mem_singleton.1 hmem)).2
      exact id)]

/-- `mjcf: {package: //tools}` in a package that uses it. -/
def toolsMjcf : Layer DigitFloat where
  package := "//shop".toList
  sectionObj := some [("mjcf".toList,
    .options (Dict.empty.set packageKey (.str "//tools".toList)) fun k hk v hv => by
      have hmem := mem_of_lookupItem hv
      obtain rfl := (Prod.mk.inj (List.mem_singleton.1 hmem)).2
      exact id)]

/-- The script of the one is looked for in the package that the other names. -/
theorem not_paired_mjcf : ¬ Paired "mjcf".toList [builtinMjcf, toolsMjcf] := by
  intro h
  have hnames : Names "mjcf".toList builtinMjcf [toolsMjcf] (.str "mjcf.py".toList) := by
    refine ⟨rfl, rfl, fun l hl => ?_⟩
    obtain rfl := List.mem_singleton.1 hl
    rfl
  have hpackage := (h [] builtinMjcf [toolsMjcf] _ rfl hnames).2
  have htools : lookupItem packageKey (getOpts "mjcf".toList [builtinMjcf, toolsMjcf]) =
      some (.str "//tools".toList) := rfl
  have hbuiltin : builtinMjcf.implementer "mjcf".toList = .str "//builtin/import".toList := rfl
  rw [htools, hbuiltin] at hpackage
  exact absurd (Value.str.inj (Option.some.inj hpackage)) (by decide)

end PartCAD.Render.Output
