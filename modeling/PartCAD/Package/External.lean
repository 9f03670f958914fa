import PartCAD.Package.Paths

/-!
# Packages served by a repository plugin

One plugin serves a hierarchy of packages.  A package puts its subfolder before the keys it asks for,
and the children that the plugin lists have subfolders below.

* `Unshared` : no two requests are spelled with one key;
* `unshared_iff` : the hierarchies of which this holds;
* `unshared_of_plain` : those whose children have plain names are among them.
-/

namespace PartCAD.External

open PartCAD.Lib PartCAD.Lib.Text PartCAD.Package

/-! ## Keys -/

/-- `OBJECT_KINDS` -/
inductive ObjectKind where
  | material
  | interface
  | sketch
  | part
  | assembly
  | scene
  | provider
  | repository
  | software
  | partType
  deriving DecidableEq

def ObjectKind.name : ObjectKind → Str
  | .material => "material".toList
  | .interface => "interface".toList
  | .sketch => "sketch".toList
  | .part => "part".toList
  | .assembly => "assembly".toList
  | .scene => "scene".toList
  | .provider => "provider".toList
  | .repository => "repository".toList
  | .software => "software".toList
  | .partType => "partType".toList

/-- What a package asks its plugin for. -/
inductive Key where
  | metadata
  | deps
  | objects (kind : ObjectKind)
  | object (kind : ObjectKind) (name : Str)

/-- `"objects/" + kind` -/
def objectsOf (kind : ObjectKind) : Str := "objects".toList ++ '/' :: kind.name

def Key.text : Key → Str
  | .metadata => "meta".toList
  | .deps => "deps".toList
  | .objects kind => objectsOf kind
  | .object kind name => objectsOf kind ++ '/' :: name

/-- `_scope` -/
def scope (subfolder key : Str) : Str := if subfolder = [] then key else subfolder ++ '/' :: key

/-- The packages of a plugin under the package `top`: their names and their subfolders.  The plugin
answers `deps` with the names of the children (`dependencies`). -/
inductive Served (plugin : Str → List Str) (top : Str) : Str → Str → Prop
  | top : Served plugin top top []
  | child {package subfolder name : Str} :
    Served plugin top package subfolder → name ∈ plugin (scope subfolder Key.deps.text) →
      Served plugin top (getChildProjectPath package name) (scope subfolder name)

/-- No key is sent for two requests. -/
def Unshared (plugin : Str → List Str) (top : Str) : Prop :=
  ∀ package subfolder key package' subfolder' key', Served plugin top package subfolder →
    Served plugin top package' subfolder' →
      scope subfolder (Key.text key) = scope subfolder' key'.text → (package, key) = (package', key')

/-- No two packages have one subfolder, and none is where another one keeps its objects. -/
structure Apart (plugin : Str → List Str) (top : Str) : Prop where
  subfolders : ∀ package package' subfolder, Served plugin top package subfolder →
    Served plugin top package' subfolder → package = package'
  objects : ∀ package subfolder package' subfolder' kind, Served plugin top package subfolder →
    Served plugin top package' subfolder' →
      ¬ scope subfolder (objectsOf kind ++ ['/']) <+: subfolder' ++ ['/']

/-! ## Scopes -/

/-- What a package puts before its keys. -/
def scopePrefix (subfolder : Str) : Str := if subfolder = [] then [] else subfolder ++ ['/']

theorem scope_eq (subfolder key : Str) : scope subfolder key = scopePrefix subfolder ++ key := by
  unfold scope scopePrefix
  split
  · rfl
  · rw [List.append_assoc]
    rfl

theorem scopePrefix_of_ne {subfolder : Str} (h : subfolder ≠ []) :
    scopePrefix subfolder = subfolder ++ ['/'] := if_neg h

theorem scopePrefix_injective : Function.Injective scopePrefix := by
  intro s t h
  unfold scopePrefix at h
  split at h
  · rename_i hs
    split at h
    · rename_i ht
      rw [hs, ht]
    · simp at h
  · split at h
    · simp at h
    · exact List.append_cancel_right h

/-! ## The pieces of a key -/

theorem notMem_kind (kind : ObjectKind) : '/' ∉ kind.name := by
  cases kind <;> decide

theorem kind_injective : Function.Injective ObjectKind.name := by
  intro kind kind' h
  cases kind <;> cases kind' <;> first | rfl | exact absurd h (by decide)

theorem notMem_objectsText : '/' ∉ "objects".toList := by decide

theorem split_pair {first second : Str} (hfirst : '/' ∉ first) (hsecond : '/' ∉ second) :
    split '/' (first ++ '/' :: second) = [first, second] := by
  rw [split_append_cons, split_of_notMem hfirst, split_of_notMem hsecond, List.singleton_append]

theorem split_objectsOf (kind : ObjectKind) :
    split '/' (objectsOf kind) = ["objects".toList, kind.name] :=
  split_pair notMem_objectsText (notMem_kind kind)

theorem objectsOf_ne_nil (kind : ObjectKind) : objectsOf kind ≠ [] :=
  List.append_ne_nil_of_right_ne_nil _ (List.cons_ne_nil _ _)

theorem split_text (key : Key) :
    split '/' key.text =
      match key with
      | .metadata => ["meta".toList]
      | .deps => ["deps".toList]
      | .objects kind => ["objects".toList, kind.name]
      | .object kind name => "objects".toList :: kind.name :: split '/' name := by
  have hmeta : '/' ∉ "meta".toList := by decide
  have hdeps : '/' ∉ "deps".toList := by decide
  cases key with
  | metadata => exact split_of_notMem hmeta
  | deps => exact split_of_notMem hdeps
  | objects kind => exact split_objectsOf kind
  | object kind name =>
    rw [Key.text, split_append_cons, split_objectsOf, List.cons_append, List.singleton_append]

theorem text_injective : Function.Injective Key.text := by
  intro key key' h
  have hsplit := congrArg (split '/') h
  rw [split_text, split_text] at hsplit
  have hne : "meta".toList ≠ "deps".toList := by decide
  cases key with
  | metadata =>
    cases key' with
    | metadata => rfl
    | deps => exact absurd (List.cons.inj hsplit).1 hne
    | objects => exact absurd (List.cons.inj hsplit).2 (List.cons_ne_nil _ _).symm
    | object => exact absurd (List.cons.inj hsplit).2 (List.cons_ne_nil _ _).symm
  | deps =>
    cases key' with
    | metadata => exact absurd (List.cons.inj hsplit).1 hne.symm
    | deps => rfl
    | objects => exact absurd (List.cons.inj hsplit).2 (List.cons_ne_nil _ _).symm
    | object => exact absurd (List.cons.inj hsplit).2 (List.cons_ne_nil _ _).symm
  | objects kind =>
    cases key' with
    | metadata => exact absurd (List.cons.inj hsplit).2 (List.cons_ne_nil _ _)
    | deps => exact absurd (List.cons.inj hsplit).2 (List.cons_ne_nil _ _)
    | objects kind' => rw [kind_injective (List.cons.inj (List.cons.inj hsplit).2).1]
    | object kind' name' =>
      have hnil := (List.cons.inj (List.cons.inj hsplit).2).2
      exact absurd hnil.symm (split_ne_nil '/' name')
  | object kind name =>
    cases key' with
    | metadata => exact absurd (List.cons.inj hsplit).2 (List.cons_ne_nil _ _)
    | deps => exact absurd (List.cons.inj hsplit).2 (List.cons_ne_nil _ _)
    | objects kind' =>
      have hnil := (List.cons.inj (List.cons.inj hsplit).2).2
      exact absurd hnil (split_ne_nil '/' name)
    | object kind' name' =>
      obtain ⟨hname, hrest⟩ := List.cons.inj (List.cons.inj hsplit).2
      obtain rfl := kind_injective hname
      have hjoin := congrArg (join '/') hrest
      rw [join_split, join_split] at hjoin
      rw [hjoin]

/-- The first piece of a key is not the name of a kind. -/
theorem head_text_ne_kind (key : Key) (kind : ObjectKind) (rest : List Str) :
    split '/' key.text ≠ kind.name :: rest := by
  intro h
  rw [split_text] at h
  have hmeta : "meta".toList ≠ kind.name := by cases kind <;> decide
  have hdeps : "deps".toList ≠ kind.name := by cases kind <;> decide
  have hobjects : "objects".toList ≠ kind.name := by cases kind <;> decide
  cases key with
  | metadata => exact hmeta (List.cons.inj h).1
  | deps => exact hdeps (List.cons.inj h).1
  | objects => exact hobjects (List.cons.inj h).1
  | object => exact hobjects (List.cons.inj h).1

theorem prefix_join (first second : Str) (rest : List Str) :
    first ++ '/' :: second ++ ['/'] <+: join '/' (first :: second :: rest) ++ ['/'] := by
  rw [join_cons_of_ne_nil '/' first (List.cons_ne_nil second rest)]
  by_cases hrest : rest = []
  · rw [hrest]
    exact List.prefix_refl _
  · rw [join_cons_of_ne_nil '/' second hrest]
    refine ⟨join '/' rest ++ ['/'], ?_⟩
    simp only [List.append_assoc, List.cons_append, List.nil_append]

/-- A key that ends with another key, after a slash, begins with the place of the objects of a kind. -/
theorem prefix_of_text {key key' : Key} {front : Str} (h : key.text = front ++ '/' :: key'.text) :
    ∃ kind : ObjectKind, objectsOf kind ++ ['/'] <+: front ++ ['/'] := by
  have hsplit := congrArg (split '/') h
  rw [split_text, split_append_cons] at hsplit
  obtain ⟨first, rest, hfront⟩ := List.exists_cons_of_ne_nil (split_ne_nil '/' front)
  have hkey' := split_ne_nil '/' key'.text
  rw [hfront] at hsplit
  cases key with
  | metadata =>
    have htail := (List.cons.inj hsplit).2
    exact absurd (List.append_eq_nil_iff.1 htail.symm).2 hkey'
  | deps =>
    have htail := (List.cons.inj hsplit).2
    exact absurd (List.append_eq_nil_iff.1 htail.symm).2 hkey'
  | objects kind =>
    have htail : [kind.name] = rest ++ split '/' key'.text := (List.cons.inj hsplit).2
    cases rest with
    | nil => exact absurd htail.symm (head_text_ne_kind key' kind [])
    | cons second rest =>
      have hnil := (List.cons.inj htail).2
      exact absurd (List.append_eq_nil_iff.1 hnil.symm).2 hkey'
  | object kind name =>
    obtain ⟨hfirst, htail⟩ := List.cons.inj hsplit
    refine ⟨kind, ?_⟩
    cases rest with
    | nil => exact absurd htail.symm (head_text_ne_kind key' kind (split '/' name))
    | cons second rest =>
      have hsecond := (List.cons.inj htail).1
      -- the two pieces in front spell the place of the objects
      have hjoin := join_split '/' front
      rw [hfront, ← hfirst, ← hsecond] at hjoin
      rw [← hjoin]
      exact prefix_join _ _ rest

/-! ## Hierarchies -/

section

variable {plugin : Str → List Str} {top : Str}

theorem Apart.unshared_of_prefix (h : Apart plugin top) {package package' subfolder subfolder' : Str}
    {key key' : Key} (hpackage : Served plugin top package subfolder)
    (hpackage' : Served plugin top package' subfolder') {rest : Str}
    (hbegin : scopePrefix subfolder' = scopePrefix subfolder ++ rest)
    (hkey : key.text = rest ++ key'.text) : (package, key) = (package', key') := by
  cases hrest : rest with
  | nil =>
    rw [hrest, List.append_nil] at hbegin
    obtain rfl := scopePrefix_injective hbegin
    rw [hrest, List.nil_append] at hkey
    rw [h.subfolders package package' _ hpackage hpackage', text_injective hkey]
  | cons a s =>
    -- the other package is where this one keeps the objects of a kind
    exfalso
    have hne : subfolder' ≠ [] := by
      rintro rfl
      rw [hrest] at hbegin
      exact absurd hbegin.symm (by simp [scopePrefix])
    rw [scopePrefix_of_ne hne] at hbegin
    have hlast : rest.getLast? = some '/' := by
      have hl := congrArg List.getLast? hbegin
      rw [List.getLast?_append, List.getLast?_append] at hl
      rw [hrest] at hl ⊢
      simpa using hl.symm
    obtain ⟨front, rfl⟩ : ∃ front, rest = front ++ ['/'] := List.getLast?_eq_some_iff.1 hlast
    rw [List.append_assoc] at hkey
    obtain ⟨kind, hkind⟩ := prefix_of_text hkey
    apply h.objects package subfolder package' subfolder' kind hpackage hpackage'
    rw [scope_eq, hbegin]
    exact (List.prefix_append_right_inj _).2 hkind

theorem Apart.unshared (h : Apart plugin top) : Unshared plugin top := by
  intro package subfolder key package' subfolder' key' hpackage hpackage' hscope
  rw [scope_eq, scope_eq] at hscope
  rcases List.append_eq_append_iff.1 hscope with ⟨rest, hbegin, hkey⟩ | ⟨rest, hbegin, hkey⟩
  · exact h.unshared_of_prefix hpackage hpackage' hbegin hkey
  · exact (h.unshared_of_prefix hpackage' hpackage hbegin hkey).symm

theorem ne_nil_of_objects {subfolder subfolder' : Str} {kind : ObjectKind}
    (h : scope subfolder (objectsOf kind ++ ['/']) <+: subfolder' ++ ['/']) : subfolder' ≠ [] := by
  rintro rfl
  have hlength := h.length_le
  rw [scope_eq] at hlength
  have hpos := List.length_pos_of_ne_nil (objectsOf_ne_nil kind)
  simp only [List.length_append, List.length_cons, List.length_nil] at hlength
  omega

/-- **No key is sent for two requests** just when the packages are apart. -/
theorem unshared_iff (plugin : Str → List Str) (top : Str) :
    Unshared plugin top ↔ Apart plugin top := by
  refine ⟨fun h => ⟨?_, ?_⟩, Apart.unshared⟩
  · intro package package' subfolder hpackage hpackage'
    have heq := h package subfolder .metadata package' subfolder .metadata hpackage hpackage' rfl
    exact (Prod.mk.inj heq).1
  · intro package subfolder package' subfolder' kind hpackage hpackage' hobjects
    have hne := ne_nil_of_objects hobjects
    obtain ⟨rest, hrest⟩ := hobjects
    -- the metadata of the one is asked for as an object of the other
    have hscope : scope subfolder' Key.metadata.text =
        scope subfolder (Key.object kind (rest ++ Key.metadata.text)).text := by
      rw [scope_eq, scopePrefix_of_ne hne, ← hrest, scope_eq, scope_eq, Key.text, Key.text]
      simp only [List.append_assoc, List.cons_append, List.nil_append]
    have heq := h package' subfolder' _ package subfolder _ hpackage' hpackage hscope
    cases (Prod.mk.inj heq).2

end

/-! ## Plain names -/

/-- The packages on the way down from the top package, by the names of the children. -/
inductive Path (plugin : Str → List Str) (top : Str) : List Str → Str → Str → Prop
  | top : Path plugin top [] top []
  | child {path : List Str} {package subfolder name : Str} :
    Path plugin top path package subfolder → name ∈ plugin (scope subfolder Key.deps.text) →
      Path plugin top (path ++ [name]) (getChildProjectPath package name) (scope subfolder name)

section

variable {plugin : Str → List Str} {top : Str}

theorem Served.exists_path {package subfolder : Str} (h : Served plugin top package subfolder) :
    ∃ path, Path plugin top path package subfolder := by
  induction h with
  | top => exact ⟨[], .top⟩
  | child _ hname ih =>
    obtain ⟨path, hpath⟩ := ih
    exact ⟨path ++ [_], .child hpath hname⟩

theorem Path.package_eq {path : List Str} {package subfolder : Str}
    (h : Path plugin top path package subfolder) :
    package = path.foldl getChildProjectPath top := by
  induction h with
  | top => rfl
  | child _ _ ih => rw [List.foldl_append, ← ih, List.foldl_cons, List.foldl_nil]

/-- The names of children that a plugin gives for a package of its hierarchy. -/
def PlainChildren (plugin : Str → List Str) : Prop :=
  ∀ key, ∀ name ∈ plugin key, name ≠ [] ∧ '/' ∉ name ∧ name ≠ "objects".toList

theorem Path.plain (hplain : PlainChildren plugin) {path : List Str} {package subfolder : Str}
    (h : Path plugin top path package subfolder) :
    ∀ name ∈ path, name ≠ [] ∧ '/' ∉ name ∧ name ≠ "objects".toList := by
  induction h with
  | top => simp
  | child _ hname ih =>
    intro name hmem
    rcases List.mem_append.1 hmem with hmem | hmem
    · exact ih name hmem
    · rw [List.mem_singleton.1 hmem]
      exact hplain _ _ hname

theorem Path.subfolder_eq (hplain : PlainChildren plugin) {path : List Str} {package subfolder : Str}
    (h : Path plugin top path package subfolder) : subfolder = join '/' path := by
  induction h with
  | top => rfl
  | @child path package subfolder name hpath hname ih =>
    by_cases hnil : path = []
    · subst hnil
      rw [ih]
      rfl
    · have hne : subfolder ≠ [] := by
        rw [ih]
        exact fun h => hnil (join_eq_nil (fun name hname => (hpath.plain hplain name hname).1) h)
      rw [scope, if_neg hne, ih, join_append '/' hnil (List.cons_ne_nil name [])]
      rfl

theorem objects_mem_split (subfolder : Str) (kind : ObjectKind) (rest : Str) :
    "objects".toList ∈ split '/' (scope subfolder (objectsOf kind ++ '/' :: rest)) := by
  have hsplit : "objects".toList ∈ split '/' (objectsOf kind ++ '/' :: rest) := by
    rw [split_append_cons, split_objectsOf]
    exact List.mem_append_left _ (List.mem_cons_self ..)
  unfold scope
  split
  · exact hsplit
  · rw [split_append_cons]
    exact List.mem_append_right _ hsplit

/-- Packages with plain names are apart. -/
theorem PlainChildren.apart (hplain : PlainChildren plugin) : Apart plugin top := by
  constructor
  · intro package package' subfolder hpackage hpackage'
    obtain ⟨path, hpath⟩ := hpackage.exists_path
    obtain ⟨path', hpath'⟩ := hpackage'.exists_path
    have hjoin : join '/' path = join '/' path' := by
      rw [← hpath.subfolder_eq hplain, hpath'.subfolder_eq hplain]
    have hpaths : path = path' :=
      join_injective
        (fun name hname => ⟨(hpath.plain hplain name hname).1, (hpath.plain hplain name hname).2.1⟩)
        (fun name hname => ⟨(hpath'.plain hplain name hname).1, (hpath'.plain hplain name hname).2.1⟩)
        hjoin
    rw [hpath.package_eq, hpath'.package_eq, hpaths]
  · intro package subfolder package' subfolder' kind _ hpackage' hobjects
    obtain ⟨path', hpath'⟩ := hpackage'.exists_path
    have hne : path' ≠ [] := by
      rintro rfl
      exact ne_nil_of_objects hobjects (hpath'.subfolder_eq hplain)
    -- the pieces of the subfolder are the names on the way down
    have hsplit : split '/' (subfolder' ++ ['/']) = path' ++ [[]] := by
      rw [split_append_cons, hpath'.subfolder_eq hplain,
        split_join (fun name hname => (hpath'.plain hplain name hname).2.1) hne]
      rfl
    obtain ⟨rest, hrest⟩ := hobjects
    have hmem := objects_mem_split subfolder kind rest
    have hscope : scope subfolder (objectsOf kind ++ '/' :: rest) = subfolder' ++ ['/'] := by
      rw [← hrest, scope_eq, scope_eq]
      simp only [List.append_assoc, List.cons_append, List.nil_append]
    rw [hscope, hsplit] at hmem
    rcases List.mem_append.1 hmem with hmem | hmem
    · exact (hpath'.plain hplain _ hmem).2.2 rfl
    · exact absurd (List.mem_singleton.1 hmem) (by decide)

/-- Hierarchies with plain names share no keys. -/
theorem unshared_of_plain (hplain : PlainChildren plugin) : Unshared plugin top :=
  hplain.apart.unshared

end

/-- A plugin with the packages `objects` and, under it, `part`. -/
def nestedPlugin (key : Str) : List Str :=
  if key = Key.deps.text then ["objects".toList]
  else if key = scope "objects".toList Key.deps.text then ["part".toList]
  else []

/-- **The packages of a plugin share keys**: the metadata of `objects/part` are asked for as a part
`meta` of the top package is. -/
theorem not_unshared_nested : ¬ ∀ (plugin : Str → List Str) (top : Str), Unshared plugin top := by
  intro h
  have htop : Served nestedPlugin ['/', '/', 'r'] ['/', '/', 'r'] [] := .top
  have hobjects := @Served.child _ _ _ _ "objects".toList htop (by decide)
  have hpart := @Served.child _ _ _ _ "part".toList hobjects (by decide)
  have hkey := h nestedPlugin _ _ _ Key.metadata _ _ (Key.object .part "meta".toList) hpart htop
    (by decide)
  exact absurd (Prod.mk.inj hkey).2 (by simp)

end PartCAD.External
