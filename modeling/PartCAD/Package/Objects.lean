import PartCAD.Package.Names

/-!
# The objects of a package

A package creates an object when it is looked up by name (`getObject`) or with all the others of
its kind (`lazyObjects`).  With a declared object come the names listed in its `aliases`, unless
they are taken.

* `aliasDeclaredBy_eq` : the index of the aliases gives a name to the first object that lists it;
* `Inv.initObjectByConfig`, `Inv.handle`, `inv_run` : where the aliases keep to themselves, whatever
  a package holds under a name is what the declarations say;
* `resolves_iff` : when every name resolves to that after every sequence of lookups and bulk passes.
-/

namespace PartCAD.Package

open PartCAD.Lib PartCAD.Lib.Text

/-! ## The functions -/

/-- What the factory of a declaration does with it. -/
inductive Creation where
  | succeeds
  /-- the object is not registered -/
  | raises
  /-- the object is registered before the factory raises, as by a reference without a source -/
  | raisesLate
  deriving DecidableEq

structure Declaration where
  creation : Creation
  aliases : List Str

/-- An object, by where it comes from. -/
inductive Object where
  | declared (name : Str)
  | aliasOf (source name : Str)
  deriving DecidableEq

/-- Why an object is broken. -/
inductive Reason where
  | nameTaken
  | factoryRaised
  | noObject
  deriving DecidableEq

/-- What a package holds for one kind of objects. -/
structure Objects where
  objects : Dict Str Object
  implicitAliases : List Str
  brokenObjects : Dict Str Reason
  /-- the kind is in `_instantiated_kinds` -/
  instantiated : Bool

def Objects.new : Objects := ⟨Dict.empty, [], Dict.empty, false⟩

/-- The name that an alias gets: the parameters of a parametrized object travel to it. -/
def aliasName (objectName entry : Str) : Str :=
  if ';' ∈ objectName then entry ++ ';' :: (partition ';' objectName).2 else entry

def aliasNames (objectName : Str) (declaration : Declaration) : List Str :=
  declaration.aliases.map (aliasName objectName)

/-- Every implicitly declared alias, with what declares it. -/
def aliasesDeclared (configs : Dict Str Declaration) : Dict Str Str :=
  configs.items.foldl
    (fun index p => (aliasNames p.1 p.2).foldl (fun index name => index.setdefault name p.1) index)
    Dict.empty

def aliasDeclaredBy (configs : Dict Str Declaration) (name : Str) : Option Str :=
  (aliasesDeclared configs).get? name

def getBrokenObjectReason (name : Str) (s : Objects) : Option Reason := s.brokenObjects.get? name

def recordBrokenObject (name : Str) (reason : Reason) (s : Objects) : Objects :=
  { s with brokenObjects := s.brokenObjects.set name reason }

/-- `obj` is a new object, so it is never the one that is there already. -/
def registerObject (name : Str) (obj : Object) (s : Objects) : Except Reason Objects :=
  match s.objects.get? name with
  | some _ => .error .nameTaken
  | none => .ok { s with objects := s.objects.set name obj }

/-- One alias for `initObjectByConfig`. -/
def initAlias (objectName : Str) (s : Objects) (name : Str) : Objects :=
  match registerObject name (.aliasOf objectName name) s with
  | .ok s => { s with implicitAliases := name :: s.implicitAliases }
  | .error e => recordBrokenObject name e s

/-- What the package holds afterwards, and what was raised. -/
def initObjectByConfig (name : Str) (declaration : Declaration) (s : Objects) :
    Objects × Option Reason :=
  match declaration.creation with
  | .raises => (s, some .factoryRaised)
  | .raisesLate =>
    match registerObject name (.declared name) s with
    | .error e => (s, some e)
    | .ok s => (s, some .factoryRaised)
  | .succeeds =>
    match registerObject name (.declared name) s with
    | .error e => (s, some e)
    | .ok s => ((aliasNames name declaration).foldl (initAlias name) s, none)

/-- `initObjectByConfig` where what it raises is recorded. -/
def initOrRecord (name : Str) (declaration : Declaration) (s : Objects) : Objects :=
  match initObjectByConfig name declaration s with
  | (s, none) => s
  | (s, some e) => recordBrokenObject name e s

section

variable (configs : Dict Str Declaration)

/-- The object that declares an alias is created, unless it is there. -/
def initOwner (owner : Str) (s : Objects) : Objects :=
  match s.objects.get? owner, configs.get? owner with
  | none, some declaration => initOrRecord owner declaration s
  | _, _ => s

/-- `get_object` for a name without parameters. -/
def getObject (objectName : Str) (s : Objects) : Objects × Option Object :=
  match s.objects.get? objectName with
  | some existing => (s, some existing)
  | none =>
    match configs.get? objectName with
    | none =>
      match aliasDeclaredBy configs objectName with
      | none => (s, none)
      | some owner =>
        let s := initOwner configs owner s
        (s, s.objects.get? objectName)
    | some declaration =>
      match initObjectByConfig objectName declaration s with
      | (s, some e) => (recordBrokenObject objectName e s, none)
      | (s, none) =>
        match s.objects.get? objectName with
        | some obj => (s, some obj)
        | none =>
          match getBrokenObjectReason objectName s with
          | some _ => (s, none)
          | none => (recordBrokenObject objectName .noObject s, none)

/-- One declaration for `initObjects`. -/
def initDeclared (s : Objects) (p : Str × Declaration) : Objects :=
  if (s.objects.get? p.1).isSome ∧ p.1 ∉ s.implicitAliases then s else initOrRecord p.1 p.2 s

def initObjects (s : Objects) : Objects := configs.items.foldl initDeclared s

def lazyObjects (s : Objects) : Objects :=
  if s.instantiated then s else { initObjects configs s with instantiated := true }

/-- The name has no parameters in it. -/
def Parameterless (name : Str) : Prop := (parseParameterizedName name).2.items = []

/-- What is asked of a package. -/
inductive Request where
  | object (name : Str) (plain : Parameterless name)
  | all

def handle (s : Objects) : Request → Objects
  | .object name _ => (getObject configs name s).1
  | .all => lazyObjects configs s

/-- What a new package holds after some requests. -/
def run (requests : List Request) : Objects := requests.foldl (handle configs) Objects.new

end

/-! ## Names and aliases -/

theorem parseStep_ne_empty (st : Dict Str Str × Option Str) (pair : Str) :
    (parseStep st pair).1.items ≠ [] := by
  have hset : ∀ (d : Dict Str Str) (k v : Str), (d.set k v).items ≠ [] := by
    intro d k v h
    have hget : (d.set k v).get? k = some v := Dict.get?_set_self d k v
    rw [Dict.get?, h] at hget
    cases hget
  unfold parseStep
  split
  · split
    · exact hset _ _ _
    · exact hset _ _ _
  · exact hset _ _ _

theorem foldl_parseStep_ne_empty {pairs : List Str} (st : Dict Str Str × Option Str)
    (h : pairs ≠ []) : (pairs.foldl parseStep st).1.items ≠ [] := by
  induction pairs generalizing st with
  | nil => exact absurd rfl h
  | cons pair pairs ih =>
    by_cases hp : pairs = []
    · subst hp
      exact parseStep_ne_empty st pair
    · exact ih _ hp

theorem parameterless_iff {name : Str} : Parameterless name ↔ (partition ';' name).2 = [] := by
  unfold Parameterless parseParameterizedName
  by_cases h : (partition ';' name).2 = []
  · simp [h, Dict.empty]
  · simp [h, foldl_parseStep_ne_empty _ (split_ne_nil ',' _)]

/-- The parameters of an object with parameters make those of its aliases. -/
theorem parameterless_of_aliasName {objectName entry : Str}
    (h : Parameterless (aliasName objectName entry)) : Parameterless objectName := by
  rw [parameterless_iff] at *
  by_cases ho : ';' ∈ objectName
  · rw [aliasName, if_pos ho] at h
    by_cases ha : ';' ∈ entry
    · rw [partition_eq ha, List.append_assoc, List.cons_append,
        partition_append_cons _ (notMem_partition_fst ';' entry)] at h
      simp at h
    · rwa [partition_append_cons _ ha] at h
  · rw [partition_of_notMem ho]

theorem aliasDeclaredBy_eq (configs : Dict Str Declaration) (name : Str) :
    aliasDeclaredBy configs name =
      (configs.items.find? fun p => decide (name ∈ aliasNames p.1 p.2)).map Prod.fst := by
  unfold aliasDeclaredBy aliasesDeclared
  rw [Dict.get?_foldl_setdefault (fun p : Str × Declaration => aliasNames p.1 p.2) Prod.fst,
    Dict.get?_empty, Option.none_or]
  exact congrArg (fun f => (configs.items.find? f).map Prod.fst)
    (funext fun p => decide_eq_decide.2 Iff.rfl)

/-- What declares an alias lists it. -/
theorem aliasDeclaredBy_eq_some {configs : Dict Str Declaration} {name owner : Str}
    (h : aliasDeclaredBy configs name = some owner) :
    ∃ d, configs.get? owner = some d ∧ name ∈ aliasNames owner d := by
  rw [aliasDeclaredBy_eq, Option.map_eq_some_iff] at h
  obtain ⟨p, hp, rfl⟩ := h
  refine ⟨p.2, Dict.get?_eq_some.2 (List.mem_of_find?_eq_some hp), ?_⟩
  simpa using List.find?_some hp

/-! ## What a declaration brings into the package -/

/-- The object that the creation of a declared object puts under a name that is free. -/
def brings (owner : Str) (declaration : Declaration) (name : Str) : Option Object :=
  if name = owner then
    if declaration.creation = .raises then none else some (.declared owner)
  else if declaration.creation = .succeeds ∧ name ∈ aliasNames owner declaration then
    some (.aliasOf owner name)
  else none

theorem parameterless_of_brings {owner name : Str} {declaration : Declaration}
    (h : brings owner declaration name ≠ none) (hname : Parameterless name) :
    Parameterless owner := by
  unfold brings at h
  split at h
  · rename_i heq
    rwa [← heq]
  · split at h
    · rename_i hmem
      obtain ⟨entry, -, rfl⟩ := List.mem_map.1 hmem.2
      exact parameterless_of_aliasName hname
    · exact absurd rfl h

theorem get?_initAlias (objectName name k : Str) (s : Objects) :
    (initAlias objectName s name).objects.get? k =
      (s.objects.get? k).or (if k = name then some (.aliasOf objectName k) else none) := by
  unfold initAlias registerObject
  by_cases hk : k = name
  · subst hk
    cases h : s.objects.get? k <;> simp [recordBrokenObject, h]
  · cases h : s.objects.get? name <;>
      simp [recordBrokenObject, hk, Dict.get?_set_of_ne _ _ (Ne.symm hk)]

theorem get?_foldl_initAlias (objectName k : Str) (names : List Str) (s : Objects) :
    (names.foldl (initAlias objectName) s).objects.get? k =
      (s.objects.get? k).or (if k ∈ names then some (.aliasOf objectName k) else none) := by
  induction names generalizing s with
  | nil => simp
  | cons name names ih =>
    rw [List.foldl_cons, ih, get?_initAlias, Option.or_assoc]
    by_cases hk : k = name <;> simp [hk]

/-- The objects after one was created: where its name was free, with what it brings. -/
theorem get?_initObjectByConfig (name k : Str) (declaration : Declaration) (s : Objects) :
    (initObjectByConfig name declaration s).1.objects.get? k =
      (s.objects.get? k).or
        (if s.objects.get? name = none then brings name declaration k else none) := by
  unfold initObjectByConfig registerObject brings
  cases hc : declaration.creation with
  | raises => simp
  | raisesLate =>
    cases hname : s.objects.get? name with
    | some obj => simp
    | none =>
      by_cases hk : k = name
      · simp [hk, hname]
      · simp [hk, Dict.get?_set_of_ne _ _ (Ne.symm hk)]
  | succeeds =>
    cases hname : s.objects.get? name with
    | some obj => simp
    | none =>
      simp only [get?_foldl_initAlias]
      by_cases hk : k = name
      · simp [hk, hname]
      · simp [hk, Dict.get?_set_of_ne _ _ (Ne.symm hk)]

theorem get?_initOrRecord (name k : Str) (declaration : Declaration) (s : Objects) :
    (initOrRecord name declaration s).objects.get? k =
      (s.objects.get? k).or
        (if s.objects.get? name = none then brings name declaration k else none) := by
  rw [← get?_initObjectByConfig]
  unfold initOrRecord
  split
  · rename_i heq
    rw [heq]
  · rename_i heq
    rw [heq]
    rfl

/-! ## What a name stands for -/

/-- The object that a name resolves to by the declarations alone: what is declared under it, else
the alias of the first declaration that lists it.  A declaration that cannot be created stands for
no object. -/
def resolution (configs : Dict Str Declaration) (name : Str) : Option Object :=
  match configs.get? name with
  | some declaration => if declaration.creation = .raises then none else some (.declared name)
  | none =>
    match aliasDeclaredBy configs name with
    | none => none
    | some owner =>
      if (configs.get? owner).map Declaration.creation = some .succeeds then
        some (.aliasOf owner name)
      else none

/-- The aliases keep to themselves: one that is created names no declared object and is listed by
no declaration before its own; and no factory raises when its object is registered already. -/
structure AliasesApart (configs : Dict Str Declaration) : Prop where
  not_late : ∀ {owner declaration}, configs.get? owner = some declaration →
    Parameterless owner → declaration.creation ≠ .raisesLate
  apart : ∀ {owner declaration name}, configs.get? owner = some declaration →
    declaration.creation = .succeeds → name ∈ aliasNames owner declaration →
    Parameterless name → name ≠ owner →
    configs.get? name = none ∧ aliasDeclaredBy configs name = some owner

/-- What the package holds under a name is what the name stands for, and the aliases of an object
are there with it. -/
structure Inv (configs : Dict Str Declaration) (s : Objects) : Prop where
  resolved : ∀ {name obj}, Parameterless name → s.objects.get? name = some obj →
    resolution configs name = some obj
  complete : ∀ {owner declaration name}, configs.get? owner = some declaration →
    Parameterless name → s.objects.get? owner ≠ none → brings owner declaration name ≠ none →
    s.objects.get? name ≠ none

section

variable {configs : Dict Str Declaration}

theorem resolution_of_declared {name : Str} {declaration : Declaration}
    (h : configs.get? name = some declaration) :
    resolution configs name = brings name declaration name := by
  simp [resolution, brings, h]

theorem resolution_of_alias {name owner : Str} {declaration : Declaration}
    (hname : configs.get? name = none) (howner : aliasDeclaredBy configs name = some owner)
    (h : configs.get? owner = some declaration) :
    resolution configs name = brings owner declaration name := by
  obtain ⟨d, hd, hmem⟩ := aliasDeclaredBy_eq_some howner
  obtain rfl : declaration = d := Option.some.inj (h.symm.trans hd)
  have hne : name ≠ owner := by
    rintro rfl
    rw [h] at hname
    cases hname
  simp [resolution, brings, hname, howner, h, hne, hmem]

theorem AliasesApart.resolution_of_brings (hC : AliasesApart configs) {owner name : Str}
    {declaration : Declaration} (h : configs.get? owner = some declaration)
    (hname : Parameterless name) {obj : Object} (hobj : brings owner declaration name = some obj) :
    resolution configs name = some obj := by
  by_cases heq : name = owner
  · subst heq
    rw [resolution_of_declared h, hobj]
  · have hmem : declaration.creation = .succeeds ∧ name ∈ aliasNames owner declaration := by
      by_contra hnot
      simp [brings, heq, hnot] at hobj
    obtain ⟨hnone, howner⟩ := hC.apart h hmem.1 hmem.2 hname heq
    rw [resolution_of_alias hnone howner h, hobj]

/-! ## One request -/

theorem inv_new : Inv configs Objects.new where
  resolved := by
    intro name obj _ h
    cases h
  complete := by
    intro owner declaration name _ _ h _
    exact absurd rfl h

/-- A step from which a package has what a declaration brings keeps the invariant. -/
theorem Inv.of_brings (hC : AliasesApart configs) {s s' : Objects} (hs : Inv configs s) {o : Str}
    {d : Declaration} (ho : configs.get? o = some d)
    (h : ∀ k, s'.objects.get? k =
      (s.objects.get? k).or (if s.objects.get? o = none then brings o d k else none)) :
    Inv configs s' := by
  refine ⟨?_, ?_⟩
  · intro name obj hname hobj
    rw [h] at hobj
    cases hold : s.objects.get? name with
    | some old =>
      rw [hold, Option.some_or] at hobj
      exact hobj ▸ hs.resolved hname hold
    | none =>
      rw [hold, Option.none_or] at hobj
      split at hobj
      · exact hC.resolution_of_brings ho hname hobj
      · cases hobj
  · intro owner declaration name howner hname hthere hbrings
    have hmono : s.objects.get? name ≠ none → s'.objects.get? name ≠ none := by
      intro hne hnone
      rw [h, Option.or_eq_none_iff] at hnone
      exact hne hnone.1
    by_cases hold : s.objects.get? owner = none
    · -- the owner came in with this step, as the object that was created
      rw [h, hold, Option.none_or] at hthere
      split at hthere
      · rename_i hfree
        by_cases heq : owner = o
        · subst heq
          obtain rfl : declaration = d := Option.some.inj (howner.symm.trans ho)
          rw [h, if_pos hfree]
          intro hnone
          exact hbrings (Option.or_eq_none_iff.1 hnone).2
        · have hmem : d.creation = .succeeds ∧ owner ∈ aliasNames o d := by
            by_contra hnot
            simp [brings, heq, hnot] at hthere
          have hplain : Parameterless owner := parameterless_of_brings hbrings hname
          rw [(hC.apart ho hmem.1 hmem.2 hplain heq).1] at howner
          cases howner
      · exact absurd rfl hthere
    · exact hmono (hs.complete howner hname hold hbrings)

theorem Inv.initOrRecord (hC : AliasesApart configs) {s : Objects} (hs : Inv configs s) {o : Str}
    {d : Declaration} (ho : configs.get? o = some d) : Inv configs (initOrRecord o d s) :=
  hs.of_brings hC ho fun k => get?_initOrRecord o k d s

theorem inv_recordBrokenObject {s : Objects} (hs : Inv configs s) (name : Str) (reason : Reason) :
    Inv configs (recordBrokenObject name reason s) := ⟨hs.resolved, hs.complete⟩

/-- The owner of an alias that is not there brings it, if it can be created. -/
theorem Inv.initOwner (hC : AliasesApart configs) {s : Objects} (hs : Inv configs s)
    {name owner : Str} {d : Declaration} (hname : Parameterless name)
    (howner : configs.get? owner = some d) (hfree : s.objects.get? name = none) :
    Inv configs (initOwner configs owner s) ∧
      (initOwner configs owner s).objects.get? name = brings owner d name := by
  unfold PartCAD.Package.initOwner
  rw [howner]
  cases hthere : s.objects.get? owner with
  | none =>
    refine ⟨hs.initOrRecord hC howner, ?_⟩
    show (PartCAD.Package.initOrRecord owner d s).objects.get? name = _
    rw [get?_initOrRecord, hfree, hthere, Option.none_or, if_pos rfl]
  | some obj =>
    refine ⟨hs, ?_⟩
    show s.objects.get? name = _
    by_contra hne
    rw [hfree] at hne
    exact hs.complete howner hname (by simp [hthere]) (Ne.symm hne) hfree

/-- A lookup keeps the invariant and gives what the name stands for. -/
theorem Inv.getObject (hC : AliasesApart configs) {s : Objects} (hs : Inv configs s) {name : Str}
    (hname : Parameterless name) :
    Inv configs (getObject configs name s).1 ∧
      (getObject configs name s).2 = resolution configs name := by
  cases hold : s.objects.get? name with
  | some obj =>
    simp only [PartCAD.Package.getObject, hold]
    exact ⟨hs, (hs.resolved hname hold).symm⟩
  | none =>
    cases hconfig : configs.get? name with
    | some d =>
      rw [resolution_of_declared hconfig]
      have hinv : Inv configs (initObjectByConfig name d s).1 :=
        hs.of_brings hC hconfig fun k => get?_initObjectByConfig name k d s
      have hget := get?_initObjectByConfig name name d s
      rw [hold, Option.none_or, if_pos rfl] at hget
      cases hc : d.creation with
      | raises =>
        have hinit : initObjectByConfig name d s = (s, some .factoryRaised) := by
          simp [initObjectByConfig, hc]
        simp only [PartCAD.Package.getObject, hold, hconfig, hinit]
        exact ⟨inv_recordBrokenObject hs _ _, by simp [brings, hc]⟩
      | raisesLate => exact absurd hc (hC.not_late hconfig hname)
      | succeeds =>
        have hraised : (initObjectByConfig name d s).2 = none := by
          simp [initObjectByConfig, registerObject, hc, hold]
        have hinit : initObjectByConfig name d s = ((initObjectByConfig name d s).1, none) :=
          Prod.ext rfl hraised
        have hbrings : brings name d name = some (.declared name) := by simp [brings, hc]
        simp only [PartCAD.Package.getObject, hold, hconfig]
        rw [hinit]
        simp only [hget, hbrings]
        exact ⟨hinv, trivial⟩
    | none =>
      cases howner : aliasDeclaredBy configs name with
      | none =>
        simp only [PartCAD.Package.getObject, hold, hconfig, howner]
        exact ⟨hs, by simp [resolution, hconfig, howner]⟩
      | some owner =>
        obtain ⟨d, hd, -⟩ := aliasDeclaredBy_eq_some howner
        simp only [PartCAD.Package.getObject, hold, hconfig, howner]
        rw [resolution_of_alias hconfig howner hd]
        exact hs.initOwner hC hname hd hold

/-- The bulk pass keeps the invariant, whichever declarations it gets to. -/
theorem Inv.foldl_initDeclared (hC : AliasesApart configs) {ps : List (Str × Declaration)}
    (hps : ∀ p ∈ ps, configs.get? p.1 = some p.2) {s : Objects} (hs : Inv configs s) :
    Inv configs (ps.foldl initDeclared s) := by
  induction ps generalizing s with
  | nil => exact hs
  | cons p ps ih =>
    have hstep : Inv configs (initDeclared s p) := by
      unfold initDeclared
      split
      · exact hs
      · exact hs.initOrRecord hC (hps p (by simp))
    exact ih (fun q hq => hps q (by simp [hq])) hstep

theorem Inv.lazyObjects (hC : AliasesApart configs) {s : Objects} (hs : Inv configs s) :
    Inv configs (lazyObjects configs s) := by
  unfold PartCAD.Package.lazyObjects
  split
  · exact hs
  · have hall : Inv configs (initObjects configs s) :=
      hs.foldl_initDeclared hC fun p hp => Dict.get?_eq_some.2 hp
    exact ⟨hall.resolved, hall.complete⟩

/-! ## All requests -/

theorem Inv.handle (hC : AliasesApart configs) {s : Objects} (hs : Inv configs s)
    (request : Request) : Inv configs (handle configs s request) := by
  cases request with
  | object name plain => exact (hs.getObject hC plain).1
  | all => exact hs.lazyObjects hC

/-- The invariant holds after every sequence of requests. -/
theorem inv_run (hC : AliasesApart configs) (requests : List Request) :
    Inv configs (run configs requests) := by
  have hgen : ∀ s, Inv configs s →
      Inv configs (requests.foldl (PartCAD.Package.handle configs) s) := by
    induction requests with
    | nil => exact fun s hs => hs
    | cons request requests ih => exact fun s hs => ih _ (hs.handle hC request)
  exact hgen _ inv_new

/-- A factory that raises late leaves an object behind that its first lookup did not give. -/
theorem getObject_new_raisesLate {name : Str} {d : Declaration} (h : configs.get? name = some d)
    (hc : d.creation = .raisesLate) : (getObject configs name Objects.new).2 = none := by
  simp [getObject, Objects.new, h, initObjectByConfig, hc, registerObject]

/-- A lookup in a new package brings what the declaration brings. -/
theorem get?_getObject_new {owner : Str} {d : Declaration} (h : configs.get? owner = some d)
    (hc : d.creation = .succeeds) (k : Str) :
    (getObject configs owner Objects.new).1.objects.get? k = brings owner d k := by
  have hget := get?_initObjectByConfig owner owner d Objects.new
  have hgetk := get?_initObjectByConfig owner k d Objects.new
  have hraised : (initObjectByConfig owner d Objects.new).2 = none := by
    simp [initObjectByConfig, registerObject, hc, Objects.new]
  have hinit : initObjectByConfig owner d Objects.new =
      ((initObjectByConfig owner d Objects.new).1, none) := Prod.ext rfl hraised
  have hbrings : brings owner d owner = some (.declared owner) := by simp [brings, hc]
  have hfree : Objects.new.objects.get? owner = none := rfl
  rw [hfree, Option.none_or, if_pos rfl, hbrings] at hget
  simp only [getObject, hfree, h]
  rw [hinit]
  simp only [hget]
  rw [hgetk, hfree, if_pos rfl]
  exact Option.none_or

end

/-- **Lookups and bulk passes.** After every sequence of them, and so in every order, each name
resolves to the object of its own declaration, or else to the alias of the first object that lists
it, exactly when the aliases keep to themselves. -/
theorem resolves_iff (configs : Dict Str Declaration) :
    (∀ (requests : List Request) (name : Str), Parameterless name →
        (getObject configs name (run configs requests)).2 = resolution configs name) ↔
      AliasesApart configs := by
  constructor
  · intro hall
    refine ⟨?_, ?_⟩
    · intro owner d h hplain hlate
      have hnone : resolution configs owner = none := by
        rw [← hall [] owner hplain]
        exact getObject_new_raisesLate h hlate
      rw [resolution_of_declared h] at hnone
      simp [brings, hlate] at hnone
    · intro owner d name h hc hmem hplain hne
      have hbrings : brings owner d name = some (.aliasOf owner name) := by
        simp [brings, hne, hc, hmem]
      have hsome : brings owner d name ≠ none := by simp [hbrings]
      have howner : Parameterless owner := parameterless_of_brings hsome hplain
      -- the owner is looked up, and the alias that came with it
      have hthere : (run configs [.object owner howner]).objects.get? name =
          some (.aliasOf owner name) := by
        rw [← hbrings]
        exact get?_getObject_new h hc name
      have hres := hall [.object owner howner] name hplain
      simp only [getObject, hthere] at hres
      unfold resolution at hres
      split at hres
      · split at hres <;> cases hres
      · rename_i hnone
        refine ⟨hnone, ?_⟩
        split at hres
        · cases hres
        · rename_i o ho
          split at hres
          · obtain rfl : owner = o := by simpa using hres
            exact ho
          · cases hres
  · intro hC requests name hname
    exact ((inv_run hC requests).getObject hC hname).2

/-- A cube that also goes by the name of a box, and the box of the same package. -/
def cubeAndBox : Dict Str Declaration :=
  Dict.ofPairs [("cube".toList, ⟨.succeeds, ["box".toList]⟩), ("box".toList, ⟨.succeeds, []⟩)]

instance (name : Str) : Decidable (Parameterless name) :=
  inferInstanceAs (Decidable ((parseParameterizedName name).2.items = []))

theorem not_resolves_box :
    ¬ ∀ (requests : List Request) (name : Str), Parameterless name →
        (getObject cubeAndBox name (run cubeAndBox requests)).2 = resolution cubeAndBox name := by
  intro h
  have hcube : Parameterless "cube".toList := by decide
  have hbox := h [.object "cube".toList hcube] "box".toList (by decide)
  have hgot : (getObject cubeAndBox "box".toList
      (run cubeAndBox [.object "cube".toList hcube])).2 =
        some (.aliasOf "cube".toList "box".toList) := rfl
  have hmeant : resolution cubeAndBox "box".toList = some (.declared "box".toList) := rfl
  rw [hgot, hmeant] at hbox
  cases hbox

end PartCAD.Package
