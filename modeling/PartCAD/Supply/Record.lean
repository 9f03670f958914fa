import Mathlib.Data.List.Induction
import PartCAD.Lib.Dict
import PartCAD.Lib.Value

/-!
# What an object is bought as

A reference to a part or an assembly may restate what it is bought as: the vendor, the SKU and how many come in
one. References point at references, and each one is resolved against what the one it points at resolves to.

* `resolveStoreProperties`, `adoptSourceConfig` : one reference;
* `finalConfig` : a chain of them;
* `recordOf_resolve`, `recordOf_adopt` : what one reference does to the record;
* `recordOf_finalConfig` : **the vendor and the SKU are those of one declaration**, and the count may be corrected.
-/

namespace PartCAD.Supply

open PartCAD.Lib

variable {F : Type}

abbrev Declaration (F : Type) := Dict Str (Value F)

/-! ## One reference -/

def vendorKey : Str := "vendor".toList

def skuKey : Str := "sku".toList

def countKey : Str := "count_per_sku".toList

/-- `STORE_PROPERTIES` -/
def storeProperties : List Str := [vendorKey, skuKey, countKey]

/-- `declaration.get(name)`, if it is not `None`. -/
def stated (declaration : Declaration F) (name : Str) : Option (Value F) :=
  match declaration.get? name with
  | some .none => none
  | v => v

/-- The items of a declaration that are about buying. -/
def declaredItems (declaration : Declaration F) : List (Str × Value F) :=
  storeProperties.filterMap fun name => (stated declaration name).map fun v => (name, v)

/-- `resolve_store_properties`; the declaration may be something else than a dictionary. -/
def resolveStoreProperties (source : Declaration F) : Option (Declaration F) → Declaration F
  | none => source
  | some declaration =>
    if (declaredItems declaration).isEmpty then source
    else
      let resolved :=
        if (stated declaration vendorKey).isSome ∨ (stated declaration skuKey).isSome then
          source.without storeProperties
        else source
      resolved.setAll (declaredItems declaration)

/-- `ENRICH_ONLY_PROPERTIES` -/
def enrichOnlyProperties : List Str :=
  ["type".toList, "path".toList, "orig_name".toList, "source".toList, "project".toList, "package".toList,
    "with".toList]

/-- `SOURCE_ONLY_PROPERTIES` -/
def sourceOnlyProperties : List Str := ["aliases".toList]

/-- `INSTANCE_APPLIED_PROPERTIES` -/
def instanceAppliedProperties : List Str := ["offset".toList, "scale".toList]

/-- `adopt_source_config`: what an enrich stores, by its name, its declaration, the final configuration of its
source and the name of that. `none` is the `KeyError` for a declaration without a name. -/
def adoptSourceConfig (objName : Str) (enrichConfig sourceFinal : Declaration F) (sourceName : Str) :
    Option (Declaration F) :=
  let sourceConfig := resolveStoreProperties sourceFinal (some enrichConfig)
  let config := sourceConfig.without (instanceAppliedProperties ++ sourceOnlyProperties)
  let copied := config.setAll
    (enrichConfig.items.filter fun p => p.1 ∉ enrichOnlyProperties ++ storeProperties)
  let named := ((copied.set "source".toList (.str sourceName)).set "source_resolved".toList (.str sourceName)).set
    "orig_name".toList (.str objName)
  (enrichConfig.get? "name".toList).map fun name => named.set "name".toList name

/-- `get_final_config` at the end of a chain of references, the first of which points at an object that is declared
outright. -/
def finalConfig (base : Declaration F) (references : List (Option (Declaration F))) : Declaration F :=
  references.foldl resolveStoreProperties base

/-! ## Records -/

/-- What a declaration states about buying. -/
structure Record (F : Type) where
  vendor : Option (Value F)
  sku : Option (Value F)
  countPerSku : Option (Value F)

namespace Record

/-- Something else is ordered than before. -/
def Orders (r : Record F) : Prop := r.vendor.isSome ∨ r.sku.isSome

instance (r : Record F) : Decidable r.Orders := inferInstanceAs (Decidable (_ ∨ _))

/-- A record as a declaration restates it: whole, or its count. -/
def restate (r d : Record F) : Record F :=
  if d.Orders then d else ⟨r.vendor, r.sku, d.countPerSku.or r.countPerSku⟩

end Record

def recordOf (declaration : Declaration F) : Record F :=
  ⟨stated declaration vendorKey, stated declaration skuKey, stated declaration countKey⟩

/-- What a reference states; nothing, if it is not a dictionary. -/
def statedBy (reference : Option (Declaration F)) : Record F :=
  reference.elim ⟨none, none, none⟩ recordOf

/-- The count that the last of some declarations states. -/
def lastCount (ds : List (Record F)) : Option (Value F) := (ds.filterMap Record.countPerSku).getLast?

/-! ## What one reference does -/

theorem stated_eq {c d : Declaration F} {name : Str} (h : c.get? name = d.get? name) :
    stated c name = stated d name := by
  rw [stated, stated, h]

/-- What is assigned for a property is what the declaration states, before what was there. -/
theorem stated_setAll (c d : Declaration F) {name : Str} (h : name ∈ storeProperties) :
    stated (c.setAll (declaredItems d)) name = (stated d name).or (stated c name) := by
  have hget : (c.setAll (declaredItems d)).get? name = (stated d name).or (c.get? name) := by
    rw [declaredItems, Dict.get?_setAll_filterMap, if_pos h]
  rw [stated, hget]
  cases hv : stated d name with
  | none => rfl
  | some v =>
    have hnot : v ≠ .none := by
      rintro rfl
      rw [stated] at hv
      split at hv
      · cases hv
      · next hne => exact hne hv
    rw [Option.some_or, Option.some_or]
    split
    · next heq => exact absurd (Option.some.inj heq) hnot
    · rfl

theorem stated_without (c : Declaration F) {name : Str} (h : name ∈ storeProperties) :
    stated (c.without storeProperties) name = none := by
  rw [stated, Dict.get?_without, if_pos h]

theorem stated_resolve (c d : Declaration F) {name : Str} (h : name ∈ storeProperties) :
    stated (resolveStoreProperties c (some d)) name =
      if (recordOf d).Orders then stated d name else (stated d name).or (stated c name) := by
  rw [resolveStoreProperties]
  split
  · next hempty =>
    -- nothing is stated
    have hnone : ∀ name ∈ storeProperties, stated d name = none := by
      intro name hname
      have hitem := List.filterMap_eq_nil_iff.mp (List.isEmpty_iff.mp hempty) name hname
      exact Option.map_eq_none_iff.mp hitem
    have horders : ¬ (recordOf d).Orders := by
      rintro (hv | hs)
      · rw [show (recordOf d).vendor = none from hnone vendorKey (by decide)] at hv
        cases hv
      · rw [show (recordOf d).sku = none from hnone skuKey (by decide)] at hs
        cases hs
    rw [if_neg horders, hnone name h, Option.none_or]
  · dsimp only
    by_cases horders : (recordOf d).Orders
    · have hcond : (stated d vendorKey).isSome ∨ (stated d skuKey).isSome := horders
      rw [if_pos horders, if_pos hcond, stated_setAll _ _ h, stated_without _ h, Option.or_none]
    · have hcond : ¬ ((stated d vendorKey).isSome ∨ (stated d skuKey).isSome) := horders
      rw [if_neg horders, if_neg hcond, stated_setAll _ _ h]

/-- **One reference** restates the record of what it points at. -/
theorem recordOf_resolve (c : Declaration F) (reference : Option (Declaration F)) :
    recordOf (resolveStoreProperties c reference) = (recordOf c).restate (statedBy reference) := by
  cases reference with
  | none => rfl
  | some d =>
    rw [recordOf, stated_resolve c d (by decide), stated_resolve c d (by decide), stated_resolve c d (by decide)]
    show _ = (recordOf c).restate (recordOf d)
    rw [Record.restate]
    by_cases horders : (recordOf d).Orders
    · simp only [if_pos horders]
      rfl
    · have hvendor : stated d vendorKey = none := by
        by_contra hne
        exact horders (Or.inl (Option.isSome_iff_ne_none.mpr hne))
      have hsku : stated d skuKey = none := by
        by_contra hne
        exact horders (Or.inr (Option.isSome_iff_ne_none.mpr hne))
      simp only [if_neg horders, hvendor, hsku, Option.none_or]
      rfl

/-- **What an enrich stores** is bought as what it resolves to. -/
theorem recordOf_adopt (objName : Str) (enrichConfig sourceFinal : Declaration F) (sourceName : Str) :
    (adoptSourceConfig objName enrichConfig sourceFinal sourceName).map recordOf =
      (enrichConfig.get? "name".toList).map fun _ =>
        recordOf (resolveStoreProperties sourceFinal (some enrichConfig)) := by
  have hget : ∀ (v : Value F), ∀ name ∈ storeProperties,
      (((((((resolveStoreProperties sourceFinal (some enrichConfig)).without
        (instanceAppliedProperties ++ sourceOnlyProperties)).setAll
        (enrichConfig.items.filter fun p => p.1 ∉ enrichOnlyProperties ++ storeProperties)).set
        "source".toList (.str sourceName)).set "source_resolved".toList (.str sourceName)).set
        "orig_name".toList (.str objName)).set "name".toList v).get? name =
      (resolveStoreProperties sourceFinal (some enrichConfig)).get? name := by
    intro v name hname
    have hothers : "name".toList ≠ name ∧ "orig_name".toList ≠ name ∧ "source_resolved".toList ≠ name ∧
        "source".toList ≠ name ∧ name ∉ instanceAppliedProperties ++ sourceOnlyProperties := by
      revert name
      decide
    have hcopied : name ∉
        (enrichConfig.items.filter fun p => p.1 ∉ enrichOnlyProperties ++ storeProperties).map Prod.fst := by
      intro hmem
      obtain ⟨p, hp, rfl⟩ := List.mem_map.mp hmem
      exact of_decide_eq_true (List.mem_filter.mp hp).2 (List.mem_append_right _ hname)
    rw [Dict.get?_set_of_ne _ _ hothers.1, Dict.get?_set_of_ne _ _ hothers.2.1, Dict.get?_set_of_ne _ _ hothers.2.2.1,
      Dict.get?_set_of_ne _ _ hothers.2.2.2.1, Dict.get?_setAll_of_notMem hcopied, Dict.get?_without,
      if_neg hothers.2.2.2.2]
  rw [adoptSourceConfig, Option.map_map]
  refine congrArg (Option.map · _) (funext fun v => ?_)
  have hstated := fun name hname => stated_eq (hget v name hname)
  show recordOf _ = _
  rw [recordOf, recordOf, hstated vendorKey (by decide), hstated skuKey (by decide), hstated countKey (by decide)]

/-! ## A chain of references -/

/-- Behind the record that orders something, only counts are restated. -/
theorem exists_orders (first : Record F) (ds : List (Record F)) :
    ∃ inner record outer, first :: ds = inner ++ record :: outer ∧ (∀ d ∈ outer, ¬ d.Orders) ∧
      (inner = [] ∨ record.Orders) ∧
      ds.foldl Record.restate first = ⟨record.vendor, record.sku, (lastCount outer).or record.countPerSku⟩ := by
  induction ds using List.reverseRecOn with
  | nil => exact ⟨[], first, [], rfl, by simp, Or.inl rfl, rfl⟩
  | append_singleton ds d ih =>
    obtain ⟨inner, record, outer, hsplit, houter, hrecord, hfold⟩ := ih
    rw [List.foldl_append, hfold, List.foldl_cons, List.foldl_nil, Record.restate, ← List.cons_append, hsplit]
    by_cases horders : d.Orders
    · rw [if_pos horders]
      exact ⟨inner ++ record :: outer, d, [], by simp, by simp, Or.inr horders, rfl⟩
    · rw [if_neg horders]
      refine ⟨inner, record, outer ++ [d], by simp, ?_, hrecord, ?_⟩
      · intro d' hd'
        rcases List.mem_append.mp hd' with hd' | hd'
        · exact houter d' hd'
        · rw [List.mem_singleton.mp hd']
          exact horders
      · have hlast : lastCount (outer ++ [d]) = d.countPerSku.or (lastCount outer) := by
          rw [lastCount, List.filterMap_append]
          cases hcount : d.countPerSku with
          | none =>
            rw [List.filterMap_cons_none hcount, List.filterMap_nil, List.append_nil]
            rfl
          | some v =>
            rw [List.filterMap_cons_some hcount, List.filterMap_nil, List.getLast?_concat]
            rfl
        rw [hlast, Option.or_assoc]

/-- **The vendor and the SKU are those of one declaration**, the outermost one that states either, or of the object
itself; the count is that of the outermost declaration from there on that states one. What an enrich at the end of
the chain stores says the same. -/
theorem recordOf_finalConfig (base : Declaration F) (references : List (Option (Declaration F))) :
    (∃ inner record outer, recordOf base :: references.map statedBy = inner ++ record :: outer ∧
      (∀ d ∈ outer, ¬ d.Orders) ∧ (inner = [] ∨ record.Orders) ∧
      recordOf (finalConfig base references) =
        ⟨record.vendor, record.sku, (lastCount outer).or record.countPerSku⟩) ∧
      ∀ (objName sourceName : Str) (enrichConfig : Declaration F),
        (adoptSourceConfig objName enrichConfig (finalConfig base references) sourceName).map recordOf =
          (enrichConfig.get? "name".toList).map fun _ =>
            recordOf (finalConfig base (references ++ [some enrichConfig])) := by
  refine ⟨?_, fun objName sourceName enrichConfig => ?_⟩
  · obtain ⟨inner, record, outer, hsplit, houter, hrecord, hfold⟩ :=
      exists_orders (recordOf base) (references.map statedBy)
    refine ⟨inner, record, outer, hsplit, houter, hrecord, ?_⟩
    rw [← hfold, finalConfig]
    clear hsplit hfold
    induction references generalizing base with
    | nil => rfl
    | cons reference references ih =>
      rw [List.foldl_cons, List.map_cons, List.foldl_cons, ← recordOf_resolve]
      exact ih (resolveStoreProperties base reference)
  · rw [recordOf_adopt, finalConfig, finalConfig, List.foldl_append]
    rfl

/-- A count is corrected for the SKU of another declaration: five of the screws that somebody else sells. -/
theorem not_single_declaration :
    let screws : Declaration ℕ := Dict.ofPairs [(vendorKey, .str "acme".toList), (skuKey, .str "M3".toList)]
    let pack : Declaration ℕ := Dict.ofPairs [(countKey, .int 5)]
    recordOf (finalConfig screws [some pack]) = ⟨some (.str "acme".toList), some (.str "M3".toList), some (.int 5)⟩ ∧
      ∀ d ∈ [screws, pack], recordOf (finalConfig screws [some pack]) ≠ recordOf d := by
  intro screws pack
  have hfinal : recordOf (finalConfig screws [some pack]) =
      ⟨some (.str "acme".toList), some (.str "M3".toList), some (.int 5)⟩ := rfl
  refine ⟨hfinal, fun d hd heq => ?_⟩
  rw [hfinal] at heq
  rcases List.mem_cons.mp hd with rfl | hd
  · cases congrArg Record.countPerSku heq
  · obtain rfl := List.mem_singleton.mp hd
    cases congrArg Record.vendor heq

end PartCAD.Supply
