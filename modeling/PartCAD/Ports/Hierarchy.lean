import PartCAD.Ports.Inherit

/-!
# Hierarchies of interfaces

The interfaces of a finite acyclic hierarchy can be listed so that each one inherits only from later
ones, and functions over the hierarchy go down that list.

* `resolve` : an interface with everything that it inherits.
-/

namespace PartCAD.Ports

open PartCAD.Lib

variable {L B P : Type}

/-! ## Interfaces in order -/

/-- The interfaces that are inherited from. -/
def Declaration.parentNames (d : Declaration L B P) : List Str :=
  d.mapped.map InterfaceInherits.name ++ d.inherits.map Prod.fst

/-- No interface is listed twice, and each one inherits only from later ones. -/
def Ordered : List (Str × Declaration L B P) → Prop
  | [] => True
  | (name, d) :: rest =>
    name ∉ rest.map Prod.fst ∧ (∀ m ∈ d.parentNames, m ∈ rest.map Prod.fst) ∧ Ordered rest

structure Hierarchy (L B P : Type) where
  interfaces : List (Str × Declaration L B P)
  ordered : Ordered interfaces

/-- An object that implements interfaces of a hierarchy. -/
structure Implementer (h : Hierarchy L B P) where
  declaration : Declaration L B P
  known : ∀ m ∈ declaration.parentNames, m ∈ h.interfaces.map Prod.fst

/-- `get_interface(name)`, with everything that it inherits. -/
def resolve [One L] [Mul L] (drawn : Str → B) :
    List (Str × Declaration L B P) → Str → Interface L B P
  | [], _ => ⟨Dict.empty, Dict.empty, Dict.empty, []⟩
  | (n, d) :: rest, name =>
    if n = name then instantiate (resolve drawn rest) drawn d else resolve drawn rest name

/-- Whether an interface is abstract. -/
def isAbstract : List (Str × Declaration L B P) → Str → Bool
  | [], _ => false
  | (n, d) :: rest, name => if n = name then d.abstract else isAbstract rest name

theorem mem_keys_recordInherit {inherits : Dict Str (InterfaceInherits L)}
    {inherit : InterfaceInherits L} {name : Str} :
    name ∈ (recordInherit inherits inherit).1.keys ↔ name = inherit.name ∨ name ∈ inherits.keys := by
  unfold recordInherit
  cases inherits.get? inherit.name with
  | none => exact Dict.mem_keys_set
  | some existing => exact Dict.mem_keys_set

section

variable [One L] [Mul L] {drawn : Str → B}

/-- An object has taken in the interfaces that its declaration names. -/
theorem mem_keys_inherits {interfaces : Str → Interface L B P} {d : Declaration L B P} {name : Str} :
    name ∈ (instantiate interfaces drawn d).inherits.keys ↔ name ∈ d.parentNames := by
  have hmapped : ∀ (mapped : List (InterfaceInherits L)) (obj : Interface L B P),
      name ∈ (mapped.foldl (adoptInherit interfaces drawn d.params.keys) obj).inherits.keys ↔
        name ∈ mapped.map InterfaceInherits.name ∨ name ∈ obj.inherits.keys := by
    intro mapped
    induction mapped with
    | nil => simp
    | cons inherit mapped ih =>
      intro obj
      have hstep : (adoptInherit interfaces drawn d.params.keys obj inherit).inherits =
          (recordInherit obj.inherits inherit).1 := rfl
      rw [List.foldl_cons, ih, hstep, mem_keys_recordInherit, List.map_cons, List.mem_cons]
      tauto
  have hsection : ∀ (configs : List (Str × InheritConfig L)) (obj : Interface L B P),
      name ∈ (configs.foldl (fun obj c => adoptInherit interfaces drawn d.params.keys obj
          (makeInherits c.1 c.2 obj.ports)) obj).inherits.keys ↔
        name ∈ configs.map Prod.fst ∨ name ∈ obj.inherits.keys := by
    intro configs
    induction configs with
    | nil => simp
    | cons c configs ih =>
      intro obj
      have hstep : (adoptInherit interfaces drawn d.params.keys obj
          (makeInherits c.1 c.2 obj.ports)).inherits =
            (recordInherit obj.inherits (makeInherits c.1 c.2 obj.ports)).1 := rfl
      have hname : (makeInherits c.1 c.2 obj.ports).name = c.1 := rfl
      rw [List.foldl_cons, ih, hstep, mem_keys_recordInherit, hname, List.map_cons, List.mem_cons]
      tauto
  have hbare : name ∉ (d.bare.inherits).keys := by
    simp [Declaration.bare, Dict.keys, Dict.empty]
  rw [instantiate, hsection, hmapped, Declaration.parentNames, List.mem_append]
  tauto

theorem resolve_cons_of_mem {n name : Str} {d : Declaration L B P}
    {rest : List (Str × Declaration L B P)} (hn : n ∉ rest.map Prod.fst)
    (hname : name ∈ rest.map Prod.fst) :
    resolve drawn ((n, d) :: rest) name = resolve drawn rest name := by
  have hne : n ≠ name := by
    rintro rfl
    exact hn hname
  rw [resolve, if_neg hne]

end

/-! ## Drop-ins -/

/-- Whether a section asks for exactly one instance, as far as `len` can tell: the three parts of a
location count as three. -/
def InheritConfig.single : InheritConfig L → Bool
  | .omitted => true
  | .named _ => true
  | .located _ => false
  | .listed instanceNames => instanceNames.length = 1
  | .instances config => config.items.length = 1

/-- `_compatible_with`: the interface inherited, when it is the only one and inherited once. -/
def Declaration.ownCompatible (d : Declaration L B P) : List Str :=
  match d.inherits with
  | [(name, config)] => if config.single then [name] else []
  | _ => []

/-- `_compatible_closure(seen)`, with the names seen afterwards. -/
def compatibleClosure : List (Str × Declaration L B P) → Str → List Str → List Str × List Str
  | [], _, seen => ([], seen)
  | (n, d) :: rest, name, seen =>
    if n = name then
      if name ∈ seen then ([], seen)
      else
        d.ownCompatible.foldl
          (fun st parent =>
            let up := compatibleClosure rest parent st.2
            (st.1 ++ up.1, up.2))
          (d.ownCompatible, name :: seen)
    else compatibleClosure rest name seen

/-- `compatible_with` -/
def compatibleWith (h : Hierarchy L B P) (name : Str) : List Str :=
  (compatibleClosure h.interfaces name []).1

/-- The drop-ins one after the other, the nearest first. -/
def chain : List (Str × Declaration L B P) → Str → List Str
  | [], _ => []
  | (n, d) :: rest, name =>
    if n = name then d.ownCompatible.flatMap fun parent => parent :: chain rest parent
    else chain rest name

theorem ownCompatible_cases (d : Declaration L B P) :
    d.ownCompatible = [] ∨ ∃ name, d.ownCompatible = [name] ∧ name ∈ d.parentNames := by
  unfold Declaration.ownCompatible
  split
  · rename_i name config hinherits
    split
    · right
      refine ⟨name, rfl, ?_⟩
      rw [Declaration.parentNames, hinherits]
      simp
    · exact Or.inl rfl
  · exact Or.inl rfl

theorem compatibleClosure_eq_chain {interfaces : List (Str × Declaration L B P)}
    (hordered : Ordered interfaces) {name : Str} {seen : List Str}
    (hseen : ∀ m ∈ seen, m ∉ interfaces.map Prod.fst) :
    (compatibleClosure interfaces name seen).1 = chain interfaces name := by
  induction interfaces generalizing name seen with
  | nil => rfl
  | cons p rest ih =>
    obtain ⟨n, d⟩ := p
    obtain ⟨hn, hparents, hrest⟩ := hordered
    rw [compatibleClosure, chain]
    by_cases hname : n = name
    · subst hname
      have hnew : n ∉ seen := fun h => hseen n h (by simp)
      rw [if_pos rfl, if_pos rfl, if_neg hnew]
      rcases ownCompatible_cases d with hown | ⟨parent, hown, hparent⟩
      · rw [hown]
        rfl
      · -- the names seen stand before the parent in the list
        have hseen' : ∀ m ∈ n :: seen, m ∉ rest.map Prod.fst := by
          intro m hm
          rcases List.mem_cons.1 hm with rfl | hm
          · exact hn
          · exact fun hmem => hseen m hm (List.mem_cons_of_mem _ hmem)
        rw [hown, List.foldl_cons, List.foldl_nil]
        dsimp only
        rw [ih hrest hseen', List.flatMap_singleton]
        rfl
    · rw [if_neg hname, if_neg hname]
      exact ih hrest fun m hm hmem => hseen m hm (List.mem_cons_of_mem _ hmem)

end PartCAD.Ports
