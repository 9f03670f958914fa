import Mathlib.Data.List.MinMax
import Mathlib.Logic.Relation
import PartCAD.Lib.FirstFound
import PartCAD.Lib.Lazy
import PartCAD.Ports.Hierarchy

/-!
# Interfaces that are instantiated when they are first asked for

An interface takes in those that it inherits when something first asks for its ports, its parents or what
it is a drop-in for, and that instantiates them in turn.  The interfaces may inherit each other in a ring.

* `maker` : how interfaces are instantiated;
* `compatibleWith` : what an interface is a drop-in for;
* `complete_iff` : **when that is every interface above by drop-in edges**, whatever was asked before.
-/

namespace PartCAD.Ports.Lineage

open PartCAD.Lib PartCAD.Lib.Maker

variable {L B P : Type}

/-! ## The functions -/

/-- The interfaces of the packages, under their full names.  An interface is found under the names that
stand for it, of which one is its own (`m;size=4.0` stands for `m;size=4`). -/
structure Interfaces (L B P : Type) where
  names : List Str
  declaration : Str → Declaration L B P
  find : Str → Str
  find_name : ∀ n ∈ names, find n = n
  find_mem : ∀ n ∈ names, ∀ c ∈ (declaration n).inherits, find c.1 ∈ names
  unmapped : ∀ n ∈ names, (declaration n).mapped = []

/-- An interface with what it has taken in, and `_compatible_with`. -/
structure Made (L B P : Type) where
  interface : Interface L B P
  compatibleWith : List Str

/-- `compatible_with_parents` -/
def compatibleWithParents (d : Declaration L B P) : Bool :=
  match d.inherits with
  | [(_, config)] => config.single
  | _ => false

/-- The instances make a port that is not there yet. -/
def changesSize (ports : Dict Str (InterfacePort L B)) (inherit : InterfaceInherits L) : Bool :=
  inherit.instances.keys.any fun i => ports.keys.any fun p => inheritedPortName i p ∉ ports.keys

variable [One L] [Mul L] (h : Interfaces L B P) (drawn : Str → B)

/-- One turn of the loop over the section.  The ports of the parent are iterated over, which breaks off
where the interface is its own parent and gets another port. -/
def adopt (self : Str) (c : Str × InheritConfig L) (own parent : Made L B P) : Option (Made L B P) :=
  let inherit := makeInherits c.1 c.2 own.interface.ports
  if h.find c.1 = self ∧ changesSize parent.interface.ports inherit then none
  else some
    { interface := adoptInherit (fun _ => parent.interface) drawn
        (h.declaration self).params.keys own.interface inherit
      compatibleWith :=
        if compatibleWithParents (h.declaration self) then own.compatibleWith.insert c.1
        else own.compatibleWith }

/-- `instantiate()`.  The parent is asked for its ports once there is an instance. -/
def maker : Maker Str (Made L B P) (Str × InheritConfig L) where
  entries name := (h.declaration name).inherits
  target c := h.find c.1
  asks c := !c.2.normalized.items.isEmpty
  bare name := ⟨(h.declaration name).bare, []⟩
  take := adopt h drawn

/-- What has been instantiated. -/
abbrev State (L B P : Type) := Str → Option (Made L B P)

/-- What `get_ports`, `get_parents` and the closure do first: the interface is instantiated unless that
has been begun. -/
def ensure (name : Str) (st : State L B P) : Except Stop (State L B P) :=
  (maker h drawn).make h.names.length name st

/-- `_compatible_closure(seen)`, with the names seen and the interfaces afterwards.  The number bounds the
depth. -/
def compatibleClosure : ℕ → Str → List Str → State L B P →
    Except Stop (List Str × List Str × State L B P)
  | 0, _, _, _ => .error .deep
  | n + 1, name, seen, st =>
    ensure h drawn name st >>= fun st =>
      if name ∈ seen then .ok ([], seen, st)
      else
        let obj := (maker h drawn).value st name
        obj.compatibleWith.foldlM
          (fun (closure, seen, st) ref =>
            if ref ∈ obj.interface.inherits.keys then
              compatibleClosure n (h.find ref) seen st >>= fun up => .ok (closure ++ up.1, up.2)
            else .ok (closure, seen, st))
          (obj.compatibleWith, name :: seen, st)

/-- `compatible_with`, with the interfaces afterwards. -/
def compatibleWith (name : Str) (st : State L B P) :
    Except Stop (List Str × List Str × State L B P) :=
  compatibleClosure h drawn (h.names.length + 1) name [] st

/-- What may be asked of an interface. -/
inductive Ask where
  | ports (name : Str)
  | parents (name : Str)
  | compatible (name : Str)

/-- Of which interface. -/
def Ask.name : Ask → Str
  | .ports name => name
  | .parents name => name
  | .compatible name => name

def ask (st : State L B P) : Ask → Except Stop (State L B P)
  | .ports name => ensure h drawn name st
  | .parents name => ensure h drawn name st
  | .compatible name => compatibleWith h drawn name st >>= fun r => .ok r.2.2

/-! ## Drop-in edges -/

omit [One L] [Mul L] in
/-- A section asks for exactly one instance. -/
def Once (config : InheritConfig L) : Prop := config.normalized.items.length = 1

omit [One L] [Mul L] in
/-- An interface inherits exactly one interface, exactly once. -/
def DropIn (a b : Str) : Prop :=
  ∃ ref config, (h.declaration a).inherits = [(ref, config)] ∧ Once config ∧ b = h.find ref

/-- Whatever was asked before, `compatible_with` of any interface gives those that drop-in edges lead to. -/
def Complete : Prop :=
  ∀ asks : List Ask, (∀ a ∈ asks, a.name ∈ h.names) → ∀ name ∈ h.names,
    ∃ st closure seen st', asks.foldlM (ask h drawn) (fun _ => none) = .ok st ∧
      compatibleWith h drawn name st = .ok (closure, seen, st') ∧
        ∀ b, b ∈ closure ↔ Relation.TransGen (DropIn h) name b

/-- An interface without a port. -/
def Portless (v : Made L B P) : Prop := v.interface.ports.items = []

/-- One of the instances has a name. -/
def Named (c : Str × InheritConfig L) : Prop := ∃ i ∈ c.2.normalized.keys, i ≠ []

/-- What the interfaces need for `Complete`. -/
structure Sound : Prop where
  /-- One instance counts as one. -/
  counted : ∀ n ∈ h.names, ∀ ref config, (h.declaration n).inherits = [(ref, config)] → Once config →
    config.single = true
  /-- A drop-in edge spells its interface as it is registered. -/
  spelled : ∀ n ∈ h.names, ∀ ref config, (h.declaration n).inherits = [(ref, config)] → Once config →
    h.find ref = ref
  /-- No interface takes itself in under a name when it has a port by then. -/
  still : ∀ n ∈ h.names, (maker h drawn).Still Portless Named n

/-! ## One interface taken in -/

section

omit [One L] [Mul L]

theorem items_eq_nil_iff {κ α : Type} {d : Dict κ α} : d.items = [] ↔ ∀ k, k ∉ d.keys := by
  rw [← List.map_eq_nil_iff (f := Prod.fst), List.eq_nil_iff_forall_not_mem]
  rfl

theorem items_setAll_eq_nil {κ α : Type} [DecidableEq κ] {d : Dict κ α} {ps : List (κ × α)} :
    (d.setAll ps).items = [] ↔ d.items = [] ∧ ps = [] := by
  rw [items_eq_nil_iff, items_eq_nil_iff]
  constructor
  · intro hnil
    refine ⟨fun k hk => hnil k (Dict.mem_keys_setAll.2 (.inr hk)), ?_⟩
    refine List.eq_nil_iff_forall_not_mem.2 fun p hp => hnil p.1 (Dict.mem_keys_setAll.2 (.inl ?_))
    exact List.mem_map_of_mem hp
  · rintro ⟨hd, rfl⟩ k hk
    exact hd k hk

/-- Under a name, a port gets a longer name. -/
theorem length_lt_inheritedPortName {i : Str} (hi : i ≠ []) (p : Str) :
    p.length < (inheritedPortName i p).length := by
  rw [inheritedPortName, if_pos hi, List.length_append, List.length_cons]
  omega

/-- A port with a name makes one that is not there: that of the longest name. -/
theorem changesSize_iff {ports : Dict Str (InterfacePort L B)} {inherit : InterfaceInherits L} :
    changesSize ports inherit = true ↔ (∃ i ∈ inherit.instances.keys, i ≠ []) ∧ ports.items ≠ [] := by
  unfold changesSize
  simp only [List.any_eq_true, decide_eq_true_eq]
  constructor
  · rintro ⟨i, hi, p, hp, hnew⟩
    refine ⟨⟨i, hi, ?_⟩, fun hnil => items_eq_nil_iff.1 hnil p hp⟩
    rintro rfl
    exact hnew hp
  · rintro ⟨⟨i, hi, hne⟩, hports⟩
    refine ⟨i, hi, ?_⟩
    have hkeys : ports.keys ≠ [] := fun hnil => hports (List.map_eq_nil_iff.1 hnil)
    cases hmax : List.argmax List.length ports.keys with
    | none => exact absurd (List.argmax_eq_none.1 hmax) hkeys
    | some p =>
      refine ⟨p, List.argmax_mem hmax, fun hmem => ?_⟩
      have hle := List.le_of_mem_argmax hmem hmax
      have hlt := length_lt_inheritedPortName hne p
      omega

theorem once_of_single {config : InheritConfig L} (hsingle : config.single = true) : Once config := by
  cases config with
  | omitted => rfl
  | named instanceName => rfl
  | located location => cases hsingle
  | listed instanceNames =>
    obtain ⟨i, rfl⟩ := List.length_eq_one_iff.1 (of_decide_eq_true hsingle)
    rfl
  | instances config =>
    show config.items.length = 1
    exact of_decide_eq_true hsingle

theorem compatibleWithParents_iff {d : Declaration L B P} : compatibleWithParents d = true ↔
    ∃ ref config, d.inherits = [(ref, config)] ∧ config.single = true := by
  unfold compatibleWithParents
  split
  · rename_i ref config hinherits
    constructor
    · intro hsingle
      exact ⟨ref, config, hinherits, hsingle⟩
    · rintro ⟨ref', config', hinherits', hsingle⟩
      rw [hinherits] at hinherits'
      obtain ⟨-, rfl⟩ := Prod.mk.inj (List.singleton_inj.1 hinherits')
      exact hsingle
  · rename_i hnot
    constructor
    · intro h
      cases h
    · rintro ⟨ref, config, hinherits, -⟩
      exact absurd hinherits (hnot ref config)

end

variable {h drawn}

omit [Mul L] in
theorem keys_makeInherits (c : Str × InheritConfig L) (ports : Dict Str (InterfacePort L B)) :
    (makeInherits c.1 c.2 ports).instances.keys = c.2.normalized.keys := by
  unfold makeInherits Dict.keys Dict.mapValues
  rw [List.map_map]
  rfl

theorem adopt_eq_none {self : Str} {c : Str × InheritConfig L} {own parent : Made L B P} :
    adopt h drawn self c own parent = none ↔ h.find c.1 = self ∧ Named c ∧ ¬ Portless parent := by
  have hchanges : changesSize parent.interface.ports (makeInherits c.1 c.2 own.interface.ports) = true ↔
      Named c ∧ ¬ Portless parent := by
    rw [changesSize_iff, keys_makeInherits]
    rfl
  rw [← hchanges]
  unfold adopt
  dsimp only
  split
  · rename_i hself
    exact iff_of_true rfl hself
  · rename_i hself
    exact iff_of_false (fun h => by cases h) hself

/-- What one entry adds. -/
theorem adopt_eq_some {self : Str} {c : Str × InheritConfig L} {own parent v : Made L B P}
    (hv : adopt h drawn self c own parent = some v) :
    v.interface = adoptInherit (fun _ => parent.interface) drawn (h.declaration self).params.keys
        own.interface (makeInherits c.1 c.2 own.interface.ports) ∧
      v.compatibleWith = if compatibleWithParents (h.declaration self) then own.compatibleWith.insert c.1
        else own.compatibleWith := by
  unfold adopt at hv
  dsimp only at hv
  split at hv
  · cases hv
  · cases hv
    exact ⟨rfl, rfl⟩

/-- An interface gets a port from a parent that has one, if it is asked. -/
theorem portless_adopt_iff {self : Str} {c : Str × InheritConfig L} {own parent v : Made L B P}
    (hv : adopt h drawn self c own parent = some v) : Portless v ↔
      Portless own ∧ ((maker h drawn).asks c = true → Portless parent) := by
  unfold Portless
  rw [(adopt_eq_some hv).1, adoptInherit]
  dsimp only
  rw [items_setAll_eq_nil]
  refine and_congr Iff.rfl ?_
  have hasks : (maker h drawn).asks c = true ↔ c.2.normalized.items ≠ [] := by
    show (!c.2.normalized.items.isEmpty) = true ↔ _
    rw [Bool.not_eq_true', List.isEmpty_eq_false_iff]
  have hinstances : (makeInherits c.1 c.2 own.interface.ports).instances.items = [] ↔
      c.2.normalized.items = [] := List.map_eq_nil_iff
  rw [hasks, inheritedPorts, List.flatMap_eq_nil_iff]
  simp only [List.map_eq_nil_iff]
  constructor
  · intro hnil hne
    obtain ⟨i, hi⟩ := List.exists_mem_of_ne_nil _ (mt hinstances.1 hne)
    exact hnil i hi
  · intro hnil i hi
    refine hnil fun hitems => ?_
    rw [hinstances.2 hitems] at hi
    cases hi

theorem refusing : (maker h drawn).Refusing Portless Named where
  spreads := portless_adopt_iff
  refuses := adopt_eq_none

omit [One L] [Mul L] in
theorem keys_recordInherit (inherits : Dict Str (InterfaceInherits L)) (inherit : InterfaceInherits L) :
    (recordInherit inherits inherit).1.keys =
      if inherit.name ∈ inherits.keys then inherits.keys else inherits.keys ++ [inherit.name] := by
  have hset : ∀ v, (inherits.set inherit.name v).keys =
      if inherit.name ∈ inherits.keys then inherits.keys else inherits.keys ++ [inherit.name] := by
    intro v
    have hkeys := keys_setItem inherit.name v inherits.items
    split
    · rename_i hmem
      exact hkeys.trans (if_pos hmem)
    · rename_i hmem
      exact hkeys.trans (if_neg hmem)
  unfold recordInherit
  split
  · exact hset _
  · exact hset _

/-- The names of the interfaces in a section, as they come first. -/
def refsOf (entries : List (Str × InheritConfig L)) : List Str :=
  entries.foldl (fun refs c => if c.1 ∈ refs then refs else refs ++ [c.1]) []

omit [One L] [Mul L] in
theorem refsOf_append (front : List (Str × InheritConfig L)) (c : Str × InheritConfig L) :
    refsOf (front ++ [c]) = if c.1 ∈ refsOf front then refsOf front else refsOf front ++ [c.1] :=
  List.foldl_append

omit [One L] [Mul L] in
theorem mem_refsOf {entries : List (Str × InheritConfig L)} {ref : Str} :
    ref ∈ refsOf entries ↔ ref ∈ entries.map Prod.fst := by
  induction entries using List.reverseRecOn with
  | nil => rfl
  | append_singleton front c ih =>
    rw [refsOf_append, List.map_append, List.mem_append, ← ih, List.map_singleton, List.mem_singleton]
    split
    · rename_i hmem
      constructor
      · exact .inl
      · rintro (h | rfl)
        · exact h
        · exact hmem
    · rw [List.mem_append, List.mem_singleton]

/-- What an interface has when its section is through, up to some entries. -/
def TakenIn (h : Interfaces L B P) (name : Str) (front : List (Str × InheritConfig L))
    (v : Made L B P) : Prop :=
  v.compatibleWith = (if compatibleWithParents (h.declaration name) then front.map Prod.fst else []) ∧
    v.interface.inherits.keys = refsOf front

theorem takenIn_bare (name : Str) : TakenIn h name [] ((maker h drawn).bare name) := by
  refine ⟨?_, rfl⟩
  rw [List.map_nil, ite_self]
  rfl

theorem takenIn_take (name : Str) (front : List (Str × InheritConfig L)) (c : Str × InheritConfig L)
    (back : List (Str × InheritConfig L)) (v w v' : Made L B P)
    (hentries : (maker h drawn).entries name = front ++ c :: back) (hv : TakenIn h name front v)
    (htake : (maker h drawn).take name c v w = some v') : TakenIn h name (front ++ [c]) v' := by
  obtain ⟨hinterface, hcompatible⟩ := adopt_eq_some htake
  obtain ⟨hown, hkeys⟩ := hv
  refine ⟨?_, ?_⟩
  · rw [hcompatible, hown]
    split
    · rename_i hparents
      -- the section has one entry
      obtain ⟨ref, config, hinherits, -⟩ := compatibleWithParents_iff.1 hparents
      have hlength := congrArg List.length (hentries.symm.trans hinherits)
      rw [List.length_append, List.length_cons, List.length_singleton] at hlength
      obtain rfl := List.eq_nil_of_length_eq_zero (l := front) (by omega)
      rfl
    · rfl
  · have hrecord : v'.interface.inherits =
        (recordInherit v.interface.inherits (makeInherits c.1 c.2 v.interface.ports)).1 := by
      rw [hinterface]
      rfl
    rw [hrecord, keys_recordInherit, hkeys, refsOf_append]
    rfl

/-! ## Any order of instantiation -/

/-- What holds after anything was asked. -/
structure Reached (h : Interfaces L B P) (drawn : Str → B) (st : State L B P) : Prop where
  finished : (maker h drawn).Finished (TakenIn h) st
  traced : ∀ a, (maker h drawn).Traced Portless a st

theorem reached_fresh : Reached h drawn fun _ => none where
  finished := fun _ _ hmade => by cases hmade
  traced := fun _ _ _ _ _ hmade => by cases hmade

theorem Reached.ensure {st st' : State L B P} (hst : Reached h drawn st) {name : Str}
    (hensure : ensure h drawn name st = .ok st') :
    Reached h drawn st' ∧ ∃ v, st' name = some v ∧ TakenIn h name (h.declaration name).inherits v := by
  obtain ⟨hfinished, v, hv⟩ := hst.finished.make takenIn_bare takenIn_take hensure
  exact ⟨⟨hfinished, fun a => (hst.traced a).make refusing hensure⟩, v, hv, hfinished name v hv⟩

/-- An interface is instantiated whatever was asked before. -/
theorem exists_ensure (hstill : ∀ n ∈ h.names, (maker h drawn).Still Portless Named n) {st : State L B P}
    (hst : Reached h drawn st) {name : Str} (hname : name ∈ h.names) :
    ∃ st', ensure h drawn name st = .ok st' := by
  cases hensure : Lineage.ensure h drawn name st with
  | ok st' => exact ⟨st', rfl⟩
  | error e =>
    cases e with
    | deep => exact absurd hensure (make_ne_deep h.find_mem hname (List.length_filter_le _ _))
    | refused => exact absurd hensure (make_ne_refused refusing h.find_mem hstill hname hst.traced)

/-- What the closure gives: it has what the drop-in edges of the interfaces that it has gone through lead
to, and nothing else. -/
structure ClosureOf (h : Interfaces L B P) (name : Str) (seen closure seen' : List Str) : Prop where
  mem : name ∈ seen'
  kept : seen ⊆ seen'
  through : ∀ y ∈ seen', y ∉ seen → ∀ z, DropIn h y z → z ∈ closure ∧ z ∈ seen'
  above : ∀ b ∈ closure, Relation.TransGen (DropIn h) name b

theorem Sound.compatibleClosure (hsound : Sound h drawn) {n : ℕ} {name : Str} (hname : name ∈ h.names)
    (seen : List Str) {st : State L B P} (hst : Reached h drawn st) (hn : FirstFound.unseen h.names seen < n) :
    ∃ closure seen' st', compatibleClosure h drawn n name seen st = .ok (closure, seen', st') ∧
      Reached h drawn st' ∧ ClosureOf h name seen closure seen' := by
  induction n generalizing name seen st with
  | zero => omega
  | succ n ih =>
    obtain ⟨st₁, hensure⟩ := exists_ensure hsound.still hst hname
    obtain ⟨hst₁, v, hv, hcompatible, hkeys⟩ := hst.ensure hensure
    by_cases hseen : name ∈ seen
    · refine ⟨[], seen, st₁, ?_, hst₁, hseen, fun y hy => hy, fun y hy hnew => absurd hy hnew, fun b hb => ?_⟩
      · rw [Lineage.compatibleClosure, hensure]
        exact if_pos hseen
      · cases hb
    · have hclosure : Lineage.compatibleClosure h drawn (n + 1) name seen st =
          v.compatibleWith.foldlM
            (fun (closure, seen, st) ref =>
              if ref ∈ v.interface.inherits.keys then
                Lineage.compatibleClosure h drawn n (h.find ref) seen st >>= fun up =>
                  .ok (closure ++ up.1, up.2)
              else .ok (closure, seen, st))
            (v.compatibleWith, name :: seen, st₁) := by
        rw [Lineage.compatibleClosure, hensure]
        refine (if_neg hseen).trans ?_
        rw [value_of_eq hv]
      rw [hclosure, hcompatible]
      by_cases hparents : compatibleWithParents (h.declaration name) = true
      · obtain ⟨ref, config, hinherits, hsingle⟩ := compatibleWithParents_iff.1 hparents
        have hspelled := hsound.spelled name hname ref config hinherits (once_of_single hsingle)
        have hedge : DropIn h name ref := ⟨ref, config, hinherits, once_of_single hsingle, hspelled.symm⟩
        have hmem : h.find ref ∈ h.names := by
          refine h.find_mem name hname (ref, config) ?_
          rw [hinherits]
          exact List.mem_singleton_self _
        have hlt := FirstFound.unseen_cons_lt hname hseen
        obtain ⟨closure, seen', st', hup, hst', hof⟩ :=
          ih hmem (name :: seen) hst₁ (by omega)
        have hkey : ref ∈ v.interface.inherits.keys := by
          rw [hkeys, mem_refsOf, hinherits]
          exact List.mem_singleton_self ref
        refine ⟨[ref] ++ closure, seen', st', ?_, hst', ?_⟩
        · rw [if_pos hparents, hinherits, List.map_singleton, List.foldlM_cons]
          dsimp only
          rw [if_pos hkey, hup]
          rfl
        · rw [hspelled] at hof
          refine ⟨hof.kept List.mem_cons_self, fun y hy => hof.kept (List.mem_cons_of_mem _ hy), ?_, ?_⟩
          · intro y hy hnew z hz
            by_cases hyname : y = name
            · subst hyname
              obtain ⟨ref', config', hinherits', -, rfl⟩ := hz
              obtain ⟨rfl, -⟩ := Prod.mk.inj (List.singleton_inj.1 (hinherits.symm.trans hinherits'))
              rw [hspelled]
              exact ⟨List.mem_cons_self, hof.mem⟩
            · obtain ⟨hz₁, hz₂⟩ := hof.through y hy (by simp [hyname, hnew]) z hz
              exact ⟨List.mem_cons_of_mem _ hz₁, hz₂⟩
          · intro b hb
            rcases List.mem_cons.1 hb with rfl | hb
            · exact .single hedge
            · exact .head hedge (hof.above b hb)
      · refine ⟨[], name :: seen, st₁, ?_, hst₁, List.mem_cons_self, fun y hy => List.mem_cons_of_mem _ hy,
          fun y hy hnew z hz => ?_, fun b hb => ?_⟩
        · rw [if_neg hparents]
          rfl
        · obtain rfl := (List.mem_cons.1 hy).resolve_right hnew
          obtain ⟨ref, config, hinherits, honce, -⟩ := hz
          have hsingle := hsound.counted y hname ref config hinherits honce
          exact absurd (compatibleWithParents_iff.2 ⟨ref, config, hinherits, hsingle⟩) hparents
        · cases hb

theorem Sound.ask (hsound : Sound h drawn) {st : State L B P} (hst : Reached h drawn st) {a : Ask}
    (ha : a.name ∈ h.names) : ∃ st', ask h drawn st a = .ok st' ∧ Reached h drawn st' := by
  have hensure : ∀ name ∈ h.names, ∃ st', Lineage.ensure h drawn name st = .ok st' ∧
      Reached h drawn st' := by
    intro name hname
    obtain ⟨st', hst'⟩ := exists_ensure hsound.still hst hname
    exact ⟨st', hst', (hst.ensure hst').1⟩
  cases a with
  | ports name => exact hensure name ha
  | parents name => exact hensure name ha
  | compatible name =>
    obtain ⟨closure, seen', st', hclosure, hst', -⟩ :=
      hsound.compatibleClosure ha [] hst (Nat.lt_succ_of_le (List.length_filter_le _ _))
    refine ⟨st', ?_, hst'⟩
    show compatibleWith h drawn name st >>= _ = _
    rw [show compatibleWith h drawn name st = .ok (closure, seen', st') from hclosure]
    rfl

theorem Sound.asks (hsound : Sound h drawn) {asks : List Ask} (hasks : ∀ a ∈ asks, a.name ∈ h.names)
    {st : State L B P} (hst : Reached h drawn st) :
    ∃ st', asks.foldlM (Lineage.ask h drawn) st = .ok st' ∧ Reached h drawn st' := by
  induction asks generalizing st with
  | nil => exact ⟨st, rfl, hst⟩
  | cons a asks ih =>
    rw [List.forall_mem_cons] at hasks
    obtain ⟨st₁, ha, hst₁⟩ := hsound.ask hst hasks.1
    obtain ⟨st', hrest, hst'⟩ := ih hasks.2 hst₁
    refine ⟨st', ?_, hst'⟩
    rw [List.foldlM_cons, ha]
    exact hrest

omit [One L] [Mul L] in
/-- From nothing seen, all that drop-in edges lead to. -/
theorem ClosureOf.mem_iff {name : Str} {closure seen' : List Str}
    (hof : ClosureOf h name [] closure seen') (b : Str) :
    b ∈ closure ↔ Relation.TransGen (DropIn h) name b := by
  constructor
  · exact hof.above b
  · intro hpath
    have hboth : b ∈ closure ∧ b ∈ seen' := by
      induction hpath with
      | single hedge => exact hof.through name hof.mem (List.not_mem_nil) _ hedge
      | tail _ hedge ih => exact hof.through _ ih.2 (List.not_mem_nil) _ hedge
    exact hboth.1

/-! ## What goes wrong -/

/-- The names in `_compatible_with` of an interface are in its closure, which is empty without them. -/
theorem closure_of_compatibleWith {name : Str} {closure seen' : List Str}
    {st' : State L B P}
    (hclosure : compatibleWith h drawn name (fun _ => none) = .ok (closure, seen', st')) :
    (∃ st, ensure h drawn name (fun _ => none) = .ok st) ∧
      if compatibleWithParents (h.declaration name) then
        ∀ c ∈ (h.declaration name).inherits, c.1 ∈ closure
      else closure = [] := by
  rw [compatibleWith, compatibleClosure, bind_eq_ok] at hclosure
  obtain ⟨st, hensure, hfold⟩ := hclosure
  obtain ⟨-, v, hv, hcompatible, -⟩ := reached_fresh.ensure hensure
  refine ⟨⟨st, hensure⟩, ?_⟩
  rw [if_neg List.not_mem_nil, value_of_eq hv] at hfold
  dsimp only at hfold
  rw [hcompatible] at hfold
  split
  · rename_i hparents
    obtain ⟨ref, config, hinherits, -⟩ := compatibleWithParents_iff.1 hparents
    rw [if_pos hparents, hinherits, List.map_singleton, List.foldlM_cons, bind_eq_ok] at hfold
    obtain ⟨⟨closure₁, seen₁, st₁⟩, hstep, hrest⟩ := hfold
    have hmem : ref ∈ closure₁ := by
      dsimp only at hstep
      split at hstep
      · obtain ⟨⟨up, seen₂, st₂⟩, -, hup⟩ := bind_eq_ok.1 hstep
        cases hup
        exact List.mem_cons_self
      · cases hstep
        exact List.mem_singleton_self ref
    cases hrest
    intro c hc
    rw [hinherits] at hc
    obtain rfl := List.mem_singleton.1 hc
    exact hmem
  · rename_i hparents
    rw [if_neg hparents] at hfold
    cases hfold
    rfl

theorem Complete.sound (hcomplete : Complete h drawn) : Sound h drawn := by
  have hfirst : ∀ name ∈ h.names, (∃ st, ensure h drawn name (fun _ => none) = .ok st) ∧
      ∃ closure, (∀ b, b ∈ closure ↔ Relation.TransGen (DropIn h) name b) ∧
        if compatibleWithParents (h.declaration name) then
          ∀ c ∈ (h.declaration name).inherits, c.1 ∈ closure
        else closure = [] := by
    intro name hname
    obtain ⟨st, closure, seen, st', hasks, hclosure, hmem⟩ :=
      hcomplete [] (fun a ha => by cases ha) name hname
    cases hasks
    obtain ⟨hensure, hcompatible⟩ := closure_of_compatibleWith hclosure
    exact ⟨hensure, closure, hmem, hcompatible⟩
  have hcounted : ∀ n ∈ h.names, ∀ ref config, (h.declaration n).inherits = [(ref, config)] →
      Once config → compatibleWithParents (h.declaration n) = true := by
    intro n hn ref config hinherits honce
    obtain ⟨-, closure, hmem, hcompatible⟩ := hfirst n hn
    by_contra hparents
    rw [if_neg hparents] at hcompatible
    have hedge := (hmem (h.find ref)).2 (.single ⟨ref, config, hinherits, honce, rfl⟩)
    rw [hcompatible] at hedge
    cases hedge
  refine ⟨fun n hn ref config hinherits honce => ?_, fun n hn ref config hinherits honce => ?_, ?_⟩
  · obtain ⟨ref', config', hinherits', hsingle⟩ :=
      compatibleWithParents_iff.1 (hcounted n hn ref config hinherits honce)
    obtain ⟨-, rfl⟩ := Prod.mk.inj (List.singleton_inj.1 (hinherits'.symm.trans hinherits))
    exact hsingle
  · obtain ⟨-, closure, hmem, hcompatible⟩ := hfirst n hn
    rw [if_pos (hcounted n hn ref config hinherits honce), hinherits] at hcompatible
    -- what drop-in edges lead to is spelled as it is registered
    have hreach := (hmem ref).1 (hcompatible _ (List.mem_singleton_self _))
    have hregistered : ∀ b, Relation.TransGen (DropIn h) n b → b ∈ h.names := by
      intro b hb
      induction hb with
      | single hedge =>
        obtain ⟨ref', config', hinherits', -, rfl⟩ := hedge
        exact h.find_mem n hn (ref', config') (by rw [hinherits']; exact List.mem_singleton_self _)
      | @tail a b _ hedge ih =>
        obtain ⟨ref', config', hinherits', -, rfl⟩ := hedge
        exact h.find_mem a ih (ref', config') (by rw [hinherits']; exact List.mem_singleton_self _)
    exact h.find_name ref (hregistered ref hreach)
  · intro n hn front c back hentries hself hnamed hloud
    obtain ⟨⟨st, hensure⟩, -⟩ := hfirst n hn
    exact make_ne_ok_of_loud refusing hentries hself hnamed hloud st hensure

/-- **What an interface is a drop-in for** is every interface above by drop-in edges, whatever was asked
before, just when one instance counts as one, a drop-in edge spells its interface as it is registered, and
no interface takes itself in under a name when it has a port. -/
theorem complete_iff (h : Interfaces L B P) (drawn : Str → B) : Complete h drawn ↔ Sound h drawn := by
  constructor
  · exact Complete.sound
  · intro hsound asks hasks name hname
    obtain ⟨st, hst, hreached⟩ := hsound.asks hasks reached_fresh
    obtain ⟨closure, seen', st', hclosure, -, hof⟩ := hsound.compatibleClosure hname []
      hreached (Nat.lt_succ_of_le (List.length_filter_le _ _))
    exact ⟨st, closure, seen', st', hst, hclosure, hof.mem_iff⟩

/-! ## A screw in a hole -/

/-- `m3-screw` is `m3`, 5 mm up. -/
def screws : Interfaces (Multiplicative ℤ) Unit Unit where
  names := ["m3".toList, "m3-screw".toList]
  declaration name :=
    { ports := Dict.empty.set "hole".toList ⟨none, ()⟩
      params := Dict.empty
      mapped := []
      inherits :=
        if name = "m3-screw".toList then [("m3".toList, .located (Multiplicative.ofAdd 5))] else []
      abstract := false }
  find name := name
  find_name _ _ := rfl
  find_mem := by
    intro n hn c hc
    dsimp only at hc
    split at hc
    · obtain rfl := List.mem_singleton.1 hc
      decide
    · cases hc
  unmapped _ _ := rfl

/-- The three parts of a location count as three instances. -/
theorem not_complete_screws : ¬ Complete screws fun _ => () := by
  intro h
  have hcounted := h.sound.counted "m3-screw".toList (by decide) "m3".toList
    (.located (Multiplicative.ofAdd 5)) rfl rfl
  cases hcounted

end PartCAD.Ports.Lineage
