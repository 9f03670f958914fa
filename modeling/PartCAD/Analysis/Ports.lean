import PartCAD.Analysis.Config

/-!
# Ports with boundary conditions

The conditions that a part declares are attached to the records of its ports.  A declaration names an
interface by its short or its qualified name, and both can name one interface.

* `assignPorts` : the loops over the records and the declarations, and the report;
* `assignPorts_fst` : a record at a time;
* `mem_matched` : which declarations are counted as used;
* `assignPorts_assigns` : **every record gets the conditions that name it, in every order**.
-/

namespace PartCAD.Cae

open PartCAD.Lib PartCAD.Lib.Text

/-! ## Records -/

/-- The part of a port that the conditions are about, and the rest of it. -/
structure Record (P : Type) where
  interface : Option Str
  named : Option Str
  rest : P

/-- `record.get("instance") or ""` -/
def Record.instanceOf {P : Type} (record : Record P) : Str := record.named.getD []

/-- A record with what is attached to it so far. -/
structure Entry (P : Type) where
  record : Record P
  fix : Option Bool
  load : Option ℚ
  outlet : Option Bool

/-- `dict(record)` -/
def Entry.ofRecord {P : Type} (record : Record P) : Entry P := ⟨record, none, none, none⟩

/-- The kind of a declaration. -/
inductive Key where
  | fix
  | load
  | outlet
  deriving DecidableEq, Repr

/-- `_matches` -/
def interfaceMatches (recordInterface : Option Str) (declaredName : Str) : Bool :=
  match recordInterface with
  | none => false
  | some interface =>
    if interface = declaredName then true
    else if ':' ∈ declaredName then false
    else decide ((partition ':' interface.reverse).1.reverse = declaredName)

/-- `AnalysisConfig.interfaces` -/
def AnalysisConfig.interfaces (config : AnalysisConfig) : List Str :=
  let names := config.fixtures.keys
  let names := names ++ config.loads.keys.filter (· ∉ names)
  names ++ config.outlets.keys.filter (· ∉ names)

/-- A declaration counted as used: its kind, its interface and an instance that it names. -/
abbrev Use : Type := Key × Str × Str

/-! ## Loops -/

section

variable {P : Type}

/-- One declaration of instances, for one record. -/
def nameInstances (key : Key) (mark : Entry P → Entry P) (record : Record P)
    (s : Option (Entry P) × List Use) (p : Str × List Str) : Option (Entry P) × List Use :=
  if interfaceMatches record.interface p.1 then
    match [everyInstance, record.instanceOf].filter (· ∈ p.2) with
    | [] => s
    | held => (some (mark (s.1.getD (.ofRecord record))), s.2 ++ held.map fun one => (key, p.1, one))
  else s

/-- One declaration of loads, for one record. -/
def nameLoads (record : Record P) (s : Option (Entry P) × List Use) (p : Str × Dict Str ℚ) :
    Option (Entry P) × List Use :=
  if interfaceMatches record.interface p.1 then
    let declared := if record.instanceOf ∈ p.2.keys then record.instanceOf else everyInstance
    match p.2.get? declared with
    | none => s
    | some amount =>
      (some { s.1.getD (.ofRecord record) with load := some amount }, s.2 ++ [(.load, p.1, declared)])
  else s

/-- `entry["fix"] = True` -/
def Entry.hold (entry : Entry P) : Entry P := { entry with fix := some true }

/-- `entry["outlet"] = True` -/
def Entry.open (entry : Entry P) : Entry P := { entry with outlet := some true }

/-- The defaults of an entry. -/
def finish (config : AnalysisConfig) (entry : Entry P) : Entry P where
  record := entry.record
  fix := some (entry.fix.getD false)
  load := some (entry.load.getD 0)
  outlet := if config.outlets.items = [] then entry.outlet else some (entry.outlet.getD false)

/-- What is known after some of the records. -/
structure Progress (P : Type) where
  assigned : List (Entry P)
  matched : List Use
  seen : List Str

/-- One record. -/
def assignRecord (config : AnalysisConfig) (s : Progress P) (record : Record P) : Progress P :=
  let seen := s.seen ++ config.interfaces.filter (interfaceMatches record.interface)
  let held := config.fixtures.items.foldl (nameInstances .fix Entry.hold record) (none, s.matched)
  let loaded := config.loads.items.foldl (nameLoads record) held
  let opened := config.outlets.items.foldl (nameInstances .outlet Entry.open record) loaded
  { assigned := s.assigned ++ (opened.1.map (finish config)).toList, matched := opened.2, seen }

/-- A declaration: its kind, its interface and the instances that it names. -/
structure Declaration where
  key : Key
  name : Str
  wanted : List Str

def AnalysisConfig.declarations (config : AnalysisConfig) : List Declaration :=
  config.fixtures.items.map (fun p => ⟨.fix, p.1, p.2⟩) ++
    (config.loads.items.map (fun p => ⟨.load, p.1, p.2.keys⟩) ++
      config.outlets.items.map fun p => ⟨.outlet, p.1, p.2⟩)

/-- What is said of a declaration that is not used, if it is not. -/
def reasonOf (matched : List Use) (seen : List Str) (d : Declaration) : Option Str :=
  let missing := d.wanted.filter fun one => (d.key, d.name, one) ∉ matched
  if missing = [] then none
  else if d.name ∉ seen then some "this object does not implement it".toList
  else
    let named := commas ((missing.filter (· ≠ everyInstance)).insertionSort (· ≤ ·))
    some (if named ≠ [] then "no instance named ".toList ++ named else "it names no instance of it".toList)

/-- `assign_ports` -/
def assignPorts (config : AnalysisConfig) (records : List (Record P)) :
    List (Entry P) × List (Str × Str) :=
  let s := records.foldl (assignRecord config) ⟨[], [], []⟩
  (s.assigned, config.declarations.filterMap fun d => (reasonOf s.matched s.seen d).map fun r => (d.name, r))

/-! ## A record at a time -/

/-- The declarations name the record, or every instance of its interface. -/
def NamedBy (declared : List (Str × List Str)) (record : Record P) : Prop :=
  ∃ p ∈ declared, interfaceMatches record.interface p.1 ∧ (everyInstance ∈ p.2 ∨ record.instanceOf ∈ p.2)

instance (declared : List (Str × List Str)) : DecidablePred (NamedBy (P := P) declared) := fun _ =>
  inferInstanceAs (Decidable (∃ _, _))

/-- The load that one declaration gives a record: the one of its instance before that of all. -/
def amount (record : Record P) (p : Str × Dict Str ℚ) : Option ℚ :=
  if interfaceMatches record.interface p.1 then
    (p.2.get? record.instanceOf).or (p.2.get? everyInstance)
  else none

/-- The loads that the declarations give a record. -/
def amounts (config : AnalysisConfig) (record : Record P) : List ℚ :=
  config.loads.items.filterMap (amount record)

/-- Some declaration names the record. -/
def Named (config : AnalysisConfig) (record : Record P) : Prop :=
  NamedBy config.fixtures.items record ∨ amounts config record ≠ [] ∨ NamedBy config.outlets.items record

instance (config : AnalysisConfig) : DecidablePred (Named (P := P) config) := fun _ =>
  inferInstanceAs (Decidable (_ ∨ _))

/-- What is attached to a record. -/
def entryOf (config : AnalysisConfig) (record : Record P) : Entry P where
  record := record
  fix := some (decide (NamedBy config.fixtures.items record))
  load := some ((amounts config record).getLast?.getD 0)
  outlet := if config.outlets.items = [] then none else some (decide (NamedBy config.outlets.items record))

/-- The instances that a declaration is used for, on one record. -/
def used (record : Record P) (d : Declaration) : List Str :=
  if interfaceMatches record.interface d.name then
    match d.key with
    | .load =>
      [if record.instanceOf ∈ d.wanted then record.instanceOf else everyInstance].filter (· ∈ d.wanted)
    | _ => [everyInstance, record.instanceOf].filter (· ∈ d.wanted)
  else []

variable {config : AnalysisConfig} {record : Record P} {s : Option (Entry P) × List Use}

/-- A declaration as a list of uses. -/
def uses (record : Record P) (d : Declaration) : List Use :=
  (used record d).map fun one => (d.key, d.name, one)

theorem used_instances {key : Key} (hkey : key ≠ .load) (p : Str × List Str) :
    used record ⟨key, p.1, p.2⟩ =
      if interfaceMatches record.interface p.1 then
        [everyInstance, record.instanceOf].filter (· ∈ p.2) else [] := by
  cases key with
  | fix => rfl
  | load => exact absurd rfl hkey
  | outlet => rfl

theorem nameInstances_eq {key : Key} (hkey : key ≠ .load) (mark : Entry P → Entry P) (p : Str × List Str) :
    nameInstances key mark record s p =
      (if interfaceMatches record.interface p.1 ∧ (everyInstance ∈ p.2 ∨ record.instanceOf ∈ p.2) then
          some (mark (s.1.getD (.ofRecord record))) else s.1,
        s.2 ++ uses record ⟨key, p.1, p.2⟩) := by
  have hheld : [everyInstance, record.instanceOf].filter (· ∈ p.2) = [] ↔
      ¬ (everyInstance ∈ p.2 ∨ record.instanceOf ∈ p.2) := by
    simp
  rw [nameInstances, uses, used_instances hkey]
  split
  · rename_i hmatches
    split
    · rename_i hnil
      rw [if_neg fun h => hheld.1 hnil h.2, hnil, List.map_nil, List.append_nil]
    · rename_i hsome
      rw [if_pos ⟨hmatches, not_not.1 fun h => hsome (hheld.2 h)⟩]
  · rename_i hmatches
    rw [if_neg fun h => hmatches h.1, List.map_nil, List.append_nil]

/-- A loop over declarations of instances. -/
theorem foldl_nameInstances {key : Key} (hkey : key ≠ .load) {mark : Entry P → Entry P}
    (hmark : ∀ entry, mark (mark entry) = mark entry) (items : List (Str × List Str)) :
    items.foldl (nameInstances key mark record) s =
      (if NamedBy items record then some (mark (s.1.getD (.ofRecord record))) else s.1,
        s.2 ++ items.flatMap fun p => uses record ⟨key, p.1, p.2⟩) := by
  induction items generalizing s with
  | nil => simp [NamedBy]
  | cons p items ih =>
    rw [List.foldl_cons, ih, nameInstances_eq hkey, List.flatMap_cons, List.append_assoc]
    refine Prod.ext ?_ rfl
    have hcons : NamedBy (p :: items) record ↔
        (interfaceMatches record.interface p.1 ∧ (everyInstance ∈ p.2 ∨ record.instanceOf ∈ p.2)) ∨
          NamedBy items record := by
      simp [NamedBy]
    by_cases hp : interfaceMatches record.interface p.1 ∧ (everyInstance ∈ p.2 ∨ record.instanceOf ∈ p.2)
    · by_cases hitems : NamedBy items record
      · simp [hcons, hp, hitems, hmark]
      · simp [hcons, hp, hitems]
    · simp [hcons, hp]

theorem nameLoads_eq (p : Str × Dict Str ℚ) :
    nameLoads record s p =
      (match amount record p with
        | none => s.1
        | some x => some { s.1.getD (.ofRecord record) with load := some x },
        s.2 ++ uses record ⟨.load, p.1, p.2.keys⟩) := by
  have hkeys : ∀ {k}, k ∈ p.2.keys ↔ (p.2.get? k).isSome := Dict.mem_keys_iff_isSome
  rw [nameLoads, uses, used, amount]
  dsimp only
  split
  · by_cases hown : record.instanceOf ∈ p.2.keys
    · obtain ⟨x, hx⟩ := Option.isSome_iff_exists.1 (hkeys.1 hown)
      simp [hown, hx]
    · have hnone : p.2.get? record.instanceOf = none := by
        rw [← Option.not_isSome_iff_eq_none, ← hkeys]
        exact hown
      cases hwhole : p.2.get? everyInstance with
      | none =>
        have hnot : everyInstance ∉ p.2.keys := by simp [hkeys, hwhole]
        simp [hown, hnone, hwhole, hnot]
      | some x =>
        have hmem : everyInstance ∈ p.2.keys := by simp [hkeys, hwhole]
        simp [hown, hnone, hwhole, hmem]
  · simp

/-- The loop over the declarations of loads. -/
theorem foldl_nameLoads (items : List (Str × Dict Str ℚ)) :
    items.foldl (nameLoads record) s =
      (match (items.filterMap (amount record)).getLast? with
        | none => s.1
        | some x => some { s.1.getD (.ofRecord record) with load := some x },
        s.2 ++ items.flatMap fun p => uses record ⟨.load, p.1, p.2.keys⟩) := by
  induction items generalizing s with
  | nil => simp
  | cons p items ih =>
    rw [List.foldl_cons, ih, nameLoads_eq, List.flatMap_cons, List.append_assoc, List.filterMap_cons]
    refine Prod.ext ?_ rfl
    cases hp : amount record p with
    | none => rfl
    | some x =>
      rw [List.getLast?_cons]
      cases hlast : (items.filterMap (amount record)).getLast? with
      | none => rfl
      | some y => rfl

theorem amounts_ne_nil : amounts config record ≠ [] ↔ ((amounts config record).getLast?).isSome := by
  rw [Ne, ← List.getLast?_eq_none_iff, Option.isSome_iff_ne_none]

/-- What one step does. -/
theorem assignRecord_eq (config : AnalysisConfig) (s : Progress P) (record : Record P) :
    assignRecord config s record =
      { assigned := s.assigned ++ ([record].filter (Named config ·)).map (entryOf config)
        matched := s.matched ++ config.declarations.flatMap (uses record)
        seen := s.seen ++ config.interfaces.filter (interfaceMatches record.interface) } := by
  have hhold : ∀ entry : Entry P, entry.hold.hold = entry.hold := fun _ => rfl
  have hopen : ∀ entry : Entry P, entry.open.open = entry.open := fun _ => rfl
  rw [assignRecord, foldl_nameInstances (by decide) hhold, foldl_nameLoads,
    foldl_nameInstances (by decide) hopen]
  have hmatched : s.matched ++ config.declarations.flatMap (uses record) =
      ((s.matched ++ config.fixtures.items.flatMap fun p => uses record ⟨.fix, p.1, p.2⟩) ++
        config.loads.items.flatMap fun p => uses record ⟨.load, p.1, p.2.keys⟩) ++
        config.outlets.items.flatMap fun p => uses record ⟨.outlet, p.1, p.2⟩ := by
    simp only [AnalysisConfig.declarations, List.flatMap_append, List.flatMap_map, List.append_assoc]
  rw [hmatched]
  dsimp only
  refine congrArg (fun assigned => Progress.mk (s.assigned ++ assigned) _ _) ?_
  have hsome : NamedBy config.outlets.items record → config.outlets.items ≠ [] := by
    rintro ⟨p, hp, -⟩ hnil
    rw [hnil] at hp
    exact absurd hp List.not_mem_nil
  have hnamed : Named config record ↔ NamedBy config.fixtures.items record ∨
      ((amounts config record).getLast?).isSome ∨ NamedBy config.outlets.items record := by
    rw [Named, amounts_ne_nil]
  rw [List.filter_singleton]
  simp only [hnamed]
  have hlast : (config.loads.items.filterMap (amount record)).getLast? = (amounts config record).getLast? :=
    rfl
  rw [hlast]
  -- the entry is there as soon as one of the three loops has named the record
  by_cases hfix : NamedBy config.fixtures.items record <;>
    cases hload : (amounts config record).getLast? <;>
    by_cases houtlet : NamedBy config.outlets.items record <;>
    simp [hfix, hload, houtlet, hsome, finish, entryOf, Entry.hold, Entry.open, Entry.ofRecord]

/-- What all the steps do. -/
theorem foldl_assignRecord (config : AnalysisConfig) (records : List (Record P)) (s : Progress P) :
    records.foldl (assignRecord config) s =
      { assigned := s.assigned ++ (records.filter (Named config ·)).map (entryOf config)
        matched := s.matched ++ records.flatMap fun record => config.declarations.flatMap (uses record)
        seen := s.seen ++
          records.flatMap fun record => config.interfaces.filter (interfaceMatches record.interface) } := by
  induction records generalizing s with
  | nil => simp
  | cons record records ih =>
    have hfilter : (record :: records).filter (Named config ·) =
        [record].filter (Named config ·) ++ records.filter (Named config ·) :=
      List.filter_append [record] records
    rw [List.foldl_cons, ih, assignRecord_eq, hfilter, List.map_append]
    simp only [List.flatMap_cons, List.append_assoc]

theorem assignPorts_fst (config : AnalysisConfig) (records : List (Record P)) :
    (assignPorts config records).1 = (records.filter (Named config ·)).map (entryOf config) := by
  rw [assignPorts, foldl_assignRecord]
  rfl

/-! ## The report -/

/-- The instances of a declaration that it is used for on no record. -/
def missing (records : List (Record P)) (d : Declaration) : List Str :=
  d.wanted.filter fun one => ∀ record ∈ records, one ∉ used record d

/-- What is said of a declaration. -/
def reasonFor (records : List (Record P)) (d : Declaration) : Option Str :=
  if missing records d = [] then none
  else if ∀ record ∈ records, ¬ interfaceMatches record.interface d.name then
    some "this object does not implement it".toList
  else
    let named := commas (((missing records d).filter (· ≠ everyInstance)).insertionSort (· ≤ ·))
    some (if named ≠ [] then "no instance named ".toList ++ named else "it names no instance of it".toList)

theorem mem_interfaces {name : Str} :
    name ∈ config.interfaces ↔
      name ∈ config.fixtures.keys ∨ name ∈ config.loads.keys ∨ name ∈ config.outlets.keys := by
  simp only [AnalysisConfig.interfaces, List.mem_append, List.mem_filter, decide_eq_true_eq]
  tauto

theorem mem_declarations {d : Declaration} :
    d ∈ config.declarations ↔
      (d.key = .fix ∧ config.fixtures.get? d.name = some d.wanted) ∨
      (d.key = .load ∧ ∃ values, config.loads.get? d.name = some values ∧ d.wanted = values.keys) ∨
      (d.key = .outlet ∧ config.outlets.get? d.name = some d.wanted) := by
  obtain ⟨key, name, wanted⟩ := d
  simp only [AnalysisConfig.declarations, List.mem_append, List.mem_map, Prod.exists,
    Declaration.mk.injEq, Dict.get?_eq_some]
  constructor
  · rintro (⟨k, v, h, rfl, rfl, rfl⟩ | ⟨k, v, h, rfl, rfl, rfl⟩ | ⟨k, v, h, rfl, rfl, rfl⟩)
    · exact .inl ⟨rfl, h⟩
    · exact .inr (.inl ⟨rfl, v, h, rfl⟩)
    · exact .inr (.inr ⟨rfl, h⟩)
  · rintro (⟨rfl, h⟩ | ⟨rfl, v, h, rfl⟩ | ⟨rfl, h⟩)
    · exact .inl ⟨name, wanted, h, rfl, rfl, rfl⟩
    · exact .inr (.inl ⟨name, v, h, rfl, rfl, rfl⟩)
    · exact .inr (.inr ⟨name, wanted, h, rfl, rfl, rfl⟩)

/-- There is one declaration of a kind for an interface, as it is spelled. -/
theorem declaration_unique {d d' : Declaration} (h : d ∈ config.declarations) (h' : d' ∈ config.declarations)
    (hkey : d.key = d'.key) (hname : d.name = d'.name) : d = d' := by
  obtain ⟨key, name, wanted⟩ := d
  obtain ⟨key', name', wanted'⟩ := d'
  obtain rfl : key = key' := hkey
  obtain rfl : name = name' := hname
  rw [mem_declarations] at h h'
  dsimp only at h h'
  cases key with
  | fix =>
    simp only [true_and, reduceCtorEq, false_and, or_false] at h h'
    rw [Option.some.inj (h.symm.trans h')]
  | load =>
    simp only [true_and, reduceCtorEq, false_and, or_false, false_or] at h h'
    obtain ⟨values, h, rfl⟩ := h
    obtain ⟨values', h', rfl⟩ := h'
    rw [Option.some.inj (h.symm.trans h')]
  | outlet =>
    simp only [true_and, reduceCtorEq, false_and, false_or] at h h'
    rw [Option.some.inj (h.symm.trans h')]

theorem name_mem_interfaces {d : Declaration} (h : d ∈ config.declarations) :
    d.name ∈ config.interfaces := by
  rw [mem_interfaces, Dict.mem_keys_iff_isSome, Dict.mem_keys_iff_isSome, Dict.mem_keys_iff_isSome]
  rcases mem_declarations.1 h with ⟨-, h⟩ | ⟨-, values, h, -⟩ | ⟨-, h⟩
  · simp [h]
  · simp [h]
  · simp [h]

theorem mem_uses {d : Declaration} {key : Key} {name one : Str} :
    (key, name, one) ∈ uses record d ↔ d.key = key ∧ d.name = name ∧ one ∈ used record d := by
  simp only [uses, List.mem_map, Prod.mk.injEq]
  constructor
  · rintro ⟨one, h, rfl, rfl, rfl⟩
    exact ⟨rfl, rfl, h⟩
  · rintro ⟨rfl, rfl, h⟩
    exact ⟨one, h, rfl, rfl, rfl⟩

/-- **Which declarations are counted as used.** -/
theorem mem_matched {records : List (Record P)} {d : Declaration} (hd : d ∈ config.declarations) {one : Str} :
    ((d.key, d.name, one) ∈ records.flatMap fun record => config.declarations.flatMap (uses record)) ↔
      ∃ record ∈ records, one ∈ used record d := by
  simp only [List.mem_flatMap, mem_uses]
  constructor
  · rintro ⟨record, hrecord, d', hd', hkey, hname, hone⟩
    obtain rfl := declaration_unique hd' hd hkey hname
    exact ⟨record, hrecord, hone⟩
  · rintro ⟨record, hrecord, hone⟩
    exact ⟨record, hrecord, d, hd, rfl, rfl, hone⟩

theorem mem_seen {records : List (Record P)} {d : Declaration} (hd : d ∈ config.declarations) :
    (d.name ∈ records.flatMap fun record =>
        config.interfaces.filter (interfaceMatches record.interface)) ↔
      ¬ ∀ record ∈ records, ¬ interfaceMatches record.interface d.name := by
  simp only [List.mem_flatMap, List.mem_filter, not_forall, not_not, exists_prop]
  constructor
  · rintro ⟨record, hrecord, -, hmatches⟩
    exact ⟨record, hrecord, hmatches⟩
  · rintro ⟨record, hrecord, hmatches⟩
    exact ⟨record, hrecord, name_mem_interfaces hd, hmatches⟩

theorem assignPorts_snd (config : AnalysisConfig) (records : List (Record P)) :
    (assignPorts config records).2 =
      config.declarations.filterMap fun d => (reasonFor records d).map fun r => (d.name, r) := by
  rw [assignPorts, foldl_assignRecord]
  refine List.filterMap_congr fun d hd => ?_
  rw [reasonOf, reasonFor]
  simp only [List.nil_append]
  have hmissing : (d.wanted.filter fun one => (d.key, d.name, one) ∉
      records.flatMap fun record => config.declarations.flatMap (uses record)) = missing records d := by
    refine List.filter_congr fun one _ => ?_
    rw [decide_eq_decide, mem_matched hd]
    simp only [not_exists, not_and]
  simp only [hmissing, mem_seen hd, not_not]

/-! ## What is attached -/

/-- A declaration names a record, or every instance of its interface. -/
def Declaration.Names (d : Declaration) (record : Record P) : Prop :=
  interfaceMatches record.interface d.name ∧ (everyInstance ∈ d.wanted ∨ record.instanceOf ∈ d.wanted)

instance (d : Declaration) : DecidablePred (d.Names (P := P)) := fun _ =>
  inferInstanceAs (Decidable (_ ∧ _))

theorem namedBy_fixtures :
    NamedBy config.fixtures.items record ↔ ∃ d ∈ config.declarations, d.key = .fix ∧ d.Names record := by
  constructor
  · rintro ⟨p, hp, hnames⟩
    exact ⟨⟨.fix, p.1, p.2⟩, mem_declarations.2 (.inl ⟨rfl, Dict.get?_eq_some.2 hp⟩), rfl, hnames⟩
  · rintro ⟨d, hd, hkey, hnames⟩
    rcases mem_declarations.1 hd with ⟨-, h⟩ | ⟨h, -⟩ | ⟨h, -⟩
    · exact ⟨(d.name, d.wanted), Dict.get?_eq_some.1 h, hnames⟩
    · exact absurd (h.symm.trans hkey) (by decide)
    · exact absurd (h.symm.trans hkey) (by decide)

theorem namedBy_outlets :
    NamedBy config.outlets.items record ↔ ∃ d ∈ config.declarations, d.key = .outlet ∧ d.Names record := by
  constructor
  · rintro ⟨p, hp, hnames⟩
    exact ⟨⟨.outlet, p.1, p.2⟩, mem_declarations.2 (.inr (.inr ⟨rfl, Dict.get?_eq_some.2 hp⟩)), rfl, hnames⟩
  · rintro ⟨d, hd, hkey, hnames⟩
    rcases mem_declarations.1 hd with ⟨h, -⟩ | ⟨h, -⟩ | ⟨-, h⟩
    · exact absurd (h.symm.trans hkey) (by decide)
    · exact absurd (h.symm.trans hkey) (by decide)
    · exact ⟨(d.name, d.wanted), Dict.get?_eq_some.1 h, hnames⟩

theorem mem_amounts {x : ℚ} :
    x ∈ amounts config record ↔ ∃ name values, config.loads.get? name = some values ∧
      interfaceMatches record.interface name ∧
      (values.get? record.instanceOf).or (values.get? everyInstance) = some x := by
  simp only [amounts, List.mem_filterMap, Prod.exists, Dict.get?_eq_some (d := config.loads), amount]
  constructor
  · rintro ⟨name, values, hmem, h⟩
    split at h
    · exact ⟨name, values, hmem, ‹_›, h⟩
    · cases h
  · rintro ⟨name, values, hmem, hmatches, h⟩
    exact ⟨name, values, hmem, by rw [if_pos hmatches, h]⟩

theorem amounts_ne_nil_iff :
    amounts config record ≠ [] ↔ ∃ d ∈ config.declarations, d.key = .load ∧ d.Names record := by
  rw [Ne, List.eq_nil_iff_forall_not_mem, not_forall]
  simp only [not_not, mem_amounts]
  constructor
  · rintro ⟨x, name, values, hget, hmatches, hx⟩
    refine ⟨⟨.load, name, values.keys⟩, mem_declarations.2 (.inr (.inl ⟨rfl, values, hget, rfl⟩)), rfl,
      hmatches, ?_⟩
    rw [Dict.mem_keys_iff_isSome, Dict.mem_keys_iff_isSome]
    rcases Option.or_eq_some_iff.1 hx with hx | ⟨-, hx⟩
    · exact .inr (by rw [hx]; rfl)
    · exact .inl (by rw [hx]; rfl)
  · rintro ⟨d, hd, hkey, hmatches, hnames⟩
    rcases mem_declarations.1 hd with ⟨h, -⟩ | ⟨-, values, hget, hwanted⟩ | ⟨h, -⟩
    · exact absurd (h.symm.trans hkey) (by decide)
    · rw [hwanted, Dict.mem_keys_iff_isSome, Dict.mem_keys_iff_isSome] at hnames
      have hsome : ((values.get? record.instanceOf).or (values.get? everyInstance)).isSome := by
        rw [Option.isSome_or, Bool.or_eq_true]
        exact hnames.symm
      obtain ⟨x, hx⟩ := Option.isSome_iff_exists.1 hsome
      exact ⟨x, d.name, values, hget, hmatches, hx⟩
    · exact absurd (h.symm.trans hkey) (by decide)

theorem named_iff : Named config record ↔ ∃ d ∈ config.declarations, d.Names record := by
  rw [Named, namedBy_fixtures, namedBy_outlets, amounts_ne_nil_iff]
  constructor
  · rintro (⟨d, hd, -, h⟩ | ⟨d, hd, -, h⟩ | ⟨d, hd, -, h⟩)
    · exact ⟨d, hd, h⟩
    · exact ⟨d, hd, h⟩
    · exact ⟨d, hd, h⟩
  · rintro ⟨d, hd, h⟩
    cases hkey : d.key with
    | fix => exact .inl ⟨d, hd, hkey, h⟩
    | load => exact .inr (.inl ⟨d, hd, hkey, h⟩)
    | outlet => exact .inr (.inr ⟨d, hd, hkey, h⟩)

/-- The load that is meant for a record: its own before that of every instance. -/
inductive Meant (config : AnalysisConfig) (record : Record P) : ℚ → Prop
  | own {name : Str} {values : Dict Str ℚ} {x : ℚ} : config.loads.get? name = some values →
      interfaceMatches record.interface name → values.get? record.instanceOf = some x →
      Meant config record x
  | whole {name : Str} {values : Dict Str ℚ} {x : ℚ} :
      (∀ name values, config.loads.get? name = some values → interfaceMatches record.interface name →
        values.get? record.instanceOf = none) →
      config.loads.get? name = some values → interfaceMatches record.interface name →
      values.get? everyInstance = some x → Meant config record x
  | none : (∀ name values, config.loads.get? name = some values →
      interfaceMatches record.interface name →
      values.get? record.instanceOf = none ∧ values.get? everyInstance = none) → Meant config record 0

/-- The declarations that match a record give it one load. -/
def Agree (config : AnalysisConfig) (record : Record P) : Prop :=
  ∀ x ∈ amounts config record, ∀ y ∈ amounts config record, x = y

theorem meant_getLast? (h : Agree config record) :
    Meant config record ((amounts config record).getLast?.getD 0) := by
  by_cases hown : ∃ name values x, config.loads.get? name = some values ∧
      interfaceMatches record.interface name ∧ values.get? record.instanceOf = some x
  · obtain ⟨name, values, x, hget, hmatches, hx⟩ := hown
    have hmem : x ∈ amounts config record := mem_amounts.2 ⟨name, values, hget, hmatches, by rw [hx]; rfl⟩
    cases hlast : (amounts config record).getLast? with
    | none =>
      rw [List.getLast?_eq_none_iff.1 hlast] at hmem
      exact absurd hmem List.not_mem_nil
    | some y =>
      obtain rfl := h x hmem y (List.mem_of_getLast? hlast)
      exact .own hget hmatches hx
  · have hno : ∀ name values, config.loads.get? name = some values →
        interfaceMatches record.interface name → values.get? record.instanceOf = none := by
      intro name values hget hmatches
      rw [Option.eq_none_iff_forall_ne_some]
      exact fun x hx => hown ⟨name, values, x, hget, hmatches, hx⟩
    cases hlast : (amounts config record).getLast? with
    | none =>
      refine .none fun name values hget hmatches => ⟨hno name values hget hmatches, ?_⟩
      rw [Option.eq_none_iff_forall_ne_some]
      intro x hx
      have hmem : x ∈ amounts config record :=
        mem_amounts.2 ⟨name, values, hget, hmatches, by rw [hno name values hget hmatches, hx]; rfl⟩
      rw [List.getLast?_eq_none_iff.1 hlast] at hmem
      exact absurd hmem List.not_mem_nil
    | some x =>
      obtain ⟨name, values, hget, hmatches, hx⟩ := mem_amounts.1 (List.mem_of_getLast? hlast)
      rw [hno name values hget hmatches, Option.none_or] at hx
      exact .whole hno hget hmatches hx

/-! ## Another order -/

/-- The same declarations in another order. -/
structure Reordered (config config' : AnalysisConfig) : Prop where
  fixtures : ∀ name, Option.Rel List.Perm (config.fixtures.get? name) (config'.fixtures.get? name)
  loads : ∀ name, Option.Rel Dict.Same (config.loads.get? name) (config'.loads.get? name)
  outlets : ∀ name, Option.Rel List.Perm (config.outlets.get? name) (config'.outlets.get? name)

theorem insertionSort_congr {l l' : List Str} (h : l.Perm l') :
    l.insertionSort (· ≤ ·) = l'.insertionSort (· ≤ ·) := by
  have htotal : Std.Total fun p q : Str => p ≤ q := ⟨fun p q => Std.le_total⟩
  have htrans : IsTrans Str fun p q => p ≤ q := ⟨fun _ _ _ => Std.le_trans⟩
  refine List.Perm.eq_of_pairwise (fun a b _ _ hab hba => Std.le_antisymm hab hba)
    (List.pairwise_insertionSort _ l) (List.pairwise_insertionSort _ l') ?_
  exact (List.perm_insertionSort _ l).trans (h.trans (List.perm_insertionSort _ l').symm)

theorem Reordered.symm {config' : AnalysisConfig} (h : Reordered config config') :
    Reordered config' config where
  fixtures name := Dict.rel_flip (fun _ _ hperm => hperm.symm) (h.fixtures name)
  loads name := Dict.rel_flip (fun _ _ hsame k => (hsame k).symm) (h.loads name)
  outlets name := Dict.rel_flip (fun _ _ hperm => hperm.symm) (h.outlets name)

theorem NamedBy.reordered {declared declared' : Dict Str (List Str)}
    (h : ∀ name, Option.Rel List.Perm (declared.get? name) (declared'.get? name))
    (hnamed : NamedBy declared.items record) : NamedBy declared'.items record := by
  obtain ⟨⟨name, instances⟩, hp, hmatches, hnames⟩ := hnamed
  have hrel := h name
  rw [Dict.get?_eq_some.2 hp] at hrel
  cases hget : declared'.get? name with
  | none =>
    rw [hget] at hrel
    cases hrel
  | some instances' =>
    rw [hget] at hrel
    cases hrel with
    | some hperm =>
      exact ⟨(name, instances'), Dict.get?_eq_some.1 hget, hmatches,
        hnames.imp (fun h => hperm.subset h) fun h => hperm.subset h⟩

theorem Reordered.amounts {config' : AnalysisConfig} (h : Reordered config config') (record : Record P) :
    (Cae.amounts config record).Perm (Cae.amounts config' record) := by
  refine Dict.filterMap_perm h.loads fun name values values' hsame => ?_
  rw [amount, amount, hsame, hsame]

theorem Reordered.outlets_eq_nil {config' : AnalysisConfig} (h : Reordered config config') :
    config.outlets.items = [] ↔ config'.outlets.items = [] := by
  have hperm := Dict.filterMap_perm (f := some ∘ fun _ => ()) (g := some ∘ fun _ => ()) h.outlets
    fun _ _ _ _ => rfl
  rw [List.filterMap_eq_map] at hperm
  have hlength : config.outlets.items.length = config'.outlets.items.length := by
    simpa using hperm.length_eq
  rw [← List.length_eq_zero_iff, ← List.length_eq_zero_iff, hlength]

theorem getLast?_eq_of_perm {α : Type} {l l' : List α} (h : l.Perm l') (hsame : ∀ x ∈ l, ∀ y ∈ l, x = y) :
    l.getLast? = l'.getLast? := by
  cases hlast : l.getLast? with
  | none =>
    rw [List.getLast?_eq_none_iff.1 hlast] at h
    rw [h.nil_eq.symm]
    rfl
  | some x =>
    have hx := List.mem_of_getLast? hlast
    cases hlast' : l'.getLast? with
    | none =>
      rw [List.getLast?_eq_none_iff.1 hlast'] at h
      rw [h.eq_nil] at hx
      exact absurd hx List.not_mem_nil
    | some y => rw [hsame x hx y (h.symm.subset (List.mem_of_getLast? hlast'))]

/-- What does not depend on the order: everything but a load that the declarations do not agree on. -/
structure Alike (config : AnalysisConfig) (entry entry' : Entry P) : Prop where
  record : entry.record = entry'.record
  fix : entry.fix = entry'.fix
  outlet : entry.outlet = entry'.outlet
  load : Agree config entry.record → entry.load = entry'.load

theorem Reordered.alike {config' : AnalysisConfig} (h : Reordered config config') (record : Record P) :
    Alike config (entryOf config record) (entryOf config' record) where
  record := rfl
  fix := by
    have hfix : NamedBy config.fixtures.items record ↔ NamedBy config'.fixtures.items record :=
      ⟨.reordered h.fixtures, .reordered h.symm.fixtures⟩
    simp only [entryOf, hfix]
  outlet := by
    have houtlet : NamedBy config.outlets.items record ↔ NamedBy config'.outlets.items record :=
      ⟨.reordered h.outlets, .reordered h.symm.outlets⟩
    simp only [entryOf, houtlet, h.outlets_eq_nil]
  load hagree := by
    rw [entryOf, entryOf, getLast?_eq_of_perm (h.amounts record) hagree]

theorem Reordered.named {config' : AnalysisConfig} (h : Reordered config config') :
    Named config record ↔ Named config' record := by
  refine or_congr ⟨.reordered h.fixtures, .reordered h.symm.fixtures⟩
    (or_congr ?_ ⟨.reordered h.outlets, .reordered h.symm.outlets⟩)
  have hperm := h.amounts record
  exact not_congr ⟨fun hnil => (hnil ▸ hperm).nil_eq.symm, fun hnil => (hnil ▸ hperm).eq_nil⟩

theorem used_reordered {key : Key} {name : Str} {wanted wanted' : List Str} (h : wanted.Perm wanted')
    (one : Str) : one ∈ used record ⟨key, name, wanted⟩ ↔ one ∈ used record ⟨key, name, wanted'⟩ := by
  unfold used
  split
  · cases key with
    | fix => simp [h.mem_iff]
    | load => simp [h.mem_iff]
    | outlet => simp [h.mem_iff]
  · rfl

theorem reasonFor_reordered {key : Key} {name : Str} {wanted wanted' : List Str} (h : wanted.Perm wanted')
    (records : List (Record P)) :
    reasonFor records ⟨key, name, wanted⟩ = reasonFor records ⟨key, name, wanted'⟩ := by
  have hmissing : (missing records ⟨key, name, wanted⟩).Perm (missing records ⟨key, name, wanted'⟩) := by
    have hfilter : missing records ⟨key, name, wanted'⟩ =
        wanted'.filter fun one => ∀ record ∈ records, one ∉ used record ⟨key, name, wanted⟩ := by
      refine List.filter_congr fun one _ => ?_
      simp only [used_reordered h]
    rw [hfilter]
    exact h.filter _
  have hnil : missing records ⟨key, name, wanted⟩ = [] ↔ missing records ⟨key, name, wanted'⟩ = [] :=
    ⟨fun hnil => (hnil ▸ hmissing).nil_eq.symm, fun hnil => (hnil ▸ hmissing).eq_nil⟩
  have hsorted := insertionSort_congr (hmissing.filter (· ≠ everyInstance))
  rw [reasonFor, reasonFor]
  simp only [hnil, hsorted]

theorem Reordered.reported {config' : AnalysisConfig} (h : Reordered config config')
    (records : List (Record P)) :
    (assignPorts config records).2.Perm (assignPorts config' records).2 := by
  rw [assignPorts_snd, assignPorts_snd]
  simp only [AnalysisConfig.declarations, List.filterMap_append, List.filterMap_map]
  refine List.Perm.append ?_ (List.Perm.append ?_ ?_)
  · refine Dict.filterMap_perm h.fixtures fun name instances instances' hperm => ?_
    simp only [Function.comp_apply, reasonFor_reordered hperm]
  · refine Dict.filterMap_perm h.loads fun name values values' hsame => ?_
    have hperm : values.keys.Perm values'.keys := hsame.perm.map _
    simp only [Function.comp_apply, reasonFor_reordered hperm]
  · refine Dict.filterMap_perm h.outlets fun name instances instances' hperm => ?_
    simp only [Function.comp_apply, reasonFor_reordered hperm]

/-! ## Every declaration in its place -/

/-- A record is there for an instance that a declaration names.  A load of every instance is there for
those without one of their own. -/
def Serves (d : Declaration) (one : Str) (record : Record P) : Prop :=
  interfaceMatches record.interface d.name ∧
    (one = record.instanceOf ∨
      one = everyInstance ∧ (d.key = .load → record.instanceOf ∉ d.wanted))

theorem mem_used {d : Declaration} {one : Str} (hone : one ∈ d.wanted) :
    one ∈ used record d ↔ Serves d one record := by
  unfold used Serves
  split
  · rename_i hmatches
    cases hkey : d.key with
    | load =>
      by_cases hown : record.instanceOf ∈ d.wanted
      · simp [hmatches, hown]
      · have hne : one ≠ record.instanceOf := by
          rintro rfl
          exact hown hone
        by_cases hevery : one = everyInstance
        · subst hevery
          simp [hmatches, hown, hone]
        · simp [hown, hne, hevery]
    | fix =>
      simp only [List.mem_filter, List.mem_cons, List.not_mem_nil, or_false, hone, decide_true, and_true,
        hmatches, true_and, reduceCtorEq, false_implies]
      exact or_comm
    | outlet =>
      simp only [List.mem_filter, List.mem_cons, List.not_mem_nil, or_false, hone, decide_true, and_true,
        hmatches, true_and, reduceCtorEq, false_implies]
      exact or_comm
  · rename_i hmatches
    simp [hmatches]

theorem reasonFor_ne_none {records : List (Record P)} {d : Declaration} :
    reasonFor records d ≠ none ↔ ∃ one ∈ d.wanted, ∀ record ∈ records, ¬ Serves d one record := by
  have hmissing : missing records d = [] ↔ ¬ ∃ one ∈ d.wanted, ∀ record ∈ records, ¬ Serves d one record := by
    rw [missing, List.filter_eq_nil_iff]
    simp only [decide_eq_true_eq, not_exists, not_and]
    refine forall_congr' fun one => forall_congr' fun hone => not_congr ?_
    exact forall_congr' fun record => forall_congr' fun _ => not_congr (mem_used hone)
  rw [reasonFor]
  split
  · rename_i hnil
    exact ⟨fun h => absurd rfl h, fun h => absurd h (hmissing.1 hnil)⟩
  · rename_i hne
    have hsome := not_not.1 fun h => hne (hmissing.2 h)
    split
    · exact ⟨fun _ => hsome, fun _ => nofun⟩
    · exact ⟨fun _ => hsome, fun _ => nofun⟩

/-- What is promised of the records and of the report. -/
structure Assigns (config : AnalysisConfig) (records : List (Record P)) : Prop where
  /-- The records that a declaration names come back, in their order. -/
  named : (assignPorts config records).1.map Entry.record =
    records.filter fun record => ∃ d ∈ config.declarations, d.Names record
  /-- Those that are held, and those that are not. -/
  held : ∀ entry ∈ (assignPorts config records).1,
    entry.fix = some (decide (∃ d ∈ config.declarations, d.key = .fix ∧ d.Names entry.record))
  /-- Those that a fluid leaves through. -/
  opened : ∀ entry ∈ (assignPorts config records).1,
    entry.outlet = some true ↔ ∃ d ∈ config.declarations, d.key = .outlet ∧ d.Names entry.record
  /-- The load is the one that is meant, where the declarations of a record agree. -/
  loaded : ∀ entry ∈ (assignPorts config records).1,
    ∃ x, entry.load = some x ∧ (Agree config entry.record → Meant config entry.record x)
  /-- What is reported: a declaration one of whose instances no record is there for. -/
  reported : ∃ reason : Declaration → Option Str,
    (assignPorts config records).2 =
      config.declarations.filterMap (fun d => (reason d).map fun r => (d.name, r)) ∧
    ∀ d ∈ config.declarations,
      reason d ≠ none ↔ ∃ one ∈ d.wanted, ∀ record ∈ records, ¬ Serves d one record
  /-- The order of the declarations makes no difference. -/
  reordered : ∀ config', Reordered config config' →
    List.Forall₂ (Alike config) (assignPorts config records).1 (assignPorts config' records).1 ∧
    (assignPorts config records).2.Perm (assignPorts config' records).2

theorem mem_assignPorts {records : List (Record P)} {entry : Entry P}
    (h : entry ∈ (assignPorts config records).1) : entry = entryOf config entry.record := by
  rw [assignPorts_fst] at h
  obtain ⟨record, -, rfl⟩ := List.mem_map.1 h
  rfl

/-- **Every record gets the conditions that name it, in every order.** -/
theorem assignPorts_assigns (config : AnalysisConfig) (records : List (Record P)) :
    Assigns config records where
  named := by
    rw [assignPorts_fst, List.map_map]
    have hrecord : Entry.record ∘ entryOf (P := P) config = id := rfl
    rw [hrecord, List.map_id]
    exact List.filter_congr fun record _ => by rw [decide_eq_decide, named_iff]
  held entry hentry := by
    rw [mem_assignPorts hentry]
    simp only [entryOf, namedBy_fixtures]
  opened entry hentry := by
    rw [mem_assignPorts hentry, ← namedBy_outlets]
    dsimp only [entryOf]
    split
    · rename_i hnil
      rw [hnil]
      refine ⟨nofun, ?_⟩
      rintro ⟨p, hp, -⟩
      exact absurd hp List.not_mem_nil
    · rw [Option.some.injEq, decide_eq_true_eq]
  loaded entry hentry := by
    rw [mem_assignPorts hentry]
    exact ⟨_, rfl, meant_getLast?⟩
  reported := ⟨reasonFor records, assignPorts_snd config records, fun _ _ => reasonFor_ne_none⟩
  reordered config' h := by
    refine ⟨?_, h.reported records⟩
    have hfilter : records.filter (Named config ·) = records.filter (Named config' ·) :=
      List.filter_congr fun record _ => by rw [decide_eq_decide, h.named]
    rw [assignPorts_fst, assignPorts_fst, ← hfilter, List.forall₂_map_left_iff, List.forall₂_map_right_iff,
      List.forall₂_same]
    exact fun record _ => h.alike record

end

/-- An interface with a load of all its instances, and one of its only instance. -/
def overridden : AnalysisConfig where
  analysis := .fea
  fixtures := .empty
  loads := .ofPairs [("m3".toList, .ofPairs [(everyInstance, 49), ("left".toList, 30)])]
  outlets := .empty
  implementation := none

/-- **It is reported that it names no instance, and there is one.** -/
theorem not_reported_overridden :
    (∃ record ∈ [(⟨some "//pkg:m3".toList, some "left".toList, ()⟩ : Record Unit)],
      interfaceMatches record.interface "m3".toList) ∧
    ("m3".toList, "it names no instance of it".toList) ∈
      (assignPorts overridden [(⟨some "//pkg:m3".toList, some "left".toList, ()⟩ : Record Unit)]).2 := by
  decide

end PartCAD.Cae
