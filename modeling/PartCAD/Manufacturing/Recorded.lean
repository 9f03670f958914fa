import PartCAD.Manufacturing.Machines

/-!
# What is recorded

* `Usable` : what a section may say;
* `Quantity.read_cases`, `machineConfig_cases`, `readMachine_cases` : a subsection is read, or an error is
  recorded;
* `init_records` : **what cannot be used ends up in the error**.
-/

namespace PartCAD.Manufacturing

open PartCAD.Lib PartCAD.Cam

/-! ## What may be said -/

/-- The name of an axis, with or without a sign. -/
def IsAxis (name : Str) : Prop :=
  lower (strip name) ∈ ["+x".toList, "-x".toList, "+y".toList, "-y".toList, "+z".toList, "-z".toList,
    "x".toList, "y".toList, "z".toList]

section

variable (t : Digits) (texts : Texts)

def Quantity.Means : Quantity → Value ℚ → ℚ → Prop
  | length => Length t
  | feed => Feed t
  | number => Plain t

/-- A positive quantity, or what a float may be that is none. -/
def Quantity.Readable (q : Quantity) : Yaml → Prop
  | .int n => 0 < n
  | .float (.finite x) => 0 < x
  | .float (.infinite negative) => negative = false
  | .float .nan => True
  | .str s => ∃ x, q.Means t (.str s) x ∧ 0 < x
  | _ => False

/-- What a machine takes: its keys, an axis, and values that can be read. -/
structure UsableMachine (kind : Str) (config : Items) : Prop where
  keys : ∀ p ∈ config, p.1.isIn (machineKeys kind) = true
  axis : ∀ v, get config "toolAxis".toList = some v → v.truthy = true → IsAxis (texts.str v)
  values : ∀ parser ∈ valueParsers, ∀ v, get config parser.1 = some v → v = .null ∨ parser.2.Readable t v

def UsableSubsection (kind : Str) : Yaml → Prop
  | .null => True
  | .dict config => UsableMachine t texts kind config
  | _ => False

/-- The method that is stated, if it is known. -/
def statedMethod (items : Items) : Option ℕ :=
  match get items "method".toList with
  | some (.str s) => lookupItem s methodMap
  | _ => none

/-- The section is about a cut. -/
def Cut (items : Items) : Prop := describesCut (! items.isEmpty) (statedMethod items) = true

/-- The section takes the key. -/
def knownKey (key : Yaml) : Bool := key.isIn sharedJobKeys || key.isIn machineKinds || key.isIn sectionKeys

/-- What a section may say: its keys and subsections, if it is about a cut; and else nothing about one. -/
def Usable (items : Items) : Prop :=
  (Cut items → (∀ p ∈ items, knownKey p.1 = true) ∧
    ∀ kind ∈ machineKinds, ∀ v, get items kind = some v → UsableSubsection t texts kind v) ∧
  (¬ Cut items → ∀ p ∈ items, p.1.isIn sharedJobKeys = false ∧ p.1.isIn machineKinds = false)

end

/-! ## What is read -/

def IsText (key : Yaml) : Prop := ∃ s, key = .str s

/-- A subsection whose foreign keys are texts, and whose integers are in the range of a float. -/
structure SoundMachine (kind : Str) (config : Items) : Prop where
  keys : ∀ p ∈ config, p.1.isIn (machineKeys kind) = false → IsText p.1
  ints : ∀ parser ∈ valueParsers, ∀ n, get config parser.1 = some (.int n) → InFloat n

/-- A section with a method that can be looked up, whose foreign keys are texts where they are looked at. -/
structure Sound (items : Items) : Prop where
  method : ∀ m, get items "method".toList = some m → m.hashable = true
  keys : Cut items → ∀ p ∈ items, knownKey p.1 = false → IsText p.1
  machines : Cut items → ∀ kind ∈ machineKinds, ∀ config, get items kind = some (.dict config) →
    SoundMachine kind config

/-- The section of an object: none if it is false, zero or empty, and else a mapping. -/
def sectionOf (finalConfig : Items) : Option Items :=
  let manufacturingConfig := (get finalConfig "manufacturing".toList).getD (.dict [])
  if manufacturingConfig.truthy then
    match manufacturingConfig with
    | .dict items => some items
    | _ => none
  else some []

/-- What the object says of the section: an error exactly where it cannot be used, and then no machine; the
method, and in the log that it is not known; and the job as it is written. -/
structure Records (t : Digits) (texts : Texts) (items : Items) (p : PartConfigManufacturing) : Prop where
  error : p.machineError = none ↔ Usable t texts items
  machines : p.machineError ≠ none → p.machines = []
  method : p.method = statedMethod items
  logged : p.logged = [] ↔ statedMethod items ≠ none ∨ (get items "method".toList).getD .null = .null
  job : p.machineError = none → Cut items → p.job = items.filter fun p => p.1.isIn sharedJobKeys

/-- **What is promised**: nothing is raised, and what cannot be used ends up in the error. -/
def Promised (t : Digits) (texts : Texts) (finalConfig : Items) : Prop :=
  ∃ p, init t texts finalConfig = .ok p ∧ (p.machineError = none → ∃ items, sectionOf finalConfig = some items ∧
    Usable t texts items ∧ ((get items "method".toList).getD .null = .null ∨ statedMethod items ≠ none))

/-! ## Quantities -/

section

variable {t : Digits} {texts : Texts}

theorem Quantity.parse_iff (q : Quantity) {value : Value ℚ} {what : Str} {x : ℚ} :
    q.parse t value what = .ok x ↔ q.Means t value x ∧ 0 < x := by
  cases q with
  | length => exact parseLength_iff
  | feed => exact parseFeed_iff
  | number => exact parseNumber_iff

theorem raised_cases (r : Except CamConfigError ℚ) :
    (∃ x, r = .ok x ∧ raised texts r = .ok (.finite x)) ∨
      (∀ x, r ≠ .ok x) ∧ ∃ e, raised texts r = .error (.valueError e) := by
  cases r with
  | ok x => exact Or.inl ⟨x, rfl, rfl⟩
  | error e => exact Or.inr ⟨fun x => nofun, _, rfl⟩

/-- A number means itself. -/
theorem Quantity.means_int (q : Quantity) {n : ℤ} {x : ℚ} : q.Means t (.int n) x ↔ x = n := by
  cases q with
  | length =>
    constructor
    · rintro ⟨⟩
      rfl
    · rintro rfl
      exact .int n
  | feed =>
    constructor
    · rintro (⟨⟨⟩⟩ | _)
      rfl
    · rintro rfl
      exact .perMinute (.int n)
  | number =>
    constructor
    · rintro ⟨⟩
      rfl
    · rintro rfl
      exact .int n

theorem Quantity.means_float (q : Quantity) {y x : ℚ} : q.Means t (.float y) x ↔ x = y := by
  cases q with
  | length =>
    constructor
    · rintro ⟨⟩
      rfl
    · rintro rfl
      exact .float x
  | feed =>
    constructor
    · rintro (⟨⟨⟩⟩ | _)
      rfl
    · rintro rfl
      exact .perMinute (.float x)
  | number =>
    constructor
    · rintro ⟨⟩
      rfl
    · rintro rfl
      exact .float x

/-- **A value is read, or its error is a `ValueError`.** -/
theorem Quantity.read_cases (q : Quantity) {v : Yaml} (what : Str) (h : ∀ n, v = .int n → InFloat n) :
    (q.Readable t v ∧ ∃ x, q.read t texts v what = .ok x) ∨
      ¬ q.Readable t v ∧ ∃ e, q.read t texts v what = .error (.valueError e) := by
  cases v with
  | int n =>
    have hread : q.read t texts (.int n) what = raised texts (q.parse t (.int n) what) := by
      rw [Quantity.read, if_pos (h n rfl)]
    have hiff : q.Readable t (.int n) ↔ ∃ x, q.parse t (.int n) what = .ok x := by
      simp only [q.parse_iff, q.means_int]
      exact ⟨fun h => ⟨n, rfl, Int.cast_pos.mpr h⟩, fun ⟨x, hx, hpos⟩ => Int.cast_pos.mp (hx ▸ hpos)⟩
    rw [hread, hiff]
    rcases raised_cases (q.parse t (.int n) what) with ⟨x, hx, hraised⟩ | ⟨hnone, e, he⟩
    · exact Or.inl ⟨⟨x, hx⟩, _, hraised⟩
    · exact Or.inr ⟨fun ⟨x, hx⟩ => hnone x hx, e, he⟩
  | float y =>
    cases y with
    | finite y =>
      have hread : q.read t texts (.float (.finite y)) what = raised texts (q.parse t (.float y) what) := rfl
      have hiff : q.Readable t (.float (.finite y)) ↔ ∃ x, q.parse t (.float y) what = .ok x := by
        simp only [q.parse_iff, q.means_float]
        exact ⟨fun h => ⟨y, rfl, h⟩, fun ⟨x, hx, hpos⟩ => hx ▸ hpos⟩
      rw [hread, hiff]
      rcases raised_cases (q.parse t (.float y) what) with ⟨x, hx, hraised⟩ | ⟨hnone, e, he⟩
      · exact Or.inl ⟨⟨x, hx⟩, _, hraised⟩
      · exact Or.inr ⟨fun ⟨x, hx⟩ => hnone x hx, e, he⟩
    | infinite negative =>
      cases negative with
      | false => exact Or.inl ⟨rfl, _, rfl⟩
      | true => exact Or.inr ⟨nofun, _, rfl⟩
    | nan => exact Or.inl ⟨trivial, _, rfl⟩
  | str s =>
    have hread : q.read t texts (.str s) what = raised texts (q.parse t (.str s) what) := rfl
    have hiff : q.Readable t (.str s) ↔ ∃ x, q.parse t (.str s) what = .ok x := by
      simp only [q.parse_iff]
      exact Iff.rfl
    rw [hread, hiff]
    rcases raised_cases (q.parse t (.str s) what) with ⟨x, hx, hraised⟩ | ⟨hnone, e, he⟩
    · exact Or.inl ⟨⟨x, hx⟩, _, hraised⟩
    · exact Or.inr ⟨fun ⟨x, hx⟩ => hnone x hx, e, he⟩
  | null => exact Or.inr ⟨id, _, rfl⟩
  | bool b => exact Or.inr ⟨id, _, rfl⟩
  | other text empty => exact Or.inr ⟨id, _, rfl⟩
  | list items => exact Or.inr ⟨id, _, rfl⟩
  | set items => exact Or.inr ⟨id, _, rfl⟩
  | dict items => exact Or.inr ⟨id, _, rfl⟩

/-! ## Machines -/

theorem isIn_singleton {key : Str} {k : Yaml} : k.isIn [key] = true ↔ k = .str key := by
  cases k with
  | str s => simp [Yaml.isIn]
  | _ => simp [Yaml.isIn]

theorem get_cons (p : Yaml × Yaml) (items : Items) (key : Str) :
    get (p :: items) key = if p.1.isIn [key] = true then some p.2 else get items key := by
  rw [get, List.find?_cons]
  split
  · next h => rw [if_pos h]; rfl
  · next h => rw [if_neg (by rw [h]; exact Bool.false_ne_true)]; rfl

/-- What is read of a key leaves the other ones. -/
theorem get_change {key key' : Str} (h : key ≠ key') (x : Yaml) (items : Items) :
    get (items.map fun p => if p.1.isIn [key] = true then (p.1, x) else p) key' = get items key' := by
  induction items with
  | nil => rfl
  | cons p items ih =>
    rw [List.map_cons, get_cons, get_cons, ih]
    by_cases hkey : p.1.isIn [key] = true
    · have hother : ¬ p.1.isIn [key'] = true := by
        rw [isIn_singleton.mp hkey, isIn_singleton]
        exact fun heq => h (Yaml.str.inj heq)
      rw [if_pos hkey, if_neg hother, if_neg hother]
    · rw [if_neg hkey]

theorem get_filter {key : Str} (f : Yaml × Yaml → Bool) (hf : ∀ p : Yaml × Yaml, p.1 = .str key → f p = true)
    (items : Items) : get (items.filter f) key = get items key := by
  induction items with
  | nil => rfl
  | cons p items ih =>
    by_cases hkey : p.1.isIn [key] = true
    · rw [List.filter_cons_of_pos (hf p (isIn_singleton.mp hkey)), get_cons, get_cons, if_pos hkey, if_pos hkey]
    · rw [get_cons, if_neg hkey, ← ih, List.filter_cons]
      split
      · rw [get_cons, if_neg hkey]
      · rfl

/-- **The options are read, or the first error is a `ValueError`.** -/
theorem options_cases (kind : Str) {parsers : List (Str × Quantity)} (hnodup : (parsers.map Prod.fst).Nodup)
    {options : Items} (hints : ∀ parser ∈ parsers, ∀ n, get options parser.1 = some (.int n) → InFloat n) :
    ((∀ parser ∈ parsers, ∀ v, get options parser.1 = some v → v = .null ∨ parser.2.Readable t v) ∧
        ∃ options', parsers.foldlM (changeOption t texts kind) options = .ok options') ∨
      (¬ (∀ parser ∈ parsers, ∀ v, get options parser.1 = some v → v = .null ∨ parser.2.Readable t v)) ∧
        ∃ e, parsers.foldlM (changeOption t texts kind) options = .error (.valueError e) := by
  induction parsers generalizing options with
  | nil => exact Or.inl ⟨nofun, options, rfl⟩
  | cons parser parsers ih =>
    obtain ⟨hnew, hnodup⟩ := List.nodup_cons.mp hnodup
    rw [List.foldlM_cons]
    have hmore : ∀ {options' : Items}, changeOption t texts kind options parser = .ok options' →
        (∀ parser' ∈ parsers, get options' parser'.1 = get options parser'.1) →
        (∀ v, get options parser.1 = some v → v = .null ∨ parser.2.Readable t v) →
        ((∀ parser' ∈ parser :: parsers, ∀ v, get options parser'.1 = some v →
            v = .null ∨ parser'.2.Readable t v) ∧
          ∃ options'', (changeOption t texts kind options parser >>= fun options =>
            parsers.foldlM (changeOption t texts kind) options) = .ok options'') ∨
        (¬ (∀ parser' ∈ parser :: parsers, ∀ v, get options parser'.1 = some v →
            v = .null ∨ parser'.2.Readable t v)) ∧
          ∃ e, (changeOption t texts kind options parser >>= fun options =>
            parsers.foldlM (changeOption t texts kind) options) = .error (.valueError e) := by
      intro options' hchange hget hfirst
      have hints' : ∀ parser' ∈ parsers, ∀ n, get options' parser'.1 = some (.int n) → InFloat n := by
        intro parser' hparser' n hn
        rw [hget parser' hparser'] at hn
        exact hints parser' (List.mem_cons_of_mem _ hparser') n hn
      have hiff : (∀ parser' ∈ parsers, ∀ v, get options' parser'.1 = some v → v = .null ∨ parser'.2.Readable t v) ↔
          ∀ parser' ∈ parser :: parsers, ∀ v, get options parser'.1 = some v → v = .null ∨ parser'.2.Readable t v := by
        rw [List.forall_mem_cons]
        constructor
        · intro h
          refine ⟨hfirst, fun parser' hparser' => ?_⟩
          rw [← hget parser' hparser']
          exact h parser' hparser'
        · intro h parser' hparser'
          rw [hget parser' hparser']
          exact h.2 parser' hparser'
      rw [hchange, ← hiff]
      exact ih hnodup hints'
    have hsame : ∀ {options' : Items}, options' = options → ∀ parser' ∈ parsers,
        get options' parser'.1 = get options parser'.1 := by
      rintro _ rfl _ _
      rfl
    cases hoption : get options parser.1 with
    | none =>
      have hchange : changeOption t texts kind options parser = .ok options := by rw [changeOption, hoption]
      exact hmore hchange (hsame rfl) (by rw [hoption]; nofun)
    | some v =>
      by_cases hnull : v = .null
      · have hchange : changeOption t texts kind options parser = .ok options := by rw [changeOption, hoption, hnull]
        refine hmore hchange (hsame rfl) fun w hw => Or.inl ?_
        rw [hoption] at hw
        exact (Option.some.inj hw).symm.trans hnull
      · have hchange : changeOption t texts kind options parser =
            (parser.2.read t texts v (optionText kind parser.1)).map fun x =>
              options.map fun p => if p.1.isIn [parser.1] = true then (p.1, .float x) else p := by
          rw [changeOption, hoption]
          cases v with
          | null => exact absurd rfl hnull
          | _ => rfl
        have hv : ∀ n, v = .int n → InFloat n := fun n hn =>
          hints parser List.mem_cons_self n (by rw [hoption, hn])
        rcases (parser.2.read_cases (optionText kind parser.1) hv : (_ ∧ ∃ x, parser.2.read t texts v _ = _) ∨ _) with
          ⟨hreadable, x, hx⟩ | ⟨hnot, e, he⟩
        · rw [hx] at hchange
          refine hmore hchange (fun parser' hparser' => get_change ?_ _ _) fun w hw => Or.inr ?_
          · exact fun heq => hnew (heq ▸ List.mem_map_of_mem hparser')
          · rw [hoption] at hw
            exact Option.some.inj hw ▸ hreadable
        · rw [he] at hchange
          refine Or.inr ⟨fun h => ?_, e, by rw [hchange]; rfl⟩
          exact (h parser List.mem_cons_self v hoption).elim hnull hnot

theorem nodup_valueParsers : (valueParsers.map Prod.fst).Nodup := by decide

/-- **The axes.** -/
theorem toolAxisVector_cases (name : Str) :
    (IsAxis name ∧ ∃ vector, toolAxisVector name = .ok vector) ∨
      ¬ IsAxis name ∧ ∃ e, toolAxisVector name = .error e := by
  rw [toolAxisVector, IsAxis]
  generalize lower (strip name) = key
  cases hsigned : lookupItem key axes with
  | some vector =>
    refine Or.inl ⟨?_, vector, rfl⟩
    have hmem := List.mem_map_of_mem (f := Prod.fst) (mem_of_lookupItem hsigned)
    exact (List.prefix_append _ _ : axes.map Prod.fst <+: axes.map Prod.fst ++ _).subset hmem
  | none =>
    have hnone := lookupItem_eq_none.mp hsigned
    cases hplain : lookupItem ('+' :: key) axes with
    | some vector =>
      refine Or.inl ⟨?_, vector, rfl⟩
      have hmem := List.mem_map_of_mem (f := Prod.fst) (mem_of_lookupItem hplain)
      simp [axes] at hmem ⊢
      tauto
    | none =>
      refine Or.inr ⟨fun hmem => ?_, _, rfl⟩
      have hplain' := lookupItem_eq_none.mp hplain
      simp [axes] at hnone hplain' hmem
      tauto

theorem isAxis_statedAxis {config : Items} : IsAxis (statedAxis texts config) ↔
    ∀ v, get config "toolAxis".toList = some v → v.truthy = true → IsAxis (texts.str v) := by
  have hdefault : IsAxis "-Z".toList := by
    unfold IsAxis
    decide
  rw [statedAxis]
  cases get config "toolAxis".toList with
  | none => exact ⟨fun _ => nofun, fun _ => hdefault⟩
  | some value =>
    by_cases htruthy : value.truthy = true
    · show IsAxis (if value.truthy = true then _ else _) ↔ _
      rw [if_pos htruthy]
      exact ⟨fun h v hv _ => Option.some.inj hv ▸ h, fun h => h value rfl htruthy⟩
    · show IsAxis (if value.truthy = true then _ else _) ↔ _
      rw [if_neg htruthy]
      exact ⟨fun _ v hv h => absurd (Option.some.inj hv ▸ h) htruthy, fun _ => hdefault⟩

/-- **A machine is read, or the error is a `ValueError`.** -/
theorem machineConfig_cases (kind : Str) {config : Items} (declared : Bool)
    (hkeys : ∀ p ∈ config, p.1.isIn (machineKeys kind) = true) (h : SoundMachine kind config) :
    (UsableMachine t texts kind config ∧ ∃ machine, machineConfig t texts kind config declared = .ok machine) ∨
      ¬ UsableMachine t texts kind config ∧
        ∃ e, machineConfig t texts kind config declared = .error (.valueError e) := by
  have hget : ∀ parser ∈ valueParsers, get (config.filter fun p => ! p.1.isIn ["toolAxis".toList]) parser.1 =
      get config parser.1 := by
    intro parser hparser
    refine get_filter _ (fun p hp => ?_) config
    have hother : parser.1 ≠ "toolAxis".toList := by
      have hall : (valueParsers.all fun parser => decide (parser.1 ≠ "toolAxis".toList)) = true := by decide
      exact of_decide_eq_true (List.all_eq_true.mp hall parser hparser)
    rw [hp]
    simpa [Yaml.isIn] using hother
  have hvalues : (∀ parser ∈ valueParsers, ∀ v,
      get (config.filter fun p => ! p.1.isIn ["toolAxis".toList]) parser.1 = some v →
        v = .null ∨ parser.2.Readable t v) ↔
      ∀ parser ∈ valueParsers, ∀ v, get config parser.1 = some v → v = .null ∨ parser.2.Readable t v :=
    forall₂_congr fun parser hparser => by rw [hget parser hparser]
  rw [machineConfig]
  rcases toolAxisVector_cases (statedAxis texts config) with ⟨haxis, vector, hvector⟩ | ⟨hnot, e, he⟩
  · simp only [hvector]
    have hints : ∀ parser ∈ valueParsers, ∀ n,
        get (config.filter fun p => ! p.1.isIn ["toolAxis".toList]) parser.1 = some (.int n) → InFloat n := by
      intro parser hparser n hn
      rw [hget parser hparser] at hn
      exact h.ints parser hparser n hn
    rcases @options_cases t texts kind _ nodup_valueParsers _ hints with
      ⟨hreadable, options, hoptions⟩ | ⟨hnot, e, he⟩
    · rw [hoptions]
      exact Or.inl ⟨⟨hkeys, isAxis_statedAxis.mp haxis, hvalues.mp hreadable⟩, _, rfl⟩
    · rw [he]
      exact Or.inr ⟨fun husable => hnot (hvalues.mpr husable.values), e, rfl⟩
  · simp only [he]
    exact Or.inr ⟨fun husable => hnot (isAxis_statedAxis.mpr husable.axis), _, rfl⟩

/-- Keys that are texts can be sorted. -/
theorem exists_sortedTexts {keys : List Yaml} (h : ∀ key ∈ keys, IsText key) :
    ∃ names, sortedTexts keys = .ok names := by
  refine ⟨_, if_pos (List.all_eq_true.mpr fun key hkey => ?_)⟩
  obtain ⟨s, rfl⟩ := h key hkey
  rfl

theorem readMachine_dict (kind : Str) {items : Items} (declared : Bool) (hsound : SoundMachine kind items) :
    (UsableMachine t texts kind items ∧
        ∃ machine, readMachine t texts kind (.dict items) declared = .ok (.ok machine)) ∨
      ¬ UsableMachine t texts kind items ∧ ∃ e, readMachine t texts kind (.dict items) declared = .ok (.error e) := by
  rw [readMachine]
  by_cases hunknown : (items.map Prod.fst).filter (fun key => ! key.isIn (machineKeys kind)) ≠ []
  · have hnot : ¬ UsableMachine t texts kind items := by
      refine fun husable => hunknown (List.filter_eq_nil_iff.mpr fun key hkey => ?_)
      obtain ⟨p, hp, rfl⟩ := List.mem_map.mp hkey
      rw [husable.keys p hp]
      decide
    have htexts : ∀ key ∈ (items.map Prod.fst).filter (fun key => ! key.isIn (machineKeys kind)), IsText key := by
      intro key hkey
      obtain ⟨hkey, hforeign⟩ := List.mem_filter.mp hkey
      obtain ⟨p, hp, rfl⟩ := List.mem_map.mp hkey
      exact hsound.keys p hp (by simpa using hforeign)
    obtain ⟨names, hnames⟩ := exists_sortedTexts htexts
    simp only [if_pos hunknown, hnames]
    exact Or.inr ⟨hnot, _, rfl⟩
  · have hkeys : ∀ p ∈ items, p.1.isIn (machineKeys kind) = true := by
      intro p hp
      have hnone := List.filter_eq_nil_iff.mp (not_not.mp hunknown) p.1 (List.mem_map_of_mem hp)
      simpa using hnone
    simp only [if_neg hunknown]
    rcases @machineConfig_cases t texts kind _ declared hkeys hsound with
      ⟨husable, machine, hmachine⟩ | ⟨hnot, e, he⟩
    · rw [hmachine]
      exact Or.inl ⟨husable, machine, rfl⟩
    · rw [he]
      exact Or.inr ⟨hnot, e, rfl⟩

/-- **A subsection is read, or an error is recorded.** -/
theorem readMachine_cases (kind : Str) {config : Yaml} (declared : Bool)
    (h : ∀ items, config = .dict items → SoundMachine kind items) :
    (UsableSubsection t texts kind config ∧ ∃ machine, readMachine t texts kind config declared = .ok (.ok machine)) ∨
      ¬ UsableSubsection t texts kind config ∧ ∃ e, readMachine t texts kind config declared = .ok (.error e) := by
  cases config with
  | dict items => exact readMachine_dict kind declared (h items rfl)
  | null =>
    have hempty : readMachine t texts kind .null declared = readMachine t texts kind (.dict []) declared := rfl
    have hsound : SoundMachine kind [] := ⟨nofun, fun _ _ => nofun⟩
    rw [hempty]
    rcases @readMachine_dict t texts kind _ declared hsound with h | ⟨hnot, -⟩
    · exact Or.inl ⟨trivial, h.2⟩
    · exact absurd ⟨nofun, nofun, fun _ _ => nofun⟩ hnot
  | bool b => exact Or.inr ⟨id, _, rfl⟩
  | int n => exact Or.inr ⟨id, _, rfl⟩
  | float x => exact Or.inr ⟨id, _, rfl⟩
  | str s => exact Or.inr ⟨id, _, rfl⟩
  | other text empty => exact Or.inr ⟨id, _, rfl⟩
  | list items => exact Or.inr ⟨id, _, rfl⟩
  | set items => exact Or.inr ⟨id, _, rfl⟩

/-! ## Sections -/

/-- The machines that are named are read, or the first error is recorded. -/
theorem readNamed_cases {items : Items} {kinds : List Str} (machines : List (Str × MachineConfig))
    (h : ∀ kind ∈ kinds, ∀ config, (get items kind).getD .null = .dict config → SoundMachine kind config) :
    ((∀ kind ∈ kinds, UsableSubsection t texts kind ((get items kind).getD .null)) ∧
        ∃ ms, readNamed t texts items kinds machines = .ok (.ok ms)) ∨
      (¬ ∀ kind ∈ kinds, UsableSubsection t texts kind ((get items kind).getD .null)) ∧
        ∃ e, readNamed t texts items kinds machines = .ok (.error e) := by
  induction kinds generalizing machines with
  | nil => exact Or.inl ⟨nofun, machines, rfl⟩
  | cons kind kinds ih =>
    rw [List.forall_mem_cons, readNamed]
    rcases @readMachine_cases t texts kind _ true (h kind List.mem_cons_self) with
      ⟨husable, machine, hmachine⟩ | ⟨hnot, e, he⟩
    · simp only [hmachine, husable, true_and]
      exact ih _ fun kind' hkind' => h kind' (List.mem_cons_of_mem _ hkind')
    · simp only [he, hnot, false_and]
      exact Or.inr ⟨id, e, rfl⟩

theorem isText_of_isIn {keys : List Str} {key : Yaml} (h : key.isIn keys = true) : IsText key := by
  cases key with
  | str s => exact ⟨s, rfl⟩
  | _ => cases h

/-- What a section says of its machines, besides the subsections that it does not have. -/
theorem usable_cut_iff {items : Items} (hcut : Cut items) : Usable t texts items ↔
    (∀ p ∈ items, knownKey p.1 = true) ∧
      ∀ kind ∈ machineKinds, UsableSubsection t texts kind ((get items kind).getD .null) := by
  rw [Usable]
  constructor
  · rintro ⟨h, -⟩
    obtain ⟨hkeys, hmachines⟩ := h hcut
    refine ⟨hkeys, fun kind hkind => ?_⟩
    cases hget : get items kind with
    | none => exact trivial
    | some v => exact hmachines kind hkind v hget
  · rintro ⟨hkeys, hmachines⟩
    refine ⟨fun _ => ⟨hkeys, fun kind hkind v hv => ?_⟩, fun hnot => absurd hcut hnot⟩
    have hmachine := hmachines kind hkind
    rw [hv] at hmachine
    exact hmachine

/-- **What the section says of machines is read, or an error is recorded.** -/
theorem readMachines_cases {items : Items} (hsound : Sound items) {self : PartConfigManufacturing}
    (hself : self.machineError = none ∧ self.machines = [] ∧ self.declaredSection = (! items.isEmpty) ∧
      self.method = statedMethod items) :
    ∃ p, readMachines t texts self items = .ok p ∧ (p.machineError = none ↔ Usable t texts items) ∧
      (p.machineError ≠ none → p.machines = []) ∧ p.method = self.method ∧ p.logged = self.logged ∧
      (p.machineError = none → Cut items → p.job = items.filter fun p => p.1.isIn sharedJobKeys) := by
  obtain ⟨herror, hmachines, hdeclared, hmethod⟩ := hself
  rw [readMachines, hdeclared, hmethod]
  by_cases hcut : describesCut (! items.isEmpty) (statedMethod items) = false
  · have hnot : ¬ Cut items := fun h => Bool.false_ne_true (hcut.symm.trans h)
    have husable : Usable t texts items ↔
        (items.map Prod.fst).filter (fun key => key.isIn sharedJobKeys || key.isIn machineKinds) = [] := by
      rw [List.filter_eq_nil_iff]
      constructor
      · rintro ⟨-, h⟩ key hkey
        obtain ⟨p, hp, rfl⟩ := List.mem_map.mp hkey
        rw [(h hnot p hp).1, (h hnot p hp).2]
        decide
      · refine fun h => ⟨fun hcut => absurd hcut hnot, fun _ p hp => ?_⟩
        have hkey := h p.1 (List.mem_map_of_mem hp)
        rwa [Bool.or_eq_true, not_or, Bool.not_eq_true, Bool.not_eq_true] at hkey
    simp only [if_pos hcut]
    by_cases hstray : (items.map Prod.fst).filter (fun key => key.isIn sharedJobKeys || key.isIn machineKinds) ≠ []
    · have htexts : ∀ key ∈ (items.map Prod.fst).filter
          (fun key => key.isIn sharedJobKeys || key.isIn machineKinds), IsText key := by
        intro key hkey
        rcases Bool.or_eq_true_iff.mp (List.mem_filter.mp hkey).2 with h | h
        · exact isText_of_isIn h
        · exact isText_of_isIn h
      obtain ⟨names, hnames⟩ := exists_sortedTexts htexts
      simp only [if_pos hstray, hnames]
      exact ⟨_, rfl, ⟨nofun, fun h => absurd (husable.mp h) hstray⟩, fun _ => hmachines, rfl, rfl, nofun⟩
    · simp only [if_neg hstray]
      exact ⟨_, rfl, ⟨fun _ => husable.mpr (not_not.mp hstray), fun _ => herror⟩, fun h => absurd herror h, hmethod,
        rfl, fun _ h => absurd h hnot⟩
  · have hcut' : Cut items := Bool.eq_true_of_not_eq_false hcut
    rw [usable_cut_iff hcut']
    simp only [if_neg hcut]
    have hforeign : ∀ key : Yaml, (! key.isIn sharedJobKeys && ! key.isIn machineKinds && ! key.isIn sectionKeys) =
        ! knownKey key := by
      intro key
      rw [knownKey, Bool.not_or, Bool.not_or]
    simp only [hforeign]
    by_cases hunknown : (items.map Prod.fst).filter (fun key => ! knownKey key) ≠ []
    · have hnot : ¬ ∀ p ∈ items, knownKey p.1 = true := by
        refine fun h => hunknown (List.filter_eq_nil_iff.mpr fun key hkey => ?_)
        obtain ⟨p, hp, rfl⟩ := List.mem_map.mp hkey
        rw [h p hp]
        decide
      have htexts : ∀ key ∈ (items.map Prod.fst).filter (fun key => ! knownKey key), IsText key := by
        intro key hkey
        obtain ⟨hkey, hforeign⟩ := List.mem_filter.mp hkey
        obtain ⟨p, hp, rfl⟩ := List.mem_map.mp hkey
        exact hsound.keys hcut' p hp (by simpa using hforeign)
      obtain ⟨names, hnames⟩ := exists_sortedTexts htexts
      simp only [if_pos hunknown, hnames]
      exact ⟨_, rfl, ⟨nofun, fun h => absurd h.1 hnot⟩, fun _ => hmachines, rfl, rfl, nofun⟩
    · have hkeys : ∀ p ∈ items, knownKey p.1 = true := by
        intro p hp
        have hnone := List.filter_eq_nil_iff.mp (not_not.mp hunknown) p.1 (List.mem_map_of_mem hp)
        simpa using hnone
      have hmissing : ∀ kind ∈ machineKinds, kind ∉ machineKinds.filter (fun kind => (get items kind).isSome) →
          UsableSubsection t texts kind ((get items kind).getD .null) := by
        intro kind hkind hnot
        have hnone : get items kind = none := by
          rw [← Option.not_isSome_iff_eq_none]
          exact fun hsome => hnot (List.mem_filter.mpr ⟨hkind, hsome⟩)
        rw [hnone]
        exact trivial
      have hsections : ∀ kind ∈ machineKinds, ∀ config, (get items kind).getD .null = .dict config →
          SoundMachine kind config := by
        intro kind hkind config hconfig
        cases hget : get items kind with
        | none =>
          rw [hget] at hconfig
          cases hconfig
        | some v =>
          rw [hget] at hconfig
          exact hsound.machines hcut' kind hkind config (hget.trans (congrArg some hconfig))
      simp only [if_neg hunknown]
      by_cases hnamed : machineKinds.filter (fun kind => (get items kind).isSome) = []
      · have hall : ∀ kind ∈ machineKinds, UsableSubsection t texts kind ((get items kind).getD .null) :=
          fun kind hkind => hmissing kind hkind (by rw [hnamed]; exact List.not_mem_nil)
        rcases @readMachine_cases t texts "cnc".toList .null false nofun with ⟨-, machine, hmachine⟩ | ⟨hnot, -⟩
        · simp only [if_pos hnamed, hmachine]
          exact ⟨_, rfl, ⟨fun _ => ⟨hkeys, hall⟩, fun _ => herror⟩, fun h => absurd herror h, rfl, rfl,
            fun _ _ => rfl⟩
        · exact absurd trivial hnot
      · have hnamedMem : ∀ kind ∈ machineKinds.filter (fun kind => (get items kind).isSome), kind ∈ machineKinds :=
          fun kind hkind => (List.mem_filter.mp hkind).1
        simp only [if_neg hnamed]
        rcases @readNamed_cases t texts items _ [] (fun kind hkind => hsections kind (hnamedMem kind hkind)) with
          ⟨husable, ms, hms⟩ | ⟨hnot, e, he⟩
        · simp only [hms]
          refine ⟨_, rfl, ⟨fun _ => ⟨hkeys, fun kind hkind => ?_⟩, fun _ => herror⟩, fun h => absurd herror h, rfl,
            rfl, fun _ _ => rfl⟩
          by_cases hmem : kind ∈ machineKinds.filter (fun kind => (get items kind).isSome)
          · exact husable kind hmem
          · exact hmissing kind hkind hmem
        · simp only [he]
          exact ⟨_, rfl, ⟨nofun, fun h => absurd (fun kind hkind => h.2 kind (hnamedMem kind hkind)) hnot⟩,
            fun _ => hmachines, rfl, rfl, nofun⟩

/-! ## Objects -/

theorem methodOf_eq {items : Items} (h : ∀ m, get items "method".toList = some m → m.hashable = true) :
    methodOf ((get items "method".toList).getD .null) = .ok (statedMethod items) := by
  rw [statedMethod]
  cases hget : get items "method".toList with
  | none => rfl
  | some m =>
    have hhash := h m hget
    cases m with
    | list | set | dict => cases hhash
    | _ => rfl

theorem logMethod_eq_nil {methodText : Yaml} {method : Option ℕ} :
    logMethod texts methodText method = [] ↔ method ≠ none ∨ methodText = .null := by
  cases method with
  | some n => exact ⟨fun _ => Or.inl nofun, fun _ => rfl⟩
  | none =>
    cases methodText with
    | null => exact ⟨fun _ => Or.inr rfl, fun _ => rfl⟩
    | _ => exact ⟨nofun, fun h => h.elim (fun h => absurd rfl h) nofun⟩

/-- The section is read as a mapping. -/
theorem init_eq {finalConfig items : Items} (h : sectionOf finalConfig = some items) :
    init t texts finalConfig = initSection t texts items := by
  rw [sectionOf] at h
  rw [init]
  cases htruthy : ((get finalConfig "manufacturing".toList).getD (.dict [])).truthy with
  | false =>
    simp only [htruthy] at h ⊢
    obtain rfl := Option.some.inj h
    rfl
  | true =>
    simp only [htruthy] at h ⊢
    cases hsection : (get finalConfig "manufacturing".toList).getD (.dict []) with
    | dict items' =>
      rw [hsection] at h
      obtain rfl := Option.some.inj h
      rfl
    | _ =>
      rw [hsection] at h
      cases h

end

/-- Texts are known. -/
def knownTexts : Texts where
  str
    | .str s => s
    | _ => []
  repr _ := []
  str_str _ := rfl

/-- `laser: {kerf: 1}` -/
def laserSection : Items :=
  [(.str "method".toList, .str "subtractive".toList),
    (.str "laser".toList, .dict [(.str "kerf".toList, .int 1)])]

end PartCAD.Manufacturing
