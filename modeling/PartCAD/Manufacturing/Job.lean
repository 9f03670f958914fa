import Mathlib.Algebra.Order.Ring.Rat
import PartCAD.Manufacturing.Units

/-!
# Jobs

The parameters of a job are converted to the units of the machine once, in whatever layer they were
declared.  Every other key of the request travels untouched.

* `normalizeJob` : the conversion, one key after the other;
* `normalizeJob_iff` : **it is the reading of every key, and a bound on one of them**;
* `normalizeJob_normalized`, `normalizeJob_equal` : a job that is normal stays as it is, and jobs that
  only differ in their spelling become the same.
-/

namespace PartCAD.Cam

open PartCAD.Lib PartCAD.Lib.Text

abbrev Job : Type := Dict Str (Value ℚ)

/-! ## Keys -/

/-- `LENGTH_KEYS` -/
def lengthKeys : List Str :=
  ["diameter".toList, "depth".toList, "depth_per_pass".toList, "safe_z".toList, "peck".toList,
    "kerf".toList]

/-- `FEED_KEYS` -/
def feedKeys : List Str := ["feed".toList, "plunge".toList]

/-- `NUMBER_KEYS` -/
def numberKeys : List Str := ["speed".toList, "stepover".toList, "power".toList]

/-- `OPERATIONS` -/
def operations : List Str := ["profile".toList, "pocket".toList, "engrave".toList]

/-- `DIRECTIONS` -/
def directions : List Str := ["climb".toList, "conventional".toList]

/-- `"'manufacturing: %s:'" % key` -/
def keyText (key : Str) : Str := "'manufacturing: ".toList ++ key ++ ":'".toList

/-- What is read of the value of a key. -/
abbrev Reader : Type := Str → Value ℚ → Except CamConfigError (Value ℚ)

/-- A quantity is replaced by its number. -/
def readQuantity (parse : Value ℚ → Str → Except CamConfigError ℚ) : Reader := fun key value =>
  (parse value (keyText key)).map .float

/-- A word is replaced by the choice that it is. -/
def readWord (choices : List Str) : Reader := fun key value =>
  match value with
  | .str s =>
    if lower (strip s) ∈ choices then .ok (.str (lower (strip s))) else .error (.notOneOf key choices value)
  | _ => .error (.notOneOf key choices value)

/-- The value of a key is replaced by what is read of it, unless it is missing or `None`. -/
def change (read : Reader) (job : Job) (key : Str) : Except CamConfigError Job :=
  match job.get? key with
  | none => .ok job
  | some .none => .ok job
  | some value => (read key value).map (job.set key)

/-- A stepover is a fraction. -/
def checkStepover (job : Job) : Except CamConfigError Unit :=
  match job.get? "stepover".toList with
  | some (.float x) => if 1 < x then .error (.stepover x) else .ok ()
  | _ => .ok ()

/-- `normalize_job` -/
def normalizeJob (t : Digits) (parameters : Job) : Except CamConfigError Job := do
  let normalized ← lengthKeys.foldlM (change (readQuantity (parseLength t))) parameters
  let normalized ← feedKeys.foldlM (change (readQuantity (parseFeed t))) normalized
  let normalized ← numberKeys.foldlM (change (readQuantity (parseNumber t))) normalized
  checkStepover normalized
  let normalized ← change (readWord directions) normalized "direction".toList
  change (readWord operations) normalized "operation".toList

/-! ## The keys one after the other -/

theorem bind_ok {ε α β : Type} {r : Except ε α} {f : α → Except ε β} {y : β} :
    r >>= f = .ok y ↔ ∃ x, r = .ok x ∧ f x = .ok y := by
  cases r with
  | error e =>
    constructor
    · intro h
      cases h
    · rintro ⟨x, h, -⟩
      cases h
  | ok x =>
    constructor
    · intro h
      exact ⟨x, rfl, h⟩
    · rintro ⟨x', h, hf⟩
      obtain rfl := Except.ok.inj h
      exact hf

/-- What becomes of a value. -/
inductive Becomes (read : Reader) (key : Str) : Value ℚ → Value ℚ → Prop
  | none : Becomes read key .none .none
  | read {value value' : Value ℚ} : value ≠ .none → read key value = .ok value' →
      Becomes read key value value'

/-- What becomes of a job whose keys in `keys` are read. -/
def Changed (read : Reader) (keys : List Str) (job job' : Job) : Prop :=
  ∀ key, if key ∈ keys then Option.Rel (Becomes read key) (job.get? key) (job'.get? key)
    else job'.get? key = job.get? key

section

variable {read : Reader} {keys keys' : List Str} {job job' job'' : Job}

/-- What one step does. -/
theorem change_ok {key : Str} :
    change read job key = .ok job' ↔
      (job.get? key = none ∧ job' = job) ∨
        ∃ value value', job.get? key = some value ∧ Becomes read key value value' ∧
          job' = job.set key value' := by
  rw [change]
  split
  · rename_i hget
    rw [hget]
    constructor
    · intro h
      exact .inl ⟨rfl, (Except.ok.inj h).symm⟩
    · rintro (⟨-, rfl⟩ | ⟨value, value', h, -⟩)
      · rfl
      · cases h
  · rename_i hget
    rw [hget]
    constructor
    · intro h
      obtain rfl := Except.ok.inj h
      exact .inr ⟨.none, .none, rfl, .none, (Dict.set_of_get? hget).symm⟩
    · rintro (⟨h, -⟩ | ⟨value, value', h, hbecomes, rfl⟩)
      · cases h
      · obtain rfl := Option.some.inj h
        cases hbecomes with
        | none => rw [Dict.set_of_get? hget]
        | read hne => exact absurd rfl hne
  · rename_i value hvalue hget
    rw [hget, map_ok]
    constructor
    · rintro ⟨value', hread, rfl⟩
      exact .inr ⟨value, value', rfl, .read (fun h => hvalue (by rw [h])) hread, rfl⟩
    · rintro (⟨h, -⟩ | ⟨v, value', h, hbecomes, rfl⟩)
      · cases h
      · obtain rfl := Option.some.inj h
        cases hbecomes with
        | none => exact absurd rfl hvalue
        | read _ hread => exact ⟨value', hread, rfl⟩

theorem Changed.nil : Changed read [] job job := fun _ => rfl

theorem changed_of_change {key : Str} (h : change read job key = .ok job') : Changed read [key] job job' := by
  intro key'
  rcases change_ok.1 h with ⟨hnone, rfl⟩ | ⟨value, value', hvalue, hbecomes, rfl⟩
  · split
    · rename_i hmem
      obtain rfl := List.mem_singleton.1 hmem
      rw [hnone]
      exact .none
    · rfl
  · split
    · rename_i hmem
      obtain rfl := List.mem_singleton.1 hmem
      rw [hvalue, Dict.get?_set_self]
      exact .some hbecomes
    · rename_i hmem
      exact Dict.get?_set_of_ne _ _ fun h => hmem (List.mem_singleton.2 h.symm)

theorem Changed.append (h : Changed read keys job job') (h' : Changed read keys' job' job'')
    (hdisjoint : keys.Disjoint keys') : Changed read (keys ++ keys') job job'' := by
  intro key
  have hkey := h key
  have hkey' := h' key
  by_cases hmem : key ∈ keys
  · rw [if_pos hmem] at hkey
    rw [if_neg (hdisjoint hmem)] at hkey'
    rwa [if_pos (List.mem_append_left _ hmem), hkey']
  · rw [if_neg hmem] at hkey
    rw [hkey] at hkey'
    simpa [hmem] using hkey'

/-- What the steps do together. -/
theorem changed_of_foldlM (hnodup : keys.Nodup) (h : keys.foldlM (change read) job = .ok job') :
    Changed read keys job job' := by
  induction keys generalizing job with
  | nil =>
    obtain rfl := Except.ok.inj h
    exact .nil
  | cons key keys ih =>
    obtain ⟨hkey, hkeys⟩ := List.nodup_cons.1 hnodup
    obtain ⟨job₁, hstep, hrest⟩ := bind_ok.1 h
    exact (changed_of_change hstep).append (ih hkeys hrest) (List.singleton_disjoint.2 hkey)

/-- The steps succeed when every value can be read. -/
theorem exists_foldlM (hnodup : keys.Nodup)
    (h : ∀ key ∈ keys, ∀ value, job.get? key = some value → ∃ value', Becomes read key value value') :
    ∃ job', keys.foldlM (change read) job = .ok job' := by
  induction keys generalizing job with
  | nil => exact ⟨job, rfl⟩
  | cons key keys ih =>
    obtain ⟨hkey, hkeys⟩ := List.nodup_cons.1 hnodup
    have hstep : ∃ job₁, change read job key = .ok job₁ := by
      cases hget : job.get? key with
      | none => exact ⟨job, change_ok.2 (.inl ⟨hget, rfl⟩)⟩
      | some value =>
        obtain ⟨value', hbecomes⟩ := h key List.mem_cons_self value hget
        exact ⟨_, change_ok.2 (.inr ⟨value, value', hget, hbecomes, rfl⟩)⟩
    obtain ⟨job₁, hstep⟩ := hstep
    have hreads : ∀ k ∈ keys, ∀ value, job₁.get? k = some value →
        ∃ value', Becomes read k value value' := by
      intro k hk value hget
      have hne : k ∉ [key] := by
        intro hmem
        obtain rfl := List.mem_singleton.1 hmem
        exact hkey hk
      have hsame := changed_of_change hstep k
      rw [if_neg hne] at hsame
      exact h k (List.mem_cons_of_mem _ hk) value (hsame ▸ hget)
    obtain ⟨job', hrest⟩ := ih hkeys hreads
    exact ⟨job', bind_ok.2 ⟨job₁, hstep, hrest⟩⟩

/-- Values that are read as themselves stay. -/
theorem foldlM_of_normal
    (h : ∀ key ∈ keys, ∀ value, job.get? key = some value → Becomes read key value value) :
    keys.foldlM (change read) job = .ok job := by
  induction keys with
  | nil => rfl
  | cons key keys ih =>
    refine bind_ok.2 ⟨job, change_ok.2 ?_, ih fun k hk => h k (List.mem_cons_of_mem _ hk)⟩
    cases hget : job.get? key with
    | none => exact .inl ⟨rfl, rfl⟩
    | some value =>
      exact .inr ⟨value, value, rfl, h key List.mem_cons_self value hget, (Dict.set_of_get? hget).symm⟩

theorem foldlM_congr {read' : Reader} (h : ∀ key ∈ keys, read key = read' key) :
    keys.foldlM (change read) job = keys.foldlM (change read') job := by
  induction keys generalizing job with
  | nil => rfl
  | cons key keys ih =>
    have hstep : change read job key = change read' job key := by
      rw [change, change, h key List.mem_cons_self]
    rw [List.foldlM_cons, List.foldlM_cons, hstep]
    exact congrArg _ (funext fun job => ih fun k hk => h k (List.mem_cons_of_mem _ hk))

end

/-! ## All of them -/

/-- The keys that are read. -/
def jobKeys : List Str :=
  lengthKeys ++ (feedKeys ++ (numberKeys ++ ["direction".toList, "operation".toList]))

/-- What is read of each key. -/
def reader (t : Digits) : Reader := fun key =>
  if key ∈ lengthKeys then readQuantity (parseLength t) key
  else if key ∈ feedKeys then readQuantity (parseFeed t) key
  else if key ∈ numberKeys then readQuantity (parseNumber t) key
  else if key = "direction".toList then readWord directions key
  else readWord operations key

/-- The bound on the stepover. -/
def Fits (job : Job) : Prop := ∀ x, job.get? "stepover".toList = some (.float x) → x ≤ 1

section

variable {t : Digits} {job job' parameters normalized : Job}

theorem reader_length {key : Str} (h : key ∈ lengthKeys) : reader t key = readQuantity (parseLength t) key :=
  if_pos h

theorem reader_feed {key : Str} (h : key ∈ feedKeys) : reader t key = readQuantity (parseFeed t) key := by
  have hother : key ∉ lengthKeys := by
    revert key
    decide
  rw [reader, if_neg hother, if_pos h]

theorem reader_number {key : Str} (h : key ∈ numberKeys) :
    reader t key = readQuantity (parseNumber t) key := by
  have hother : key ∉ lengthKeys ∧ key ∉ feedKeys := by
    revert key
    decide
  rw [reader, if_neg hother.1, if_neg hother.2, if_pos h]

theorem reader_word {key : Str} (h : key ∈ ["direction".toList, "operation".toList]) :
    ∃ choices, reader t key = readWord choices key := by
  have hother : key ∉ lengthKeys ∧ key ∉ feedKeys ∧ key ∉ numberKeys := by
    revert key
    decide
  rw [reader, if_neg hother.1, if_neg hother.2.1, if_neg hother.2.2]
  split
  · exact ⟨directions, rfl⟩
  · exact ⟨operations, rfl⟩

theorem checkStepover_ok : checkStepover job = .ok () ↔ Fits job := by
  rw [checkStepover, Fits]
  split
  · rename_i x hget
    rw [hget]
    constructor
    · intro h y hy
      obtain rfl := Value.float.inj (Option.some.inj hy)
      split at h
      · cases h
      · rename_i hle
        exact not_lt.1 hle
    · intro h
      rw [if_neg (not_lt.2 (h x rfl))]
  · rename_i hget
    exact ⟨fun _ x hx => absurd hx (hget x), fun _ => rfl⟩

/-- **The reading of every key, and a bound on one of them.** -/
theorem normalizeJob_iff :
    normalizeJob t parameters = .ok normalized ↔
      jobKeys.foldlM (change (reader t)) parameters = .ok normalized ∧ Fits normalized := by
  have hlength : ∀ job, lengthKeys.foldlM (change (readQuantity (parseLength t))) job =
      lengthKeys.foldlM (change (reader t)) job :=
    fun job => foldlM_congr fun key hkey => (reader_length hkey).symm
  have hfeed : ∀ job, feedKeys.foldlM (change (readQuantity (parseFeed t))) job =
      feedKeys.foldlM (change (reader t)) job :=
    fun job => foldlM_congr fun key hkey => (reader_feed hkey).symm
  have hnumber : ∀ job, numberKeys.foldlM (change (readQuantity (parseNumber t))) job =
      numberKeys.foldlM (change (reader t)) job :=
    fun job => foldlM_congr fun key hkey => (reader_number hkey).symm
  have hdirection : ∀ job, change (readWord directions) job "direction".toList =
      change (reader t) job "direction".toList := fun job => rfl
  have hoperation : ∀ job, change (readWord operations) job "operation".toList =
      change (reader t) job "operation".toList := fun job => rfl
  -- the two words leave the stepover as it is
  have hfits : ∀ {job job' job''}, change (reader t) job "direction".toList = .ok job' →
      change (reader t) job' "operation".toList = .ok job'' → (Fits job ↔ Fits job'') := by
    intro job job' job'' hstep hstep'
    have hsame := changed_of_change hstep "stepover".toList
    have hsame' := changed_of_change hstep' "stepover".toList
    rw [if_neg (by decide)] at hsame hsame'
    rw [Fits, Fits, hsame', hsame]
  unfold normalizeJob
  simp only [hlength, hfeed, hnumber, hdirection, hoperation, jobKeys, List.foldlM_append,
    List.foldlM_cons, List.foldlM_nil, bind_ok, bind_pure]
  constructor
  · rintro ⟨j₁, h₁, j₂, h₂, j₃, h₃, ⟨⟩, hcheck, j₄, h₄, h₅⟩
    exact ⟨⟨j₁, h₁, j₂, h₂, j₃, h₃, j₄, h₄, h₅⟩, (hfits h₄ h₅).1 (checkStepover_ok.1 hcheck)⟩
  · rintro ⟨⟨j₁, h₁, j₂, h₂, j₃, h₃, j₄, h₄, h₅⟩, hle⟩
    exact ⟨j₁, h₁, j₂, h₂, j₃, h₃, (), checkStepover_ok.2 ((hfits h₄ h₅).2 hle), j₄, h₄, h₅⟩

theorem nodup_jobKeys : jobKeys.Nodup := by decide

theorem changed_of_normalizeJob (h : normalizeJob t parameters = .ok normalized) :
    Changed (reader t) jobKeys parameters normalized :=
  changed_of_foldlM nodup_jobKeys (normalizeJob_iff.1 h).1

/-! ## Jobs that are normal -/

theorem readQuantity_again {parse : Value ℚ → Str → Except CamConfigError ℚ} {key : Str}
    {value value' : Value ℚ} (hparse : ∀ {value what x}, parse value what = .ok x → parse (.float x) what = .ok x)
    (h : readQuantity parse key value = .ok value') :
    value' ≠ .none ∧ readQuantity parse key value' = .ok value' := by
  obtain ⟨x, hx, rfl⟩ := map_ok.1 h
  exact ⟨nofun, map_ok.2 ⟨x, hparse hx, rfl⟩⟩

theorem readWord_again {choices : List Str} {key : Str} {value value' : Value ℚ}
    (hchoices : ∀ word ∈ choices, lower (strip word) = word) (h : readWord choices key value = .ok value') :
    value' ≠ .none ∧ readWord choices key value' = .ok value' := by
  cases value with
  | str s =>
    rw [readWord] at h
    split at h
    · rename_i hmem
      obtain rfl := Except.ok.inj h
      refine ⟨nofun, ?_⟩
      rw [readWord, hchoices _ hmem, if_pos hmem]
    · cases h
  | none => cases h
  | bool b => cases h
  | int n => cases h
  | float x => cases h
  | bytes b => cases h
  | list vs => cases h
  | dict items => cases h

theorem lower_choices : ∀ word ∈ directions ++ operations, lower (strip word) = word := by
  have hall : ((directions ++ operations).all fun word => decide (lower (strip word) = word)) = true := by
    decide
  exact fun word hword => of_decide_eq_true (List.all_eq_true.1 hall word hword)

theorem reader_again {key : Str} {value value' : Value ℚ} (h : reader t key value = .ok value') :
    value' ≠ .none ∧ reader t key value' = .ok value' := by
  unfold reader at h ⊢
  split_ifs at h ⊢ with hlength hfeed hnumber hdirection
  · exact readQuantity_again (fun h => parseLength_iff.2 ⟨.float _, (parseLength_iff.1 h).2⟩) h
  · exact readQuantity_again
      (fun h => parseFeed_iff.2 ⟨.perMinute (.float _), (parseFeed_iff.1 h).2⟩) h
  · exact readQuantity_again (fun h => parseNumber_iff.2 ⟨.float _, (parseNumber_iff.1 h).2⟩) h
  · exact readWord_again (fun word hword => lower_choices word (List.mem_append_left _ hword)) h
  · exact readWord_again (fun word hword => lower_choices word (List.mem_append_right _ hword)) h

theorem Becomes.again {key : Str} {value value' : Value ℚ} (h : Becomes (reader t) key value value') :
    Becomes (reader t) key value' value' := by
  cases h with
  | none => exact .none
  | read _ hread => exact .read (reader_again hread).1 (reader_again hread).2

/-- **A job that is normal stays as it is.** -/
theorem normalizeJob_normalized (h : normalizeJob t parameters = .ok normalized) :
    normalizeJob t normalized = .ok normalized := by
  refine normalizeJob_iff.2 ⟨foldlM_of_normal fun key hkey value hvalue => ?_, (normalizeJob_iff.1 h).2⟩
  have hchanged := changed_of_normalizeJob h key
  rw [if_pos hkey, hvalue] at hchanged
  generalize parameters.get? key = declared at hchanged
  cases hchanged with
  | some hbecomes => exact hbecomes.again

/-! ## Jobs that are spelled differently -/

theorem Length.unique {value : Value ℚ} {x y : ℚ} (h : Length t value x) (h' : Length t value y) : x = y := by
  have heq : parseScaled t value [] lengthNames [] = .ok x := parseScaled_iff.2 h
  rw [parseScaled_iff.2 h'] at heq
  exact (Except.ok.inj heq).symm

theorem Feed.unique {value : Value ℚ} {x y : ℚ} (h : Feed t value x) (h' : Feed t value y) : x = y := by
  cases value with
  | str s =>
    have heq : parseRate t s [] = .ok x := parseRate_iff.2 h
    rw [parseRate_iff.2 h'] at heq
    exact (Except.ok.inj heq).symm
  | none | bool b | int n | float x | bytes b | list vs | dict items =>
    cases h with
    | perMinute h =>
      cases h' with
      | perMinute h' => exact h.unique h'

theorem Plain.unique {value : Value ℚ} {x y : ℚ} (h : Plain t value x) (h' : Plain t value y) : x = y := by
  cases value with
  | str s =>
    have heq := numberOf_dropSpeed.2 h
    rw [numberOf_dropSpeed.2 h'] at heq
    exact (Option.some.inj heq).symm
  | none | bool b | int n | float x | bytes b | list vs | dict items =>
    cases h
    all_goals
      cases h'
      rfl

/-- Two ways to write the value of a key. -/
inductive Equal (t : Digits) (key : Str) : Value ℚ → Value ℚ → Prop
  | refl (value : Value ℚ) : Equal t key value value
  | length {value value' : Value ℚ} {x : ℚ} : key ∈ lengthKeys → Length t value x → Length t value' x →
      Equal t key value value'
  | feed {value value' : Value ℚ} {x : ℚ} : key ∈ feedKeys → Feed t value x → Feed t value' x →
      Equal t key value value'
  | number {value value' : Value ℚ} {x : ℚ} : key ∈ numberKeys → Plain t value x → Plain t value' x →
      Equal t key value value'
  | word {s s' : Str} : key ∈ ["direction".toList, "operation".toList] →
      lower (strip s) = lower (strip s') → Equal t key (.str s) (.str s')

/-- Jobs with the same keys, whose values are equal. -/
def EqualJobs (t : Digits) (job job' : Job) : Prop :=
  ∀ key, Option.Rel (Equal t key) (job.get? key) (job'.get? key)

theorem readQuantity_congr {parse : Value ℚ → Str → Except CamConfigError ℚ} {key : Str}
    {value value' w : Value ℚ}
    (hparse : ∀ {what y}, parse value what = .ok y → parse value' what = .ok y)
    (h : readQuantity parse key value = .ok w) : readQuantity parse key value' = .ok w := by
  obtain ⟨y, hy, rfl⟩ := map_ok.1 h
  exact map_ok.2 ⟨y, hparse hy, rfl⟩

theorem Equal.reader {key : Str} {value value' w : Value ℚ} (h : Equal t key value value')
    (hread : Cam.reader t key value = .ok w) : Cam.reader t key value' = .ok w := by
  cases h with
  | refl => exact hread
  | length hkey hx hx' =>
    rw [reader_length hkey] at hread ⊢
    refine readQuantity_congr (fun hy => ?_) hread
    obtain ⟨hlength, hpos⟩ := parseLength_iff.1 hy
    obtain rfl := hx.unique hlength
    exact parseLength_iff.2 ⟨hx', hpos⟩
  | feed hkey hx hx' =>
    rw [reader_feed hkey] at hread ⊢
    refine readQuantity_congr (fun hy => ?_) hread
    obtain ⟨hfeed, hpos⟩ := parseFeed_iff.1 hy
    obtain rfl := hx.unique hfeed
    exact parseFeed_iff.2 ⟨hx', hpos⟩
  | number hkey hx hx' =>
    rw [reader_number hkey] at hread ⊢
    refine readQuantity_congr (fun hy => ?_) hread
    obtain ⟨hplain, hpos⟩ := parseNumber_iff.1 hy
    obtain rfl := hx.unique hplain
    exact parseNumber_iff.2 ⟨hx', hpos⟩
  | word hkey hsame =>
    obtain ⟨choices, hchoices⟩ := reader_word (t := t) hkey
    rw [hchoices, readWord] at hread ⊢
    rw [← hsame]
    split at hread
    · rename_i hmem
      rw [if_pos hmem]
      exact hread
    · cases hread

theorem Equal.becomes {key : Str} {value value' w : Value ℚ} (h : Equal t key value value')
    (hbecomes : Becomes (Cam.reader t) key value w) : Becomes (Cam.reader t) key value' w := by
  cases hbecomes with
  | none =>
    cases h with
    | refl => exact .none
    | length _ hx => cases hx
    | feed _ hx =>
      cases hx with
      | perMinute hx => cases hx
    | number _ hx => cases hx
  | read hne hread =>
    refine .read ?_ (h.reader hread)
    rintro rfl
    cases h with
    | refl => exact hne rfl
    | length _ _ hx => cases hx
    | feed _ _ hx =>
      cases hx with
      | perMinute hx => cases hx
    | number _ _ hx => cases hx

/-- The values of the other keys have one spelling. -/
theorem Equal.eq_of_notMem {key : Str} {value value' : Value ℚ} (h : Equal t key value value')
    (hkey : key ∉ jobKeys) : value = value' := by
  simp only [jobKeys, List.mem_append, not_or] at hkey
  obtain ⟨hlength, hfeed, hnumber, hword⟩ := hkey
  cases h with
  | refl => rfl
  | length hmem => exact absurd hmem hlength
  | feed hmem => exact absurd hmem hfeed
  | number hmem => exact absurd hmem hnumber
  | word hmem => exact absurd hmem hword

theorem Becomes.unique {read : Reader} {key : Str} {value w w' : Value ℚ} (h : Becomes read key value w)
    (h' : Becomes read key value w') : w = w' := by
  cases h with
  | none =>
    cases h' with
    | none => rfl
    | read hne => exact absurd rfl hne
  | read hne hread =>
    cases h' with
    | none => exact absurd rfl hne
    | read _ hread' => exact Except.ok.inj (hread.symm.trans hread')

/-- **Jobs that only differ in their spelling become the same.** -/
theorem normalizeJob_equal (hequal : EqualJobs t job job') (h : normalizeJob t job = .ok normalized) :
    ∃ normalized', normalizeJob t job' = .ok normalized' ∧ Dict.Same normalized normalized' := by
  have hchanged := changed_of_normalizeJob h
  have hreads : ∀ key ∈ jobKeys, ∀ value', job'.get? key = some value' →
      ∃ w, Becomes (reader t) key value' w := by
    intro key hkey value' hvalue'
    have hsame := hequal key
    have hbecomes := hchanged key
    rw [if_pos hkey] at hbecomes
    rw [hvalue'] at hsame
    generalize job.get? key = value at hsame hbecomes
    cases hsame with
    | some hsame =>
      generalize normalized.get? key = w at hbecomes
      cases hbecomes with
      | some hbecomes => exact ⟨_, hsame.becomes hbecomes⟩
  obtain ⟨normalized', hfold⟩ := exists_foldlM nodup_jobKeys hreads
  have hchanged' := changed_of_foldlM nodup_jobKeys hfold
  have hresult : Dict.Same normalized normalized' := by
    intro key
    have hsame := hequal key
    have hbecomes := hchanged key
    have hbecomes' := hchanged' key
    by_cases hkey : key ∈ jobKeys
    · rw [if_pos hkey] at hbecomes hbecomes'
      generalize job.get? key = value at hsame hbecomes
      generalize job'.get? key = value' at hsame hbecomes'
      generalize normalized.get? key = w at hbecomes
      generalize normalized'.get? key = w' at hbecomes'
      cases hsame with
      | none =>
        cases hbecomes
        cases hbecomes'
        rfl
      | some hsame =>
        cases hbecomes with
        | some hbecomes =>
          cases hbecomes' with
          | some hbecomes' => rw [(hsame.becomes hbecomes).unique hbecomes']
    · rw [if_neg hkey] at hbecomes hbecomes'
      rw [hbecomes, hbecomes']
      generalize job.get? key = value at hsame
      generalize job'.get? key = value' at hsame
      cases hsame with
      | none => rfl
      | some hsame => rw [hsame.eq_of_notMem hkey]
  refine ⟨normalized', normalizeJob_iff.2 ⟨hfold, ?_⟩, hresult⟩
  intro x hx
  rw [← hresult] at hx
  exact (normalizeJob_iff.1 h).2 x hx

/-! ## What a value reads as -/

theorem mem_spelled {names : List (Str × ℚ)} {spelling : Str} {factor : ℚ} :
    (spelling, factor) ∈ spelled names ↔ ∃ name, (name, factor) ∈ names ∧ spelling ∈ spellings name := by
  simp only [spelled, List.mem_flatMap, List.mem_map, Prod.exists, Prod.mk.injEq]
  constructor
  · rintro ⟨name, factor', hmem, spelling', hspelling, rfl, rfl⟩
    exact ⟨name, hmem, hspelling⟩
  · rintro ⟨name, hmem, hspelling⟩
    exact ⟨name, factor, hmem, spelling, hspelling, rfl, rfl⟩

theorem mem_lengthNames {name : Str} {factor : ℚ} :
    (name, factor) ∈ lengthNames ↔ (name, factor) ∈ lengthUnits :=
  (List.perm_insertionSort _ _).mem_iff

theorem lengthUnits_pos {name : Str} {factor : ℚ} (h : (name, factor) ∈ lengthUnits) : 0 < factor := by
  have hall : (lengthUnits.all fun p => decide (0 < p.2)) = true := by decide +kernel
  exact of_decide_eq_true (List.all_eq_true.1 hall _ h)

theorem Time.pos {time : Str} {factor : ℚ} (h : Time time factor) : 0 < factor := by
  obtain ⟨-, hname, -, -⟩ := h
  have hall : (perMinute.all fun p => decide (0 < p.2)) = true := by decide
  exact of_decide_eq_true (List.all_eq_true.1 hall _ hname)

/-- What is promised of the values of a job. -/
structure ReadsValues (t : Digits) : Prop where
  /-- What is accepted is a length above zero. -/
  accepted {value : Value ℚ} {what : Str} {x : ℚ} :
    parseLength t value what = .ok x ↔ Length t value x ∧ 0 < x
  /-- A number and a unit are the number times the factor, however the unit is spelled. -/
  unit {front number between unit back name what : Str} {n factor : ℚ} :
    (∀ c ∈ front ++ between ++ back, isSpace c) → IsDecimal t number n → 0 < n →
      (name, factor) ∈ lengthUnits → lower unit ∈ spellings name →
      parseLength t (.str (front ++ (number ++ (between ++ (unit ++ back))))) what = .ok (n * factor)
  /-- There is no second way to read them, neither with another unit nor without one. -/
  unambiguous {s : Str} {x x' factor factor' : ℚ} :
    IsQuantity t (spelled lengthNames) s x factor →
      (IsQuantity t (spelled lengthNames) s x' factor' → x = x' ∧ factor = factor') ∧
      ¬ IsDecimal t (strip s) x'
  /-- A feed is a length for every time. -/
  feed {length time what : Str} {x factor : ℚ} :
    parseLength t (.str length) what = .ok x → Time time factor →
      parseFeed t (.str (length ++ '/' :: time)) what = .ok (x * factor)
  /-- A number is in millimetres, or in millimetres per minute. -/
  bare {value : Value ℚ} {what : Str} {x : ℚ} : 0 < x →
    value = .float x ∨ (∃ n : ℤ, value = .int n ∧ x = n) ∨ (∃ s, value = .str s ∧ IsDecimal t (strip s) x) →
      parseLength t value what = .ok x ∧ parseFeed t value what = .ok x
  /-- A job is read once. -/
  idempotent {job normalized : Job} :
    normalizeJob t job = .ok normalized → normalizeJob t normalized = .ok normalized
  /-- Jobs that only differ in their spelling become the same. -/
  equal {job job' normalized : Job} : EqualJobs t job job' → normalizeJob t job = .ok normalized →
    ∃ normalized', normalizeJob t job' = .ok normalized' ∧ Dict.Same normalized normalized'

theorem parseLength_unit {front number between unit back name what : Str} {n factor : ℚ}
    (hblank : ∀ c ∈ front ++ between ++ back, isSpace c) (hnumber : IsDecimal t number n) (hpos : 0 < n)
    (hname : (name, factor) ∈ lengthUnits) (hunit : lower unit ∈ spellings name) :
    parseLength t (.str (front ++ (number ++ (between ++ (unit ++ back))))) what = .ok (n * factor) := by
  have hspelled : (lower unit, factor) ∈ spelled lengthNames :=
    mem_spelled.2 ⟨name, mem_lengthNames.2 hname, hunit⟩
  refine parseLength_iff.2 ⟨.unit (.mk (fun c hc => ?_) hnumber (fun c hc => ?_) hspelled fun c hc => ?_), ?_⟩
  · exact hblank c (by simp [hc])
  · exact hblank c (by simp [hc])
  · exact hblank c (by simp [hc])
  · exact mul_pos hpos (lengthUnits_pos hname)

theorem parse_bare {value : Value ℚ} {what : Str} {x : ℚ} (hpos : 0 < x)
    (h : value = .float x ∨ (∃ n : ℤ, value = .int n ∧ x = n) ∨
      (∃ s, value = .str s ∧ IsDecimal t (strip s) x)) :
    parseLength t value what = .ok x ∧ parseFeed t value what = .ok x := by
  have hlength : Length t value x := by
    rcases h with rfl | ⟨n, rfl, rfl⟩ | ⟨s, rfl, hdecimal⟩
    · exact .float x
    · exact .int n
    · exact .bare hdecimal
  exact ⟨parseLength_iff.2 ⟨hlength, hpos⟩, parseFeed_iff.2 ⟨.perMinute hlength, hpos⟩⟩

/-- **Whatever the spelling, the same cut.** -/
theorem reads_values (t : Digits) : ReadsValues t where
  accepted := parseLength_iff
  unit := parseLength_unit
  unambiguous h := ⟨fun h' => h.unique clear_length h', h.not_isDecimal clear_length⟩
  feed h htime := by
    obtain ⟨hlength, hpos⟩ := parseLength_iff.1 h
    exact parseFeed_iff.2 ⟨.per hlength htime, mul_pos hpos htime.pos⟩
  bare := parse_bare
  idempotent := normalizeJob_normalized
  equal := normalizeJob_equal

end

end PartCAD.Cam
