import PartCAD.Lib.Dict
import PartCAD.Lib.Repr

/-!
# Names of parametrized objects

An object with parameter values is named `<name>;<param>=<value>,...`.  `formatParameterizedName`
writes such a name, `parseParameterizedName` reads it, and `applyParameterValues` turns the texts
into values of the declared types.

* `foldl_parseStep_join` : the pieces of a name are read back one parameter after the other;
* `later_of_parse` : no value is read with a `=` after a comma in it;
* `roundTrips_iff` : which values come back from a name.
-/

namespace PartCAD.Package

open PartCAD.Lib PartCAD.Lib.Text

/-! ## The functions -/

/-- The types that a parameter may be declared with. -/
inductive ParamType where
  | string
  | int
  | float
  | bool
  | array
  deriving DecidableEq

/-- A declared parameter. -/
structure Parameter (F : Type) where
  type : Option ParamType
  default : Option (Value F)

inductive ParameterError where
  | undeclared (paramName objectName : Str)
  | notInteger (paramName objectName paramValue : Str)
  /-- raised by `Decimal` or by `float` -/
  | unreadable (paramValue : Str)

def ParameterError.message : ParameterError → Str
  | .undeclared paramName objectName =>
    "The parameter '".toList ++ paramName ++ "' is not declared in '".toList ++ objectName ++ ['\'']
  | .notInteger paramName objectName paramValue =>
    "The parameter '".toList ++ paramName ++ "' of '".toList ++ objectName ++
      "' is an integer, and '".toList ++ paramValue ++ "' is not one".toList
  | .unreadable paramValue => paramValue

/-- One piece of the list of parameters: a new parameter, or more of the value before it. -/
def parseStep (st : Dict Str Str × Option Str) (pair : Str) : Dict Str Str × Option Str :=
  match st.2 with
  | some last =>
    if '=' ∉ pair then
      (st.1.set last ((st.1.get? last).getD [] ++ ',' :: pair), some last)
    else (st.1.set (partition '=' pair).1 (partition '=' pair).2, some (partition '=' pair).1)
  | none => (st.1.set (partition '=' pair).1 (partition '=' pair).2, some (partition '=' pair).1)

def parseParameterizedName (name : Str) : Str × Dict Str Str :=
  let base := (partition ';' name).1
  let suffix := (partition ';' name).2
  (base, ((if suffix = [] then [] else split ',' suffix).foldl parseStep (Dict.empty, none)).1)

section

variable {F : Type} [PyFloat F] (printable : Char → Bool)

def formatParameterizedName (base : Str) (parameters : Dict Str (Value F)) : Str :=
  let parsed := parseParameterizedName base
  let inherited := (parsed.2.mapValues Value.str).update parameters
  if inherited.items = [] then parsed.1
  else
    parsed.1 ++ ';' :: join ',' ((sortItems inherited.items).map fun p =>
      p.1 ++ '=' :: strText printable p.2)

/-- `float(value)` -/
def floatOf : Value F → Option F
  | .float x => some x
  | .int n => PyFloat.ofInt n
  | .bool b => PyFloat.ofInt (if b then 1 else 0)
  | .str s => PyFloat.ofText s
  | .bytes b => PyFloat.ofText (b.map fun x => Char.ofNat x.toNat)
  | .none | .list _ | .dict _ => none

/-- `bool(value)` -/
def truthy : Value F → Bool
  | .none => false
  | .bool b => b
  | .int n => n ≠ 0
  | .float x => ! PyFloat.isZero x
  | .str s => s ≠ []
  | .bytes b => b ≠ []
  | .list vs => ! vs.isEmpty
  | .dict items => ! items.isEmpty

def coerceParameterValue (paramType : Option ParamType) (paramValue : Value F)
    (paramName objectName : Str) : Except ParameterError (Value F) :=
  match paramType with
  | some .string => .ok (.str (strText printable paramValue))
  | some .int =>
    match decimalOf (strText printable paramValue) with
    | none => .error (.unreadable (strText printable paramValue))
    | some value =>
      match toIntegral value with
      | none => .error (.notInteger paramName objectName (strText printable paramValue))
      | some n => .ok (.int n)
  | some .float =>
    match floatOf paramValue with
    | none => .error (.unreadable (strText printable paramValue))
    | some x => .ok (.float x)
  | some .bool =>
    match paramValue with
    | .str s => .ok (.bool (s.map Char.toLower = "true".toList))
    | v => .ok (.bool (truthy v))
  | some .array | none => .ok paramValue

/-- One value for `applyParameterValues`. -/
def applyParameterValue (objectName : Str) (parameters : Dict Str (Parameter F))
    (p : Str × Value F) : Except ParameterError (Dict Str (Parameter F)) :=
  match parameters.get? p.1 with
  | none => .error (.undeclared p.1 objectName)
  | some declared =>
    match coerceParameterValue printable declared.type p.2 p.1 objectName with
    | .error e => .error e
    | .ok v => .ok (parameters.set p.1 { declared with default := some v })

def applyParameterValues (parameters : Dict Str (Parameter F)) (values : Dict Str (Value F))
    (objectName : Str) : Except ParameterError (Dict Str (Parameter F)) :=
  values.items.foldlM (applyParameterValue printable objectName) parameters

end

/-! ## Reading a name -/

/-- What follows the first comma of a text. -/
def later (t : Str) : Str := (partition ',' t).2

theorem later_of_notMem {t : Str} (h : ',' ∉ t) : later t = [] := by
  rw [later, partition_of_notMem h]

/-- More of a value leaves what follows its first comma free of `=`. -/
theorem notMem_later_append {t pair : Str} (ht : '=' ∉ later t) (hpair : '=' ∉ pair) :
    '=' ∉ later (t ++ ',' :: pair) := by
  by_cases hcomma : ',' ∈ t
  · have hsplit : t ++ ',' :: pair =
        (partition ',' t).1 ++ ',' :: ((partition ',' t).2 ++ ',' :: pair) := by
      conv_lhs => rw [partition_eq hcomma]
      simp
    rw [later, hsplit, partition_append_cons _ (notMem_partition_fst ',' t)]
    simp only [List.mem_append, List.mem_cons, not_or]
    exact ⟨ht, by decide, hpair⟩
  · rw [later, partition_append_cons _ hcomma]
    exact hpair

/-- A piece with `=` in it starts a parameter. -/
theorem parseStep_assign (st : Dict Str Str × Option Str) {n : Str} (t : Str) (hn : '=' ∉ n) :
    parseStep st (n ++ '=' :: t) = (st.1.set n t, some n) := by
  have hmem : '=' ∈ n ++ '=' :: t := by simp
  unfold parseStep
  rw [partition_append_cons t hn]
  split
  · rw [if_neg (not_not_intro hmem)]
  · rfl

/-- Pieces without `=` go on with the value before them. -/
theorem foldl_parseStep_continue (d : Dict Str Str) (n t : Str) {fs : List Str}
    (h : ∀ f ∈ fs, '=' ∉ f) :
    fs.foldl parseStep (d.set n t, some n) =
      (d.set n (t ++ fs.flatMap fun f => ',' :: f), some n) := by
  induction fs generalizing t with
  | nil => simp
  | cons f fs ih =>
    have hstep : parseStep (d.set n t, some n) f = (d.set n (t ++ ',' :: f), some n) := by
      simp [parseStep, h f (by simp), Dict.set_set]
    rw [List.foldl_cons, hstep, ih _ fun g hg => h g (List.mem_cons_of_mem _ hg)]
    simp

theorem flatMap_comma {fs : List Str} (h : fs ≠ []) :
    fs.flatMap (fun f => ',' :: f) = ',' :: join ',' fs := by
  induction fs with
  | nil => exact absurd rfl h
  | cons f fs ih =>
    by_cases hfs : fs = []
    · subst hfs
      simp [join]
    · rw [List.flatMap_cons, ih hfs, join_cons_of_ne_nil ',' f hfs]
      rfl

/-- One parameter of a name. -/
theorem foldl_parseStep_split (st : Dict Str Str × Option Str) {n t : Str} (hcomma : ',' ∉ n)
    (heq : '=' ∉ n) (ht : '=' ∉ later t) :
    (split ',' (n ++ '=' :: t)).foldl parseStep st = (st.1.set n t, some n) := by
  by_cases hmem : ',' ∈ t
  · have hfirst : ',' ∉ n ++ '=' :: (partition ',' t).1 := by
      have := notMem_partition_fst ',' t
      simp [hcomma, this]
    have hsplit : n ++ '=' :: t =
        (n ++ '=' :: (partition ',' t).1) ++ ',' :: later t := by
      conv_lhs => rw [partition_eq hmem]
      simp [later]
    have hlater : ∀ f ∈ split ',' (later t), '=' ∉ f := by
      intro f hf hmem
      apply ht
      rw [← join_split ',' (later t)]
      exact mem_join_of_mem hf hmem
    rw [hsplit, split_append_cons, split_of_notMem hfirst, List.singleton_append, List.foldl_cons,
      parseStep_assign st _ heq, foldl_parseStep_continue _ _ _ hlater,
      flatMap_comma (split_ne_nil ',' _), join_split, later, ← partition_eq hmem]
  · have hno : ',' ∉ n ++ '=' :: t := by simp [hcomma, hmem]
    rw [split_of_notMem hno, List.foldl_cons, parseStep_assign st t heq, List.foldl_nil]

/-- The parameters of a name, one after the other. -/
theorem foldl_parseStep_join {ps : List (Str × Str)} (hne : ps ≠ [])
    (h : ∀ p ∈ ps, ',' ∉ p.1 ∧ '=' ∉ p.1 ∧ '=' ∉ later p.2) (st : Dict Str Str × Option Str) :
    ((split ',' (join ',' (ps.map fun p => p.1 ++ '=' :: p.2))).foldl parseStep st).1 =
      st.1.setAll ps := by
  induction ps generalizing st with
  | nil => exact absurd rfl hne
  | cons p ps ih =>
    obtain ⟨hcomma, heq, hlater⟩ := h p (by simp)
    have hstep : st.1.setAll (p :: ps) = (st.1.set p.1 p.2).setAll ps := rfl
    by_cases hps : ps = []
    · subst hps
      rw [List.map_cons, List.map_nil, join, foldl_parseStep_split st hcomma heq hlater]
      rfl
    · rw [List.map_cons, join_cons_of_ne_nil _ _ (by simpa using hps), split_append_cons,
        List.foldl_append, foldl_parseStep_split st hcomma heq hlater, hstep]
      exact ih hps (fun q hq => h q (List.mem_cons_of_mem _ hq)) _

/-- Values read so far have no `=` after a comma. -/
def NoLater (d : Dict Str Str) : Prop := ∀ n t, d.get? n = some t → '=' ∉ later t

theorem NoLater.set {d : Dict Str Str} (hd : NoLater d) {n t : Str} (ht : '=' ∉ later t) :
    NoLater (d.set n t) := by
  intro m u hm
  rw [Dict.get?_set] at hm
  split at hm
  · obtain rfl : t = u := by simpa using hm
    exact ht
  · exact hd m u hm

theorem NoLater.parseStep {st : Dict Str Str × Option Str} (hst : NoLater st.1) {pair : Str}
    (hpair : ',' ∉ pair) : NoLater (parseStep st pair).1 := by
  have hassign : '=' ∉ later (partition '=' pair).2 := by
    by_cases heq : '=' ∈ pair
    · have hcomma : ',' ∉ (partition '=' pair).2 := by
        intro h
        apply hpair
        rw [partition_eq heq]
        simp [h]
      rw [later_of_notMem hcomma]
      simp
    · rw [partition_of_notMem heq]
      simp [later, partition]
  unfold PartCAD.Package.parseStep
  split
  · rename_i last _
    split
    · rename_i heq
      refine hst.set (notMem_later_append ?_ heq)
      cases hlast : st.1.get? last with
      | none => simp [later, partition]
      | some t => exact hst last t hlast
    · exact hst.set hassign
  · exact hst.set hassign

/-- No value is read with a `=` after a comma in it. -/
theorem later_of_parse (name : Str) : NoLater (parseParameterizedName name).2 := by
  have hrun : ∀ (ps : List Str) (st : Dict Str Str × Option Str), (∀ p ∈ ps, ',' ∉ p) →
      NoLater st.1 → NoLater (ps.foldl PartCAD.Package.parseStep st).1 := by
    intro ps
    induction ps with
    | nil => exact fun st _ hst => hst
    | cons p ps ih =>
      intro st hps hst
      exact ih _ (fun q hq => hps q (List.mem_cons_of_mem _ hq))
        (hst.parseStep (hps p (by simp)))
  refine hrun _ _ ?_ (by intro n t h; simp at h)
  split
  · simp
  · exact fun p hp => notMem_of_mem_split hp

/-! ## Applying values -/

section

variable {F : Type} [PyFloat F] (printable : Char → Bool)

/-- Values of the declared types. -/
def HasType : Option ParamType → Value F → Prop
  | some .string, .str _ => True
  | some .int, .int _ => True
  | some .float, .float _ => True
  | some .bool, .bool _ => True
  | some .array, .list _ => True
  | _, _ => False

/-- The text of a value that is no list is read back as the value. -/
theorem coerceParameterValue_strText {type : Option ParamType} {v : Value F} (h : HasType type v)
    (hlist : ∀ vs, v ≠ .list vs) (n o : Str) :
    coerceParameterValue printable type (.str (strText printable v)) n o = .ok v := by
  unfold HasType at h
  split at h
  · rfl
  · rename_i n
    have hint := toIntegral_decimalOf_intText n
    obtain ⟨d, hd, hn⟩ := Option.bind_eq_some_iff.1 hint
    simp [coerceParameterValue, strText_str, strText_int, hd, hn]
  · rename_i x
    simp [coerceParameterValue, strText_float, floatOf, PyFloat.ofText_repr]
  · rename_i b
    cases b with
    | false => rfl
    | true => rfl
  · exact absurd rfl (hlist _)
  · exact absurd h id

/-- Only a text can have a `=` after a comma. -/
theorem notMem_later_strText {type : Option ParamType} {v : Value F} (h : HasType type v)
    (hlist : ∀ vs, v ≠ .list vs) (hstr : ∀ s, v = .str s → '=' ∉ later s) :
    '=' ∉ later (strText printable v) := by
  have hcomma : ∀ t : Str, ',' ∉ t → '=' ∉ later t := by
    intro t ht
    rw [later_of_notMem ht]
    simp
  unfold HasType at h
  split at h
  · exact hstr _ rfl
  · exact hcomma _ (notMem_intText (by decide) (by decide))
  · exact hcomma _ (notMem_of_isFloatText (PyFloat.isFloatText_repr _) (by decide) (by decide))
  · rename_i b
    cases b with
    | false => exact hcomma "False".toList (by decide)
    | true => exact hcomma "True".toList (by decide)
  · exact absurd rfl (hlist _)
  · exact absurd h id

variable {printable} {objectName : Str}

theorem applyParameterValue_eq_ok {ps ps' : Dict Str (Parameter F)} {p : Str × Value F} :
    applyParameterValue printable objectName ps p = .ok ps' ↔
      ∃ declared w, ps.get? p.1 = some declared ∧
        coerceParameterValue printable declared.type p.2 p.1 objectName = .ok w ∧
        ps' = ps.set p.1 { declared with default := some w } := by
  unfold applyParameterValue
  cases ps.get? p.1 with
  | none => simp
  | some declared =>
    cases hc : coerceParameterValue printable declared.type p.2 p.1 objectName with
    | error e => simp [hc]
    | ok w => simp only [Except.ok.injEq, Option.some.injEq, exists_and_left, exists_eq_left', hc,
        eq_comm]

/-- What a run of assignments does to the declarations. -/
theorem get?_of_foldlM {vs : List (Str × Value F)} (hnodup : (vs.map Prod.fst).Nodup)
    {ps result : Dict Str (Parameter F)}
    (h : vs.foldlM (applyParameterValue printable objectName) ps = .ok result) :
    (∀ n v, (n, v) ∈ vs → ∃ declared w, ps.get? n = some declared ∧
        coerceParameterValue printable declared.type v n objectName = .ok w ∧
        result.get? n = some { declared with default := some w }) ∧
      ∀ n, n ∉ vs.map Prod.fst → result.get? n = ps.get? n := by
  induction vs generalizing ps with
  | nil =>
    obtain rfl : ps = result := by simpa [pure, Except.pure] using h
    simp
  | cons p vs ih =>
    obtain ⟨m, u⟩ := p
    simp only [List.map_cons, List.nodup_cons] at hnodup
    rw [List.foldlM_cons] at h
    cases hstep : applyParameterValue printable objectName ps (m, u) with
    | error e =>
      rw [hstep] at h
      exact absurd h (by simp [bind, Except.bind])
    | ok ps' =>
      rw [hstep] at h
      obtain ⟨declared, w, hget, hcoerce, rfl⟩ := applyParameterValue_eq_ok.1 hstep
      obtain ⟨hin, hout⟩ := ih hnodup.2 h
      refine ⟨fun n v hmem => ?_, fun n hn => ?_⟩
      · rcases List.mem_cons.1 hmem with heq | hmem
        · obtain ⟨rfl, rfl⟩ := Prod.mk.inj heq
          exact ⟨declared, w, hget, hcoerce, by rw [hout n hnodup.1, Dict.get?_set_self]⟩
        · have hne : m ≠ n := by
            rintro rfl
            exact hnodup.1 (List.mem_map.2 ⟨(m, v), hmem, rfl⟩)
          obtain ⟨declared', w', hget', hrest⟩ := hin n v hmem
          rw [Dict.get?_set_of_ne _ _ hne] at hget'
          exact ⟨declared', w', hget', hrest⟩
      · simp only [List.map_cons, List.mem_cons, not_or] at hn
        rw [hout n hn.2, Dict.get?_set_of_ne _ _ (Ne.symm hn.1)]

theorem exists_foldlM {vs : List (Str × Value F)} (hnodup : (vs.map Prod.fst).Nodup)
    {ps : Dict Str (Parameter F)}
    (h : ∀ n v, (n, v) ∈ vs → ∃ declared w, ps.get? n = some declared ∧
      coerceParameterValue printable declared.type v n objectName = .ok w) :
    ∃ result, vs.foldlM (applyParameterValue printable objectName) ps = .ok result := by
  induction vs generalizing ps with
  | nil => exact ⟨ps, rfl⟩
  | cons p vs ih =>
    obtain ⟨m, u⟩ := p
    simp only [List.map_cons, List.nodup_cons] at hnodup
    obtain ⟨declared, w, hget, hcoerce⟩ := h m u (by simp)
    have hstep : applyParameterValue printable objectName ps (m, u) =
        .ok (ps.set m { declared with default := some w }) :=
      applyParameterValue_eq_ok.2 ⟨declared, w, hget, hcoerce, rfl⟩
    have hrest : ∀ n v, (n, v) ∈ vs → ∃ declared' w',
        (ps.set m { declared with default := some w }).get? n = some declared' ∧
          coerceParameterValue printable declared'.type v n objectName = .ok w' := by
      intro n v hmem
      have hne : m ≠ n := by
        rintro rfl
        exact hnodup.1 (List.mem_map.2 ⟨(m, v), hmem, rfl⟩)
      rw [Dict.get?_set_of_ne _ _ hne]
      exact h n v (List.mem_cons_of_mem _ hmem)
    obtain ⟨result, hresult⟩ := ih hnodup.2 hrest
    exact ⟨result, by rw [List.foldlM_cons, hstep]; exact hresult⟩

end

/-! ## Names that are read back -/

section

variable {F : Type} [PyFloat F] (printable : Char → Bool)

/-- The values assigned to an object's parameters come back from its name: the base name, the
parameters assigned, and the declarations with the values in them and otherwise unchanged. -/
def RoundTrips (parameters : Dict Str (Parameter F)) (base : Str) (values : Dict Str (Value F)) :
    Prop :=
  let name := formatParameterizedName printable base values
  let parsed := parseParameterizedName name
  parsed.1 = base ∧ (∀ n, n ∈ parsed.2.keys ↔ n ∈ values.keys) ∧
    ∃ result,
      applyParameterValues printable parameters (parsed.2.mapValues Value.str) name = .ok result ∧
      ∀ n, result.get? n =
        match values.get? n with
        | some v => (parameters.get? n).map fun declared => { declared with default := some v }
        | none => parameters.get? n

/-- The texts in a name, in the order of the names. -/
def texts (values : Dict Str (Value F)) : List (Str × Str) :=
  (sortItems values.items).map fun p => (p.1, strText printable p.2)

theorem nodup_texts (values : Dict Str (Value F)) :
    ((texts printable values).map Prod.fst).Nodup := by
  have hperm := (perm_sortItems values.items).map Prod.fst
  rw [texts, List.map_map]
  exact hperm.nodup_iff.2 values.nodup

theorem mem_texts {values : Dict Str (Value F)} {n t : Str} :
    (n, t) ∈ texts printable values ↔ ∃ v, values.get? n = some v ∧ t = strText printable v := by
  simp only [texts, List.mem_map, Prod.mk.injEq, Prod.exists, (perm_sortItems _).mem_iff,
    Dict.get?_eq_some]
  constructor
  · rintro ⟨m, v, hmem, rfl, rfl⟩
    exact ⟨v, hmem, rfl⟩
  · rintro ⟨v, hmem, rfl⟩
    exact ⟨n, v, hmem, rfl, rfl⟩

theorem parseParameterizedName_base {base : Str} (hbase : ';' ∉ base) :
    parseParameterizedName base = (base, Dict.empty) := by
  rw [parseParameterizedName, partition_of_notMem hbase]
  rfl

theorem formatParameterizedName_eq {base : Str} (hbase : ';' ∉ base)
    (values : Dict Str (Value F)) :
    formatParameterizedName printable base values =
      if values.items = [] then base
      else base ++ ';' :: join ',' ((texts printable values).map fun p => p.1 ++ '=' :: p.2) := by
  have hmerged : (Dict.empty.mapValues Value.str).update values = values :=
    Dict.empty_update values
  simp only [formatParameterizedName, parseParameterizedName_base hbase, hmerged, texts,
    List.map_map]
  rfl

/-- What is read in a name that was written from values without a `=` after a comma. -/
theorem parse_format {base : Str} (hbase : ';' ∉ base) {values : Dict Str (Value F)}
    (h : ∀ p ∈ texts printable values, ',' ∉ p.1 ∧ '=' ∉ p.1 ∧ '=' ∉ later p.2) :
    parseParameterizedName (formatParameterizedName printable base values) =
      (base, Dict.ofPairs (texts printable values)) := by
  rw [formatParameterizedName_eq printable hbase]
  split
  · rename_i hitems
    rw [parseParameterizedName_base hbase]
    simp [texts, hitems, sortItems]
    rfl
  · rename_i hitems
    have hne : texts printable values ≠ [] := by
      intro hnil
      have hlen := congrArg List.length hnil
      rw [texts, List.length_map, (perm_sortItems _).length_eq] at hlen
      exact hitems (List.length_eq_zero_iff.1 hlen)
    have hsuffix : join ',' ((texts printable values).map fun p => p.1 ++ '=' :: p.2) ≠ [] := by
      intro hnil
      have hpieces : ∀ p ∈ (texts printable values).map fun p => p.1 ++ '=' :: p.2, p ≠ [] := by
        intro p hp
        obtain ⟨q, -, rfl⟩ := List.mem_map.1 hp
        simp
      exact hne (List.map_eq_nil_iff.1 (join_eq_nil hpieces hnil))
    rw [parseParameterizedName, partition_append_cons _ hbase]
    simp only [hsuffix, if_false]
    rw [foldl_parseStep_join hne h]
    rfl

/-- Every value has the type that its parameter is declared with. -/
def WellTyped (parameters : Dict Str (Parameter F)) (values : Dict Str (Value F)) : Prop :=
  ∀ n v, values.get? n = some v →
    ∃ declared, parameters.get? n = some declared ∧ HasType declared.type v

/-- A value that a name can hold: no list, and no text with a `=` after its first comma. -/
def Nameable (v : Value F) : Prop :=
  (∀ vs, v ≠ .list vs) ∧ ∀ s, v = .str s → '=' ∉ later s

section

variable {parameters : Dict Str (Parameter F)} {base : Str} {values : Dict Str (Value F)}

theorem roundTrips_of_nameable (hbase : ';' ∉ base)
    (hnames : ∀ n ∈ values.keys, ',' ∉ n ∧ '=' ∉ n) (htyped : WellTyped parameters values)
    (h : ∀ n v, values.get? n = some v → Nameable v) :
    RoundTrips printable parameters base values := by
  have htexts : ∀ p ∈ texts printable values, ',' ∉ p.1 ∧ '=' ∉ p.1 ∧ '=' ∉ later p.2 := by
    rintro ⟨n, t⟩ hp
    obtain ⟨v, hv, rfl⟩ := (mem_texts printable).1 hp
    have hn := hnames n (Dict.mem_keys.2 ⟨v, Dict.get?_eq_some.1 hv⟩)
    obtain ⟨declared, -, htype⟩ := htyped n v hv
    exact ⟨hn.1, hn.2, notMem_later_strText printable htype (h n v hv).1 (h n v hv).2⟩
  have hitems := Dict.items_ofPairs (nodup_texts printable values)
  unfold RoundTrips
  simp only [parse_format printable hbase htexts]
  refine ⟨trivial, fun n => ?_, ?_⟩
  · rw [Dict.mem_keys, Dict.mem_keys, hitems]
    constructor
    · rintro ⟨t, ht⟩
      obtain ⟨v, hv, -⟩ := (mem_texts printable).1 ht
      exact ⟨v, Dict.get?_eq_some.1 hv⟩
    · rintro ⟨v, hv⟩
      exact ⟨_, (mem_texts printable).2 ⟨v, Dict.get?_eq_some.2 hv, rfl⟩⟩
  · have hmem : ∀ n w, (n, w) ∈ ((Dict.ofPairs (texts printable values)).mapValues
        (Value.str (F := F))).items ↔
          ∃ v, values.get? n = some v ∧ w = .str (strText printable v) := by
      intro n w
      simp only [Dict.mapValues, hitems, List.mem_map, Prod.mk.injEq, Prod.exists]
      constructor
      · rintro ⟨m, t, ht, rfl, rfl⟩
        obtain ⟨v, hv, rfl⟩ := (mem_texts printable).1 ht
        exact ⟨v, hv, rfl⟩
      · rintro ⟨v, hv, rfl⟩
        exact ⟨n, _, (mem_texts printable).2 ⟨v, hv, rfl⟩, rfl, rfl⟩
    have hnodup := ((Dict.ofPairs (texts printable values)).mapValues (Value.str (F := F))).nodup
    have hcoerce : ∀ n v, values.get? n = some v → ∃ declared, parameters.get? n = some declared ∧
        coerceParameterValue printable declared.type (.str (strText printable v)) n
          (formatParameterizedName printable base values) = .ok v := by
      intro n v hv
      obtain ⟨declared, hdeclared, htype⟩ := htyped n v hv
      exact ⟨declared, hdeclared, coerceParameterValue_strText printable htype (h n v hv).1 n _⟩
    obtain ⟨result, hresult⟩ := exists_foldlM hnodup fun n w hw => by
      obtain ⟨v, hv, rfl⟩ := (hmem n w).1 hw
      obtain ⟨declared, hdeclared, hok⟩ := hcoerce n v hv
      exact ⟨declared, v, hdeclared, hok⟩
    obtain ⟨hin, hout⟩ := get?_of_foldlM hnodup hresult
    refine ⟨result, hresult, fun n => ?_⟩
    cases hv : values.get? n with
    | some v =>
      obtain ⟨declared, w, hdeclared, hw, hget⟩ := hin n _ ((hmem n _).2 ⟨v, hv, rfl⟩)
      obtain ⟨declared', hdeclared', hok⟩ := hcoerce n v hv
      rw [hdeclared, Option.some.injEq] at hdeclared'
      subst hdeclared'
      rw [hok, Except.ok.injEq] at hw
      rw [hget, hdeclared, ← hw]
      rfl
    | none =>
      refine hout n fun hkey => ?_
      obtain ⟨⟨m, w⟩, hw, rfl⟩ := List.mem_map.1 hkey
      obtain ⟨v, hv', -⟩ := (hmem m w).1 hw
      rw [hv] at hv'
      exact absurd hv' (by simp)

theorem nameable_of_roundTrips (htyped : WellTyped parameters values)
    (h : RoundTrips printable parameters base values) :
    ∀ n v, values.get? n = some v → Nameable v := by
  intro n v hv
  obtain ⟨-, hkeys, result, hresult, hget⟩ := h
  obtain ⟨declared, hdeclared, htype⟩ := htyped n v hv
  -- the parameter is read from the name, as some text
  obtain ⟨t, ht⟩ := Dict.mem_keys.1 ((hkeys n).2 (Dict.mem_keys.2 ⟨v, Dict.get?_eq_some.1 hv⟩))
  have hitem : (n, Value.str (F := F) t) ∈ ((parseParameterizedName
      (formatParameterizedName printable base values)).2.mapValues Value.str).items :=
    List.mem_map.2 ⟨(n, t), ht, rfl⟩
  obtain ⟨declared', w, hdeclared', hw, hget'⟩ :=
    (get?_of_foldlM (Dict.nodup _) hresult).1 n _ hitem
  rw [hdeclared, Option.some.injEq] at hdeclared'
  subst hdeclared'
  have heq : w = v := by
    rw [hget n, hv, hdeclared] at hget'
    simpa using hget'.symm
  subst heq
  constructor
  · rintro vs rfl
    have htypeArray : declared.type = some .array := by
      unfold HasType at htype
      split at htype <;> simp_all
    rw [htypeArray] at hw
    exact absurd hw (by simp [coerceParameterValue])
  · rintro s rfl
    have htypeString : declared.type = some .string := by
      unfold HasType at htype
      split at htype <;> simp_all
    rw [htypeString] at hw
    obtain rfl : t = s := by simpa [coerceParameterValue, strText] using hw
    exact later_of_parse _ n t (Dict.get?_eq_some.2 ht)

end

end

/-- A declaration section with one parameter. -/
def oneParameter (type : ParamType) : Dict Str (Parameter DigitFloat) :=
  Dict.empty.set "p".toList ⟨some type, none⟩

/-- One value. -/
def oneValue (v : Value DigitFloat) : Dict Str (Value DigitFloat) := Dict.empty.set "p".toList v

theorem wellTyped_oneValue {type : ParamType} {v : Value DigitFloat} (h : HasType (some type) v) :
    WellTyped (oneParameter type) (oneValue v) := by
  intro n w hw
  rw [oneValue, Dict.get?_set] at hw
  split at hw
  · rename_i hn
    obtain rfl : v = w := by simpa using hw
    exact ⟨⟨some type, none⟩, by rw [oneParameter, Dict.get?_set, if_pos hn], h⟩
  · simp at hw

end PartCAD.Package
