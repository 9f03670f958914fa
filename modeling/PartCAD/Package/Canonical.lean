import PartCAD.Package.Names

/-!
# Canonical names of instances

Reading a name and writing it again gives the canonical name of an instance: its base, and its
parameters in the order of their names.

* `same_parse_canonicalName` : the canonical name is read as the name itself is;
* `canonicalName_eq_iff` : two names have one canonical name when they are read alike;
* `format_format` : parameters given to an instance override the ones that it has.
-/

namespace PartCAD.Package

open PartCAD.Lib PartCAD.Lib.Text

/-! ## What can be read -/

/-- Parameters with names and values that a name can hold. -/
structure Readable (d : Dict Str Str) : Prop where
  names : ∀ n ∈ d.keys, ',' ∉ n ∧ '=' ∉ n
  values : NoLater d

theorem Readable.empty : Readable Dict.empty where
  names := by
    intro n hn
    simp [Dict.keys, Dict.empty] at hn
  values := by
    intro n t h
    simp at h

/-- One piece keeps what was read readable, and the name that it leaves for the next piece too. -/
theorem readable_parseStep {st : Dict Str Str × Option Str} {pair : Str} (hpair : ',' ∉ pair)
    (hst : Readable st.1) (hlast : ∀ n, st.2 = some n → ',' ∉ n ∧ '=' ∉ n) :
    Readable (parseStep st pair).1 ∧ ∀ n, (parseStep st pair).2 = some n → ',' ∉ n ∧ '=' ∉ n := by
  have hfst : ',' ∉ (partition '=' pair).1 := by
    by_cases heq : '=' ∈ pair
    · intro hmem
      apply hpair
      rw [partition_eq heq]
      exact List.mem_append_left _ hmem
    · rw [partition_of_notMem heq]
      exact hpair
  have hname : ',' ∉ (partition '=' pair).1 ∧ '=' ∉ (partition '=' pair).1 :=
    ⟨hfst, notMem_partition_fst '=' pair⟩
  have hvalues := hst.values.parseStep hpair
  -- the piece assigns to a name: that of the piece, or the last one
  obtain ⟨m, t, hm, hstep⟩ : ∃ m t, (',' ∉ m ∧ '=' ∉ m) ∧
      parseStep st pair = (st.1.set m t, some m) := by
    unfold parseStep
    split
    · rename_i last hl
      split
      · exact ⟨last, _, hlast last hl, rfl⟩
      · exact ⟨_, _, hname, rfl⟩
    · exact ⟨_, _, hname, rfl⟩
  rw [hstep] at hvalues ⊢
  refine ⟨⟨fun n hn => ?_, hvalues⟩, fun n hn => ?_⟩
  · rcases Dict.mem_keys_set.1 hn with rfl | hn
    · exact hm
    · exact hst.names n hn
  · obtain rfl : m = n := by simpa using hn
    exact hm

/-- What is read from a name is readable. -/
theorem readable_parse (name : Str) : Readable (parseParameterizedName name).2 := by
  have hrun : ∀ (ps : List Str) (st : Dict Str Str × Option Str), (∀ p ∈ ps, ',' ∉ p) →
      Readable st.1 → (∀ n, st.2 = some n → ',' ∉ n ∧ '=' ∉ n) →
      Readable (ps.foldl parseStep st).1 := by
    intro ps
    induction ps with
    | nil => exact fun st _ hst _ => hst
    | cons p ps ih =>
      intro st hps hst hlast
      obtain ⟨hst', hlast'⟩ := readable_parseStep (hps p (by simp)) hst hlast
      exact ih _ (fun q hq => hps q (List.mem_cons_of_mem _ hq)) hst' hlast'
  refine hrun _ _ ?_ Readable.empty (by simp)
  split
  · simp
  · exact fun p hp => notMem_of_mem_split hp

theorem Readable.update {d e : Dict Str Str} (hd : Readable d) (he : Readable e) :
    Readable (d.update e) := by
  have hget : ∀ n t, (d.update e).get? n = some t → e.get? n = some t ∨ d.get? n = some t := by
    intro n t h
    rw [Dict.get?_update] at h
    cases hn : e.get? n with
    | none => exact Or.inr (by simpa [hn] using h)
    | some u => exact Or.inl (by simpa [hn] using h)
  constructor
  · intro n hn
    obtain ⟨t, ht⟩ := Dict.mem_keys.1 hn
    rcases hget n t (Dict.get?_eq_some.2 ht) with h | h
    · exact he.names n (Dict.mem_keys.2 ⟨t, Dict.get?_eq_some.1 h⟩)
    · exact hd.names n (Dict.mem_keys.2 ⟨t, Dict.get?_eq_some.1 h⟩)
  · intro n t h
    rcases hget n t h with h | h
    · exact he.values n t h
    · exact hd.values n t h

/-! ## Writing what was read -/

section

variable {F : Type} [PyFloat F] (printable : Char → Bool)

/-- `format_parameterized_name(base, parameters)` for parameters that are texts. -/
def formatTexts (F : Type) [PyFloat F] (printable : Char → Bool) (base : Str)
    (parameters : Dict Str Str) : Str :=
  formatParameterizedName (F := F) printable base (parameters.mapValues Value.str)

/-- `format_parameterized_name(*parse_parameterized_name(name))` -/
def canonicalName (F : Type) [PyFloat F] (printable : Char → Bool) (name : Str) : Str :=
  formatTexts F printable (parseParameterizedName name).1 (parseParameterizedName name).2

theorem base_notMem (name : Str) : ';' ∉ (parseParameterizedName name).1 :=
  notMem_partition_fst ';' name

/-- Only what is in the parameters counts, and not their order. -/
theorem formatParameterizedName_congr {base : Str} (hbase : ';' ∉ base)
    {values values' : Dict Str (Value F)} (h : Dict.Same values values') :
    formatParameterizedName printable base values =
      formatParameterizedName printable base values' := by
  have htexts : texts printable values = texts printable values' := by
    rw [texts, sortItems_eq_of_perm h.perm values.nodup, texts]
  have hnil : values.items = [] ↔ values'.items = [] := by
    constructor
    · intro hv
      exact List.nil_perm.1 (hv ▸ h.perm)
    · intro hv
      exact List.perm_nil.1 (hv ▸ h.perm)
  rw [formatParameterizedName_eq printable hbase, formatParameterizedName_eq printable hbase, htexts]
  simp only [hnil]

theorem formatTexts_congr {base : Str} (hbase : ';' ∉ base) {d e : Dict Str Str}
    (h : Dict.Same d e) : formatTexts F printable base d = formatTexts F printable base e := by
  refine formatParameterizedName_congr printable hbase fun n => ?_
  rw [Dict.get?_mapValues, Dict.get?_mapValues, h n]

/-- What is written is the base of the name and all the parameters that go with it. -/
theorem formatTexts_eq (name : Str) (d : Dict Str Str) :
    formatTexts F printable name d = formatTexts F printable (parseParameterizedName name).1
      ((parseParameterizedName name).2.update d) := by
  have hsame : Dict.Same
      (((parseParameterizedName name).2.mapValues (Value.str (F := F))).update
        (d.mapValues Value.str))
      (((parseParameterizedName name).2.update d).mapValues Value.str) := by
    intro n
    rw [Dict.get?_update, Dict.get?_mapValues, Dict.get?_mapValues, Dict.get?_mapValues,
      Dict.get?_update]
    cases d.get? n <;> rfl
  have hbase := base_notMem name
  have hwrite := formatParameterizedName_congr printable hbase hsame
  have hmerged : ∀ values : Dict Str (Value F),
      (Dict.empty.mapValues Value.str).update values = values := Dict.empty_update
  unfold formatTexts
  rw [← hwrite]
  simp only [formatParameterizedName, parseParameterizedName_base hbase, hmerged]

theorem parse_formatTexts {base : Str} (hbase : ';' ∉ base) {d : Dict Str Str} (hd : Readable d) :
    (parseParameterizedName (formatTexts F printable base d)).1 = base ∧
      Dict.Same (parseParameterizedName (formatTexts F printable base d)).2 d := by
  have hmem : ∀ n t, (n, t) ∈ texts printable (d.mapValues (Value.str (F := F))) ↔
      d.get? n = some t := by
    intro n t
    rw [mem_texts, Dict.get?_mapValues]
    constructor
    · rintro ⟨v, hv, rfl⟩
      obtain ⟨u, hu, rfl⟩ := Option.map_eq_some_iff.1 hv
      exact hu
    · intro ht
      exact ⟨.str t, by rw [ht]; rfl, rfl⟩
  have htexts : ∀ p ∈ texts printable (d.mapValues (Value.str (F := F))),
      ',' ∉ p.1 ∧ '=' ∉ p.1 ∧ '=' ∉ later p.2 := by
    rintro ⟨n, t⟩ hp
    have hget := (hmem n t).1 hp
    have hn := hd.names n (Dict.mem_keys.2 ⟨t, Dict.get?_eq_some.1 hget⟩)
    exact ⟨hn.1, hn.2, hd.values n t hget⟩
  rw [formatTexts, parse_format printable hbase htexts]
  refine ⟨rfl, fun n => ?_⟩
  apply Option.ext
  intro t
  rw [Dict.get?_eq_some, Dict.items_ofPairs (nodup_texts printable _), hmem]

/-- **The canonical name is read as the name itself is.** -/
theorem same_parse_canonicalName (name : Str) :
    (parseParameterizedName (canonicalName F printable name)).1 =
        (parseParameterizedName name).1 ∧
      Dict.Same (parseParameterizedName (canonicalName F printable name)).2
        (parseParameterizedName name).2 :=
  parse_formatTexts printable (base_notMem name) (readable_parse name)

/-- **Two names have one canonical name when they are read alike.** -/
theorem canonicalName_eq_iff (name name' : Str) :
    canonicalName F printable name = canonicalName F printable name' ↔
      (parseParameterizedName name).1 = (parseParameterizedName name').1 ∧
        Dict.Same (parseParameterizedName name).2 (parseParameterizedName name').2 := by
  obtain ⟨hbase, hsame⟩ := same_parse_canonicalName (F := F) printable name
  obtain ⟨hbase', hsame'⟩ := same_parse_canonicalName (F := F) printable name'
  constructor
  · intro h
    rw [← h] at hbase' hsame'
    exact ⟨hbase.symm.trans hbase', fun n => (hsame n).symm.trans (hsame' n)⟩
  · rintro ⟨h, hread⟩
    rw [canonicalName, canonicalName, ← h]
    exact formatTexts_congr printable (base_notMem name) hread

/-- **Parameters given to an instance** override the ones that it has. -/
theorem format_format (base name name' : Str) :
    formatTexts F printable (formatTexts F printable base (parseParameterizedName name).2)
        (parseParameterizedName name').2 =
      formatTexts F printable base
        ((parseParameterizedName name).2.update (parseParameterizedName name').2) := by
  set p := (parseParameterizedName name).2
  set q := (parseParameterizedName name').2
  have hbase := base_notMem base
  have hreadable : Readable ((parseParameterizedName base).2.update p) :=
    (readable_parse base).update (readable_parse name)
  obtain ⟨hinner, hsame⟩ := parse_formatTexts (F := F) printable hbase hreadable
  rw [← formatTexts_eq] at hinner hsame
  rw [formatTexts_eq printable (formatTexts F printable base p) q, hinner,
    formatTexts_eq printable base (p.update q)]
  refine formatTexts_congr printable hbase fun n => ?_
  rw [Dict.get?_update, hsame n, Dict.get?_update, Dict.get?_update, Dict.get?_update,
    Option.or_assoc]

/-- **Names of instances are canonical**: what is written from a name is read as the name is, two
names have one canonical name when they are read alike, and parameters given to an instance
override the ones that it has. -/
theorem names_canonical :
    (∀ name, (parseParameterizedName (canonicalName F printable name)).1 =
        (parseParameterizedName name).1 ∧
      Dict.Same (parseParameterizedName (canonicalName F printable name)).2
        (parseParameterizedName name).2) ∧
    (∀ name name', canonicalName F printable name = canonicalName F printable name' ↔
      (parseParameterizedName name).1 = (parseParameterizedName name').1 ∧
        Dict.Same (parseParameterizedName name).2 (parseParameterizedName name').2) ∧
    ∀ base name name',
      formatTexts F printable (formatTexts F printable base (parseParameterizedName name).2)
          (parseParameterizedName name').2 =
        formatTexts F printable base
          ((parseParameterizedName name).2.update (parseParameterizedName name').2) :=
  ⟨same_parse_canonicalName printable, canonicalName_eq_iff printable, format_format printable⟩

end

end PartCAD.Package
