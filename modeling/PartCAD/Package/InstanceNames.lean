import PartCAD.Package.Names
import PartCAD.Package.Relocate

/-!
# Full names of instances

An object is known outside its package by the path of the package and its own name with a `:` between
them, and an instance with parameter values has these in its name.  `resolveResourcePath` looks for
the `:` in the whole text, and rewrites wildcards in both halves.

* `Unmarked` : a text with neither a separator nor a wildcard in it;
* `unmarked_text_iff` : the names of instances of which this holds;
* `resolve_full_iff` : the full names that lead back to the instance.
-/

namespace PartCAD.Package

open PartCAD.Lib PartCAD.Lib.Text

/-! ## Unmarked texts -/

/-- A text with neither a separator nor a wildcard in it. -/
def Unmarked (s : Str) : Prop := ':' ∉ s ∧ ¬ ellipsis <:+: s

instance (s : Str) : Decidable (Unmarked s) := by unfold Unmarked; infer_instance

/-- A text is not found across a character that it does not hold. -/
theorem infix_append_cons_iff {a : Char} {pattern : Str} (ha : a ∉ pattern) (s t : Str) :
    pattern <:+: s ++ a :: t ↔ pattern <:+: s ∨ pattern <:+: t := by
  have hbegin : ∀ front : Str, front <+: a :: t → a ∉ front → front = [] := by
    intro front h hnot
    cases front with
    | nil => rfl
    | cons b front => exact absurd (by simp [(List.cons_prefix_cons.1 h).1]) hnot
  constructor
  · intro h
    rcases List.infix_append_iff.1 h with h | h | ⟨front, back, rfl, hfront, hback⟩
    · exact Or.inl h
    · rcases List.infix_cons_iff.1 h with h | h
      · rw [hbegin pattern h ha]
        exact Or.inl (List.nil_infix)
      · exact Or.inr h
    · obtain rfl := hbegin back hback fun hmem => ha (List.mem_append_right _ hmem)
      rw [List.append_nil]
      exact Or.inl hfront.isInfix
  · rintro (h | h)
    · exact List.infix_append_of_infix_left h
    · exact List.infix_append_of_infix_right (List.infix_cons h)

theorem unmarked_nil : Unmarked [] := ⟨List.not_mem_nil, by decide⟩

theorem unmarked_append_cons {a : Char} (hcolon : a ≠ ':') (hdot : a ≠ '.') (s t : Str) :
    Unmarked (s ++ a :: t) ↔ Unmarked s ∧ Unmarked t := by
  have ha : a ∉ ellipsis := by simp [ellipsis, hdot]
  simp only [Unmarked, infix_append_cons_iff ha, List.mem_append, List.mem_cons, Ne.symm hcolon,
    false_or, not_or]
  constructor
  · rintro ⟨⟨hs, ht⟩, hse, hte⟩
    exact ⟨⟨hs, hse⟩, ht, hte⟩
  · rintro ⟨⟨hs, hse⟩, ht, hte⟩
    exact ⟨⟨hs, ht⟩, hse, hte⟩

theorem unmarked_join {a : Char} (hcolon : a ≠ ':') (hdot : a ≠ '.') (ps : List Str) :
    Unmarked (join a ps) ↔ ∀ p ∈ ps, Unmarked p := by
  induction ps with
  | nil => simpa [join] using unmarked_nil
  | cons p ps ih =>
    by_cases hps : ps = []
    · subst hps
      simp [join]
    · rw [join_cons_of_ne_nil a p hps, unmarked_append_cons hcolon hdot, ih, List.forall_mem_cons]

theorem Unmarked.partition {a : Char} (hcolon : a ≠ ':') (hdot : a ≠ '.') {s : Str}
    (h : Unmarked s) : Unmarked (partition a s).1 ∧ Unmarked (partition a s).2 := by
  by_cases ha : a ∈ s
  · rw [partition_eq ha] at h
    exact (unmarked_append_cons hcolon hdot _ _).1 h
  · rw [partition_of_notMem ha]
    exact ⟨h, unmarked_nil⟩

theorem Unmarked.of_mem_split {a : Char} (hcolon : a ≠ ':') (hdot : a ≠ '.') {s p : Str}
    (h : Unmarked s) (hp : p ∈ split a s) : Unmarked p := by
  rw [← join_split a s] at h
  exact (unmarked_join hcolon hdot _).1 h p hp

/-! ## What a name is read as -/

/-- Parameters with unmarked names and values. -/
def UnmarkedItems (d : Dict Str Str) : Prop :=
  ∀ n t, d.get? n = some t → Unmarked n ∧ Unmarked t

theorem UnmarkedItems.set {d : Dict Str Str} (hd : UnmarkedItems d) {n t : Str} (hn : Unmarked n)
    (ht : Unmarked t) : UnmarkedItems (d.set n t) := by
  intro m u hm
  rw [Dict.get?_set] at hm
  split at hm
  · rename_i hnm
    obtain rfl : t = u := by simpa using hm
    exact ⟨hnm ▸ hn, ht⟩
  · exact hd m u hm

/-- The state of the loop over the pieces of a name: the parameters so far, and the last of them. -/
def UnmarkedState (st : Dict Str Str × Option Str) : Prop :=
  UnmarkedItems st.1 ∧ ∀ last, st.2 = some last → Unmarked last

theorem UnmarkedState.parseStep {st : Dict Str Str × Option Str} (hst : UnmarkedState st)
    {pair : Str} (hpair : Unmarked pair) : UnmarkedState (parseStep st pair) := by
  obtain ⟨hname, hvalue⟩ := hpair.partition (a := '=') (by decide) (by decide)
  have hassign : UnmarkedState (st.1.set (Text.partition '=' pair).1 (Text.partition '=' pair).2,
      some (Text.partition '=' pair).1) := by
    refine ⟨hst.1.set hname hvalue, ?_⟩
    intro last hlast
    rwa [← Option.some.inj hlast]
  unfold PartCAD.Package.parseStep
  split
  · rename_i last heq
    split
    · -- more of the value before
      refine ⟨hst.1.set (hst.2 last heq) ?_, ?_⟩
      · rw [unmarked_append_cons (by decide) (by decide)]
        refine ⟨?_, hpair⟩
        cases hget : st.1.get? last with
        | none => exact unmarked_nil
        | some t => exact (hst.1 last t hget).2
      · intro last' hlast'
        rw [← Option.some.inj hlast']
        exact hst.2 last heq
    · exact hassign
  · exact hassign

theorem UnmarkedState.foldl {ps : List Str} (hps : ∀ p ∈ ps, Unmarked p) :
    ∀ {st : Dict Str Str × Option Str}, UnmarkedState st →
      UnmarkedState (ps.foldl PartCAD.Package.parseStep st) := by
  induction ps with
  | nil => exact fun hst => hst
  | cons p ps ih =>
    intro st hst
    rw [List.forall_mem_cons] at hps
    exact ih hps.2 (hst.parseStep hps.1)

theorem Unmarked.parse {name : Str} (h : Unmarked name) :
    Unmarked (parseParameterizedName name).1 ∧ UnmarkedItems (parseParameterizedName name).2 := by
  obtain ⟨hbase, hsuffix⟩ := h.partition (a := ';') (by decide) (by decide)
  refine ⟨hbase, ?_⟩
  have hpieces : ∀ p ∈ if (Text.partition ';' name).2 = [] then [] else
      split ',' (Text.partition ';' name).2, Unmarked p := by
    split
    · simp
    · exact fun p hp => hsuffix.of_mem_split (by decide) (by decide) hp
  refine (UnmarkedState.foldl hpieces ⟨?_, ?_⟩).1
  · intro n t hnone
    simp at hnone
  · intro last hlast
    cases hlast

/-! ## Names of objects -/

/-- The names that an object is known by in its package. -/
inductive ObjectName where
  | declared (name : Str)
  | parameterized (base : Str) (parameters : Dict Str Str)

namespace ObjectName

/-- The name in the package's configuration. -/
def base : ObjectName → Str
  | declared name => name
  | parameterized base _ => base

def parameters : ObjectName → Dict Str Str
  | declared _ => Dict.empty
  | parameterized _ parameters => parameters

section

variable (F : Type) [PyFloat F] (printable : Char → Bool)

def text : ObjectName → Str
  | declared name => name
  | parameterized base parameters =>
    formatParameterizedName printable base (parameters.mapValues (Value.str (F := F)))

variable {F printable}

/-- The texts that are written for parameters. -/
theorem unmarked_assignments_iff {items : List (Str × Value F)} {values : Dict Str Str}
    (hitems : ∀ p, p ∈ items ↔ ∃ n t, values.get? n = some t ∧ p = (n, Value.str t)) :
    Unmarked (join ',' ((sortItems items).map fun p => p.1 ++ '=' :: strText printable p.2)) ↔
      UnmarkedItems values := by
  rw [unmarked_join (by decide) (by decide)]
  constructor
  · intro h n t hget
    have hmem : (n, Value.str t) ∈ sortItems items :=
      (perm_sortItems items).mem_iff.2 ((hitems _).2 ⟨n, t, hget, rfl⟩)
    have hpiece := h _ (List.mem_map_of_mem hmem)
    rwa [strText_str, unmarked_append_cons (by decide) (by decide)] at hpiece
  · intro h piece hpiece
    obtain ⟨p, hp, rfl⟩ := List.mem_map.1 hpiece
    obtain ⟨n, t, hget, rfl⟩ := (hitems p).1 ((perm_sortItems items).mem_iff.1 hp)
    rw [strText_str, unmarked_append_cons (by decide) (by decide)]
    exact h n t hget

/-- The parameters of an instance come before those that its base name holds. -/
theorem unmarkedItems_update {inherited values : Dict Str Str} (h : UnmarkedItems inherited) :
    UnmarkedItems (inherited.update values) ↔ UnmarkedItems values := by
  constructor
  · intro hupdate n t hget
    apply hupdate n t
    rw [Dict.get?_update, hget]
    rfl
  · intro hvalues n t hget
    rw [Dict.get?_update] at hget
    cases hvalue : values.get? n with
    | none =>
      rw [hvalue] at hget
      exact h n t hget
    | some u =>
      rw [hvalue] at hget
      obtain rfl : u = t := by simpa using hget
      exact hvalues n u hvalue

omit [PyFloat F] in
theorem mem_items_merged (inherited values : Dict Str Str) (p : Str × Value F) :
    p ∈ ((inherited.mapValues Value.str).update (values.mapValues Value.str)).items ↔
      ∃ n t, (inherited.update values).get? n = some t ∧ p = (n, Value.str t) := by
  obtain ⟨n, v⟩ := p
  rw [← Dict.get?_eq_some, Dict.get?_update, Dict.get?_mapValues, Dict.get?_mapValues]
  simp only [Dict.get?_update, Prod.mk.injEq]
  constructor
  · intro h
    cases hvalue : values.get? n with
    | none =>
      rw [hvalue] at h
      obtain ⟨t, ht, rfl⟩ := Option.map_eq_some_iff.1 (by simpa using h)
      exact ⟨n, t, by simpa [hvalue] using ht, rfl, rfl⟩
    | some u =>
      rw [hvalue] at h
      exact ⟨n, u, by simp [hvalue], rfl, by simpa using h.symm⟩
  · rintro ⟨m, t, hget, rfl, rfl⟩
    cases hvalue : values.get? n with
    | none =>
      rw [hvalue] at hget
      simpa [hvalue] using hget
    | some u =>
      rw [hvalue] at hget
      simpa [hvalue] using hget

/-- The name of an instance is unmarked where its parameters are. -/
theorem unmarked_text_iff {name : ObjectName} (hbase : Unmarked name.base) :
    Unmarked (name.text F printable) ↔ UnmarkedItems name.parameters := by
  cases name with
  | declared name =>
    refine iff_of_true hbase ?_
    intro n t hget
    cases hget
  | parameterized base values =>
    replace hbase : Unmarked base := hbase
    obtain ⟨hparsed, hinherited⟩ := Unmarked.parse hbase
    have hitems := mem_items_merged (F := F) (parseParameterizedName base).2 values
    have hassignments := @unmarked_assignments_iff _ _ printable _ _ hitems
    rw [unmarkedItems_update hinherited] at hassignments
    rw [text, formatParameterizedName]
    simp only [parameters]
    split
    · rename_i hnil
      refine iff_of_true hparsed ?_
      rw [← unmarkedItems_update hinherited]
      intro n t hget
      have hmem := (hitems (n, Value.str t)).2 ⟨n, t, hget, rfl⟩
      rw [hnil] at hmem
      cases hmem
    · rw [unmarked_append_cons (by decide) (by decide), hassignments]
      exact and_iff_right hparsed

end

end ObjectName

/-! ## Full names -/

section

variable {N : List Str}

theorem length_split_eq_one (c : Char) (s : Str) : (split c s).length = 1 ↔ c ∉ s := by
  constructor
  · intro h hc
    rw [split_of_mem hc, List.length_cons] at h
    exact split_ne_nil c (partition c s).2 (List.length_eq_zero_iff.1 (Nat.succ_inj.1 h))
  · intro h
    rw [split_of_notMem h]
    rfl

theorem notMem_colon_of_resolve {current path item : Str} {result : Str × Str}
    (h : resolveResourcePath current (path ++ ':' :: item) = some result) :
    ':' ∉ path ∧ ':' ∉ item := by
  have hmem : ':' ∈ path ++ ':' :: item := by simp
  unfold resolveResourcePath at h
  simp only [hmem, not_true_eq_false, if_false, split_append_cons] at h
  split at h
  · rename_i projectPattern itemPattern hsplit
    have hlength := congrArg List.length hsplit
    have hpath := List.length_pos_of_ne_nil (split_ne_nil ':' path)
    have hitem := List.length_pos_of_ne_nil (split_ne_nil ':' item)
    simp only [List.length_append, List.length_cons, List.length_nil] at hlength
    rw [← length_split_eq_one, ← length_split_eq_one]
    omega
  · cases h

theorem notMem_of_notMem_pathOf {x : Char} (h : x ∉ pathOf N) : ∀ c ∈ N, x ∉ c := by
  intro c hc hx
  apply h
  have hjoin := mem_join_of_mem (c := '/') hc hx
  simp [pathOf, hjoin]

/-- The full name that leads back to an object of the package at `N`. -/
theorem resolve_item_iff (current item : Str) (hN : ∀ c ∈ N, IsName c) :
    resolveResourcePath current (pathOf N ++ ':' :: item) = some (pathOf N, item) ↔
      (∀ c ∈ N, ':' ∉ c ∧ IsPlain c) ∧ Unmarked item := by
  constructor
  · intro h
    obtain ⟨hpath, hitem⟩ := notMem_colon_of_resolve h
    have hcolon := notMem_of_notMem_pathOf hpath
    have hpackage : ∀ c ∈ N, IsPackageName c := fun c hc => ⟨hN c hc, hcolon c hc⟩
    rw [resolveResourcePath_absolute current hpackage hitem] at h
    obtain ⟨hsub, hwild⟩ := Prod.mk.inj (Option.some.inj h)
    have hplain := (subParent_eq_iff (S := []) (by simpa using hpackage) fun _ => rfl).1
      (by simpa using hsub)
    exact ⟨fun c hc => ⟨hcolon c hc, hplain.2 c hc⟩, hitem, wildcard_eq_self_iff.1 hwild⟩
  · rintro ⟨hplain, hitem, hwild⟩
    have hpackage : ∀ c ∈ N, IsPackageName c := fun c hc => ⟨hN c hc, (hplain c hc).1⟩
    rw [resolveResourcePath_absolute current hpackage hitem, wildcard_eq_self_iff.2 hwild]
    have hsub := (subParent_eq_iff (S := []) (by simpa using hpackage) fun _ => rfl).2
      ⟨rfl, fun c hc => (hplain c hc).2⟩
    rw [List.append_nil] at hsub
    rw [hsub]

/-- **The full name of an object leads back to it** just when nothing in the path of its package and
in its parameters is taken for a separator or a wildcard. -/
theorem resolve_full_iff {F : Type} [PyFloat F] (printable : Char → Bool) (current : Str)
    (hN : ∀ c ∈ N, IsName c) (name : ObjectName) (hbase : Unmarked name.base) :
    resolveResourcePath current (pathOf N ++ ':' :: name.text F printable) =
        some (pathOf N, name.text F printable) ↔
      (∀ c ∈ N, ':' ∉ c ∧ IsPlain c) ∧
        ∀ parameter value, name.parameters.get? parameter = some value →
          Unmarked parameter ∧ Unmarked value := by
  rw [resolve_item_iff current _ hN, ObjectName.unmarked_text_iff hbase]
  rfl

end

/-- An instance of `cell` with one parameter. -/
def cellWith (value : Str) : ObjectName :=
  .parameterized ['c', 'e', 'l', 'l'] (Dict.empty.set ['s'] value)

theorem get?_cellWith {value parameter value' : Str}
    (h : (cellWith value).parameters.get? parameter = some value') :
    parameter = ['s'] ∧ value' = value := by
  have hget : (Dict.empty.set ['s'] value).get? parameter = some value' := h
  rw [Dict.get?_set] at hget
  split at hget
  · rename_i hparameter
    exact ⟨hparameter.symm, (Option.some.inj hget).symm⟩
  · cases hget

theorem resolve_full_cell :
    resolveResourcePath ['/', '/'] (pathOf [['p']] ++ ':' :: (cellWith ['b']).text DigitFloat fun _ => true) =
      some (pathOf [['p']], (cellWith ['b']).text DigitFloat fun _ => true) := by
  refine (resolve_full_iff (fun _ => true) ['/', '/'] (by decide) (cellWith ['b']) (by decide)).2
    ⟨?_, ?_⟩
  · intro c hc
    rw [List.mem_singleton.1 hc]
    exact ⟨by decide, by decide, by decide⟩
  · intro parameter value h
    obtain ⟨rfl, rfl⟩ := get?_cellWith h
    exact ⟨by decide, by decide⟩

/-- A scene that is given a reference to an object is not found by its full name. -/
theorem not_resolve_reference :
    ¬ ∀ (current : Str) (N : List Str) (name : ObjectName), (∀ c ∈ N, IsPackageName c ∧ IsPlain c) →
      Unmarked name.base →
      (∀ parameter value, name.parameters.get? parameter = some value →
        ',' ∉ value ∧ ';' ∉ value ∧ '=' ∉ value) →
      resolveResourcePath current (pathOf N ++ ':' :: name.text DigitFloat fun _ => true) =
        some (pathOf N, name.text DigitFloat fun _ => true) := by
  intro h
  have hresolve := h ['/', '/'] [['p']] (cellWith ['/', '/', 'p', ':', 'b']) ?_ (by decide) ?_
  · exact absurd hresolve (by decide)
  · intro c hc
    rw [List.mem_singleton.1 hc]
    exact ⟨by decide, by decide, by decide⟩
  · intro parameter value hget
    obtain ⟨rfl, rfl⟩ := get?_cellWith hget
    exact ⟨by decide, by decide, by decide⟩

end PartCAD.Package
