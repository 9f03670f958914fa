import PartCAD.Lib.Nested
import PartCAD.Lib.Text

/-!
# Merging render configurations

The configuration of a part is merged into that of its package, and where both have a dictionary under
a key, the dictionary of the package is merged first and compared with the other one afterwards.

* `renderCfgMerge` : the merge;
* `DeepMerge` : what a deep merge is;
* `deepMerge_iff` : **when the merge is one**.
-/

namespace PartCAD.Render

open PartCAD.Lib PartCAD.Lib.Nested

variable {κ S : Type}

/-! ## The function -/

section

variable [DecidableEq κ] [BEq S]

mutual

/-- One key that both have. -/
def mergeValue : Nested κ S → Nested κ S → Nested κ S
  | .dict xs, .dict ys =>
    -- the dictionary of `a` as it has become is compared with that of `b`
    let merged := renderCfgMerge xs ys
    if same (.dict merged) (.dict ys) then .dict merged else .dict ys
  | .list vs, .list ws => .list (vs ++ ws)
  | x, y => if same x y then x else y

/-- `render_cfg_merge(a, b)` -/
def renderCfgMerge : List (κ × Nested κ S) → List (κ × Nested κ S) → List (κ × Nested κ S)
  | a, [] => a
  | a, (key, y) :: b =>
    renderCfgMerge
      (match lookupItem key a with
      | some x => setItem key (mergeValue x y) a
      | none => setItem key y a) b

end

end

/-! ## Deep merges -/

/-- The tree is a dictionary. -/
def IsDict : Nested κ S → Prop
  | .dict _ => True
  | _ => False

/-- The tree is a list. -/
def IsList : Nested κ S → Prop
  | .list _ => True
  | _ => False

section

variable [DecidableEq κ] [BEq S]

/-- `z` is the deep merge of `x` and `y`, up to what Python takes for the same. -/
inductive DeepMerge : Nested κ S → Nested κ S → Nested κ S → Prop
  /-- A key is kept, or added, or what is under it is merged. -/
  | dicts {xs ys zs : List (κ × Nested κ S)} :
    (∀ k, lookupItem k zs = none ↔ lookupItem k xs = none ∧ lookupItem k ys = none) →
    (∀ k x z, lookupItem k xs = some x → lookupItem k ys = none → lookupItem k zs = some z →
      same z x = true) →
    (∀ k y z, lookupItem k xs = none → lookupItem k ys = some y → lookupItem k zs = some z →
      same z y = true) →
    (∀ k x y z, lookupItem k xs = some x → lookupItem k ys = some y → lookupItem k zs = some z →
      DeepMerge x y z) →
    DeepMerge (.dict xs) (.dict ys) (.dict zs)
  | lists {vs ws : List (Nested κ S)} {z : Nested κ S} :
    same z (.list (vs ++ ws)) = true → DeepMerge (.list vs) (.list ws) z
  | wins {x y z : Nested κ S} :
    ¬ (IsDict x ∧ IsDict y) → ¬ (IsList x ∧ IsList y) → same z y = true → DeepMerge x y z

/-- A deep merge with `x` leaves `y` as it is. -/
inductive AddsNothing : Nested κ S → Nested κ S → Prop
  | dicts {xs ys : List (κ × Nested κ S)} :
    (∀ k, lookupItem k ys = none → lookupItem k xs = none) →
    (∀ k x y, lookupItem k xs = some x → lookupItem k ys = some y → AddsNothing x y) →
    AddsNothing (.dict xs) (.dict ys)
  | lists (ws : List (Nested κ S)) : AddsNothing (.list []) (.list ws)
  | wins {x y : Nested κ S} : ¬ (IsDict x ∧ IsDict y) → ¬ (IsList x ∧ IsList y) → AddsNothing x y

variable {x y z : Nested κ S} {a b : List (κ × Nested κ S)}

theorem addsNothing_of_deepMerge (h : DeepMerge x y z) (hy : y.WellFormed) (hz : z.WellFormed)
    (hsame : same z y = true) : AddsNothing x y := by
  induction h with
  | @dicts xs ys zs hnone _ _ _ ih =>
    cases hy with
    | dict hys hyvalues =>
      cases hz with
      | dict hzs hzvalues =>
        obtain ⟨hkeys, hvalues⟩ := (same_dict_iff hzs hys).1 hsame
        refine .dicts (fun k hk => ((hnone k).1 ((hkeys k).2 hk)).1) fun k x y hx hy => ?_
        have hne : lookupItem k zs ≠ none := by
          rw [Ne, hkeys, hy]
          exact Option.some_ne_none y
        obtain ⟨z, hz⟩ := Option.ne_none_iff_exists'.1 hne
        exact ih k x y z hx hy hz (hyvalues _ (mem_of_lookupItem hy)) (hzvalues _ (mem_of_lookupItem hz))
          (hvalues k z y hz hy)
  | @lists vs ws z happend =>
    cases z with
    | scalar s => exact absurd hsame (by simp [same])
    | dict zs => exact absurd hsame (by simp [same])
    | list us =>
      rw [same] at hsame happend
      have hlength := length_of_sameList hsame
      have hlength' := length_of_sameList happend
      rw [List.length_append] at hlength'
      obtain rfl := List.eq_nil_of_length_eq_zero (l := vs) (by omega)
      exact .lists ws
  | wins hdict hlist _ => exact .wins hdict hlist

theorem deepMerge_of_addsNothing (h : AddsNothing x y) (hy : y.WellFormed) (hz : z.WellFormed)
    (hsame : same z y = true) : DeepMerge x y z := by
  induction h generalizing z with
  | @dicts xs ys hsub _ ih =>
    cases hy with
    | dict hys hyvalues =>
      cases hz with
      | scalar s => exact absurd hsame (by simp [same])
      | list _ => exact absurd hsame (by simp [same])
      | @dict zs hzs hzvalues =>
        obtain ⟨hkeys, hvalues⟩ := (same_dict_iff hzs hys).1 hsame
        refine .dicts (fun k => ?_) (fun k x z hx hk => ?_) (fun k y z _ hy hz => hvalues k z y hz hy)
          fun k x y z hx hy hz => ?_
        · rw [hkeys]
          exact ⟨fun hk => ⟨hsub k hk, hk⟩, fun hk => hk.2⟩
        · exact absurd ((hsub k hk).symm.trans hx) (Option.some_ne_none x).symm
        · exact ih k x y hx hy (hyvalues _ (mem_of_lookupItem hy)) (hzvalues _ (mem_of_lookupItem hz))
            (hvalues k z y hz hy)
  | lists ws => exact .lists hsame
  | wins hdict hlist => exact .wins hdict hlist hsame

omit [DecidableEq κ] [BEq S] in
/-- Two dictionaries, two lists, or neither. -/
theorem kinds (x y : Nested κ S) : (∃ xs ys, x = .dict xs ∧ y = .dict ys) ∨
    (∃ vs ws, x = .list vs ∧ y = .list ws) ∨ ¬ (IsDict x ∧ IsDict y) ∧ ¬ (IsList x ∧ IsList y) := by
  cases x with
  | scalar s => exact .inr (.inr ⟨fun h => h.1, fun h => h.1⟩)
  | list vs =>
    cases y with
    | scalar t => exact .inr (.inr ⟨fun h => h.1, fun h => h.2⟩)
    | list ws => exact .inr (.inl ⟨vs, ws, rfl, rfl⟩)
    | dict ys => exact .inr (.inr ⟨fun h => h.1, fun h => h.2⟩)
  | dict xs =>
    cases y with
    | scalar t => exact .inr (.inr ⟨fun h => h.2, fun h => h.1⟩)
    | list ws => exact .inr (.inr ⟨fun h => h.2, fun h => h.1⟩)
    | dict ys => exact .inl ⟨xs, ys, rfl, rfl⟩

theorem mergeValue_wins (hdict : ¬ (IsDict x ∧ IsDict y)) (hlist : ¬ (IsList x ∧ IsList y)) :
    mergeValue x y = if same x y then x else y := by
  cases x with
  | scalar s => cases y <;> rfl
  | list vs =>
    cases y with
    | scalar t => rfl
    | list ws => exact absurd ⟨trivial, trivial⟩ hlist
    | dict ys => rfl
  | dict xs =>
    cases y with
    | scalar t => rfl
    | list ws => rfl
    | dict ys => exact absurd ⟨trivial, trivial⟩ hdict

/-! ## What the function gives -/

/-- What is under a key afterwards. -/
theorem lookupItem_renderCfgMerge (hb : (b.map Prod.fst).Nodup) (k : κ) :
    lookupItem k (renderCfgMerge a b) =
      match lookupItem k a, lookupItem k b with
      | some x, some y => some (mergeValue x y)
      | none, some y => some y
      | r, none => r := by
  induction b generalizing a with
  | nil =>
    rw [renderCfgMerge]
    cases lookupItem k a <;> rfl
  | cons p b ih =>
    obtain ⟨key, y⟩ := p
    obtain ⟨hfresh, hb⟩ := List.nodup_cons.1 hb
    rw [renderCfgMerge, ih hb]
    by_cases hk : key = k
    · subst hk
      rw [lookupItem_eq_none.2 hfresh, lookupItem, if_pos rfl]
      cases hx : lookupItem key a with
      | none => simp [lookupItem_setItem]
      | some x => simp [lookupItem_setItem]
    · have hset : lookupItem k (match lookupItem key a with
          | some x => setItem key (mergeValue x y) a
          | none => setItem key y a) = lookupItem k a := by
        split
        · rw [lookupItem_setItem, if_neg hk]
        · rw [lookupItem_setItem, if_neg hk]
      rw [hset, lookupItem, if_neg hk]

theorem nodup_setItem {α : Type} {items : List (κ × α)} (h : (items.map Prod.fst).Nodup) (k : κ) (v : α) :
    ((setItem k v items).map Prod.fst).Nodup :=
  (Dict.set ⟨items, h⟩ k v).nodup

theorem nodup_renderCfgMerge (ha : (a.map Prod.fst).Nodup) :
    ((renderCfgMerge a b).map Prod.fst).Nodup := by
  induction b generalizing a with
  | nil => exact ha
  | cons p b ih =>
    rw [renderCfgMerge]
    refine ih ?_
    split
    · exact nodup_setItem ha _ _
    · exact nodup_setItem ha _ _

/-- Where a merge keeps what is under its keys well formed, so is what it gives. -/
theorem wellFormed_renderCfgMerge (ha : (Nested.dict a).WellFormed) (hb : (Nested.dict b).WellFormed)
    (hvalue : ∀ p ∈ b, ∀ x : Nested κ S, x.WellFormed → (mergeValue x p.2).WellFormed) :
    (Nested.dict (renderCfgMerge a b)).WellFormed := by
  cases ha with
  | dict hanodup havalues =>
    cases hb with
    | dict hbnodup hbvalues =>
      have hnodup := nodup_renderCfgMerge (b := b) hanodup
      refine .dict hnodup fun p hp => ?_
      have hlookup := lookupItem_of_mem hnodup hp
      rw [lookupItem_renderCfgMerge hbnodup] at hlookup
      cases hx : lookupItem p.1 a with
      | none =>
        cases hy : lookupItem p.1 b with
        | none => simp [hx, hy] at hlookup
        | some y =>
          rw [hx, hy] at hlookup
          exact Option.some.inj hlookup ▸ hbvalues _ (mem_of_lookupItem hy)
      | some x =>
        have hxwf := havalues _ (mem_of_lookupItem hx)
        cases hy : lookupItem p.1 b with
        | none =>
          rw [hx, hy] at hlookup
          exact Option.some.inj hlookup ▸ hxwf
        | some y =>
          rw [hx, hy] at hlookup
          exact Option.some.inj hlookup ▸ hvalue _ (mem_of_lookupItem hy) x hxwf

theorem wellFormed_mergeValue (hx : x.WellFormed) (hy : y.WellFormed) : (mergeValue x y).WellFormed := by
  induction y using Nested.induction generalizing x with
  | scalar t =>
    rw [mergeValue_wins (x := x) (y := .scalar t) (fun h => h.2) fun h => h.2]
    split
    · exact hx
    · exact hy
  | list ws _ =>
    cases hx with
    | list hvs =>
      cases hy with
      | list hws => exact .list fun v hv => (List.mem_append.1 hv).elim (hvs v) (hws v)
    | scalar s =>
      rw [mergeValue_wins (x := .scalar s) (y := .list ws) (fun h => h.2) fun h => h.1]
      split
      · exact .scalar s
      · exact hy
    | @dict xs hnodup hvalues =>
      rw [mergeValue_wins (x := .dict xs) (y := .list ws) (fun h => h.2) fun h => h.1]
      split
      · exact .dict hnodup hvalues
      · exact hy
  | dict ys ih =>
    cases hx with
    | scalar s =>
      rw [mergeValue_wins (x := .scalar s) (y := .dict ys) (fun h => h.1) fun h => h.1]
      split
      · exact .scalar s
      · exact hy
    | @list vs hvs =>
      rw [mergeValue_wins (x := .list vs) (y := .dict ys) (fun h => h.1) fun h => h.2]
      split
      · exact .list hvs
      · exact hy
    | dict hnodup hvalues =>
      rw [mergeValue]
      split
      · refine wellFormed_renderCfgMerge (.dict hnodup hvalues) hy fun p hp x hx => ?_
        cases hy with
        | dict _ hyvalues => exact ih p hp hx (hyvalues p hp)
      · exact hy

/-- Two dictionaries make one that is the same as the second. -/
theorem same_mergeValue_dict [ReflBEq S] {xs ys : List (κ × Nested κ S)}
    (hy : (Nested.dict ys).WellFormed) : same (mergeValue (.dict xs) (.dict ys)) (.dict ys) = true := by
  rw [mergeValue]
  split
  · assumption
  · exact same_refl _ hy

/-- **When the merge is a deep merge**: under each key that both have a dictionary under, the first adds
nothing to the second. -/
theorem deepMerge_iff {κ S : Type} [DecidableEq κ] [BEq S] [ReflBEq S] {a b : List (κ × Nested κ S)}
    (ha : (Nested.dict a).WellFormed) (hb : (Nested.dict b).WellFormed) :
    DeepMerge (.dict a) (.dict b) (.dict (renderCfgMerge a b)) ↔
      ∀ k xs ys, lookupItem k a = some (.dict xs) → lookupItem k b = some (.dict ys) →
        AddsNothing (.dict xs) (.dict ys) := by
  obtain ⟨hanodup, havalues⟩ : (a.map Prod.fst).Nodup ∧ ∀ p ∈ a, p.2.WellFormed := by
    cases ha with
    | dict hnodup hvalues => exact ⟨hnodup, hvalues⟩
  obtain ⟨hbnodup, hbvalues⟩ : (b.map Prod.fst).Nodup ∧ ∀ p ∈ b, p.2.WellFormed := by
    cases hb with
    | dict hnodup hvalues => exact ⟨hnodup, hvalues⟩
  have hlookup := lookupItem_renderCfgMerge (a := a) hbnodup
  have hboth : ∀ {k x y}, lookupItem k a = some x → lookupItem k b = some y →
      lookupItem k (renderCfgMerge a b) = some (mergeValue x y) := by
    intro k x y hx hy
    rw [hlookup, hx, hy]
  constructor
  · intro h k xs ys hx hy
    cases h with
    | wins hdict _ _ => exact absurd ⟨trivial, trivial⟩ hdict
    | dicts _ _ _ hmerge =>
      have hxwf := havalues _ (mem_of_lookupItem hx)
      have hywf := hbvalues _ (mem_of_lookupItem hy)
      exact addsNothing_of_deepMerge (hmerge k _ _ _ hx hy (hboth hx hy)) hywf
        (wellFormed_mergeValue hxwf hywf) (same_mergeValue_dict hywf)
  · intro h
    refine .dicts (fun k => ?_) (fun k x z hx hy hz => ?_) (fun k y z hx hy hz => ?_)
      fun k x y z hx hy hz => ?_
    · rw [hlookup]
      cases lookupItem k a <;> cases lookupItem k b <;> simp
    · rw [hlookup, hx, hy] at hz
      obtain rfl := Option.some.inj hz
      exact same_refl _ (havalues _ (mem_of_lookupItem hx))
    · rw [hlookup, hx, hy] at hz
      obtain rfl := Option.some.inj hz
      exact same_refl _ (hbvalues _ (mem_of_lookupItem hy))
    · obtain rfl := Option.some.inj ((hboth hx hy).symm.trans hz)
      have hxwf := havalues _ (mem_of_lookupItem hx)
      have hywf := hbvalues _ (mem_of_lookupItem hy)
      rcases kinds x y with ⟨xs, ys, rfl, rfl⟩ | ⟨vs, ws, rfl, rfl⟩ | ⟨hdict, hlist⟩
      · exact deepMerge_of_addsNothing (h k xs ys hx hy) hywf (wellFormed_mergeValue hxwf hywf)
          (same_mergeValue_dict hywf)
      · exact .lists (same_refl _ (wellFormed_mergeValue hxwf hywf))
      · refine .wins hdict hlist ?_
        rw [mergeValue_wins hdict hlist]
        split
        · assumption
        · exact same_refl _ hywf

/-! ## A picture of a package and of its part -/

/-- `svg: {viewport: 1}` -/
def svgOfPackage : List (Str × Nested Str ℕ) :=
  [("svg".toList, .dict [("viewport".toList, .scalar 1)])]

/-- `svg: {lineWeight: 2}` -/
def svgOfPart : List (Str × Nested Str ℕ) :=
  [("svg".toList, .dict [("lineWeight".toList, .scalar 2)])]

/-- A configuration with one key in one section. -/
theorem wellFormed_section (k l : Str) (n : ℕ) :
    (Nested.dict [(k, .dict [(l, .scalar n)])] : Nested Str ℕ).WellFormed := by
  refine .dict (List.nodup_singleton _) fun p hp => ?_
  obtain rfl := List.mem_singleton.1 hp
  refine .dict (List.nodup_singleton _) fun p hp => ?_
  obtain rfl := List.mem_singleton.1 hp
  exact .scalar n

theorem deepMerge_section : DeepMerge (.dict svgOfPart) (.dict svgOfPart)
    (.dict (renderCfgMerge svgOfPart svgOfPart)) := by
  refine (deepMerge_iff (wellFormed_section _ _ _) (wellFormed_section _ _ _)).2 ?_
  intro k xs ys hx hy
  obtain rfl := Nested.dict.inj (Option.some.inj (hx.symm.trans hy))
  have hxs : xs = [("lineWeight".toList, .scalar 2)] := by
    exact Nested.dict.inj (Prod.mk.inj (List.mem_singleton.1 (mem_of_lookupItem hx))).2
  subst hxs
  refine .dicts (fun k h => h) fun k x y hx hy => ?_
  have hp := mem_of_lookupItem hx
  obtain rfl := (Prod.mk.inj (List.mem_singleton.1 hp)).2
  exact .wins (fun h => h.1) fun h => h.1

/-- The key of the package is gone. -/
theorem not_deepMerge_svg : ¬ DeepMerge (.dict svgOfPackage) (.dict svgOfPart)
    (.dict (renderCfgMerge svgOfPackage svgOfPart)) := by
  have hresult : renderCfgMerge svgOfPackage svgOfPart = svgOfPart := rfl
  rw [hresult]
  intro h
  cases h with
  | wins hdict _ _ => exact hdict ⟨trivial, trivial⟩
  | dicts _ _ _ hmerge =>
    cases hmerge "svg".toList _ _ _ rfl rfl rfl with
    | wins hdict _ _ => exact hdict ⟨trivial, trivial⟩
    | dicts hnone _ _ _ =>
      have hgone := ((hnone "viewport".toList).1 rfl).1
      exact absurd hgone (by decide)

end

end PartCAD.Render
