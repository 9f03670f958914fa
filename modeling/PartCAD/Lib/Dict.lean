import Mathlib.Data.List.Basic
import Mathlib.Data.List.Nodup
import Mathlib.Tactic.Common

/-!
# Python dictionaries

A dictionary is the list of its items in the order in which the keys came in, no key twice.

* `get?_set`, `keys_set` : what assigning to a key does;
* `get?_setAll` : what a run of assignments does, where the value depends on the key only;
* `get?_update` : what `update` does;
* `get?_foldl_setdefault` : an index in which the first comer keeps a key.
-/

namespace PartCAD.Lib

/-! ## Items -/

section

variable {κ α : Type} [DecidableEq κ]

/-- The value that goes with a key. -/
@[grind =]
def lookupItem (k : κ) : List (κ × α) → Option α
  | [] => none
  | (k', v) :: items => if k' = k then some v else lookupItem k items

/-- Assigning to a key: in its place when it is there, else at the end. -/
@[grind =]
def setItem (k : κ) (v : α) : List (κ × α) → List (κ × α)
  | [] => [(k, v)]
  | (k', v') :: items => if k' = k then (k, v) :: items else (k', v') :: setItem k v items

theorem lookupItem_setItem (k k' : κ) (v : α) (items : List (κ × α)) :
    lookupItem k' (setItem k v items) = if k = k' then some v else lookupItem k' items := by
  induction items with
  | nil => rfl
  | cons p items ih =>
    obtain ⟨q, w⟩ := p
    by_cases hq : q = k
    · subst hq
      simp only [setItem, if_true, lookupItem]
      split <;> rfl
    · simp only [setItem, hq, if_false, lookupItem, ih]
      by_cases hk : k = k'
      · subst hk
        simp [hq]
      · simp [hk]

theorem keys_setItem (k : κ) (v : α) (items : List (κ × α)) :
    (setItem k v items).map Prod.fst =
      if k ∈ items.map Prod.fst then items.map Prod.fst else items.map Prod.fst ++ [k] := by
  induction items with
  | nil => rfl
  | cons p items ih =>
    obtain ⟨q, w⟩ := p
    by_cases hq : q = k
    · simp [setItem, hq]
    · simp only [setItem, hq, if_false, List.map_cons, ih, List.mem_cons, Ne.symm hq, false_or]
      split <;> rfl

theorem lookupItem_eq_none {k : κ} {items : List (κ × α)} :
    lookupItem k items = none ↔ k ∉ items.map Prod.fst := by
  induction items with
  | nil => simp [lookupItem]
  | cons p items ih =>
    obtain ⟨q, w⟩ := p
    by_cases hq : q = k
    · simp [lookupItem, hq]
    · simp [lookupItem, hq, ih, Ne.symm hq]

theorem mem_of_lookupItem {k : κ} {v : α} {items : List (κ × α)}
    (h : lookupItem k items = some v) : (k, v) ∈ items := by
  induction items with
  | nil => simp [lookupItem] at h
  | cons p items ih =>
    obtain ⟨q, w⟩ := p
    by_cases hq : q = k
    · simp only [lookupItem, hq, if_true, Option.some.injEq] at h
      simp [hq, h]
    · simp only [lookupItem, hq, if_false] at h
      exact List.mem_cons_of_mem _ (ih h)

theorem lookupItem_of_mem {k : κ} {v : α} {items : List (κ × α)}
    (hnodup : (items.map Prod.fst).Nodup) (h : (k, v) ∈ items) : lookupItem k items = some v := by
  induction items with
  | nil => simp at h
  | cons p items ih =>
    obtain ⟨q, w⟩ := p
    simp only [List.map_cons, List.nodup_cons] at hnodup
    rcases List.mem_cons.1 h with h | h
    · obtain ⟨rfl, rfl⟩ := Prod.mk.inj h
      simp [lookupItem]
    · have hq : q ≠ k := fun hq => hnodup.1 (hq ▸ List.mem_map.2 ⟨(k, v), h, rfl⟩)
      simp only [lookupItem, hq, if_false]
      exact ih hnodup.2 h

theorem setItem_setItem (k : κ) (v w : α) (items : List (κ × α)) :
    setItem k w (setItem k v items) = setItem k w items := by
  induction items with
  | nil => simp [setItem]
  | cons p items ih =>
    obtain ⟨q, u⟩ := p
    by_cases hq : q = k
    · simp [setItem, hq]
    · simp [setItem, hq, ih]

theorem setItem_of_mem {k : κ} {v : α} {items : List (κ × α)} (h : lookupItem k items = some v) :
    setItem k v items = items := by
  induction items with
  | nil => cases h
  | cons p items ih =>
    obtain ⟨q, w⟩ := p
    rw [lookupItem] at h
    rw [setItem]
    split
    · rename_i hq
      rw [if_pos hq] at h
      rw [Option.some.inj h, hq]
    · rename_i hq
      rw [if_neg hq] at h
      rw [ih h]

theorem setItem_of_notMem {k : κ} {items : List (κ × α)} (v : α) (h : k ∉ items.map Prod.fst) :
    setItem k v items = items ++ [(k, v)] := by
  induction items with
  | nil => rfl
  | cons p items ih =>
    obtain ⟨q, u⟩ := p
    simp only [List.map_cons, List.mem_cons, not_or] at h
    rw [setItem, if_neg (Ne.symm h.1), ih h.2]
    rfl

end

/-! ## Dictionaries -/

/-- A dictionary. -/
structure Dict (κ α : Type) where
  items : List (κ × α)
  nodup : (items.map Prod.fst).Nodup

namespace Dict

variable {κ α : Type}

/-- `{}` -/
def empty : Dict κ α := ⟨[], List.nodup_nil⟩

/-- `d.keys()` -/
def keys (d : Dict κ α) : List κ := d.items.map Prod.fst

/-- Another value under every key. -/
def mapValues {β : Type} (f : α → β) (d : Dict κ α) : Dict κ β where
  items := d.items.map fun p => (p.1, f p.2)
  nodup := by
    rw [List.map_map]
    exact d.nodup

theorem ext_items {d e : Dict κ α} (h : d.items = e.items) : d = e := by
  obtain ⟨items, _⟩ := d
  obtain ⟨items', _⟩ := e
  obtain rfl : items = items' := h
  rfl

theorem mem_keys {d : Dict κ α} {k : κ} : k ∈ d.keys ↔ ∃ v, (k, v) ∈ d.items := by
  simp [keys]

variable [DecidableEq κ]

/-- `d.get(k)` -/
def get? (d : Dict κ α) (k : κ) : Option α := lookupItem k d.items

/-- `d[k] = v` -/
def set (d : Dict κ α) (k : κ) (v : α) : Dict κ α where
  items := setItem k v d.items
  nodup := by
    rw [keys_setItem]
    split
    · exact d.nodup
    · rename_i h
      refine List.nodup_append.2 ⟨d.nodup, by simp, fun a ha b hb => ?_⟩
      rintro rfl
      exact h (List.mem_singleton.1 hb ▸ ha)

/-- Assigning to several keys, one after the other. -/
def setAll (d : Dict κ α) (ps : List (κ × α)) : Dict κ α :=
  ps.foldl (fun d p => d.set p.1 p.2) d

/-- `d.update(e)` -/
def update (d e : Dict κ α) : Dict κ α := d.setAll e.items

/-- `d.setdefault(k, v)` -/
def setdefault (d : Dict κ α) (k : κ) (v : α) : Dict κ α :=
  if (d.get? k).isNone then d.set k v else d

/-- `del d[k]` for a key that may not be there. -/
def erase (d : Dict κ α) (k : κ) : Dict κ α where
  items := d.items.filter fun p => p.1 ≠ k
  nodup := List.Nodup.sublist (List.Sublist.map _ List.filter_sublist) d.nodup

/-- `{k: v for k, v in d.items() if k not in ks}` -/
def without (d : Dict κ α) (ks : List κ) : Dict κ α where
  items := d.items.filter fun p => p.1 ∉ ks
  nodup := d.nodup.sublist (List.filter_sublist.map Prod.fst)

/-- `{k: v for k, v in ps}` -/
def ofPairs (ps : List (κ × α)) : Dict κ α := empty.setAll ps

@[simp]
theorem get?_empty (k : κ) : (empty : Dict κ α).get? k = none := rfl

theorem get?_set (d : Dict κ α) (k k' : κ) (v : α) :
    (d.set k v).get? k' = if k = k' then some v else d.get? k' :=
  lookupItem_setItem k k' v d.items

@[simp]
theorem get?_set_self (d : Dict κ α) (k : κ) (v : α) : (d.set k v).get? k = some v := by
  simp [get?_set]

theorem get?_set_of_ne (d : Dict κ α) {k k' : κ} (v : α) (h : k ≠ k') :
    (d.set k v).get? k' = d.get? k' := by
  simp [get?_set, h]

theorem set_of_get? {d : Dict κ α} {k : κ} {v : α} (h : d.get? k = some v) : d.set k v = d :=
  ext_items (setItem_of_mem h)

theorem mem_keys_set {d : Dict κ α} {k q : κ} {v : α} :
    q ∈ (d.set k v).keys ↔ q = k ∨ q ∈ d.keys := by
  have hkeys : (d.set k v).keys = if k ∈ d.keys then d.keys else d.keys ++ [k] :=
    keys_setItem k v d.items
  rw [hkeys]
  split
  · rename_i hk
    constructor
    · exact Or.inr
    · rintro (rfl | hq)
      · exact hk
      · exact hq
  · simp [or_comm]

theorem get?_setdefault (d : Dict κ α) (k k' : κ) (v : α) :
    (d.setdefault k v).get? k' = (d.get? k').or (if k = k' then some v else none) := by
  unfold setdefault
  by_cases hk : k = k'
  · subst hk
    cases h : d.get? k <;> simp [h]
  · cases h : d.get? k <;> simp [hk, get?_set_of_ne]

theorem set_set (d : Dict κ α) (k : κ) (v w : α) : (d.set k v).set k w = d.set k w :=
  ext_items (setItem_setItem k v w d.items)

theorem get?_eq_some {d : Dict κ α} {k : κ} {v : α} : d.get? k = some v ↔ (k, v) ∈ d.items :=
  ⟨mem_of_lookupItem, lookupItem_of_mem d.nodup⟩

theorem mem_items_erase {d : Dict κ α} {k : κ} {p : κ × α} :
    p ∈ (d.erase k).items ↔ p ∈ d.items ∧ p.1 ≠ k := by
  simp [erase]

theorem get?_erase (d : Dict κ α) (k q : κ) :
    (d.erase k).get? q = if q = k then none else d.get? q := by
  apply Option.ext
  intro v
  rw [get?_eq_some, mem_items_erase]
  by_cases hq : q = k
  · simp [hq]
  · simp [hq, get?_eq_some]

/-- Items are set by default: what was there before them stays. -/
theorem get?_foldl_setdefault_items (items : List (κ × α)) (d : Dict κ α) (k : κ) :
    (items.foldl (fun d p => d.setdefault p.1 p.2) d).get? k =
      (d.get? k).or (lookupItem k items) := by
  induction items generalizing d with
  | nil => simp [lookupItem]
  | cons p items ih =>
    obtain ⟨q, v⟩ := p
    rw [List.foldl_cons, ih, get?_setdefault, Option.or_assoc, lookupItem]
    by_cases hq : q = k <;> simp [hq]

/-- Assignments that agree on a key: one of them, or what was there, gives it the value. -/
theorem get?_setAll_of_agree {ps : List (κ × α)} {d : Dict κ α} {k : κ} {v : α}
    (h : ∀ w, (k, w) ∈ ps → w = v) (hv : (k, v) ∈ ps ∨ d.get? k = some v) :
    (d.setAll ps).get? k = some v := by
  induction ps generalizing d with
  | nil =>
    rcases hv with hv | hv
    · exact absurd hv (by simp)
    · exact hv
  | cons p ps ih =>
    obtain ⟨q, u⟩ := p
    have hstep : d.setAll ((q, u) :: ps) = (d.set q u).setAll ps := rfl
    rw [hstep]
    refine ih (fun w hw => h w (List.mem_cons_of_mem _ hw)) ?_
    by_cases hq : q = k
    · subst hq
      right
      rw [get?_set_self, h u List.mem_cons_self]
    · rw [get?_set_of_ne _ _ hq]
      rcases hv with hv | hv
      · rcases List.mem_cons.1 hv with heq | hv
        · exact absurd (congrArg Prod.fst heq).symm hq
        · exact Or.inl hv
      · exact Or.inr hv

theorem get?_setAll_of_notMem {ps : List (κ × α)} {d : Dict κ α} {k : κ}
    (h : k ∉ ps.map Prod.fst) : (d.setAll ps).get? k = d.get? k := by
  induction ps generalizing d with
  | nil => rfl
  | cons p ps ih =>
    obtain ⟨q, u⟩ := p
    simp only [List.map_cons, List.mem_cons, not_or] at h
    have hstep : d.setAll ((q, u) :: ps) = (d.set q u).setAll ps := rfl
    rw [hstep, ih h.2, get?_set_of_ne _ _ (Ne.symm h.1)]

theorem lookupItem_append (k : κ) (ps qs : List (κ × α)) :
    lookupItem k (ps ++ qs) = (lookupItem k ps).or (lookupItem k qs) := by
  induction ps with
  | nil => rfl
  | cons p ps ih =>
    rw [List.cons_append, lookupItem, lookupItem, ih]
    split <;> rfl

/-- Two runs of assignments that are taken in turns end as one behind the other, if no assignment of the first
run comes behind the last one of the second. -/
theorem lookupItem_interleaved {γ : Type} (S C : γ → List (κ × α)) {k : κ} {gs : List γ}
    (h : ∀ front back, gs = front ++ back → k ∈ (front.flatMap C).map Prod.fst →
      k ∈ (back.flatMap S).map Prod.fst → k ∈ (back.flatMap C).map Prod.fst) :
    lookupItem k (gs.flatMap fun g => S g ++ C g).reverse =
      lookupItem k (gs.flatMap S ++ gs.flatMap C).reverse := by
  have hnone : ∀ {ps : List (κ × α)}, lookupItem k ps.reverse = none ↔ k ∉ ps.map Prod.fst := by
    intro ps
    rw [lookupItem_eq_none, List.map_reverse, List.mem_reverse]
  induction gs with
  | nil => rfl
  | cons g gs ih =>
    have ih := ih fun front back heq hC hS =>
      h (g :: front) back (by rw [heq]; rfl) (by rw [List.flatMap_cons, List.map_append]; exact List.mem_append_right _ hC) hS
    rw [List.flatMap_cons, List.flatMap_cons, List.flatMap_cons]
    simp only [List.reverse_append, lookupItem_append] at ih ⊢
    rw [ih]
    cases hC : lookupItem k (gs.flatMap C).reverse with
    | some v => rfl
    | none =>
      cases hS : lookupItem k (gs.flatMap S).reverse with
      | none => rfl
      | some v =>
        have hmem : k ∈ (gs.flatMap S).map Prod.fst := by
          by_contra hnot
          rw [hnone.mpr hnot] at hS
          cases hS
        have hfirst : lookupItem k (C g).reverse = none := by
          refine hnone.mpr fun hg => hnone.mp hC (h [g] gs rfl ?_ hmem)
          rwa [List.flatMap_singleton]
        rw [hfirst]
        rfl

/-- The last of several assignments to a key counts. -/
theorem get?_setAll_eq (ps : List (κ × α)) (d : Dict κ α) (k : κ) :
    (d.setAll ps).get? k = (lookupItem k ps.reverse).or (d.get? k) := by
  induction ps generalizing d with
  | nil => rfl
  | cons p ps ih =>
    have hstep : d.setAll (p :: ps) = (d.set p.1 p.2).setAll ps := rfl
    rw [hstep, ih, List.reverse_cons, lookupItem_append, get?_set, Option.or_assoc, lookupItem]
    split <;> rfl

theorem setAll_append (ps qs : List (κ × α)) (d : Dict κ α) : d.setAll (ps ++ qs) = (d.setAll ps).setAll qs :=
  List.foldl_append

theorem get?_without (d : Dict κ α) (ks : List κ) (k : κ) :
    (d.without ks).get? k = if k ∈ ks then none else d.get? k := by
  obtain ⟨items, hnodup⟩ := d
  show lookupItem k (items.filter fun p => p.1 ∉ ks) = if k ∈ ks then none else lookupItem k items
  clear hnodup
  induction items with
  | nil =>
    rw [List.filter_nil, lookupItem]
    split <;> rfl
  | cons p items ih =>
    rw [List.filter_cons, lookupItem]
    by_cases hk : p.1 = k
    · subst hk
      by_cases hin : p.1 ∈ ks
      · rw [if_neg (by simpa using hin), ih, if_pos hin, if_pos hin]
      · rw [if_pos (by simpa using hin), lookupItem, if_pos rfl, if_neg hin, if_pos rfl]
    · rw [if_neg hk, ← ih]
      split
      · rw [lookupItem, if_neg hk]
      · rfl

theorem mem_keys_setAll {ps : List (κ × α)} {d : Dict κ α} {k : κ} :
    k ∈ (d.setAll ps).keys ↔ k ∈ ps.map Prod.fst ∨ k ∈ d.keys := by
  induction ps generalizing d with
  | nil => simp [setAll]
  | cons p ps ih =>
    have hstep : d.setAll (p :: ps) = (d.set p.1 p.2).setAll ps := rfl
    rw [hstep, ih, mem_keys_set, List.map_cons, List.mem_cons]
    tauto

/-- Assigning to new keys appends. -/
theorem items_setAll {d : Dict κ α} {ps : List (κ × α)}
    (h : ((d.items ++ ps).map Prod.fst).Nodup) : (d.setAll ps).items = d.items ++ ps := by
  induction ps generalizing d with
  | nil => simp [setAll]
  | cons p ps ih =>
    have hnew : p.1 ∉ d.items.map Prod.fst := by
      rw [List.map_append, List.map_cons, List.nodup_append] at h
      exact fun hmem => h.2.2 p.1 hmem p.1 (by simp) rfl
    have hset : (d.set p.1 p.2).items = d.items ++ [p] := setItem_of_notMem p.2 hnew
    have hstep : d.setAll (p :: ps) = (d.set p.1 p.2).setAll ps := rfl
    rw [hstep, ih (by simpa [hset] using h), hset, List.append_assoc]
    rfl

theorem items_ofPairs {ps : List (κ × α)} (h : (ps.map Prod.fst).Nodup) :
    (ofPairs ps).items = ps :=
  items_setAll (by simpa [empty] using h)

theorem empty_update (d : Dict κ α) : empty.update d = d :=
  ext_items (items_ofPairs d.nodup)

/-- Where every assignment gives a key the value that `f` has for it, so does the run. -/
theorem get?_setAll (f : κ → α) (ks : List κ) (d : Dict κ α) (k : κ) :
    (d.setAll (ks.map fun k => (k, f k))).get? k = if k ∈ ks then some (f k) else d.get? k := by
  induction ks generalizing d with
  | nil => rfl
  | cons q ks ih =>
    have hstep : d.setAll ((q :: ks).map fun k => (k, f k)) =
        (d.set q (f q)).setAll (ks.map fun k => (k, f k)) := rfl
    rw [hstep, ih]
    by_cases hk : k ∈ ks
    · simp [hk]
    · by_cases hq : q = k
      · simp [hk, hq]
      · simp [hk, hq, Ne.symm hq, get?_set_of_ne]

theorem get?_ofPairs_map (f : κ → α) (ks : List κ) (k : κ) :
    (ofPairs (ks.map fun k => (k, f k))).get? k = if k ∈ ks then some (f k) else none := by
  simp [ofPairs, get?_setAll]

/-- Assigning what a function has for some keys. -/
theorem get?_setAll_filterMap (f : κ → Option α) (ks : List κ) (d : Dict κ α) (k : κ) :
    (d.setAll (ks.filterMap fun k => (f k).map (k, ·))).get? k =
      if k ∈ ks then (f k).or (d.get? k) else d.get? k := by
  induction ks generalizing d with
  | nil => rfl
  | cons q ks ih =>
    cases hq : f q with
    | none =>
      rw [List.filterMap_cons_none (by simp [hq]), ih]
      by_cases hk : k = q
      · subst hk
        simp [hq]
      · simp [hk]
    | some v =>
      rw [List.filterMap_cons, hq, Option.map_some]
      have hstep : d.setAll ((q, v) :: ks.filterMap fun k => (f k).map (k, ·)) =
          (d.set q v).setAll (ks.filterMap fun k => (f k).map (k, ·)) := rfl
      rw [hstep, ih, get?_set]
      by_cases hk : q = k
      · subst hk
        simp [hq]
      · simp [hk, Ne.symm hk]

/-- Items made from the keys that `f` has a value for. -/
theorem get?_ofPairs_filterMap (f : κ → Option α) (ks : List κ) (k : κ) :
    (ofPairs (ks.filterMap fun k => (f k).map (k, ·))).get? k = if k ∈ ks then f k else none := by
  simp [ofPairs, get?_setAll_filterMap]

/-- Assigning items with different keys: they go before what was there. -/
theorem get?_setAll_of_nodup {ps : List (κ × α)} (h : (ps.map Prod.fst).Nodup) (d : Dict κ α)
    (k : κ) : (d.setAll ps).get? k = (lookupItem k ps).or (d.get? k) := by
  induction ps generalizing d with
  | nil => rfl
  | cons p ps ih =>
    obtain ⟨q, v⟩ := p
    simp only [List.map_cons, List.nodup_cons] at h
    have hstep : d.setAll ((q, v) :: ps) = (d.set q v).setAll ps := rfl
    rw [hstep, ih h.2, get?_set, lookupItem]
    by_cases hq : q = k
    · subst hq
      rw [lookupItem_eq_none.2 h.1]
      simp
    · simp [hq]

theorem get?_update (d e : Dict κ α) (k : κ) : (d.update e).get? k = (e.get? k).or (d.get? k) :=
  get?_setAll_of_nodup e.nodup d k

theorem get?_mapValues {β : Type} (f : α → β) (d : Dict κ α) (k : κ) :
    (d.mapValues f).get? k = (d.get? k).map f := by
  have hitems : ∀ items : List (κ × α),
      lookupItem k (items.map fun p => (p.1, f p.2)) = (lookupItem k items).map f := by
    intro items
    induction items with
    | nil => rfl
    | cons p items ih =>
      obtain ⟨q, v⟩ := p
      by_cases hq : q = k
      · simp [lookupItem, hq]
      · simpa [lookupItem, hq] using ih
  exact hitems d.items

theorem mapValues_set {β : Type} (f : α → β) (d : Dict κ α) (k : κ) (v : α) :
    (d.set k v).mapValues f = (d.mapValues f).set k (f v) := by
  have hitems : ∀ items : List (κ × α),
      (setItem k v items).map (fun p => (p.1, f p.2)) =
        setItem k (f v) (items.map fun p => (p.1, f p.2)) := by
    intro items
    induction items with
    | nil => rfl
    | cons p items ih =>
      obtain ⟨q, w⟩ := p
      by_cases hq : q = k
      · simp [setItem, hq]
      · simpa [setItem, hq] using ih
  exact ext_items (hitems d.items)

/-- A comprehension whose values may fail gives every value under its key, in the order of the items. -/
theorem foldlM_set_iff {β : Type} {f : κ → α → Option β} {d : Dict κ α} {e : Dict κ β} :
    d.items.foldlM (fun acc p => (f p.1 p.2).map (acc.set p.1)) empty = some e ↔
      List.Forall₂ (fun p q => p.1 = q.1 ∧ f p.1 p.2 = some q.2) d.items e.items := by
  -- the dictionary so far holds none of the keys to come
  suffices hrun : ∀ (ps : List (κ × α)) (acc : Dict κ β), (ps.map Prod.fst).Nodup →
      (∀ p ∈ ps, p.1 ∉ acc.keys) →
      (ps.foldlM (fun acc p => (f p.1 p.2).map (acc.set p.1)) acc = some e ↔
        ∃ qs, e.items = acc.items ++ qs ∧
          List.Forall₂ (fun p q => p.1 = q.1 ∧ f p.1 p.2 = some q.2) ps qs) by
    rw [hrun d.items empty d.nodup (by simp [keys, empty])]
    simp [empty]
  intro ps
  induction ps with
  | nil =>
    intro acc _ _
    rw [List.foldlM_nil]
    constructor
    · rintro ⟨⟩
      exact ⟨[], (List.append_nil _).symm, List.Forall₂.nil⟩
    · rintro ⟨qs, he, hqs⟩
      rw [List.forall₂_nil_left_iff.1 hqs, List.append_nil] at he
      exact congrArg some (ext_items he).symm
  | cons p ps ih =>
    intro acc hnodup hacc
    rw [List.map_cons, List.nodup_cons] at hnodup
    have hset : ∀ v, (acc.set p.1 v).items = acc.items ++ [(p.1, v)] :=
      fun v => setItem_of_notMem v (hacc p List.mem_cons_self)
    have hnext : ∀ v, ∀ q ∈ ps, q.1 ∉ (acc.set p.1 v).keys := by
      intro v q hq hmem
      rcases mem_keys_set.1 hmem with heq | hmem
      · exact hnodup.1 (heq ▸ List.mem_map_of_mem hq)
      · exact hacc q (List.mem_cons_of_mem p hq) hmem
    rw [List.foldlM_cons]
    cases hv : f p.1 p.2 with
    | none =>
      constructor
      · rintro ⟨⟩
      · rintro ⟨qs, -, hqs⟩
        obtain ⟨q, qs, ⟨-, hq⟩, -, rfl⟩ := List.forall₂_cons_left_iff.1 hqs
        rw [hv] at hq
        cases hq
    | some v =>
      have hrest := ih (acc.set p.1 v) hnodup.2 (hnext v)
      rw [hset] at hrest
      refine Iff.trans hrest ⟨?_, ?_⟩
      · rintro ⟨qs, he, hqs⟩
        exact ⟨(p.1, v) :: qs, by rw [he, List.append_assoc]; rfl, List.Forall₂.cons ⟨rfl, hv⟩ hqs⟩
      · rintro ⟨qs, he, hall⟩
        obtain ⟨⟨k, w⟩, qs, ⟨hk, hw⟩, hqs, rfl⟩ := List.forall₂_cons_left_iff.1 hall
        obtain rfl : v = w := Option.some.inj (hv.symm.trans hw)
        obtain rfl : p.1 = k := hk
        exact ⟨qs, by rw [he, List.append_assoc]; rfl, hqs⟩

theorem get?_of_foldlM_set {β : Type} {f : κ → α → Option β} {d : Dict κ α} {e : Dict κ β}
    (h : d.items.foldlM (fun acc p => (f p.1 p.2).map (acc.set p.1)) empty = some e) (k : κ) :
    e.get? k = (d.get? k).bind (f k) := by
  have hall := foldlM_set_iff.1 h
  unfold get?
  generalize d.items = ps, e.items = qs at hall ⊢
  induction hall with
  | nil => rfl
  | @cons p q ps qs hpq _ ih =>
    obtain ⟨k', v⟩ := p
    obtain ⟨_, w⟩ := q
    obtain ⟨rfl, hv⟩ := hpq
    simp only [lookupItem]
    split
    · rename_i hk
      rw [← hk]
      exact hv.symm
    · exact ih

theorem isSome_foldlM_set {β : Type} {f : κ → α → Option β} (ps : List (κ × α)) (d : Dict κ β) :
    (ps.foldlM (fun acc p => (f p.1 p.2).map (acc.set p.1)) d).isSome ↔ ∀ p ∈ ps, (f p.1 p.2).isSome := by
  induction ps generalizing d with
  | nil => simp
  | cons p ps ih =>
    rw [List.foldlM_cons, List.forall_mem_cons]
    cases hv : f p.1 p.2 with
    | none => simp
    | some v => exact Iff.trans (ih (d.set p.1 v)) (by simp)

theorem mem_keys_iff_isSome {d : Dict κ α} {k : κ} : k ∈ d.keys ↔ (d.get? k).isSome := by
  rw [mem_keys, Option.isSome_iff_exists]
  simp only [get?_eq_some]

theorem rel_flip {β : Type} {R : α → β → Prop} {S : β → α → Prop} (h : ∀ v w, R v w → S w v)
    {v : Option α} {w : Option β} (hvw : Option.Rel R v w) : Option.Rel S w v := by
  cases hvw with
  | none => exact .none
  | some hvw => exact .some (h _ _ hvw)

/-- Dictionaries whose values are related, in any order: what is made of them is the same. -/
theorem filterMap_perm {β γ : Type} {R : α → β → Prop} {d : Dict κ α} {e : Dict κ β}
    (h : ∀ k, Option.Rel R (d.get? k) (e.get? k)) {f : κ × α → Option γ} {g : κ × β → Option γ}
    (hfg : ∀ k v w, R v w → f (k, v) = g (k, w)) : (d.items.filterMap f).Perm (e.items.filterMap g) := by
  have hkeys : ∀ {δ : Type} (d : Dict κ δ) (f : κ × δ → Option γ),
      d.items.filterMap f = d.keys.filterMap fun k => (d.get? k).bind fun v => f (k, v) := by
    intro δ d f
    rw [keys, List.filterMap_map]
    refine List.filterMap_congr fun p hp => ?_
    rw [Function.comp_apply, get?_eq_some.2 hp]
    rfl
  have hperm : d.keys.Perm e.keys := by
    refine (List.perm_ext_iff_of_nodup d.nodup e.nodup).2 fun k => ?_
    have hk := h k
    refine mem_keys_iff_isSome.trans (Iff.trans ?_ mem_keys_iff_isSome.symm)
    generalize d.get? k = v at hk
    generalize e.get? k = w at hk
    cases hk with
    | none => rfl
    | some => rfl
  have hsame : ∀ k, ((d.get? k).bind fun v => f (k, v)) = (e.get? k).bind fun w => g (k, w) := by
    intro k
    have hk := h k
    generalize d.get? k = v at hk
    generalize e.get? k = w at hk
    cases hk with
    | none => rfl
    | some hvw => exact hfg k _ _ hvw
  rw [hkeys, hkeys]
  simp only [hsame]
  exact hperm.filterMap _

/-- `d == e`: the same keys with the same values, in any order. -/
def Same (d e : Dict κ α) : Prop := ∀ k, d.get? k = e.get? k

theorem Same.perm {d e : Dict κ α} (h : Same d e) : d.items.Perm e.items := by
  refine (List.perm_ext_iff_of_nodup (List.Nodup.of_map _ d.nodup)
    (List.Nodup.of_map _ e.nodup)).2 fun p => ?_
  obtain ⟨k, v⟩ := p
  rw [← get?_eq_some, ← get?_eq_some, h k]

/-- An index in which the first of `bs` that lists a key gets it. -/
theorem get?_foldl_setdefault {β : Type} (names : β → List κ) (value : β → α) (bs : List β)
    (d : Dict κ α) (k : κ) :
    (bs.foldl (fun d b => (names b).foldl (fun d n => d.setdefault n (value b)) d) d).get? k =
      (d.get? k).or ((bs.find? fun b => decide (k ∈ names b)).map value) := by
  have hnames : ∀ (b : β) (ns : List κ) (d : Dict κ α),
      (ns.foldl (fun d n => d.setdefault n (value b)) d).get? k =
        (d.get? k).or (if k ∈ ns then some (value b) else none) := by
    intro b ns
    induction ns with
    | nil => simp
    | cons n ns ih =>
      intro d
      rw [List.foldl_cons, ih, get?_setdefault, Option.or_assoc]
      by_cases hk : k = n
      · simp [hk]
      · simp [hk, Ne.symm hk]
  induction bs generalizing d with
  | nil => simp
  | cons b bs ih =>
    rw [List.foldl_cons, ih, hnames, Option.or_assoc, List.find?_cons]
    by_cases hk : k ∈ names b <;> simp [hk]

end Dict

end PartCAD.Lib
