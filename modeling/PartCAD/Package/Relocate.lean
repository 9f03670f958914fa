import PartCAD.Package.Normalize

/-!
# Relocating references

A package may be loaded at another place than the name it gives itself.  References that it makes
to itself are written with that name, and `relocate` points them at where the package is.

* `relocate_idempotent_iff` : relocating twice is relocating once where neither of the two names
  is above the other;
* `resolve_own_iff` : what the package resolves a reference to that already has its own name to;
* `relocate_resolve_iff` : both together.
-/

namespace PartCAD.Package

open PartCAD.Lib PartCAD.Lib.Text

/-! ## The functions -/

/-- The names of a package: the one in its configuration and the one that it is loaded under. -/
structure Project where
  declaredName : Option Str
  name : Str

namespace Project

def relocate (p : Project) (pattern : Str) : Str :=
  match p.declaredName with
  | none => pattern
  | some declared =>
    if declared = [] ∨ declared = p.name then pattern
    else if pattern = declared ∨ startswith pattern (declared ++ ['/']) ∨
        startswith pattern (declared ++ [':']) then
      p.name ++ pattern.drop declared.length
    else pattern

def resolve (p : Project) (pattern : Str) : Option (Str × Str) :=
  resolveResourcePath p.name (p.relocate pattern)

end Project

/-- A name that may stand in a package path: the path ends at the first `:` of a reference. -/
def IsPackageName (c : Str) : Prop := IsName c ∧ ':' ∉ c

instance (c : Str) : Decidable (IsPackageName c) := by unfold IsPackageName; infer_instance

/-- Neither of the two paths lies below the other. -/
def Apart (d n : Str) : Prop :=
  ¬ startswith n (d ++ ['/']) ∧ ¬ startswith d (n ++ ['/'])

instance (d n : Str) : Decidable (Apart d n) := by unfold Apart; infer_instance

/-! ## Prefixes up to a separator -/

section

variable {d n r t u : Str}

/-- What may follow a package path in a reference. -/
def IsTail (t : Str) : Prop := t = [] ∨ (∃ u, t = '/' :: u) ∨ ∃ u, t = ':' :: u

theorem relocate_cases (d n r : Str) (hd : d ≠ []) (hne : d ≠ n) :
    (∃ t, IsTail t ∧ r = d ++ t ∧ (Project.mk (some d) n).relocate r = n ++ t) ∨
      ((¬ ∃ t, IsTail t ∧ r = d ++ t) ∧ (Project.mk (some d) n).relocate r = r) := by
  have hcond : (r = d ∨ startswith r (d ++ ['/']) ∨ startswith r (d ++ [':'])) ↔
      ∃ t, IsTail t ∧ r = d ++ t := by
    simp only [startswith_iff]
    constructor
    · rintro (rfl | ⟨u, rfl⟩ | ⟨u, rfl⟩)
      · exact ⟨[], Or.inl rfl, by simp⟩
      · exact ⟨'/' :: u, Or.inr (Or.inl ⟨u, rfl⟩), by simp⟩
      · exact ⟨':' :: u, Or.inr (Or.inr ⟨u, rfl⟩), by simp⟩
    · rintro ⟨t, rfl | ⟨u, rfl⟩ | ⟨u, rfl⟩, rfl⟩
      · exact Or.inl (by simp)
      · exact Or.inr (Or.inl ⟨u, by simp⟩)
      · exact Or.inr (Or.inr ⟨u, by simp⟩)
  simp only [Project.relocate, hd, hne, false_or, if_false]
  by_cases h : ∃ t, IsTail t ∧ r = d ++ t
  · rw [if_pos (hcond.2 h)]
    obtain ⟨t, ht, rfl⟩ := h
    exact Or.inl ⟨t, ht, rfl, by simp⟩
  · rw [if_neg fun h' => h (hcond.1 h')]
    exact Or.inr ⟨h, rfl⟩

theorem relocate_self (r : Str) : (Project.mk (some n) n).relocate r = r := by
  simp [Project.relocate]

/-- A reference that goes on after two different names goes on through one into the other. -/
theorem startswith_of_append_eq (hd : ':' ∉ d) (hn : ':' ∉ n) (ht : IsTail t) (hu : IsTail u)
    (h : n ++ t = d ++ u) (hne : d ≠ n) :
    startswith n (d ++ ['/']) ∨ startswith d (n ++ ['/']) := by
  simp only [startswith_iff]
  rcases List.append_eq_append_iff.1 h with ⟨v, rfl, rfl⟩ | ⟨v, rfl, rfl⟩
  · right
    rcases v with _ | ⟨a, v⟩
    · simp at hne
    · obtain rfl : a = '/' := by
        rcases ht with ht | ⟨w, ht⟩ | ⟨w, ht⟩
        · simp at ht
        · exact (List.cons.inj ht).1
        · exact absurd (by simp [(List.cons.inj ht).1] : ':' ∈ n ++ a :: v) hd
      exact ⟨v, by simp⟩
  · left
    rcases v with _ | ⟨a, v⟩
    · simp at hne
    · obtain rfl : a = '/' := by
        rcases hu with hu | ⟨w, hu⟩ | ⟨w, hu⟩
        · simp at hu
        · exact (List.cons.inj hu).1
        · exact absurd (by simp [(List.cons.inj hu).1] : ':' ∈ d ++ a :: v) hn
      exact ⟨v, by simp⟩

/-! ## Idempotence -/

theorem relocate_idempotent_of_apart (hd0 : d ≠ []) (hd : ':' ∉ d) (hn : ':' ∉ n)
    (h : Apart d n) (r : Str) :
    (Project.mk (some d) n).relocate ((Project.mk (some d) n).relocate r) =
      (Project.mk (some d) n).relocate r := by
  by_cases hne : d = n
  · subst hne
    rw [relocate_self]
  · rcases relocate_cases d n r hd0 hne with ⟨t, ht, rfl, hr⟩ | ⟨-, hr⟩
    · rw [hr]
      rcases relocate_cases d n (n ++ t) hd0 hne with ⟨u, hu, heq, -⟩ | ⟨-, hr'⟩
      · rcases startswith_of_append_eq hd hn ht hu heq hne with h' | h'
        · exact absurd h' h.1
        · exact absurd h' h.2
      · exact hr'
    · rw [hr, hr]

/-- Below its declared name a package moves the name itself further down each time. -/
theorem relocate_not_idempotent_of_below (hd0 : d ≠ []) (h : startswith n (d ++ ['/'])) :
    (Project.mk (some d) n).relocate ((Project.mk (some d) n).relocate d) ≠
      (Project.mk (some d) n).relocate d := by
  obtain ⟨s, rfl⟩ := startswith_iff.1 h
  have hne : d ≠ d ++ ['/'] ++ s := by simp
  have hcases := relocate_cases d (d ++ ['/'] ++ s)
  have hfirst : (Project.mk (some d) (d ++ ['/'] ++ s)).relocate d = d ++ ['/'] ++ s := by
    rcases hcases d hd0 hne with ⟨t, -, hdt, hr⟩ | ⟨hno, -⟩
    · obtain rfl : t = [] := by simpa using hdt
      simpa using hr
    · exact absurd ⟨[], Or.inl rfl, by simp⟩ hno
  rw [hfirst]
  rcases hcases (d ++ ['/'] ++ s) hd0 hne with ⟨t, -, hdt, hr⟩ | ⟨hno, -⟩
  · obtain rfl : t = '/' :: s := by simpa using hdt.symm
    rw [hr]
    simp
  · exact absurd ⟨'/' :: s, Or.inr (Or.inl ⟨s, rfl⟩), by simp⟩ hno

/-- Above its declared name a package moves a reference up twice. -/
theorem relocate_not_idempotent_of_above (hd0 : d ≠ []) (h : startswith d (n ++ ['/'])) :
    ∃ r, (Project.mk (some d) n).relocate ((Project.mk (some d) n).relocate r) ≠
      (Project.mk (some d) n).relocate r := by
  obtain ⟨s, rfl⟩ := startswith_iff.1 h
  have hne : n ++ ['/'] ++ s ≠ n := by simp
  have hcases := relocate_cases (n ++ ['/'] ++ s) n
  refine ⟨n ++ ['/'] ++ s ++ '/' :: s, ?_⟩
  have hfirst : (Project.mk (some (n ++ ['/'] ++ s)) n).relocate (n ++ ['/'] ++ s ++ '/' :: s) =
      n ++ ['/'] ++ s := by
    rcases hcases (n ++ ['/'] ++ s ++ '/' :: s) hd0 hne with ⟨t, -, hdt, hr⟩ | ⟨hno, -⟩
    · obtain rfl : t = '/' :: s := (List.append_cancel_left hdt).symm
      simpa using hr
    · exact absurd ⟨'/' :: s, Or.inr (Or.inl ⟨s, rfl⟩), rfl⟩ hno
  rw [hfirst]
  rcases hcases (n ++ ['/'] ++ s) hd0 hne with ⟨t, -, hdt, hr⟩ | ⟨hno, -⟩
  · obtain rfl : t = [] := by simpa using hdt
    rw [hr]
    simp
  · exact absurd ⟨[], Or.inl rfl, by simp⟩ hno

theorem relocate_idempotent_iff (hd0 : d ≠ []) (hd : ':' ∉ d) (hn : ':' ∉ n) :
    (∀ r, (Project.mk (some d) n).relocate ((Project.mk (some d) n).relocate r) =
      (Project.mk (some d) n).relocate r) ↔ Apart d n := by
  constructor
  · intro h
    refine ⟨fun hbelow => relocate_not_idempotent_of_below hd0 hbelow (h d), fun habove => ?_⟩
    obtain ⟨r, hr⟩ := relocate_not_idempotent_of_above hd0 habove
    exact hr (h r)
  · exact relocate_idempotent_of_apart hd0 hd hn

end

/-! ## The package's own name in a reference -/

theorem wildcard_eq_of_append {c X Y : Str} (h : wildcard c ++ X = c ++ Y) : wildcard c = c := by
  induction c with
  | nil => rfl
  | cons a s ih =>
    rw [wildcard_cons] at h ⊢
    split
    · rename_i hpre
      rw [if_pos hpre] at h
      obtain ⟨t, ht⟩ := List.isPrefixOf_iff_prefix.1 hpre
      have ha : '.' = a := (List.cons.inj ht).1
      have hstar : '*' = a := (List.cons.inj h).1
      exact absurd (ha.trans hstar.symm) (by decide)
    · rename_i hpre
      rw [if_neg hpre] at h
      rw [ih (List.cons.inj h).2]

theorem wildcard_eq_self_iff {c : Str} : wildcard c = c ↔ ¬ ellipsis <:+: c := by
  constructor
  · intro h hin
    induction c with
    | nil => exact absurd (List.infix_nil.1 hin) (by decide)
    | cons a s ih =>
      rw [wildcard_cons] at h
      split at h
      · rename_i hpre
        obtain ⟨t, ht⟩ := List.isPrefixOf_iff_prefix.1 hpre
        have ha : '.' = a := (List.cons.inj ht).1
        have hstar : '*' = a := (List.cons.inj h).1
        exact absurd (ha.trans hstar.symm) (by decide)
      · rename_i hpre
        rcases List.infix_cons_iff.1 hin with hp | hp
        · exact hpre (List.isPrefixOf_iff_prefix.2 hp)
        · exact ih (List.cons.inj h).2 hp
  · exact replace_of_not_infix

section

variable {D N S : List Str} {x : Str}

theorem notMem_colon_pathOf (hN : ∀ c ∈ N, IsPackageName c) : ':' ∉ pathOf N := by
  intro h
  rcases mem_join (by simpa [pathOf] using h : ':' ∈ join '/' N) with h | ⟨c, hc, h⟩
  · exact absurd h (by decide)
  · exact (hN c hc).2 h

theorem resolveResourcePath_absolute (current : Str) (hN : ∀ c ∈ N, IsPackageName c)
    (hx : ':' ∉ x) :
    resolveResourcePath current (pathOf N ++ ':' :: x) =
      some (subParent (pathOf (N.map wildcard)), wildcard x) := by
  have hpath := notMem_colon_pathOf hN
  have hstart : startswith (pathOf (N.map wildcard)) ['/', '/'] = true :=
    startswith_append ['/', '/'] _
  have hne : pathOf N ≠ [] := by simp [pathOf]
  have hmem : ':' ∈ pathOf N ++ ':' :: x := by simp
  unfold resolveResourcePath
  simp only [hmem, not_true_eq_false, if_false, split_append_cons, split_of_notMem hpath,
    split_of_notMem hx, List.cons_append, List.nil_append]
  rw [if_neg hne, show isSingleSlash (pathOf N) = false from rfl, if_neg Bool.false_ne_true,
    wildcard_pathOf, hstart, if_neg (by decide)]

/-- A misread name leaves its tail without a slash before it. -/
theorem collapse_ne_render {c d : Str} {rest M : List Str} (hpre : dotdot.isPrefixOf d = true)
    (hd : d ≠ dotdot) (hs : '/' ∉ d) : collapse (c :: d :: rest) ≠ render M := by
  intro h
  obtain ⟨t, rfl⟩ := List.isPrefixOf_iff_prefix.1 hpre
  rw [collapse, if_pos hpre] at h
  rcases t with _ | ⟨a, t⟩
  · exact hd (by simp)
  · cases M with
    | nil => simp [render, dotdot] at h
    | cons m M =>
      have ha : a = '/' := (List.cons.inj h).1
      exact hs (by simp [ha])

/-- A pass that gives back the front part of a list of names rewrote nothing in it, and there was
nothing behind. -/
theorem eq_of_collapse_prefix {L M : List Str} (hL : ∀ c ∈ L, c ≠ dotdot ∧ '/' ∉ c)
    (hM : M <+: L) (h : collapse (L.map wildcard) = render M) :
    M = L ∧ (∀ c ∈ L, wildcard c = c) ∧ ∀ c ∈ L.tail, dotdot.isPrefixOf c = false := by
  induction L generalizing M with
  | nil =>
    obtain rfl := List.prefix_nil.1 hM
    simp
  | cons c L ih =>
    obtain ⟨m, M, rfl⟩ : ∃ m M', M = m :: M' := by
      apply List.exists_cons_of_ne_nil
      rintro rfl
      cases L with
      | nil => simp [collapse, render] at h
      | cons d L =>
        have hd := hL d (by simp)
        by_cases hpre : dotdot.isPrefixOf (wildcard d) = true
        · exact collapse_ne_render hpre (fun hdd => hd.1 (wildcard_eq_dotdot.1 hdd))
            (notMem_wildcard (by decide) hd.2) h
        · simp [collapse, hpre, render] at h
    obtain ⟨rfl, hM'⟩ := List.cons_prefix_cons.1 hM
    cases L with
    | nil =>
      obtain rfl := List.prefix_nil.1 hM'
      simpa [collapse, render] using h
    | cons d L =>
      have hd := hL d (by simp)
      by_cases hpre : dotdot.isPrefixOf (wildcard d) = true
      · exact absurd h (collapse_ne_render hpre (fun hdd => hd.1 (wildcard_eq_dotdot.1 hdd))
          (notMem_wildcard (by decide) hd.2))
      · rw [List.map_cons, List.map_cons, collapse, if_neg hpre, render, List.cons_append,
          List.cons_append, List.cons.injEq] at h
        replace h := h.2
        have hm := wildcard_eq_of_append h
        rw [hm] at h
        obtain ⟨rfl, hwild, hdots⟩ :=
          ih (fun e he => hL e (List.mem_cons_of_mem _ he)) hM' (List.append_cancel_left h)
        refine ⟨rfl, ?_, ?_⟩
        · intro e he
          rcases List.mem_cons.1 he with rfl | he
          · exact hm
          · exact hwild e he
        · intro e he
          rcases List.mem_cons.1 he with rfl | he
          · rw [← hwild e (by simp)]
            exact Bool.eq_false_iff.2 hpre
          · exact hdots e he

/-- The names in a path that is read as it is written. -/
def IsPlain (c : Str) : Prop := ¬ dotdot <+: c ∧ ¬ ellipsis <:+: c

theorem subParent_pathOf (hN : ∀ c ∈ N, '/' ∉ c) :
    subParent (pathOf N) = collapse ([] :: if N = [] then [[]] else N) := by
  rw [pathOf_eq_render]
  refine subParent_render _ fun c hc => ?_
  rcases List.mem_cons.1 hc with rfl | hc
  · simp
  · split at hc
    · simp at hc; simp [hc]
    · exact hN c hc

/-- The pass gives back the front part of a path for plain names with nothing behind, only. -/
theorem subParent_eq_iff (hN : ∀ c ∈ N ++ S, IsPackageName c) (hroot : N = [] → S = []) :
    subParent (pathOf ((N ++ S).map wildcard)) = pathOf N ↔ S = [] ∧ ∀ c ∈ N, IsPlain c := by
  have hslash : ∀ c ∈ (N ++ S).map wildcard, '/' ∉ c := by
    intro c hc
    obtain ⟨q, hq, rfl⟩ := List.mem_map.1 hc
    exact notMem_wildcard (by decide) (hN q hq).1.2.1
  rw [subParent_pathOf hslash]
  by_cases hNe : N = []
  · subst hNe
    rw [hroot rfl]
    simp
    rfl
  · rw [if_neg (by simp [hNe]), ← render_root_cons hNe]
    constructor
    · intro h
      have hL : ∀ c ∈ [] :: (N ++ S), c ≠ dotdot ∧ '/' ∉ c := by
        intro c hc
        rcases List.mem_cons.1 hc with rfl | hc
        · decide
        · exact ⟨(hN c hc).1.2.2, (hN c hc).1.2.1⟩
      obtain ⟨hNS, hwild, hdots⟩ := eq_of_collapse_prefix hL (by simp) h
      have hS : S = [] := by simpa using hNS
      refine ⟨hS, fun c hc => ⟨fun hpre => ?_, ?_⟩⟩
      · have := hdots c (by simp [hc])
        rw [List.isPrefixOf_iff_prefix.2 hpre] at this
        exact absurd this (by decide)
      · exact wildcard_eq_self_iff.1 (hwild c (by simp [hc]))
    · rintro ⟨rfl, hplain⟩
      have hwild : N.map wildcard = N := by
        conv_rhs => rw [← List.map_id N]
        exact List.map_congr_left fun c hc => wildcard_eq_self_iff.2 (hplain c hc).2
      have hpair : Paired ([] :: (N ++ [])) := by
        refine paired_of_not_prefix fun c hc => ?_
        rcases List.mem_cons.1 hc with rfl | hc
        · rfl
        · rw [Bool.eq_false_iff, ne_eq, List.isPrefixOf_iff_prefix]
          exact (hplain c (by simpa using hc)).1
      have hcollapse := collapse_of_paired (fun c hc => (hN c (by simpa using hc)).1)
        (lexical_nil N) hpair
      simpa [hwild] using hcollapse

/-- A reference with the package's own name in front is left alone by a package that does not lie
below the name it declares. -/
theorem relocate_own (hD : ∀ c ∈ D, IsPackageName c) (hN : ∀ c ∈ N, IsPackageName c)
    (h : ¬ startswith (pathOf N) (pathOf D ++ ['/'])) (x : Str) :
    (Project.mk (some (pathOf D)) (pathOf N)).relocate (pathOf N ++ ':' :: x) =
      pathOf N ++ ':' :: x := by
  by_cases hne : pathOf D = pathOf N
  · rw [hne, relocate_self]
  · rcases relocate_cases (pathOf D) (pathOf N) (pathOf N ++ ':' :: x) (by simp [pathOf]) hne with
      ⟨t, ht, heq, -⟩ | ⟨-, hr⟩
    · rcases startswith_of_append_eq (notMem_colon_pathOf hD) (notMem_colon_pathOf hN)
        (Or.inr (Or.inr ⟨x, rfl⟩)) ht heq hne with hbelow | habove
      · exact absurd hbelow h
      · obtain ⟨u, hu⟩ := startswith_iff.1 habove
        rw [← hu] at heq
        simp at heq
    · exact hr

/-- A package below the name it declares repeats the way down in such a reference. -/
theorem relocate_own_below (hD : D ≠ []) (hS : S ≠ []) (x : Str) :
    (Project.mk (some (pathOf D)) (pathOf (D ++ S))).relocate (pathOf (D ++ S) ++ ':' :: x) =
      pathOf ((D ++ S) ++ S) ++ ':' :: x := by
  have hpath := pathOf_append hD hS
  have hne : pathOf D ≠ pathOf (D ++ S) := by simp [hpath]
  have htail : IsTail ('/' :: join '/' S ++ ':' :: x) := Or.inr (Or.inl ⟨_, rfl⟩)
  have heq : pathOf (D ++ S) ++ ':' :: x = pathOf D ++ ('/' :: join '/' S ++ ':' :: x) := by
    simp [hpath]
  rcases relocate_cases (pathOf D) (pathOf (D ++ S)) (pathOf (D ++ S) ++ ':' :: x)
    (by simp [pathOf]) hne with ⟨t, -, heq', hr⟩ | ⟨hno, -⟩
  · rw [heq] at heq'
    have hpath' : pathOf (D ++ S ++ S) = pathOf (D ++ S) ++ '/' :: join '/' S :=
      pathOf_append (by simp [hD]) hS
    rw [hr, ← List.append_cancel_left heq', hpath']
    simp
  · exact absurd ⟨_, htail, heq⟩ hno

/-- What a reference with the package's own name in front resolves to. -/
theorem resolve_own_iff (hD : ∀ c ∈ D, IsPackageName c) (hN : ∀ c ∈ N, IsPackageName c)
    (hx : ':' ∉ x) :
    (Project.mk (some (pathOf D)) (pathOf N)).resolve (pathOf N ++ ':' :: x) =
        some (pathOf N, x) ↔
      ¬ startswith (pathOf N) (pathOf D ++ ['/']) ∧ (∀ c ∈ N, IsPlain c) ∧ ¬ ellipsis <:+: x := by
  unfold Project.resolve
  by_cases hbelow : startswith (pathOf N) (pathOf D ++ ['/'])
  · obtain ⟨hDe, S, hS, rfl⟩ := startswith_pathOf (fun c hc => (hD c hc).1.component)
      (fun c hc => (hN c hc).1.component) hbelow
    have hNS : ∀ c ∈ (D ++ S) ++ S, IsPackageName c := by
      intro c hc
      rcases List.mem_append.1 hc with hc | hc
      · exact hN c hc
      · exact hN c (List.mem_append_right _ hc)
    rw [relocate_own_below hDe hS, resolveResourcePath_absolute _ hNS hx, Option.some.injEq,
      Prod.mk.injEq, subParent_eq_iff hNS (by simp [hDe])]
    simp [hS, hbelow]
  · have hnil : ∀ c ∈ N ++ [], IsPackageName c := by simpa using hN
    have hiff := subParent_eq_iff hnil fun _ => rfl
    rw [List.append_nil] at hiff
    rw [relocate_own hD hN hbelow, resolveResourcePath_absolute _ hN hx, Option.some.injEq,
      Prod.mk.injEq, hiff, wildcard_eq_self_iff]
    simp [hbelow]

/-- **A package can relocate its references as often as it likes, and reach its own items by its
own name, where neither of its two names lies below the other** and its path is plain. -/
theorem relocate_resolve_iff (hD : ∀ c ∈ D, IsPackageName c) (hN : ∀ c ∈ N, IsPackageName c)
    (hx : ':' ∉ x) :
    let p := Project.mk (some (pathOf D)) (pathOf N)
    ((∀ r, p.relocate (p.relocate r) = p.relocate r) ∧
        p.resolve (pathOf N ++ ':' :: x) = some (pathOf N, x)) ↔
      Apart (pathOf D) (pathOf N) ∧ (∀ c ∈ N, IsPlain c) ∧ ¬ ellipsis <:+: x := by
  simp only [relocate_idempotent_iff (by simp [pathOf] : pathOf D ≠ []) (notMem_colon_pathOf hD)
    (notMem_colon_pathOf hN), resolve_own_iff hD hN hx]
  constructor
  · rintro ⟨hapart, -, hplain⟩
    exact ⟨hapart, hplain⟩
  · rintro ⟨hapart, hplain⟩
    exact ⟨hapart, hapart.1, hplain⟩

/-- A copy of `//a` at `//b`. -/
theorem relocate_resolve_vendored :
    (∀ r, (Project.mk (some "//a".toList) "//b".toList).relocate
        ((Project.mk (some "//a".toList) "//b".toList).relocate r) =
      (Project.mk (some "//a".toList) "//b".toList).relocate r) ∧
    (Project.mk (some "//a".toList) "//b".toList).resolve "//b:x".toList =
      some ("//b".toList, ['x']) :=
  (relocate_resolve_iff (D := [['a']]) (N := [['b']]) (x := ['x']) (by decide) (by decide)
    (by decide)).2 ⟨by decide, by simp [IsPlain, dotdot, ellipsis]; decide, by decide⟩

/-- A copy of `//a` at `//a/b`. -/
theorem relocate_resolve_below :
    ¬ ∀ (D N : List Str) (x : Str), (∀ c ∈ D, IsPackageName c) → (∀ c ∈ N, IsPackageName c) →
      ':' ∉ x →
      (∀ r, (Project.mk (some (pathOf D)) (pathOf N)).relocate
          ((Project.mk (some (pathOf D)) (pathOf N)).relocate r) =
        (Project.mk (some (pathOf D)) (pathOf N)).relocate r) ∧
      (Project.mk (some (pathOf D)) (pathOf N)).resolve (pathOf N ++ ':' :: x) =
        some (pathOf N, x) := by
  intro h
  have h := (h [['a']] [['a'], ['b']] ['x'] (by decide) (by decide) (by decide)).2
  exact absurd h (by decide)

end

end PartCAD.Package
