import PartCAD.Lib.Text

/-!
# Package paths

A package path is `//` and the names on the way from the root package, separated by `/`.  A
relative path is written against one: names, and `..` for one step back.

* `getChildProjectPath`, `resolveResourcePath` and `normalizeResourcePath` embed the functions of
  the same names; both normalise `..` with one pass of one regular expression (`subParent`);
* `subParent_render` : on a list of components the pass takes the components two by two
  (`collapse`).
-/

namespace PartCAD.Package

open PartCAD.Lib PartCAD.Lib.Text

/-! ## Components -/

/-- The component that steps back to the parent. -/
def dotdot : Str := ['.', '.']

/-- The mark of a wildcard in a reference. -/
def ellipsis : Str := ['.', '.', '.']

/-- What may stand between two slashes of a path. -/
def IsComponent (c : Str) : Prop := c ≠ [] ∧ '/' ∉ c

instance (c : Str) : Decidable (IsComponent c) := by unfold IsComponent; infer_instance

/-- A name of a package: a component that is not `..`. -/
def IsName (c : Str) : Prop := c ≠ [] ∧ '/' ∉ c ∧ c ≠ dotdot

instance (c : Str) : Decidable (IsName c) := by unfold IsName; infer_instance

theorem IsName.component {c : Str} (h : IsName c) : IsComponent c := ⟨h.1, h.2.1⟩

/-- Every component with a slash before it. -/
@[grind =]
def render : List Str → Str
  | [] => []
  | c :: cs => '/' :: c ++ render cs

/-- The path of the package that the names `cs` lead to from the root. -/
def pathOf (cs : List Str) : Str := '/' :: '/' :: join '/' cs

theorem render_append (cs ds : List Str) : render (cs ++ ds) = render cs ++ render ds := by
  induction cs with
  | nil => rfl
  | cons c cs ih => simp [render, ih]

theorem render_eq_join {cs : List Str} (h : cs ≠ []) : render cs = '/' :: join '/' cs := by
  induction cs with
  | nil => exact absurd rfl h
  | cons c cs ih =>
    by_cases hcs : cs = []
    · subst hcs; simp [render, join]
    · rw [render, ih hcs, join_cons_of_ne_nil '/' c hcs]
      rfl

/-- The components of a path, the empty one between the two leading slashes included. -/
theorem pathOf_eq_render (cs : List Str) :
    pathOf cs = render ([] :: if cs = [] then [[]] else cs) := by
  split
  · rename_i h; subst h; rfl
  · rename_i h; rw [render, render_eq_join h]; rfl

theorem pathOf_injective {cs ds : List Str} (hc : ∀ c ∈ cs, IsComponent c)
    (hd : ∀ d ∈ ds, IsComponent d) (h : pathOf cs = pathOf ds) : cs = ds :=
  join_injective hc hd (by simpa [pathOf] using h)

theorem pathOf_append {cs ds : List Str} (hc : cs ≠ []) (hd : ds ≠ []) :
    pathOf (cs ++ ds) = pathOf cs ++ '/' :: join '/' ds := by
  simp [pathOf, join_append '/' hc hd]

theorem render_root_cons {cs : List Str} (h : cs ≠ []) : render ([] :: cs) = pathOf cs := by
  rw [pathOf_eq_render, if_neg h]

/-- The last component of a path with the slash before it. -/
theorem pathOf_concat (cs : List Str) (c : Str) :
    pathOf (cs ++ [c]) = render ([] :: cs) ++ '/' :: c := by
  rw [← render_root_cons (by simp), ← List.cons_append, render_append]
  simp [render]

theorem getLast?_pathOf {cs : List Str} (hc : ∀ c ∈ cs, IsComponent c) (hne : cs ≠ []) :
    (pathOf cs).getLast? ≠ some '/' := by
  obtain ⟨ds, c, rfl⟩ := (List.eq_nil_or_concat' cs).resolve_left hne
  obtain ⟨hcne, hcs⟩ := hc c (by simp)
  rw [pathOf_concat, List.getLast?_append_of_ne_nil _ (by simp), List.getLast?_cons_of_ne_nil hcne]
  exact fun h => hcs (List.mem_of_getLast? h)

/-- The first character of a relative path is not a slash. -/
theorem join_ne_slash {cs : List Str} (hc : ∀ c ∈ cs, IsComponent c) (s : Str) :
    join '/' cs ≠ '/' :: s := by
  intro h
  cases cs with
  | nil => simp [join] at h
  | cons c cs =>
    obtain ⟨hne, hs⟩ := hc c (by simp)
    obtain ⟨a, c, rfl⟩ := List.exists_cons_of_ne_nil hne
    have ha : a = '/' := by
      by_cases hcs : cs = []
      · subst hcs
        exact (List.cons.inj h).1
      · rw [join_cons_of_ne_nil _ _ hcs] at h
        exact (List.cons.inj h).1
    exact hs (by simp [ha])

/-- A path that goes on after another with a slash goes on with components. -/
theorem startswith_pathOf {cs ds : List Str} (hc : ∀ c ∈ cs, IsComponent c)
    (hd : ∀ d ∈ ds, IsComponent d) (h : startswith (pathOf ds) (pathOf cs ++ ['/'])) :
    cs ≠ [] ∧ ∃ es, es ≠ [] ∧ ds = cs ++ es := by
  obtain ⟨t, ht⟩ := startswith_iff.1 h
  have hjoin : join '/' ds = join '/' cs ++ '/' :: t := by simpa [pathOf] using ht.symm
  have hcs : cs ≠ [] := by
    rintro rfl
    exact join_ne_slash hd t hjoin
  have hds : ds ≠ [] := by
    rintro rfl
    simp [join] at hjoin
  have hsplit := congrArg (split '/') hjoin
  rw [split_join (fun d h => (hd d h).2) hds, split_append_cons,
    split_join (fun c h => (hc c h).2) hcs] at hsplit
  exact ⟨hcs, split '/' t, split_ne_nil '/' t, hsplit⟩

theorem render_injective {cs ds : List Str} (hc : ∀ c ∈ cs, '/' ∉ c) (hd : ∀ d ∈ ds, '/' ∉ d)
    (h : render cs = render ds) : cs = ds := by
  by_cases hcs : cs = []
  · subst hcs
    cases ds with
    | nil => rfl
    | cons d ds => simp [render] at h
  · have hds : ds ≠ [] := by
      rintro rfl
      rw [render_eq_join hcs] at h
      simp [render] at h
    rw [render_eq_join hcs, render_eq_join hds, List.cons.injEq] at h
    rw [← split_join hc hcs, ← split_join hd hds, h.2]

/-! ## The functions -/

/-- The length of a match of `/[^/]*/\.\.` at the front of `s`. -/
def matchParent : Str → Option ℕ
  | '/' :: s =>
    match s.dropWhile (· != '/') with
    | '/' :: '.' :: '.' :: _ => some ((s.takeWhile (· != '/')).length + 4)
    | _ => none
  | _ => none

/-- The scan of `re.sub`; the number counts the characters of a match still to be passed over. -/
@[grind =]
def subParentGo : ℕ → Str → Str
  | _, [] => []
  | n + 1, _ :: s => subParentGo n s
  | 0, a :: s =>
    match matchParent (a :: s) with
    | some n => subParentGo (n - 1) s
    | none => a :: subParentGo 0 s

/-- `re.sub(r"/[^/]*/\.\.", "", s)` -/
def subParent (s : Str) : Str := subParentGo 0 s

/-- `re.sub(r"/$", "", s)`: `$` stands at the end and before a line feed that ends the string. -/
@[grind =]
def subTrailing : Str → Str
  | [] => []
  | ['/'] => []
  | ['/', '\n'] => ['\n']
  | a :: s => a :: subTrailing s

/-- `s.endswith("/")` -/
def endsWithSlash (s : Str) : Bool := s.getLast? == some '/'

def getChildProjectPath (parentPath childName : Str) : Str :=
  let result :=
    if endsWithSlash parentPath then parentPath ++ childName
    else parentPath ++ '/' :: childName
  let result := subParent result
  if result ≠ ['/', '/'] then subTrailing result else result

/-- `re.match(r"^/[^/]", s)` -/
def isSingleSlash : Str → Bool
  | '/' :: c :: _ => c != '/'
  | _ => false

/-- `s.replace("...", "*")` -/
def wildcard (s : Str) : Str := replace ellipsis ['*'] s

/-- `none` is the `ValueError` of unpacking `pattern.split(":")` into other than two pieces. -/
def resolveResourcePath (currentProjectName pattern : Str) : Option (Str × Str) :=
  let pattern := if ':' ∉ pattern then ':' :: pattern else pattern
  match split ':' pattern with
  | [projectPattern, itemPattern] =>
    let projectPattern := if projectPattern = [] then currentProjectName else projectPattern
    -- a single leading slash is the deprecated spelling of the root
    let projectPattern :=
      if isSingleSlash projectPattern then '/' :: projectPattern else projectPattern
    let projectPattern := wildcard projectPattern
    let projectPattern :=
      if ! startswith projectPattern ['/', '/'] then
        if endsWithSlash currentProjectName then currentProjectName ++ projectPattern
        else currentProjectName ++ '/' :: projectPattern
      else projectPattern
    some (subParent projectPattern, wildcard itemPattern)
  | _ => none

def normalizeResourcePath (currentProjectName pattern : Str) : Option Str :=
  (resolveResourcePath currentProjectName pattern).map fun r => r.1 ++ ':' :: r.2

/-! ## The pass on components -/

/-- What the pass makes of a list of components: a component goes together with a following one
that starts with `..`, of which only the rest stays. -/
@[grind =]
def collapse : List Str → Str
  | [] => []
  | [c] => '/' :: c
  | c :: d :: rest =>
    if dotdot.isPrefixOf d then d.drop 2 ++ collapse rest else '/' :: c ++ collapse (d :: rest)

theorem subParentGo_drop : ∀ (n : ℕ) (s : Str), subParentGo n s = subParentGo 0 (s.drop n)
  | 0, _ => rfl
  | n + 1, [] => rfl
  | n + 1, _ :: s => by rw [subParentGo, subParentGo_drop n s, List.drop_succ_cons]

theorem matchParent_of_ne {a : Char} (s : Str) (h : a ≠ '/') : matchParent (a :: s) = none := by
  unfold matchParent
  split
  · rename_i h'; simp_all
  · rfl

theorem subParentGo_append {c : Str} (t : Str) (h : '/' ∉ c) :
    subParentGo 0 (c ++ t) = c ++ subParentGo 0 t := by
  induction c with
  | nil => rfl
  | cons a c ih =>
    simp only [List.mem_cons, not_or] at h
    rw [List.cons_append, subParentGo, matchParent_of_ne _ (Ne.symm h.1), ih h.2]
    rfl

theorem takeWhile_component {c : Str} (t : Str) (h : '/' ∉ c) :
    (c ++ '/' :: t).takeWhile (· != '/') = c ∧ (c ++ '/' :: t).dropWhile (· != '/') = '/' :: t := by
  induction c with
  | nil => simp
  | cons a c ih =>
    simp only [List.mem_cons, not_or] at h
    simp [Ne.symm h.1, ih h.2]

theorem dropWhile_component {c : Str} (h : '/' ∉ c) : c.dropWhile (· != '/') = [] := by
  induction c with
  | nil => rfl
  | cons a c ih =>
    simp only [List.mem_cons, not_or] at h
    simp [Ne.symm h.1, ih h.2]

theorem matchParent_render_cons {c d : Str} (rest : List Str) (hc : '/' ∉ c) (hd : '/' ∉ d) :
    matchParent (render (c :: d :: rest)) =
      if dotdot.isPrefixOf d then some (c.length + 4) else none := by
  obtain ⟨htake, hdrop⟩ := takeWhile_component (d ++ render rest) hc
  simp only [render, List.cons_append, matchParent, hdrop, htake]
  -- the component `d` ends at a slash or at the end, so two dots at its front are its own
  have hrest : render rest = [] ∨ ∃ y, render rest = '/' :: y := by
    cases rest with
    | nil => exact Or.inl rfl
    | cons e es => exact Or.inr ⟨e ++ render es, rfl⟩
  split
  · rename_i hmatch
    rcases d with _ | ⟨d0, _ | ⟨d1, d⟩⟩
    · rcases hrest with h | ⟨y, h⟩ <;> simp [h] at hmatch
    · rcases hrest with h | ⟨y, h⟩ <;> simp [h] at hmatch
    · obtain ⟨rfl, rfl, -⟩ : d0 = '.' ∧ d1 = '.' ∧ d ++ render rest = _ := by simpa using hmatch
      simp [dotdot]
  · rename_i hmatch
    rw [if_neg]
    intro hpre
    obtain ⟨t, rfl⟩ := List.isPrefixOf_iff_prefix.1 hpre
    exact hmatch (t ++ render rest) (by simp [dotdot])

/-- The pass on a rendered list of components. -/
theorem subParent_render (cs : List Str) (h : ∀ c ∈ cs, '/' ∉ c) :
    subParent (render cs) = collapse cs := by
  unfold subParent
  induction cs using collapse.induct with
  | case1 => rfl
  | case2 c =>
    have hc : '/' ∉ c := h c (by simp)
    have hm : matchParent (render [c]) = none := by
      simp [render, matchParent, dropWhile_component hc]
    simp only [render, List.append_nil] at hm ⊢
    rw [subParentGo, hm]
    have := subParentGo_append [] hc
    simp only [List.append_nil, subParentGo] at this
    simp [this, collapse]
  | case3 c d rest hd ih =>
    have hc : '/' ∉ c := h c (by simp)
    have hds : '/' ∉ d := h d (by simp)
    have hm := matchParent_render_cons rest hc hds
    rw [if_pos hd] at hm
    have hlen := (List.isPrefixOf_iff_prefix.1 hd).length_le
    rw [collapse, if_pos hd, ← ih (fun e he => h e (by simp [he])),
      ← subParentGo_append (render rest) (fun hmem => hds (List.mem_of_mem_drop hmem))]
    simp only [render, List.cons_append] at hm ⊢
    rw [subParentGo, hm]
    simp only [Nat.add_one_sub_one]
    rw [subParentGo_drop]
    congr 1
    rw [show c.length + 3 = c.length + (1 + 2) by omega, ← List.drop_drop, List.drop_left' rfl,
      ← List.drop_drop]
    simp only [List.drop_succ_cons, List.drop_zero]
    rw [List.drop_append_of_le_length (by simpa [dotdot] using hlen)]
  | case4 c d rest hd ih =>
    have hc : '/' ∉ c := h c (by simp)
    have hm := matchParent_render_cons rest hc (h d (by simp))
    rw [if_neg hd] at hm
    rw [collapse, if_neg hd, ← ih (fun e he => h e (List.mem_cons_of_mem _ he)), render]
    rw [render] at hm
    simp only [List.cons_append] at hm ⊢
    rw [subParentGo, hm]
    simp only [List.cons.injEq, true_and]
    exact subParentGo_append _ hc

end PartCAD.Package
