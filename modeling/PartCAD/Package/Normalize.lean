import Mathlib.Data.List.Forall2
import PartCAD.Package.Paths

/-!
# Normalising `..` in package paths

The two functions that read a relative path, `getChildProjectPath` and `resolveResourcePath`,
against the stack machine that a relative path is meant for (`lexical`: push a name, pop on `..`).

* `Paired L` : one pass over `L` meets every `..` right after the name it takes away, and no other
  component that starts with `..`;
* `render_collapse` : on such a list the pass is the stack machine;
* `count_slash_collapse` : every `..` that is missed costs two slashes, so where no name starts
  with `..` the pass is the stack machine on these lists only.
-/

namespace PartCAD.Package

open PartCAD.Lib PartCAD.Lib.Text

/-! ## The stack machine -/

/-- One component, on the names pushed so far, the last one first. -/
def step (st : List Str) (c : Str) : Option (List Str) :=
  if c = dotdot then
    match st with
    | [] => none
    | _ :: st => some st
  else some (c :: st)

/-- The lexical normal form of `rel` below `parent`; `none` when it climbs above the root. -/
def lexical (parent rel : List Str) : Option (List Str) :=
  (rel.foldlM step parent.reverse).map List.reverse

theorem step_dotdot (c : Str) (st : List Str) : step (c :: st) dotdot = some st := by simp [step]

theorem step_name {c : Str} (st : List Str) (h : c ≠ dotdot) : step st c = some (c :: st) := by
  simp [step, h]

theorem foldlM_step_names {cs : List Str} (h : ∀ c ∈ cs, c ≠ dotdot) (st : List Str) :
    cs.foldlM step st = some (cs.reverse ++ st) := by
  induction cs generalizing st with
  | nil => rfl
  | cons c cs ih =>
    rw [List.foldlM_cons, step_name st (h c (by simp))]
    simpa using ih (fun d hd => h d (List.mem_cons_of_mem _ hd)) (c :: st)

/-- What lies below the part of the stack that a run touches stays as it is. -/
theorem foldlM_step_append {cs st st' : List Str} (base : List Str)
    (h : cs.foldlM step st = some st') : cs.foldlM step (st ++ base) = some (st' ++ base) := by
  induction cs generalizing st with
  | nil => simpa using h
  | cons c cs ih =>
    rw [List.foldlM_cons] at h ⊢
    by_cases hc : c = dotdot
    · subst hc
      cases st with
      | nil => simp [step] at h
      | cons a st =>
        rw [step_dotdot] at h
        rw [List.cons_append, step_dotdot]
        exact ih h
    · rw [step_name st hc] at h
      rw [step_name _ hc]
      exact ih h

/-- Running on the names from the root up is running on `rel` from `parent`. -/
theorem foldlM_step_root {P R nf : List Str} (hP : ∀ c ∈ P, c ≠ dotdot)
    (h : lexical P R = some nf) : ([] :: (P ++ R)).foldlM step [] = some (nf.reverse ++ [[]]) := by
  obtain ⟨st, hst, rfl⟩ := Option.map_eq_some_iff.1 h
  rw [List.foldlM_cons, step_name [] (by simp [dotdot]), Option.bind_eq_bind, Option.bind_some,
    List.foldlM_append, foldlM_step_names hP]
  simpa using foldlM_step_append [[]] hst

/-! ## Lists that one pass normalises -/

/-- Every `..` comes right after the component it takes away, no other component that starts with
`..` comes right after a component that is still there, and no `..` is left over. -/
def Paired : List Str → Prop
  | [] => True
  | [c] => c ≠ dotdot
  | c :: d :: rest =>
    c ≠ dotdot ∧ if dotdot.isPrefixOf d then d = dotdot ∧ Paired rest else Paired (d :: rest)

instance decidablePaired : ∀ L : List Str, Decidable (Paired L)
  | [] => isTrue trivial
  | [c] => by unfold Paired; infer_instance
  | c :: d :: rest => by
    unfold Paired
    haveI := decidablePaired rest
    haveI := decidablePaired (d :: rest)
    infer_instance

theorem paired_append_nil {L : List Str} (h : Paired L) : Paired (L ++ [[]]) := by
  induction L using Paired.induct with
  | case1 => simp [Paired, dotdot]
  | case2 c => simpa [Paired, dotdot] using h
  | case3 c d rest ih₁ ih₂ =>
    obtain ⟨hc, h⟩ := h
    refine ⟨hc, ?_⟩
    split at h
    · rename_i hd
      rw [if_pos hd]
      exact ⟨h.1, ih₁ h.2⟩
    · rename_i hd
      rw [if_neg hd]
      exact ih₂ h

/-- **One pass on a paired list is the stack machine.** -/
theorem render_collapse {L : List Str} (hL : Paired L) :
    ∀ {st st' : List Str}, L.foldlM step st = some st' →
      render st.reverse ++ collapse L = render st'.reverse := by
  induction L using collapse.induct with
  | case1 =>
    intro st st' h
    obtain rfl : st = st' := by simpa using h
    simp [collapse]
  | case2 c =>
    intro st st' h
    rw [List.foldlM_cons, step_name st hL] at h
    obtain rfl : c :: st = st' := by simpa using h
    simp [collapse, render_append, render]
  | case3 c d rest hd ih =>
    intro st st' h
    obtain ⟨hc, hrest⟩ := hL
    rw [if_pos hd] at hrest
    obtain ⟨rfl, hrest⟩ := hrest
    rw [List.foldlM_cons, step_name st hc, Option.bind_eq_bind, Option.bind_some, List.foldlM_cons,
      step_dotdot] at h
    rw [collapse, if_pos hd]
    simpa [dotdot] using ih hrest h
  | case4 c d rest hd ih =>
    intro st st' h
    obtain ⟨hc, hrest⟩ := hL
    rw [if_neg hd] at hrest
    rw [List.foldlM_cons, step_name st hc] at h
    rw [collapse, if_neg hd, ← ih hrest h]
    simp [render_append, render]

/-- A pass over names that do not start with `..` writes two slashes too many for every `..` it
misses. -/
theorem count_slash_collapse {L : List Str} (hs : ∀ c ∈ L, '/' ∉ c)
    (hL : ∀ c ∈ L, dotdot.isPrefixOf c = true → c = dotdot) :
    ∀ {st st' : List Str}, L.foldlM step st = some st' →
      ∃ k, (collapse L).count '/' + st.length = st'.length + 2 * k ∧ (k = 0 → Paired L) := by
  induction L using collapse.induct with
  | case1 =>
    intro st st' h
    obtain rfl : st = st' := by simpa using h
    exact ⟨0, by simp [collapse], fun _ => trivial⟩
  | case2 c =>
    intro st st' h
    have hcount : (collapse [c]).count '/' = 1 := by
      simp [collapse, List.count_eq_zero_of_not_mem (hs c (by simp))]
    by_cases hc : c = dotdot
    · subst hc
      cases st with
      | nil => simp [step] at h
      | cons a st =>
        obtain rfl : st = st' := by simpa [step] using h
        exact ⟨1, by simp only [hcount, List.length_cons]; omega, by simp⟩
    · obtain rfl : c :: st = st' := by simpa [step_name st hc] using h
      exact ⟨0, by simp only [hcount, List.length_cons]; omega, fun _ => hc⟩
  | case3 c d rest hd ih =>
    intro st st' h
    obtain rfl := hL d (by simp) hd
    have hcount : (collapse (c :: dotdot :: rest)).count '/' = (collapse rest).count '/' := by
      simp [collapse, dotdot]
    have ih := @ih (fun e he => hs e (by simp [he])) (fun e he => hL e (by simp [he]))
    by_cases hc : c = dotdot
    · subst hc
      rcases st with _ | ⟨a, _ | ⟨b, st⟩⟩
      · simp [step] at h
      · simp [step] at h
      · rw [List.foldlM_cons, step_dotdot, Option.bind_eq_bind, Option.bind_some, List.foldlM_cons,
          step_dotdot] at h
        obtain ⟨k, hk, -⟩ := ih h
        exact ⟨k + 1, by simp only [hcount, List.length_cons]; omega, by simp⟩
    · rw [List.foldlM_cons, step_name st hc, Option.bind_eq_bind, Option.bind_some,
        List.foldlM_cons, step_dotdot] at h
      obtain ⟨k, hk, hpair⟩ := ih h
      refine ⟨k, by rw [hcount, hk], fun h0 => ⟨hc, ?_⟩⟩
      rw [if_pos hd]
      exact ⟨rfl, hpair h0⟩
  | case4 c d rest hd ih =>
    intro st st' h
    have hcount : (collapse (c :: d :: rest)).count '/' = (collapse (d :: rest)).count '/' + 1 := by
      simp [collapse, hd, List.count_eq_zero_of_not_mem (hs c (by simp))]
    have ih := @ih (fun e he => hs e (by simp [he])) (fun e he => hL e (by simp [he]))
    by_cases hc : c = dotdot
    · subst hc
      cases st with
      | nil => simp [step] at h
      | cons a st =>
        rw [List.foldlM_cons, step_dotdot] at h
        obtain ⟨k, hk, -⟩ := ih h
        exact ⟨k + 1, by simp only [hcount, List.length_cons]; omega, by simp⟩
    · rw [List.foldlM_cons, step_name st hc] at h
      obtain ⟨k, hk, hpair⟩ := ih h
      refine ⟨k, by simp only [hcount, List.length_cons] at hk ⊢; omega, fun h0 => ⟨hc, ?_⟩⟩
      rw [if_neg hd]
      exact hpair h0

/-! ## Wildcards -/

theorem notMem_wildcard {c : Str} {x : Char} (hx : x ≠ '*') (h : x ∉ c) : x ∉ wildcard c := by
  intro hmem
  rcases mem_of_mem_replaceGo hmem with hmem | hmem
  · exact h hmem
  · exact hx (by simpa using hmem)

theorem wildcard_cons (a : Char) (s : Str) :
    wildcard (a :: s) =
      if ellipsis.isPrefixOf (a :: s) then '*' :: replaceGo ellipsis ['*'] 2 s
      else a :: wildcard s := rfl

theorem wildcard_ne_nil {c : Str} (h : c ≠ []) : wildcard c ≠ [] := by
  obtain ⟨a, s, rfl⟩ := List.exists_cons_of_ne_nil h
  rw [wildcard_cons]
  split <;> simp

theorem isPrefixOf_of_wildcard {c : Str} (h : dotdot.isPrefixOf (wildcard c) = true) :
    dotdot.isPrefixOf c = true := by
  rcases c with _ | ⟨a, _ | ⟨b, s⟩⟩
  · simp [wildcard, replace, replaceGo, dotdot] at h
  · rw [wildcard_cons] at h
    split at h <;> simp [wildcard, replace, replaceGo, dotdot] at h
  · rw [wildcard_cons] at h
    split at h
    · simp [dotdot] at h
    · rw [wildcard_cons] at h
      split at h
      · simp [dotdot] at h
      · simpa [dotdot] using h

theorem wildcard_eq_dotdot {c : Str} : wildcard c = dotdot ↔ c = dotdot := by
  constructor
  · intro h
    have hpre := isPrefixOf_of_wildcard (c := c) (by rw [h]; decide)
    obtain ⟨s, rfl⟩ := List.isPrefixOf_iff_prefix.1 hpre
    cases s with
    | nil => rfl
    | cons a s =>
      exfalso
      simp only [dotdot, List.cons_append, List.nil_append] at h
      rw [wildcard_cons] at h
      split at h
      · simp at h
      · rw [wildcard_cons] at h
        split at h
        · simp at h
        · exact wildcard_ne_nil (c := a :: s) (by simp) (by simpa using h)
  · rintro rfl
    rfl

theorem wildcard_join (R : List Str) : wildcard (join '/' R) = join '/' (R.map wildcard) := by
  induction R with
  | nil => rfl
  | cons c R ih =>
    by_cases hR : R = []
    · subst hR; rfl
    · rw [join_cons_of_ne_nil '/' c hR, List.map_cons, join_cons_of_ne_nil _ _ (by simpa using hR),
        ← ih]
      exact replace_append_cons (by decide) (by decide) c (join '/' R)

theorem wildcard_pathOf (P : List Str) : wildcard (pathOf P) = pathOf (P.map wildcard) := by
  have h := wildcard_join ([] :: [] :: P)
  cases P with
  | nil => rfl
  | cons c P => simpa [join, pathOf, wildcard, replace, replaceGo] using h

/-! ## Lists that a pass treats alike -/

/-- A pass sees of a component whether it is `..` and whether it starts with `..`. -/
def Alike (c c' : Str) : Prop :=
  (c' = dotdot ↔ c = dotdot) ∧ (dotdot.isPrefixOf c' = true → dotdot.isPrefixOf c = true)

theorem alike_self (c : Str) : Alike c c := ⟨Iff.rfl, id⟩

theorem alike_wildcard (c : Str) : Alike c (wildcard c) :=
  ⟨wildcard_eq_dotdot, isPrefixOf_of_wildcard⟩

theorem wildcard_alike {c : Str} (h : dotdot.isPrefixOf c = true → c = dotdot) :
    Alike (wildcard c) c :=
  ⟨wildcard_eq_dotdot.symm, fun hc => by rw [h hc]; decide⟩

theorem Paired.alike {L L' : List Str} (hL : Paired L) (h : List.Forall₂ Alike L L') :
    Paired L' := by
  induction L using Paired.induct generalizing L' with
  | case1 =>
    cases h
    trivial
  | case2 c =>
    rcases h with _ | ⟨hc, _ | _⟩
    exact fun h' => hL (hc.1.1 h')
  | case3 c d rest ih₁ ih₂ =>
    rcases h with _ | ⟨hc, _ | ⟨hd, hrest⟩⟩
    obtain ⟨hcne, hif⟩ := hL
    refine ⟨fun h' => hcne (hc.1.1 h'), ?_⟩
    by_cases hpre : dotdot.isPrefixOf d = true
    · rw [if_pos hpre] at hif
      obtain rfl := hd.1.2 hif.1
      rw [if_pos (by decide)]
      exact ⟨rfl, ih₁ hif.2 hrest⟩
    · rw [if_neg hpre] at hif
      rw [if_neg fun h' => hpre (hd.2 h')]
      exact ih₂ hif (.cons hd hrest)

theorem foldlM_step_alike {L L' : List Str} (h : List.Forall₂ Alike L L') :
    ∀ {st st₂ st' : List Str}, L.foldlM step st = some st' → st₂.length = st.length →
      ∃ st₂', L'.foldlM step st₂ = some st₂' ∧ st₂'.length = st'.length := by
  induction h with
  | nil =>
    intro st st₂ st' hst hlen
    obtain rfl : st = st' := by simpa using hst
    exact ⟨st₂, rfl, hlen⟩
  | @cons c c' L L' hc _ ih =>
    intro st st₂ st' hst hlen
    rw [List.foldlM_cons] at hst ⊢
    by_cases hdd : c = dotdot
    · obtain rfl := hc.1.2 hdd
      subst hdd
      cases st with
      | nil => simp [step] at hst
      | cons a st =>
        obtain ⟨b, st₂, rfl⟩ := List.exists_cons_of_length_eq_add_one hlen
        rw [step_dotdot] at hst ⊢
        exact ih hst (by simpa using hlen)
    · rw [step_name st hdd] at hst
      rw [step_name st₂ fun h' => hdd (hc.1.1 h')]
      exact ih hst (by simpa using hlen)

/-! ## What the functions return -/

theorem subTrailing_cons {a : Char} {s : Str} (h₁ : a :: s ≠ ['/'])
    (h₂ : a :: s ≠ ['/', '\n']) : subTrailing (a :: s) = a :: subTrailing s := by
  conv_lhs => unfold subTrailing
  split <;> simp_all

theorem subTrailing_of_notMem {s : Str} (h : '/' ∉ s) : subTrailing s = s := by
  induction s with
  | nil => rfl
  | cons a s ih =>
    simp only [List.mem_cons, not_or] at h
    have ha : a ≠ '/' := Ne.symm h.1
    rw [subTrailing_cons (by simp [ha]) (by simp [ha]), ih h.2]

theorem subTrailing_append_slash (s : Str) : subTrailing (s ++ ['/']) = s := by
  induction s with
  | nil => rfl
  | cons a s ih =>
    have hlast : (a :: (s ++ ['/'])).getLast? ≠ some '\n' := by
      rw [← List.cons_append, List.getLast?_concat]
      decide
    rw [List.cons_append, subTrailing_cons (by simp) (fun h => hlast (by rw [h]; rfl)), ih]

/-- The last component of a path loses its slash when it is a line feed, and only then. -/
theorem subTrailing_append_component (s : Str) {c : Str} (hne : c ≠ []) (hc : '/' ∉ c) :
    subTrailing (s ++ '/' :: c) = if c = ['\n'] then s ++ ['\n'] else s ++ '/' :: c := by
  induction s with
  | nil =>
    by_cases h : c = ['\n']
    · subst h
      rfl
    · rw [if_neg h, List.nil_append, subTrailing_cons (by simpa using hne) (by simpa using h),
        subTrailing_of_notMem hc]
  | cons a s ih =>
    have hlen : 2 < (a :: (s ++ '/' :: c)).length := by
      have := List.length_pos_iff.2 hne
      simp only [List.length_cons, List.length_append]
      omega
    rw [List.cons_append, subTrailing_cons (fun h => by simp [h] at hlen)
      (fun h => by simp [h] at hlen), ih]
    split <;> rfl

section

variable {P R : List Str}

theorem endsWithSlash_pathOf (hP : ∀ c ∈ P, IsName c) :
    endsWithSlash (pathOf P) = true ↔ P = [] := by
  constructor
  · intro h
    by_contra hne
    exact getLast?_pathOf (fun c hc => (hP c hc).component) hne (by simpa [endsWithSlash] using h)
  · rintro rfl
    rfl

/-- A parent path and a relative path put together. -/
theorem parent_append_join (hP : ∀ c ∈ P, IsName c) (hR : R ≠ []) :
    (if endsWithSlash (pathOf P) then pathOf P ++ join '/' R else pathOf P ++ '/' :: join '/' R) =
      render ([] :: (P ++ R)) := by
  by_cases hPe : P = []
  · subst hPe
    rw [if_pos ((endsWithSlash_pathOf hP).2 rfl), List.nil_append, render, render_eq_join hR]
    rfl
  · rw [if_neg fun h => hPe ((endsWithSlash_pathOf hP).1 h), pathOf_eq_render, if_neg hPe,
      ← render_eq_join hR, ← render_append]
    rfl

theorem notMem_slash_append (hP : ∀ c ∈ P, IsName c) (hR : ∀ r ∈ R, '/' ∉ r) :
    ∀ c ∈ [] :: (P ++ R), '/' ∉ c := by
  intro c hc
  rcases List.mem_cons.1 hc with rfl | hc
  · simp
  · rcases List.mem_append.1 hc with hc | hc
    · exact (hP c hc).2.1
    · exact hR c hc

theorem getChildProjectPath_eq (hP : ∀ c ∈ P, IsName c) (hR : ∀ r ∈ R, '/' ∉ r) :
    getChildProjectPath (pathOf P) (join '/' R) =
      let result := collapse ([] :: (P ++ if R = [] then [[]] else R))
      if result ≠ ['/', '/'] then subTrailing result else result := by
  have hjoin : join '/' R = join '/' (if R = [] then [[]] else R) := by
    split
    · rename_i h; subst h; rfl
    · rfl
  have hR' : ∀ r ∈ (if R = [] then [[]] else R), '/' ∉ r := by
    split
    · simp
    · exact hR
  have hne : (if R = [] then [[]] else R) ≠ [] := by
    split
    · simp
    · assumption
  rw [hjoin]
  unfold getChildProjectPath
  simp only [parent_append_join hP hne, subParent_render _ (notMem_slash_append hP hR')]

theorem isSingleSlash_join (hR : ∀ r ∈ R, IsComponent r) :
    isSingleSlash (join '/' R) = false := by
  unfold isSingleSlash
  split
  · rename_i h
    exact absurd h (join_ne_slash hR _)
  · rfl

theorem startswith_join (hR : ∀ r ∈ R, IsComponent r) :
    startswith (join '/' R) ['/', '/'] = false := by
  rw [Bool.eq_false_iff, ne_eq, startswith_iff]
  rintro ⟨t, ht⟩
  exact join_ne_slash hR _ ht.symm

/-- The components that a reference to a package below `P` is normalised from. -/
def siteOf (P R : List Str) : List Str :=
  if R = [] then (if P = [] then [[]] else P.map wildcard) else P ++ R.map wildcard

theorem split_reference {rel : Str} (h : ':' ∉ rel) :
    split ':' (rel ++ [':', 'x']) = [rel, ['x']] := by
  rw [split_append_cons, split_of_notMem h]
  rfl

theorem resolveResourcePath_eq (hP : ∀ c ∈ P, IsName c) (hR : ∀ r ∈ R, IsComponent r)
    (hcolon : ∀ r ∈ R, ':' ∉ r) :
    resolveResourcePath (pathOf P) (join '/' R ++ [':', 'x']) =
      some (collapse ([] :: siteOf P R), ['x']) := by
  have hrel : ':' ∉ join '/' R := by
    intro h
    rcases mem_join h with h | ⟨r, hr, h⟩
    · exact absurd h (by decide)
    · exact hcolon r hr h
  have hwild : ∀ r ∈ R.map wildcard, IsComponent r := by
    intro r hr
    obtain ⟨q, hq, rfl⟩ := List.mem_map.1 hr
    exact ⟨wildcard_ne_nil (hR q hq).1, notMem_wildcard (by decide) (hR q hq).2⟩
  unfold resolveResourcePath
  simp only [List.mem_append, List.mem_cons, true_or, or_true, not_true_eq_false, if_false,
    split_reference hrel]
  congr 2
  by_cases hRe : R = []
  · -- the current package itself: the wildcards of its own name are rewritten
    subst hRe
    have hstart : startswith (pathOf (P.map wildcard)) ['/', '/'] = true :=
      startswith_append ['/', '/'] _
    have hsite : ∀ c ∈ [] :: siteOf P [], '/' ∉ c := by
      intro c hc
      simp only [siteOf, if_true] at hc
      split at hc
      · simp at hc; simp [hc]
      · rcases List.mem_cons.1 hc with rfl | hc
        · simp
        · obtain ⟨q, hq, rfl⟩ := List.mem_map.1 hc
          exact notMem_wildcard (by decide) (hP q hq).2.1
    rw [if_pos (by rfl : join '/' [] = []), show isSingleSlash (pathOf P) = false from rfl,
      if_neg Bool.false_ne_true, wildcard_pathOf, hstart, if_neg (by decide), pathOf_eq_render,
      ← subParent_render _ hsite]
    by_cases hPe : P = []
    · subst hPe; rfl
    · simp [siteOf, hPe]
  · have hjoin : join '/' R ≠ [] := fun h => hRe (join_eq_nil (fun r hr => (hR r hr).1) h)
    rw [if_neg hjoin, isSingleSlash_join hR, if_neg Bool.false_ne_true, wildcard_join,
      startswith_join hwild, if_pos (by decide),
      parent_append_join hP (by simpa using hRe), siteOf, if_neg hRe]
    exact subParent_render _ (notMem_slash_append hP fun r hr => (hwild r hr).2)

/-- A second separator in the reference is one piece too many. -/
theorem resolveResourcePath_of_colon (current : Str) {rel : Str} (h : ':' ∈ rel) :
    resolveResourcePath current (rel ++ [':', 'x']) = none := by
  have hlen : 3 ≤ (split ':' (rel ++ [':', 'x'])).length := by
    rw [split_append_cons, partition_eq h, split_append_cons]
    have h₁ := List.length_pos_iff.2 (split_ne_nil ':' (partition ':' rel).1)
    have h₂ := List.length_pos_iff.2 (split_ne_nil ':' (partition ':' rel).2)
    have h₃ := List.length_pos_iff.2 (split_ne_nil ':' ['x'])
    simp only [List.length_append]
    omega
  have hmem : ':' ∈ rel ++ [':', 'x'] := by simp
  simp only [resolveResourcePath, hmem, not_true_eq_false, if_false]
  rcases hps : split ':' (rel ++ [':', 'x']) with _ | ⟨a, _ | ⟨b, _ | ⟨c, ps⟩⟩⟩
  · simp [hps] at hlen
  · simp [hps] at hlen
  · simp [hps] at hlen
  · rfl

end

/-! ## When the functions give the normal form -/

/-- The two functions read `R` below `P` as the package that the names `nf` lead to. -/
def ReadAs (P R nf : List Str) : Prop :=
  getChildProjectPath (pathOf P) (join '/' R) = pathOf nf ∧
    resolveResourcePath (pathOf P) (join '/' R ++ [':', 'x']) = some (pathOf nf, ['x'])

/-- What one pass needs to normalise `R` below `P`. -/
structure OnePass (P R : List Str) : Prop where
  /-- every `..` comes right after the name it takes away -/
  paired : Paired ([] :: (P ++ R))
  /-- nothing leads back to the root -/
  root : lexical P R = some [] → P ++ R = []
  /-- the normal form does not end in a line feed that is a name -/
  feed : R ≠ [] → (lexical P R).bind List.getLast? ≠ some ['\n']
  /-- the relative path holds no separator of package and item -/
  colon : ∀ r ∈ R, ':' ∉ r
  /-- reading `...` as a wildcard leaves the names as they are -/
  wild : lexical P (R.map wildcard) = lexical P R ∧ (R = [] → P.map wildcard = P)

section

variable {P R nf : List Str}

theorem lexical_nil (P : List Str) : lexical P [] = some P := by simp [lexical]

theorem mem_of_mem_foldlM_step {cs st st' : List Str} (h : cs.foldlM step st = some st')
    {c : Str} (hc : c ∈ st') : c ∈ st ∨ c ∈ cs ∧ c ≠ dotdot := by
  induction cs generalizing st with
  | nil =>
    obtain rfl : st = st' := by simpa using h
    exact Or.inl hc
  | cons d cs ih =>
    rw [List.foldlM_cons] at h
    by_cases hd : d = dotdot
    · subst hd
      cases st with
      | nil => simp [step] at h
      | cons a st =>
        rw [step_dotdot] at h
        rcases ih h with hmem | ⟨hmem, hne⟩
        · exact Or.inl (List.mem_cons_of_mem _ hmem)
        · exact Or.inr ⟨List.mem_cons_of_mem _ hmem, hne⟩
    · rw [step_name st hd] at h
      rcases ih h with hmem | ⟨hmem, hne⟩
      · rcases List.mem_cons.1 hmem with rfl | hmem
        · exact Or.inr ⟨by simp, hd⟩
        · exact Or.inl hmem
      · exact Or.inr ⟨List.mem_cons_of_mem _ hmem, hne⟩

/-- The normal form is made of names. -/
theorem isName_of_lexical (hP : ∀ c ∈ P, IsName c) (hR : ∀ r ∈ R, r = dotdot ∨ IsName r)
    (hnf : lexical P R = some nf) : ∀ c ∈ nf, IsName c := by
  intro c hc
  obtain ⟨st, hst, rfl⟩ := Option.map_eq_some_iff.1 hnf
  rcases mem_of_mem_foldlM_step hst (List.mem_reverse.1 hc) with h | ⟨h, hne⟩
  · exact hP c (List.mem_reverse.1 h)
  · exact (hR c h).resolve_left hne

theorem paired_of_not_prefix {L : List Str} (h : ∀ c ∈ L, dotdot.isPrefixOf c = false) :
    Paired L := by
  have hne : ∀ c ∈ L, c ≠ dotdot := by
    rintro c hc rfl
    exact absurd (h dotdot hc) (by decide)
  induction L using Paired.induct with
  | case1 => trivial
  | case2 c => exact hne c (by simp)
  | case3 c d rest _ ih =>
    refine ⟨hne c (by simp), ?_⟩
    rw [if_neg (by simp [h d (by simp)])]
    exact ih (fun e he => h e (List.mem_cons_of_mem _ he))
      (fun e he => hne e (List.mem_cons_of_mem _ he))

theorem forall₂_alike_map (L : List Str) : List.Forall₂ Alike L (L.map wildcard) :=
  List.forall₂_map_right_iff.2 (List.forall₂_same.2 fun c _ => alike_wildcard c)

theorem forall₂_alike_wildcard (P R : List Str) :
    List.Forall₂ Alike ([] :: (P ++ R)) ([] :: (P ++ R.map wildcard)) := by
  refine .cons (alike_self _) (List.rel_append ?_ ?_)
  · exact List.forall₂_same.2 fun c _ => alike_self c
  · exact forall₂_alike_map R

theorem isComponent_of_relative (hR : ∀ r ∈ R, r = dotdot ∨ IsName r) : ∀ r ∈ R, IsComponent r := by
  intro r hr
  rcases hR r hr with rfl | h
  · decide
  · exact ⟨h.1, h.2.1⟩

/-- The pass on a paired list gives the path of the normal form, with the trailing slash of the
root kept off. -/
theorem collapse_of_paired (hP : ∀ c ∈ P, IsName c) (hnf : lexical P R = some nf)
    (hpair : Paired ([] :: (P ++ R))) : collapse ([] :: (P ++ R)) = render ([] :: nf) := by
  have h := render_collapse hpair (foldlM_step_root (fun c hc => (hP c hc).2.2) hnf)
  simpa [render] using h

/-- The last step of `getChildProjectPath` on the path of a normal form. -/
theorem subTrailing_pathOf (h : ∀ c ∈ nf, IsName c) (hne : nf ≠ []) :
    subTrailing (pathOf nf) = pathOf nf ↔ nf.getLast? ≠ some ['\n'] := by
  obtain ⟨Q, c, rfl⟩ := (List.eq_nil_or_concat' nf).resolve_left hne
  obtain ⟨hcne, hcs, -⟩ := h c (by simp)
  rw [pathOf_concat, subTrailing_append_component _ hcne hcs, List.getLast?_concat]
  by_cases hc : c = ['\n']
  · subst hc
    simp
  · simp [hc]

theorem pathOf_ne_root (h : ∀ c ∈ nf, IsName c) (hne : nf ≠ []) : pathOf nf ≠ ['/', '/'] := by
  intro hroot
  obtain ⟨a, as, rfl⟩ := List.exists_cons_of_ne_nil hne
  have hane := (h a (by simp)).1
  cases as with
  | nil => exact hane (by simpa [pathOf, join] using hroot)
  | cons b bs => simp [pathOf, join] at hroot

/-- Where one pass is enough, the functions agree with the stack machine. -/
theorem readAs_of_onePass (hP : ∀ c ∈ P, IsName c) (hR : ∀ r ∈ R, r = dotdot ∨ IsName r)
    (hnf : lexical P R = some nf) (h : OnePass P R) : ReadAs P R nf := by
  have hRs := isComponent_of_relative hR
  have hnames := isName_of_lexical hP hR hnf
  have hchild := getChildProjectPath_eq hP fun r hr => (hRs r hr).2
  have hresolve := resolveResourcePath_eq hP hRs h.colon
  unfold ReadAs
  rw [hchild, hresolve]
  by_cases hRe : R = []
  · subst hRe
    obtain rfl : P = nf := by simpa [lexical_nil] using hnf
    have hpair : Paired ([] :: P) := by simpa using h.paired
    have hcollapse : collapse ([] :: P) = render ([] :: P) := by
      simpa using collapse_of_paired hP hnf h.paired
    have hcollapse' : collapse ([] :: (P ++ [[]])) = render ([] :: (P ++ [[]])) := by
      have hrun : ([] :: (P ++ [[]])).foldlM step [] = some ((P ++ [[]]).reverse ++ [[]]) :=
        foldlM_step_root (fun c hc => (hP c hc).2.2) (by simp [lexical, step, dotdot])
      simpa [render] using render_collapse (paired_append_nil hpair) hrun
    simp only [if_true, siteOf, h.wild.2 rfl, hcollapse']
    by_cases hPe : P = []
    · subst hPe
      decide
    · have hslash : render ([] :: (P ++ [[]])) = pathOf P ++ ['/'] := by
        rw [← List.cons_append, render_append, render_root_cons hPe]
        rfl
      have hroot : pathOf P ++ ['/'] ≠ ['/', '/'] := by simp [pathOf]
      rw [hslash, if_pos hroot, subTrailing_append_slash, if_neg hPe, hcollapse,
        render_root_cons hPe]
      exact ⟨rfl, rfl⟩
  · have hne : nf ≠ [] := by
      rintro rfl
      exact hRe (List.append_eq_nil_iff.1 (h.root hnf)).2
    have hpair := h.paired.alike (forall₂_alike_wildcard P R)
    rw [if_neg hRe, siteOf, if_neg hRe, collapse_of_paired hP hnf h.paired,
      collapse_of_paired hP (h.wild.1.trans hnf) hpair, render_root_cons hne]
    simp only [ne_eq, pathOf_ne_root hnames hne, not_false_eq_true, if_true, and_true]
    exact (subTrailing_pathOf hnames hne).2 (by simpa [hnf] using h.feed hRe)

/-- The number of slashes tells a list that the pass normalises from one where it does not. -/
theorem paired_of_collapse (hP : ∀ c ∈ P, IsName c) (hR : ∀ r ∈ R, '/' ∉ r)
    (hdots : ∀ c ∈ P ++ R, dotdot.isPrefixOf c = true → c = dotdot)
    {nf' : List Str} (hnf : lexical P R = some nf') (hlen : nf'.length = nf.length)
    (hnames : ∀ c ∈ nf, IsName c) (h : collapse ([] :: (P ++ R)) = pathOf nf) :
    nf ≠ [] ∧ Paired ([] :: (P ++ R)) := by
  have hrun := foldlM_step_root (fun c hc => (hP c hc).2.2) hnf
  have hdots' : ∀ c ∈ [] :: (P ++ R), dotdot.isPrefixOf c = true → c = dotdot := by
    intro c hc
    rcases List.mem_cons.1 hc with rfl | hc
    · intro h; simp [dotdot] at h
    · exact hdots c hc
  obtain ⟨k, hk, hpair⟩ := count_slash_collapse (notMem_slash_append hP hR) hdots' hrun
  have hcount : (pathOf nf).count '/' = if nf = [] then 2 else nf.length + 1 := by
    have hrender : ∀ cs : List Str, (∀ c ∈ cs, '/' ∉ c) → (render cs).count '/' = cs.length := by
      intro cs hcs
      induction cs with
      | nil => rfl
      | cons c cs ih =>
        have ih := ih fun d hd => hcs d (List.mem_cons_of_mem _ hd)
        simp [render, ih, List.count_eq_zero_of_not_mem (hcs c (by simp))]
    split
    · rename_i hne; subst hne; rfl
    · rename_i hne
      rw [← render_root_cons hne, hrender]
      · rfl
      · intro c hc
        rcases List.mem_cons.1 hc with rfl | hc
        · simp
        · exact (hnames c hc).2.1
  rw [h, hcount] at hk
  simp only [List.length_nil, List.length_append, List.length_reverse, List.length_cons] at hk
  split at hk
  · rename_i hne
    rw [hne] at hlen
    simp only [List.length_nil] at hlen
    omega
  · rename_i hne
    exact ⟨hne, hpair (by omega)⟩

theorem length_lexical_wildcard (hnf : lexical P R = some nf) :
    ∃ nf', lexical P (R.map wildcard) = some nf' ∧ nf'.length = nf.length := by
  obtain ⟨st, hst, rfl⟩ := Option.map_eq_some_iff.1 hnf
  obtain ⟨st', hst', hlen⟩ := foldlM_step_alike (forall₂_alike_map R) hst rfl
  exact ⟨st'.reverse, by simp [lexical, hst'], by simpa using hlen⟩

theorem isComponent_wildcard {c : Str} (h : IsComponent c) : IsComponent (wildcard c) :=
  ⟨wildcard_ne_nil h.1, notMem_wildcard (by decide) h.2⟩

theorem forall_mem_cons_nil {p : Str → Prop} (hnil : p []) (h : ∀ c ∈ P, p c) :
    ∀ c ∈ [] :: P, p c := by
  intro c hc
  rcases List.mem_cons.1 hc with rfl | hc
  · exact hnil
  · exact h c hc

/-- A reference to the package itself gives its path back only if no wildcard is read in it. -/
theorem map_wildcard_of_site (hP : ∀ c ∈ P, IsName c)
    (hdots : ∀ c ∈ P, dotdot.isPrefixOf c = true → c = dotdot)
    (hsite : collapse ([] :: siteOf P []) = pathOf P) :
    Paired ([] :: P) ∧ P.map wildcard = P := by
  have hpair : Paired ([] :: P) := by
    refine paired_of_not_prefix (forall_mem_cons_nil rfl fun c hc => ?_)
    rw [Bool.eq_false_iff]
    exact fun hpre => (hP c hc).2.2 (hdots c hc hpre)
  refine ⟨hpair, ?_⟩
  by_cases hPe : P = []
  · simp [hPe]
  · have hwild : ∀ c ∈ [] :: P.map wildcard, c ≠ dotdot := by
      refine forall_mem_cons_nil (by decide) fun c hc hd => ?_
      obtain ⟨q, hq, rfl⟩ := List.mem_map.1 hc
      exact (hP q hq).2.2 (wildcard_eq_dotdot.1 hd)
    have hpair' := hpair.alike (.cons (alike_self _) (forall₂_alike_map P))
    have hrender := render_collapse hpair' (foldlM_step_names hwild [])
    simp only [siteOf, if_true, if_neg hPe] at hsite
    rw [hsite, ← render_root_cons hPe] at hrender
    simp only [List.reverse_nil, render, List.nil_append, List.append_nil,
      List.reverse_reverse, List.cons_append, List.cons.injEq, true_and] at hrender
    have hslash : ∀ c ∈ P.map wildcard, '/' ∉ c := by
      intro c hc
      obtain ⟨q, hq, rfl⟩ := List.mem_map.1 hc
      exact (isComponent_wildcard (hP q hq).component).2
    exact (render_injective (fun c hc => (hP c hc).2.1) hslash hrender).symm

/-- A relative path that is read as its normal form is paired, and so is what is left of it when
its wildcards are read. -/
theorem paired_of_site (hP : ∀ c ∈ P, IsName c) (hR : ∀ r ∈ R, r = dotdot ∨ IsName r)
    (hdots : ∀ c ∈ P ++ R, dotdot.isPrefixOf c = true → c = dotdot)
    (hnf : lexical P R = some nf) (hsite : collapse ([] :: (P ++ R.map wildcard)) = pathOf nf) :
    nf ≠ [] ∧ Paired ([] :: (P ++ R)) ∧ lexical P (R.map wildcard) = some nf := by
  have hnames := isName_of_lexical hP hR hnf
  obtain ⟨nf', hnf', hlen⟩ := length_lexical_wildcard hnf
  have hRw : ∀ r ∈ R.map wildcard, r = dotdot ∨ IsName r := by
    intro r hr
    obtain ⟨q, hq, rfl⟩ := List.mem_map.1 hr
    rcases hR q hq with rfl | hq
    · exact Or.inl rfl
    · exact Or.inr ⟨wildcard_ne_nil hq.1, notMem_wildcard (by decide) hq.2.1,
        fun hd => hq.2.2 (wildcard_eq_dotdot.1 hd)⟩
  have hdots' : ∀ c ∈ P ++ R.map wildcard, dotdot.isPrefixOf c = true → c = dotdot := by
    intro c hc hpre
    rcases List.mem_append.1 hc with hc | hc
    · exact hdots c (List.mem_append_left _ hc) hpre
    · obtain ⟨q, hq, rfl⟩ := List.mem_map.1 hc
      rw [hdots q (List.mem_append_right _ hq) (isPrefixOf_of_wildcard hpre)]
      rfl
  obtain ⟨hne, hpair'⟩ := paired_of_collapse hP (fun r hr => (isComponent_of_relative hRw r hr).2)
    hdots' hnf' hlen hnames hsite
  refine ⟨hne, ?_, ?_⟩
  · -- what the pass sees of the names is the same before and after the wildcards are read
    refine hpair'.alike (.cons (alike_self _) (List.rel_append ?_ ?_))
    · exact List.forall₂_same.2 fun c _ => alike_self c
    · exact List.forall₂_map_left_iff.2 (List.forall₂_same.2 fun c hc =>
        wildcard_alike (hdots c (List.mem_append_right _ hc)))
  · have hrender := collapse_of_paired hP hnf' hpair'
    rw [hsite, ← render_root_cons hne] at hrender
    have hslash : ∀ cs : List Str, (∀ c ∈ cs, IsName c) → ∀ c ∈ [] :: cs, '/' ∉ c :=
      fun cs hcs => forall_mem_cons_nil (by simp) fun c hc => (hcs c hc).2.1
    have heq := render_injective (hslash nf hnames)
      (hslash nf' (isName_of_lexical hP hRw hnf')) hrender
    rw [hnf', (List.cons.inj heq).2]

/-- Where no name starts with `..`, one pass is enough for everything the functions read right. -/
theorem onePass_of_readAs (hP : ∀ c ∈ P, IsName c) (hR : ∀ r ∈ R, r = dotdot ∨ IsName r)
    (hdots : ∀ c ∈ P ++ R, dotdot.isPrefixOf c = true → c = dotdot)
    (hnf : lexical P R = some nf) (h : ReadAs P R nf) : OnePass P R := by
  obtain ⟨hchild, hresolve⟩ := h
  have hRs := isComponent_of_relative hR
  have hcolon : ∀ r ∈ R, ':' ∉ r := by
    intro r hr hmem
    rw [resolveResourcePath_of_colon _ (mem_join_of_mem hr hmem)] at hresolve
    exact absurd hresolve (by simp)
  rw [getChildProjectPath_eq hP fun r hr => (hRs r hr).2] at hchild
  rw [resolveResourcePath_eq hP hRs hcolon, Option.some.injEq, Prod.mk.injEq] at hresolve
  have hsite := hresolve.1
  by_cases hRe : R = []
  · subst hRe
    obtain rfl : P = nf := by simpa [lexical_nil] using hnf
    obtain ⟨hpair, hwild⟩ := map_wildcard_of_site hP (by simpa using hdots) hsite
    exact ⟨by simpa using hpair, by simp [lexical_nil], by simp, by simp, by simp, fun _ => hwild⟩
  · rw [siteOf, if_neg hRe] at hsite
    obtain ⟨hne, hpair, hwild⟩ := paired_of_site hP hR hdots hnf hsite
    have hnames := isName_of_lexical hP hR hnf
    refine ⟨hpair, fun h => ?_, fun _ => ?_, hcolon, hwild.trans hnf.symm, fun h => absurd h hRe⟩
    · rw [hnf, Option.some.injEq] at h
      exact absurd h hne
    · rw [if_neg hRe, collapse_of_paired hP hnf hpair, render_root_cons hne] at hchild
      simp only [ne_eq, pathOf_ne_root hnames hne, not_false_eq_true, if_true] at hchild
      rw [hnf]
      exact (subTrailing_pathOf hnames hne).1 hchild

/-- **A relative path is read as its lexical normal form where one pass is enough**, and only
there when no name starts with `..`. -/
theorem readAs_onePass (hP : ∀ c ∈ P, IsName c) (hR : ∀ r ∈ R, r = dotdot ∨ IsName r)
    (hnf : lexical P R = some nf) :
    (OnePass P R → ReadAs P R nf) ∧
      ((∀ c ∈ P ++ R, dotdot.isPrefixOf c = true → c = dotdot) →
        (ReadAs P R nf ↔ OnePass P R)) :=
  ⟨readAs_of_onePass hP hR hnf, fun hdots =>
    ⟨onePass_of_readAs hP hR hdots hnf, readAs_of_onePass hP hR hnf⟩⟩

/-- From `//a/b`, `../c` is `//a/c`. -/
theorem readAs_sibling : ReadAs [['a'], ['b']] [dotdot, ['c']] [['a'], ['c']] :=
  (readAs_onePass (by decide) (by decide) (by decide)).1
    ⟨by decide, by decide, by decide, by decide, by decide⟩

/-- From `//a/b`, `../..` is read as `//a/..`. -/
theorem readAs_grandparent :
    ¬ ∀ P R nf : List Str, (∀ c ∈ P, IsName c) → (∀ r ∈ R, r = dotdot ∨ IsName r) →
      lexical P R = some nf → ReadAs P R nf := by
  intro h
  have h := h [['a'], ['b']] [dotdot, dotdot] [] (by decide) (by decide) (by decide)
  exact absurd h.1 (by decide)

end

end PartCAD.Package
