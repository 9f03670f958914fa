import Mathlib.Data.List.Dedup
import Mathlib.Data.List.Nodup
import Mathlib.Data.List.Pairwise
import PartCAD.Sandbox.HostPaths

/-!
# What is mounted

* `Mounted` : what is asked of mounts;
* `contains_iff_inside` : on Windows a directory contains what lies in it;
* `mem_kept_iff` : on POSIX the outer paths are kept, in whatever order they come;
* `mounted_iff` : **where what is mounted is as it is asked**.
-/

namespace PartCAD.Sandbox.HostPaths

open PartCAD.Lib PartCAD.Lib.Text

section

variable (lower : Str → Str) (windows : Bool)

/-! ## What is asked -/

/-- The tidied paths, in an order that their set may have. -/
structure Order (paths tidied : List Str) : Prop where
  nodup : tidied.Nodup
  mem : ∀ t, t ∈ tidied ↔ t ∈ paths.map tidy

/-- Neither lies in the other one. -/
def Apart (a b : Str) : Prop := ¬ Inside lower windows a b ∧ ¬ Inside lower windows b a

instance : Std.Symm (Apart lower windows) := ⟨fun _ _ h => ⟨h.2, h.1⟩⟩

/-- **What is asked of mounts**: there are some, none is or lies in another one, and each path is or lies
in exactly one of them. -/
def Mounted (paths : List Str) : Prop :=
  ∀ tidied, Order paths tidied → ∃ ms, mounts lower windows tidied = .ok ms ∧
    (ms.map Prod.fst).Pairwise (Apart lower windows) ∧
    ∀ path ∈ paths, ∃ k, k ∈ ms.map Prod.fst ∧ Inside lower windows k path ∧
      ∀ k' ∈ ms.map Prod.fst, Inside lower windows k' path → k' = k

end

/-! ## What is kept -/

section

variable {lower : Str → Str} {windows : Bool}

theorem mem_sortBy {α κ : Type} [LinearOrder κ] {f : α → κ} {l : List α} {a : α} : a ∈ sortBy f l ↔ a ∈ l :=
  (sortBy_perm f l).mem_iff

theorem contains_refl (p : Str) : Contains lower windows p p := Or.inl rfl

theorem Inside.trans {p q r : Str} (h : Inside lower windows p q) (h' : Inside lower windows q r) :
    Inside lower windows p r := List.IsPrefix.trans h h'

/-- Of two directories with one path in both, one lies in the other. -/
theorem Inside.chain {p q r : Str} (hp : Inside lower windows p r) (hq : Inside lower windows q r) :
    Inside lower windows p q ∨ Inside lower windows q p := List.prefix_or_prefix_of_prefix hp hq

theorem kept_subset {tidied : List Str} : kept lower windows tidied ⊆ tidied := fun _ h =>
  mem_sortBy.mp ((Outermost.keep_sublist _ _).subset h)

theorem exists_mem_kept (lower : Str → Str) (windows : Bool) {tidied : List Str} {t : Str} (h : t ∈ tidied) :
    ∃ k ∈ kept lower windows tidied, Contains lower windows k t :=
  Outermost.exists_mem_keep _ contains_refl (mem_sortBy.mpr h)

theorem contains_trans {p q r : Str} (h : Contains lower windows p q) (h' : Contains lower windows q r) :
    Contains lower windows p r := by
  have hnext : ∀ c : Char, comparable lower windows p ++ [c] <+: comparable lower windows q →
      comparable lower windows p ++ [c] <+: comparable lower windows r := by
    intro c hc
    rcases h' with heq | hslash | ⟨-, hback⟩
    · rwa [heq] at hc
    · exact hc.trans ((List.prefix_append _ _).trans hslash)
    · exact hc.trans ((List.prefix_append _ _).trans hback)
  rcases h with heq | hslash | ⟨hwindows, hback⟩
  · rw [Contains, heq]
    exact h'
  · exact Or.inr (Or.inl (hnext _ hslash))
  · exact Or.inr (Or.inr ⟨hwindows, hnext _ hback⟩)

/-- No shorter path contains one that is kept. -/
theorem not_contains_of_mem_kept {tidied : List Str} (hnodup : tidied.Nodup) {k t : Str}
    (hk : k ∈ kept lower windows tidied) (ht : t ∈ tidied) (hlt : t.length < k.length) :
    ¬ Contains lower windows t k := by
  obtain ⟨front, back, hsorted⟩ := List.append_of_mem (mem_sortBy.mpr (kept_subset hk) :
    k ∈ sortBy List.length tidied)
  have hsorted_nodup : (sortBy List.length tidied).Nodup := (sortBy_perm _ _).nodup_iff.mpr hnodup
  have hpairwise := pairwise_sortBy List.length tidied
  have hmem : t ∈ sortBy List.length tidied := mem_sortBy.mpr ht
  rw [kept, hsorted] at hk
  rw [hsorted] at hsorted_nodup hpairwise hmem
  have hnot : k ∉ front := fun h => (List.nodup_append.mp hsorted_nodup).2.2 k h k List.mem_cons_self rfl
  refine Outermost.not_contains_of_mem_keep _ contains_refl (fun _ _ _ => contains_trans) hk hnot ?_
  rcases List.mem_append.mp hmem with h | h
  · exact h
  · rcases List.mem_cons.mp h with rfl | h
    · exact absurd hlt (Nat.lt_irrefl _)
    · have hle := (List.pairwise_cons.mp (List.pairwise_append.mp hpairwise).2.1).1 t h
      exact absurd hlt (Nat.not_lt.mpr hle)

/-- The paths that are mounted are those that are kept. -/
theorem mounts_eq_ok {tidied : List Str} {ms : List (Str × Mount)}
    (h : mounts lower windows tidied = .ok ms) : ms.map Prod.fst = kept lower windows tidied := by
  rw [mounts] at h
  generalize kept lower windows tidied = ks at h
  induction ks generalizing ms with
  | nil =>
    obtain rfl : [] = ms := Except.ok.inj h
    rfl
  | cons k ks ih =>
    rw [List.mapM_cons] at h
    cases hbind : translate lower windows k with
    | error e =>
      rw [hbind] at h
      cases h
    | ok bind =>
      rw [hbind] at h
      cases hms : ks.mapM fun path => (translate lower windows path).map fun bind => (path, (⟨bind, "rw".toList⟩ : Mount)) with
      | error e =>
        rw [hms] at h
        cases h
      | ok ms' =>
        rw [hms] at h
        obtain rfl := Except.ok.inj h
        rw [List.map_cons, ih hms]

/-- There are mounts where each path that is kept has a place in the container. -/
theorem exists_mounts_iff {tidied : List Str} : (∃ ms, mounts lower windows tidied = .ok ms) ↔
    ∀ k ∈ kept lower windows tidied, ∃ bind, translate lower windows k = .ok bind := by
  rw [mounts]
  generalize kept lower windows tidied = ks
  induction ks with
  | nil => exact ⟨fun _ _ h => absurd h List.not_mem_nil, fun _ => ⟨[], rfl⟩⟩
  | cons k ks ih =>
    rw [List.forall_mem_cons, ← ih, List.mapM_cons]
    cases translate lower windows k with
    | error e =>
      constructor
      · rintro ⟨ms, h⟩
        cases h
      · rintro ⟨⟨bind, h⟩, -⟩
        cases h
    | ok bind =>
      cases ks.mapM fun path => (translate lower windows path).map fun bind => (path, (⟨bind, "rw".toList⟩ : Mount)) with
      | error e =>
        constructor
        · rintro ⟨ms, h⟩
          cases h
        · rintro ⟨-, ⟨ms, h⟩⟩
          cases h
      | ok ms => exact ⟨fun _ => ⟨⟨bind, rfl⟩, ms, rfl⟩, fun _ => ⟨_, rfl⟩⟩

/-- What is asked, of the paths that are kept. -/
theorem mounted_iff_kept {paths : List Str} : Mounted lower windows paths ↔
    ∀ tidied, Order paths tidied →
      (∀ k ∈ kept lower windows tidied, ∃ bind, translate lower windows k = .ok bind) ∧
      (kept lower windows tidied).Pairwise (Apart lower windows) ∧
      ∀ path ∈ paths, ∃ k ∈ kept lower windows tidied, Inside lower windows k path := by
  refine forall_congr' fun tidied => imp_congr_right fun _ => ⟨?_, ?_⟩
  · rintro ⟨ms, hms, hpairwise, hcover⟩
    rw [mounts_eq_ok hms] at hpairwise hcover
    refine ⟨exists_mounts_iff.mp ⟨ms, hms⟩, hpairwise, fun path hpath => ?_⟩
    obtain ⟨k, hk, hin, -⟩ := hcover path hpath
    exact ⟨k, hk, hin⟩
  · rintro ⟨hbind, hpairwise, hcover⟩
    obtain ⟨ms, hms⟩ := exists_mounts_iff.mpr hbind
    refine ⟨ms, hms, ?_, fun path hpath => ?_⟩
    · rw [mounts_eq_ok hms]
      exact hpairwise
    · obtain ⟨k, hk, hin⟩ := hcover path hpath
      rw [mounts_eq_ok hms]
      refine ⟨k, hk, hin, fun k' hk' hin' => ?_⟩
      by_contra hne
      have hapart := hpairwise.forall hk' hk hne
      rcases hin'.chain hin with h | h
      · exact hapart.1 h
      · exact hapart.2 h

end

/-! ## Windows -/

section

variable {lower : Str → Str}

theorem rdropWhile_idem (p : Char → Bool) (s : Str) : (s.rdropWhile p).rdropWhile p = s.rdropWhile p := by
  rw [List.rdropWhile_eq_self_iff]
  exact fun h => List.rdropWhile_last_not p s h

theorem rdropWhile_append_cons {p : Char → Bool} {c : Char} (hc : p c = false) (s t : Str) :
    (s ++ c :: t).rdropWhile p = s ++ c :: t.rdropWhile p := by
  have hneg : ¬ p c = true := by rw [hc]; exact Bool.false_ne_true
  rw [List.rdropWhile, List.reverse_append, List.reverse_cons, List.append_assoc, List.singleton_append,
    List.dropWhile_append]
  split
  · next hnil =>
    have hempty : t.rdropWhile p = [] := by rw [List.rdropWhile, List.isEmpty_iff.mp hnil]; rfl
    rw [hempty, List.dropWhile_cons_of_neg hneg, List.reverse_cons, List.reverse_reverse]
  · rw [List.reverse_append, List.reverse_cons, List.reverse_reverse, List.append_assoc]
    rfl

/-- A path on a drive, and what is left of it. -/
theorem tidy_windows {p : Str} (h : Absolute true p) :
    ∃ letter rest, letter.isAlpha = true ∧ tidy p = letter :: ':' :: rest ∧
      tidy p = p.rdropWhile isSeparator ∧ (rest = [] ∨ ∃ s more, rest = s :: more ∧ isSeparator s = true) := by
  have hdrive : (drive p).isSome := h
  rw [drive.eq_def] at hdrive
  split at hdrive
  · next letter s rest =>
    split at hdrive
    · next hletter =>
      have hstrip : (letter :: ':' :: s :: rest).rdropWhile isSeparator =
          letter :: ':' :: (s :: rest).rdropWhile isSeparator :=
        rdropWhile_append_cons (by decide) [letter] (s :: rest)
      have htidy : tidy (letter :: ':' :: s :: rest) = (letter :: ':' :: s :: rest).rdropWhile isSeparator := by
        rw [tidy]
        exact if_neg (by rw [hstrip]; exact List.cons_ne_nil _ _)
      refine ⟨letter, (s :: rest).rdropWhile isSeparator, hletter.1, htidy.trans hstrip, htidy, ?_⟩
      have hpre := List.rdropWhile_prefix isSeparator (s :: rest)
      cases hrest : (s :: rest).rdropWhile isSeparator with
      | nil => exact Or.inl rfl
      | cons a more =>
        rw [hrest] at hpre
        obtain rfl := (List.cons_prefix_cons.mp hpre).1
        exact Or.inr ⟨a, more, rfl, hletter.2⟩
    · cases hdrive
  · cases hdrive

theorem names_tidy {p : Str} (h : Absolute true p) : names true (tidy p) = names true p := by
  obtain ⟨-, -, -, -, htidy, -⟩ := tidy_windows h
  show split '/' ((slashes (tidy p)).rdropWhile (· = '/')) = split '/' ((slashes p).rdropWhile (· = '/'))
  rw [rdropWhile_slashes, rdropWhile_slashes, htidy, rdropWhile_idem]

/-- The names of a tidied path are its pieces. -/
theorem names_eq_split {p : Str} (h : Absolute true p) : names true p = split '/' (slashes (tidy p)) := by
  obtain ⟨-, -, -, -, htidy, -⟩ := tidy_windows h
  show split '/' ((slashes p).rdropWhile (· = '/')) = _
  rw [rdropWhile_slashes, htidy]

/-- **On Windows a directory contains what lies in it.** -/
theorem contains_iff_inside (hlower : Lowers lower) {p q : Str} (hp : Absolute true p) (hq : Absolute true q) :
    Contains lower true (tidy p) (tidy q) ↔ Inside lower true p q := by
  have hkey : ∀ r, Absolute true r → key lower true r = split '/' (lower (slashes (tidy r))) := by
    intro r hr
    rw [key, names_eq_split hr, split_lower hlower]
    rfl
  rw [Inside, hkey p hp, hkey q hq, split_prefix_iff]
  simp [Contains, comparable]

theorem key_tidy {p : Str} (h : Absolute true p) : key lower true (tidy p) = key lower true p := by
  rw [key, key, names_tidy h]

/-- What is left of a drive has no place in a container, and every other path has one. -/
theorem exists_translate_iff {p : Str} (h : Absolute true p) :
    (∃ bind, translate lower true (tidy p) = .ok bind) ↔ (tidy p).length ≠ 2 := by
  obtain ⟨letter, rest, hletter, htidy, -, hrest⟩ := tidy_windows h
  have hnetwork : (startswith (letter :: ':' :: rest) ['\\', '\\'] ||
      startswith (letter :: ':' :: rest) ['/', '/']) = false := by
    rw [Bool.or_eq_false_iff]
    constructor <;> refine Bool.eq_false_iff.mpr fun h => ?_ <;>
      obtain ⟨rfl, -⟩ := List.cons_prefix_cons.mp (startswith_iff.mp h) <;> revert hletter <;> decide
  have htranslate : translate lower true (tidy p) = translateWindows lower (letter :: ':' :: rest) := by
    rw [htidy]
    rfl
  rw [htranslate, htidy, translateWindows, if_neg (by rw [hnetwork]; exact Bool.false_ne_true)]
  rcases hrest with rfl | ⟨s, more, rfl, hs⟩
  · constructor
    · rintro ⟨bind, hbind⟩
      cases hbind
    · exact fun h => absurd rfl h
  · have hdrive : drive (letter :: ':' :: s :: more) = some (letter, more) := if_pos ⟨hletter, hs⟩
    rw [hdrive]
    exact ⟨fun _ => by simp, fun _ => ⟨_, rfl⟩⟩

/-- Only what is left of a drive contains it. -/
theorem length_of_inside {p q : Str} (hp : Absolute true p) (hq : Absolute true q)
    (hlength : (tidy q).length = 2) (h : Inside lower true p q) : (tidy p).length = 2 := by
  obtain ⟨letter, rest, -, htidy, -, hrest⟩ := tidy_windows hp
  obtain ⟨letter', rest', hletter', htidy', -⟩ := tidy_windows hq
  have hle := h.length_le
  rw [key, key, List.length_map, List.length_map, names_eq_split hp, names_eq_split hq, htidy, htidy'] at hle
  rw [htidy'] at hlength
  obtain rfl : rest' = [] := by simpa using hlength
  have hone : split '/' (slashes [letter', ':']) = [slashes [letter', ':']] := by
    refine split_of_notMem fun hmem => ?_
    obtain ⟨c, hc, hslash⟩ := List.mem_map.mp hmem
    rcases List.mem_cons.mp hc with rfl | hc
    · split at hslash
      · next h => subst h; revert hletter'; decide
      · subst hslash; revert hletter'; decide
    · obtain rfl := List.mem_singleton.mp hc
      revert hslash
      decide
  rw [hone] at hle
  rcases hrest with rfl | ⟨s, more, rfl, hs⟩
  · rw [htidy]
    rfl
  · have hsep : slashes (letter :: ':' :: s :: more) = slashes [letter, ':'] ++ '/' :: slashes more := by
      have hslash : (if s = '\\' then '/' else s) = '/' := by
        rcases of_decide_eq_true hs with rfl | rfl <;> rfl
      show slashes ([letter, ':'] ++ s :: more) = _
      rw [slashes_append]
      exact congrArg (fun c => slashes [letter, ':'] ++ c :: slashes more) hslash
    rw [hsep, split_append_cons, List.length_append] at hle
    have hpos := List.length_pos_iff.mpr (split_ne_nil '/' (slashes [letter, ':']))
    have hpos' := List.length_pos_iff.mpr (split_ne_nil '/' (slashes more))
    rw [List.length_singleton] at hle
    omega

/-- No path is a whole drive; and a directory that holds another path lies in one that is spelled
shorter than the path. -/
def FineOnWindows (lower : Str → Str) (paths : List Str) : Prop :=
  (∀ p ∈ paths, (tidy p).length ≠ 2) ∧
    ∀ o ∈ paths, ∀ i ∈ paths, Inside lower true o i → ¬ Inside lower true i o →
      ∃ o' ∈ paths, Inside lower true o' o ∧ (tidy o').length < (tidy i).length

section

variable {paths : List Str} (habsolute : ∀ p ∈ paths, Absolute true p) (hlower : Lowers lower)

/-- What is kept is the tidied form of a path. -/
theorem exists_of_mem_kept {windows : Bool} {tidied : List Str} (horder : Order paths tidied) {k : Str}
    (hk : k ∈ kept lower windows tidied) : ∃ p ∈ paths, tidy p = k :=
  List.mem_map.mp ((horder.mem k).mp (kept_subset hk))

include habsolute

theorem inside_tidy_iff {p q : Str} (hp : p ∈ paths) (hq : q ∈ paths) :
    Inside lower true (tidy p) (tidy q) ↔ Inside lower true p q := by
  rw [Inside, key_tidy (habsolute p hp), key_tidy (habsolute q hq)]
  rfl

include hlower

theorem inside_of_mem_kept {tidied : List Str} (horder : Order paths tidied) {p : Str} (hp : p ∈ paths) :
    ∃ q ∈ paths, tidy q ∈ kept lower true tidied ∧ Inside lower true q p := by
  obtain ⟨k, hk, hcontains⟩ := exists_mem_kept lower true
    ((horder.mem (tidy p)).mpr (List.mem_map_of_mem hp))
  obtain ⟨q, hq, rfl⟩ := exists_of_mem_kept horder hk
  exact ⟨q, hq, hk, (contains_iff_inside hlower (habsolute q hq) (habsolute p hp)).mp hcontains⟩

theorem mounted_of_fine (h : FineOnWindows lower paths) : Mounted lower true paths := by
  obtain ⟨hdrives, hspelled⟩ := h
  refine mounted_iff_kept.mpr fun tidied horder => ⟨fun k hk => ?_, ?_, fun p hp => ?_⟩
  · obtain ⟨p, hp, rfl⟩ := exists_of_mem_kept horder hk
    exact (exists_translate_iff (habsolute p hp)).mpr (hdrives p hp)
  · refine (Outermost.pairwise_keep _ _).imp_of_mem fun {a b} ha hb hnot => ?_
    obtain ⟨p, hp, rfl⟩ := exists_of_mem_kept horder ha
    obtain ⟨q, hq, rfl⟩ := exists_of_mem_kept horder hb
    rw [contains_iff_inside hlower (habsolute p hp) (habsolute q hq)] at hnot
    rw [Apart, inside_tidy_iff habsolute hp hq, inside_tidy_iff habsolute hq hp]
    refine ⟨hnot, fun hin => ?_⟩
    obtain ⟨o, ho, hoq, hlt⟩ := hspelled q hq p hp hin hnot
    refine not_contains_of_mem_kept horder.nodup ha ((horder.mem (tidy o)).mpr (List.mem_map_of_mem ho)) hlt ?_
    exact (contains_iff_inside hlower (habsolute o ho) (habsolute p hp)).mpr (hoq.trans hin)
  · obtain ⟨q, hq, hk, hin⟩ := inside_of_mem_kept habsolute hlower horder hp
    refine ⟨tidy q, hk, ?_⟩
    rw [Inside, key_tidy (habsolute q hq)]
    exact hin

theorem fine_of_mounted (h : Mounted lower true paths) : FineOnWindows lower paths := by
  rw [mounted_iff_kept] at h
  have horder : Order paths (paths.map tidy).dedup := ⟨List.nodup_dedup _, fun _ => List.mem_dedup⟩
  refine ⟨fun p hp hlength => ?_, fun o ho i hi hoi hio => ?_⟩
  · obtain ⟨q, hq, hk, hin⟩ := inside_of_mem_kept habsolute hlower horder hp
    have hbind := (h _ horder).1 _ hk
    rw [exists_translate_iff (habsolute q hq)] at hbind
    exact hbind (length_of_inside (habsolute q hq) (habsolute p hp) hlength hin)
  · by_contra hnone
    -- The inner path may come first of those that are as long as it is.
    have hfirst : Order paths (tidy i :: (paths.map tidy).dedup.erase (tidy i)) := by
      have hperm := List.perm_cons_erase (List.mem_dedup.mpr (List.mem_map_of_mem hi) :
        tidy i ∈ (paths.map tidy).dedup)
      exact ⟨hperm.nodup_iff.mp horder.nodup, fun t => hperm.mem_iff.symm.trans (horder.mem t)⟩
    obtain ⟨-, hapart, hcover⟩ := h _ hfirst
    obtain ⟨front, back, hsorted, -, hfront⟩ := exists_sortBy_cons List.length (tidy i)
      ((paths.map tidy).dedup.erase (tidy i))
    obtain ⟨k, hk, hcontains⟩ := Outermost.exists_mem_keep (Contains lower true) contains_refl
      (List.mem_append_right front (List.mem_singleton_self (tidy i)))
    have hkept : k ∈ kept lower true (tidy i :: (paths.map tidy).dedup.erase (tidy i)) := by
      rw [kept, hsorted, ← List.singleton_append, ← List.append_assoc]
      obtain ⟨more, hmore, -⟩ := Outermost.keep_append (Contains lower true) (front ++ [tidy i]) back
      rw [hmore]
      exact List.mem_append_left _ hk
    obtain ⟨r, hr, rfl⟩ := exists_of_mem_kept hfirst hkept
    have hri := (contains_iff_inside hlower (habsolute r hr) (habsolute i hi)).mp hcontains
    have hro : ¬ Inside lower true r o := by
      intro hro
      have hle : ¬ (tidy r).length < (tidy i).length := fun hlt => hnone ⟨r, hr, hro, hlt⟩
      rcases List.mem_append.mp ((Outermost.keep_sublist _ _).subset hk) with hmem | hmem
      · exact hle (hfront _ hmem)
      · have heq := List.mem_singleton.mp hmem
        have hkey : key lower true r = key lower true i := by
          rw [← key_tidy (habsolute r hr), heq, key_tidy (habsolute i hi)]
        refine hio ?_
        rw [Inside, ← hkey]
        exact hro
    have hor := (hoi.chain hri).resolve_right hro
    obtain ⟨k, hk', hin⟩ := hcover o ho
    obtain ⟨s, hs, rfl⟩ := exists_of_mem_kept hfirst hk'
    have hso : Inside lower true s o := by
      rw [Inside, ← key_tidy (habsolute s hs)]
      exact hin
    refine (hapart.forall hk' hkept fun heq => hro ?_).1 ?_
    · rw [Inside, ← key_tidy (habsolute r hr), ← heq, key_tidy (habsolute s hs)]
      exact hso
    · rw [inside_tidy_iff habsolute hs hr]
      exact hso.trans hor

end

end

/-! ## POSIX -/

section

variable {lower : Str → Str}

theorem contains_posix {o i : Str} :
    Contains lower false o i ↔ o = i ∨ o ++ ['/'] <+: i ∨ o ++ ['\\'] <+: i := by
  simp [Contains, comparable]

theorem inside_posix {o i : Str} : Inside lower false o i ↔
    o.rdropWhile (· = '/') = i.rdropWhile (· = '/') ∨
      o.rdropWhile (· = '/') ++ ['/'] <+: i.rdropWhile (· = '/') := by
  have hkey : ∀ p, key lower false p = split '/' (p.rdropWhile (· = '/')) := fun p => List.map_id _
  rw [Inside, hkey, hkey, split_prefix_iff]

theorem rdropWhile_prefix_rdropWhile {p q : Char → Bool} (h : ∀ c, q c = true → p c = true) (s : Str) :
    s.rdropWhile p <+: s.rdropWhile q := by
  induction s using List.reverseRecOn with
  | nil => exact List.prefix_refl _
  | append_singleton s c ih =>
    by_cases hq : q c = true
    · rw [List.rdropWhile_concat_pos _ _ _ (h c hq), List.rdropWhile_concat_pos _ _ _ hq]
      exact ih
    · rw [List.rdropWhile_concat_neg _ _ _ hq]
      exact List.rdropWhile_prefix p _

/-- A tidied path is the root, or it ends with a name. -/
theorem tidy_posix {p : Str} (h : Absolute false p) :
    tidy p = ['/'] ∨ tidy p = p.rdropWhile isSeparator ∧ tidy p ≠ ['/'] ∧
      (tidy p).rdropWhile (· = '/') = tidy p ∧ (tidy p).head? = some '/' := by
  have hhead : p.head? = some '/' := h
  by_cases hnil : p.rdropWhile isSeparator = []
  · left
    cases p with
    | nil => cases hhead
    | cons c p =>
      obtain rfl : c = '/' := Option.some.inj hhead
      exact if_pos hnil
  · right
    have htidy : tidy p = p.rdropWhile isSeparator := if_neg hnil
    have hidem : (tidy p).rdropWhile (· = '/') = tidy p := by
      rw [htidy, List.rdropWhile_eq_self_iff]
      intro hne hlast
      refine List.rdropWhile_last_not isSeparator p hne ?_
      exact decide_eq_true (Or.inl (of_decide_eq_true hlast))
    refine ⟨htidy, fun hroot => ?_, hidem, ?_⟩
    · rw [hroot] at hidem
      revert hidem
      decide
    · have hpre := List.rdropWhile_prefix isSeparator p
      rw [htidy]
      cases hrest : p.rdropWhile isSeparator with
      | nil => exact absurd hrest hnil
      | cons c t =>
        rw [hrest] at hpre
        rw [← hhead]
        obtain ⟨rest, rfl⟩ := hpre
        rfl

/-- Everything lies in the root. -/
theorem inside_root {p : Str} (h : p.head? = some '/') : Inside lower false ['/'] p := by
  rw [inside_posix]
  cases hrest : p.rdropWhile (· = '/') with
  | nil => exact Or.inl rfl
  | cons c t =>
    have hpre := List.rdropWhile_prefix (· = '/') p
    rw [hrest] at hpre
    obtain ⟨rest, rfl⟩ := hpre
    obtain rfl : c = '/' := Option.some.inj h
    exact Or.inr ⟨t, rfl⟩

theorem head_tidy {p : Str} (h : Absolute false p) : (tidy p).head? = some '/' := by
  rcases tidy_posix h with hroot | ⟨-, -, -, hhead⟩
  · rw [hroot]
    rfl
  · exact hhead

theorem length_of_contains {o i : Str} (h : Contains lower false o i) : o = i ∨ o.length < i.length := by
  rcases contains_posix.mp h with heq | hslash | hback
  · exact Or.inl heq
  · have hle := hslash.length_le
    rw [List.length_append, List.length_singleton] at hle
    exact Or.inr hle
  · have hle := hback.length_le
    rw [List.length_append, List.length_singleton] at hle
    exact Or.inr hle

/-- A path that `contains` puts in no other one. -/
def Outer (lower : Str → Str) (paths : List Str) (t : Str) : Prop :=
  t ∈ paths.map tidy ∧ ∀ o ∈ paths.map tidy, Contains lower false o t → o = t

/-- Where the root is one of the paths, the text of every other one goes on with a separator behind it; and
no path goes on with a backslash where the text of an outer one ends. -/
def FineOnPosix (lower : Str → Str) (paths : List Str) : Prop :=
  (['/'] ∈ paths.map tidy → ∀ p ∈ paths, tidy p = ['/'] ∨ ['/', '/'] <+: tidy p ∨ ['/', '\\'] <+: tidy p) ∧
    ∀ t, Outer lower paths t → t ≠ ['/'] → ∀ p ∈ paths, ¬ t ++ ['\\'] <+: p

variable {paths tidied : List Str}

theorem mem_kept_iff (horder : Order paths tidied) {k : Str} :
    k ∈ kept lower false tidied ↔ Outer lower paths k := by
  constructor
  · intro hk
    refine ⟨(horder.mem k).mp (kept_subset hk), fun o ho hcontains => ?_⟩
    obtain ⟨k', hk', hcontains'⟩ := exists_mem_kept lower false ((horder.mem o).mpr ho)
    rcases length_of_contains (contains_trans hcontains' hcontains) with rfl | hlt
    · rcases length_of_contains hcontains with heq | hlt
      · exact heq
      · rcases length_of_contains hcontains' with heq | hlt'
        · exact heq.symm
        · omega
    · exact absurd (contains_trans hcontains' hcontains)
        (not_contains_of_mem_kept horder.nodup hk (kept_subset hk') hlt)
  · rintro ⟨hmem, houter⟩
    obtain ⟨k', hk', hcontains⟩ := exists_mem_kept lower false ((horder.mem k).mpr hmem)
    rwa [houter k' ((horder.mem k').mp (kept_subset hk')) hcontains] at hk'

/-- What `contains` puts in an outer path lies in it. -/
theorem inside_of_contains {p t : Str} (hp : Absolute false p)
    (ht : t.rdropWhile (· = '/') = t) (hroot : t ≠ ['/']) (hback : ¬ t ++ ['\\'] <+: p)
    (h : Contains lower false t (tidy p)) : Inside lower false t p := by
  have hsep : p.rdropWhile isSeparator <+: p.rdropWhile (· = '/') :=
    rdropWhile_prefix_rdropWhile (fun c hc => decide_eq_true (Or.inl (of_decide_eq_true hc))) p
  have hpre := List.rdropWhile_prefix (· = '/') p
  rw [inside_posix, ht]
  rcases tidy_posix hp with htidy | ⟨htidy, -, -, -⟩
  · rw [htidy] at h
    rcases length_of_contains h with heq | hlt
    · exact absurd heq hroot
    · obtain rfl : t = [] := List.length_eq_zero_iff.mp (Nat.lt_one_iff.mp hlt)
      have hhead : Inside lower false ['/'] p := inside_root hp
      rwa [inside_posix] at hhead
  · rw [htidy] at h
    rcases contains_posix.mp h with heq | hslash | hslash
    · -- Only separators stand behind the tidied path.
      rw [← heq] at hsep
      obtain ⟨u, hu⟩ := hsep
      cases u with
      | nil => exact Or.inl (by rw [← hu, List.append_nil])
      | cons c u =>
        have hparts : p.rdropWhile isSeparator ++ p.rtakeWhile isSeparator = p :=
          List.rdropWhile_append_rtakeWhile ..
        have hc : c ∈ p.rtakeWhile isSeparator := by
          obtain ⟨v, hv⟩ := hpre
          rw [← hu, ← heq] at *
          have hcancel : c :: u ++ v = p.rtakeWhile isSeparator := by
            have htwo : t ++ (c :: u ++ v) = t ++ p.rtakeWhile isSeparator := by
              rw [← List.append_assoc, hv]
              exact hparts.symm
            exact List.append_cancel_left htwo
          rw [← hcancel]
          exact List.mem_cons_self
        have hsepc : isSeparator c = true := List.mem_rtakeWhile_imp hc
        rcases of_decide_eq_true hsepc with rfl | rfl
        · exact Or.inr ⟨u, by rw [List.append_assoc]; exact hu⟩
        · have hmore : t ++ ['\\'] <+: p.rdropWhile (· = '/') := ⟨u, by rw [List.append_assoc]; exact hu⟩
          exact absurd (hmore.trans hpre) hback
    · exact Or.inr (hslash.trans hsep)
    · exact absurd (hslash.trans (List.rdropWhile_prefix isSeparator p)) hback

theorem mounted_of_fine_posix (habsolute : ∀ p ∈ paths, Absolute false p) (h : FineOnPosix lower paths) :
    Mounted lower false paths := by
  obtain ⟨hroot, hback⟩ := h
  refine mounted_iff_kept.mpr fun tidied horder => ⟨fun k _ => ⟨k, rfl⟩, ?_, fun p hp => ?_⟩
  · have hnodup : (kept lower false tidied).Nodup :=
      (Outermost.keep_sublist _ _).nodup ((sortBy_perm _ _).nodup_iff.mpr horder.nodup)
    have hnot : ∀ a ∈ kept lower false tidied, ∀ b ∈ kept lower false tidied, a ≠ b →
        ¬ Inside lower false a b := by
      intro a ha b hb hne hin
      have hb' := (mem_kept_iff horder).mp hb
      obtain ⟨p, hp, rfl⟩ := exists_of_mem_kept horder ha
      obtain ⟨q, hq, rfl⟩ := exists_of_mem_kept horder hb
      refine hne (hb'.2 (tidy p) (List.mem_map_of_mem hp) (contains_posix.mpr ?_))
      rcases tidy_posix (habsolute p hp) with hp' | ⟨-, -, hp', -⟩
      · rw [hp']
        rcases hroot (hp' ▸ List.mem_map_of_mem hp) q hq with hq' | hq'
        · exact Or.inl hq'.symm
        · exact Or.inr hq'
      · rw [inside_posix, hp'] at hin
        rcases tidy_posix (habsolute q hq) with hq' | ⟨-, -, hq', -⟩
        · -- No path but the root holds it.
          rw [hq'] at hin
          have hempty : ['/'].rdropWhile (· = '/') = [] := rfl
          rw [hempty] at hin
          rcases hin with heq | hpre
          · have hhead := head_tidy (habsolute p hp)
            rw [heq] at hhead
            cases hhead
          · have hle := hpre.length_le
            simp at hle
        · rw [hq'] at hin
          exact hin.imp_right Or.inl
    exact hnodup.imp_of_mem fun ha hb hne => ⟨hnot _ ha _ hb hne, hnot _ hb _ ha hne.symm⟩
  · obtain ⟨k, hk, hcontains⟩ := exists_mem_kept lower false
      ((horder.mem (tidy p)).mpr (List.mem_map_of_mem hp))
    refine ⟨k, hk, ?_⟩
    have houter := (mem_kept_iff horder).mp hk
    obtain ⟨q, hq, rfl⟩ := exists_of_mem_kept horder hk
    rcases tidy_posix (habsolute q hq) with hq' | ⟨-, hne, hq', -⟩
    · rw [hq']
      exact inside_root (habsolute p hp)
    · exact inside_of_contains (habsolute p hp) hq' hne (hback _ houter hne p hp) hcontains

theorem fine_of_mounted_posix (habsolute : ∀ p ∈ paths, Absolute false p) (h : Mounted lower false paths) :
    FineOnPosix lower paths := by
  have horder : Order paths (paths.map tidy).dedup := ⟨List.nodup_dedup _, fun _ => List.mem_dedup⟩
  obtain ⟨-, hapart, hcover⟩ := mounted_iff_kept.mp h _ horder
  have hhead : ∀ k ∈ kept lower false (paths.map tidy).dedup, k.head? = some '/' := by
    intro k hk
    obtain ⟨q, hq, rfl⟩ := exists_of_mem_kept horder hk
    exact head_tidy (habsolute q hq)
  refine ⟨fun hroot p hp => ?_, fun t ht hne p hp hback => ?_⟩
  · have hkept : ['/'] ∈ kept lower false (paths.map tidy).dedup := by
      refine (mem_kept_iff horder).mpr ⟨hroot, fun o ho hcontains => ?_⟩
      rcases length_of_contains hcontains with heq | hlt
      · exact heq
      · obtain ⟨q, hq, rfl⟩ := List.mem_map.mp ho
        have hq' := head_tidy (habsolute q hq)
        rw [List.length_eq_zero_iff.mp (Nat.lt_one_iff.mp hlt)] at hq'
        cases hq'
    obtain ⟨k, hk, hcontains⟩ := exists_mem_kept lower false
      ((horder.mem (tidy p)).mpr (List.mem_map_of_mem hp))
    have heq : k = ['/'] := by
      by_contra hne
      exact (hapart.forall hkept hk (Ne.symm hne)).1 (inside_root (hhead k hk))
    rw [heq] at hcontains
    rcases contains_posix.mp hcontains with heq | h
    · exact Or.inl heq.symm
    · exact Or.inr h
  · have hkept := (mem_kept_iff horder).mpr ht
    obtain ⟨k, hk, hin⟩ := hcover p hp
    obtain ⟨rest, hrest⟩ := hback
    have hback : t ++ ['\\'] <+: p.rdropWhile (· = '/') := by
      rw [← hrest, List.append_assoc, List.singleton_append, rdropWhile_append_cons (by decide)]
      exact ⟨_, by rw [List.append_assoc]; rfl⟩
    have hnotroot : k ≠ ['/'] := by
      rintro rfl
      exact (hapart.forall hk hkept hne.symm).1 (inside_root (hhead t hkept))
    obtain ⟨q, hq, rfl⟩ := exists_of_mem_kept horder hk
    obtain ⟨-, -, hq', -⟩ := (tidy_posix (habsolute q hq)).resolve_left hnotroot
    have htk : t <+: p.rdropWhile (· = '/') := (List.prefix_append _ _).trans hback
    have hlength := hback.length_le
    rw [List.length_append, List.length_singleton] at hlength
    rw [inside_posix, hq'] at hin
    have hkp : tidy q <+: p.rdropWhile (· = '/') := by
      rcases hin with heq | hslash
      · exact heq ▸ List.prefix_refl _
      · exact (List.prefix_append _ _).trans hslash
    rcases Nat.lt_or_ge t.length (tidy q).length with hlt | hge
    · refine not_contains_of_mem_kept horder.nodup hk (kept_subset hkept) hlt (contains_posix.mpr ?_)
      exact Or.inr (Or.inr (List.prefix_of_prefix_length_le hback hkp
        (by rw [List.length_append, List.length_singleton]; exact hlt)))
    · rcases hin with heq | hslash
      · rw [← heq] at hlength
        omega
      · rcases hge.lt_or_eq with hlt | heq
        · have hcontains : Contains lower false (tidy q) t := contains_posix.mpr
            (Or.inr (Or.inl (List.prefix_of_prefix_length_le hslash htk
              (by rw [List.length_append, List.length_singleton]; exact hlt))))
          have heq := ht.2 _ (List.mem_map_of_mem hq) hcontains
          rw [heq] at hlt
          exact Nat.lt_irrefl _ hlt
        · have hsame := (List.prefix_of_prefix_length_le hslash hback (by simp [heq])).eq_of_length (by simp [heq])
          have hlast := congrArg List.getLast? hsame
          simp at hlast

end

/-! ## Both -/

/-- **Where what is mounted is as it is asked.** -/
theorem mounted_iff {lower : Str → Str} (hlower : Lowers lower) (windows : Bool) {paths : List Str}
    (habsolute : ∀ p ∈ paths, Absolute windows p) : Mounted lower windows paths ↔
      match windows with
      | true => FineOnWindows lower paths
      | false => FineOnPosix lower paths := by
  cases windows with
  | true => exact ⟨fine_of_mounted habsolute hlower, mounted_of_fine habsolute hlower⟩
  | false => exact ⟨fine_of_mounted_posix habsolute, mounted_of_fine_posix habsolute⟩

theorem mounted_iff_work : Mounted (List.map Char.toLower) true ["C:\\Work".toList, "c:/work/x".toList] ↔
    FineOnWindows (List.map Char.toLower) ["C:\\Work".toList, "c:/work/x".toList] :=
  mounted_iff lowers_map true (by decide)

/-- The root of the file system, and a directory in it. -/
theorem not_mounted_root : ¬ ∀ (windows : Bool) (paths : List Str), (∀ p ∈ paths, Absolute windows p) →
    Mounted (List.map Char.toLower) windows paths := by
  intro h
  have hfine := fine_of_mounted_posix (by decide) (h false ["/".toList, "/a".toList] (by decide))
  have hroot := hfine.1 (by decide) "/a".toList (by decide)
  revert hroot
  decide

end PartCAD.Sandbox.HostPaths
