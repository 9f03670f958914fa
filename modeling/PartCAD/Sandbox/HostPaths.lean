import Mathlib.Data.List.DropRight
import Mathlib.Data.List.Induction
import PartCAD.Lib.Outermost
import PartCAD.Lib.SortedBy
import PartCAD.Lib.Text

/-!
# Host directories in a container

A directory of the host is mounted where it is, and on Windows where its drive letter says; there,
arguments that begin with its path are rewritten.

* `translate`, `mounts`, `rewrite` : what the container is given;
* `names` : the names that a path consists of.
-/

namespace PartCAD.Sandbox.HostPaths

open PartCAD.Lib PartCAD.Lib.Text

/-! ## Paths -/

def networkPath (path : Str) : Str :=
  "'".toList ++ path ++ ("' is a network path, which cannot be bind-mounted into a container. " ++
    "Use a path on a local drive, or the 'remote' sandbox, which sends the files rather " ++
    "than mounting them.").toList

def noDrive (path : Str) : Str :=
  "'".toList ++ path ++ ("' does not begin with a drive letter, so there is no way to say where it goes " ++
    "inside a container. Absolute paths only.").toList

def isSeparator (c : Char) : Bool := c = '/' ∨ c = '\\'

/-- `path.replace("\\", "/")` -/
def slashes (path : Str) : Str := path.map fun c => if c = '\\' then '/' else c

/-- What `_DRIVE` matches at the start, and what is behind it. -/
def drive : Str → Option (Char × Str)
  | c :: ':' :: s :: rest => if c.isAlpha ∧ isSeparator s then some (c, rest) else none
  | _ => none

section

-- `str.lower`
variable (lower : Str → Str)

/-- `translate` on Windows; an error is an `UnmountablePath`. -/
def translateWindows (path : Str) : Except Str Str :=
  if startswith path ['\\', '\\'] || startswith path ['/', '/'] then .error (networkPath path)
  else
    match drive path with
    | none => .error (noDrive path)
    | some (letter, rest) =>
      let rest := slashes rest
      .ok (if rest = [] then '/' :: lower [letter] else '/' :: (lower [letter] ++ '/' :: rest))

/-- `translate` -/
def translate (windows : Bool) (path : Str) : Except Str Str :=
  if windows then translateWindows lower path else .ok path

/-- `_comparable` -/
def comparable (windows : Bool) (path : Str) : Str := if windows then lower (slashes path) else path

/-- `_tidy` -/
def tidy (path : Str) : Str :=
  let stripped := path.rdropWhile isSeparator
  if stripped = [] then path.take 1 else stripped

/-- `contains` -/
def Contains (windows : Bool) (outer inner : Str) : Prop :=
  comparable lower windows outer = comparable lower windows inner ∨
    comparable lower windows outer ++ ['/'] <+: comparable lower windows inner ∨
    windows = false ∧ comparable lower windows outer ++ ['\\'] <+: comparable lower windows inner

instance (windows : Bool) : DecidableRel (Contains lower windows) := fun _ _ => by
  unfold Contains
  infer_instance

/-! ## Mounts -/

structure Mount where
  bind : Str
  mode : Str

/-- The directories that `mounts` keeps.  The tidied paths come in the order of their set. -/
def kept (windows : Bool) (paths : List Str) : List Str :=
  Outermost.keep (Contains lower windows) (sortBy List.length paths)

/-- `mounts` -/
def mounts (windows : Bool) (paths : List Str) : Except Str (List (Str × Mount)) :=
  (kept lower windows paths).mapM fun path =>
    (translate lower windows path).map fun bind => (path, ⟨bind, "rw".toList⟩)

/-! ## Arguments -/

/-- `rewrite`.  The tidied paths come in the order of their set. -/
def rewrite (windows : Bool) (argument : Str) (paths : List Str) : Except Str Str :=
  if windows then
    match (sortBy (fun path => OrderDual.toDual path.length) paths).find? fun host =>
        startswith (comparable lower true argument) (comparable lower true host) with
    | none => .ok argument
    | some host => (translate lower true host).map (· ++ slashes (argument.drop host.length))
  else .ok argument

end

/-! ## Names -/

/-- What stands between the separators of a path, but for separators at its end: on Windows both kinds
separate. -/
def names (windows : Bool) (path : Str) : List Str :=
  split '/' ((if windows then slashes path else path).rdropWhile (· = '/'))

/-- What is known of `str.lower`: a separator is no letter, and ends what the letters around it are
looked at for. -/
structure Lowers (lower : Str → Str) : Prop where
  slash : ∀ s t, lower (s ++ '/' :: t) = lower s ++ '/' :: lower t
  free : ∀ s, '/' ∉ s → '/' ∉ lower s
  ne_nil : ∀ s, s ≠ [] → lower s ≠ []

/-- The names of a path, as they are compared. -/
def key (lower : Str → Str) (windows : Bool) (path : Str) : List Str :=
  (names windows path).map (if windows then lower else id)

/-- A path is a directory or lies in it, name by name. -/
def Inside (lower : Str → Str) (windows : Bool) (outer inner : Str) : Prop :=
  key lower windows outer <+: key lower windows inner

/-- A path from a root of the file system, or on Windows from a drive. -/
def Absolute : (windows : Bool) → (path : Str) → Prop
  | true, path => (drive path).isSome = true
  | false, path => path.head? = some '/'

instance (path : Str) : (windows : Bool) → Decidable (Absolute windows path)
  | true => inferInstanceAs (Decidable ((drive path).isSome = true))
  | false => inferInstanceAs (Decidable (path.head? = some '/'))

/-! ## Joined names -/

/-- One joined list goes on with the names of the other one. -/
theorem join_prefix_iff {c : Char} {ps qs : List Str} (hp : ∀ p ∈ ps, c ∉ p) (hq : ∀ q ∈ qs, c ∉ q)
    (hps : ps ≠ []) (hqs : qs ≠ []) :
    (join c ps = join c qs ∨ join c ps ++ [c] <+: join c qs) ↔ ps <+: qs := by
  constructor
  · rintro (h | ⟨t, h⟩)
    · have hsplit := congrArg (split c) h
      rw [split_join hp hps, split_join hq hqs] at hsplit
      exact hsplit ▸ List.prefix_refl ps
    · have hsplit := congrArg (split c) h
      rw [List.append_assoc, List.singleton_append, split_append_cons, split_join hp hps,
        split_join hq hqs] at hsplit
      exact ⟨_, hsplit⟩
  · rintro ⟨rest, rfl⟩
    cases rest with
    | nil => exact Or.inl (by rw [List.append_nil])
    | cons r rest =>
      rw [join_append c hps (List.cons_ne_nil _ _)]
      exact Or.inr ⟨join c (r :: rest), by rw [List.append_assoc]; rfl⟩

/-- The same for texts that are cut at their separators. -/
theorem split_prefix_iff (c : Char) (s t : Str) : split c s <+: split c t ↔ s = t ∨ s ++ [c] <+: t := by
  have h := join_prefix_iff (fun p hp => notMem_of_mem_split hp) (fun q hq => notMem_of_mem_split hq)
    (split_ne_nil c s) (split_ne_nil c t)
  rw [join_split, join_split] at h
  exact h.symm

section

variable {lower : Str → Str}

theorem lower_join (h : Lowers lower) {ps : List Str} (hps : ps ≠ []) :
    lower (join '/' ps) = join '/' (ps.map lower) := by
  induction ps with
  | nil => exact absurd rfl hps
  | cons p ps ih =>
    cases ps with
    | nil => rfl
    | cons q qs =>
      have hq := ih (List.cons_ne_nil _ _)
      rw [join, h.slash, hq]
      rfl

/-- A text in small letters is that of its pieces. -/
theorem split_lower (h : Lowers lower) (s : Str) : split '/' (lower s) = (split '/' s).map lower := by
  have hjoin := lower_join h (split_ne_nil '/' s)
  rw [join_split] at hjoin
  rw [hjoin, split_join]
  · intro p hp
    obtain ⟨q, hq, rfl⟩ := List.mem_map.mp hp
    exact h.free q (notMem_of_mem_split hq)
  · simpa using split_ne_nil '/' s

theorem toLower_ne_slash {c : Char} (h : c ≠ '/') : c.toLower ≠ '/' := by
  intro hlower
  by_cases hupper : 65 ≤ c.toNat ∧ c.toNat ≤ 90
  · -- A capital letter is not far enough below the slash.
    have hsum : c.toNat + 32 = 47 := (Text.toNat_toLower hupper).symm.trans (congrArg Char.toNat hlower)
    omega
  · exact h ((Text.toLower_of_not_upper hupper).symm.trans hlower)

/-- The small letters of ASCII. -/
theorem lowers_map : Lowers (List.map Char.toLower) where
  slash s t := List.map_append
  free s hs h := by
    obtain ⟨c, hc, hlower⟩ := List.mem_map.mp h
    refine toLower_ne_slash (fun heq => hs ?_) hlower
    rwa [heq] at hc
  ne_nil s hs h := hs (List.map_eq_nil_iff.mp h)

/-! ## Tidied paths -/

theorem slashes_append (s t : Str) : slashes (s ++ t) = slashes s ++ slashes t := List.map_append

/-- Separators are slashes, once they are made so. -/
theorem rdropWhile_slashes (s : Str) : (slashes s).rdropWhile (· = '/') = slashes (s.rdropWhile isSeparator) := by
  induction s using List.reverseRecOn with
  | nil => rfl
  | append_singleton s c ih =>
    have hsingle : slashes [c] = [if c = '\\' then '/' else c] := rfl
    rw [slashes_append, hsingle]
    by_cases hc : isSeparator c = true
    · have hslash : (if c = '\\' then '/' else c) = '/' := by
        rcases of_decide_eq_true hc with rfl | rfl <;> rfl
      rw [hslash, List.rdropWhile_concat_pos _ _ _ (by decide), List.rdropWhile_concat_pos _ _ _ hc]
      exact ih
    · have hnot : ¬ (c = '/' ∨ c = '\\') := fun h => hc (decide_eq_true h)
      have hback : c ≠ '\\' := fun h => hnot (Or.inr h)
      rw [if_neg hback, List.rdropWhile_concat_neg _ _ _ (by simpa using fun h => hnot (Or.inl h)),
        List.rdropWhile_concat_neg _ _ _ hc, slashes_append, hsingle, if_neg hback]

end

end PartCAD.Sandbox.HostPaths
