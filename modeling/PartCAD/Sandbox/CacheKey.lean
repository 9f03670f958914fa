import Mathlib.Data.List.Dedup
import Mathlib.Data.List.Sort
import PartCAD.Lib.Repr

/-!
# The key of a sandbox

A shape is cached under a text that names the sandbox it was built in: the interpreter, its version,
everything installed alongside and the container image.  The parts are joined by separators that
they may hold themselves.

* `environmentCacheKey` : the text;
* `Unambiguous` : it can be read in one way;
* `key_iff` : then, and only then, no other sandbox has the same text;
* `key_iff_of_plain` : sandboxes whose parts hold no separators are told apart.
-/

namespace PartCAD.Sandbox

open PartCAD.Lib PartCAD.Lib.Text

/-! ## The text -/

/-- The arguments of `environment_cache_key`. -/
structure Contents where
  interpreter : Str
  version : Str
  requirements : List Str
  image : Option Str
  deriving DecidableEq

/-- `{requirement.strip() for requirement in requirements if requirement and requirement.strip()}` -/
def required (requirements : List Str) : List Str :=
  (requirements.map strip).filter fun requirement => requirement ≠ []

/-- The same in order, each once. -/
def unique (requirements : List Str) : List Str :=
  (required requirements).dedup.insertionSort fun p q => p ≤ q

/-- What an image is announced by. -/
def imageMark : Str := "image=".toList

/-- `";image=%s" % image`, if there is an image. -/
def imageText (image : Option Str) : Str :=
  match image with
  | none | some [] => []
  | some (c :: image) => ';' :: (imageMark ++ c :: image)

/-- What follows the version. -/
def installedText (requirements : List Str) (image : Option Str) : Str :=
  join ';' (unique requirements) ++ imageText image

/-- `environment_cache_key` -/
def environmentCacheKey (e : Contents) : Str :=
  e.interpreter ++ '=' :: '=' :: e.version ++ ';' :: installedText e.requirements e.image

/-- The two name one sandbox: an interpreter, a version, a set of requirements, none of them blank,
and an image. -/
structure Same (e e' : Contents) : Prop where
  interpreter : e.interpreter = e'.interpreter
  version : e.version = e'.version
  requirements : ∀ r, r ∈ required e.requirements ↔ r ∈ required e'.requirements
  image : e.image.getD [] = e'.image.getD []

/-! ## The requirements -/

theorem mem_required {rs : List Str} {r : Str} (h : r ∈ required rs) : r ≠ [] ∧ Trimmed r := by
  obtain ⟨hmem, hne⟩ := List.mem_filter.1 h
  obtain ⟨s, -, rfl⟩ := List.mem_map.1 hmem
  exact ⟨by simpa using hne, trimmed_strip s⟩

theorem mem_unique {rs : List Str} {r : Str} : r ∈ unique rs ↔ r ∈ required rs := by
  rw [unique, (List.perm_insertionSort _ _).mem_iff, List.mem_dedup]

theorem nodup_unique (rs : List Str) : (unique rs).Nodup :=
  (List.perm_insertionSort _ _).nodup_iff.2 (List.nodup_dedup _)

theorem pairwise_unique (rs : List Str) : (unique rs).Pairwise fun p q => p ≤ q := by
  have htotal : Std.Total fun p q : Str => p ≤ q := ⟨fun p q => Std.le_total⟩
  have htrans : IsTrans Str fun p q => p ≤ q := ⟨fun _ _ _ => Std.le_trans⟩
  exact List.pairwise_insertionSort _ _

/-- The list is that of the set. -/
theorem unique_eq_iff {rs rs' : List Str} :
    unique rs = unique rs' ↔ ∀ r, r ∈ required rs ↔ r ∈ required rs' := by
  constructor
  · intro h r
    rw [← mem_unique, ← mem_unique, h]
  · intro h
    have hperm : (unique rs).Perm (unique rs') := by
      rw [List.perm_ext_iff_of_nodup (nodup_unique rs) (nodup_unique rs')]
      intro r
      rw [mem_unique, mem_unique, h r]
    exact List.Perm.eq_of_pairwise (fun p q _ _ hle hge => Std.le_antisymm hle hge)
      (pairwise_unique rs) (pairwise_unique rs') hperm

theorem unique_singleton {r : Str} (hne : r ≠ []) (htrimmed : Trimmed r) : unique [r] = [r] := by
  have hrequired : required [r] = [r] := by
    rw [required, List.map_singleton, strip_eq_self_iff.2 htrimmed]
    simp [hne]
  rw [unique, hrequired, (List.nodup_singleton r).dedup]
  rfl

theorem trimmed_join_unique (rs : List Str) : Trimmed (join ';' (unique rs)) :=
  trimmed_join fun _ hr => mem_required (mem_unique.1 hr)

theorem imageText_eq (image : Option Str) :
    imageText image =
      if image.getD [] = [] then [] else ';' :: (imageMark ++ image.getD []) := by
  match image with
  | none => rfl
  | some [] => rfl
  | some (c :: image) => rfl

/-- **What the key depends on.** -/
theorem environmentCacheKey_congr {e e' : Contents} (h : Same e e') :
    environmentCacheKey e = environmentCacheKey e' := by
  rw [environmentCacheKey, environmentCacheKey, installedText, installedText, h.interpreter,
    h.version, unique_eq_iff.2 h.requirements, imageText_eq, imageText_eq, h.image]

/-! ## What can be read back -/

/-- Text that could follow a version: it has no blank ends, up to an image if there is one. -/
def CouldFollow (text : Str) : Prop :=
  Trimmed text ∨
    ∃ front image, image ≠ [] ∧ text = front ++ ';' :: (imageMark ++ image) ∧ Trimmed front

/-- **The text can be read in one way.**  There is no other `==` about the interpreter and the
version, and nothing after another semicolon could follow a version. -/
structure Unambiguous (e : Contents) : Prop where
  interpreter : ¬ ['=', '='] <:+: e.interpreter ++ ['=']
  version : ¬ ['=', '='] <:+: '=' :: e.version
  installed : ∀ front back,
    e.version ++ ';' :: installedText e.requirements e.image = front ++ ';' :: back →
      CouldFollow back → front = e.version

/-- Any text without blank ends is that of one requirement, or of none. -/
theorem exists_join_unique {text : Str} (h : Trimmed text) :
    ∃ rs, join ';' (unique rs) = text := by
  by_cases hnil : text = []
  · subst hnil
    exact ⟨[], rfl⟩
  · exact ⟨[text], by rw [unique_singleton hnil h]; rfl⟩

theorem couldFollow_iff {text : Str} :
    CouldFollow text ↔ ∃ rs image, installedText rs image = text := by
  constructor
  · rintro (h | ⟨front, image, hne, rfl, h⟩)
    · obtain ⟨rs, hrs⟩ := exists_join_unique h
      exact ⟨rs, none, by rw [installedText, hrs, imageText, List.append_nil]⟩
    · obtain ⟨rs, hrs⟩ := exists_join_unique h
      refine ⟨rs, some image, ?_⟩
      rw [installedText, hrs, imageText_eq, Option.getD_some, if_neg hne]
  · rintro ⟨rs, image, rfl⟩
    rw [installedText, imageText_eq]
    split
    · rw [List.append_nil]
      exact Or.inl (trimmed_join_unique rs)
    · rename_i hne
      exact Or.inr ⟨_, _, hne, rfl, trimmed_join_unique rs⟩

/-- An image can follow the version, and so can a requirement with one. -/
theorem couldFollow_imageText {text : Str} (h : Trimmed text) (image : Option Str) :
    CouldFollow (text ++ imageText image) := by
  obtain ⟨rs, hrs⟩ := exists_join_unique h
  exact couldFollow_iff.2 ⟨rs, image, by rw [installedText, hrs]⟩

/-- No text after a semicolon could follow a version. -/
def Alone (text : Str) : Prop := ∀ front back, text = front ++ ';' :: back → ¬ CouldFollow back

theorem Unambiguous.alone {e : Contents} (h : Unambiguous e) :
    Alone (installedText e.requirements e.image) := by
  intro front back heq hback
  have hversion := h.installed (e.version ++ ';' :: front) back (by rw [heq]; simp) hback
  have hlen := congrArg List.length hversion
  simp at hlen

/-- With two requirements, the last one could be all there is. -/
theorem Alone.length_le {rs : List Str} {image : Option Str} (h : Alone (installedText rs image)) :
    (unique rs).length ≤ 1 := by
  by_contra hlen
  obtain ⟨front, r, hunique⟩ : ∃ front r, unique rs = front ++ [r] := by
    rcases List.eq_nil_or_concat (unique rs) with hnil | ⟨front, r, hconcat⟩
    · simp [hnil] at hlen
    · exact ⟨front, r, by simpa using hconcat⟩
  have hfront : front ≠ [] := by
    rintro rfl
    simp [hunique] at hlen
  have hmem : r ∈ unique rs := by
    rw [hunique]
    exact List.mem_append_right _ (List.mem_singleton_self r)
  have hr : Trimmed r := (mem_required (mem_unique.1 hmem)).2
  refine h (join ';' front) (r ++ imageText image) ?_ (couldFollow_imageText hr image)
  rw [installedText, hunique, join_append ';' hfront (List.cons_ne_nil r [])]
  simp [join]

/-- At most one requirement can be read back. -/
theorem unique_eq_of_join_eq {rs rs' : List Str} (hlen : (unique rs).length ≤ 1)
    (hlen' : (unique rs').length ≤ 1) (h : join ';' (unique rs) = join ';' (unique rs')) :
    unique rs = unique rs' := by
  have hne : ∀ r ∈ unique rs, r ≠ [] := fun r hr => (mem_required (mem_unique.1 hr)).1
  have hne' : ∀ r ∈ unique rs', r ≠ [] := fun r hr => (mem_required (mem_unique.1 hr)).1
  match hrs : unique rs, hrs' : unique rs' with
  | [], rs₂ =>
    rw [hrs, hrs'] at h
    rw [hrs'] at hne'
    exact (join_eq_nil hne' h.symm).symm
  | [r], [] =>
    rw [hrs, hrs'] at h
    rw [hrs] at hne
    exact join_eq_nil hne h
  | [r], [r'] =>
    rw [hrs, hrs'] at h
    exact congrArg (fun r => [r]) h
  | r :: r₂ :: rs₂, _ => simp [hrs] at hlen
  | [r], r₁ :: r₂ :: rs₂ => simp [hrs'] at hlen'

/-- An image that is read in two places leaves text between them that could follow a version. -/
theorem eq_of_append_image {front front' image image' : Str} (hfront' : Trimmed front')
    (hne' : image' ≠ []) (halone : Alone (front' ++ ';' :: (imageMark ++ image'))) (hlen : front.length ≤ front'.length)
    (h : front ++ ';' :: (imageMark ++ image) = front' ++ ';' :: (imageMark ++ image')) :
    front = front' ∧ image = image' := by
  obtain ⟨mid, hmid, htail⟩ : ∃ mid, front' = front ++ mid ∧
      ';' :: (imageMark ++ image) = mid ++ ';' :: (imageMark ++ image') := by
    rcases List.append_eq_append_iff.1 h with ⟨mid, hmid, htail⟩ | ⟨mid, hmid, htail⟩
    · exact ⟨mid, hmid, htail⟩
    · have hnil : mid = [] := by
        have hlength := congrArg List.length hmid
        simp only [List.length_append] at hlength
        exact List.length_eq_zero_iff.1 (by omega)
      subst hnil
      exact ⟨[], by simpa using hmid.symm, by simpa using htail.symm⟩
  cases mid with
  | nil =>
    refine ⟨by simpa using hmid.symm, ?_⟩
    rw [List.nil_append] at htail
    exact List.append_cancel_left (List.cons.inj htail).2
  | cons c word =>
    -- a semicolon, and a word that begins with the first letter of `image`
    obtain ⟨hc, hword⟩ := List.cons.inj htail
    cases word with
    | nil => exact absurd (List.cons.inj hword).1 (by decide)
    | cons d word =>
      obtain ⟨hd, -⟩ := List.cons.inj hword
      have htrimmed : Trimmed (d :: word) := by
        refine ⟨fun x hx => ?_, fun x hx => ?_⟩
        · rw [← hd] at hx
          obtain rfl : 'i' = x := Option.some.inj hx
          rfl
        · refine hfront'.back x ?_
          rw [hmid, List.getLast?_append_of_ne_nil _ (List.cons_ne_nil _ _),
            List.getLast?_cons_cons]
          exact hx
      refine absurd (Or.inr ⟨d :: word, image', hne', rfl, htrimmed⟩) (halone front _ ?_)
      rw [hmid, ← hc, List.append_assoc]
      rfl

/-- An image that ends the text could be all that there is. -/
theorem not_alone_of_trimmed {front image : Str}
    (h : Trimmed (front ++ ';' :: (imageMark ++ image))) :
    ¬ Alone (front ++ ';' :: (imageMark ++ image)) := by
  intro halone
  refine halone front (imageMark ++ image) rfl (Or.inl ⟨fun x hx => ?_, fun x hx => ?_⟩)
  · obtain rfl : 'i' = x := Option.some.inj hx
    rfl
  · refine h.back x ?_
    rw [List.getLast?_append_of_ne_nil _ (List.cons_ne_nil _ _)]
    exact hx

/-- Without an image, none is read. -/
theorem image_eq_nil {rs rs' : List Str} {image image' : Option Str}
    (halone : Alone (installedText rs image))
    (h : installedText rs image = installedText rs' image') (hnil : image.getD [] = []) :
    image'.getD [] = [] := by
  by_contra hnil'
  have htext : installedText rs' image' =
      join ';' (unique rs') ++ ';' :: (imageMark ++ image'.getD []) := by
    rw [installedText, imageText_eq, if_neg hnil']
  have htrimmed : Trimmed (installedText rs image) := by
    rw [installedText, imageText_eq, if_pos hnil, List.append_nil]
    exact trimmed_join_unique rs
  rw [h, htext] at halone htrimmed
  exact not_alone_of_trimmed htrimmed halone

/-- **The text can be read in one way**, when nothing after a semicolon in it could follow a
version. -/
theorem installedText_inj {rs rs' : List Str} {image image' : Option Str}
    (halone : Alone (installedText rs image))
    (h : installedText rs image = installedText rs' image') :
    unique rs = unique rs' ∧ image.getD [] = image'.getD [] := by
  have halone' : Alone (installedText rs' image') := h ▸ halone
  have hlen := halone.length_le
  have hlen' := halone'.length_le
  by_cases hnil : image.getD [] = []
  · have hnil' := image_eq_nil halone h hnil
    rw [installedText, installedText, imageText_eq, imageText_eq, if_pos hnil, if_pos hnil',
      List.append_nil, List.append_nil] at h
    exact ⟨unique_eq_of_join_eq hlen hlen' h, by rw [hnil, hnil']⟩
  · have hnil' : image'.getD [] ≠ [] := fun hnil' => hnil (image_eq_nil halone' h.symm hnil')
    rw [installedText, imageText_eq, if_neg hnil] at halone h
    rw [installedText, imageText_eq, if_neg hnil'] at halone' h
    rcases Nat.le_total (join ';' (unique rs)).length (join ';' (unique rs')).length with hle | hle
    · obtain ⟨hjoin, himage⟩ := eq_of_append_image (trimmed_join_unique rs') hnil' halone' hle h
      exact ⟨unique_eq_of_join_eq hlen hlen' hjoin, himage⟩
    · obtain ⟨hjoin, himage⟩ := eq_of_append_image (trimmed_join_unique rs) hnil halone hle h.symm
      exact ⟨unique_eq_of_join_eq hlen hlen' hjoin.symm, himage.symm⟩

/-! ## The interpreter and its version -/

/-- A name that goes on where the other has ended holds another `==`. -/
theorem eqs_of_longer {name name' mid version rest : Str} {c : Char} (hname : name = name' ++ c :: mid)
    (h : '=' :: '=' :: rest = c :: mid ++ '=' :: '=' :: version) :
    ['=', '='] <:+: name ++ ['='] := by
  obtain ⟨rfl, hrest⟩ := List.cons.inj h
  cases mid with
  | nil => exact ⟨name', [], by rw [hname]; simp⟩
  | cons d mid =>
    obtain ⟨rfl, -⟩ := List.cons.inj hrest
    exact ⟨name', mid ++ ['='], by rw [hname]; simp⟩

/-- The interpreter ends at the only `==`. -/
theorem eq_of_append_eqs {name name' version rest : Str} (hname : ¬ ['=', '='] <:+: name ++ ['='])
    (hversion : ¬ ['=', '='] <:+: '=' :: version)
    (h : name ++ '=' :: '=' :: version = name' ++ '=' :: '=' :: rest) :
    name = name' ∧ version = rest := by
  rcases List.append_eq_append_iff.1 h with ⟨mid, hmid, htail⟩ | ⟨mid, hmid, htail⟩
  · cases mid with
    | nil => exact ⟨by simpa using hmid.symm, by simpa using htail⟩
    | cons c mid =>
      obtain ⟨-, htail⟩ := List.cons.inj htail
      exact absurd ⟨mid, rest, by rw [htail]; simp⟩ hversion
  · cases mid with
    | nil => exact ⟨by simpa using hmid, by simpa using htail.symm⟩
    | cons c mid => exact absurd (eqs_of_longer hmid htail) hname

/-- Another `==` can be read as the end of an interpreter. -/
theorem exists_append_eqs {name version : Str}
    (h : ['=', '='] <:+: name ++ ['='] ∨ ['=', '='] <:+: '=' :: version) :
    ∃ name' version', name' ≠ name ∧
      name' ++ '=' :: '=' :: version' = name ++ '=' :: '=' :: version := by
  rcases h with ⟨front, back, heq⟩ | ⟨front, back, heq⟩
  · refine ⟨front, back ++ '=' :: version, ?_, ?_⟩
    · rintro rfl
      have hlen := congrArg List.length heq
      simp only [List.length_append, List.length_cons, List.length_nil] at hlen
      omega
    · have htext := congrArg (fun text => text ++ '=' :: version) heq
      simpa using htext
  · refine ⟨name ++ '=' :: front, back, ?_, ?_⟩
    · intro hname
      have hlen := congrArg List.length hname
      simp at hlen
    · have htext := congrArg (fun text => name ++ '=' :: text) heq
      simpa using htext

/-! ## Sandboxes that share a key -/

/-- **A text that can be read in one way** is that of one sandbox. -/
theorem Unambiguous.same {e e' : Contents} (h : Unambiguous e)
    (hkey : environmentCacheKey e' = environmentCacheKey e) : Same e' e := by
  have hfollow : CouldFollow (installedText e'.requirements e'.image) :=
    couldFollow_iff.2 ⟨_, _, rfl⟩
  rw [environmentCacheKey, environmentCacheKey] at hkey
  rcases List.append_eq_append_iff.1 hkey.symm with ⟨mid, hhead, htail⟩ | ⟨mid, hhead, htail⟩
  · cases mid with
    | nil =>
      rw [List.append_nil] at hhead
      obtain ⟨hinterpreter, hversion⟩ := eq_of_append_eqs h.interpreter h.version hhead.symm
      obtain ⟨hunique, himage⟩ := installedText_inj h.alone (List.cons.inj htail).2
      exact ⟨hinterpreter.symm, hversion.symm, fun r => (unique_eq_iff.1 hunique r).symm,
        himage.symm⟩
    | cons c mid => exact absurd hfollow (h.alone mid _ (List.cons.inj htail).2)
  · cases mid with
    | nil =>
      rw [List.append_nil] at hhead
      obtain ⟨hinterpreter, hversion⟩ := eq_of_append_eqs h.interpreter h.version hhead
      obtain ⟨hunique, himage⟩ := installedText_inj h.alone (List.cons.inj htail).2.symm
      exact ⟨hinterpreter.symm, hversion.symm, fun r => (unique_eq_iff.1 hunique r).symm,
        himage.symm⟩
    | cons c mid =>
      -- the version of the one goes on where that of the other has ended
      obtain ⟨rfl, htail⟩ := List.cons.inj htail
      rw [List.append_assoc] at hhead
      obtain ⟨-, hversion⟩ := eq_of_append_eqs h.interpreter h.version hhead
      have hsplit : e'.version = e.version :=
        h.installed e'.version _ (by rw [hversion, htail]; simp) hfollow
      have hlen := congrArg List.length hversion
      rw [hsplit] at hlen
      simp at hlen

/-- A text that can be read in another way is that of another sandbox. -/
theorem exists_not_same {e : Contents} (h : ¬ Unambiguous e) :
    ∃ e', environmentCacheKey e' = environmentCacheKey e ∧ ¬ Same e' e := by
  by_cases heqs : ['=', '='] <:+: e.interpreter ++ ['='] ∨ ['=', '='] <:+: '=' :: e.version
  · obtain ⟨interpreter, version, hne, heq⟩ := exists_append_eqs heqs
    refine ⟨⟨interpreter, version, e.requirements, e.image⟩, ?_, fun hsame => hne hsame.interpreter⟩
    rw [environmentCacheKey, environmentCacheKey, heq]
  · rw [not_or] at heqs
    have hinstalled : ¬ ∀ front back,
        e.version ++ ';' :: installedText e.requirements e.image = front ++ ';' :: back →
          CouldFollow back → front = e.version := fun hall => h ⟨heqs.1, heqs.2, hall⟩
    push Not at hinstalled
    obtain ⟨front, back, heq, hback, hne⟩ := hinstalled
    obtain ⟨rs, image, rfl⟩ := couldFollow_iff.1 hback
    refine ⟨⟨e.interpreter, front, rs, image⟩, ?_, fun hsame => hne hsame.version⟩
    rw [environmentCacheKey, environmentCacheKey, List.append_assoc, List.append_assoc]
    simp only [List.cons_append, heq]

/-- **The key of a sandbox** is that of no other one, if and only if its text can be read in one
way. -/
theorem key_iff (e : Contents) :
    (∀ e', environmentCacheKey e' = environmentCacheKey e ↔ Same e' e) ↔ Unambiguous e := by
  constructor
  · intro h
    by_contra hnot
    obtain ⟨e', hkey, hsame⟩ := exists_not_same hnot
    exact hsame ((h e').1 hkey)
  · intro h e'
    exact ⟨h.same, environmentCacheKey_congr⟩

/-- With two requirements or more there is always another one, of which they are the halves. -/
theorem not_unambiguous_of_two {e : Contents} (h : 1 < (unique e.requirements).length) :
    ¬ Unambiguous e := fun hunambiguous =>
  absurd hunambiguous.alone.length_le (Nat.not_le.2 h)

/-- A package from an address with a semicolon in it, and one from an address and another package. -/
theorem shared_address : ¬ ∀ e e', environmentCacheKey e = environmentCacheKey e' ↔ Same e e' := by
  intro h
  let whole : Contents :=
    ⟨"python".toList, "3.11".toList, ["a @ https://host/x;b".toList], none⟩
  let halves : Contents :=
    ⟨"python".toList, "3.11".toList, ["a @ https://host/x".toList, "b".toList], none⟩
  have hkey : environmentCacheKey whole = environmentCacheKey halves := by decide
  have hmem : "b".toList ∈ required halves.requirements := by decide
  have hnotMem : "b".toList ∉ required whole.requirements := by decide
  exact hnotMem ((((h whole halves).1 hkey).requirements _).2 hmem)

/-! ## Sandboxes without separators in their parts -/

/-- The parts hold none of the separators. -/
structure Plain (e : Contents) : Prop where
  interpreter : ¬ ['=', '='] <:+: e.interpreter ++ ['=']
  version : ';' ∉ e.version
  requirements : ∀ r ∈ required e.requirements, ';' ∉ r ∧ ¬ imageMark <+: r

theorem split_append {c : Char} {p : Str} (h : c ∉ p) (s : Str) :
    ∃ q qs, split c (p ++ s) = (p ++ q) :: qs := by
  by_cases hs : c ∈ s
  · have hfront : c ∉ p ++ (partition c s).1 := by
      rw [List.mem_append, not_or]
      exact ⟨h, notMem_partition_fst c s⟩
    refine ⟨(partition c s).1, split c (partition c s).2, ?_⟩
    conv_lhs => rw [partition_eq hs, ← List.append_assoc, split_append_cons, split_of_notMem hfront]
    rfl
  · refine ⟨s, [], split_of_notMem ?_⟩
    rw [List.mem_append, not_or]
    exact ⟨h, hs⟩

/-- What is installed is what comes before an image. -/
theorem takeWhile_split {e : Contents} (h : Plain e) :
    (split ';' (installedText e.requirements e.image)).takeWhile
        (fun piece => !imageMark.isPrefixOf piece) =
      split ';' (join ';' (unique e.requirements)) := by
  have hplain : ∀ r ∈ unique e.requirements, ';' ∉ r ∧ ¬ imageMark <+: r :=
    fun r hr => h.requirements r (mem_unique.1 hr)
  have hpieces : ∀ piece ∈ split ';' (join ';' (unique e.requirements)),
      (!imageMark.isPrefixOf piece) = true := by
    intro piece hpiece
    by_cases hnil : unique e.requirements = []
    · rw [hnil] at hpiece
      rw [List.mem_singleton.1 hpiece]
      rfl
    · rw [split_join (fun r hr => (hplain r hr).1) hnil] at hpiece
      rw [Bool.not_eq_true', Bool.eq_false_iff, ne_eq, List.isPrefixOf_iff_prefix]
      exact (hplain piece hpiece).2
  rw [installedText, imageText_eq]
  by_cases himage : e.image.getD [] = []
  · rw [if_pos himage, List.append_nil, List.takeWhile_eq_self_iff.2 hpieces]
  · rw [if_neg himage, split_append_cons, List.takeWhile_append_of_pos hpieces]
    obtain ⟨q, qs, hsplit⟩ := split_append (c := ';') (p := imageMark) (by decide) (e.image.getD [])
    rw [hsplit, List.takeWhile_cons_of_neg (by simp), List.append_nil]

/-- Two names without another `==` end at the same place. -/
theorem eq_of_append_eqs_eqs {name name' rest rest' : Str} (hname : ¬ ['=', '='] <:+: name ++ ['='])
    (hname' : ¬ ['=', '='] <:+: name' ++ ['='])
    (h : name ++ '=' :: '=' :: rest = name' ++ '=' :: '=' :: rest') :
    name = name' ∧ rest = rest' := by
  rcases List.append_eq_append_iff.1 h with ⟨mid, hmid, htail⟩ | ⟨mid, hmid, htail⟩
  · cases mid with
    | nil => exact ⟨by simpa using hmid.symm, by simpa using htail⟩
    | cons c mid => exact absurd (eqs_of_longer hmid htail) hname'
  · cases mid with
    | nil => exact ⟨by simpa using hmid, by simpa using htail.symm⟩
    | cons c mid => exact absurd (eqs_of_longer hmid htail) hname

/-- The announced image is all that is announced. -/
theorem getD_eq_of_imageText {image image' : Option Str} (h : imageText image = imageText image') :
    image.getD [] = image'.getD [] := by
  rw [imageText_eq, imageText_eq] at h
  by_cases hnil : image.getD [] = [] <;> by_cases hnil' : image'.getD [] = []
  · rw [hnil, hnil']
  · rw [if_pos hnil, if_neg hnil'] at h
    exact absurd h (by simp)
  · rw [if_neg hnil, if_pos hnil'] at h
    exact absurd h (by simp)
  · rw [if_neg hnil, if_neg hnil'] at h
    exact List.append_cancel_left (List.cons.inj h).2

/-- **Sandboxes without separators in their parts** are told apart by their keys. -/
theorem key_iff_of_plain {e e' : Contents} (h : Plain e) (h' : Plain e') :
    environmentCacheKey e = environmentCacheKey e' ↔ Same e e' := by
  refine ⟨fun hkey => ?_, environmentCacheKey_congr⟩
  rw [environmentCacheKey, environmentCacheKey, List.append_assoc, List.append_assoc] at hkey
  obtain ⟨hinterpreter, hrest⟩ := eq_of_append_eqs_eqs h.interpreter h'.interpreter hkey
  have hparts := congrArg (partition ';') hrest
  simp only [List.append_eq] at hparts
  rw [partition_append_cons _ h.version, partition_append_cons _ h'.version] at hparts
  obtain ⟨hversion, hinstalled⟩ := Prod.mk.inj hparts
  have hsplit := takeWhile_split h
  rw [hinstalled, takeWhile_split h'] at hsplit
  have hjoin : join ';' (unique e.requirements) = join ';' (unique e'.requirements) := by
    rw [← join_split ';' (join ';' (unique e.requirements)), ← hsplit, join_split]
  have hpieces : ∀ {c : Contents}, Plain c → ∀ r ∈ unique c.requirements, r ≠ [] ∧ ';' ∉ r :=
    fun hc r hr => ⟨(mem_required (mem_unique.1 hr)).1, (hc.requirements r (mem_unique.1 hr)).1⟩
  rw [installedText, installedText, hjoin] at hinstalled
  exact ⟨hinterpreter, hversion, unique_eq_iff.1 (join_injective (hpieces h) (hpieces h') hjoin),
    getD_eq_of_imageText (List.append_cancel_left hinstalled)⟩

end PartCAD.Sandbox
