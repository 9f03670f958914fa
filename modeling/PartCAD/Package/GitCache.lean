import PartCAD.Package.GitClone

/-!
# The cache directories of git imports

The directory of an import is named by the first digits of the hash of its address, and by its
revision, if it has one.  What may not stand in the name of a directory is replaced in the revision.

* `cachePath` : the directory of an address and a revision;
* `displayRev_eq_self_iff` : the revisions that are left as they are;
* `cachePath_iff` : the imports that share their directory with no other one.
-/

namespace PartCAD.GitClone

open PartCAD.Lib PartCAD.Lib.Text

/-! ## Directories -/

/-- `display_rev`; the flag says that `os.name` is `nt`, where `os.path.sep` is a backslash. -/
def displayRev (nt : Bool) (revision : Str) : Str :=
  let displayRev := replace ['/'] "-slash-".toList revision
  if nt then replace ['\\'] "-sep-".toList displayRev else displayRev

/-- `hexdigest()[:16]` of the address -/
def urlDigest (hexdigest : Bytes → Str) (repoUrl : Str) : Str := (hexdigest (encode repoUrl)).take 16

/-- `repo_hash` -/
def repoHash (hexdigest : Bytes → Str) (nt : Bool) (repoUrl : Str) (importRevision : Option Str) : Str :=
  match importRevision with
  | none => urlDigest hexdigest repoUrl
  | some revision => urlDigest hexdigest repoUrl ++ '-' :: displayRev nt revision

/-- `cache_path` -/
def cachePath (hexdigest : Bytes → Str) (nt : Bool) (cacheDir repoUrl : Str)
    (importRevision : Option Str) : Str :=
  joinPath cacheDir (repoHash hexdigest nt repoUrl importRevision)

/-! ## Revisions -/

/-- The text that takes the place of a character. -/
def shown (nt : Bool) (c : Char) : Str :=
  if c = '/' then "-slash-".toList else if nt ∧ c = '\\' then "-sep-".toList else [c]

theorem displayRev_eq (nt : Bool) (revision : Str) :
    displayRev nt revision = revision.flatMap (shown nt) := by
  unfold displayRev
  dsimp only
  rw [replace_singleton, replace_singleton]
  cases nt with
  | false =>
    have hshown : (fun c => if c = '/' then "-slash-".toList else [c]) = shown false := by
      funext c
      rw [shown, if_neg fun h : false = true ∧ c = '\\' => Bool.false_ne_true h.1]
    rw [if_neg Bool.false_ne_true, hshown]
  | true =>
    rw [if_pos rfl, List.flatMap_assoc]
    congr 1
    funext c
    by_cases hc : c = '/'
    · subst hc
      decide
    · rw [if_neg hc, shown, if_neg hc]
      simp only [List.flatMap_cons, List.flatMap_nil, List.append_nil, true_and]

theorem displayRev_append (nt : Bool) (a b : Str) :
    displayRev nt (a ++ b) = displayRev nt a ++ displayRev nt b := by
  rw [displayRev_eq, displayRev_eq, displayRev_eq, List.flatMap_append]

/-- Nothing in the revision is replaced, and nothing in it looks as if it had been. -/
def Plain (nt : Bool) (revision : Str) : Prop :=
  ∀ c, shown nt c ≠ [c] → c ∉ revision ∧ ¬ shown nt c <:+: revision

/-- No slash, and no text that is put in the place of one; on Windows no backslash either. -/
theorem plain_iff (nt : Bool) (revision : Str) :
    Plain nt revision ↔ ('/' ∉ revision ∧ ¬ "-slash-".toList <:+: revision) ∧
      (nt = true → '\\' ∉ revision ∧ ¬ "-sep-".toList <:+: revision) := by
  constructor
  · intro h
    refine ⟨h '/' (by cases nt <;> decide), ?_⟩
    rintro rfl
    exact h '\\' (by decide)
  · rintro ⟨hslash, hsep⟩ c hc
    by_cases hc' : c = '/'
    · subst hc'
      exact hslash
    · by_cases hbackslash : nt = true ∧ c = '\\'
      · obtain ⟨rfl, rfl⟩ := hbackslash
        exact hsep rfl
      · rw [shown, if_neg hc', if_neg hbackslash] at hc
        exact absurd rfl hc

theorem displayRev_of_notMem {nt : Bool} {revision : Str}
    (h : ∀ c, shown nt c ≠ [c] → c ∉ revision) : displayRev nt revision = revision := by
  rw [displayRev_eq]
  induction revision with
  | nil => rfl
  | cons a s ih =>
    have ha : shown nt a = [a] := by
      by_contra hne
      exact h a hne List.mem_cons_self
    rw [List.flatMap_cons, ha, ih fun c hc hmem => h c hc (List.mem_cons_of_mem _ hmem)]
    rfl

/-- What is put in the place of a character is left alone itself. -/
theorem displayRev_shown (nt : Bool) (c : Char) (h : shown nt c ≠ [c]) :
    displayRev nt (shown nt c) = shown nt c := by
  unfold shown at h ⊢
  by_cases hslash : c = '/'
  · subst hslash
    cases nt with
    | false => decide
    | true => decide
  · by_cases hsep : nt = true ∧ c = '\\'
    · obtain ⟨rfl, rfl⟩ := hsep
      decide
    · rw [if_neg hslash, if_neg hsep] at h
      exact absurd rfl h

/-- **A plain revision is shown like no other.** -/
theorem displayRev_iff (nt : Bool) (revision : Str) :
    (∀ other, displayRev nt other = displayRev nt revision → other = revision) ↔ Plain nt revision := by
  constructor
  · intro hunique c hc
    have hsingle : displayRev nt [c] = shown nt c := by
      rw [displayRev_eq, List.flatMap_singleton]
    refine ⟨fun hmem => ?_, fun hinfix => ?_⟩
    · -- the character and the text for it are shown alike
      obtain ⟨a, b, rfl⟩ := List.append_of_mem hmem
      have hsame : displayRev nt (a ++ (shown nt c ++ b)) = displayRev nt (a ++ c :: b) := by
        rw [← List.singleton_append, displayRev_append, displayRev_append, displayRev_append,
          displayRev_append, displayRev_shown nt c hc, hsingle]
      have heq := List.append_cancel_left (hunique _ hsame)
      rw [← List.singleton_append] at heq
      exact hc (List.append_cancel_right heq)
    · obtain ⟨a, b, rfl⟩ := hinfix
      have hsame : displayRev nt (a ++ ([c] ++ b)) = displayRev nt (a ++ shown nt c ++ b) := by
        rw [displayRev_append, displayRev_append, displayRev_append, displayRev_append,
          displayRev_shown nt c hc, hsingle, List.append_assoc]
      have heq := hunique _ hsame
      rw [List.append_assoc] at heq
      exact hc (List.append_cancel_right (List.append_cancel_left heq)).symm
  · intro hplain other hsame
    rw [displayRev_of_notMem fun c hc => (hplain c hc).1] at hsame
    rw [← hsame]
    refine (displayRev_of_notMem fun c hc hmem => ?_).symm
    -- a character that is replaced leaves its text behind
    apply (hplain c hc).2
    obtain ⟨a, b, rfl⟩ := List.append_of_mem hmem
    rw [← hsame, displayRev_eq, List.flatMap_append, List.flatMap_cons]
    exact ⟨_, _, (List.append_assoc _ _ _)⟩

/-! ## Imports -/

section

variable {hexdigest : Bytes → Str} (hhex : ∀ b, 16 ≤ (hexdigest b).length ∧ '/' ∉ hexdigest b)

include hhex

theorem length_urlDigest (url : Str) : (urlDigest hexdigest url).length = 16 := by
  rw [urlDigest, List.length_take]
  exact min_eq_left (hhex _).1

theorem head_repoHash (nt : Bool) (url : Str) (revision : Option Str) :
    (repoHash hexdigest nt url revision).head? ≠ some '/' := by
  have hlength := length_urlDigest hhex url
  have hnotMem : '/' ∉ urlDigest hexdigest url := fun h => (hhex _).2 (List.mem_of_mem_take h)
  have hbegin : urlDigest hexdigest url <+: repoHash hexdigest nt url revision := by
    cases revision with
    | none => exact List.prefix_refl _
    | some revision => exact List.prefix_append _ _
  obtain ⟨rest, hrest⟩ := hbegin
  cases hdigest : urlDigest hexdigest url with
  | nil =>
    rw [hdigest] at hlength
    exact absurd hlength (by decide)
  | cons a s =>
    rw [← hrest, hdigest, List.cons_append, List.head?_cons]
    intro h
    rw [hdigest, Option.some.inj h] at hnotMem
    exact hnotMem List.mem_cons_self

theorem cachePath_inj {nt : Bool} {cacheDir url url' : Str} {revision revision' : Option Str} :
    cachePath hexdigest nt cacheDir url' revision' = cachePath hexdigest nt cacheDir url revision ↔
      repoHash hexdigest nt url' revision' = repoHash hexdigest nt url revision := by
  refine ⟨fun h => ?_, fun h => by rw [cachePath, h, cachePath]⟩
  unfold cachePath joinPath at h
  rw [if_neg (head_repoHash hhex nt url' revision'), if_neg (head_repoHash hhex nt url revision)] at h
  split at h
  · exact List.append_cancel_left h
  · exact (List.cons.inj (List.append_cancel_left h)).2

theorem repoHash_inj {nt : Bool} {url url' : Str} {revision revision' : Option Str} :
    repoHash hexdigest nt url' revision' = repoHash hexdigest nt url revision ↔
      urlDigest hexdigest url' = urlDigest hexdigest url ∧
        revision'.map (displayRev nt) = revision.map (displayRev nt) := by
  have hlength := (length_urlDigest hhex url').trans (length_urlDigest hhex url).symm
  cases revision' with
  | none =>
    cases revision with
    | none => simp [repoHash]
    | some r =>
      refine iff_of_false (fun h => ?_) (by simp)
      have h := congrArg List.length h
      simp only [repoHash, List.length_append, List.length_cons] at h
      omega
  | some r' =>
    cases revision with
    | none =>
      refine iff_of_false (fun h => ?_) (by simp)
      have h := congrArg List.length h
      simp only [repoHash, List.length_append, List.length_cons] at h
      omega
    | some r =>
      simp only [repoHash, Option.map_some, Option.some.injEq]
      constructor
      · intro h
        obtain ⟨hdigest, hrevision⟩ := List.append_inj h hlength
        exact ⟨hdigest, (List.cons.inj hrevision).2⟩
      · rintro ⟨hdigest, hrevision⟩
        rw [hdigest, hrevision]

/-- **An import shares its directory with no other one** just when its revision is plain. -/
theorem cachePath_iff {urls : Set Str} (hfree : Set.InjOn (urlDigest hexdigest) urls) (nt : Bool)
    (cacheDir : Str) {url : Str} (hurl : url ∈ urls) (revision : Option Str) :
    (∀ url' ∈ urls, ∀ revision',
        cachePath hexdigest nt cacheDir url' revision' = cachePath hexdigest nt cacheDir url revision →
          (url', revision') = (url, revision)) ↔
      ∀ r ∈ revision, Plain nt r := by
  simp only [cachePath_inj hhex, repoHash_inj hhex]
  constructor
  · intro hunique r hr
    obtain rfl := Option.mem_def.1 hr
    refine (displayRev_iff nt r).1 fun other hsame => ?_
    have h := hunique url hurl (some other) ⟨rfl, congrArg some hsame⟩
    exact Option.some.inj (Prod.mk.inj h).2
  · rintro hplain url' hurl' revision' ⟨hdigest, hrevision⟩
    obtain rfl := hfree hurl' hurl hdigest
    cases revision with
    | none =>
      rw [Option.map_none, Option.map_eq_none_iff] at hrevision
      rw [hrevision]
    | some r =>
      obtain ⟨r', rfl, hsame⟩ := Option.map_eq_some_iff.1 hrevision
      rw [(displayRev_iff nt r).2 (hplain r rfl) r' hsame]

end

/-- A hash in which the address can still be seen. -/
def readableHash (b : Bytes) : Str :=
  (b.map fun x => if x = 97 then 'a' else 'b') ++ List.replicate 16 '0'

theorem readableHash_hex (b : Bytes) : 16 ≤ (readableHash b).length ∧ '/' ∉ readableHash b := by
  refine ⟨?_, ?_⟩
  · rw [readableHash, List.length_append, List.length_replicate]
    exact Nat.le_add_left _ _
  · intro h
    rcases List.mem_append.1 h with h | h
    · obtain ⟨x, -, hx⟩ := List.mem_map.1 h
      split at hx
      · exact absurd hx (by decide)
      · exact absurd hx (by decide)
    · exact absurd (List.eq_of_mem_replicate h) (by decide)

/-- Of two repositories, with a branch that has a plain name. -/
theorem cachePath_main :
    cachePath readableHash false "git".toList ['b'] (some "main".toList) ≠
      cachePath readableHash false "git".toList ['a'] (some "main".toList) := by
  intro hsame
  have hfree : Set.InjOn (urlDigest readableHash) {['a'], ['b']} := by
    intro a ha b hb hab
    rcases ha with rfl | rfl
    · rcases hb with rfl | rfl
      · rfl
      · exact absurd hab (by decide)
    · rcases hb with rfl | rfl
      · exact absurd hab (by decide)
      · rfl
  have hplain : ∀ r ∈ some "main".toList, Plain false r := by
    rintro r ⟨⟩
    exact (plain_iff false _).2 (by decide)
  have hsame := (cachePath_iff readableHash_hex hfree false "git".toList (Set.mem_insert _ _)
    (some "main".toList)).2 hplain ['b'] (Set.mem_insert_of_mem _ rfl) (some "main".toList) hsame
  exact absurd (Prod.mk.inj hsame).1 (by decide)

/-- A branch with a slash, and one that is spelled as the slash is shown. -/
theorem shared_slash :
    ¬ ∀ url ∈ ({['a']} : Set Str), ∀ url' ∈ ({['a']} : Set Str), ∀ revision revision',
      cachePath readableHash false "git".toList url' revision' =
          cachePath readableHash false "git".toList url revision →
        (url', revision') = (url, revision) := by
  intro h
  have heq := h ['a'] rfl ['a'] rfl (some "a/b".toList) (some "a-slash-b".toList) (by decide)
  exact absurd heq (by decide)

end PartCAD.GitClone
