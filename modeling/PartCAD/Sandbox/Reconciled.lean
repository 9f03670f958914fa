import PartCAD.Sandbox.Requirements

/-!
# Requirements that are held to a pinned version

A requirement is a name with extras, versions or an address, and a marker, in the grammar of its standard.

* `Requirement`, `Requirement.text` : what may be asked for;
* `distributionName_text` : the name that is read out of it;
* `reconcileRequirement_twice` : a requirement is reconciled once;
* `reconciled_iff` : **where a pinned version takes the place of the one that is asked for**.
-/

namespace PartCAD.Sandbox

open PartCAD.Lib PartCAD.Lib.Text

/-! ## The grammar -/

/-- White space of the grammar. -/
def Blank : Type := { s : Str // ∀ c ∈ s, c = ' ' ∨ c = '\t' }

/-- The name of a distribution or of an extra. -/
structure Identifier where
  text : Str
  first : ∃ c ∈ text.head?, c.isAlphanum
  last : ∃ c ∈ text.getLast?, c.isAlphanum
  all : ∀ c ∈ text, c.isAlphanum ∨ c ∈ ['-', '_', '.']

/-- `version_cmp` -/
inductive Comparison
  | le
  | lt
  | ne
  | eq
  | ge
  | gt
  | compatible
  | arbitrary
  deriving DecidableEq

def Comparison.text : Comparison → Str
  | .le => ['<', '=']
  | .lt => ['<']
  | .ne => ['!', '=']
  | .eq => ['=', '=']
  | .ge => ['>', '=']
  | .gt => ['>']
  | .compatible => ['~', '=']
  | .arbitrary => ['=', '=', '=']

/-- `version_one` -/
structure Clause where
  lead : Blank
  comparison : Comparison
  gap : Blank
  version : Str
  nonempty : version ≠ []
  all : ∀ c ∈ version, c.isAlphanum ∨ c ∈ ['-', '_', '.', '*', '+', '!']

def Clause.text (clause : Clause) : Str :=
  clause.lead.1 ++ (clause.comparison.text ++ (clause.gap.1 ++ clause.version))

/-- `version_many` -/
structure Versions where
  first : Clause
  rest : List (Blank × Clause)

def Versions.text (versions : Versions) : Str :=
  versions.first.text ++ versions.rest.flatMap fun (gap, clause) => gap.1 ++ (',' :: clause.text)

/-- `extras` -/
structure Extras where
  lead : Blank
  names : List (Blank × Identifier × Blank)

def Extras.text (extras : Extras) : Str :=
  '[' :: (extras.lead.1 ++
    (join ',' (extras.names.map fun (lead, name, back) => lead.1 ++ (name.text ++ back.1)) ++ [']']))

/-- A character of an address. -/
def addressChar (c : Char) : Bool := c.isAlphanum || c ∈ "-._~:/?#[]@!$&'()*+,;=%".toList

/-- What stands behind the name and the extras. -/
inductive Source
  | anything
  | bare (versions : Versions)
  | bracketed (versions : Versions) (back : Blank)
  | url (gap : Blank) (address : Str) (all : ∀ c ∈ address, addressChar c = true)

def Source.text : Source → Str
  | .anything => []
  | .bare versions => versions.text
  | .bracketed versions back => '(' :: (versions.text ++ (back.1 ++ [')']))
  | .url gap address _ => '@' :: (gap.1 ++ address)

def Source.isUrl : Source → Bool
  | .url .. => true
  | _ => false

/-- A requirement.  The marker is any text that is not blank, and it stands apart from an address. -/
structure Requirement where
  lead : Blank
  name : Identifier
  gap : Blank
  extras : Option Extras
  gap' : Blank
  source : Source
  back : Blank
  marker : Option { s : Str // strip s ≠ [] }
  apart : source.isUrl = true → marker ≠ none → back.1 ≠ []

namespace Requirement

variable (r : Requirement)

/-- What stands between the name and the marker. -/
def rest : Str :=
  r.gap.1 ++ ((r.extras.elim [] Extras.text) ++ (r.gap'.1 ++ (r.source.text ++ r.back.1)))

def markerText : Str :=
  match r.marker with
  | none => []
  | some marker => ';' :: marker.1

def text : Str := r.lead.1 ++ (r.name.text ++ (r.rest ++ r.markerText))

/-- A bracket stands right behind the name, or only tabs are between them. -/
def Glued : Prop :=
  (∃ versions back, r.source = .bracketed versions back) ∧ r.extras = none ∧
    ' ' ∉ r.gap.1 ∧ ' ' ∉ r.gap'.1

/-- The address holds what starts a marker. -/
def Cut : Prop := ∃ gap address h, r.source = .url gap address h ∧ ';' ∈ address

end Requirement

/-! ## Characters -/

/-- A letter or a digit is none of the other characters. -/
theorem ne_of_isAlphanum {c d : Char} (h : c.isAlphanum) (hd : d.isAlphanum = false) : c ≠ d := by
  rintro rfl
  exact Bool.false_ne_true (hd.symm.trans h)

theorem isSpace_of_blank {c : Char} (h : c = ' ' ∨ c = '\t') : isSpace c = true := by
  rcases h with rfl | rfl
  · decide
  · decide

theorem Identifier.ne_nil (name : Identifier) : name.text ≠ [] := by
  obtain ⟨c, hc, -⟩ := name.first
  rintro h
  rw [h] at hc
  cases hc

theorem Identifier.trimmed (name : Identifier) : Trimmed name.text := by
  obtain ⟨c, hc, hfirst⟩ := name.first
  obtain ⟨d, hd, hlast⟩ := name.last
  refine ⟨fun e he => ?_, fun e he => ?_⟩
  · obtain rfl := Option.mem_unique hc he
    exact isSpace_of_isAlphanum hfirst
  · obtain rfl := Option.mem_unique hd he
    exact isSpace_of_isAlphanum hlast

/-! ## The name that is read -/

/-- What ends a name. -/
def separators : List Char := ['[', '=', '<', '>', '!', '~', ';', ' ', '@']

/-- It does not end a name. -/
def inName (c : Char) : Bool := c ∉ separators

theorem partition_fst (c : Char) (s : Str) : (partition c s).1 = s.takeWhile (· ≠ c) := by
  induction s with
  | nil => rfl
  | cons a s ih =>
    by_cases h : a = c
    · simp [partition, h]
    · simp [partition, h, ih]

/-- A name is cut at each separator, so before the first one. -/
theorem foldl_partition (cs : List Char) (s : Str) :
    cs.foldl (fun name separator => (partition separator name).1) s = s.takeWhile fun c => c ∉ cs := by
  induction cs generalizing s with
  | nil => exact (List.takeWhile_eq_self_iff.mpr fun c _ => by simp).symm
  | cons c cs ih =>
    rw [List.foldl_cons, ih, partition_fst, List.takeWhile_takeWhile]
    congr 1
    funext d
    simp [not_or, and_comm]

/-- Blanks at the end are stripped off sooner or later. -/
theorem strip_takeWhile_rdropWhile (p : Char → Bool) (s : Str) :
    strip ((s.rdropWhile isSpace).takeWhile p) = strip (s.takeWhile p) := by
  have hparts : s.rdropWhile isSpace ++ s.rtakeWhile isSpace = s := List.rdropWhile_append_rtakeWhile ..
  have hblank : ∀ c ∈ (s.rtakeWhile isSpace).takeWhile p, isSpace c := fun c hc =>
    List.mem_rtakeWhile_imp (List.takeWhile_subset _ hc)
  conv_rhs => rw [← hparts]
  rw [List.takeWhile_append]
  split
  · next hlength =>
    rw [strip_back hblank, (List.takeWhile_prefix p).eq_of_length hlength]
  · rfl

theorem dropWhile_takeWhile {p q : Char → Bool} (h : ∀ c, p c = true → q c = true) (s : Str) :
    (s.takeWhile q).dropWhile p = (s.dropWhile p).takeWhile q := by
  induction s with
  | nil => rfl
  | cons c s ih =>
    by_cases hp : p c = true
    · rw [List.takeWhile_cons_of_pos (h c hp), List.dropWhile_cons_of_pos hp,
        List.dropWhile_cons_of_pos hp, ih]
    · rw [List.dropWhile_cons_of_neg hp]
      by_cases hq : q c = true
      · rw [List.takeWhile_cons_of_pos hq, List.dropWhile_cons_of_neg hp]
      · rw [List.takeWhile_cons_of_neg hq]
        rfl

theorem distributionName_eq (lower : Str → Str) (s : Str) :
    distributionName lower s = lower (collapse false (strip ((strip s).takeWhile inName))) :=
  congrArg (fun name => lower (collapse false (strip name))) (foldl_partition separators (strip s))

/-- The name is what stands before the first separator, wherever the marker starts. -/
theorem package_eq (lower : Str → Str) (s : Str) :
    package lower s = lower (collapse false (strip ((s.dropWhile isSpace).takeWhile inName))) := by
  have hbody : (splitMarker s).1 = strip (s.takeWhile (· ≠ ';')) := congrArg strip (partition_fst ';' s)
  have hstrip : strip (strip (s.takeWhile (· ≠ ';'))) = strip (s.takeWhile (· ≠ ';')) :=
    strip_eq_self_iff.mpr (trimmed_strip _)
  have hspace : ∀ c, isSpace c = true → decide (c ≠ ';') = true := by
    intro c hc
    refine decide_eq_true ?_
    rintro rfl
    revert hc
    decide
  rw [package, distributionName_eq, hbody, hstrip, strip_eq (s.takeWhile _), strip_takeWhile_rdropWhile,
    dropWhile_takeWhile hspace, List.takeWhile_takeWhile]
  congr 5
  funext c
  by_cases h : c = ';'
  · subst h
    decide
  · simp [h]

/-- There is nothing but blanks before the next separator. -/
def Stops (s : Str) : Prop := ∀ c ∈ s.takeWhile inName, c = ' ' ∨ c = '\t'

theorem stops_cons {c : Char} (h : c ∈ separators) (s : Str) : Stops (c :: s) := by
  have hc : ¬ inName c = true := by simpa [inName] using h
  rw [Stops, List.takeWhile_cons_of_neg hc]
  exact fun _ h => nomatch h

theorem mem_takeWhile_append {p : Char → Bool} {c x : Char} (hc : p c = false) {t : Str} : ∀ {u : Str},
    x ∈ (u ++ c :: t).takeWhile p → x ∈ u := by
  intro u
  induction u with
  | nil =>
    intro hx
    rw [List.nil_append, List.takeWhile_cons_of_neg (by rw [hc]; exact Bool.false_ne_true)] at hx
    exact hx
  | cons a u ih =>
    intro hx
    rw [List.cons_append, List.takeWhile_cons] at hx
    split at hx
    · rcases List.mem_cons.mp hx with rfl | hx
      · exact List.mem_cons_self
      · exact List.mem_cons_of_mem _ (ih hx)
    · cases hx

theorem inName_of_tab {b : Blank} (h : ' ' ∉ b.1) : ∀ c ∈ b.1, inName c = true := by
  intro c hc
  rcases b.2 c hc with rfl | rfl
  · exact absurd hc h
  · decide

/-- Blanks in front: either a space is among them, or there are only tabs. -/
theorem takeWhile_blank (b : Blank) (s : Str) : Stops (b.1 ++ s) ∨
    ' ' ∉ b.1 ∧ (b.1 ++ s).takeWhile inName = b.1 ++ s.takeWhile inName := by
  by_cases h : ' ' ∈ b.1
  · refine Or.inl fun c hc => ?_
    obtain ⟨u, v, hb⟩ := List.append_of_mem h
    rw [hb, List.append_assoc, List.cons_append] at hc
    have hu := mem_takeWhile_append (by decide) hc
    exact b.2 c (hb ▸ List.mem_append_left _ hu)
  · exact Or.inr ⟨h, List.takeWhile_append_of_pos (inName_of_tab h)⟩

theorem stops_blank (b : Blank) {s : Str} (h : Stops s) : Stops (b.1 ++ s) := by
  rcases takeWhile_blank b s with hstops | ⟨-, heq⟩
  · exact hstops
  · intro c hc
    rw [heq] at hc
    rcases List.mem_append.mp hc with hc | hc
    · exact b.2 c hc
    · exact h c hc

theorem stops_versions (versions : Versions) (s : Str) : Stops (versions.text ++ s) := by
  rw [Versions.text, Clause.text, List.append_assoc, List.append_assoc]
  refine stops_blank _ ?_
  cases versions.first.comparison <;> exact stops_cons (by decide) _

/-- Nothing but blanks stands between the name and the next separator, unless a bracket is glued to it. -/
theorem stops_rest {r : Requirement} (h : ¬ r.Glued) : Stops (r.rest ++ r.markerText) := by
  have hmarker : Stops r.markerText := by
    rw [Requirement.markerText]
    split
    · exact fun _ h => nomatch h
    · exact stops_cons (by decide) _
  rw [Requirement.rest]
  simp only [List.append_assoc]
  cases hextras : r.extras with
  | some extras =>
    refine stops_blank _ ?_
    rw [Option.elim_some, Extras.text]
    exact stops_cons (by decide) _
  | none =>
    rw [Option.elim_none, List.nil_append]
    cases hsource : r.source with
    | anything => exact stops_blank _ (stops_blank _ (stops_blank _ hmarker))
    | bare versions => exact stops_blank _ (stops_blank _ (stops_versions _ _))
    | url gap address hall => exact stops_blank _ (stops_blank _ (stops_cons (by decide) _))
    | bracketed versions back =>
      -- A space is in one of the two gaps.
      rcases takeWhile_blank r.gap
        (r.gap'.1 ++ ((Source.bracketed versions back).text ++ (r.back.1 ++ r.markerText))) with hstops | ⟨hgap, -⟩
      · exact hstops
      · refine stops_blank _ ?_
        rcases takeWhile_blank r.gap' ((Source.bracketed versions back).text ++ (r.back.1 ++ r.markerText))
          with hstops | ⟨hgap', -⟩
        · exact hstops
        · exact absurd ⟨⟨versions, back, hsource⟩, hextras, hgap, hgap'⟩ h

theorem inName_of_mem_name {name : Identifier} {c : Char} (h : c ∈ name.text) : inName c = true := by
  have hall : (separators.all fun d => !d.isAlphanum && decide (d ∉ ['-', '_', '.'])) = true := by decide
  refine decide_eq_true fun hc => ?_
  have hnot := List.all_eq_true.mp hall c hc
  rw [Bool.and_eq_true, Bool.not_eq_true', decide_eq_true_eq] at hnot
  rcases name.all c h with halpha | hother
  · exact ne_of_isAlphanum halpha hnot.1 rfl
  · exact hnot.2 hother

theorem ascii_of_mem_name {name : Identifier} {c : Char} (h : c ∈ name.text) : c.toNat < 128 := by
  rcases name.all c h with halpha | hother
  · have hrange := toNat_of_isAlphanum halpha
    omega
  · have hall : (['-', '_', '.'].all fun c => c.toNat < 128) = true := by decide
    exact of_decide_eq_true (List.all_eq_true.mp hall c hother)

theorem dropWhile_text (r : Requirement) :
    r.text.dropWhile isSpace = r.name.text ++ (r.rest ++ r.markerText) := by
  rw [Requirement.text, List.dropWhile_append_of_pos fun c hc => isSpace_of_blank (r.lead.2 c hc)]
  obtain ⟨c, t, hname⟩ := List.exists_cons_of_ne_nil r.name.ne_nil
  have hc := r.name.trimmed.front c (by rw [hname]; rfl)
  rw [hname, List.cons_append, List.dropWhile_cons_of_neg (by rw [hc]; exact Bool.false_ne_true)]

theorem takeWhile_text (r : Requirement) : (r.text.dropWhile isSpace).takeWhile inName =
    r.name.text ++ (r.rest ++ r.markerText).takeWhile inName := by
  rw [dropWhile_text, List.takeWhile_append_of_pos fun c hc => inName_of_mem_name hc]

/-- **The name of a requirement**, where no bracket is glued to it. -/
theorem package_text (lower : Str → Str) {r : Requirement} (h : ¬ r.Glued) :
    package lower r.text = lower (collapse false r.name.text) := by
  rw [package_eq, takeWhile_text, strip_back fun c hc => isSpace_of_blank (stops_rest h c hc),
    strip_eq_self_iff.mpr r.name.trimmed]

/-! ## What is pinned -/

/-- What is known of `str.lower` here: the small letters of a text in ASCII. -/
def LowersAscii (lower : Str → Str) : Prop :=
  ∀ s : Str, (∀ c ∈ s, c.toNat < 128) → lower s = s.map Char.toLower

/-- The names that are pinned, with the requirements. -/
def pins : List (Str × Str) :=
  [("cadquery-ocp".toList, cadqueryOcp), ("ocpsvg".toList, ocpsvg), ("build123d".toList, build123d),
    ("cadquery".toList, cadquery), ("ocp-tessellate".toList, ocpTessellate), ("nlopt".toList, nlopt)]

section

variable {lower : Str → Str}

theorem distributionName_pins (h : LowersAscii lower) :
    ∀ pin ∈ pins, distributionName lower pin.2 = pin.1 := by
  have hascii : ∀ pin ∈ pins,
      ((collapse false (strip ((strip pin.2).takeWhile inName))).all fun c => c.toNat < 128) = true ∧
      (collapse false (strip ((strip pin.2).takeWhile inName))).map Char.toLower = pin.1 := by decide
  intro pin hpin
  rw [distributionName_eq, h _ fun c hc => of_decide_eq_true (List.all_eq_true.mp (hascii pin hpin).1 c hc),
    (hascii pin hpin).2]

theorem items_pinned (h : LowersAscii lower) : (pinnedByDistribution lower).items = pins := by
  have hpairs : (pinnedRequirements.map fun requirement => (distributionName lower requirement, requirement)) =
      pins := by
    have hall := distributionName_pins h
    have hmap : pinnedRequirements = pins.map Prod.snd := rfl
    rw [hmap, List.map_map]
    conv_rhs => rw [← List.map_id pins]
    exact List.map_congr_left fun pin hpin => Prod.ext (hall pin hpin) rfl
  rw [pinnedByDistribution, hpairs]
  exact Dict.items_ofPairs (by decide)

theorem get?_pinned (h : LowersAscii lower) {key pinned : Str} :
    (pinnedByDistribution lower).get? key = some pinned ↔ (key, pinned) ∈ pins := by
  rw [Dict.get?_eq_some, items_pinned h]

end

/-- A pinned requirement has no marker, and neither a bracket nor a blank end. -/
theorem pins_plain : ∀ pin ∈ pins, ';' ∉ pin.2 ∧ '(' ∉ pin.2 ∧ strip pin.2 = pin.2 ∧ pin.2 ≠ [] ∧ '(' ∉ pin.1 := by
  decide

/-! ## A bracket that is glued to the name -/

theorem mem_collapse {c : Char} (hc : c ≠ '-' ∧ c ≠ '_' ∧ c ≠ '.') : ∀ {s : Str} {within : Bool},
    c ∈ s → c ∈ collapse within s := by
  intro s
  induction s with
  | nil => exact fun h => h
  | cons a s ih =>
    intro within h
    rw [collapse]
    rcases List.mem_cons.mp h with rfl | h
    · rw [if_neg (by simpa using hc)]
      exact List.mem_cons_self
    · split
      · split
        · exact ih h
        · exact List.mem_cons_of_mem _ (ih h)
      · exact List.mem_cons_of_mem _ (ih h)

theorem of_mem_collapse {c : Char} : ∀ {s : Str} {within : Bool}, c ∈ collapse within s → c = '-' ∨ c ∈ s := by
  intro s
  induction s with
  | nil => exact fun h => Or.inr h
  | cons a s ih =>
    intro within h
    rw [collapse] at h
    split at h
    · split at h
      · exact (ih h).imp_right (List.mem_cons_of_mem _)
      · rcases List.mem_cons.mp h with rfl | h
        · exact Or.inl rfl
        · exact (ih h).imp_right (List.mem_cons_of_mem _)
    · rcases List.mem_cons.mp h with rfl | h
      · exact Or.inr List.mem_cons_self
      · exact (ih h).imp_right (List.mem_cons_of_mem _)

theorem of_mem_strip {c : Char} {s : Str} (h : c ∈ strip s) : c ∈ s := by
  obtain ⟨front, back, -, -, hs⟩ := exists_strip s
  rw [hs]
  exact List.mem_append_right _ (List.mem_append_left _ h)

/-- **The name of a requirement with a bracket glued to it** has the bracket in it. -/
theorem mem_package_of_glued {lower : Str → Str} (hlower : LowersAscii lower) {r : Requirement}
    (h : r.Glued) : '(' ∈ package lower r.text := by
  obtain ⟨⟨versions, back, hsource⟩, hextras, hgap, hgap'⟩ := h
  have hrest : r.rest ++ r.markerText =
      r.gap.1 ++ (r.gap'.1 ++ '(' :: (versions.text ++ ((back.1 ++ [')']) ++ (r.back.1 ++ r.markerText)))) := by
    rw [Requirement.rest, hsource, hextras, Source.text, Option.elim_none, List.nil_append]
    simp only [List.append_assoc, List.cons_append]
  have htake : ∃ inner, (r.rest ++ r.markerText).takeWhile inName = r.gap.1 ++ (r.gap'.1 ++ '(' :: inner) ∧
      ∀ c ∈ inner, c = ' ' ∨ c = '\t' := by
    refine ⟨_, ?_, stops_versions versions ((back.1 ++ [')']) ++ (r.back.1 ++ r.markerText))⟩
    rw [hrest, List.takeWhile_append_of_pos (inName_of_tab hgap),
      List.takeWhile_append_of_pos (inName_of_tab hgap'), List.takeWhile_cons_of_pos (by decide)]
  obtain ⟨inner, htake, hinner⟩ := htake
  have hfront : r.name.text ++ (r.gap.1 ++ (r.gap'.1 ++ '(' :: inner)) =
      (r.name.text ++ (r.gap.1 ++ r.gap'.1)) ++ '(' :: inner := by simp only [List.append_assoc]
  rw [package_eq, takeWhile_text, htake, hfront, hlower]
  · have hmem : '(' ∈ strip ((r.name.text ++ (r.gap.1 ++ r.gap'.1)) ++ '(' :: inner) := by
      rw [strip_append_cons (by decide)]
      exact List.mem_append_right _ List.mem_cons_self
    exact List.mem_map.mpr ⟨'(', mem_collapse (by decide) hmem, rfl⟩
  · have hblank : ∀ c, c = ' ' ∨ c = '\t' → c.toNat < 128 := by
      rintro c (rfl | rfl)
      · decide
      · decide
    intro c hc
    rcases of_mem_collapse hc with rfl | hc
    · decide
    · rcases List.mem_append.mp (of_mem_strip hc) with hc | hc
      · rcases List.mem_append.mp hc with hc | hc
        · exact ascii_of_mem_name hc
        · rcases List.mem_append.mp hc with hc | hc
          · exact hblank c (r.gap.2 c hc)
          · exact hblank c (r.gap'.2 c hc)
      · rcases List.mem_cons.mp hc with rfl | hc
        · decide
        · exact hblank c (hinner c hc)

/-! ## Reconciling -/

section

variable {lower : Str → Str}

/-- The requirement that takes the place of another one. -/
def replaced (pinned : Str) (marker : Option Str) : Str :=
  match marker with
  | none => pinned
  | some marker => pinned ++ "; ".toList ++ marker

theorem reconcileRequirement_of_pinned {requirement pinned : Str}
    (h : (pinnedByDistribution lower).get? (package lower requirement) = some pinned) :
    (reconcileRequirement lower requirement).1 =
      if replaced pinned (splitMarker requirement).2 = strip requirement then requirement
      else replaced pinned (splitMarker requirement).2 := by
  rw [package] at h
  simp only [reconcileRequirement, h]
  show (if replaced pinned (splitMarker requirement).2 = strip requirement then (requirement, none)
    else (replaced pinned (splitMarker requirement).2, some requirement)).1 = _
  split
  · rfl
  · rfl

theorem reconcileRequirement_of_not_pinned {requirement : Str}
    (h : (pinnedByDistribution lower).get? (package lower requirement) = none) :
    reconcileRequirement lower requirement = (requirement, none) := by
  rw [package] at h
  simp only [reconcileRequirement, h]

/-- But for the blanks around it, the result is what takes the place of the requirement. -/
theorem strip_reconcileRequirement {requirement pinned : Str}
    (h : (pinnedByDistribution lower).get? (package lower requirement) = some pinned)
    (hplain : strip (replaced pinned (splitMarker requirement).2) = replaced pinned (splitMarker requirement).2) :
    strip (reconcileRequirement lower requirement).1 = replaced pinned (splitMarker requirement).2 := by
  rw [reconcileRequirement_of_pinned h]
  split
  · next heq => exact heq.symm
  · exact hplain

/-- The marker of a requirement is stripped. -/
theorem splitMarker_snd {requirement marker : Str} (h : (splitMarker requirement).2 = some marker) :
    strip marker = marker := by
  have hmarker : (if ';' ∈ requirement then some (strip (partition ';' requirement).2) else none) =
    some marker := h
  split at hmarker
  · obtain rfl := Option.some.inj hmarker
    exact strip_eq_self_iff.mpr (trimmed_strip _)
  · cases hmarker

theorem splitMarker_of_notMem {s : Str} (h : ';' ∉ s) : splitMarker s = (strip s, none) := by
  rw [splitMarker, partition_of_notMem h]
  exact congrArg (strip s, ·) (if_neg h)

theorem splitMarker_append_cons {s : Str} (h : ';' ∉ s) (marker : Str) :
    splitMarker (s ++ ';' :: marker) = (strip s, some (strip marker)) := by
  rw [splitMarker, partition_append_cons _ h]
  exact congrArg (strip s, ·) (if_pos (List.mem_append_right _ List.mem_cons_self))

theorem splitMarker_replaced {pin : Str × Str} (hpin : pin ∈ pins) {marker : Option Str}
    (hmarker : ∀ m ∈ marker, strip m = m) : splitMarker (replaced pin.2 marker) = (pin.2, marker) := by
  obtain ⟨hsemicolon, -, hstrip, -, -⟩ := pins_plain pin hpin
  cases marker with
  | none =>
    rw [replaced, splitMarker_of_notMem hsemicolon, hstrip]
  | some marker =>
    have htext : replaced pin.2 (some marker) = pin.2 ++ ';' :: (' ' :: marker) := by
      rw [replaced, List.append_assoc]
      rfl
    have hblank : strip (' ' :: marker) = marker :=
      (@strip_front [' '] (List.all_eq_true.mp (by decide)) marker).trans (hmarker marker rfl)
    rw [htext, splitMarker_append_cons hsemicolon, hstrip, hblank]

theorem package_replaced (hlower : LowersAscii lower) {pin : Str × Str} (hpin : pin ∈ pins)
    {marker : Option Str} (hmarker : ∀ m ∈ marker, strip m = m) :
    package lower (replaced pin.2 marker) = pin.1 := by
  rw [package, splitMarker_replaced hpin hmarker, distributionName_pins hlower pin hpin]

/-- **A requirement is reconciled once**, whatever text it is. -/
theorem reconcileRequirement_twice (hlower : LowersAscii lower) (requirement : Str) :
    (reconcileRequirement lower (reconcileRequirement lower requirement).1).1 =
      (reconcileRequirement lower requirement).1 := by
  cases hpinned : (pinnedByDistribution lower).get? (package lower requirement) with
  | none => rw [reconcileRequirement_of_not_pinned hpinned, reconcileRequirement_of_not_pinned hpinned]
  | some pinned =>
    have hpin := (get?_pinned hlower).mp hpinned
    have hmarker : ∀ m ∈ (splitMarker requirement).2, strip m = m := fun m hm => splitMarker_snd hm
    rw [reconcileRequirement_of_pinned hpinned]
    split
    · next heq => rw [reconcileRequirement_of_pinned hpinned, if_pos heq]
    · have hagain : (pinnedByDistribution lower).get?
          (package lower (replaced pinned (splitMarker requirement).2)) = some pinned := by
        rw [package_replaced hlower hpin hmarker]
        exact (get?_pinned hlower).mpr hpin
      rw [reconcileRequirement_of_pinned hagain, splitMarker_replaced hpin hmarker]
      split
      · rfl
      · rfl

/-- What takes the place of a requirement has no blank ends, unless its marker is blank. -/
theorem strip_replaced {pin : Str × Str} (hpin : pin ∈ pins) {marker : Option Str}
    (hmarker : ∀ m ∈ marker, strip m = m ∧ m ≠ []) : strip (replaced pin.2 marker) = replaced pin.2 marker := by
  obtain ⟨-, -, hstrip, hne, -⟩ := pins_plain pin hpin
  have htrimmed := strip_eq_self_iff.mp hstrip
  cases marker with
  | none => exact hstrip
  | some marker =>
    obtain ⟨hmarker, hmarker'⟩ := hmarker marker rfl
    refine strip_eq_self_iff.mpr ⟨fun c hc => htrimmed.front c ?_, fun c hc => ?_⟩
    · rwa [replaced, List.append_assoc, List.head?_append_of_ne_nil _ hne] at hc
    · rw [replaced, List.getLast?_append_of_ne_nil _ hmarker'] at hc
      exact (strip_eq_self_iff.mp hmarker).back c hc

/-- **What a requirement is reconciled to**: the pinned version and the marker, where the name is pinned;
itself, where it is not; and the same when it is reconciled again. -/
structure Reconciled (lower : Str → Str) (r : Requirement) : Prop where
  pinned : ∀ pinned, (pinnedByDistribution lower).get? (lower (collapse false r.name.text)) = some pinned →
    strip (reconcileRequirement lower r.text).1 = replaced pinned (r.marker.map fun marker => strip marker.1)
  other : (pinnedByDistribution lower).get? (lower (collapse false r.name.text)) = none →
    (reconcileRequirement lower r.text).1 = r.text
  twice : (reconcileRequirement lower (reconcileRequirement lower r.text).1).1 =
    (reconcileRequirement lower r.text).1

theorem Blank.free (b : Blank) : ';' ∉ b.1 := by
  intro h
  rcases b.2 _ h with h | h <;> revert h <;> decide

theorem Identifier.free (name : Identifier) : ';' ∉ name.text := by
  intro h
  rcases name.all _ h with h | h <;> revert h <;> decide

theorem Clause.free (clause : Clause) : ';' ∉ clause.text := by
  have hcomparison : ∀ comparison : Comparison, ';' ∉ comparison.text := by
    intro comparison
    cases comparison <;> decide
  have hversion : ';' ∉ clause.version := by
    intro h
    rcases clause.all _ h with h | h <;> revert h <;> decide
  rw [Clause.text]
  simp only [List.mem_append, not_or]
  exact ⟨clause.lead.free, hcomparison _, clause.gap.free, hversion⟩

theorem Versions.free (versions : Versions) : ';' ∉ versions.text := by
  rw [Versions.text, List.mem_append, not_or]
  refine ⟨versions.first.free, fun h => ?_⟩
  obtain ⟨⟨gap, clause⟩, -, h⟩ := List.mem_flatMap.mp h
  rcases List.mem_append.mp h with h | h
  · exact gap.free h
  · rcases List.mem_cons.mp h with h | h
    · revert h
      decide
    · exact clause.free h

theorem Extras.free (extras : Extras) : ';' ∉ extras.text := by
  intro h
  rw [Extras.text] at h
  rcases List.mem_cons.mp h with h | h
  · revert h
    decide
  rcases List.mem_append.mp h with h | h
  · exact extras.lead.free h
  rcases List.mem_append.mp h with h | h
  · rcases mem_join h with h | ⟨p, hp, h⟩
    · revert h
      decide
    · obtain ⟨⟨lead, name, back⟩, -, rfl⟩ := List.mem_map.mp hp
      rcases List.mem_append.mp h with h | h
      · exact lead.free h
      · rcases List.mem_append.mp h with h | h
        · exact name.free h
        · exact back.free h
  · revert h
    decide

/-- What stands between the name and the source. -/
theorem Requirement.front_free (r : Requirement) :
    ';' ∉ r.lead.1 ++ (r.name.text ++ (r.gap.1 ++ ((r.extras.elim [] Extras.text) ++ r.gap'.1))) := by
  have hextras : ';' ∉ r.extras.elim [] Extras.text := by
    cases r.extras with
    | none => exact List.not_mem_nil
    | some extras => exact extras.free
  simp only [List.mem_append, not_or]
  exact ⟨r.lead.free, r.name.free, r.gap.free, hextras, r.gap'.free⟩

theorem Requirement.text_eq (r : Requirement) : r.text =
    (r.lead.1 ++ (r.name.text ++ (r.gap.1 ++ ((r.extras.elim [] Extras.text) ++ r.gap'.1)))) ++
      (r.source.text ++ (r.back.1 ++ r.markerText)) := by
  simp only [Requirement.text, Requirement.rest, List.append_assoc]

theorem source_free {r : Requirement} (h : ¬ r.Cut) : ';' ∉ r.source.text := by
  cases hsource : r.source with
  | anything => exact List.not_mem_nil
  | bare versions => exact versions.free
  | bracketed versions back =>
    have hback := back.free
    have hversions := versions.free
    simp [Source.text, hback, hversions]
  | url gap address hall =>
    have hgap := gap.free
    have haddress : ';' ∉ address := fun hmem => h ⟨gap, address, hall, hsource, hmem⟩
    simp [Source.text, hgap, haddress]

theorem splitMarker_text {r : Requirement} (h : ¬ r.Cut) :
    (splitMarker r.text).2 = r.marker.map fun marker => strip marker.1 := by
  have hnot : ';' ∉ (r.lead.1 ++ (r.name.text ++ (r.gap.1 ++ ((r.extras.elim [] Extras.text) ++ r.gap'.1)))) ++
      (r.source.text ++ r.back.1) := by
    intro hmem
    rcases List.mem_append.mp hmem with hmem | hmem
    · exact r.front_free hmem
    rcases List.mem_append.mp hmem with hmem | hmem
    · exact source_free h hmem
    · exact r.back.free hmem
  rw [r.text_eq, ← List.append_assoc r.source.text, ← List.append_assoc, Requirement.markerText]
  cases r.marker with
  | none => rw [List.append_nil, splitMarker_of_notMem hnot, Option.map_none]
  | some marker => rw [splitMarker_append_cons hnot, Option.map_some]

/-- **A requirement that is written apart and whose address is whole.** -/
theorem reconciled_of_plain (hlower : LowersAscii lower) {r : Requirement} (hglued : ¬ r.Glued)
    (hcut : ¬ r.Cut) : Reconciled lower r where
  pinned pinned hpinned := by
    rw [← package_text lower hglued] at hpinned
    have hmarker := splitMarker_text hcut
    rw [← hmarker]
    refine strip_reconcileRequirement hpinned (strip_replaced ((get?_pinned hlower).mp hpinned) ?_)
    rw [hmarker]
    intro m hm
    obtain ⟨marker, -, rfl⟩ := Option.map_eq_some_iff.mp hm
    exact ⟨strip_eq_self_iff.mpr (trimmed_strip _), marker.2⟩
  other hother := by
    rw [← package_text lower hglued] at hother
    rw [reconcileRequirement_of_not_pinned hother]
  twice := reconcileRequirement_twice hlower r.text

/-! ## Where it fails -/

/-- A requirement with a bracket glued to its name is left as it is. -/
theorem reconcileRequirement_of_glued (hlower : LowersAscii lower) {r : Requirement} (h : r.Glued) :
    reconcileRequirement lower r.text = (r.text, none) := by
  refine reconcileRequirement_of_not_pinned ?_
  cases hpinned : (pinnedByDistribution lower).get? (package lower r.text) with
  | none => rfl
  | some pinned =>
    obtain ⟨-, -, -, -, hnot⟩ := pins_plain _ ((get?_pinned hlower).mp hpinned)
    exact absurd (mem_package_of_glued hlower h) hnot

theorem not_reconciled_of_glued (hlower : LowersAscii lower) {r : Requirement} (h : r.Glued)
    {pinned : Str} (hpinned : (pinnedByDistribution lower).get? (lower (collapse false r.name.text)) = some pinned) :
    ¬ Reconciled lower r := by
  intro hr
  have hstrip := hr.pinned pinned hpinned
  rw [reconcileRequirement_of_glued hlower h] at hstrip
  obtain ⟨⟨versions, back, hsource⟩, -⟩ := h
  -- The bracket stands before the marker, and there is none in what is pinned.
  have hmem : '(' ∈ (strip r.text).takeWhile (· ≠ ';') := by
    have hbracket : r.source.text ++ (r.back.1 ++ r.markerText) =
        '(' :: (versions.text ++ (back.1 ++ [')']) ++ (r.back.1 ++ r.markerText)) := by
      rw [hsource]
      rfl
    rw [r.text_eq, hbracket, strip_append_cons (by decide), List.takeWhile_append_of_pos fun c hc => ?_,
      List.takeWhile_cons_of_pos (by decide)]
    · exact List.mem_append_right _ List.mem_cons_self
    · refine decide_eq_true ?_
      rintro rfl
      exact r.front_free ((List.dropWhile_sublist _).subset hc)
  obtain ⟨-, hnot, -⟩ := pins_plain _ ((get?_pinned hlower).mp hpinned)
  rw [hstrip] at hmem
  refine hnot ?_
  cases hmarker : r.marker with
  | none =>
    rw [hmarker] at hmem
    exact List.takeWhile_subset _ hmem
  | some marker =>
    rw [hmarker, Option.map_some, replaced, List.append_assoc] at hmem
    exact mem_takeWhile_append (by decide) hmem

theorem count_strip (s : Str) : (strip s).count ';' = s.count ';' := by
  obtain ⟨front, back, hfront, hback, hs⟩ := exists_strip s
  have hblank : ∀ t : Str, (∀ c ∈ t, isSpace c) → t.count ';' = 0 := by
    intro t ht
    refine List.count_eq_zero.mpr fun h => ?_
    have hspace := ht _ h
    revert hspace
    decide
  conv_rhs => rw [hs]
  rw [List.count_append, List.count_append, hblank front hfront, hblank back hback, Nat.zero_add, Nat.add_zero]

theorem not_reconciled_of_cut (hlower : LowersAscii lower) {r : Requirement} (h : r.Cut)
    {pinned : Str} (hpinned : (pinnedByDistribution lower).get? (lower (collapse false r.name.text)) = some pinned) :
    ¬ Reconciled lower r := by
  intro hr
  have hglued : ¬ r.Glued := by
    rintro ⟨⟨versions, back, hsource⟩, -⟩
    obtain ⟨gap, address, hall, hsource', -⟩ := h
    rw [hsource] at hsource'
    cases hsource'
  have hstrip := hr.pinned pinned hpinned
  rw [← package_text lower hglued] at hpinned
  have hpin := (get?_pinned hlower).mp hpinned
  have hcount : ∀ marker : Option Str, (replaced pinned marker).count ';' =
      marker.elim 0 fun marker => 1 + marker.count ';' := by
    obtain ⟨hsemicolon, -⟩ := pins_plain _ hpin
    have hzero : pinned.count ';' = 0 := List.count_eq_zero.mpr hsemicolon
    rintro (_ | marker)
    · exact hzero
    · rw [replaced, List.count_append, List.count_append, hzero, Nat.zero_add]
      rfl
  obtain ⟨gap, address, hall, hsource, hmem⟩ := h
  -- The text is cut inside the address.
  let after : Str := (partition ';' address).2 ++ (r.back.1 ++ r.markerText)
  have hmarker : (splitMarker r.text).2 = some (strip after) := by
    have hparts : r.source.text ++ (r.back.1 ++ r.markerText) =
        ('@' :: (gap.1 ++ (partition ';' address).1)) ++ ';' :: after := by
      rw [hsource]
      show '@' :: (gap.1 ++ address) ++ (r.back.1 ++ r.markerText) = _
      conv_lhs => rw [partition_eq hmem]
      simp only [List.append_assoc, List.cons_append, after]
    have hnot : ';' ∉ (r.lead.1 ++ (r.name.text ++ (r.gap.1 ++ ((r.extras.elim [] Extras.text) ++ r.gap'.1)))) ++
        ('@' :: (gap.1 ++ (partition ';' address).1)) := by
      intro hmem
      rcases List.mem_append.mp hmem with hmem | hmem
      · exact r.front_free hmem
      rcases List.mem_cons.mp hmem with hmem | hmem
      · revert hmem
        decide
      rcases List.mem_append.mp hmem with hmem | hmem
      · exact gap.free hmem
      · exact notMem_partition_fst _ _ hmem
    rw [r.text_eq, hparts, ← List.append_assoc, splitMarker_append_cons hnot]
  have hresult : (strip (reconcileRequirement lower r.text).1).count ';' = 1 + after.count ';' := by
    rw [← count_strip after]
    refine Eq.trans ?_ (hcount (some (strip after)))
    rw [reconcileRequirement_of_pinned hpinned, hmarker]
    split
    · next heq => rw [heq]
    · exact count_strip _
  have hafter : r.markerText.count ';' ≤ after.count ';' := by
    rw [List.count_append, List.count_append]
    omega
  have hexpected : (replaced pinned (r.marker.map fun marker => strip marker.1)).count ';' =
      r.markerText.count ';' := by
    rw [hcount, Requirement.markerText]
    cases r.marker with
    | none => rfl
    | some marker =>
      show 1 + (strip marker.1).count ';' = (';' :: marker.1).count ';'
      rw [count_strip, List.count_cons_self, Nat.add_comm]
  have heq := congrArg (List.count ';') hstrip
  rw [hresult, hexpected] at heq
  omega

/-- **Where a pinned version takes the place of the one that is asked for**: no bracket is glued to the
name, and no address holds what starts a marker. -/
theorem reconciled_iff (hlower : LowersAscii lower) (r : Requirement) :
    Reconciled lower r ↔
      (pinnedByDistribution lower).get? (lower (collapse false r.name.text)) = none ∨ ¬ r.Glued ∧ ¬ r.Cut := by
  constructor
  · intro h
    cases hpinned : (pinnedByDistribution lower).get? (lower (collapse false r.name.text)) with
    | none => exact Or.inl rfl
    | some pinned =>
      exact Or.inr ⟨fun hglued => not_reconciled_of_glued hlower hglued hpinned h,
        fun hcut => not_reconciled_of_cut hlower hcut hpinned h⟩
  · rintro (hother | ⟨hglued, hcut⟩)
    · refine ⟨fun pinned hpinned => ?_, fun _ => ?_, reconcileRequirement_twice hlower r.text⟩
      · rw [hother] at hpinned
        cases hpinned
      · by_cases hglued : r.Glued
        · rw [reconcileRequirement_of_glued hlower hglued]
        · rw [reconcileRequirement_of_not_pinned ((congrArg _ (package_text lower hglued)).trans hother)]
    · exact reconciled_of_plain hlower hglued hcut

end

/-! ## Two requirements -/

theorem lowersAscii_map : LowersAscii (List.map Char.toLower) := fun _ _ => rfl

def Blank.none : Blank := ⟨[], fun _ h => nomatch h⟩

/-- The name `cadquery`. -/
def cadqueryName : Identifier where
  text := "cadquery".toList
  first := ⟨'c', rfl, rfl⟩
  last := ⟨'y', rfl, rfl⟩
  all c hc := Or.inl (List.all_eq_true.mp (by decide : "cadquery".toList.all Char.isAlphanum = true) c hc)

/-- The clause `>=2`. -/
def fromTwo : Clause where
  lead := .none
  comparison := .ge
  gap := .none
  version := ['2']
  nonempty := List.cons_ne_nil _ _
  all _ hc := Or.inl (List.mem_singleton.mp hc ▸ rfl)

/-- `cadquery`, with versions and a marker or without one. -/
def cadqueryFrom (source : Source) (hsource : source.isUrl = false) (marker : Option { s : Str // strip s ≠ [] }) :
    Requirement where
  lead := .none
  name := cadqueryName
  gap := .none
  extras := none
  gap' := .none
  source := source
  back := .none
  marker := marker
  apart h := absurd (hsource.symm.trans h) Bool.false_ne_true

/-- `cadquery>=2;os_name=='nt'` -/
theorem reconciled_iff_bare :
    Reconciled (List.map Char.toLower) (cadqueryFrom (.bare ⟨fromTwo, []⟩) rfl
      (some ⟨"os_name=='nt'".toList, by decide⟩)) ↔
      (pinnedByDistribution (List.map Char.toLower)).get? ((collapse false cadqueryName.text).map Char.toLower) =
          none ∨
        ¬ (cadqueryFrom (.bare ⟨fromTwo, []⟩) rfl (some ⟨"os_name=='nt'".toList, by decide⟩)).Glued ∧
          ¬ (cadqueryFrom (.bare ⟨fromTwo, []⟩) rfl (some ⟨"os_name=='nt'".toList, by decide⟩)).Cut :=
  reconciled_iff lowersAscii_map _

/-- `cadquery(>=2)` -/
theorem not_reconciled_bracket : ¬ ∀ r : Requirement, Reconciled (List.map Char.toLower) r := by
  intro h
  refine not_reconciled_of_glued lowersAscii_map
    (r := cadqueryFrom (.bracketed ⟨fromTwo, []⟩ .none) rfl none) ⟨⟨_, _, rfl⟩, rfl, ?_, ?_⟩
    ((get?_pinned lowersAscii_map).mpr (?_ : ((_ : Str), cadquery) ∈ pins)) (h _)
  · exact List.not_mem_nil
  · exact List.not_mem_nil
  · decide

end PartCAD.Sandbox
