import PartCAD.Lib.Decimal

/-!
# Numbers with units

A quantity is a number and the name of a unit, in capitals or not, with blanks around both.  The names
are tried one after the other at the end of the text.

* `IsQuantity`, `quantityOf` : a text is a quantity, and the quantity is read off it;
* `IsQuantity.unique` : **there is one way to read it**;
* `quantityOf_iff` : the two agree, whatever the order of the names.
-/

namespace PartCAD.Lib

/-! ## Small letters -/

/-- `c.lower()`, where an ASCII letter comes out of it: that of the Kelvin sign does. -/
def lowerChar (c : Char) : Char := if c = '\u212a' then 'k' else c.toLower

/-- `s.lower()`; a letter out of which no ASCII letter comes is left as it is. -/
def lower (s : Str) : Str := s.map lowerChar

@[simp] theorem length_lower (s : Str) : (lower s).length = s.length := List.length_map _

theorem lower_append (s s' : Str) : lower (s ++ s') = lower s ++ lower s' := List.map_append

theorem lowerChar_of_ne {c : Char} (hkelvin : c ≠ '\u212a') (h : ¬ (65 ≤ c.toNat ∧ c.toNat ≤ 90)) :
    lowerChar c = c := by
  rw [lowerChar, if_neg hkelvin, Text.toLower_of_not_upper h]

theorem toNat_lowerChar {c : Char} (h : 65 ≤ c.toNat ∧ c.toNat ≤ 90) :
    (lowerChar c).toNat = c.toNat + 32 := by
  have hkelvin : c ≠ '\u212a' := by
    rintro rfl
    exact absurd h (by decide)
  rw [lowerChar, if_neg hkelvin, Text.toNat_toLower h]

/-- What is not a letter comes out of itself only. -/
theorem lowerChar_eq_iff {c d : Char} (hd : d.toNat < 97) (hletter : ¬ (65 ≤ d.toNat ∧ d.toNat ≤ 90)) :
    lowerChar c = d ↔ c = d := by
  by_cases hupper : 65 ≤ c.toNat ∧ c.toNat ≤ 90
  · have hlower := toNat_lowerChar hupper
    refine ⟨fun h => ?_, fun h => absurd (h ▸ hupper) hletter⟩
    rw [h] at hlower
    omega
  · by_cases hkelvin : c = '\u212a'
    · subst hkelvin
      refine ⟨fun h => ?_, fun h => ?_⟩
      · subst h
        exact absurd hd (by decide)
      · subst h
        exact absurd hd (by decide)
    · rw [lowerChar_of_ne hkelvin hupper]

section

variable {t : Digits}

theorem Digits.isDigit_of_letter {c : Char} (h : 65 ≤ c.toNat ∧ c.toNat ≤ 90) : t.isDigit c = false := by
  refine t.not_isDigit (by omega) (Bool.eq_false_iff.2 fun hdigit => ?_)
  have hrange : 48 ≤ c.toNat ∧ c.toNat ≤ 57 := by
    simpa [Char.isDigit, UInt32.le_iff_toNat_le] using hdigit
  omega

/-- Digits and points have no capitals. -/
theorem lowerChar_of_closes {c : Char} (h : closes t c) : lowerChar c = c := by
  rcases Bool.or_eq_true_iff.1 h with hdigit | hpoint
  · refine lowerChar_of_ne ?_ fun hletter => ?_
    · rintro rfl
      rw [Digits.isDigit, t.kelvin] at hdigit
      cases hdigit
    · rw [Digits.isDigit_of_letter hletter] at hdigit
      cases hdigit
  · rw [beq_iff_eq.1 hpoint]
    decide

theorem lowerChar_of_isSpace {c : Char} (h : isSpace c) : lowerChar c = c := by
  refine lowerChar_of_ne ?_ fun hletter => ?_
  · rintro rfl
    exact absurd h (by decide)
  · have hspace := of_decide_eq_true h
    omega

/-! ## Quantities -/

variable {β : Type} (t)

/-- A number and a unit, of which `spelled` says how its name is written and what it stands for. -/
inductive IsQuantity (spelled : List (Str × β)) : Str → ℚ → β → Prop
  | mk {front number between unit back : Str} {x : ℚ} {b : β} : (∀ c ∈ front, isSpace c) →
      IsDecimal t number x → (∀ c ∈ between, isSpace c) → (lower unit, b) ∈ spelled →
      (∀ c ∈ back, isSpace c) →
        IsQuantity spelled (front ++ (number ++ (between ++ (unit ++ back)))) x b

/-- The first of the names that the text ends in, after a number. -/
def quantityOf (spelled : List (Str × β)) (text : Str) : Option (ℚ × β) :=
  spelled.findSome? fun p =>
    if p.1.isSuffixOf (lower text) then
      (numberOf t (strip (text.take (text.length - p.1.length)))).map fun x => (x, p.2)
    else none

/-- The names have no blanks, digits or points in them, and each stands for one unit. -/
structure Clear (spelled : List (Str × β)) : Prop where
  ne_nil : ∀ p ∈ spelled, p.1 ≠ []
  plain : ∀ p ∈ spelled, ∀ c ∈ p.1, closes t c = false ∧ isSpace c = false
  unique : ∀ p ∈ spelled, ∀ q ∈ spelled, p.1 = q.1 → p.2 = q.2

variable {t} {spelled : List (Str × β)}

theorem plain_of_latin {c : Char}
    (h : (decide (c.toNat < 256) && ! c.isDigit && c != '.' && ! isSpace c) = true) :
    closes t c = false ∧ isSpace c = false := by
  simp only [Bool.and_eq_true, Bool.not_eq_true', bne_iff_ne, decide_eq_true_eq] at h
  obtain ⟨⟨⟨hlatin, hdigit⟩, hpoint⟩, hspace⟩ := h
  refine ⟨?_, hspace⟩
  rw [closes, t.not_isDigit hlatin hdigit, Bool.false_or]
  simpa using hpoint

/-- Names of Latin letters are clear. -/
theorem clear_of_latin
    (hplain : (spelled.all fun p => ! p.1.isEmpty && p.1.all fun c =>
      decide (c.toNat < 256) && ! c.isDigit && c != '.' && ! isSpace c) = true)
    (hunique : ∀ p ∈ spelled, ∀ q ∈ spelled, p.1 = q.1 → p.2 = q.2) : Clear t spelled where
  ne_nil p hp := by
    have h := (Bool.and_eq_true_iff.1 (List.all_eq_true.1 hplain p hp)).1
    simpa using h
  plain p hp c hc :=
    plain_of_latin (List.all_eq_true.1
      (Bool.and_eq_true_iff.1 (List.all_eq_true.1 hplain p hp)).2 c hc)
  unique := hunique

/-- The name of a unit has none in it either, however it is written. -/
theorem Clear.plain_unit (hclear : Clear t spelled) {unit : Str} {b : β} (h : (lower unit, b) ∈ spelled) :
    ∀ c ∈ unit, closes t c = false ∧ isSpace c = false := by
  intro c hc
  have hlower : lowerChar c ∈ lower unit := List.mem_map_of_mem hc
  have hplain := hclear.plain _ h _ hlower
  refine ⟨Bool.eq_false_iff.2 fun hcloses => ?_, Bool.eq_false_iff.2 fun hspace => ?_⟩
  · rw [lowerChar_of_closes hcloses, hcloses] at hplain
    cases hplain.1
  · rw [lowerChar_of_isSpace hspace, hspace] at hplain
    cases hplain.2

theorem Clear.unit_ne_nil (hclear : Clear t spelled) {unit : Str} {b : β}
    (h : (lower unit, b) ∈ spelled) : unit ≠ [] := by
  rintro rfl
  exact hclear.ne_nil _ h rfl

theorem Clear.trimmed_unit (hclear : Clear t spelled) {unit : Str} {b : β}
    (h : (lower unit, b) ∈ spelled) : Trimmed unit where
  front c hc := (hclear.plain_unit h c (List.mem_of_mem_head? hc)).2
  back c hc := (hclear.plain_unit h c (List.mem_of_getLast? hc)).2

theorem closes_of_isSpace {c : Char} (h : isSpace c) : closes t c = false := by
  refine Bool.eq_false_iff.2 fun hcloses => ?_
  rw [isSpace_of_closes hcloses] at h
  cases h

theorem Clear.strip_eq (hclear : Clear t spelled) {front number between unit back : Str} {x : ℚ} {b : β}
    (hfront : ∀ c ∈ front, isSpace c) (hnumber : IsDecimal t number x)
    (hunit : (lower unit, b) ∈ spelled) (hback : ∀ c ∈ back, isSpace c) :
    strip (front ++ (number ++ (between ++ (unit ++ back)))) = number ++ (between ++ unit) := by
  have htrimmed := Trimmed.append hnumber.trimmed (hclear.trimmed_unit hunit) hnumber.ne_nil
    (hclear.unit_ne_nil hunit) between
  rw [List.append_assoc] at htrimmed
  rw [← strip_append hfront hback htrimmed]
  simp only [List.append_assoc]

theorem Clear.plain_rest (hclear : Clear t spelled) {between unit : Str} {b : β}
    (hbetween : ∀ c ∈ between, isSpace c) (hunit : (lower unit, b) ∈ spelled) :
    ∀ c ∈ between ++ unit, closes t c = false := by
  intro c hc
  rcases List.mem_append.1 hc with hc | hc
  · exact closes_of_isSpace (hbetween c hc)
  · exact (hclear.plain_unit hunit c hc).1

theorem Clear.dropWhile_eq (hclear : Clear t spelled) {between unit : Str} {b : β}
    (hbetween : ∀ c ∈ between, isSpace c) (hunit : (lower unit, b) ∈ spelled) :
    (between ++ unit).dropWhile isSpace = unit :=
  (takeWhile_append_of hbetween fun c hc =>
    (hclear.plain_unit hunit c (List.mem_of_mem_head? hc)).2).2

/-- **There is one way to read a quantity.** -/
theorem IsQuantity.unique (hclear : Clear t spelled) {s : Str} {x x' : ℚ} {b b' : β}
    (h : IsQuantity t spelled s x b) (h' : IsQuantity t spelled s x' b') : x = x' ∧ b = b' := by
  obtain ⟨hfront, hnumber, hbetween, hunit, hback⟩ := h
  rename_i front number between unit back
  generalize hs : front ++ (number ++ (between ++ (unit ++ back))) = s at h'
  obtain ⟨hfront', hnumber', hbetween', hunit', hback'⟩ := h'
  have hstrip := congrArg strip hs
  rw [hclear.strip_eq hfront hnumber hunit hback, hclear.strip_eq hfront' hnumber' hunit' hback'] at hstrip
  obtain ⟨rfl, hrest⟩ := hnumber.append_unique hnumber' (hclear.plain_rest hbetween hunit)
    (hclear.plain_rest hbetween' hunit') hstrip
  refine ⟨hnumber.unique hnumber', ?_⟩
  have hsame := congrArg (List.dropWhile isSpace) hrest
  rw [hclear.dropWhile_eq hbetween hunit, hclear.dropWhile_eq hbetween' hunit'] at hsame
  subst hsame
  exact hclear.unique _ hunit _ hunit' rfl

/-- The text ends in a name, after a number. -/
theorem isQuantity_of_suffix {s name : Str} {x : ℚ} {b : β} (hmem : (name, b) ∈ spelled)
    (hsuffix : name.isSuffixOf (lower (strip s)) = true)
    (hread : numberOf t (strip ((strip s).take ((strip s).length - name.length))) = some x) :
    IsQuantity t spelled s x b := by
  obtain ⟨front, back, hfront, hback, hs⟩ := exists_strip s
  generalize strip s = text at hsuffix hread hs
  -- the text before the name, and the name as it is written
  have hlength : (text.drop (text.length - name.length)).length = name.length := by
    have hle := (List.isSuffixOf_iff_suffix.1 hsuffix).length_le
    rw [length_lower] at hle
    rw [List.length_drop]
    omega
  have hname : lower (text.drop (text.length - name.length)) = name := by
    have hsuffix' : lower (text.drop (text.length - name.length)) <:+ lower text :=
      ⟨lower (text.take (text.length - name.length)), by rw [← lower_append, List.take_append_drop]⟩
    have hle := List.suffix_of_suffix_length_le hsuffix' (List.isSuffixOf_iff_suffix.1 hsuffix)
    refine (hle ?_).eq_of_length ?_
    · rw [length_lower, hlength]
    · rw [length_lower, hlength]
  have htext := (List.take_append_drop (text.length - name.length) text).symm
  generalize text.take (text.length - name.length) = before at hread htext
  generalize text.drop (text.length - name.length) = unit at hname htext
  obtain ⟨front', back', hfront', hback', hbefore⟩ := exists_strip before
  generalize strip before = number at hread hbefore
  have hfronts : ∀ c ∈ front ++ front', isSpace c := by
    intro c hc
    exact (List.mem_append.1 hc).elim (hfront c) (hfront' c)
  have hquantity := IsQuantity.mk (b := b) hfronts (numberOf_iff.1 hread) hback' (by rwa [hname]) hback
  rw [hs, htext, hbefore]
  simpa only [List.append_assoc] using hquantity

theorem isQuantity_of_quantityOf {s : Str} {x : ℚ} {b : β}
    (h : quantityOf t spelled (strip s) = some (x, b)) : IsQuantity t spelled s x b := by
  obtain ⟨⟨name, b'⟩, hmem, hread⟩ := List.exists_of_findSome?_eq_some h
  dsimp only at hread
  split at hread
  · rename_i hsuffix
    obtain ⟨x', hx', heq⟩ := Option.map_eq_some_iff.1 hread
    obtain ⟨rfl, rfl⟩ := Prod.mk.inj heq
    exact isQuantity_of_suffix hmem hsuffix hx'
  · cases hread

/-- A quantity ends in the name of its unit, in small letters. -/
theorem isSuffixOf_unit (number between unit : Str) :
    (lower unit).isSuffixOf (lower (number ++ (between ++ unit))) = true := by
  rw [List.isSuffixOf_iff_suffix, lower_append, lower_append]
  exact ⟨lower number ++ lower between, List.append_assoc _ _ _⟩

/-- What is in front of the unit is the number. -/
theorem IsDecimal.strip_take {number between unit : Str} {x : ℚ} (hnumber : IsDecimal t number x)
    (hbetween : ∀ c ∈ between, isSpace c) :
    strip ((number ++ (between ++ unit)).take
      ((number ++ (between ++ unit)).length - (lower unit).length)) = number := by
  rw [← List.append_assoc, List.length_append, length_lower, Nat.add_sub_cancel, List.take_left]
  exact strip_append (List.forall_mem_nil fun c => isSpace c = true) hbetween hnumber.trimmed

/-- **What is read off a text**, whatever the order of the names. -/
theorem quantityOf_iff (hclear : Clear t spelled) {s : Str} {x : ℚ} {b : β} :
    quantityOf t spelled (strip s) = some (x, b) ↔ IsQuantity t spelled s x b := by
  refine ⟨isQuantity_of_quantityOf, fun h => ?_⟩
  suffices hsome : (quantityOf t spelled (strip s)).isSome by
    obtain ⟨⟨x', b'⟩, hread⟩ := Option.isSome_iff_exists.1 hsome
    obtain ⟨rfl, rfl⟩ := h.unique hclear (isQuantity_of_quantityOf hread)
    exact hread
  obtain ⟨hfront, hnumber, hbetween, hunit, hback⟩ := h
  rename_i front number between unit back
  rw [hclear.strip_eq hfront hnumber hunit hback, quantityOf, List.findSome?_isSome_iff]
  refine ⟨(lower unit, b), hunit, ?_⟩
  dsimp only
  rw [if_pos (isSuffixOf_unit number between unit), hnumber.strip_take hbetween, numberOf_iff.2 hnumber]
  rfl

theorem Clear.perm {spelled' : List (Str × β)} (hclear : Clear t spelled) (h : spelled'.Perm spelled) :
    Clear t spelled' where
  ne_nil p hp := hclear.ne_nil p (h.subset hp)
  plain p hp := hclear.plain p (h.subset hp)
  unique p hp q hq := hclear.unique p (h.subset hp) q (h.subset hq)

theorem IsQuantity.perm {spelled' : List (Str × β)} {s : Str} {x : ℚ} {b : β}
    (h : IsQuantity t spelled s x b) (hperm : spelled.Perm spelled') : IsQuantity t spelled' s x b := by
  obtain ⟨hfront, hnumber, hbetween, hunit, hback⟩ := h
  exact .mk hfront hnumber hbetween (hperm.subset hunit) hback

/-- The order of the names does not matter. -/
theorem quantityOf_perm {spelled' : List (Str × β)} (hclear : Clear t spelled)
    (h : spelled'.Perm spelled) (s : Str) :
    quantityOf t spelled' (strip s) = quantityOf t spelled (strip s) := by
  ext ⟨x, b⟩
  rw [quantityOf_iff hclear, quantityOf_iff (hclear.perm h)]
  exact ⟨fun hquantity => hquantity.perm h, fun hquantity => hquantity.perm h.symm⟩

/-- A text that is a number is not a quantity. -/
theorem IsQuantity.not_isDecimal (hclear : Clear t spelled) {s : Str} {x x' : ℚ} {b : β}
    (h : IsQuantity t spelled s x b) : ¬ IsDecimal t (strip s) x' := by
  intro hdecimal
  obtain ⟨hfront, hnumber, hbetween, hunit, hback⟩ := h
  rename_i number between unit back
  rw [hclear.strip_eq hfront hnumber hunit hback] at hdecimal
  obtain ⟨s', c, heq, hc⟩ := hdecimal.getLast?
  have hne := hclear.unit_ne_nil hunit
  have hlast : c = unit.getLast hne := by
    have h := congrArg List.getLast? heq
    rw [List.getLast?_concat, ← List.append_assoc, List.getLast?_append_of_ne_nil _ hne,
      List.getLast?_eq_some_getLast hne] at h
    exact (Option.some.inj h).symm
  rw [hlast, (hclear.plain_unit hunit _ (List.getLast_mem hne)).1] at hc
  cases hc

/-- Blanks in front make no difference, and none do at the end. -/
theorem IsQuantity.of_strip_eq (hclear : Clear t spelled) {s s' : Str} {x : ℚ} {b : β}
    (h : IsQuantity t spelled s x b) (hstrip : strip s = strip s') : IsQuantity t spelled s' x b := by
  rw [← quantityOf_iff hclear, ← hstrip]
  exact (quantityOf_iff hclear).2 h

theorem IsQuantity.notMem {s : Str} {x : ℚ} {b : β}
    (h : IsQuantity t spelled s x b) {c : Char} (hspace : isSpace c = false) (hdigit : t.isDigit c = false)
    (hmark : c ∉ "+-.eE".toList) (hlower : lowerChar c = c) (hnames : ∀ p ∈ spelled, c ∉ p.1) : c ∉ s := by
  obtain ⟨hfront, hnumber, hbetween, hunit, hback⟩ := h
  have hblank : ∀ {blank : Str}, (∀ d ∈ blank, isSpace d) → c ∉ blank := by
    intro blank hblank hc
    rw [hblank c hc] at hspace
    cases hspace
  simp only [List.mem_append, not_or]
  refine ⟨hblank hfront, fun hc => ?_, hblank hbetween, fun hc => ?_, hblank hback⟩
  · rcases hnumber.mem c hc with h | h
    · rw [hdigit] at h
      cases h
    · exact hmark h
  · refine hnames _ hunit ?_
    rw [← hlower]
    exact List.mem_map_of_mem hc

end

end PartCAD.Lib
