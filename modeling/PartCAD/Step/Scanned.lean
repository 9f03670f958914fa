import PartCAD.Step.Records

/-!
# What is found in a file

* `Reads` : what is asked of the reader;
* `scan_text` : the records of the standard are found;
* `parts_text` : so are the parts of a complex record;
* `reads_iff` : **which files are read as it is asked**.
-/

namespace PartCAD.Step

open PartCAD.Lib PartCAD.Lib.Lexeme

/-! ## What is asked -/

def Entity.name (e : Entity) : Str := e.keyword.text.map Char.toUpper

/-- What is between the parentheses of an entity, without comments. -/
def Entity.insideText (e : Entity) : Str := bareText e.inside.lexemes

def Content.name : Content → Str
  | simple e => e.name
  | complex _ _ => []

def Content.insideText : Content → Str
  | simple e => e.insideText
  | complex before parts => bareText (before.lexemes ++ partsLexemes parts)

/-- A record as the scan has it: its number, its entity and its inside. -/
def Record.seen (r : Record) : ℕ × Str × Str := (digitsValue r.digits, r.content.name, r.content.insideText)

/-- **What is asked of the reader**: only comments are removed; the records are found one by one, and so are
the parts of a complex one; and each list is split into its parameters. -/
structure Reads (t : Digits) (w : Words) (before : Gap) (records : List Record) : Prop where
  comments : withoutComments (text (fileLexemes before records)) = bareText (fileLexemes before records)
  scanned : scan t (withoutComments (text (fileLexemes before records))) = records.map Record.seen
  parted : ∀ r ∈ records, ∀ gap ps, r.content = .complex gap ps →
    parts w r.content.insideText = ps.map fun p => (p.1.name, p.1.insideText)
  split : ∀ r ∈ records, ∀ e ∈ r.content.entities,
    arguments e.insideText = e.inside.toList.map fun p => bareText p.lexemes

/-! ## Blanks -/

section

variable {t : Digits}

theorem scanGo_skip (s rest : Str) : scanGo t s.length (s ++ rest) = scanGo t 0 rest := by
  induction s with
  | nil => rfl
  | cons c s ih => exact ih

theorem recordStart_cons {c : Char} (hc : c ≠ '#') (rest : Str) : recordStart t (c :: rest) = none := by
  rw [recordStart.eq_def]
  split
  · next heq => exact absurd (List.cons.inj heq).1 hc
  · rfl

/-- Nothing starts at a character that is no quote and no number sign. -/
theorem scanGo_cons {c : Char} (hquote : c ≠ '\'') (hsign : c ≠ '#') (rest : Str) :
    scanGo t 0 (c :: rest) = scanGo t 0 rest := by
  rw [scanGo, if_neg hquote, recordStart_cons hsign]

theorem scanGo_append {s : Str} (hs : ∀ c ∈ s, c ≠ '\'' ∧ c ≠ '#') (rest : Str) :
    scanGo t 0 (s ++ rest) = scanGo t 0 rest := by
  induction s with
  | nil => rfl
  | cons c s ih =>
    obtain ⟨hquote, hsign⟩ := hs c List.mem_cons_self
    rw [List.cons_append, scanGo_cons hquote hsign]
    exact ih fun d hd => hs d (List.mem_cons_of_mem c hd)

theorem Gap.plain (gap : Gap) {c : Char} (h : c ∈ bareText gap.lexemes) : c ≠ '\'' ∧ c ≠ '#' := by
  have hspace := gap.isSpace_of_mem h
  constructor <;> rintro rfl <;> revert hspace <;> decide

theorem scanGo_gap (gap : Gap) (rest : Str) : scanGo t 0 (bareText gap.lexemes ++ rest) = scanGo t 0 rest :=
  scanGo_append (fun _ h => gap.plain h) rest

theorem dropWhile_gap (gap : Gap) {rest : Str} (hrest : ∀ c ∈ rest.head?, isSpace c = false) :
    (bareText gap.lexemes ++ rest).dropWhile isSpace = rest :=
  (takeWhile_append_of (fun _ h => gap.isSpace_of_mem h) hrest).2

theorem opening_gap (gap : Gap) (rest : Str) :
    opening (bareText gap.lexemes ++ '(' :: rest) = some ('(' :: rest) := by
  rw [opening, dropWhile_gap gap (by simp; decide)]
  rfl

/-- What comes next, behind a gap that may be empty. -/
theorem head_gap (gap : Gap) {c d : Char} {rest : Str} (h : d ∈ (bareText gap.lexemes ++ c :: rest).head?) :
    isSpace d = true ∨ d = c := by
  cases hgap : bareText gap.lexemes with
  | nil =>
    rw [hgap] at h
    exact Or.inr (Option.some.inj h).symm
  | cons a s =>
    rw [hgap] at h
    have hmem : d ∈ bareText gap.lexemes := by
      rw [hgap, Option.some.inj h]
      exact List.mem_cons_self
    exact Or.inl (gap.isSpace_of_mem hmem)

/-! ## Starts -/

/-- A name, or none right before the parenthesis. -/
inductive Named : Str → Gap → Prop
  | none : Named [] []
  | name {name : Str} (gap : Gap) : name.head?.any startsName = true → (∀ c ∈ name, inName c = true) →
      Named name gap

theorem inName_of_isSpace {c : Char} (h : isSpace c = true) : inName c = false := by
  refine Bool.eq_false_iff.mpr fun hname => ?_
  rw [isSpace_of_inName hname] at h
  cases h

theorem takeName_of_named {name : Str} {gap : Gap} (h : Named name gap) (rest : Str) :
    takeName (name ++ (bareText gap.lexemes ++ '(' :: rest)) = name := by
  cases h with
  | none => rfl
  | name gap hletter hletters =>
    have hhead : ((name ++ (bareText gap.lexemes ++ '(' :: rest)).head?.any startsName) = true := by
      cases name with
      | nil => cases hletter
      | cons c name => exact hletter
    rw [takeName, if_pos hhead]
    refine (takeWhile_append_of hletters fun c hc => ?_).1
    rcases head_gap gap hc with hspace | rfl
    · exact inName_of_isSpace hspace
    · decide

theorem not_isSpace_of_named {name : Str} {gap : Gap} (h : Named name gap) (rest : Str) :
    ∀ c ∈ (name ++ (bareText gap.lexemes ++ '(' :: rest)).head?, isSpace c = false := by
  intro c hc
  cases h with
  | none =>
    obtain rfl := Option.some.inj hc
    decide
  | name gap hletter hletters =>
    cases name with
    | nil => cases hletter
    | cons d name =>
      obtain rfl := Option.some.inj hc
      exact isSpace_of_inName (hletters d List.mem_cons_self)

theorem not_isDigit_gap (gap : Gap) {c : Char} {rest : Str} (h : c ∈ (bareText gap.lexemes ++ '=' :: rest).head?) :
    t.isDigit c = false := by
  rcases head_gap gap h with hspace | rfl
  · refine Bool.eq_false_iff.mpr fun hdigit => ?_
    rw [t.isSpace_of_isDigit hdigit] at hspace
    cases hspace
  · exact t.not_isDigit (by decide) (by decide)

/-- **Where a record starts.** -/
theorem recordStart_text (r : Record) {name : Str} {gap : Gap} (h : Named name gap) (rest : Str) :
    recordStart t ('#' :: (r.digits ++ (bareText r.beforeEquals.lexemes ++ '=' :: (bareText r.behindEquals.lexemes ++
      (name ++ (bareText gap.lexemes ++ '(' :: rest)))))) = some (r.digits, name, '(' :: rest) := by
  have hdigits : ∀ c ∈ r.digits, t.isDigit c = true := fun c hc => t.isDigit_of_ascii (r.digits_ascii c hc)
  rw [recordStart, (takeWhile_append_of hdigits (fun c hc => not_isDigit_gap r.beforeEquals hc)).1, List.drop_left,
    if_neg r.digits_ne_nil, dropWhile_gap r.beforeEquals (by simp; decide)]
  show (opening (_ : Str)).map _ = _
  rw [dropWhile_gap r.behindEquals (not_isSpace_of_named h rest), takeName_of_named h rest, List.drop_left,
    opening_gap]
  rfl

/-- Nothing starts at a number sign before a text without an equals sign, up to a parenthesis. -/
theorem dropWhile_text {p : Char → Bool} (hquote : p '\'' = false) (hclose : p ')' = false) (ls : List Lexeme)
    (rest : Str) : ∃ ls', ls' <:+ ls ∧ (bareText ls ++ ')' :: rest).dropWhile p = bareText ls' ++ ')' :: rest := by
  induction ls with
  | nil => exact ⟨[], List.suffix_refl _, List.dropWhile_cons_of_neg (by simp [hclose])⟩
  | cons l ls ih =>
    obtain ⟨ls', hsuffix, hdrop⟩ := ih
    cases l with
    | char c =>
      by_cases hc : p c = true
      · exact ⟨ls', hsuffix.trans (List.suffix_cons _ _), (List.dropWhile_cons_of_pos hc).trans hdrop⟩
      · exact ⟨_, List.suffix_refl _, List.dropWhile_cons_of_neg hc⟩
    | string content =>
      refine ⟨_, List.suffix_refl _, ?_⟩
      rw [bareText_string]
      exact List.dropWhile_cons_of_neg (by simp [hquote])
    | comment content => exact ⟨ls', hsuffix.trans (List.suffix_cons _ _), hdrop⟩

/-- No equals sign comes next. -/
theorem head_text_ne {ls : List Lexeme} (h : ∀ c, char c ∈ ls → c ≠ '=') (rest : Str) :
    (bareText ls ++ ')' :: rest).head? ≠ some '=' := by
  induction ls with
  | nil => simp
  | cons l ls ih =>
    cases l with
    | char c => exact fun heq => h c List.mem_cons_self (Option.some.inj heq)
    | string content =>
      rw [bareText_string]
      exact fun heq => absurd (Option.some.inj heq) (by decide)
    | comment content => exact ih fun c hc => h c (List.mem_cons_of_mem _ hc)

theorem recordStart_none {ls : List Lexeme} (h : ∀ c, char c ∈ ls → c ≠ '=') (rest : Str) :
    recordStart t ('#' :: (bareText ls ++ ')' :: rest)) = none := by
  have hdigits : ∀ s : Str, s.drop (s.takeWhile t.isDigit).length = s.dropWhile t.isDigit := by
    intro s
    have hparts := congrArg (List.drop (s.takeWhile t.isDigit).length)
      (List.takeWhile_append_dropWhile : s.takeWhile t.isDigit ++ s.dropWhile t.isDigit = s)
    rw [List.drop_left] at hparts
    exact hparts.symm
  obtain ⟨ls', hsuffix, hdrop⟩ := dropWhile_text (t.not_isDigit (by decide) (by decide))
    (t.not_isDigit (by decide) (by decide)) ls rest
  obtain ⟨ls'', hsuffix', hdrop'⟩ := dropWhile_text (p := isSpace) (by decide) (by decide) ls' rest
  rw [recordStart, hdigits, hdrop, hdrop']
  split
  · rfl
  · split
    · next s heq =>
      refine absurd ?_ (head_text_ne (fun c hc => h c (hsuffix.subset (hsuffix'.subset hc))) rest)
      rw [heq]
      rfl
    · rfl

/-! ## Records -/

theorem ne_equals {b : Bool} {ls : List Lexeme} (h : Balanced b ls) {c : Char} (hc : char c ∈ ls) : c ≠ '=' := by
  induction h with
  | nil => cases hc
  | char hmarks _ _ ih =>
    rcases List.mem_cons.mp hc with heq | hc
    · rintro rfl
      rw [← Lexeme.char.inj heq] at hmarks
      exact hmarks (by decide)
    · exact ih hc
  | string _ _ ih => exact ih ((List.mem_cons.mp hc).resolve_left nofun)
  | comment _ _ ih => exact ih ((List.mem_cons.mp hc).resolve_left nofun)
  | group _ _ hinner ih =>
    rcases List.mem_cons.mp hc with heq | hc
    · rw [Lexeme.char.inj heq]
      decide
    · rcases List.mem_append.mp hc with hc | hc
      · exact hinner hc
      · rcases List.mem_cons.mp hc with heq | hc
        · rw [Lexeme.char.inj heq]
          decide
        · exact ih hc

theorem scanGo_string (content : Str) {rest : Str} (h : rest.head? ≠ some '\'') :
    scanGo t 0 ('\'' :: (doubled content ++ '\'' :: rest)) = scanGo t 0 rest := by
  have hlength : stringLength (doubled content ++ '\'' :: rest) = some (doubled content ++ ['\'']).length := by
    rw [List.length_append]
    exact stringLength_doubled content h
  have hskip := scanGo_skip (t := t) (doubled content ++ ['\'']) rest
  rw [List.append_assoc] at hskip
  rw [scanGo, if_pos rfl, hlength]
  exact hskip

/-- Nothing is found inside of a list. -/
theorem scanGo_text {b : Bool} {ls : List Lexeme} (h : Balanced b ls) (rest : Str) :
    scanGo t 0 (bareText ls ++ ')' :: rest) = scanGo t 0 rest := by
  induction h generalizing rest with
  | nil => exact scanGo_cons (by decide) (by decide) rest
  | @char _ c ls hmarks _ hls ih =>
    have hquote : c ≠ '\'' := by
      rintro rfl
      exact hmarks (by decide)
    rw [bareText_char, List.cons_append]
    by_cases hsign : c = '#'
    · rw [hsign, scanGo, if_neg (by decide), recordStart_none (fun c hc => ne_equals hls hc)]
      exact ih rest
    · rw [scanGo_cons hquote hsign]
      exact ih rest
  | @string _ content ls hopens hls ih =>
    rw [bareText_string, List.cons_append, List.append_assoc, List.cons_append,
      scanGo_string content (hls.head_bareText hopens _ (by simp))]
    exact ih rest
  | comment _ _ ih => exact ih rest
  | @group _ inner ls _ _ hinner ih =>
    rw [bareText_char, bareText_append, bareText_char, List.cons_append, List.append_assoc, List.cons_append,
      scanGo_cons (by decide) (by decide), hinner, ih]

/-- A record that starts, and its list. -/
theorem scanGo_record {b : Bool} (r : Record) {name : Str} {gap : Gap} (h : Named name gap) {ls : List Lexeme}
    (hls : Balanced b ls) (rest : Str) :
    scanGo t 0 ('#' :: (r.digits ++ (bareText r.beforeEquals.lexemes ++ '=' :: (bareText r.behindEquals.lexemes ++
      (name ++ (bareText gap.lexemes ++ '(' :: (bareText ls ++ ')' :: rest))))))) =
      (digitsValue r.digits, name.map Char.toUpper, bareText ls) :: scanGo t 0 rest := by
  rw [scanGo, if_neg (by decide), recordStart_text r h]
  simp only [listAt_text hls rest]
  refine congrArg₂ List.cons ?_ ?_
  · rw [t.number_eq_digitsValue r.digits_ascii]
  · have hskip := scanGo_skip (t := t) (r.digits ++ (bareText r.beforeEquals.lexemes ++ '=' ::
      (bareText r.behindEquals.lexemes ++ (name ++ (bareText gap.lexemes ++ '(' :: (bareText ls ++ [')'])))))) rest
    simp only [List.append_assoc, List.cons_append, List.nil_append] at hskip
    rw [← hskip]
    congr 1
    simp only [List.length_append, List.length_cons, List.length_nil]
    omega

theorem inName_of_isDigit {c : Char} (h : c.isDigit = true) : inName c = true := by
  refine decide_eq_true (Or.inl ?_)
  rw [Char.isAlphanum, h, Bool.or_true]

theorem plain_of_inName {c : Char} (h : inName c = true) : c ≠ '\'' ∧ c ≠ '#' := by
  constructor <;> rintro rfl <;> revert h <;> decide

/-- Nothing starts before the mark of an entity that is not of the standard. -/
theorem recordStart_user (r : Record) (rest : Str) :
    recordStart t ('#' :: (r.digits ++ (bareText r.beforeEquals.lexemes ++ '=' :: (bareText r.behindEquals.lexemes ++
      '!' :: rest)))) = none := by
  have hdigits : ∀ c ∈ r.digits, t.isDigit c = true := fun c hc => t.isDigit_of_ascii (r.digits_ascii c hc)
  rw [recordStart, (takeWhile_append_of hdigits (fun c hc => not_isDigit_gap r.beforeEquals hc)).1, List.drop_left,
    if_neg r.digits_ne_nil, dropWhile_gap r.beforeEquals (by simp; decide)]
  show (opening (_ : Str)).map _ = _
  rw [dropWhile_gap r.behindEquals (by simp; decide)]
  rfl

/-- A record whose entity is of the standard, or that is complex. -/
def Content.standard : Content → Bool
  | simple e => ! e.keyword.user
  | complex _ _ => true

/-- The rest of a record, behind its list. -/
theorem scanGo_end (r : Record) (rest : Str) :
    scanGo t 0 (bareText r.beforeEnd.lexemes ++ ';' :: (bareText r.behindEnd.lexemes ++ rest)) = scanGo t 0 rest := by
  rw [scanGo_gap, scanGo_cons (by decide) (by decide), scanGo_gap]

theorem Keyword.text_of_standard {keyword : Keyword} (h : keyword.user = false) : keyword.text = keyword.name := by
  rw [Keyword.text, h]
  rfl

theorem Keyword.named {keyword : Keyword} (gap : Gap) : Named keyword.name gap :=
  .name gap keyword.letter keyword.letters

/-- **A record is found, if its entity is of the standard.** -/
theorem scanGo_lexemes (r : Record) (rest : Str) : scanGo t 0 (bareText r.lexemes ++ rest) =
    (if r.content.standard then [r.seen] else []) ++ scanGo t 0 rest := by
  cases hcontent : r.content with
  | simple e =>
    have hcut : bareText r.lexemes ++ rest = '#' :: (r.digits ++ (bareText r.beforeEquals.lexemes ++
        '=' :: (bareText r.behindEquals.lexemes ++ (e.keyword.text ++ (bareText e.gap.lexemes ++
        '(' :: (bareText e.inside.lexemes ++ ')' :: (bareText r.beforeEnd.lexemes ++
        ';' :: (bareText r.behindEnd.lexemes ++ rest)))))))) := by
      simp [Record.lexemes, hcontent, Content.lexemes, Entity.lexemes, Entity.list]
    cases huser : e.keyword.user with
    | false =>
      have hseen : r.seen = (digitsValue r.digits, e.keyword.name.map Char.toUpper, bareText e.inside.lexemes) := by
        rw [Record.seen, hcontent, Content.name, Entity.name, Keyword.text_of_standard huser]
        rfl
      rw [hcut, Keyword.text_of_standard huser, scanGo_record r (e.keyword.named e.gap) e.inside.balanced,
        scanGo_end, hseen, if_pos (by rw [Content.standard, huser]; rfl)]
      rfl
    | true =>
      have htext : e.keyword.text = '!' :: e.keyword.name := by
        rw [Keyword.text, huser]
        rfl
      have hname : ∀ c ∈ e.keyword.name, c ≠ '\'' ∧ c ≠ '#' := fun c hc => plain_of_inName (e.keyword.letters c hc)
      have hdigits : ∀ c ∈ r.digits, c ≠ '\'' ∧ c ≠ '#' := fun c hc =>
        plain_of_inName (inName_of_isDigit (r.digits_ascii c hc))
      have hstandard : ¬ (Content.simple e).standard = true := by
        rw [Content.standard, huser]
        decide
      rw [hcut, htext, List.cons_append, scanGo, if_neg (by decide), recordStart_user, if_neg hstandard]
      show scanGo t 0 _ = _
      rw [scanGo_append hdigits, scanGo_gap, scanGo_cons (by decide) (by decide), scanGo_gap,
        scanGo_cons (by decide) (by decide), scanGo_append hname, scanGo_gap, scanGo_cons (by decide) (by decide),
        scanGo_text e.inside.balanced, scanGo_end]
      rfl
  | complex before parts =>
    have hcut : bareText r.lexemes ++ rest = '#' :: (r.digits ++ (bareText r.beforeEquals.lexemes ++
        '=' :: (bareText r.behindEquals.lexemes ++ ([] ++ (bareText (Gap.lexemes []) ++
        '(' :: (bareText (before.lexemes ++ partsLexemes parts) ++ ')' :: (bareText r.beforeEnd.lexemes ++
        ';' :: (bareText r.behindEnd.lexemes ++ rest)))))))) := by
      simp [Record.lexemes, hcontent, Content.lexemes, Gap.lexemes]
    have hseen : r.seen = (digitsValue r.digits, [], bareText (before.lexemes ++ partsLexemes parts)) := by
      rw [Record.seen, hcontent]
      rfl
    have hstandard : (Content.complex before parts).standard = true := rfl
    rw [hcut, scanGo_record r .none (before.balanced (balanced_parts (b := true) parts)), scanGo_end, hseen,
      if_pos hstandard]
    rfl

/-- **The records of a file.** -/
theorem scan_text (before : Gap) (records : List Record) : scan t (bareText (fileLexemes before records)) =
    (records.filter fun r => r.content.standard).map Record.seen := by
  rw [scan, fileLexemes, bareText_append, scanGo_gap]
  induction records with
  | nil => rfl
  | cons r records ih =>
    rw [List.flatMap_cons, bareText_append, scanGo_lexemes, ih, List.filter_cons]
    split <;> rfl

end

/-! ## Parts -/

section

variable {w : Words}

theorem partsGo_skip (s : Str) (d : Char) (behindWord : Bool) (rest : Str) :
    partsGo w (s.length + 1) behindWord (s ++ d :: rest) = partsGo w 0 (w.isWord d) rest := by
  induction s generalizing behindWord with
  | nil => rfl
  | cons c s ih => exact ih (w.isWord c)

/-- No part starts at a character that starts no name. -/
theorem partsGo_cons {c : Char} (hquote : c ≠ '\'') (hname : startsName c = false) (behindWord : Bool) (rest : Str) :
    partsGo w 0 behindWord (c :: rest) = partsGo w 0 (w.isWord c) rest := by
  have hnot : ¬ (behindWord = false ∧ ((c :: rest).head?.any startsName) = true) := by
    rintro ⟨-, hstart⟩
    exact Bool.false_ne_true (hname.symm.trans hstart)
  rw [partsGo, if_neg hquote, partStart, if_neg hnot]

theorem partsGo_gap (gap : Gap) (rest : Str) :
    partsGo w 0 false (bareText gap.lexemes ++ rest) = partsGo w 0 false rest := by
  induction gap with
  | nil => rfl
  | cons filler gap ih =>
    cases filler with
    | blank c hc =>
      have hstart : startsName c = false := by
        refine Bool.eq_false_iff.mpr fun hstart => ?_
        have hname : inName c = true := by
          rcases of_decide_eq_true hstart with h | h
          · exact decide_eq_true (Or.inl (by rw [Char.isAlphanum, h, Bool.true_or]))
          · exact decide_eq_true (Or.inr h)
        rw [inName_of_isSpace hc] at hname
        cases hname
      have hquote : c ≠ '\'' := by
        rintro rfl
        revert hc
        decide
      have hcut : bareText (Gap.lexemes (.blank c hc :: gap)) ++ rest = c :: (bareText (Gap.lexemes gap) ++ rest) :=
        rfl
      rw [hcut, partsGo_cons hquote hstart, w.space c hc, ih]
    | comment content hcontent => exact ih

theorem partStart_name (keyword : Keyword) (gap : Gap) (rest : Str) :
    partStart false (keyword.name ++ (bareText gap.lexemes ++ '(' :: rest)) = some (keyword.name, '(' :: rest) := by
  have hends : ∀ c ∈ (bareText gap.lexemes ++ '(' :: rest).head?, inName c = false := by
    intro c hc
    rcases head_gap gap hc with hspace | rfl
    · exact inName_of_isSpace hspace
    · decide
  obtain ⟨htake, hdrop⟩ := takeWhile_append_of keyword.letters hends
  have hstart : ((keyword.name ++ (bareText gap.lexemes ++ '(' :: rest)).head?.any startsName) = true := by
    have hletter := keyword.letter
    cases hname : keyword.name with
    | nil =>
      rw [hname] at hletter
      cases hletter
    | cons c name =>
      rw [hname] at hletter
      exact hletter
  rw [partStart, if_pos ⟨rfl, hstart⟩, htake, hdrop, opening_gap]
  rfl

/-- **A part is found**, under its name without a mark. -/
theorem partsGo_entity (e : Entity) (rest : Str) : partsGo w 0 false (bareText e.lexemes ++ rest) =
    (e.keyword.name.map Char.toUpper, e.insideText) :: partsGo w 0 false rest := by
  have hname : partsGo w 0 false (e.keyword.name ++ (bareText e.gap.lexemes ++
      '(' :: (e.insideText ++ ')' :: rest))) =
      (e.keyword.name.map Char.toUpper, e.insideText) :: partsGo w 0 false rest := by
    have hletter := e.keyword.letter
    have hletters := e.keyword.letters
    have hstart := partStart_name e.keyword e.gap (e.insideText ++ ')' :: rest)
    cases hname : e.keyword.name with
    | nil =>
      rw [hname] at hletter
      cases hletter
    | cons c s =>
      rw [hname] at hstart hletters
      have hquote := (plain_of_inName (hletters c List.mem_cons_self)).1
      have hlist : listAt ('(' :: (e.insideText ++ ')' :: rest)) = some e.insideText := listAt_text e.inside.balanced rest
      rw [List.cons_append] at hstart ⊢
      rw [partsGo, if_neg hquote, hstart]
      simp only [hlist]
      refine congrArg (List.cons _) ?_
      have hskip := partsGo_skip (w := w) (s ++ (bareText e.gap.lexemes ++ '(' :: e.insideText)) ')' (w.isWord c) rest
      have hclose : w.isWord ')' = false := (w.latin ')' (by decide)).trans (by decide)
      rw [hclose] at hskip
      simp only [List.append_assoc, List.cons_append] at hskip
      rw [← hskip]
      congr 1
      simp only [List.length_append, List.length_cons]
      omega
  have hcut : bareText e.lexemes ++ rest = e.keyword.text ++ (bareText e.gap.lexemes ++
      '(' :: (e.insideText ++ ')' :: rest)) := by
    simp [Entity.lexemes, Entity.list, Entity.insideText]
  rw [hcut, Keyword.text]
  cases e.keyword.user with
  | false => exact hname
  | true =>
    have hmark : w.isWord '!' = false := (w.latin '!' (by decide)).trans (by decide)
    have hfirst := partsGo_cons (w := w) (c := '!') (by decide) (by decide) false
      (e.keyword.name ++ (bareText e.gap.lexemes ++ '(' :: (e.insideText ++ ')' :: rest)))
    rw [hmark, hname] at hfirst
    exact hfirst

/-- **The parts of a complex record.** -/
theorem parts_text (before : Gap) (ps : List (Entity × Gap)) : parts w (bareText (before.lexemes ++ partsLexemes ps)) =
    ps.map fun p => (p.1.keyword.name.map Char.toUpper, p.1.insideText) := by
  rw [parts, bareText_append, partsGo_gap]
  induction ps with
  | nil => rfl
  | cons p ps ih =>
    have hcut : bareText (partsLexemes (p :: ps)) =
        bareText p.1.lexemes ++ (bareText p.2.lexemes ++ bareText (partsLexemes ps)) := by
      simp [partsLexemes]
    rw [hcut, partsGo_entity, partsGo_gap, ih]
    rfl

end

/-! ## Comments -/

theorem proper_char {c : Char} (hquote : c ≠ '\'') (hslash : c ≠ '/') {ls : List Lexeme} (h : Proper ls) :
    Proper (char c :: ls) := ⟨⟨hquote, fun heq => absurd heq hslash⟩, h⟩

theorem proper_gap (gap : Gap) {ls : List Lexeme} (h : Proper ls) : Proper (gap.lexemes ++ ls) := by
  induction gap with
  | nil => exact h
  | cons filler gap ih =>
    cases filler with
    | blank c hc =>
      have hmarks := (isSpace_marks hc).1
      refine proper_char ?_ ?_ ih <;> rintro rfl <;> exact hmarks (by decide)
    | comment content hcontent => exact ⟨hcontent, ih⟩

theorem proper_chars {s : Str} (hs : ∀ c ∈ s, c ≠ '\'' ∧ c ≠ '/') {ls : List Lexeme} (h : Proper ls) :
    Proper (chars s ++ ls) := by
  induction s with
  | nil => exact h
  | cons c s ih =>
    obtain ⟨hquote, hslash⟩ := hs c List.mem_cons_self
    exact proper_char hquote hslash (ih fun d hd => hs d (List.mem_cons_of_mem c hd))

/-- The text behind a list does not begin with a quote or a star. -/
theorem head_end (gap : Gap) (ls : List Lexeme) {c : Char} (hc : c = '\'' ∨ c = '*') :
    (text (gap.lexemes ++ char ';' :: ls)).head? ≠ some c := by
  intro h
  cases gap with
  | nil =>
    obtain rfl := Option.some.inj h
    revert hc
    decide
  | cons filler gap =>
    cases filler with
    | blank d hd =>
      have hmarks := (isSpace_marks hd).1
      have hstar : isSpace '*' = false := by decide
      obtain rfl := Option.some.inj h
      rcases hc with rfl | rfl
      · exact hmarks (by decide)
      · rw [hstar] at hd
        cases hd
    | comment content =>
      obtain rfl := Option.some.inj h
      revert hc
      decide

theorem proper_record (r : Record) {ls : List Lexeme} (h : Proper ls) : Proper (r.lexemes ++ ls) := by
  have hdigits : ∀ c ∈ r.digits, c ≠ '\'' ∧ c ≠ '/' := by
    intro c hc
    have hdigit := r.digits_ascii c hc
    constructor <;> rintro rfl <;> revert hdigit <;> decide
  have hend : Proper (r.beforeEnd.lexemes ++ char ';' :: (r.behindEnd.lexemes ++ ls)) :=
    proper_gap r.beforeEnd (proper_char (by decide) (by decide) (proper_gap r.behindEnd h))
  have hcontent := r.content.balanced (Balanced.nil (b := true))
  rw [List.append_nil] at hcontent
  have hlist := hcontent.proper.append hend (head_end _ _ (Or.inl rfl)) (head_end _ _ (Or.inr rfl))
  have hall : Proper (char '#' :: (chars r.digits ++ (r.beforeEquals.lexemes ++ char '=' ::
      (r.behindEquals.lexemes ++ (r.content.lexemes ++ (r.beforeEnd.lexemes ++ char ';' ::
      (r.behindEnd.lexemes ++ ls))))))) :=
    proper_char (by decide) (by decide) (proper_chars hdigits (proper_gap r.beforeEquals
      (proper_char (by decide) (by decide) (proper_gap r.behindEquals hlist))))
  simpa [Record.lexemes] using hall

theorem proper_file (before : Gap) (records : List Record) : Proper (fileLexemes before records) := by
  refine proper_gap before ?_
  induction records with
  | nil => exact trivial
  | cons r records ih => exact proper_record r ih

/-! ## Which files are read as it is asked -/

/-- The entity is of the standard, and has parameters. -/
def Entity.Plain (e : Entity) : Prop := e.keyword.user = false ∧ ∀ gap, e.inside ≠ .empty gap

theorem Entity.arguments_iff (e : Entity) :
    (arguments e.insideText = e.inside.toList.map fun p => bareText p.lexemes) ↔ ∀ gap, e.inside ≠ .empty gap := by
  rw [Entity.insideText]
  cases e.inside with
  | empty gap =>
    have hone : arguments (bareText (Inside.empty gap).lexemes) = [[]] := gap.arguments_eq
    rw [hone]
    constructor
    · intro h
      cases h
    · exact fun h => absurd rfl (h gap)
  | parameters ps => exact ⟨fun _ _ => nofun, fun _ => ps.arguments_eq⟩

theorem Keyword.name_ne {keyword : Keyword} (h : keyword.user = true) :
    keyword.name.map Char.toUpper ≠ keyword.text.map Char.toUpper := by
  intro heq
  have hlength := congrArg List.length heq
  rw [Keyword.text, h] at hlength
  simp at hlength

/-- **Which files are read as it is asked.** -/
theorem reads_iff (t : Digits) (w : Words) (before : Gap) (records : List Record) :
    Reads t w before records ↔ ∀ r ∈ records, ∀ e ∈ r.content.entities, e.Plain := by
  have hcomments := withoutComments_text (proper_file before records)
  constructor
  · intro h r hr e he
    refine ⟨?_, e.arguments_iff.mp (h.split r hr e he)⟩
    have hscanned := h.scanned
    rw [hcomments, scan_text] at hscanned
    cases hcontent : r.content with
    | simple e' =>
      rw [hcontent] at he
      obtain rfl := List.mem_singleton.mp he
      have hlength := congrArg List.length hscanned
      rw [List.length_map, List.length_map] at hlength
      have hstandard := List.length_filter_eq_length_iff.mp hlength r hr
      rw [hcontent, Content.standard, Bool.not_eq_true'] at hstandard
      exact hstandard
    | complex gap ps =>
      rw [hcontent] at he
      obtain ⟨p, hp, rfl⟩ := List.mem_map.mp he
      have hparted := h.parted r hr gap ps hcontent
      rw [hcontent, Content.insideText, parts_text] at hparted
      have hname := (Prod.mk.inj (List.map_inj_left.mp hparted p hp)).1
      by_contra huser
      exact Keyword.name_ne (Bool.eq_true_of_not_eq_false huser) hname
  · intro h
    refine ⟨hcomments, ?_, fun r hr gap ps hcontent => ?_, fun r hr e he => ?_⟩
    · rw [hcomments, scan_text]
      refine congrArg (List.map Record.seen) (List.filter_eq_self.mpr fun r hr => ?_)
      have hplain := h r hr
      cases hcontent : r.content with
      | simple e =>
        rw [hcontent] at hplain
        rw [Content.standard, (hplain e List.mem_cons_self).1]
        rfl
      | complex gap ps => rfl
    · have hplain := h r hr
      rw [hcontent] at hplain
      rw [hcontent, Content.insideText, parts_text]
      refine List.map_inj_left.mpr fun p hp => ?_
      have hstandard := (hplain p.1 (List.mem_map_of_mem hp)).1
      rw [Entity.name, Keyword.text_of_standard hstandard]
    · exact e.arguments_iff.mpr (h r hr e he).2

/-- The words of ASCII. -/
def asciiWords : Words where
  isWord := inName
  latin _ _ := rfl
  space _ h := inName_of_isSpace h

/-- `#1=NAMED_UNIT();` -/
def namedUnit : Record where
  digits := "1".toList
  digits_ne_nil := by decide
  digits_ascii := List.all_eq_true.mp (by decide)
  beforeEquals := []
  behindEquals := []
  content := .simple ⟨⟨false, "NAMED_UNIT".toList, by decide, List.all_eq_true.mp (by decide)⟩, [], .empty []⟩
  beforeEnd := []
  behindEnd := []

/-- A list without parameters is split into one argument. -/
theorem not_reads_namedUnit : ¬ ∀ (before : Gap) (records : List Record), Reads asciiDigits asciiWords before records := by
  intro h
  have hsplit := (h [] [namedUnit]).split namedUnit List.mem_cons_self _ List.mem_cons_self
  exact (Entity.arguments_iff _).mp hsplit [] rfl

end PartCAD.Step
