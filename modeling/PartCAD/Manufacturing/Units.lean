import PartCAD.Lib.Dict
import PartCAD.Lib.Quantity

/-!
# Lengths, feeds and numbers of a job

A job for a machine is declared in numbers and in text: a length with its unit, a feed as a length over
a time, a speed in revolutions.  Numbers are exact here.

* `parseLength`, `parseFeed`, `parseNumber` : what the code makes of them;
* `Length`, `Feed`, `Plain` : what they mean;
* `parseLength_iff`, `parseFeed_iff`, `parseNumber_iff` : **the two agree**.
-/

namespace PartCAD.Cam

open PartCAD.Lib PartCAD.Lib.Text

/-! ## Errors -/

/-- `CamConfigError`, by what its text is made from. -/
inductive CamConfigError where
  | notANumber (what : Str) (value : Value ℚ)
  | empty (what : Str)
  | unreadable (what noun : Str) (value : Value ℚ) (units : List Str)
  | notPositive (what noun : Str) (value : Value ℚ)
  | notATime (what : Str) (value : Value ℚ) (times : List Str)
  | stepover (value : ℚ)
  | notOneOf (key : Str) (choices : List Str) (value : Value ℚ)

/-- `", ".join(texts)` -/
def commas (texts : List Str) : Str := ", ".toList.intercalate texts

/-- The text of an error, with `repr` for the values in it. -/
def CamConfigError.message (repr : Value ℚ → Str) : CamConfigError → Str
  | .notANumber what value => what ++ " is not a number: ".toList ++ repr value
  | .empty what => what ++ " is empty".toList
  | .unreadable what noun value units =>
    what ++ " is not ".toList ++ noun ++ ": ".toList ++ repr value ++
      ". Write a number (millimetres), or a number and a unit (".toList ++
      commas (units.insertionSort (· ≤ ·)) ++ ")".toList
  | .notPositive what noun value => what ++ " is not a positive ".toList ++ noun ++ ": ".toList ++ repr value
  | .notATime what value times =>
    what ++ " is not a feed: ".toList ++ repr value ++ ". The time is one of ".toList ++
      commas (times.insertionSort (· ≤ ·))
  | .stepover value =>
    "'manufacturing: stepover:' is a fraction of the tool diameter, so it cannot exceed 1: ".toList ++
      repr (.float value)
  | .notOneOf key choices value =>
    "'cam: ".toList ++ key ++ ":' is not one of ".toList ++
      commas (choices.map fun one => '\'' :: (one ++ ['\''])) ++ ": ".toList ++ repr value

/-! ## Units -/

/-- `_LENGTH_UNITS` -/
def lengthUnits : List (Str × ℚ) :=
  [("um".toList, 1 / 1000), ("µm".toList, 1 / 1000), ("micron".toList, 1 / 1000), ("mm".toList, 1),
    ("cm".toList, 10), ("dm".toList, 100), ("m".toList, 1000), ("mil".toList, 254 / 10000),
    ("thou".toList, 254 / 10000), ("in".toList, 254 / 10), ("inch".toList, 254 / 10),
    ("\"".toList, 254 / 10), ("ft".toList, 3048 / 10), ("foot".toList, 3048 / 10),
    ("feet".toList, 3048 / 10)]

/-- `_LENGTH_NAMES` with their factors: the longest first, else as they are. -/
def lengthNames : List (Str × ℚ) := lengthUnits.insertionSort fun p q => q.1.length ≤ p.1.length

/-- `_PER_MINUTE` -/
def perMinute : List (Str × ℚ) :=
  [("min".toList, 1), ("minute".toList, 1), ("m".toList, 1), ("s".toList, 60), ("sec".toList, 60),
    ("second".toList, 60)]

/-- `_spellings` -/
def spellings (unit : Str) : List Str :=
  let plurals := [unit ++ ['s']]
  let plurals :=
    if ["ch".toList, "s".toList, "sh".toList, "x".toList, "z".toList].any (·.isSuffixOf unit) then
      (unit ++ "es".toList) :: plurals
    else plurals
  plurals ++ [unit]

/-- The spellings of the names, in the order in which they are tried. -/
def spelled (names : List (Str × ℚ)) : List (Str × ℚ) :=
  names.flatMap fun p => (spellings p.1).map fun spelling => (spelling, p.2)

example : quantityOf asciiDigits (spelled lengthNames) "0.25 Inches".toList = some (1 / 4, 254 / 10) := by
  decide +kernel

/-! ## Parsers -/

section

variable (t : Digits)

/-- `_parse_scaled` -/
def parseScaled (value : Value ℚ) (what : Str) (names : List (Str × ℚ)) (noun : Str) :
    Except CamConfigError ℚ :=
  match value with
  | .int n => .ok n
  | .float x => .ok x
  | .str s =>
    let text := strip s
    if text = [] then .error (.empty what)
    else
      match quantityOf t (spelled names) text with
      | some (number, factor) => .ok (number * factor)
      | none =>
        match numberOf t text with
        | some number => .ok number
        | none => .error (.unreadable what noun value (names.map Prod.fst))
  | _ => .error (.notANumber what value)

/-- `if x <= 0: raise e` -/
def positive (e : CamConfigError) (x : ℚ) : Except CamConfigError ℚ := if x ≤ 0 then .error e else .ok x

/-- `parse_length` -/
def parseLength (value : Value ℚ) (what : Str) : Except CamConfigError ℚ :=
  (parseScaled t value what lengthNames "a length".toList).bind
    (positive (.notPositive what "length".toList value))

/-- `text.rpartition("/")` of a text with a slash, without the slash -/
def rpartitionSlash (text : Str) : Str × Str :=
  ((partition '/' text.reverse).2.reverse, (partition '/' text.reverse).1.reverse)

/-- The rate that a text is. -/
def parseRate (s : Str) (what : Str) : Except CamConfigError ℚ :=
  let text := strip s
  if '/' ∈ text then
    let (text, denominator) := rpartitionSlash text
    let key := rstrip '.' (lower (strip denominator))
    match lookupItem key perMinute with
    | none => .error (.notATime what (.str s) (perMinute.map Prod.fst))
    | some factor => (parseScaled t (.str text) what lengthNames "a feed".toList).map (· * factor)
  else (parseScaled t (.str text) what lengthNames "a feed".toList).map (· * 1)

/-- `parse_feed` -/
def parseFeed (value : Value ℚ) (what : Str) : Except CamConfigError ℚ :=
  let rate : Except CamConfigError ℚ :=
    match value with
    | .int n => .ok (n : ℚ)
    | .float x => .ok x
    | .str s => parseRate t s what
    | _ => .error (.notANumber what value)
  rate.bind (positive (.notPositive what "feed".toList value))

/-- The units of a spindle speed. -/
def speedSuffixes : List Str := ["rpm".toList, "rev/min".toList, "r/min".toList]

/-- A text without the unit of a spindle speed at its end. -/
def dropSpeed (text : Str) : Str :=
  match speedSuffixes.find? fun suffix => suffix.isSuffixOf (lower text) with
  | some suffix => strip (text.take (text.length - suffix.length))
  | none => text

/-- `parse_number` -/
def parseNumber (value : Value ℚ) (what : Str) : Except CamConfigError ℚ :=
  let number : Except CamConfigError ℚ :=
    match value with
    | .int n => .ok (n : ℚ)
    | .float x => .ok x
    | .str s =>
      match numberOf t (dropSpeed (strip s)) with
      | some number => .ok number
      | none => .error (.notANumber what value)
    | _ => .error (.notANumber what value)
  number.bind (positive (.notPositive what "number".toList value))

end

/-! ## What they mean -/

/-- A length in millimetres: a number, or a number and a unit. -/
inductive Length (t : Digits) : Value ℚ → ℚ → Prop
  | int (n : ℤ) : Length t (.int n) n
  | float (x : ℚ) : Length t (.float x) x
  | bare {s : Str} {x : ℚ} : IsDecimal t (strip s) x → Length t (.str s) x
  | unit {s : Str} {x factor : ℚ} : IsQuantity t (spelled lengthNames) s x factor →
      Length t (.str s) (x * factor)

/-- The name of a time, with points after it, and how often it fits in a minute. -/
inductive Time : Str → ℚ → Prop
  | mk {front name points back : Str} {factor : ℚ} : (∀ c ∈ front, isSpace c) →
      (lower name, factor) ∈ perMinute → (∀ c ∈ points, c = '.') → (∀ c ∈ back, isSpace c) →
        Time (front ++ (name ++ points ++ back)) factor

/-- A feed in millimetres per minute: a length for every minute, or for every time. -/
inductive Feed (t : Digits) : Value ℚ → ℚ → Prop
  | perMinute {value : Value ℚ} {x : ℚ} : Length t value x → Feed t value x
  | per {length time : Str} {x factor : ℚ} : Length t (.str length) x → Time time factor →
      Feed t (.str (length ++ '/' :: time)) (x * factor)

/-- A number without a unit, or with that of a spindle speed. -/
inductive Plain (t : Digits) : Value ℚ → ℚ → Prop
  | int (n : ℤ) : Plain t (.int n) n
  | float (x : ℚ) : Plain t (.float x) x
  | bare {s : Str} {x : ℚ} : IsDecimal t (strip s) x → Plain t (.str s) x
  | speed {s : Str} {x : ℚ} : IsQuantity t (speedSuffixes.map fun s => (s, ())) s x () →
      Plain t (.str s) x

section

variable {t : Digits}

/-- No unit of length is spelled as another one. -/
theorem clear_length : Clear t (spelled lengthNames) := by
  refine clear_of_latin (by decide) ?_
  have hunique : ((spelled lengthNames).all fun p => (spelled lengthNames).all fun q =>
      ! decide (p.1 = q.1) || decide (p.2 = q.2)) = true := by decide +kernel
  intro p hp q hq hsame
  have h := List.all_eq_true.1 (List.all_eq_true.1 hunique p hp) q hq
  simpa [hsame] using h

theorem clear_speed : Clear t (speedSuffixes.map fun s => (s, ())) :=
  clear_of_latin (by decide) fun _ _ _ _ _ => rfl

/-! ## Lengths -/

theorem strip_ne_nil {s : Str} {x : ℚ} (h : Length t (.str s) x) : strip s ≠ [] := by
  cases h with
  | bare hdecimal => exact hdecimal.ne_nil
  | unit hquantity =>
    obtain ⟨hfront, hnumber, hbetween, hunit, hback⟩ := hquantity
    rw [clear_length.strip_eq hfront hnumber hunit hback]
    simp [hnumber.ne_nil]

theorem parseScaled_iff {value : Value ℚ} {what noun : Str} {x : ℚ} :
    parseScaled t value what lengthNames noun = .ok x ↔ Length t value x := by
  constructor
  · intro h
    cases value with
    | int n =>
      obtain rfl := Except.ok.inj h
      exact .int n
    | float y =>
      obtain rfl := Except.ok.inj h
      exact .float y
    | str s =>
      rw [parseScaled] at h
      split at h
      · cases h
      · split at h
        · rename_i number factor hread
          obtain rfl := Except.ok.inj h
          exact .unit (isQuantity_of_quantityOf hread)
        · split at h
          · rename_i number hread
            obtain rfl := Except.ok.inj h
            exact .bare (numberOf_iff.1 hread)
          · cases h
    | none => cases h
    | bool b => cases h
    | bytes b => cases h
    | list vs => cases h
    | dict items => cases h
  · intro h
    cases h with
    | int n => rfl
    | float x => rfl
    | @bare s x hdecimal =>
      rw [parseScaled]
      rw [if_neg hdecimal.ne_nil]
      cases hread : quantityOf t (spelled lengthNames) (strip s) with
      | some p => exact absurd hdecimal ((isQuantity_of_quantityOf hread).not_isDecimal clear_length)
      | none =>
        dsimp only
        rw [numberOf_iff.2 hdecimal]
    | @unit s x factor hquantity =>
      rw [parseScaled]
      rw [if_neg (strip_ne_nil (.unit hquantity)), (quantityOf_iff clear_length).2 hquantity]

theorem bind_positive {e : CamConfigError} {r : Except CamConfigError ℚ} {x : ℚ} :
    r.bind (positive e) = .ok x ↔ r = .ok x ∧ 0 < x := by
  cases r with
  | error e' =>
    constructor
    · intro h
      cases h
    · rintro ⟨h, -⟩
      cases h
  | ok y =>
    show positive e y = .ok x ↔ _
    rw [positive]
    constructor
    · intro h
      split at h
      · cases h
      · rename_i hpos
        obtain rfl := Except.ok.inj h
        exact ⟨rfl, not_le.1 hpos⟩
    · rintro ⟨h, hpos⟩
      obtain rfl := Except.ok.inj h
      exact if_neg (not_le.2 hpos)

/-- **Lengths.** -/
theorem parseLength_iff {value : Value ℚ} {what : Str} {x : ℚ} :
    parseLength t value what = .ok x ↔ Length t value x ∧ 0 < x := by
  rw [parseLength, bind_positive, parseScaled_iff]

/-! ## Feeds -/

theorem Length.of_strip_eq {s s' : Str} {x : ℚ} (h : Length t (.str s) x) (hstrip : strip s = strip s') :
    Length t (.str s') x := by
  cases h with
  | bare hdecimal => exact .bare (hstrip ▸ hdecimal)
  | unit hquantity => exact .unit (hquantity.of_strip_eq clear_length hstrip)

theorem notMem_of_notMem_strip {c : Char} (hc : isSpace c = false) {s : Str} (h : c ∉ strip s) : c ∉ s := by
  obtain ⟨front, back, hfront, hback, hs⟩ := exists_strip s
  have hblank : ∀ {blank : Str}, (∀ d ∈ blank, isSpace d) → c ∉ blank := by
    intro blank hblank hmem
    rw [hblank c hmem] at hc
    cases hc
  rw [hs]
  simp only [List.mem_append, not_or]
  exact ⟨hblank hfront, h, hblank hback⟩

/-- There is no slash in a length. -/
theorem Length.notMem_slash {s : Str} {x : ℚ} (h : Length t (.str s) x) : '/' ∉ s := by
  have hdigit : t.isDigit '/' = false := t.not_isDigit (by decide) rfl
  cases h with
  | bare hdecimal =>
    refine notMem_of_notMem_strip rfl fun hmem => ?_
    rcases hdecimal.mem _ hmem with h | h
    · rw [hdigit] at h
      cases h
    · exact absurd h (by decide)
  | unit hquantity =>
    refine hquantity.notMem rfl hdigit (by decide) (by decide) ?_
    have hnames : ((spelled lengthNames).all fun p => ! p.1.contains '/') = true := by decide
    intro p hp
    simpa using List.all_eq_true.1 hnames p hp

theorem mem_perMinute {name : Str} {factor : ℚ} (h : (name, factor) ∈ perMinute) :
    name ≠ [] ∧ ∀ c ∈ name, c ≠ '.' ∧ c ≠ '/' ∧ isSpace c = false := by
  have hall : (perMinute.all fun p => ! p.1.isEmpty && p.1.all fun c =>
      c != '.' && c != '/' && ! isSpace c) = true := by decide
  obtain ⟨hne, hname⟩ := Bool.and_eq_true_iff.1 (List.all_eq_true.1 hall _ h)
  refine ⟨by simpa using hne, fun c hc => ?_⟩
  simpa [and_assoc] using List.all_eq_true.1 hname c hc

theorem rstrip_append {c : Char} {s points : Str} (hpoints : ∀ d ∈ points, d = c)
    (hs : ∀ d ∈ s, d ≠ c) : rstrip c (s ++ points) = s := by
  have hreverse : ∀ d ∈ points.reverse, (d == c) = true :=
    fun d hd => beq_iff_eq.2 (hpoints d (List.mem_reverse.1 hd))
  rw [rstrip, List.reverse_append, List.dropWhile_append_of_pos hreverse]
  cases h : s.reverse with
  | nil => rw [List.reverse_eq_nil_iff.1 h]; rfl
  | cons d rest =>
    have hd : d ≠ c := hs d (List.mem_reverse.1 (h ▸ List.mem_cons_self))
    rw [List.dropWhile_cons_of_neg (by simpa using hd), ← h, List.reverse_reverse]

theorem mem_lower {c : Char} {s : Str} (h : c ∈ s) (hlower : lowerChar c = c) : c ∈ lower s :=
  hlower ▸ List.mem_map_of_mem h

/-- What the code looks up of a time. -/
theorem Time.lookup {time : Str} {factor : ℚ} (h : Time time factor) :
    lookupItem (rstrip '.' (lower (strip time))) perMinute = some factor := by
  obtain ⟨hfront, hname, hpoints, hback⟩ := h
  rename_i front name points back
  obtain ⟨hne, hchars⟩ := mem_perMinute hname
  have hspace : ∀ c ∈ name ++ points, isSpace c = false := by
    intro c hc
    rcases List.mem_append.1 hc with hc | hc
    · refine Bool.eq_false_iff.2 fun hspace => ?_
      rw [(hchars c (mem_lower hc (lowerChar_of_isSpace hspace))).2.2] at hspace
      cases hspace
    · rw [hpoints c hc]
      rfl
  have htrimmed : Trimmed (name ++ points) :=
    ⟨fun c hc => hspace c (List.mem_of_mem_head? hc), fun c hc => hspace c (List.mem_of_getLast? hc)⟩
  have hlower : ∀ c ∈ lower points, c = '.' := by
    intro c hc
    obtain ⟨d, hd, rfl⟩ := List.mem_map.1 hc
    rw [hpoints d hd]
    decide
  rw [strip_append hfront hback htrimmed, lower_append,
    rstrip_append hlower fun c hc => (hchars c hc).1]
  exact lookupItem_of_mem (by decide) hname

theorem Time.notMem_slash {time : Str} {factor : ℚ} (h : Time time factor) : '/' ∉ time := by
  obtain ⟨hfront, hname, hpoints, hback⟩ := h
  have hblank : ∀ {blank : Str}, (∀ c ∈ blank, isSpace c) → '/' ∉ blank :=
    fun h hmem => absurd (h _ hmem) (by decide)
  simp only [List.mem_append, not_or]
  refine ⟨hblank hfront, ⟨fun hmem => ?_, fun hmem => absurd (hpoints _ hmem) (by decide)⟩, hblank hback⟩
  exact ((mem_perMinute hname).2 _ (mem_lower hmem (by decide))).2.1 rfl

/-- What is looked up is a time. -/
theorem time_of_lookup {time : Str} {factor : ℚ}
    (h : lookupItem (rstrip '.' (lower (strip time))) perMinute = some factor) : Time time factor := by
  obtain ⟨front, back, hfront, hback, htime⟩ := exists_strip time
  have hparts : strip time = (strip time).rdropWhile (· == '.') ++ (strip time).rtakeWhile (· == '.') :=
    List.rdropWhile_append_rtakeWhile.symm
  have hpoints : ∀ c ∈ (strip time).rtakeWhile (· == '.'), c = '.' := by
    intro c hc
    exact beq_iff_eq.1 (List.mem_rtakeWhile_imp (p := (· == '.')) hc)
  have hlower : ∀ s : Str, rstrip '.' (lower s) = lower (s.rdropWhile (· == '.')) := by
    intro s
    have hsame : ((· == '.') ∘ lowerChar : Char → Bool) = (· == '.') := by
      funext c
      rw [Function.comp_apply, Bool.eq_iff_iff, beq_iff_eq, beq_iff_eq]
      exact lowerChar_eq_iff (by decide) (by decide)
    rw [rstrip, lower, ← List.map_reverse, List.dropWhile_map, hsame, ← List.map_reverse]
    rfl
  rw [hlower] at h
  rw [htime, hparts]
  exact .mk hfront (mem_of_lookupItem h) hpoints hback

theorem rpartitionSlash_append {s s' : Str} (h : '/' ∉ s') : rpartitionSlash (s ++ '/' :: s') = (s, s') := by
  rw [rpartitionSlash, List.reverse_append, List.reverse_cons, List.append_assoc, List.singleton_append,
    partition_append_cons _ (by simpa using h), List.reverse_reverse, List.reverse_reverse]

theorem rpartitionSlash_eq {s : Str} (h : '/' ∈ s) :
    s = (rpartitionSlash s).1 ++ '/' :: (rpartitionSlash s).2 := by
  have heq := congrArg List.reverse (partition_eq (List.mem_reverse.2 h))
  rwa [List.reverse_reverse, List.reverse_append, List.reverse_cons, List.append_assoc,
    List.singleton_append] at heq

theorem Time.of_strip_eq {time time' : Str} {factor : ℚ} (h : Time time factor)
    (hstrip : strip time = strip time') : Time time' factor :=
  time_of_lookup (hstrip ▸ h.lookup)

theorem map_ok {ε α β : Type} {f : α → β} {r : Except ε α} {y : β} :
    r.map f = .ok y ↔ ∃ x, r = .ok x ∧ f x = y := by
  cases r with
  | error e =>
    constructor
    · intro h
      cases h
    · rintro ⟨x, h, -⟩
      cases h
  | ok x =>
    constructor
    · intro h
      exact ⟨x, rfl, Except.ok.inj h⟩
    · rintro ⟨x', h, rfl⟩
      obtain rfl := Except.ok.inj h
      rfl

theorem parseRate_iff {s what : Str} {x : ℚ} : parseRate t s what = .ok x ↔ Feed t (.str s) x := by
  constructor
  · intro h
    rw [parseRate] at h
    split at h
    · rename_i hslash
      have hparts := rpartitionSlash_eq hslash
      generalize rpartitionSlash (strip s) = parts at h hparts
      obtain ⟨length, time⟩ := parts
      dsimp only at h hparts
      split at h
      · cases h
      · rename_i factor hlookup
        obtain ⟨y, hscaled, rfl⟩ := map_ok.1 h
        obtain ⟨front, back, hfront, hback, hs⟩ := exists_strip s
        rw [hs, hparts, List.append_assoc, ← List.append_assoc, List.cons_append]
        exact .per ((parseScaled_iff.1 hscaled).of_strip_eq (strip_front hfront _).symm)
          ((time_of_lookup hlookup).of_strip_eq (strip_back hback _).symm)
    · obtain ⟨y, hscaled, rfl⟩ := map_ok.1 h
      rw [mul_one]
      exact .perMinute ((parseScaled_iff.1 hscaled).of_strip_eq (strip_eq_self_iff.2 (trimmed_strip s)))
  · intro h
    generalize hvalue : Value.str s = value at h
    cases h with
    | perMinute hlength =>
      subst hvalue
      have hslash : '/' ∉ strip s := by
        intro hmem
        obtain ⟨front, back, -, -, hs⟩ := exists_strip s
        exact hlength.notMem_slash (by rw [hs]; simp [hmem])
      rw [parseRate, if_neg hslash]
      have hstrip := hlength.of_strip_eq (strip_eq_self_iff.2 (trimmed_strip s)).symm
      exact map_ok.2 ⟨x, parseScaled_iff.2 hstrip, mul_one x⟩
    | @per length time x factor hlength htime =>
      obtain rfl := Value.str.inj hvalue
      have hstrip := strip_append_cons (c := '/') rfl length time
      have htime' := htime.of_strip_eq (strip_rdropWhile time).symm
      rw [parseRate, hstrip, if_pos (by simp), rpartitionSlash_append htime'.notMem_slash]
      dsimp only
      rw [htime'.lookup]
      exact map_ok.2 ⟨x, parseScaled_iff.2 (hlength.of_strip_eq (strip_dropWhile length).symm), rfl⟩

/-- **Feeds.** -/
theorem parseFeed_iff {value : Value ℚ} {what : Str} {x : ℚ} :
    parseFeed t value what = .ok x ↔ Feed t value x ∧ 0 < x := by
  have hother : ∀ {e : CamConfigError}, (∀ y, ¬ Length t value y) → (∀ s, value ≠ .str s) →
      ((.error e : Except CamConfigError ℚ) = .ok x ↔ Feed t value x) := by
    intro e hno hstr
    refine ⟨nofun, fun h => ?_⟩
    cases h with
    | perMinute hlength => exact absurd hlength (hno _)
    | per => exact absurd rfl (hstr _)
  unfold parseFeed
  dsimp only
  rw [bind_positive]
  refine and_congr_left fun _ => ?_
  cases value with
  | str s => exact parseRate_iff
  | int n =>
    refine ⟨fun h => ?_, fun h => ?_⟩
    · obtain rfl := Except.ok.inj h
      exact .perMinute (.int n)
    · cases h with
      | perMinute hlength =>
        cases hlength
        rfl
  | float y =>
    refine ⟨fun h => ?_, fun h => ?_⟩
    · obtain rfl := Except.ok.inj h
      exact .perMinute (.float y)
    · cases h with
      | perMinute hlength =>
        cases hlength
        rfl
  | none => exact hother nofun nofun
  | bool b => exact hother nofun nofun
  | bytes b => exact hother nofun nofun
  | list vs => exact hother nofun nofun
  | dict items => exact hother nofun nofun

/-! ## Numbers -/

/-- No unit of speed ends in another one. -/
theorem find_speed {name s : Str} (hmem : name ∈ speedSuffixes) (hsuffix : name.isSuffixOf s = true) :
    speedSuffixes.find? (fun suffix => suffix.isSuffixOf s) = some name := by
  have halone : (speedSuffixes.all fun name => speedSuffixes.all fun name' =>
      ! name.isSuffixOf name' || decide (name = name')) = true := by decide
  have hsame : ∀ name ∈ speedSuffixes, ∀ name' ∈ speedSuffixes, name <:+ name' → name = name' := by
    intro name hname name' hname' hle
    have h := List.all_eq_true.1 (List.all_eq_true.1 halone name hname) name' hname'
    rw [List.isSuffixOf_iff_suffix.2 hle] at h
    simpa using h
  have hsome : (speedSuffixes.find? fun suffix => suffix.isSuffixOf s).isSome :=
    List.find?_isSome.2 ⟨name, hmem, hsuffix⟩
  obtain ⟨name', hfind⟩ := Option.isSome_iff_exists.1 hsome
  have hmem' := List.mem_of_find?_eq_some hfind
  have hfound := List.find?_some hfind
  have hsuffix' : name' <:+ s := List.isSuffixOf_iff_suffix.1 hfound
  rcases List.suffix_or_suffix_of_suffix hsuffix' (List.isSuffixOf_iff_suffix.1 hsuffix) with hle | hle
  · rw [hfind, hsame name' hmem' name hmem hle]
  · rw [hfind, hsame name hmem name' hmem' hle]

theorem mem_speed {name : Str} : (name, ()) ∈ speedSuffixes.map (fun s => (s, ())) ↔ name ∈ speedSuffixes := by
  simp

theorem numberOf_dropSpeed_of_quantity {s : Str} {x : ℚ}
    (h : IsQuantity t (speedSuffixes.map fun s => (s, ())) s x ()) :
    numberOf t (dropSpeed (strip s)) = some x := by
  obtain ⟨hfront, hnumber, hbetween, hunit, hback⟩ := h
  rename_i front number between unit back
  rw [clear_speed.strip_eq hfront hnumber hunit hback, dropSpeed,
    find_speed (mem_speed.1 hunit) (isSuffixOf_unit number between unit)]
  dsimp only
  rw [hnumber.strip_take hbetween]
  exact numberOf_iff.2 hnumber

/-- A number ends in no unit. -/
theorem dropSpeed_of_decimal {s : Str} {x : ℚ} (h : IsDecimal t s x) : dropSpeed s = s := by
  obtain ⟨s', c, rfl, hc⟩ := h.getLast?
  have hnone : speedSuffixes.find? (fun suffix => suffix.isSuffixOf (lower (s' ++ [c]))) = none := by
    refine List.find?_eq_none.2 fun name hname hsuffix => ?_
    have hplain := clear_speed.plain (t := t) _ (mem_speed.2 hname) c
    obtain ⟨rest, hrest⟩ := List.isSuffixOf_iff_suffix.1 hsuffix
    have hne : name ≠ [] := clear_speed.ne_nil (t := t) _ (mem_speed.2 hname)
    have hlast := congrArg List.getLast? hrest
    rw [lower_append, List.getLast?_append_of_ne_nil _ hne, lower, lower, List.map_singleton,
      List.getLast?_concat, lowerChar_of_closes hc] at hlast
    rw [(hplain (List.mem_of_getLast? hlast)).1] at hc
    cases hc
  rw [dropSpeed, hnone]

theorem plain_of_numberOf {s : Str} {x : ℚ} (h : numberOf t (dropSpeed (strip s)) = some x) :
    Plain t (.str s) x := by
  rw [dropSpeed] at h
  split at h
  · rename_i suffix hfind
    have hfound := List.find?_some hfind
    exact .speed (isQuantity_of_suffix (mem_speed.2 (List.mem_of_find?_eq_some hfind)) hfound h)
  · exact .bare (numberOf_iff.1 h)

theorem numberOf_dropSpeed {s : Str} {x : ℚ} :
    numberOf t (dropSpeed (strip s)) = some x ↔ Plain t (.str s) x := by
  refine ⟨plain_of_numberOf, fun h => ?_⟩
  cases h with
  | bare hdecimal =>
    rw [dropSpeed_of_decimal hdecimal]
    exact numberOf_iff.2 hdecimal
  | speed hquantity => exact numberOf_dropSpeed_of_quantity hquantity

/-- **Numbers.** -/
theorem parseNumber_iff {value : Value ℚ} {what : Str} {x : ℚ} :
    parseNumber t value what = .ok x ↔ Plain t value x ∧ 0 < x := by
  have hother : ∀ {e : CamConfigError}, (∀ y, ¬ Plain t value y) →
      ((.error e : Except CamConfigError ℚ) = .ok x ↔ Plain t value x) :=
    fun hno => ⟨nofun, fun h => absurd h (hno _)⟩
  unfold parseNumber
  dsimp only
  rw [bind_positive]
  refine and_congr_left fun _ => ?_
  cases value with
  | str s =>
    rw [← numberOf_dropSpeed]
    dsimp only
    cases numberOf t (dropSpeed (strip s)) with
    | none => exact ⟨fun h => (by cases h), fun h => (by cases h)⟩
    | some number =>
      constructor
      · intro h
        exact congrArg some (Except.ok.inj h)
      · intro h
        exact congrArg Except.ok (Option.some.inj h)
  | int n =>
    refine ⟨fun h => ?_, fun h => ?_⟩
    · obtain rfl := Except.ok.inj h
      exact .int n
    · cases h
      rfl
  | float y =>
    refine ⟨fun h => ?_, fun h => ?_⟩
    · obtain rfl := Except.ok.inj h
      exact .float y
    · cases h
      rfl
  | none => exact hother nofun
  | bool b => exact hother nofun
  | bytes b => exact hother nofun
  | list vs => exact hother nofun
  | dict items => exact hother nofun

end

end PartCAD.Cam
