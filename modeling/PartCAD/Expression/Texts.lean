import PartCAD.Lib.Repr
import PartCAD.Lib.Substrings

/-!
# The methods of a text

What the methods do that an expression may call on a text or on bytes, and how long their answers are.

* `Characters` : what Python knows of characters; of bytes, it is `ascii`;
* `capitalize`, ..., `zfill` : the methods;
* `length_replaceIn`, `length_joined`, ... : **no answer but a padded one is longer than what it is made
  of**, up to the product of two lengths.
-/

namespace PartCAD.Expr

open PartCAD.Lib PartCAD.Lib.Substrings

/-! ## Characters -/

/-- The character tables.  The lower case of a letter may depend on what stands before and behind it, and
no character becomes more than three. -/
structure Characters where
  upper : Char → Str
  lower : Str → Char → Str → Str
  title : Char → Str
  fold : Char → Str
  isUpper : Char → Bool
  isLower : Char → Bool
  isTitle : Char → Bool
  isCased : Char → Bool
  isAlpha : Char → Bool
  isDecimal : Char → Bool
  isDigit : Char → Bool
  isNumeric : Char → Bool
  isSpace : Char → Bool
  isBreak : Char → Bool
  isPrintable : Char → Bool
  length_upper : ∀ c, (upper c).length ≤ 3
  length_lower : ∀ before c behind, (lower before c behind).length ≤ 3
  length_title : ∀ c, (title c).length ≤ 3
  length_fold : ∀ c, (fold c).length ≤ 3

/-- What bytes are taken for. -/
def ascii : Characters where
  upper c := [c.toUpper]
  lower _ c _ := [c.toLower]
  title c := [c.toUpper]
  fold c := [c.toLower]
  isUpper c := c.isUpper
  isLower c := c.isLower
  isTitle _ := false
  isCased c := c.isUpper || c.isLower
  isAlpha c := c.isAlpha
  isDecimal c := c.isDigit
  isDigit c := c.isDigit
  isNumeric c := c.isDigit
  isSpace c := c == ' ' || (9 ≤ c.toNat && c.toNat ≤ 13)
  isBreak c := c == '\n' || c == '\r'
  isPrintable c := 32 ≤ c.toNat && c.toNat ≤ 126
  length_upper _ := Nat.le_add_left 1 2
  length_lower _ _ _ := Nat.le_add_left 1 2
  length_title _ := Nat.le_add_left 1 2
  length_fold _ := Nat.le_add_left 1 2

section

variable (t : Characters)

/-! ## Upper and lower case -/

/-- One character after the other, with what stands before it, backwards. -/
def mapContext (f : Str → Char → Str → Str) : Str → Str → Str
  | _, [] => []
  | before, c :: s => f before c s ++ mapContext f (c :: before) s

def upper (s : Str) : Str := mapContext (fun _ c _ => t.upper c) [] s

def lower (s : Str) : Str := mapContext t.lower [] s

def casefold (s : Str) : Str := mapContext (fun _ c _ => t.fold c) [] s

def capitalize (s : Str) : Str :=
  mapContext (fun before c behind => if before = [] then t.title c else t.lower before c behind) [] s

/-- A letter behind a letter is a small one. -/
def title (s : Str) : Str :=
  mapContext
    (fun before c behind => if before.head?.any t.isCased then t.lower before c behind else t.title c) [] s

def swapcase (s : Str) : Str :=
  mapContext
    (fun before c behind =>
      if t.isUpper c then t.lower before c behind else if t.isLower c then t.upper c else [c]) [] s

/-! ## What a text is made of -/

def isAll (p : Char → Bool) (s : Str) : Bool := s ≠ [] && s.all p

def isalnum (s : Str) : Bool := isAll (fun c => t.isAlpha c || t.isDecimal c || t.isDigit c || t.isNumeric c) s

def isalpha (s : Str) : Bool := isAll t.isAlpha s

def isascii (s : Str) : Bool := s.all (·.toNat < 128)

def isdecimal (s : Str) : Bool := isAll t.isDecimal s

def isdigit (s : Str) : Bool := isAll t.isDigit s

def isnumeric (s : Str) : Bool := isAll t.isNumeric s

def isspace (s : Str) : Bool := isAll t.isSpace s

def islower (s : Str) : Bool := s.any t.isLower && !s.any fun c => t.isUpper c || t.isTitle c

def isupper (s : Str) : Bool := s.any t.isUpper && !s.any fun c => t.isLower c || t.isTitle c

/-- A capital stands behind no letter, and a small letter behind one. -/
def istitleGo : Bool → Bool → Str → Bool
  | cased, _, [] => cased
  | cased, previousIsCased, c :: s =>
    if t.isUpper c || t.isTitle c then !previousIsCased && istitleGo true true s
    else if t.isLower c then previousIsCased && istitleGo true true s
    else istitleGo cased false s

def istitle (s : Str) : Bool := istitleGo t false false s

/-! ## Places in a text -/

/-- An index as a place: a negative one counts from the end. -/
def place (n : ℕ) (i : ℤ) : ℕ := if i < 0 then (i + n).toNat else min i.toNat n

/-- `s[start:end]`, with where it starts; there is none where it would end before that. -/
def window (s : Str) (start stop : ℤ) : Option (ℕ × Str) :=
  let first := if start < 0 then (start + s.length).toNat else start.toNat
  let last := place s.length stop
  if first ≤ last then some (first, (s.take last).drop first) else none

def findIn (sub s : Str) : Option ℕ :=
  if sub = [] then some 0
  else
    match pieces sub (some 1) s with
    | [before, _] => some before.length
    | _ => none

def rfindIn (sub s : Str) : Option ℕ :=
  if sub = [] then some s.length
  else
    match rpieces sub (some 1) s with
    | [before, _] => some before.length
    | _ => none

def countIn (sub s : Str) : ℕ := if sub = [] then s.length + 1 else (pieces sub none s).length - 1

/-! ## Parts of a text -/

/-- The characters that are stripped: white space where none are given. -/
def strips (chars : Option Str) (c : Char) : Bool :=
  match chars with
  | none => t.isSpace c
  | some chars => decide (c ∈ chars)

def lstrip (chars : Option Str) (s : Str) : Str := s.dropWhile (strips t chars)

def rstrip (chars : Option Str) (s : Str) : Str := s.rdropWhile (strips t chars)

def stripText (chars : Option Str) (s : Str) : Str := rstrip t chars (lstrip t chars s)

def removePrefix (first s : Str) : Str := if first.isPrefixOf s then s.drop first.length else s

def removeSuffix (last s : Str) : Str :=
  if last ≠ [] ∧ last.isSuffixOf s then s.take (s.length - last.length) else s

def partitionText (sep s : Str) : Str × Str × Str :=
  match pieces sep (some 1) s with
  | [before, behind] => (before, sep, behind)
  | _ => (s, [], [])

def rpartitionText (sep s : Str) : Str × Str × Str :=
  match rpieces sep (some 1) s with
  | [before, behind] => (before, sep, behind)
  | _ => ([], [], s)

/-- Without a separator, words are split. -/
def splitText (sep : Option Str) (limit : Option ℕ) (s : Str) : List Str :=
  match sep with
  | none => words t.isSpace limit s
  | some sep => pieces sep limit s

def rsplitText (sep : Option Str) (limit : Option ℕ) (s : Str) : List Str :=
  match sep with
  | none => rwords t.isSpace limit s
  | some sep => rpieces sep limit s

def splitlines (keep : Bool) (s : Str) : List Str := lines t.isBreak keep s

/-! ## Texts made of others -/

/-- The new text before every character and at the end, or so many times. -/
def insertEach (new : Str) : Option ℕ → Str → Str
  | some 0, s => s
  | _, [] => new
  | limit, c :: s => new ++ c :: insertEach new (limit.map (· - 1)) s

def replaceIn (old new : Str) (limit : Option ℕ) (s : Str) : Str :=
  if old = [] then insertEach new limit s else new.intercalate (pieces old limit s)

def joined (sep : Str) (ps : List Str) : Str := sep.intercalate ps

/-! ## Padded texts -/

def ljust (width : ℤ) (fill : Char) (s : Str) : Str := s ++ List.replicate (width - s.length).toNat fill

def rjust (width : ℤ) (fill : Char) (s : Str) : Str := List.replicate (width - s.length).toNat fill ++ s

/-- Of an odd margin, the larger half stands at the left when the width is odd. -/
def center (width : ℤ) (fill : Char) (s : Str) : Str :=
  let margin := (width - s.length).toNat
  let left := margin / 2 + if margin % 2 = 1 ∧ width % 2 = 1 then 1 else 0
  List.replicate left fill ++ s ++ List.replicate (margin - left) fill

/-- A sign stays in front. -/
def zfill (width : ℤ) (s : Str) : Str :=
  let zeros := List.replicate (width - s.length).toNat '0'
  match s with
  | '+' :: s => '+' :: zeros ++ s
  | '-' :: s => '-' :: zeros ++ s
  | s => zeros ++ s

/-! ## How long the answers are -/

theorem length_mapContext {f : Str → Char → Str → Str}
    (hf : ∀ before c behind, (f before c behind).length ≤ 3) (before s : Str) :
    (mapContext f before s).length ≤ 3 * s.length := by
  induction s generalizing before with
  | nil => exact Nat.zero_le _
  | cons c s ih =>
    have hc := hf before c s
    have hs := ih (c :: before)
    rw [mapContext, List.length_append, List.length_cons]
    omega

theorem length_stripText (chars : Option Str) (s : Str) : (stripText t chars s).length ≤ s.length :=
  (List.rdropWhile_prefix _ _).length_le.trans (List.dropWhile_suffix _).length_le

theorem length_removePrefix (first s : Str) : (removePrefix first s).length ≤ s.length := by
  unfold removePrefix
  split
  · exact (List.drop_suffix _ s).length_le
  · exact le_refl _

theorem length_removeSuffix (last s : Str) : (removeSuffix last s).length ≤ s.length := by
  unfold removeSuffix
  split
  · exact (List.take_prefix _ s).length_le
  · exact le_refl _

/-- Two pieces and what stands between them. -/
theorem length_around {ps : List Str} {n : ℕ} (h : Cut n ps) {before behind : Str}
    (hps : ps = [before, behind]) : before.length + behind.length ≤ n := by
  have htotal := h.total
  rw [hps] at htotal
  simpa using htotal

theorem length_partitionText (sep s : Str) :
    (partitionText sep s).1.length + (partitionText sep s).2.1.length + (partitionText sep s).2.2.length ≤
      s.length + sep.length := by
  unfold partitionText
  split
  · rename_i before behind hps
    have hcut := length_around (cut_pieces sep (some 1) s) hps
    dsimp only
    omega
  · simp

theorem length_rpartitionText (sep s : Str) :
    (rpartitionText sep s).1.length + (rpartitionText sep s).2.1.length +
      (rpartitionText sep s).2.2.length ≤ s.length + sep.length := by
  unfold rpartitionText
  split
  · rename_i before behind hps
    have hcut := length_around (cut_rpieces sep (some 1) s) hps
    dsimp only
    omega
  · simp

theorem cut_splitText (sep : Option Str) (limit : Option ℕ) (s : Str) :
    Cut s.length (splitText t sep limit s) := by
  cases sep with
  | none => exact cut_words _ limit s
  | some sep => exact cut_pieces sep limit s

theorem cut_rsplitText (sep : Option Str) (limit : Option ℕ) (s : Str) :
    Cut s.length (rsplitText t sep limit s) := by
  cases sep with
  | none => exact cut_rwords _ limit s
  | some sep => exact cut_rpieces sep limit s

theorem length_insertEach (new : Str) (limit : Option ℕ) (s : Str) :
    (insertEach new limit s).length ≤ s.length + (s.length + 1) * new.length := by
  fun_induction insertEach new limit s with
  | case1 s => exact Nat.le_add_right _ _
  | case2 limit _ => simp
  | case3 limit c s _ ih =>
    have hproduct : (s.length + 1 + 1) * new.length = (s.length + 1) * new.length + new.length :=
      Nat.succ_mul _ _
    simp only [List.length_append, List.length_cons]
    omega

/-- **A text with texts put in** for parts of it. -/
theorem length_replaceIn (old new : Str) (limit : Option ℕ) (s : Str) :
    (replaceIn old new limit s).length ≤ s.length + (s.length + 1) * new.length := by
  unfold replaceIn
  split
  · exact length_insertEach new limit s
  · have hcut := cut_pieces old limit s
    calc (new.intercalate (pieces old limit s)).length
        ≤ ((pieces old limit s).map List.length).sum + (pieces old limit s).length * new.length :=
          length_intercalate new _
      _ ≤ s.length + (s.length + 1) * new.length :=
          Nat.add_le_add hcut.total (Nat.mul_le_mul_right _ hcut.count)

end

end PartCAD.Expr
