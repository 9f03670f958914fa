import PartCAD.Lib.Decimal
import PartCAD.Lib.Lexemes

/-!
# The records of a STEP file

The text of the file is taken apart by hand: comments go first, and then the records are searched, and their
argument lists are split.

* `withoutComments`, `listAt`, `arguments`, `scan`, `parts` : how the text is read;
* `withoutComments_text` : **comments are left out, and strings stay**;
* `listAt_text`, `arguments_text` : a list that is closed, and its arguments.
-/

namespace PartCAD.Step

open PartCAD.Lib PartCAD.Lib.Lexeme

/-! ## Comments -/

/-- The loop of `_without_comments`: so many characters of a string are still kept, and so many of a comment
left out. -/
@[grind =]
def withoutCommentsGo : ℕ → ℕ → Str → Str
  | _, _, [] => []
  | kept, dropped + 1, _ :: rest => withoutCommentsGo kept dropped rest
  | kept + 1, 0, c :: rest => c :: withoutCommentsGo kept 0 rest
  | 0, 0, c :: rest =>
    if c = '\'' then
      match stringLength rest with
      | none => c :: rest
      | some n => c :: withoutCommentsGo n 0 rest
    else if c = '/' ∧ rest.head? = some '*' then
      match commentLength rest.tail with
      | none => []
      | some n => withoutCommentsGo 0 (n + 1) rest
    else c :: withoutCommentsGo 0 0 rest

/-- `_without_comments` -/
def withoutComments (s : Str) : Str := if ['/', '*'] <:+: s then withoutCommentsGo 0 0 s else s

/-! ## Lists -/

/-- The loop of `_list_at`: how far it is to the parenthesis that closes the list, over so many characters of
a string. -/
@[grind =]
def listLength : ℕ → ℤ → Str → Option ℕ
  | _, _, [] => none
  | skip + 1, depth, _ :: rest => (listLength skip depth rest).map (· + 1)
  | 0, depth, c :: rest =>
    if c = '\'' then (stringLength rest).bind fun n => (listLength n depth rest).map (· + 1)
    else if c = '(' then (listLength 0 (depth + 1) rest).map (· + 1)
    else if c = ')' then
      if depth - 1 = 0 then some 0 else (listLength 0 (depth - 1) rest).map (· + 1)
    else (listLength 0 depth rest).map (· + 1)

/-- `_list_at`, of a text from the opening parenthesis on -/
def listAt (s : Str) : Option Str := (listLength 0 0 s).map fun n => (s.take n).tail

/-- Puts a text before the first of several. -/
def glue (s : Str) : List Str → List Str
  | [] => [s]
  | p :: ps => (s ++ p) :: ps

/-- The loop of `_arguments`: what stands between commas, over so many characters of a string. -/
@[grind =]
def argumentsGo : ℕ → ℤ → Str → List Str
  | _, _, [] => [[]]
  | skip + 1, depth, c :: rest => glue [c] (argumentsGo skip depth rest)
  | 0, depth, c :: rest =>
    if c = '\'' then
      match stringLength rest with
      | none => [c :: rest]
      | some n => glue [c] (argumentsGo n depth rest)
    else if c = '(' then glue [c] (argumentsGo 0 (depth + 1) rest)
    else if c = ')' then glue [c] (argumentsGo 0 (depth - 1) rest)
    else if c = ',' ∧ depth = 0 then [] :: argumentsGo 0 depth rest
    else glue [c] (argumentsGo 0 depth rest)

/-- `_arguments` -/
def arguments (s : Str) : List Str := (argumentsGo 0 0 s).map strip

/-! ## Records -/

def startsName (c : Char) : Bool := c.isAlpha ∨ c = '_'

def inName (c : Char) : Bool := c.isAlphanum ∨ c = '_'

/-- `([A-Za-z_][A-Za-z0-9_]*)?` -/
def takeName (s : Str) : Str := if (s.head?.any startsName) = true then s.takeWhile inName else []

/-- A parenthesis behind blanks, and the text from there on. -/
def opening (s : Str) : Option Str :=
  match s.dropWhile isSpace with
  | '(' :: rest => some ('(' :: rest)
  | _ => none

section

variable (t : Digits)

/-- `#(\d+)\s*=\s*([A-Za-z_][A-Za-z0-9_]*)?\s*\(` at the start of a text: the digits, the name, and the text
from the parenthesis on. -/
def recordStart : Str → Option (Str × Str × Str)
  | '#' :: rest =>
    let digits := rest.takeWhile t.isDigit
    if digits = [] then none
    else
      match (rest.drop digits.length).dropWhile isSpace with
      | '=' :: rest =>
        let rest := rest.dropWhile isSpace
        let name := takeName rest
        (opening (rest.drop name.length)).map fun list => (digits, name, list)
      | _ => none
  | _ => none

/-- The loop of `_scan`, over so many characters of a string or a record. -/
@[grind =]
def scanGo : ℕ → Str → List (ℕ × Str × Str)
  | _, [] => []
  | skip + 1, _ :: rest => scanGo skip rest
  | 0, c :: rest =>
    if c = '\'' then
      match stringLength rest with
      | none => []
      | some n => scanGo n rest
    else
      match recordStart t (c :: rest) with
      | none => scanGo 0 rest
      | some (digits, name, list) =>
        match listAt list with
        | none => []
        | some inside => (t.number digits, name.map Char.toUpper, inside) ::
            scanGo (rest.length - list.length + inside.length + 2) rest

/-- `_scan`: the number, the entity (none in a complex record) and the inside of each record. -/
def scan (s : Str) : List (ℕ × Str × Str) := scanGo t 0 s

end

/-! ## Parts -/

/-- The characters of a word, as `\w` has them. -/
structure Words where
  isWord : Char → Bool
  latin : ∀ c : Char, c.toNat < 128 → isWord c = inName c
  space : ∀ c : Char, isSpace c → isWord c = false

section

variable (w : Words)

/-- `\b([A-Za-z_][A-Za-z0-9_]*)\s*\(`, behind a character of a word or none: the name, and the text from the
parenthesis on. -/
def partStart (behindWord : Bool) (s : Str) : Option (Str × Str) :=
  if behindWord = false ∧ (s.head?.any startsName) = true then
    (opening (s.dropWhile inName)).map fun list => (s.takeWhile inName, list)
  else none

/-- The loop of `_parts`. -/
@[grind =]
def partsGo : ℕ → Bool → Str → List (Str × Str)
  | _, _, [] => []
  | skip + 1, _, c :: rest => partsGo skip (w.isWord c) rest
  | 0, behindWord, c :: rest =>
    if c = '\'' then
      match stringLength rest with
      | none => []
      | some n => partsGo n (w.isWord c) rest
    else
      match partStart behindWord (c :: rest) with
      | none => partsGo 0 (w.isWord c) rest
      | some (name, list) =>
        match listAt list with
        | none => []
        | some arguments => (name.map Char.toUpper, arguments) ::
            partsGo (rest.length - list.length + arguments.length + 2) (w.isWord c) rest

/-- `_parts`: the name and the arguments of each part of a complex record. -/
def parts (inside : Str) : List (Str × Str) := partsGo w 0 false inside

end

/-! ## Texts without comments -/

theorem withoutCommentsGo_kept (s rest : Str) :
    withoutCommentsGo s.length 0 (s ++ rest) = s ++ withoutCommentsGo 0 0 rest := by
  induction s with
  | nil => rfl
  | cons c s ih => exact congrArg (List.cons c) ih

theorem withoutCommentsGo_dropped (s rest : Str) :
    withoutCommentsGo 0 s.length (s ++ rest) = withoutCommentsGo 0 0 rest := by
  induction s with
  | nil => rfl
  | cons c s ih => exact ih

theorem withoutCommentsGo_text {ls : List Lexeme} (h : Proper ls) :
    withoutCommentsGo 0 0 (text ls) = bareText ls := by
  induction ls with
  | nil => rfl
  | cons l ls ih =>
    obtain ⟨hfits, hproper⟩ := h
    have ih := ih hproper
    cases l with
    | char c =>
      have hnot : ¬ (c = '/' ∧ (text ls).head? = some '*') := fun h => hfits.2 h.1 h.2
      show withoutCommentsGo 0 0 (c :: text ls) = _
      rw [withoutCommentsGo, if_neg hfits.1, if_neg hnot, ih, bareText_char]
    | string content =>
      have hstring : text (string content :: ls) = '\'' :: ((doubled content ++ ['\'']) ++ text ls) := rfl
      have hlength : stringLength ((doubled content ++ ['\'']) ++ text ls) =
          some (doubled content ++ ['\'']).length := by
        rw [List.append_assoc, List.length_append]
        exact stringLength_doubled content hfits
      rw [hstring, withoutCommentsGo, if_pos rfl, hlength]
      show '\'' :: withoutCommentsGo _ 0 _ = _
      rw [withoutCommentsGo_kept, ih, bareText_string, List.append_assoc]
      rfl
    | comment content =>
      have hcomment : text (comment content :: ls) = '/' :: ('*' :: (content ++ ['*', '/'])) ++ text ls := rfl
      have hlength : commentLength (content ++ '*' :: '/' :: text ls) = some (content.length + 2) :=
        commentLength_content hfits _
      have htail : (('*' :: (content ++ ['*', '/'])) ++ text ls).tail = content ++ '*' :: '/' :: text ls := by simp
      rw [hcomment, List.cons_append, withoutCommentsGo, if_neg (by decide), if_pos ⟨rfl, rfl⟩, htail, hlength]
      show withoutCommentsGo 0 (content.length + 2 + 1) _ = _
      have hdropped := withoutCommentsGo_dropped ('*' :: (content ++ ['*', '/'])) (text ls)
      rw [List.length_cons, List.length_append] at hdropped
      exact hdropped.trans ih

/-- **Comments are left out, and strings stay.** -/
theorem withoutComments_text {ls : List Lexeme} (h : Proper ls) : withoutComments (text ls) = bareText ls := by
  rw [withoutComments]
  split
  · exact withoutCommentsGo_text h
  · next hnone =>
    have hplain : uncommented ls = ls := by
      refine List.filter_eq_self.mpr fun l hl => ?_
      cases l with
      | char c => rfl
      | string content => rfl
      | comment content =>
        obtain ⟨front, back, rfl⟩ := List.append_of_mem hl
        refine absurd ⟨text front, content ++ ['*', '/'] ++ text back, ?_⟩ hnone
        simp [toText]
    rw [bareText, hplain]

/-! ## What a list is -/

theorem listLength_skip (s : Str) (depth : ℤ) (rest : Str) :
    listLength s.length depth (s ++ rest) = (listLength 0 depth rest).map (· + s.length) := by
  induction s with
  | nil => simp
  | cons c s ih =>
    rw [List.cons_append, List.length_cons, listLength, ih, Option.map_map]
    rfl

/-- Behind an opened parenthesis, a text whose own ones are closed is passed over. -/
theorem listLength_text {anywhere : Bool} {ls : List Lexeme} (h : Balanced anywhere ls) {depth : ℤ}
    (hdepth : 1 ≤ depth) {rest : Str} (hrest : rest.head? ≠ some '\'') :
    listLength 0 depth (bareText ls ++ rest) = (listLength 0 depth rest).map (· + (bareText ls).length) := by
  induction h generalizing depth rest with
  | nil => simp
  | @char _ c ls hc _ _ ih =>
    have hmarks : c ≠ '\'' ∧ c ≠ '(' ∧ c ≠ ')' := by
      refine ⟨?_, ?_, ?_⟩ <;> rintro rfl <;> exact hc (by decide)
    rw [bareText_char, List.cons_append, listLength, if_neg hmarks.1, if_neg hmarks.2.1, if_neg hmarks.2.2,
      ih hdepth hrest, Option.map_map]
    rfl
  | @string _ content ls hopens hls ih =>
    have hhead := hls.head_bareText hopens rest hrest
    have hcut : bareText (string content :: ls) ++ rest =
        '\'' :: ((doubled content ++ ['\'']) ++ (bareText ls ++ rest)) := by simp
    have hlength : stringLength ((doubled content ++ ['\'']) ++ (bareText ls ++ rest)) =
        some (doubled content ++ ['\'']).length := by
      rw [List.append_assoc, List.length_append]
      exact stringLength_doubled content hhead
    rw [hcut, listLength, if_pos rfl, hlength, Option.bind_some, listLength_skip, ih hdepth hrest, Option.map_map,
      Option.map_map]
    refine congrArg (fun f => (listLength 0 depth rest).map f) (funext fun n => ?_)
    simp
    omega
  | comment _ _ ih => exact ih hdepth hrest
  | @group _ inner ls _ _ hinner ih =>
    have hcut : bareText (Lexeme.char '(' :: (inner ++ Lexeme.char ')' :: ls)) ++ rest =
        '(' :: (bareText inner ++ ')' :: (bareText ls ++ rest)) := by simp
    have hclose : depth + 1 - 1 = depth := by omega
    have hopen : ¬ depth = 0 := by omega
    rw [hcut, listLength, if_neg (by decide), if_pos rfl, hinner (by omega) (by simp), listLength,
      if_neg (by decide), if_neg (by decide), if_pos rfl, hclose, if_neg hopen, ih hdepth hrest, Option.map_map,
      Option.map_map, Option.map_map]
    refine congrArg (fun f => (listLength 0 depth rest).map f) (funext fun n => ?_)
    simp
    omega

/-- **The inside of a list** that is closed. -/
theorem listAt_text {anywhere : Bool} {ls : List Lexeme} (h : Balanced anywhere ls) (rest : Str) :
    listAt ('(' :: (bareText ls ++ ')' :: rest)) = some (bareText ls) := by
  have hlength : listLength 0 0 ('(' :: (bareText ls ++ ')' :: rest)) = some ((bareText ls).length + 1) := by
    rw [listLength, if_neg (by decide), if_pos rfl, zero_add, listLength_text h le_rfl (by simp), listLength,
      if_neg (by decide), if_neg (by decide), if_pos rfl, if_pos (by decide)]
    simp
  rw [listAt, hlength]
  simp

/-! ## What its arguments are -/

theorem glue_glue (s s' : Str) (ps : List Str) : glue s (glue s' ps) = glue (s ++ s') ps := by
  cases ps with
  | nil => rfl
  | cons p ps => exact congrArg (· :: ps) (List.append_assoc s s' p).symm

theorem glue_nil {ps : List Str} (h : ps ≠ []) : glue [] ps = ps := by
  cases ps with
  | nil => exact absurd rfl h
  | cons p ps => rfl

theorem glue_ne_nil (s : Str) (ps : List Str) : glue s ps ≠ [] := by
  cases ps <;> exact List.cons_ne_nil _ _

theorem argumentsGo_ne_nil (skip : ℕ) (depth : ℤ) (s : Str) : argumentsGo skip depth s ≠ [] := by
  cases s with
  | nil =>
    rw [argumentsGo]
    exact List.cons_ne_nil _ _
  | cons c rest =>
    cases skip with
    | succ skip => exact glue_ne_nil _ _
    | zero =>
      rw [argumentsGo]
      split
      · split
        · exact List.cons_ne_nil _ _
        · exact glue_ne_nil _ _
      · repeat' split
        all_goals first | exact glue_ne_nil _ _ | exact List.cons_ne_nil _ _

theorem argumentsGo_skip (s : Str) (depth : ℤ) (rest : Str) :
    argumentsGo s.length depth (s ++ rest) = glue s (argumentsGo 0 depth rest) := by
  induction s with
  | nil => exact (glue_nil (argumentsGo_ne_nil 0 depth rest)).symm
  | cons c s ih =>
    rw [List.cons_append, List.length_cons, argumentsGo, ih, glue_glue]
    rfl

/-- A text without a comma at its top level is one piece. -/
theorem argumentsGo_text {anywhere : Bool} {ls : List Lexeme} (h : Balanced anywhere ls) {depth : ℤ}
    (hdepth : 0 ≤ depth) (hinner : anywhere = true → 1 ≤ depth) {rest : Str} (hrest : rest.head? ≠ some '\'') :
    argumentsGo 0 depth (bareText ls ++ rest) = glue (bareText ls) (argumentsGo 0 depth rest) := by
  induction h generalizing depth rest with
  | nil => exact (glue_nil (argumentsGo_ne_nil 0 depth rest)).symm
  | @char anywhere c ls hc hcomma _ ih =>
    have hmarks : c ≠ '\'' ∧ c ≠ '(' ∧ c ≠ ')' := by
      refine ⟨?_, ?_, ?_⟩ <;> rintro rfl <;> exact hc (by decide)
    have hlevel : ¬ (c = ',' ∧ depth = 0) := by
      rintro ⟨rfl, rfl⟩
      exact absurd (hinner (hcomma rfl)) (by decide)
    rw [bareText_char, List.cons_append, argumentsGo, if_neg hmarks.1, if_neg hmarks.2.1, if_neg hmarks.2.2,
      if_neg hlevel, ih hdepth hinner hrest, glue_glue]
    rfl
  | @string _ content ls hopens hls ih =>
    have hhead := hls.head_bareText hopens rest hrest
    have hcut : bareText (string content :: ls) ++ rest =
        '\'' :: ((doubled content ++ ['\'']) ++ (bareText ls ++ rest)) := by simp
    have hlength : stringLength ((doubled content ++ ['\'']) ++ (bareText ls ++ rest)) =
        some (doubled content ++ ['\'']).length := by
      rw [List.append_assoc, List.length_append]
      exact stringLength_doubled content hhead
    rw [hcut, argumentsGo, if_pos rfl, hlength]
    show glue ['\''] (argumentsGo _ depth _) = _
    rw [argumentsGo_skip, ih hdepth hinner hrest, glue_glue, glue_glue]
    refine congrArg (fun s => glue s (argumentsGo 0 depth rest)) ?_
    simp
  | comment _ _ ih => exact ih hdepth hinner hrest
  | @group _ inner ls _ _ hgroup ih =>
    have hcut : bareText (Lexeme.char '(' :: (inner ++ Lexeme.char ')' :: ls)) ++ rest =
        '(' :: (bareText inner ++ ')' :: (bareText ls ++ rest)) := by simp
    have hclose : depth + 1 - 1 = depth := by omega
    rw [hcut, argumentsGo, if_neg (by decide), if_pos rfl, hgroup (by omega) (fun _ => by omega) (by simp),
      argumentsGo, if_neg (by decide), if_neg (by decide), if_pos rfl, hclose, ih hdepth hinner hrest, glue_glue,
      glue_glue, glue_glue]
    refine congrArg (fun s => glue s (argumentsGo 0 depth rest)) ?_
    simp

/-- **The first argument**, before a comma. -/
theorem arguments_more {ls : List Lexeme} (h : Balanced false ls) (rest : Str) :
    arguments (bareText ls ++ ',' :: rest) = strip (bareText ls) :: arguments rest := by
  rw [arguments, argumentsGo_text h le_rfl (by simp) (by simp), argumentsGo, if_neg (by decide), if_neg (by decide),
    if_neg (by decide), if_pos ⟨rfl, rfl⟩, glue, List.append_nil]
  rfl

/-- **The last argument.** -/
theorem arguments_last {ls : List Lexeme} (h : Balanced false ls) :
    arguments (bareText ls) = [strip (bareText ls)] := by
  have hgo : argumentsGo 0 0 (bareText ls ++ []) = glue (bareText ls) (argumentsGo 0 0 []) :=
    argumentsGo_text h le_rfl (by simp) (by simp)
  rw [List.append_nil, argumentsGo, glue, List.append_nil] at hgo
  rw [arguments, hgo]
  rfl

end PartCAD.Step
