import Mathlib.Data.List.Infix
import PartCAD.Lib.Value

/-!
# Strings and comments

A text of characters, of strings between quotes, where two quotes stand for one, and of comments
between `/*` and `*/`.

* `Lexeme`, `text` : what a text consists of;
* `stringLength`, `commentLength` : where a string or a comment ends;
* `Proper` : no two lexemes run into one another;
* `Balanced` : the parentheses of a text are closed.
-/

namespace PartCAD.Lib

inductive Lexeme where
  | char (c : Char)
  | string (content : Str)
  | comment (content : Str)
  deriving DecidableEq

namespace Lexeme

/-! ## Texts -/

/-- The content of a string, with its quotes doubled. -/
def doubled (content : Str) : Str := content.flatMap fun c => if c = '\'' then ['\'', '\''] else [c]

def toText : Lexeme → Str
  | char c => [c]
  | string content => '\'' :: (doubled content ++ ['\''])
  | comment content => '/' :: '*' :: (content ++ ['*', '/'])

def text (ls : List Lexeme) : Str := ls.flatMap toText

@[simp] theorem text_nil : text [] = [] := rfl

@[simp] theorem text_cons (l : Lexeme) (ls : List Lexeme) : text (l :: ls) = l.toText ++ text ls := rfl

@[simp] theorem text_append (ls ls' : List Lexeme) : text (ls ++ ls') = text ls ++ text ls' :=
  List.flatMap_append

/-- The characters of a text, as lexemes. -/
def chars (s : Str) : List Lexeme := s.map char

@[simp] theorem text_chars (s : Str) : text (chars s) = s := by
  induction s with
  | nil => rfl
  | cons c s ih => exact congrArg (List.cons c) ih

/-! ## Ends -/

/-- How far a string goes behind its first quote, as `'[^']*(?:''[^']*)*'` finds it: a doubled quote is two
quotes of its content, if the string still ends behind them. -/
@[grind =]
def stringLength : Str → Option ℕ
  | [] => none
  | [c] => if c = '\'' then some 1 else none
  | c :: d :: rest =>
    if c ≠ '\'' then (stringLength (d :: rest)).map (· + 1)
    else if d ≠ '\'' then some 1
    else some ((stringLength rest).elim 1 (· + 2))

/-- How far a comment goes behind its first two characters. -/
@[grind =]
def commentLength : Str → Option ℕ
  | [] => none
  | c :: rest => if c = '*' ∧ rest.head? = some '/' then some 2 else (commentLength rest).map (· + 1)

theorem stringLength_cons {c : Char} (hc : c ≠ '\'') (rest : Str) :
    stringLength (c :: rest) = (stringLength rest).map (· + 1) := by
  cases rest with
  | nil => exact if_neg hc
  | cons d rest => rw [stringLength, if_pos hc]

theorem stringLength_quote {rest : Str} (h : rest.head? ≠ some '\'') : stringLength ('\'' :: rest) = some 1 := by
  cases rest with
  | nil => rfl
  | cons d rest =>
    have hd : d ≠ '\'' := fun heq => h (congrArg some heq)
    rw [stringLength, if_neg (not_not_intro rfl), if_pos hd]

theorem stringLength_quotes {rest : Str} {n : ℕ} (h : stringLength rest = some n) :
    stringLength ('\'' :: '\'' :: rest) = some (n + 2) := by
  rw [stringLength, if_neg (not_not_intro rfl), if_neg (not_not_intro rfl), h]
  rfl

/-- A string ends where its content does, if no quote comes behind it. -/
theorem stringLength_doubled (content : Str) {rest : Str} (h : rest.head? ≠ some '\'') :
    stringLength (doubled content ++ '\'' :: rest) = some ((doubled content).length + 1) := by
  induction content with
  | nil => exact stringLength_quote h
  | cons c content ih =>
    by_cases hc : c = '\''
    · have hcut : doubled (c :: content) = '\'' :: '\'' :: doubled content := by
        rw [doubled, List.flatMap_cons, if_pos hc]
        rfl
      rw [hcut]
      exact stringLength_quotes ih
    · have hcut : doubled (c :: content) = c :: doubled content := by
        rw [doubled, List.flatMap_cons, if_neg hc]
        rfl
      rw [hcut, List.cons_append, stringLength_cons hc, ih]
      rfl

/-- A comment ends where its content does, if it does not end before. -/
theorem commentLength_content {content : Str} (h : ¬ ['*', '/'] <:+: content) (rest : Str) :
    commentLength (content ++ '*' :: '/' :: rest) = some (content.length + 2) := by
  induction content with
  | nil => exact if_pos ⟨rfl, rfl⟩
  | cons c content ih =>
    have hnot : ¬ (c = '*' ∧ (content ++ '*' :: '/' :: rest).head? = some '/') := by
      rintro ⟨rfl, hhead⟩
      cases content with
      | nil => cases hhead
      | cons d content =>
        obtain rfl : d = '/' := Option.some.inj hhead
        exact h ⟨[], content, rfl⟩
    rw [List.cons_append, commentLength, if_neg hnot, ih fun hin => h (hin.trans (List.suffix_cons c content).isInfix)]
    rfl

/-! ## Lexemes in a row -/

/-- What a lexeme is, and what may come behind it: no quote behind a string, and no star behind a slash. -/
def Fits (rest : List Lexeme) : Lexeme → Prop
  | char c => c ≠ '\'' ∧ (c = '/' → (text rest).head? ≠ some '*')
  | string _ => (text rest).head? ≠ some '\''
  | comment content => ¬ ['*', '/'] <:+: content

/-- No two lexemes run into one another. -/
@[grind =]
def Proper : List Lexeme → Prop
  | [] => True
  | l :: ls => l.Fits ls ∧ Proper ls

/-- The lexemes of a text without its comments. -/
def uncommented (ls : List Lexeme) : List Lexeme :=
  ls.filter fun
    | comment _ => false
    | _ => true

@[simp] theorem uncommented_nil : uncommented [] = [] := rfl

@[simp] theorem uncommented_char (c : Char) (ls : List Lexeme) :
    uncommented (char c :: ls) = char c :: uncommented ls := rfl

@[simp] theorem uncommented_string (content : Str) (ls : List Lexeme) :
    uncommented (string content :: ls) = string content :: uncommented ls := rfl

@[simp] theorem uncommented_comment (content : Str) (ls : List Lexeme) :
    uncommented (comment content :: ls) = uncommented ls := rfl

@[simp] theorem uncommented_append (ls ls' : List Lexeme) :
    uncommented (ls ++ ls') = uncommented ls ++ uncommented ls' := List.filter_append ..

@[simp] theorem uncommented_uncommented (ls : List Lexeme) : uncommented (uncommented ls) = uncommented ls := by
  simp [uncommented]

@[simp] theorem uncommented_chars (s : Str) : uncommented (chars s) = chars s := by
  induction s with
  | nil => rfl
  | cons c s ih => exact congrArg (List.cons (char c)) ih

/-- The text without its comments. -/
def bareText (ls : List Lexeme) : Str := text (uncommented ls)

@[simp] theorem bareText_nil : bareText [] = [] := rfl

@[simp] theorem bareText_char (c : Char) (ls : List Lexeme) : bareText (char c :: ls) = c :: bareText ls := rfl

@[simp] theorem bareText_string (content : Str) (ls : List Lexeme) :
    bareText (string content :: ls) = '\'' :: (doubled content ++ '\'' :: bareText ls) := by
  simp [bareText, toText]

@[simp] theorem bareText_comment (content : Str) (ls : List Lexeme) :
    bareText (comment content :: ls) = bareText ls := rfl

@[simp] theorem bareText_append (ls ls' : List Lexeme) : bareText (ls ++ ls') = bareText ls ++ bareText ls' := by
  rw [bareText, uncommented_append, text_append]
  rfl

@[simp] theorem bareText_chars (s : Str) : bareText (chars s) = s := by
  rw [bareText, uncommented_chars, text_chars]

/-! ## Parentheses -/

/-- The first lexeme, but for comments, is a string. -/
def Opens (ls : List Lexeme) : Prop := ∃ content, (uncommented ls).head? = some (string content)

/-- What ends a record, or stands for something in one. -/
def marks : List Char := ['\'', '/', '(', ')', '=', ';']

/-- The parentheses are closed, no two strings stand in a row, and there is no other mark; a comma stands
between parentheses, or anywhere. -/
inductive Balanced : (b : Bool) → List Lexeme → Prop
  | nil {b : Bool} : Balanced b []
  | char {b : Bool} {c : Char} {ls : List Lexeme} : c ∉ marks → (c = ',' → b = true) →
      Balanced b ls → Balanced b (char c :: ls)
  | string {b : Bool} {content : Str} {ls : List Lexeme} : ¬ Opens ls → Balanced b ls →
      Balanced b (string content :: ls)
  | comment {b : Bool} {content : Str} {ls : List Lexeme} : ¬ ['*', '/'] <:+: content →
      Balanced b ls → Balanced b (comment content :: ls)
  | group {b : Bool} {inner ls : List Lexeme} : Balanced true inner → Balanced b ls →
      Balanced b (.char '(' :: (inner ++ .char ')' :: ls))

variable {anywhere : Bool} {ls ls' : List Lexeme}

theorem opens_char (c : Char) : ¬ Opens (char c :: ls) := by
  rintro ⟨content, h⟩
  cases h

theorem not_opens_append (h : ¬ Opens ls) (h' : ¬ Opens ls') : ¬ Opens (ls ++ ls') := by
  rintro ⟨content, hopens⟩
  rw [uncommented_append, List.head?_append, Option.or_eq_some_iff] at hopens
  rcases hopens with hopens | ⟨-, hopens⟩
  · exact h ⟨content, hopens⟩
  · exact h' ⟨content, hopens⟩

namespace Balanced

theorem uncommented (h : Balanced anywhere ls) : Balanced anywhere (uncommented ls) := by
  have hopens : ∀ {ls : List Lexeme}, ¬ Opens ls → ¬ Opens (Lexeme.uncommented ls) := by
    rintro ls hnot ⟨content, hhead⟩
    rw [uncommented_uncommented] at hhead
    exact hnot ⟨content, hhead⟩
  induction h with
  | nil => exact nil
  | char hc hcomma _ ih => exact char hc hcomma ih
  | string hnot _ ih => exact string (hopens hnot) ih
  | comment _ _ ih => exact ih
  | group _ _ hinner ih =>
    rw [uncommented_char, uncommented_append, uncommented_char]
    exact group hinner ih

/-- The text does not begin with a quote. -/
theorem head_text (h : Balanced anywhere ls) (hopens : ¬ Opens ls) (rest : Str) (hrest : rest.head? ≠ some '\'') :
    (text ls ++ rest).head? ≠ some '\'' := by
  cases h with
  | nil => exact hrest
  | char hc =>
    intro heq
    obtain rfl := Option.some.inj heq
    exact hc (by decide)
  | string => exact absurd ⟨_, rfl⟩ hopens
  | comment =>
    intro heq
    cases heq
  | group =>
    intro heq
    cases heq

/-- Nor does the text without comments. -/
theorem head_bareText (h : Balanced anywhere ls) (hopens : ¬ Opens ls) (rest : Str)
    (hrest : rest.head? ≠ some '\'') : (bareText ls ++ rest).head? ≠ some '\'' := by
  refine h.uncommented.head_text ?_ rest hrest
  rintro ⟨content, hhead⟩
  rw [uncommented_uncommented] at hhead
  exact hopens ⟨content, hhead⟩

end Balanced

/-! ## Both -/

theorem Proper.append (h : Proper ls) (h' : Proper ls') (hquote : (text ls').head? ≠ some '\'')
    (hstar : (text ls').head? ≠ some '*') : Proper (ls ++ ls') := by
  have hhead : ∀ {c : Char} {s : Str}, s.head? ≠ some c → (text ls').head? ≠ some c →
      (s ++ text ls').head? ≠ some c := by
    intro c s hs hl heq
    rw [List.head?_append, Option.or_eq_some_iff] at heq
    rcases heq with heq | ⟨-, heq⟩
    · exact hs heq
    · exact hl heq
  induction ls with
  | nil => exact h'
  | cons l ls ih =>
    obtain ⟨hfits, hproper⟩ := h
    refine ⟨?_, ih hproper⟩
    cases l with
    | char c =>
      refine ⟨hfits.1, fun hslash => ?_⟩
      show (text (ls ++ ls')).head? ≠ some '*'
      rw [text_append]
      exact hhead (hfits.2 hslash) hstar
    | string content =>
      show (text (ls ++ ls')).head? ≠ some '\''
      rw [text_append]
      exact hhead hfits hquote
    | comment content => exact hfits

/-- Where the parentheses are closed, no two lexemes run into one another. -/
theorem Balanced.proper (h : Balanced anywhere ls) : Proper ls := by
  induction h with
  | nil => exact trivial
  | @char _ c ls hc _ _ ih =>
    refine ⟨⟨fun hquote => hc (hquote ▸ by decide), fun hslash => absurd ?_ hc⟩, ih⟩
    rw [hslash]
    decide
  | @string _ _ ls hopens hls ih =>
    have hhead := hls.head_text hopens [] (by simp)
    rw [List.append_nil] at hhead
    exact ⟨hhead, ih⟩
  | comment hcontent _ ih => exact ⟨hcontent, ih⟩
  | group _ _ hinner ih =>
    have hclosed : Proper (Lexeme.char ')' :: _) := ⟨⟨by decide, fun h => absurd h (by decide)⟩, ih⟩
    exact ⟨⟨by decide, fun h => absurd h (by decide)⟩,
      hinner.append hclosed (by simp [toText]) (by simp [toText])⟩

end Lexeme

end PartCAD.Lib
