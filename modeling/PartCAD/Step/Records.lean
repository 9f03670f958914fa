import PartCAD.Step.Metadata

/-!
# Records

The instances of a STEP file as the format has them, with blanks and comments wherever they may stand.

* `Parameter`, `Entity`, `Record` : what the file says;
* `lexemes` : how it is written;
* `Parameter.balanced`, `Entity.balanced` : its parentheses are closed.
-/

namespace PartCAD.Step

open PartCAD.Lib PartCAD.Lib.Lexeme

/-! ## Blanks -/

/-- A blank, or a comment. -/
inductive Filler where
  | blank (c : Char) : isSpace c = true → Filler
  | comment (content : Str) : ¬ ['*', '/'] <:+: content → Filler

def Filler.lexeme : Filler → Lexeme
  | blank c _ => .char c
  | comment content _ => .comment content

/-- What may stand between two tokens. -/
abbrev Gap : Type := List Filler

def Gap.lexemes (gap : Gap) : List Lexeme := gap.map Filler.lexeme

/-! ## Parameters -/

/-- A number, a reference, an enumeration, binary digits, `$` or `*`. -/
structure Token where
  text : Str
  ne_nil : text ≠ []
  plain : ∀ c ∈ text, isSpace c = false ∧ c ≠ ',' ∧ c ∉ marks

/-- The name of an entity or a type; one that is not of the standard has a mark before it. -/
structure Keyword where
  user : Bool
  name : Str
  letter : name.head?.any startsName = true
  letters : ∀ c ∈ name, inName c = true

def Keyword.text (keyword : Keyword) : Str := (if keyword.user then ['!'] else []) ++ keyword.name

mutual

inductive Parameter where
  | token (t : Token)
  | string (content : Str)
  | empty (gap : Gap)
  | list (parameters : Parameters)
  | typed (keyword : Keyword) (gap before : Gap) (parameter : Parameter) (after : Gap)

/-- One parameter or more, with commas between them. -/
inductive Parameters where
  | last (before : Gap) (parameter : Parameter) (after : Gap)
  | more (before : Gap) (parameter : Parameter) (after : Gap) (rest : Parameters)

end

mutual

def Parameter.lexemes : Parameter → List Lexeme
  | .token t => chars t.text
  | .string content => [.string content]
  | .empty gap => .char '(' :: (gap.lexemes ++ [.char ')'])
  | .list parameters => .char '(' :: (parameters.lexemes ++ [.char ')'])
  | .typed keyword gap before parameter after => chars keyword.text ++ (gap.lexemes ++
      .char '(' :: (before.lexemes ++ (parameter.lexemes ++ after.lexemes) ++ [.char ')']))

def Parameters.lexemes : Parameters → List Lexeme
  | .last before parameter after => before.lexemes ++ (parameter.lexemes ++ after.lexemes)
  | .more before parameter after rest =>
    before.lexemes ++ (parameter.lexemes ++ after.lexemes) ++ .char ',' :: rest.lexemes

end

def Parameters.toList : Parameters → List Parameter
  | .last _ parameter _ => [parameter]
  | .more _ parameter _ rest => parameter :: rest.toList

/-! ## Records -/

/-- What stands between the parentheses of an entity. -/
inductive Inside where
  | empty (gap : Gap)
  | parameters (ps : Parameters)

def Inside.lexemes : Inside → List Lexeme
  | empty gap => gap.lexemes
  | parameters ps => ps.lexemes

def Inside.toList : Inside → List Parameter
  | empty _ => []
  | parameters ps => ps.toList

structure Entity where
  keyword : Keyword
  gap : Gap
  inside : Inside

/-- The list of an entity: its inside between parentheses. -/
def Entity.list (e : Entity) : List Lexeme := .char '(' :: (e.inside.lexemes ++ [.char ')'])

def Entity.lexemes (e : Entity) : List Lexeme := chars e.keyword.text ++ (e.gap.lexemes ++ e.list)

/-- The parts of a complex record, and the gap behind each. -/
def partsLexemes (parts : List (Entity × Gap)) : List Lexeme :=
  parts.flatMap fun p => p.1.lexemes ++ p.2.lexemes

inductive Content where
  | simple (e : Entity)
  | complex (before : Gap) (parts : List (Entity × Gap))

def Content.entities : Content → List Entity
  | simple e => [e]
  | complex _ parts => parts.map Prod.fst

def Content.lexemes : Content → List Lexeme
  | simple e => e.lexemes
  | complex before parts => .char '(' :: (before.lexemes ++ partsLexemes parts ++ [.char ')'])

structure Record where
  digits : Str
  digits_ne_nil : digits ≠ []
  digits_ascii : ∀ c ∈ digits, c.isDigit = true
  beforeEquals : Gap
  behindEquals : Gap
  content : Content
  beforeEnd : Gap
  behindEnd : Gap

def Record.lexemes (r : Record) : List Lexeme :=
  .char '#' :: (chars r.digits ++ (r.beforeEquals.lexemes ++ .char '=' :: (r.behindEquals.lexemes ++
    (r.content.lexemes ++ (r.beforeEnd.lexemes ++ .char ';' :: r.behindEnd.lexemes)))))

/-- The records of a file, behind a gap. -/
def fileLexemes (before : Gap) (records : List Record) : List Lexeme :=
  before.lexemes ++ records.flatMap Record.lexemes

/-! ## Closed parentheses -/

theorem isSpace_marks {c : Char} (h : isSpace c = true) : c ∉ marks ∧ c ≠ ',' := by
  have hall : ((',' :: marks).all fun c => ! isSpace c) = true := by decide
  have hnot : c ∉ ',' :: marks := by
    intro hmem
    have hc := List.all_eq_true.mp hall c hmem
    rw [h] at hc
    cases hc
  exact ⟨fun hmem => hnot (List.mem_cons_of_mem _ hmem), fun heq => hnot (heq ▸ List.mem_cons_self)⟩

variable {b : Bool}

theorem Gap.balanced (gap : Gap) {ls : List Lexeme} (h : Balanced b ls) :
    Balanced b (gap.lexemes ++ ls) := by
  induction gap with
  | nil => exact h
  | cons filler gap ih =>
    cases filler with
    | blank c hc => exact .char (isSpace_marks hc).1 (fun heq => absurd heq (isSpace_marks hc).2) ih
    | comment content hcontent => exact .comment hcontent ih

theorem Gap.opens (gap : Gap) {ls : List Lexeme} (h : ¬ Opens ls) : ¬ Opens (gap.lexemes ++ ls) := by
  induction gap with
  | nil => exact h
  | cons filler gap ih =>
    cases filler with
    | blank c hc => exact opens_char c
    | comment content hcontent => exact ih

theorem balanced_chars {s : Str} (hs : ∀ c ∈ s, c ∉ marks ∧ c ≠ ',') {ls : List Lexeme} (h : Balanced b ls) :
    Balanced b (chars s ++ ls) := by
  induction s with
  | nil => exact h
  | cons c s ih =>
    obtain ⟨hmarks, hcomma⟩ := hs c List.mem_cons_self
    exact .char hmarks (fun heq => absurd heq hcomma) (ih fun d hd => hs d (List.mem_cons_of_mem c hd))

theorem inName_marks {c : Char} (h : inName c = true) : c ∉ marks ∧ c ≠ ',' := by
  have hall : ((',' :: marks).all fun c => ! inName c) = true := by decide
  have hnot : c ∉ ',' :: marks := by
    intro hmem
    have hc := List.all_eq_true.mp hall c hmem
    rw [h] at hc
    cases hc
  exact ⟨fun hmem => hnot (List.mem_cons_of_mem _ hmem), fun heq => hnot (heq ▸ List.mem_cons_self)⟩

theorem Keyword.plain (keyword : Keyword) : ∀ c ∈ keyword.text, c ∉ marks ∧ c ≠ ',' := by
  intro c hc
  rcases List.mem_append.mp hc with hc | hc
  · split at hc
    · obtain rfl := List.mem_singleton.mp hc
      decide
    · cases hc
  · exact inName_marks (keyword.letters c hc)

/-- A list in parentheses, before what else there is. -/
theorem balanced_list {inner ls : List Lexeme} (hinner : Balanced true inner) (h : Balanced b ls) :
    Balanced b (.char '(' :: (inner ++ [.char ')']) ++ ls) := by
  rw [List.cons_append, List.append_assoc]
  exact .group hinner h

mutual

theorem Parameter.balanced : (p : Parameter) → ∀ {b : Bool} {ls : List Lexeme}, Balanced b ls →
    ¬ Opens ls → Balanced b (p.lexemes ++ ls)
  | .token t, _, _, h, _ => by
    rw [Parameter.lexemes]
    exact balanced_chars (fun c hc => ⟨(t.plain c hc).2.2, (t.plain c hc).2.1⟩) h
  | .string content, _, _, h, hopens => by
    rw [Parameter.lexemes]
    exact .string hopens h
  | .empty gap, _, _, h, _ => by
    have hgap := gap.balanced (Balanced.nil (b := true))
    rw [List.append_nil] at hgap
    rw [Parameter.lexemes]
    exact balanced_list hgap h
  | .list ps, _, _, h, _ => by
    rw [Parameter.lexemes]
    exact balanced_list ps.balanced h
  | .typed keyword gap before p after, _, _, h, _ => by
    have hafter := after.balanced (Balanced.nil (b := true))
    have hopens : ¬ Opens (after.lexemes ++ []) := after.opens fun ⟨_, hhead⟩ => nomatch hhead
    have hinner := before.balanced (p.balanced hafter hopens)
    rw [List.append_nil] at hinner
    rw [Parameter.lexemes, List.append_assoc, List.append_assoc]
    exact balanced_chars keyword.plain (gap.balanced (balanced_list hinner h))

theorem Parameters.balanced : (ps : Parameters) → Balanced true ps.lexemes
  | .last before p after => by
    have hafter := after.balanced (Balanced.nil (b := true))
    have hopens : ¬ Opens (after.lexemes ++ []) := after.opens fun ⟨_, hhead⟩ => nomatch hhead
    have hinner := before.balanced (p.balanced hafter hopens)
    rwa [List.append_nil] at hinner
  | .more before p after rest => by
    have hrest : Balanced true (.char ',' :: rest.lexemes) := .char (by decide) (fun _ => rfl) rest.balanced
    have hinner := before.balanced (p.balanced (after.balanced hrest) (after.opens (opens_char ',')))
    rw [Parameters.lexemes, List.append_assoc, List.append_assoc]
    exact hinner

end

theorem Inside.balanced : (inside : Inside) → Balanced true inside.lexemes
  | empty gap => by
    have hgap := gap.balanced (Balanced.nil (b := true))
    rwa [List.append_nil] at hgap
  | parameters ps => ps.balanced

/-- One parameter and the gaps around it. -/
theorem Parameter.balanced_argument (before : Gap) (p : Parameter) (after : Gap) :
    Balanced false (before.lexemes ++ (p.lexemes ++ after.lexemes)) := by
  have hafter := after.balanced (Balanced.nil (b := false))
  have hopens : ¬ Opens (after.lexemes ++ []) := after.opens fun ⟨_, hhead⟩ => nomatch hhead
  have hinner := before.balanced (p.balanced hafter hopens)
  rwa [List.append_nil] at hinner

theorem Entity.balanced (e : Entity) {ls : List Lexeme} (h : Balanced b ls) :
    Balanced b (e.lexemes ++ ls) := by
  rw [Entity.lexemes, List.append_assoc, List.append_assoc]
  exact balanced_chars e.keyword.plain (e.gap.balanced (balanced_list e.inside.balanced h))

theorem balanced_parts (parts : List (Entity × Gap)) : Balanced b (partsLexemes parts) := by
  induction parts with
  | nil => exact .nil
  | cons p parts ih =>
    rw [partsLexemes, List.flatMap_cons, List.append_assoc]
    exact p.1.balanced (p.2.balanced ih)

theorem Content.balanced (content : Content) {ls : List Lexeme} (h : Balanced b ls) :
    Balanced b (content.lexemes ++ ls) := by
  cases content with
  | simple e => exact e.balanced h
  | complex before parts => exact balanced_list (before.balanced (balanced_parts parts)) h

/-! ## Blank ends -/

theorem Gap.isSpace_of_mem (gap : Gap) {c : Char} (h : c ∈ bareText gap.lexemes) : isSpace c = true := by
  induction gap with
  | nil => cases h
  | cons filler gap ih =>
    cases filler with
    | blank d hd =>
      rcases List.mem_cons.mp h with rfl | h
      · exact hd
      · exact ih h
    | comment content hcontent => exact ih h

theorem isSpace_of_inName {c : Char} (h : inName c = true) : isSpace c = false := by
  rcases of_decide_eq_true h with h | rfl
  · exact isSpace_of_isAlphanum h
  · decide

/-- A keyword does not begin with a blank. -/
theorem Keyword.exists_cons (keyword : Keyword) : ∃ c s, keyword.text = c :: s ∧ isSpace c = false := by
  obtain ⟨user, name, hletter, hletters⟩ := keyword
  cases user with
  | true => exact ⟨'!', name, rfl, by decide⟩
  | false =>
    cases name with
    | nil => cases hletter
    | cons c name => exact ⟨c, name, rfl, isSpace_of_inName (hletters c List.mem_cons_self)⟩

theorem trimmed_cons {c d : Char} (hc : isSpace c = false) (hd : isSpace d = false) (s : Str) :
    Trimmed (c :: (s ++ [d])) where
  front x hx := Option.some.inj hx ▸ hc
  back x hx := by
    rw [← List.cons_append, List.getLast?_concat] at hx
    exact Option.some.inj hx ▸ hd

theorem Parameter.trimmed (p : Parameter) : Trimmed (bareText p.lexemes) := by
  cases p with
  | token t =>
    rw [Parameter.lexemes, bareText_chars]
    exact ⟨fun c hc => (t.plain c (List.mem_of_head? hc)).1, fun c hc => (t.plain c (List.mem_of_getLast? hc)).1⟩
  | string content =>
    rw [Parameter.lexemes, bareText_string]
    exact trimmed_cons (by decide) (by decide) _
  | empty gap =>
    rw [Parameter.lexemes, bareText_char, bareText_append]
    exact trimmed_cons (by decide) (by decide) _
  | list ps =>
    rw [Parameter.lexemes, bareText_char, bareText_append]
    exact trimmed_cons (by decide) (by decide) _
  | typed keyword gap before p after =>
    obtain ⟨c, s, htext, hc⟩ := keyword.exists_cons
    have hcut : bareText (Parameter.typed keyword gap before p after).lexemes = c :: ((s ++ (bareText gap.lexemes ++
        '(' :: bareText (before.lexemes ++ (p.lexemes ++ after.lexemes)))) ++ [')']) := by
      rw [Parameter.lexemes, bareText_append, bareText_chars, htext]
      simp
    rw [hcut]
    exact trimmed_cons hc (by decide) _

/-- **The blanks around a parameter are stripped off.** -/
theorem Parameter.strip_argument (before : Gap) (p : Parameter) (after : Gap) :
    strip (bareText (before.lexemes ++ (p.lexemes ++ after.lexemes))) = bareText p.lexemes := by
  rw [bareText_append, bareText_append]
  exact strip_append (fun _ hc => before.isSpace_of_mem hc) (fun _ hc => after.isSpace_of_mem hc) p.trimmed

/-- **The arguments of a list** are its parameters. -/
theorem Parameters.arguments_eq : (ps : Parameters) →
    arguments (bareText ps.lexemes) = ps.toList.map fun p => bareText p.lexemes
  | .last before p after => by
    rw [Parameters.lexemes, arguments_last (p.balanced_argument before after), p.strip_argument]
    rfl
  | .more before p after rest => by
    rw [Parameters.lexemes, bareText_append, bareText_char, arguments_more (p.balanced_argument before after),
      p.strip_argument, rest.arguments_eq]
    rfl

/-- A list without parameters still has an argument, which is empty. -/
theorem Gap.arguments_eq (gap : Gap) : arguments (bareText gap.lexemes) = [[]] := by
  have hgap := gap.balanced (Balanced.nil (b := false))
  rw [List.append_nil] at hgap
  have hstrip := strip_append (fun _ hc => gap.isSpace_of_mem hc) (fun _ hc => absurd hc List.not_mem_nil)
    trimmed_nil
  rw [List.append_nil, List.append_nil] at hstrip
  rw [arguments_last hgap, hstrip]

end PartCAD.Step
