import Mathlib.Data.List.Infix
import PartCAD.Lib.Text

/-!
# The tags of an HTML text

A tokenizer that reads a text character by character and answers with the tags in it.  The content of a
`script`, a `style` or a `title` is not looked into, up to the first text that ends it.

* `State`, `step`, `run` : the tokenizer;
* `run_content`, `run_value`, `run_raw` : texts that leave it where it is;
* `feed_eq_none_iff` : which text ends an element that is not looked into.
-/

namespace PartCAD.Lib.Html

open PartCAD.Lib

/-- A tag: the values of its attributes are left out. -/
structure Tag where
  closing : Bool
  name : Str
  attributes : List Str
  deriving DecidableEq, Repr

/-- Where the tokenizer is. -/
inductive State
  | content
  | tagOpen
  | endTagOpen
  | tagName (tag : Tag)
  | beforeAttribute (tag : Tag)
  | attributeName (tag : Tag) (name : Str)
  | afterName (tag : Tag)
  | beforeValue (tag : Tag)
  | doubleQuoted (tag : Tag)
  | singleQuoted (tag : Tag)
  | unquoted (tag : Tag)
  | afterValue (tag : Tag)
  | declaration (dashes : ℕ)
  | bogus
  | comment (dashes : ℕ)
  | raw (name : Str) (matched : ℕ)
  deriving DecidableEq, Repr

/-! ## The tokenizer -/

/-- Elements whose content is not looked into. -/
def rawNames : List Str :=
  ["script".toList, "style".toList, "title".toList, "textarea".toList, "xmp".toList, "iframe".toList,
    "noembed".toList, "noframes".toList]

/-- An ASCII letter in lower case. -/
def lower (c : Char) : Char := c.toLower

def isSpace (c : Char) : Bool := c = ' ' ∨ c = '\n' ∨ c = '\t' ∨ c = '\r' ∨ c.toNat = 12

/-- The tag ends here. -/
def close (tag : Tag) : State × List Tag :=
  (if ¬ tag.closing ∧ tag.name ∈ rawNames then .raw tag.name 0 else .content, [tag])

/-- What ends an element: `</name`. -/
def ending (name : Str) : Str := '<' :: '/' :: name

/-- How much of the ending has been read, or nothing when all of it has. -/
def advance (name : Str) (matched : ℕ) (c : Char) : Option ℕ :=
  if (ending name)[matched]? = some (lower c) then
    if matched + 1 = (ending name).length then none else some (matched + 1)
  else if c = '<' then some 1
  else some 0

/-- One character, and the tag that it ends. -/
def step (q : State) (c : Char) : State × List Tag :=
  match q with
  | .content => (if c = '<' then .tagOpen else .content, [])
  | .tagOpen =>
    if c = '/' then (.endTagOpen, [])
    else if c = '!' then (.declaration 0, [])
    else if c = '?' then (.bogus, [])
    else if c.isAlpha then (.tagName ⟨false, [lower c], []⟩, [])
    else if c = '<' then (.tagOpen, [])
    else (.content, [])
  | .endTagOpen =>
    if c.isAlpha then (.tagName ⟨true, [lower c], []⟩, [])
    else if c = '>' then (.content, [])
    else (.bogus, [])
  | .tagName tag =>
    if c = '>' then close tag
    else if isSpace c ∨ c = '/' then (.beforeAttribute tag, [])
    else (.tagName { tag with name := tag.name ++ [lower c] }, [])
  | .beforeAttribute tag =>
    if c = '>' then close tag
    else if isSpace c ∨ c = '/' then (.beforeAttribute tag, [])
    else (.attributeName tag [lower c], [])
  | .attributeName tag name =>
    let named := { tag with attributes := tag.attributes ++ [name] }
    if c = '>' then close named
    else if c = '/' then (.beforeAttribute named, [])
    else if isSpace c then (.afterName named, [])
    else if c = '=' then (.beforeValue named, [])
    else (.attributeName tag (name ++ [lower c]), [])
  | .afterName tag =>
    if c = '>' then close tag
    else if c = '=' then (.beforeValue tag, [])
    else if isSpace c then (.afterName tag, [])
    else if c = '/' then (.beforeAttribute tag, [])
    else (.attributeName tag [lower c], [])
  | .beforeValue tag =>
    if c = '"' then (.doubleQuoted tag, [])
    else if c = '\'' then (.singleQuoted tag, [])
    else if c = '>' then close tag
    else if isSpace c then (.beforeValue tag, [])
    else (.unquoted tag, [])
  | .doubleQuoted tag => (if c = '"' then .afterValue tag else .doubleQuoted tag, [])
  | .singleQuoted tag => (if c = '\'' then .afterValue tag else .singleQuoted tag, [])
  | .unquoted tag =>
    if c = '>' then close tag
    else if isSpace c then (.beforeAttribute tag, [])
    else (.unquoted tag, [])
  | .afterValue tag =>
    if c = '>' then close tag
    else if isSpace c ∨ c = '/' then (.beforeAttribute tag, [])
    else (.attributeName tag [lower c], [])
  | .declaration dashes =>
    if c = '-' then if dashes = 0 then (.declaration 1, []) else (.comment 0, [])
    else if c = '>' then (.content, [])
    else (.bogus, [])
  | .bogus => (if c = '>' then .content else .bogus, [])
  | .comment dashes =>
    if c = '-' then (.comment (dashes + 1), [])
    else if c = '>' ∧ 2 ≤ dashes then (.content, [])
    else (.comment 0, [])
  | .raw name matched =>
    match advance name matched c with
    | some k => (.raw name k, [])
    | none => (.tagName ⟨true, name, []⟩, [])

/-- The tags that are read, and where the tokenizer is then. -/
def run (q : State) : Str → State × List Tag
  | [] => (q, [])
  | c :: s =>
    match step q c with
    | (q', tags) =>
      match run q' s with
      | (q'', more) => (q'', tags ++ more)

/-- The tags of a text. -/
def tags (s : Str) : List Tag := (run .content s).2

theorem run_cons (q : State) (c : Char) (s : Str) :
    run q (c :: s) = ((run (step q c).1 s).1, (step q c).2 ++ (run (step q c).1 s).2) := rfl

theorem run_append (q : State) (s t : Str) :
    run q (s ++ t) = ((run (run q s).1 t).1, (run q s).2 ++ (run (run q s).1 t).2) := by
  induction s generalizing q with
  | nil => rfl
  | cons c s ih => rw [List.cons_append, run_cons, ih, run_cons, List.append_assoc]

/-! ## Letters -/

/-- A character is a letter in upper case, or stays as it is. -/
theorem lower_cases (c : Char) :
    lower c = c ∨ 65 ≤ c.toNat ∧ c.toNat ≤ 90 ∧ (lower c).toNat = c.toNat + 32 := by
  by_cases h : 65 ≤ c.toNat ∧ c.toNat ≤ 90
  · exact .inr ⟨h.1, h.2, Text.toNat_toLower h⟩
  · exact .inl (Text.toLower_of_not_upper h)

theorem lower_eq_open {c : Char} (h : lower c = '<') : c = '<' := by
  rcases lower_cases c with hc | ⟨hlow, -, hc⟩
  · exact hc ▸ h
  · rw [h] at hc
    have hopen : ('<' : Char).toNat = 60 := rfl
    omega

/-! ## Texts that leave it where it is -/

/-- It stays where it is when every character leaves it there. -/
theorem run_same {q : State} {s : Str} (h : ∀ c ∈ s, step q c = (q, [])) : run q s = (q, []) := by
  induction s with
  | nil => rfl
  | cons c s ih =>
    have hc := h c List.mem_cons_self
    have hs := ih fun d hd => h d (List.mem_cons_of_mem _ hd)
    rw [run_cons, hc, hs]
    rfl

theorem run_content {s : Str} (h : '<' ∉ s) : run .content s = (.content, []) := by
  refine run_same fun c hc => ?_
  have hne : c ≠ '<' := fun heq => h (heq ▸ hc)
  simp only [step, if_neg hne]

theorem run_value {tag : Tag} {s : Str} (h : '"' ∉ s) :
    run (.doubleQuoted tag) s = (.doubleQuoted tag, []) := by
  refine run_same fun c hc => ?_
  have hne : c ≠ '"' := fun heq => h (heq ▸ hc)
  simp only [step, if_neg hne]

/-! ## The end of an element that is not looked into -/

/-- The characters of a text, until the ending is complete. -/
def feed (name : Str) (matched : ℕ) : Str → Option ℕ
  | [] => some matched
  | c :: s =>
    match advance name matched c with
    | some k => feed name k s
    | none => none

theorem feed_append (name : Str) (matched : ℕ) (s t : Str) :
    feed name matched (s ++ t) = (feed name matched s).bind fun k => feed name k t := by
  induction s generalizing matched with
  | nil => rfl
  | cons c s ih =>
    rw [List.cons_append, feed, feed]
    cases advance name matched c with
    | none => rfl
    | some k => exact ih k

/-- Nothing is read of the ending. -/
theorem advance_zero {name : Str} {matched : ℕ} {c : Char} (hc : lower c ∉ ending name) :
    advance name matched c = some 0 := by
  have hne : (ending name)[matched]? ≠ some (lower c) := fun h => hc (List.mem_of_getElem? h)
  have hopen : c ≠ '<' := by
    rintro rfl
    exact hc List.mem_cons_self
  rw [advance, if_neg hne, if_neg hopen]

theorem feed_content {name s : Str} (h : '<' ∉ s) : feed name 0 s = some 0 := by
  induction s with
  | nil => rfl
  | cons c s ih =>
    rw [List.mem_cons, not_or] at h
    have hc : advance name 0 c = some 0 := by
      have hne : (ending name)[0]? ≠ some (lower c) := by
        intro heq
        exact h.1 (lower_eq_open (Option.some.inj heq).symm).symm
      rw [advance, if_neg hne, if_neg (Ne.symm h.1)]
    rw [feed, hc]
    exact ih h.2

theorem run_raw {name s : Str} {matched k : ℕ} (h : feed name matched s = some k) :
    run (.raw name matched) s = (.raw name k, []) := by
  induction s generalizing matched with
  | nil =>
    cases h
    rfl
  | cons c s ih =>
    rw [feed] at h
    cases hc : advance name matched c with
    | none =>
      rw [hc] at h
      cases h
    | some j =>
      rw [hc] at h
      rw [run_cons, step, hc]
      show ((run (.raw name j) s).1, [] ++ (run (.raw name j) s).2) = _
      rw [ih h]
      rfl

/-- It comes into such an element with a tag only. -/
theorem step_outside {q : State} (hq : ∀ name k, q ≠ .raw name k) {c : Char} (htags : (step q c).2 = []) :
    ∀ name k, (step q c).1 ≠ .raw name k := by
  intro name k
  cases q with
  | raw other j => exact absurd rfl (hq other j)
  | _ =>
    simp only [step] at htags ⊢
    split_ifs at htags ⊢ <;> first | exact State.noConfusion | exact absurd htags (List.cons_ne_nil _ _)

theorem run_outside {q : State} (hq : ∀ name k, q ≠ .raw name k) {s : Str} (htags : (run q s).2 = []) :
    ∀ name k, (run q s).1 ≠ .raw name k := by
  induction s generalizing q with
  | nil => exact hq
  | cons c s ih =>
    rw [run_cons] at htags ⊢
    obtain ⟨hc, hs⟩ := List.append_eq_nil_iff.1 htags
    exact ih (step_outside hq hc) hs

/-- Where the ending is complete, the element is left. -/
theorem run_raw_left {name s : Str} {matched : ℕ} (h : feed name matched s = none) (k : ℕ) :
    run (.raw name matched) s ≠ (.raw name k, []) := by
  induction s generalizing matched with
  | nil => cases h
  | cons c s ih =>
    rw [feed] at h
    rw [run_cons, step]
    cases hc : advance name matched c with
    | some j =>
      rw [hc] at h
      exact ih h
    | none =>
      intro heq
      obtain ⟨hstate, htags⟩ := Prod.mk.inj heq
      exact run_outside (fun _ _ => State.noConfusion) htags name k hstate

/-- What begins with a character that is not in front of it is found behind it. -/
theorem infix_append_iff {a : Char} {pattern front s : Str} (h : a ∉ front) :
    a :: pattern <:+: front ++ s ↔ a :: pattern <:+: s := by
  induction front with
  | nil => rfl
  | cons c front ih =>
    have hne : a ≠ c := fun heq => h (heq ▸ List.mem_cons_self)
    rw [List.cons_append, List.infix_cons_iff, List.cons_prefix_cons,
      ih fun ha => h (List.mem_cons_of_mem _ ha)]
    exact or_iff_right fun hp => hne hp.1

section

variable {name : Str} (hname : '<' ∉ name)

include hname

/-- What has been read of the ending begins nowhere but at its front. -/
theorem notMem_tail (matched : ℕ) : '<' ∉ (('/' :: name).take matched) := by
  intro h
  rcases List.mem_cons.1 (List.mem_of_mem_take h) with heq | h
  · cases heq
  · exact hname h

/-- A character that does not go on with the ending: what has been read of it is of no use. -/
theorem infix_of_mismatch {s : Str} {matched : ℕ} (hm : matched < (ending name).length) {c : Char}
    (hc : (ending name)[matched] ≠ lower c) :
    ending name <:+: (ending name).take matched ++ lower c :: s ↔ ending name <:+: lower c :: s := by
  have hprefix : ¬ ending name <+: (ending name).take matched ++ lower c :: s := by
    rintro ⟨t, ht⟩
    have hlength : ((ending name).take matched).length = matched := by
      rw [List.length_take]
      omega
    have hat := congrArg (·[matched]?) ht
    simp only [List.getElem?_append_left hm, List.getElem?_append_right hlength.le, hlength,
      Nat.sub_self, List.getElem?_cons_zero, List.getElem?_eq_getElem hm] at hat
    exact hc (Option.some.inj hat)
  cases matched with
  | zero => rfl
  | succ k =>
    have hfront : (ending name).take (k + 1) = '<' :: ('/' :: name).take k := rfl
    rw [hfront, List.cons_append] at hprefix ⊢
    rw [List.infix_cons_iff, or_iff_right hprefix]
    exact infix_append_iff (notMem_tail hname k)

/-- **The ending is complete** where the text holds it. -/
theorem feed_eq_none_iff {s : Str} {matched : ℕ} (hm : matched < (ending name).length) :
    feed name matched s = none ↔ ending name <:+: (ending name).take matched ++ s.map lower := by
  induction s generalizing matched with
  | nil =>
    rw [List.map_nil, List.append_nil, feed]
    refine iff_of_false (Option.some_ne_none _) ?_
    intro h
    have hlength := h.length_le
    rw [List.length_take] at hlength
    omega
  | cons c s ih =>
    have hsplit : (ending name).take matched ++ (ending name)[matched] :: (ending name).drop (matched + 1) =
        ending name := by
      rw [← List.drop_eq_getElem_cons hm, List.take_append_drop]
    rw [feed, advance, List.getElem?_eq_getElem hm, List.map_cons]
    by_cases hc : (ending name)[matched] = lower c
    · rw [if_pos (congrArg some hc)]
      have hnext : (ending name).take matched ++ lower c :: s.map lower =
          (ending name).take (matched + 1) ++ s.map lower := by
        rw [List.take_succ_eq_append_getElem hm, hc, List.append_assoc, List.singleton_append]
      rw [hnext]
      by_cases hlast : matched + 1 = (ending name).length
      · rw [if_pos hlast, hlast, List.take_length]
        exact iff_of_true rfl (List.prefix_append _ _).isInfix
      · rw [if_neg hlast]
        exact ih (by omega)
    · have hne : some (ending name)[matched] ≠ some (lower c) := fun heq => hc (Option.some.inj heq)
      rw [if_neg hne, infix_of_mismatch hname hm hc]
      by_cases hopen : c = '<'
      · have hone : 1 < (ending name).length := by
          rw [ending, List.length_cons, List.length_cons]
          omega
        rw [if_pos hopen, hopen]
        exact ih hone
      · have hopen' : '<' ∉ [lower c] := by
          rw [List.mem_singleton]
          exact fun heq => hopen (lower_eq_open heq.symm)
        have hskip : ending name <:+: lower c :: s.map lower ↔ ending name <:+: s.map lower :=
          infix_append_iff hopen'
        rw [if_neg hopen, hskip]
        exact ih (by omega)

end

end PartCAD.Lib.Html
