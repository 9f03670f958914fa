import Mathlib.Data.Finset.Union
import Mathlib.Data.Fintype.Card
import PartCAD.Brep.Topology
import PartCAD.Lib.Numerals

/-!
# The topology section of a payload

* `Payload`, `Payload.text` : a payload, as the modelling kernel writes it;
* `findReferences_list` : the references of a line;
* `readRecords_text` : the records that are read;
* `exact_iff` : **where what is reported is what is there**.
-/

namespace PartCAD.Brep

open PartCAD.Lib PartCAD.Lib.Text

/-! ## The format -/

/-- White space within a line. -/
def Blank : Type := { s : Str // ∀ c ∈ s, white c = true ∧ c ≠ '\n' }

/-- A reference to a record, or a number that says where it is placed. -/
inductive Token (n : ℕ)
  | reference (forward : Bool) (record : Fin n)
  | location (index : ℕ)

/-- The records are numbered from the last one on. -/
def number {n : ℕ} (record : Fin n) : ℕ := n - record.val

def Token.text {n : ℕ} : Token n → Str
  | .reference forward record => (if forward then '+' else '-') :: Nat.toDigits 10 (number record)
  | .location index => Nat.toDigits 10 index

/-- A line of a list of sub-shapes: blanks stand between the tokens. -/
structure ListLine (n : ℕ) where
  lead : Blank
  tokens : List (Token n × { gap : Blank // gap.1 ≠ [] })
  last : Option (Token n)
  back : Blank

namespace ListLine

variable {n : ℕ} (l : ListLine n)

def text : Str :=
  l.lead.1 ++ (l.tokens.flatMap (fun (token, gap) => token.text ++ gap.1.1) ++
    ((l.last.elim [] Token.text) ++ l.back.1))

/-- The tokens, without the blanks. -/
def all : List (Token n) := l.tokens.map Prod.fst ++ l.last.toList

end ListLine

def Token.record? {n : ℕ} : Token n → Option (Fin n)
  | .reference _ record => some record
  | .location _ => none

/-- The records that the tokens refer to. -/
def referred {n : ℕ} (tokens : List (Token n)) : Finset (Fin n) := (tokens.filterMap Token.record?).toFinset

/-- A record: the line that names its kind, its geometry, and the list of its sub-shapes, which may be
wrapped. -/
structure Record (n : ℕ) where
  kind : Kind
  opening : { l : Str // '\n' ∉ l ∧ strip l = kind.code }
  geometry : List { l : Str // '\n' ∉ l ∧ ¬ Closes (strip l) }
  wrapped : List (ListLine n)
  last : ListLine n
  back : Blank

/-- A line, with its end. -/
def ended (l : Str) : Str := l ++ ['\n']

def Record.text {n : ℕ} (record : Record n) : Str :=
  ended record.opening.1 ++ (record.geometry.flatMap (fun l => ended l.1) ++
    (record.wrapped.flatMap (fun l => ended l.text) ++ ended (record.last.text ++ '*' :: record.back.1)))

/-- The records that a record refers to. -/
def Record.subShapes {n : ℕ} (record : Record n) : Finset (Fin n) :=
  referred (record.wrapped.flatMap ListLine.all ++ record.last.all)

/-- The lines before the section, the section, and whatever comes behind it. -/
structure Section where
  n : ℕ
  record : Fin n → Record n
  before : List { l : Str // '\n' ∉ l ∧ startswith l tshapes = false }
  back : Blank
  behind : Str

namespace Section

variable (p : Section)

def records : List (Record p.n) := (List.finRange p.n).map p.record

def text : Str :=
  p.before.flatMap (fun l => ended l.1) ++
    (ended (tshapes ++ (Nat.toDigits 10 p.n ++ p.back.1)) ++ (p.records.flatMap Record.text ++ p.behind))

/-- The records of a kind. -/
def ofKind (kind : Kind) : Finset (Fin p.n) := Finset.univ.filter fun i => (p.record i).kind = kind

/-- What the solids refer to. -/
def bounding : Finset (Fin p.n) := (p.ofKind .solid).biUnion fun i => (p.record i).subShapes

/-- What the solids refer to on the line that their list ends with. -/
def lastBounding : Finset (Fin p.n) := (p.ofKind .solid).biUnion fun i => referred (p.record i).last.all

/-- The outermost shape is the last one. -/
def root : Option Kind := p.records.getLast?.map Record.kind

end Section

/-- A payload is one that says so at its start. -/
structure Payload extends Section where
  marked : looksLikeBrep toSection.text = true

/-- **What is reported of a payload is what is there.** -/
def Exact (p : Payload) : Prop :=
  ∃ t, topology p.text = some t ∧ (∀ kind, t.count kind = (p.ofKind kind).card) ∧ t.root = p.root ∧
    t.freeShells = (p.ofKind .shell \ p.bounding).card

/-! ## Stripped lines -/

theorem dropWhile_white_append_cons {c : Char} (hc : white c = false) (s t : Str) :
    (s ++ c :: t).dropWhile white = s.dropWhile white ++ c :: t := by
  rw [List.dropWhile_append]
  split
  · next hnil =>
    rw [List.isEmpty_iff.mp hnil, List.dropWhile_cons_of_neg (by rw [hc]; exact Bool.false_ne_true)]
    rfl
  · rfl

theorem rdropWhile_white_append {c : Char} (hc : white c = false) (s : Str) {back : Str}
    (hback : ∀ d ∈ back, white d = true) : (s ++ c :: back).rdropWhile white = s ++ [c] := by
  have hrev : ∀ d ∈ back.reverse, white d = true := fun d hd => hback d (List.mem_reverse.mp hd)
  rw [List.rdropWhile, List.reverse_append, List.reverse_cons, List.append_assoc,
    List.dropWhile_append_of_pos hrev, List.singleton_append,
    List.dropWhile_cons_of_neg (by rw [hc]; exact Bool.false_ne_true), List.reverse_cons, List.reverse_reverse]

/-- Only blanks stand behind the last character that is kept. -/
theorem strip_append_cons {c : Char} (hc : white c = false) (s : Str) {back : Str}
    (hback : ∀ d ∈ back, white d = true) : strip (s ++ c :: back) = s.dropWhile white ++ [c] := by
  rw [strip, dropWhile_white_append_cons hc, rdropWhile_white_append hc _ hback]

theorem of_mem_strip {c : Char} {s : Str} (h : c ∈ strip s) : c ∈ s :=
  (List.dropWhile_sublist _).subset ((List.rdropWhile_prefix white _).subset h)

theorem lines_ended {l : Str} (hl : '\n' ∉ l) (rest : Str) : lines (ended l ++ rest) = strip l :: lines rest := by
  have hpos : ∀ c ∈ l, decide (c ≠ '\n') = true := by
    intro c hc
    refine decide_eq_true ?_
    rintro rfl
    exact hl hc
  have hline : line (ended l ++ rest) = some (strip l, rest) := by
    rw [line, if_neg (by simp [ended]), ended, List.append_assoc, List.singleton_append,
      List.takeWhile_append_of_pos hpos, List.dropWhile_append_of_pos hpos,
      List.takeWhile_cons_of_neg (by decide), List.dropWhile_cons_of_neg (by decide), List.append_nil]
    rfl
  rw [lines]
  split
  · next h => rw [hline] at h; cases h
  · next l' rest' h =>
    rw [hline] at h
    obtain ⟨rfl, rfl⟩ := Prod.mk.inj (Option.some.inj h)
    rfl

/-- The lines of a part of a payload. -/
theorem lines_flatMap {α : Type} (text : α → Str) (xs : List α) (h : ∀ x ∈ xs, '\n' ∉ text x) (rest : Str) :
    lines (xs.flatMap (fun x => ended (text x)) ++ rest) = xs.map (fun x => strip (text x)) ++ lines rest := by
  induction xs with
  | nil => rfl
  | cons x xs ih =>
    rw [List.flatMap_cons, List.append_assoc, lines_ended (h x List.mem_cons_self),
      ih fun y hy => h y (List.mem_cons_of_mem _ hy)]
    rfl

/-! ## Where the section starts -/

theorem sectionStart_line {l : Str} (hl : '\n' ∉ l) (rest : Str) :
    sectionStart false (l ++ '\n' :: rest) = sectionStart true rest := by
  induction l with
  | nil => rfl
  | cons c l ih =>
    obtain ⟨hc, hl⟩ := not_or.mp (mt List.mem_cons.mpr hl)
    rw [List.cons_append, sectionStart, Bool.false_and, if_neg Bool.false_ne_true, decide_eq_false (Ne.symm hc)]
    exact ih hl

theorem sectionStart_ended {l : Str} (hl : '\n' ∉ l) (hstart : startswith l tshapes = false) (rest : Str) :
    sectionStart true (ended l ++ rest) = sectionStart true rest := by
  have hnot : startswith (l ++ '\n' :: rest) tshapes = false := by
    refine Bool.eq_false_iff.mpr fun h => ?_
    have hpre := startswith_iff.mp h
    rcases Nat.lt_or_ge l.length tshapes.length with hlt | hle
    · have hend : l ++ ['\n'] <+: tshapes := by
        refine List.prefix_of_prefix_length_le ⟨rest, by rw [List.append_assoc]; rfl⟩ hpre ?_
        rw [List.length_append]
        exact hlt
      have hmem := hend.subset (List.mem_append_right _ List.mem_cons_self)
      revert hmem
      decide
    · have hl := List.prefix_of_prefix_length_le hpre (List.prefix_append l _) hle
      exact Bool.false_ne_true (hstart.symm.trans (startswith_iff.mpr hl))
  rw [ended, List.append_assoc, List.singleton_append]
  cases l with
  | nil =>
    rw [List.nil_append] at hnot ⊢
    rw [sectionStart, hnot, Bool.and_false, if_neg Bool.false_ne_true]
    rfl
  | cons c l =>
    obtain ⟨hc, hl⟩ := not_or.mp (mt List.mem_cons.mpr hl)
    rw [List.cons_append] at hnot ⊢
    rw [sectionStart, hnot, Bool.and_false, if_neg Bool.false_ne_true, decide_eq_false (Ne.symm hc)]
    exact sectionStart_line hl rest

theorem sectionStart_text (p : Section) : sectionStart true p.text =
    some (ended (tshapes ++ (Nat.toDigits 10 p.n ++ p.back.1)) ++ (p.records.flatMap Record.text ++ p.behind)) := by
  rw [Section.text]
  induction p.before with
  | nil => rfl
  | cons l ls ih =>
    rw [List.flatMap_cons, List.append_assoc, sectionStart_ended l.2.1 l.2.2]
    exact ih

/-! ## The lines of a record -/

theorem Blank.white (b : Blank) : ∀ c ∈ b.1, Brep.white c = true := fun c hc => (b.2 c hc).1

theorem white_of_isDigit {c : Char} (h : c.isDigit = true) : white c = false := by
  have hrange : 48 ≤ c.toNat ∧ c.toNat ≤ 57 := by
    simpa [Char.isDigit, UInt32.le_iff_toNat_le] using h
  refine decide_eq_false ?_
  rintro (rfl | hspace)
  · revert h
    decide
  · omega

/-- Neither a star nor a line end is in a line of a list. -/
theorem ListLine.plain {n : ℕ} (l : ListLine n) {c : Char} (hc : c = '*' ∨ c = '\n') : c ∉ l.text := by
  have hblank : ∀ b : Blank, c ∉ b.1 := by
    intro b h
    obtain ⟨hwhite, hne⟩ := b.2 c h
    rcases hc with rfl | rfl
    · revert hwhite
      decide
    · exact hne rfl
  have hdigits : ∀ m : ℕ, c ∉ Nat.toDigits 10 m := by
    intro m h
    have hdigit := isDigit_of_mem_toDigits h
    rcases hc with rfl | rfl <;> revert hdigit <;> decide
  have htoken : ∀ token : Token n, c ∉ token.text := by
    rintro (⟨forward, record⟩ | index) h
    · rcases List.mem_cons.mp h with h | h
      · rcases hc with rfl | rfl <;> revert h <;> cases forward <;> decide
      · exact hdigits _ h
    · exact hdigits _ h
  intro h
  rcases List.mem_append.mp h with h | h
  · exact hblank _ h
  rcases List.mem_append.mp h with h | h
  · obtain ⟨⟨token, gap⟩, -, h⟩ := List.mem_flatMap.mp h
    rcases List.mem_append.mp h with h | h
    · exact htoken _ h
    · exact hblank _ h
  rcases List.mem_append.mp h with h | h
  · cases hlast : l.last with
    | none =>
      rw [hlast] at h
      cases h
    | some token =>
      rw [hlast] at h
      exact htoken _ h
  · exact hblank _ h

theorem not_closes_list {n : ℕ} (l : ListLine n) : ¬ Closes (strip l.text) := fun h =>
  l.plain (Or.inl rfl) (of_mem_strip (List.mem_of_getLast? h))

/-- The line that a record ends with, stripped. -/
def Record.lastLine {n : ℕ} (record : Record n) : Str := strip (record.last.text ++ '*' :: record.back.1)

theorem Record.lastLine_eq {n : ℕ} (record : Record n) :
    record.lastLine = record.last.text.dropWhile white ++ ['*'] :=
  strip_append_cons (by decide) _ record.back.white

theorem Record.closes {n : ℕ} (record : Record n) : Closes record.lastLine := by
  rw [record.lastLine_eq, Closes, List.getLast?_append_of_ne_nil _ (List.cons_ne_nil _ _)]
  rfl

theorem lines_record {n : ℕ} (record : Record n) (rest : Str) : ∃ inner : List Str, (∀ l ∈ inner, ¬ Closes l) ∧
    lines (record.text ++ rest) = record.kind.code :: (inner ++ record.lastLine :: lines rest) := by
  refine ⟨record.geometry.map (fun l => strip l.1) ++ record.wrapped.map fun l => strip l.text, ?_, ?_⟩
  · intro l hl
    rcases List.mem_append.mp hl with hl | hl
    · obtain ⟨line, -, rfl⟩ := List.mem_map.mp hl
      exact line.2.2
    · obtain ⟨line, -, rfl⟩ := List.mem_map.mp hl
      exact not_closes_list line
  · have hlast : '\n' ∉ record.last.text ++ '*' :: record.back.1 := by
      intro h
      rcases List.mem_append.mp h with h | h
      · exact record.last.plain (Or.inr rfl) h
      rcases List.mem_cons.mp h with h | h
      · revert h
        decide
      · exact (record.back.2 _ h).2 rfl
    rw [Record.text, List.append_assoc, lines_ended record.opening.2.1, record.opening.2.2, List.append_assoc,
      lines_flatMap (fun l : { l : Str // '\n' ∉ l ∧ ¬ Closes (strip l) } => l.1) _ fun l _ => l.2.1,
      List.append_assoc, lines_flatMap ListLine.text _ fun l _ => l.plain (Or.inr rfl), lines_ended hlast,
      List.append_assoc]
    rfl

theorem closing_append {inner : List Str} (hinner : ∀ l ∈ inner, ¬ Closes l) {l : Str} (hl : Closes l)
    (rest : List Str) : closing (inner ++ l :: rest) = some (l, rest) := by
  induction inner with
  | nil => exact if_pos hl
  | cons a inner ih =>
    rw [List.cons_append, closing, if_neg (hinner a List.mem_cons_self)]
    exact ih fun l h => hinner l (List.mem_cons_of_mem _ h)

theorem ofCode_code (kind : Kind) : Kind.ofCode kind.code = some kind ∧ kind.code ≠ [] := by
  cases kind <;> decide

/-- **The records that are read**: of each one the kind and the last line. -/
theorem records_lines {n : ℕ} (rs : List (Record n)) (behind : Str) :
    records rs.length (lines (rs.flatMap Record.text ++ behind)) =
      some (rs.map fun record => (record.kind, record.lastLine)) := by
  induction rs with
  | nil => rfl
  | cons record rs ih =>
    obtain ⟨inner, hinner, hlines⟩ := lines_record record (rs.flatMap Record.text ++ behind)
    obtain ⟨hcode, hne⟩ := ofCode_code record.kind
    rw [List.flatMap_cons, List.append_assoc, hlines, List.length_cons, records,
      List.dropWhile_cons_of_neg (by simpa using hne)]
    show ((Kind.ofCode record.kind.code).bind fun kind =>
      (closing (inner ++ record.lastLine :: lines (rs.flatMap Record.text ++ behind))).bind fun x =>
        (records rs.length x.2).map ((kind, x.1) :: ·)) = _
    rw [hcode, closing_append hinner record.closes, Option.bind_some, Option.bind_some, ih]
    rfl

theorem strip_header (n : ℕ) (back : Blank) :
    strip (tshapes ++ (Nat.toDigits 10 n ++ back.1)) = tshapes ++ Nat.toDigits 10 n := by
  obtain ⟨hne, hdigits⟩ := isDigits_toDigits n
  obtain ⟨front, last, hlast⟩ := (List.eq_nil_or_concat' _).resolve_left hne
  have hdigit : last.isDigit = true := hdigits last (hlast ▸ List.mem_append_right _ List.mem_cons_self)
  have htext : tshapes ++ (Nat.toDigits 10 n ++ back.1) = (tshapes ++ front) ++ last :: back.1 := by
    rw [hlast, List.append_assoc, List.append_assoc]
    rfl
  have hdrop : (tshapes ++ front).dropWhile white = tshapes ++ front :=
    List.dropWhile_cons_of_neg (by decide)
  rw [htext, strip_append_cons (white_of_isDigit hdigit) _ back.white, hdrop, hlast, List.append_assoc]

theorem readRecords_text (p : Section) : readRecords p.text =
    some (p.records.map fun record => (record.kind, record.lastLine)) := by
  have hheader : '\n' ∉ tshapes ++ (Nat.toDigits 10 p.n ++ p.back.1) := by
    intro h
    rcases List.mem_append.mp h with h | h
    · revert h
      decide
    rcases List.mem_append.mp h with h | h
    · have hdigit := isDigit_of_mem_toDigits h
      revert hdigit
      decide
    · exact (p.back.2 _ h).2 rfl
  have hlength : p.records.length = p.n := by rw [Section.records, List.length_map, List.length_finRange]
  rw [readRecords, sectionStart_text, Option.bind_some, lines_ended hheader, strip_header]
  show (Bytes.parseInt ((tshapes ++ Nat.toDigits 10 p.n).drop tshapes.length)).bind _ = _
  rw [List.drop_left, Bytes.parseInt_toDigits, Option.bind_some, Int.toNat_natCast]
  have hrecords := records_lines p.records p.behind
  rwa [hlength] at hrecords

/-! ## The references of a line -/

theorem findReferences_cons {c : Char} (hc : c ≠ '+' ∧ c ≠ '-') (s : Str) :
    findReferences (c :: s) = findReferences s := by
  rw [findReferences, if_neg]
  rintro ⟨rfl | rfl, -⟩
  · exact hc.1 rfl
  · exact hc.2 rfl

/-- What is not a sign is passed over. -/
theorem findReferences_append {s : Str} (hs : ∀ c ∈ s, c ≠ '+' ∧ c ≠ '-') (t : Str) :
    findReferences (s ++ t) = findReferences t := by
  induction s with
  | nil => rfl
  | cons c s ih =>
    rw [List.cons_append, findReferences_cons (hs c List.mem_cons_self)]
    exact ih fun d hd => hs d (List.mem_cons_of_mem _ hd)

theorem ne_sign_of_white {c : Char} (h : white c = true) : c ≠ '+' ∧ c ≠ '-' := by
  constructor
  · rintro rfl
    revert h
    decide
  · rintro rfl
    revert h
    decide

theorem references_append {s : Str} (hs : ∀ c ∈ s, c ≠ '+' ∧ c ≠ '-') (t : Str) :
    references (s ++ t) = references t := congrArg (List.map _) (findReferences_append hs t)

/-- No digit comes first. -/
def Apart (s : Str) : Prop := ∀ c ∈ s.head?, c.isDigit = false

theorem parseInt_sign {c : Char} (hc : c = '+' ∨ c = '-') (n : ℕ) :
    ((Bytes.parseInt (c :: Nat.toDigits 10 n)).getD 0).natAbs = n := by
  have hdigits := isDigits_toDigits n
  have hstrip : PartCAD.Lib.strip (c :: Nat.toDigits 10 n) = c :: Nat.toDigits 10 n := by
    refine strip_of_forall fun d hd => ?_
    rcases List.mem_cons.mp hd with rfl | hd
    · rcases hc with rfl | rfl <;> decide
    · exact isSpace_of_isDigit (hdigits.2 d hd)
  have hvalue : digitsValue (Nat.toDigits 10 n) = n := by simp [digitsValue]
  rw [Bytes.parseInt, hstrip]
  rcases hc with rfl | rfl
  · simp [takeSign, Bytes.plainDigits_of_isDigits hdigits, hvalue]
  · simp [takeSign, Bytes.plainDigits_of_isDigits hdigits, hvalue]

theorem references_reference {c : Char} (hc : c = '+' ∨ c = '-') (n : ℕ) {rest : Str} (hrest : Apart rest) :
    references (c :: (Nat.toDigits 10 n ++ rest)) = n :: references rest := by
  have hdigits := isDigits_toDigits n
  have hstop : rest.takeWhile Char.isDigit = [] ∧ rest.dropWhile Char.isDigit = rest := by
    cases rest with
    | nil => exact ⟨rfl, rfl⟩
    | cons d rest =>
      have hd : ¬ d.isDigit = true := by
        rw [hrest d rfl]
        exact Bool.false_ne_true
      exact ⟨List.takeWhile_cons_of_neg hd, List.dropWhile_cons_of_neg hd⟩
  have htake : (Nat.toDigits 10 n ++ rest).takeWhile Char.isDigit = Nat.toDigits 10 n := by
    rw [List.takeWhile_append_of_pos hdigits.2, hstop.1, List.append_nil]
  have hdrop : (Nat.toDigits 10 n ++ rest).dropWhile Char.isDigit = rest := by
    rw [List.dropWhile_append_of_pos hdigits.2, hstop.2]
  rw [references, findReferences, htake, hdrop, if_pos ⟨hc, hdigits.1⟩, List.map_cons, parseInt_sign hc]
  rfl

theorem references_digits (n : ℕ) (rest : Str) : references (Nat.toDigits 10 n ++ rest) = references rest := by
  refine references_append (fun c hc => ?_) rest
  have hdigit := isDigit_of_mem_toDigits hc
  constructor
  · rintro rfl
    revert hdigit
    decide
  · rintro rfl
    revert hdigit
    decide

section

variable {n : ℕ}

/-- The numbers of the records that tokens refer to. -/
def numbers (tokens : List (Token n)) : List ℕ := (tokens.filterMap Token.record?).map number

theorem references_token (token : Token n) {rest : Str} (hrest : Apart rest) :
    references (token.text ++ rest) = numbers [token] ++ references rest := by
  cases token with
  | reference forward record =>
    have hsign : (if forward then '+' else '-') = '+' ∨ (if forward then '+' else '-') = '-' := by
      cases forward with
      | true => exact Or.inl rfl
      | false => exact Or.inr rfl
    exact references_reference hsign (number record) hrest
  | location index => exact references_digits index rest

theorem apart_blank (b : Blank) {rest : Str} (hrest : Apart rest) : Apart (b.1 ++ rest) := by
  intro c hc
  cases hb : b.1 with
  | nil =>
    rw [hb] at hc
    exact hrest c hc
  | cons d t =>
    rw [hb] at hc
    obtain rfl : d = c := Option.some.inj hc
    have hwhite := b.white d (hb ▸ List.mem_cons_self)
    refine Bool.eq_false_iff.mpr fun hdigit => ?_
    rw [white_of_isDigit hdigit] at hwhite
    exact Bool.false_ne_true hwhite

theorem apart_gap (gap : { gap : Blank // gap.1 ≠ [] }) (rest : Str) : Apart (gap.1.1 ++ rest) := by
  intro c hc
  rw [List.head?_append_of_ne_nil _ gap.2] at hc
  have hwhite := gap.1.white c (List.mem_of_mem_head? hc)
  refine Bool.eq_false_iff.mpr fun hdigit => ?_
  rw [white_of_isDigit hdigit] at hwhite
  exact Bool.false_ne_true hwhite

theorem references_blank (b : Blank) (rest : Str) : references (b.1 ++ rest) = references rest :=
  references_append (fun c hc => ne_sign_of_white (b.white c hc)) rest

/-- **The references of a line of a list.** -/
theorem references_list (l : ListLine n) : references (l.text ++ ['*']) = numbers l.all := by
  have hend : references (l.back.1 ++ ['*']) = [] := by
    rw [references_blank, references, findReferences_cons (by decide), findReferences]
    rfl
  have hlast : references ((l.last.elim [] Token.text) ++ (l.back.1 ++ ['*'])) = numbers l.last.toList := by
    cases l.last with
    | none => exact hend
    | some token =>
      have hapart : Apart (l.back.1 ++ ['*']) := apart_blank l.back (by
        intro c hc
        obtain rfl : '*' = c := Option.some.inj hc
        rfl)
      refine (references_token token hapart).trans ?_
      rw [hend, List.append_nil]
      rfl
  have htokens : ∀ tokens : List (Token n × { gap : Blank // gap.1 ≠ [] }),
      references (tokens.flatMap (fun (token, gap) => token.text ++ gap.1.1) ++
        ((l.last.elim [] Token.text) ++ (l.back.1 ++ ['*']))) =
      numbers (tokens.map Prod.fst ++ l.last.toList) := by
    intro tokens
    induction tokens with
    | nil => exact hlast
    | cons token tokens ih =>
      rw [List.flatMap_cons, List.append_assoc, List.append_assoc,
        references_token token.1 (apart_gap token.2 _), references_blank, ih]
      rw [numbers, numbers, numbers, ← List.map_append, ← List.filterMap_append]
      rfl
  have htext : l.text ++ ['*'] = l.lead.1 ++ (l.tokens.flatMap (fun (token, gap) => token.text ++ gap.1.1) ++
      ((l.last.elim [] Token.text) ++ (l.back.1 ++ ['*']))) := by
    simp only [ListLine.text, List.append_assoc]
  rw [htext, references_blank, htokens]
  rfl

theorem references_lastLine (record : Record n) : references record.lastLine = numbers record.last.all := by
  have hparts : record.last.text.takeWhile white ++ record.last.text.dropWhile white = record.last.text :=
    List.takeWhile_append_dropWhile
  have hblank : ∀ c ∈ record.last.text.takeWhile white, c ≠ '+' ∧ c ≠ '-' :=
    fun c hc => ne_sign_of_white (List.mem_takeWhile_imp hc)
  rw [record.lastLine_eq, ← references_append hblank, ← List.append_assoc, hparts, references_list]

end

/-! ## Counting -/

/-- What the records have told, one after the other. -/
theorem foldl_record (rs : List (Kind × Str)) (seen : Seen) :
    (∀ kind, ((rs.foldl Seen.record seen).counts.get? kind).getD 0 =
      (seen.counts.get? kind).getD 0 + rs.countP fun record => record.1 = kind) ∧
    (rs.foldl Seen.record seen).root = (rs.getLast?.map Prod.fst).or seen.root ∧
    ∀ x, x ∈ (rs.foldl Seen.record seen).bounding ↔
      x ∈ seen.bounding ∨ ∃ record ∈ rs, record.1 = .solid ∧ x ∈ references record.2 := by
  induction rs generalizing seen with
  | nil =>
    refine ⟨fun _ => rfl, rfl, fun x => ⟨Or.inl, ?_⟩⟩
    rintro (h | ⟨record, hmem, -⟩)
    · exact h
    · cases hmem
  | cons record rs ih =>
    obtain ⟨hcounts, hroot, hbounding⟩ := ih (seen.record record)
    refine ⟨fun kind => ?_, ?_, fun x => ?_⟩
    · rw [List.foldl_cons, hcounts, List.countP_cons, Seen.record, Dict.get?_set]
      by_cases h : record.1 = kind
      · subst h
        simp
        omega
      · simp [h]
    · rw [List.foldl_cons, hroot]
      cases rs with
      | nil => rfl
      | cons next rs => rw [List.getLast?_cons_cons, List.getLast?_eq_some_getLast (List.cons_ne_nil _ _)]; rfl
    · rw [List.foldl_cons, hbounding, Seen.record]
      simp only [List.exists_mem_cons_iff]
      split
      · next hsolid =>
        rw [Finset.mem_union, List.mem_toFinset, or_assoc]
        simp [hsolid]
      · next hsolid => simp [hsolid]

theorem number_injective {n : ℕ} : Function.Injective (number : Fin n → ℕ) := by
  intro i j h
  have hi := i.isLt
  have hj := j.isLt
  refine Fin.ext ?_
  rw [number, number] at h
  omega

/-- The records of a kind, counted in their order. -/
theorem countP_records (p : Section) (kind : Kind) :
    (p.records.map fun record => (record.kind, record.lastLine)).countP (fun record => record.1 = kind) =
      (p.ofKind kind).card := by
  rw [Section.records, List.countP_map, List.countP_map, List.countP_eq_length_filter]
  rfl

/-- What the last lines tell is what they refer to. -/
theorem mem_bounding (p : Section) (x : ℕ) :
    (∃ record ∈ p.records.map fun record => (record.kind, record.lastLine),
      record.1 = .solid ∧ x ∈ references record.2) ↔ x ∈ p.lastBounding.image number := by
  constructor
  · rintro ⟨_, hmem, hsolid, hx⟩
    obtain ⟨record, hrecord, rfl⟩ := List.mem_map.mp hmem
    obtain ⟨i, -, rfl⟩ := List.mem_map.mp hrecord
    rw [references_lastLine, numbers, List.mem_map] at hx
    obtain ⟨j, hj, rfl⟩ := hx
    refine Finset.mem_image_of_mem number (Finset.mem_biUnion.mpr ⟨i, ?_, List.mem_toFinset.mpr hj⟩)
    exact Finset.mem_filter.mpr ⟨Finset.mem_univ i, hsolid⟩
  · intro hx
    obtain ⟨j, hj, rfl⟩ := Finset.mem_image.mp hx
    obtain ⟨i, hi, hj⟩ := Finset.mem_biUnion.mp hj
    refine ⟨_, List.mem_map_of_mem (List.mem_map_of_mem (List.mem_finRange i)), (Finset.mem_filter.mp hi).2, ?_⟩
    rw [references_lastLine, numbers]
    exact List.mem_map_of_mem (List.mem_toFinset.mp hj)

/-- **What is reported**: the counts and the root are right, and the shells are compared with what the
last lines refer to. -/
theorem topology_text (p : Payload) : ∃ t, topology p.text = some t ∧
    (∀ kind, t.count kind = (p.ofKind kind).card) ∧ t.root = p.root ∧
    t.freeShells = (p.ofKind .shell).card - p.lastBounding.card := by
  let seen := (p.records.map fun record => (record.kind, record.lastLine)).foldl Seen.record
    ⟨Dict.empty, none, ∅⟩
  obtain ⟨hcounts, hroot, hbounding⟩ := foldl_record
    (p.records.map fun record => (record.kind, record.lastLine)) ⟨Dict.empty, none, ∅⟩
  have hset : seen.bounding = p.lastBounding.image number := by
    ext x
    rw [hbounding, mem_bounding]
    simp
  have hcount : ∀ kind, (seen.counts.get? kind).getD 0 = (p.ofKind kind).card := by
    intro kind
    rw [hcounts, countP_records]
    exact Nat.zero_add _
  have htopology : topology p.text =
      some ⟨seen.counts, seen.root, (seen.counts.get? .shell).getD 0 - seen.bounding.card⟩ := by
    rw [topology, if_pos p.marked, readRecords_text, Option.map_some]
  refine ⟨_, htopology, hcount, ?_, ?_⟩
  · show seen.root = p.root
    rw [hroot, Option.or_none, List.getLast?_map, Option.map_map]
    rfl
  · show (seen.counts.get? .shell).getD 0 - seen.bounding.card = _
    rw [hcount, hset, Finset.card_image_of_injective _ number_injective]

/-- The shells that no solid refers to, and those that one refers to. -/
theorem card_free (p : Section) : (p.ofKind .shell \ p.bounding).card + (p.ofKind .shell ∩ p.bounding).card =
    (p.ofKind .shell).card := Finset.card_sdiff_add_card_inter _ _

theorem lastBounding_subset (p : Section) : p.lastBounding ⊆ p.bounding := by
  refine Finset.biUnion_mono fun i _ j hj => ?_
  rw [Record.subShapes, referred, List.mem_toFinset, List.filterMap_append]
  exact List.mem_append_right _ (List.mem_toFinset.mp hj)

/-- **Where what is reported of a payload is what is there**: as many records are referred to on the lines
that the lists of the solids end with, or as many shells as there are, as shells are referred to at all.
Where solids are made of shells only, no shell is referred to on another line alone. -/
theorem exact_iff (p : Payload) :
    (Exact p ↔ min p.lastBounding.card (p.ofKind .shell).card = (p.ofKind .shell ∩ p.bounding).card) ∧
    (p.bounding ⊆ p.ofKind .shell → (Exact p ↔ p.bounding ⊆ p.lastBounding)) := by
  have hfree := card_free p.toSection
  have hiff : Exact p ↔ min p.lastBounding.card (p.ofKind .shell).card = (p.ofKind .shell ∩ p.bounding).card := by
    obtain ⟨t, ht, hcount, hroot, hshells⟩ := topology_text p
    constructor
    · rintro ⟨t', ht', -, -, hshells'⟩
      obtain rfl : t = t' := Option.some.inj (ht.symm.trans ht')
      omega
    · intro h
      exact ⟨t, ht, hcount, hroot, by omega⟩
  refine ⟨hiff, fun hsolid => ?_⟩
  have hlast := lastBounding_subset p.toSection
  rw [hiff, Finset.inter_eq_right.mpr hsolid, min_eq_left (Finset.card_le_card (hlast.trans hsolid))]
  constructor
  · intro h
    exact (Finset.eq_of_subset_of_card_le hlast h.ge).ge
  · intro h
    rw [hlast.antisymm h]

/-! ## A wrapped list -/

def Blank.none : Blank := ⟨[], fun _ h => nomatch h⟩

def Blank.one : Blank := ⟨[' '], fun _ h => List.mem_singleton.mp h ▸ by decide⟩

/-- A line of references, each one not moved. -/
def listLine {n : ℕ} (records : List (Fin n)) : ListLine n where
  lead := .none
  tokens := records.flatMap fun record =>
    [(.reference true record, ⟨.one, List.cons_ne_nil _ _⟩), (.location 0, ⟨.one, List.cons_ne_nil _ _⟩)]
  last := none
  back := .none

/-- A record without geometry. -/
def bareRecord {n : ℕ} (kind : Kind) (hkind : '\n' ∉ kind.code ∧ strip kind.code = kind.code)
    (wrapped : List (ListLine n)) (last : ListLine n) : Record n where
  kind := kind
  opening := ⟨kind.code, hkind⟩
  geometry := []
  wrapped := wrapped
  last := last
  back := .none

/-- Two shells, and a solid that refers to each of them on a line of its own. -/
def hollow : Payload where
  n := 3
  record := fun i => match i with
    | 0 => bareRecord .shell (by decide) [] (listLine [])
    | 1 => bareRecord .shell (by decide) [] (listLine [])
    | 2 => bareRecord .solid (by decide) [listLine [0]] (listLine [1])
  before := [⟨"CASCADE Topology V3".toList, by decide⟩]
  back := .none
  behind := []
  marked := by decide

theorem exact_iff_hollow : Exact hollow ↔ hollow.bounding ⊆ hollow.lastBounding :=
  (exact_iff hollow).2 (by decide)

theorem not_exact_hollow : ¬ ∀ p : Payload, Exact p := by
  intro h
  obtain ⟨t, ht, -, -, hshells⟩ := topology_text hollow
  obtain ⟨t', ht', -, -, hshells'⟩ := h hollow
  obtain rfl : t = t' := Option.some.inj (ht.symm.trans ht')
  have hone : (hollow.ofKind .shell).card - hollow.lastBounding.card = 1 := by decide
  have hnone : (hollow.ofKind .shell \ hollow.bounding).card = 0 := by decide
  rw [hshells, hone, hnone] at hshells'
  cases hshells'

end PartCAD.Brep
