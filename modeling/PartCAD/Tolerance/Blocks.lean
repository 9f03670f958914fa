import PartCAD.Lib.Lexemes

/-!
# A STEP file in blocks

The file comes in chunks, which end anywhere. A block is what has come up to the last record that is there as a
whole, and the rest waits for the next chunk.

* `endOfString`, `boundary`, `blocks`, `withoutComments` : how the file is cut up;
* `Piece`, `Stream` : the records of a file, and what stands behind them;
* `boundary_text`, `exists_blocks` : **every block is some whole records**, in any chunks;
* `withoutComments_text` : comments are left out of them.
-/

namespace PartCAD.Tolerance

open PartCAD.Lib PartCAD.Lib.Lexeme

/-! ## Blocks -/

/-- `_end_of_string`, of a text behind the first quote. A quote at the very end may be the first of two. -/
@[grind =]
def endOfString : Str → Option ℕ
  | [] => none
  | [_] => none
  | c :: d :: rest =>
    if c ≠ '\'' then (endOfString (d :: rest)).map (· + 1)
    else if d = '\'' then (endOfString rest).map (· + 2)
    else some 1

/-- The loop of `_boundary`, over so many characters of a string or a comment: where the text begins, and the
last cut before. -/
@[grind =]
def boundaryGo : ℕ → ℕ → ℕ → Str → ℕ
  | _, _, cut, [] => cut
  | skip + 1, i, cut, _ :: rest => boundaryGo skip (i + 1) cut rest
  | 0, i, cut, c :: rest =>
    if c = '\'' then
      match endOfString rest with
      | none => cut
      | some n => boundaryGo n (i + 1) cut rest
    else if c = '/' ∧ rest.head? = some '*' then
      match commentLength rest.tail with
      | none => cut
      | some n => boundaryGo (n + 1) (i + 1) cut rest
    else if c = ';' then boundaryGo 0 (i + 1) (i + 1) rest
    else boundaryGo 0 (i + 1) cut rest

/-- `_boundary` -/
def boundary (buffer : Str) : ℕ := boundaryGo 0 0 0 buffer

/-- The loop of `of_step_file`: the blocks it reads. -/
@[grind =]
def blocksGo (buffer : Str) : List Str → List Str
  | [] => if buffer = [] then [] else [buffer]
  | chunk :: chunks =>
    if chunk = [] then if buffer = [] then [] else [buffer]
    else
      let cut := boundary (buffer ++ chunk)
      if cut = 0 then blocksGo (buffer ++ chunk) chunks
      else (buffer ++ chunk).take cut :: blocksGo ((buffer ++ chunk).drop cut) chunks

/-- The blocks of a file that is read in such chunks. -/
def blocks (chunks : List Str) : List Str := blocksGo [] chunks

/-- The loop of `_without_comments`: so many characters of a string are still kept, and so many of a comment
left out. -/
@[grind =]
def withoutCommentsGo : ℕ → ℕ → Str → Str
  | _, _, [] => []
  | kept, dropped + 1, _ :: rest => withoutCommentsGo kept dropped rest
  | kept + 1, 0, c :: rest => c :: withoutCommentsGo kept 0 rest
  | 0, 0, c :: rest =>
    if c = '\'' then
      match endOfString rest with
      | none => c :: rest
      | some n => c :: withoutCommentsGo n 0 rest
    else if c = '/' ∧ rest.head? = some '*' then
      match commentLength rest.tail with
      | none => []
      | some n => withoutCommentsGo 0 (n + 1) rest
    else c :: withoutCommentsGo 0 0 rest

/-- `_without_comments` -/
def withoutComments (block : Str) : Str := if ['/', '*'] <:+: block then withoutCommentsGo 0 0 block else block

/-! ## Streams -/

/-- What stands in a record before its `;`: characters, strings and comments, and no other `;`. -/
structure Piece where
  body : List Lexeme
  proper : Proper (body ++ [.char ';'])
  plain : .char ';' ∉ body

namespace Piece

def lexemes (p : Piece) : List Lexeme := p.body ++ [.char ';']

def text (p : Piece) : Str := Lexeme.text p.lexemes

/-- The record without comments. -/
def bare (p : Piece) : Str := bareText p.lexemes

end Piece

/-- The text of some records. -/
def textOf (ps : List Piece) : Str := ps.flatMap Piece.text

/-- The records of a file, and what stands behind the last one. -/
structure Stream where
  pieces : List Piece
  tail : List Lexeme
  proper : Proper tail
  plain : .char ';' ∉ tail

def Stream.text (s : Stream) : Str := textOf s.pieces ++ Lexeme.text s.tail

@[simp] theorem textOf_nil : textOf [] = [] := rfl

@[simp] theorem textOf_cons (p : Piece) (ps : List Piece) : textOf (p :: ps) = p.text ++ textOf ps := rfl

@[simp] theorem textOf_append (ps ps' : List Piece) : textOf (ps ++ ps') = textOf ps ++ textOf ps' :=
  List.flatMap_append

theorem Piece.text_eq (p : Piece) : p.text = Lexeme.text p.body ++ [';'] := by
  rw [Piece.text, Piece.lexemes, text_append]
  rfl

theorem textOf_ne_nil {ps : List Piece} (h : ps ≠ []) : textOf ps ≠ [] := by
  cases ps with
  | nil => exact absurd rfl h
  | cons p ps =>
    rw [textOf_cons, p.text_eq]
    simp

/-- What stands behind the last record, if there is something. -/
def Stream.rest (s : Stream) : List Str := if Lexeme.text s.tail = [] then [] else [Lexeme.text s.tail]

/-! ## Where a string ends -/

theorem endOfString_cons {c : Char} (hc : c ≠ '\'') (rest : Str) :
    endOfString (c :: rest) = (endOfString rest).map (· + 1) := by
  cases rest with
  | nil => rfl
  | cons d rest => rw [endOfString, if_pos hc]

theorem endOfString_quotes (rest : Str) :
    endOfString ('\'' :: '\'' :: rest) = (endOfString rest).map (· + 2) := by
  rw [endOfString, if_neg (not_not_intro rfl), if_pos rfl]

theorem doubled_cons_quote (content : Str) : doubled ('\'' :: content) = '\'' :: '\'' :: doubled content := by
  rw [doubled, List.flatMap_cons, if_pos rfl]
  rfl

theorem doubled_cons {c : Char} (hc : c ≠ '\'') (content : Str) : doubled (c :: content) = c :: doubled content := by
  rw [doubled, List.flatMap_cons, if_neg hc]
  rfl

/-- A string ends where its content does, if something comes behind it that is not a quote. -/
theorem endOfString_doubled (content : Str) {rest : Str} (hrest : rest ≠ []) (hquote : rest.head? ≠ some '\'') :
    endOfString ((doubled content ++ ['\'']) ++ rest) = some (doubled content ++ ['\'']).length := by
  induction content with
  | nil =>
    cases rest with
    | nil => exact absurd rfl hrest
    | cons c rest =>
      have hc : c ≠ '\'' := fun h => hquote (congrArg some h)
      show endOfString ('\'' :: c :: rest) = some 1
      rw [endOfString, if_neg (not_not_intro rfl), if_neg hc]
  | cons d content ih =>
    by_cases hd : d = '\''
    · subst hd
      rw [doubled_cons_quote, List.cons_append, List.cons_append, List.cons_append, List.cons_append,
        endOfString_quotes, ih]
      rfl
    · rw [doubled_cons hd, List.cons_append, List.cons_append, endOfString_cons hd, ih]
      rfl

/-- No end is found in a string that is cut off, or whose last quote is the last character. -/
theorem endOfString_of_cut {content s : Str} (h : s <+: doubled content ++ ['\'']) : endOfString s = none := by
  induction content generalizing s with
  | nil =>
    obtain ⟨rest, hrest⟩ := h
    match s, hrest with
    | [], _ => rfl
    | [c], _ => rfl
    | c :: d :: s, hrest => simp [doubled] at hrest
  | cons d content ih =>
    by_cases hd : d = '\''
    · subst hd
      rw [doubled_cons_quote, List.cons_append, List.cons_append] at h
      cases s with
      | nil => rfl
      | cons c s =>
        cases s with
        | nil => rfl
        | cons e s =>
          rw [List.cons_prefix_cons, List.cons_prefix_cons] at h
          obtain ⟨rfl, rfl, h⟩ := h
          rw [endOfString_quotes, ih h]
          rfl
    · rw [doubled_cons hd, List.cons_append] at h
      cases s with
      | nil => rfl
      | cons c s =>
        rw [List.cons_prefix_cons] at h
        obtain ⟨rfl, h⟩ := h
        rw [endOfString_cons hd, ih h]
        rfl

/-! ## Where a comment ends -/

theorem infix_of_commentLength {s : Str} {n : ℕ} (h : commentLength s = some n) : ['*', '/'] <:+: s := by
  induction s generalizing n with
  | nil => cases h
  | cons c s ih =>
    rw [commentLength] at h
    split at h
    · next hend =>
      obtain ⟨rfl, hhead⟩ := hend
      cases s with
      | nil => cases hhead
      | cons d s =>
        obtain rfl := Option.some.inj hhead
        exact ⟨[], s, rfl⟩
    · obtain ⟨m, hm, -⟩ := Option.map_eq_some_iff.mp h
      exact (ih hm).trans (List.suffix_cons c s).isInfix

/-- No end is found in a comment that is cut off. -/
theorem commentLength_of_cut {content s : Str} (h : ¬ ['*', '/'] <:+: content) (hs : s <+: content ++ ['*']) :
    commentLength s = none := by
  by_contra hsome
  obtain ⟨n, hn⟩ := Option.ne_none_iff_exists'.mp hsome
  obtain ⟨front, back, hin⟩ := (infix_of_commentLength hn).trans hs.isInfix
  refine h ?_
  rcases List.eq_nil_or_concat back with rfl | ⟨back, c, rfl⟩
  · have hlast := congrArg List.getLast? hin
    simp at hlast
  · refine ⟨front, back, ?_⟩
    have hdrop := congrArg List.dropLast hin
    simpa [← List.append_assoc] using hdrop

/-! ## Where the records end -/

theorem boundaryGo_skip (s : Str) (i cut : ℕ) (rest : Str) :
    boundaryGo s.length i cut (s ++ rest) = boundaryGo 0 (i + s.length) cut rest := by
  induction s generalizing i with
  | nil => rfl
  | cons c s ih =>
    rw [List.cons_append, List.length_cons, boundaryGo, ih, Nat.add_right_comm, Nat.add_assoc]

/-- A text that holds no `;` is passed over, before one. -/
theorem boundaryGo_body {ls : List Lexeme} (hproper : Proper (ls ++ [.char ';'])) (hplain : .char ';' ∉ ls)
    (i cut : ℕ) (rest : Str) :
    boundaryGo 0 i cut (text ls ++ ';' :: rest) = boundaryGo 0 (i + (text ls).length) cut (';' :: rest) := by
  induction ls generalizing i with
  | nil => rfl
  | cons l ls ih =>
    obtain ⟨hfits, hproper⟩ := hproper
    have hplain' : l ≠ .char ';' ∧ .char ';' ∉ ls := by
      rw [List.mem_cons, not_or] at hplain
      exact ⟨fun h => hplain.1 h.symm, hplain.2⟩
    have ih := fun i => ih hproper hplain'.2 i
    have hhead : ∀ {c : Char}, (text (ls ++ [.char ';'])).head? ≠ some c →
        (text ls ++ ';' :: rest).head? ≠ some c := by
      intro c hc
      rw [text_append] at hc
      cases hls : text ls with
      | nil => rw [hls] at hc; exact hc
      | cons d t => rw [hls] at hc; exact hc
    cases l with
    | char c =>
      have hc : c ≠ ';' := fun h => hplain'.1 (congrArg Lexeme.char h)
      have hnot : ¬ (c = '/' ∧ (text ls ++ ';' :: rest).head? = some '*') := fun h => hhead (hfits.2 h.1) h.2
      show boundaryGo 0 i cut (c :: (text ls ++ ';' :: rest)) = _
      rw [boundaryGo, if_neg hfits.1, if_neg hnot, if_neg hc, ih, Nat.add_right_comm]
      rfl
    | string content =>
      have hlength : endOfString ((doubled content ++ ['\'']) ++ (text ls ++ ';' :: rest)) = _ :=
        endOfString_doubled content (by simp) (hhead hfits)
      have hcut : text (string content :: ls) ++ ';' :: rest =
          '\'' :: ((doubled content ++ ['\'']) ++ (text ls ++ ';' :: rest)) := by simp [toText]
      rw [hcut, boundaryGo, if_pos rfl, hlength]
      show boundaryGo _ (i + 1) cut _ = _
      rw [boundaryGo_skip, ih]
      refine congrArg (fun n => boundaryGo 0 n cut (';' :: rest)) ?_
      simp [toText]
      omega
    | comment content =>
      have hlength : commentLength (content ++ '*' :: '/' :: (text ls ++ ';' :: rest)) = some (content.length + 2) :=
        commentLength_content hfits _
      have hcut : text (comment content :: ls) ++ ';' :: rest =
          '/' :: (('*' :: (content ++ ['*', '/'])) ++ (text ls ++ ';' :: rest)) := by simp [toText]
      have htail : (('*' :: (content ++ ['*', '/'])) ++ (text ls ++ ';' :: rest)).tail =
          content ++ '*' :: '/' :: (text ls ++ ';' :: rest) := by simp
      have hskip := boundaryGo_skip ('*' :: (content ++ ['*', '/'])) (i + 1) cut (text ls ++ ';' :: rest)
      rw [List.length_cons, List.length_append] at hskip
      rw [hcut, boundaryGo, if_neg (by decide), if_pos ⟨rfl, rfl⟩, htail, hlength]
      refine hskip.trans ?_
      rw [ih]
      refine congrArg (fun n => boundaryGo 0 n cut (';' :: rest)) ?_
      simp [toText]
      omega

/-- A text that is cut off ends in the first of two parts, or behind it. -/
theorem prefix_append_cases {s a b : Str} (h : s <+: a ++ b) : s <+: a ∨ ∃ s', s' ≠ [] ∧ s = a ++ s' ∧ s' <+: b := by
  obtain ⟨rest, hrest⟩ := h
  rcases List.append_eq_append_iff.mp hrest with ⟨a', rfl, -⟩ | ⟨s', rfl, hs'⟩
  · exact Or.inl (List.prefix_append s a')
  · cases s' with
    | nil =>
      rw [List.append_nil]
      exact Or.inl (List.prefix_refl a)
    | cons c s' => exact Or.inr ⟨c :: s', List.cons_ne_nil c s', rfl, rest, hs'.symm⟩

/-- Nor is a cut made in a text without a `;`, which may be cut off anywhere. -/
theorem boundaryGo_of_cut {ls : List Lexeme} (hproper : Proper ls) (hplain : .char ';' ∉ ls) {s : Str}
    (h : s <+: text ls) (i cut : ℕ) : boundaryGo 0 i cut s = cut := by
  induction ls generalizing i s with
  | nil =>
    obtain rfl := List.prefix_nil.mp h
    rfl
  | cons l ls ih =>
    obtain ⟨hfits, hproper⟩ := hproper
    have hplain' : l ≠ .char ';' ∧ .char ';' ∉ ls := by
      rw [List.mem_cons, not_or] at hplain
      exact ⟨fun h => hplain.1 h.symm, hplain.2⟩
    have ih := fun {s} h i => @ih hproper hplain'.2 s h i
    have hhead : ∀ {s : Str} {c : Char}, s <+: text ls → (text ls).head? ≠ some c → s.head? ≠ some c := by
      rintro s c ⟨rest, hrest⟩ hc hs
      rw [← hrest, List.head?_append, hs] at hc
      exact hc rfl
    cases l with
    | char c =>
      cases s with
      | nil => rfl
      | cons d s =>
        obtain ⟨rfl, hs⟩ := List.cons_prefix_cons.mp h
        have hd : d ≠ ';' := fun h => hplain'.1 (congrArg Lexeme.char h)
        have hnot : ¬ (d = '/' ∧ s.head? = some '*') := fun hslash => hhead hs (hfits.2 hslash.1) hslash.2
        rw [boundaryGo, if_neg hfits.1, if_neg hnot, if_neg hd]
        exact ih hs (i + 1)
    | string content =>
      cases s with
      | nil => rfl
      | cons d s =>
        have hcut : text (string content :: ls) = '\'' :: ((doubled content ++ ['\'']) ++ text ls) := rfl
        rw [hcut] at h
        obtain ⟨rfl, hs⟩ := List.cons_prefix_cons.mp h
        rw [boundaryGo, if_pos rfl]
        rcases prefix_append_cases hs with hin | ⟨s, hnil, rfl, hrest⟩
        · rw [endOfString_of_cut hin]
        · rw [endOfString_doubled content hnil (hhead hrest hfits)]
          exact (boundaryGo_skip _ _ _ _).trans (ih hrest _)
    | comment content =>
      have hcut : text (comment content :: ls) = '/' :: '*' :: ((content ++ ['*', '/']) ++ text ls) := rfl
      rw [hcut] at h
      cases s with
      | nil => rfl
      | cons d s =>
        obtain ⟨rfl, hs⟩ := List.cons_prefix_cons.mp h
        cases s with
        | nil => rfl
        | cons d s =>
          obtain ⟨rfl, hin⟩ := List.cons_prefix_cons.mp hs
          rw [boundaryGo, if_neg (by decide), if_pos ⟨rfl, rfl⟩, List.tail_cons]
          have hopen : (content ++ ['*', '/']) ++ text ls = (content ++ ['*']) ++ ('/' :: text ls) := by simp
          rw [hopen] at hin
          rcases prefix_append_cases hin with hin | ⟨s, hnil, rfl, hrest⟩
          · rw [commentLength_of_cut hfits hin]
          · cases s with
            | nil => exact absurd rfl hnil
            | cons e s =>
              obtain ⟨rfl, hafter⟩ := List.cons_prefix_cons.mp hrest
              have hskip := boundaryGo_skip ('*' :: (content ++ ['*', '/'])) (i + 1) cut s
              rw [List.length_cons, List.length_append] at hskip
              rw [List.append_assoc, List.singleton_append, commentLength_content hfits]
              have hs' : '*' :: (content ++ '*' :: '/' :: s) = ('*' :: (content ++ ['*', '/'])) ++ s := by simp
              rw [hs']
              exact hskip.trans (ih hafter _)

/-- Where a record ends. -/
theorem boundaryGo_piece (p : Piece) (i cut : ℕ) (rest : Str) :
    boundaryGo 0 i cut (p.text ++ rest) = boundaryGo 0 (i + p.text.length) (i + p.text.length) rest := by
  have hcut : p.text ++ rest = Lexeme.text p.body ++ ';' :: rest := by
    rw [Piece.text, Piece.lexemes, text_append, List.append_assoc]
    rfl
  have hlength : p.text.length = (Lexeme.text p.body).length + 1 := by
    rw [Piece.text, Piece.lexemes, text_append, List.length_append]
    rfl
  rw [hcut, boundaryGo_body p.proper p.plain, boundaryGo, if_neg (by decide), if_neg fun h => absurd h.1 (by decide), if_pos rfl, hlength,
    Nat.add_assoc]

/-- **The cut is behind the last whole record.** -/
theorem boundary_text (ps : List Piece) {ls : List Lexeme} (hproper : Proper ls) (hplain : .char ';' ∉ ls) {s : Str}
    (h : s <+: text ls) : boundary (textOf ps ++ s) = (textOf ps).length := by
  have hgo : ∀ (ps : List Piece) (i : ℕ),
      boundaryGo 0 i i (textOf ps ++ s) = i + (textOf ps).length := by
    intro ps
    induction ps with
    | nil => exact fun i => boundaryGo_of_cut hproper hplain h i i
    | cons p ps ih =>
      intro i
      rw [textOf_cons, List.append_assoc, boundaryGo_piece, List.length_append, ← Nat.add_assoc]
      exact ih _
  rw [boundary, hgo, Nat.zero_add]

/-! ## Any chunks -/

theorem proper_init {ls : List Lexeme} {l : Lexeme} (h : Proper (ls ++ [l])) : Proper ls := by
  induction ls with
  | nil => exact trivial
  | cons l' ls ih =>
    obtain ⟨hfits, hproper⟩ := h
    have hhead : ∀ {c : Char}, (text (ls ++ [l])).head? ≠ some c → (text ls).head? ≠ some c := by
      intro c hc hls
      rw [text_append, List.head?_append, hls] at hc
      exact hc rfl
    refine ⟨?_, ih hproper⟩
    cases l' with
    | char c => exact ⟨hfits.1, fun hslash => hhead (hfits.2 hslash)⟩
    | string content => exact hhead hfits
    | comment content => exact hfits

/-- The records that are there as a whole, and the text in which the next cut falls: that of the next record,
or of what stands at the end. -/
theorem exists_next (ps : List Piece) (s : Stream) {buffer : Str} (h : buffer <+: textOf ps ++ Lexeme.text s.tail) :
    ∃ front back rest, ps = front ++ back ∧ buffer = textOf front ++ rest ∧
      (∀ p back', back = p :: back' → rest.length < p.text.length) ∧
      ∃ ls, Proper ls ∧ .char ';' ∉ ls ∧ rest <+: Lexeme.text ls := by
  induction ps generalizing buffer with
  | nil => exact ⟨[], [], buffer, rfl, rfl, by simp, s.tail, s.proper, s.plain, h⟩
  | cons p ps ih =>
    rw [textOf_cons, List.append_assoc] at h
    rcases prefix_append_cases h with hin | ⟨buffer, -, rfl, hrest⟩
    · by_cases hlength : buffer.length < p.text.length
      · refine ⟨[], p :: ps, buffer, rfl, rfl, ?_, p.body, proper_init p.proper, p.plain, ?_⟩
        · rintro q back hq
          obtain ⟨rfl, -⟩ := List.cons.inj hq
          exact hlength
        · rw [p.text_eq] at hin hlength
          rw [List.length_append, List.length_singleton] at hlength
          exact List.prefix_of_prefix_length_le hin (List.prefix_append _ _) (by omega)
      · have hwhole : buffer = p.text := hin.eq_of_length_le (by omega)
        obtain ⟨front, back, rest, rfl, hbuffer, hnext⟩ := ih (List.nil_prefix)
        refine ⟨p :: front, back, rest, rfl, ?_, hnext⟩
        rw [hwhole, textOf_cons, List.append_assoc]
        refine (List.append_nil p.text).symm.trans ?_
        exact congrArg (p.text ++ ·) hbuffer
    · obtain ⟨front, back, rest, rfl, rfl, hnext⟩ := ih hrest
      exact ⟨p :: front, back, rest, rfl, by simp [textOf], hnext⟩

/-- A buffer waits that does not hold a whole record. -/
theorem exists_blocksGo (s : Stream) {chunks : List Str} (hchunks : [] ∉ chunks) {buffer : Str} {ps : List Piece}
    (hbuffer : ∀ p ps', ps = p :: ps' → buffer.length < p.text.length)
    (hflatten : buffer ++ chunks.flatten = textOf ps ++ Lexeme.text s.tail) :
    ∃ groups : List (List Piece), groups.flatten = ps ∧ [] ∉ groups ∧
      blocksGo buffer chunks = groups.map textOf ++ s.rest := by
  induction chunks generalizing buffer ps with
  | nil =>
    rw [List.flatten_nil, List.append_nil] at hflatten
    subst hflatten
    cases ps with
    | nil => exact ⟨[], rfl, List.not_mem_nil, rfl⟩
    | cons p ps =>
      have hlong := hbuffer p ps rfl
      simp only [textOf_cons, List.length_append] at hlong
      omega
  | cons chunk chunks ih =>
    rw [List.mem_cons, not_or] at hchunks
    rw [List.flatten_cons, ← List.append_assoc] at hflatten
    obtain ⟨front, back, rest, rfl, hcut, hnext, ls, hproper, hplain, hrest⟩ := exists_next ps s ⟨_, hflatten⟩
    have hboundary : boundary (buffer ++ chunk) = (textOf front).length := by
      rw [hcut]
      exact boundary_text front hproper hplain hrest
    have hflatten' : rest ++ chunks.flatten = textOf back ++ Lexeme.text s.tail := by
      rw [hcut, textOf_append, List.append_assoc, List.append_assoc] at hflatten
      exact List.append_cancel_left hflatten
    obtain ⟨groups, hgroups, hnil, hblocks⟩ := ih hchunks.2 hnext hflatten'
    rw [blocksGo, if_neg (Ne.symm hchunks.1), hboundary]
    dsimp only
    split
    · next hzero =>
      obtain rfl : front = [] := by
        by_contra hfront
        exact textOf_ne_nil hfront (List.length_eq_zero_iff.mp hzero)
      rw [textOf_nil, List.nil_append] at hcut
      exact ⟨groups, hgroups, hnil, by rw [hcut, hblocks]⟩
    · next hcutpos =>
      have hfront : [] ≠ front := by
        rintro rfl
        exact hcutpos rfl
      refine ⟨front :: groups, by rw [List.flatten_cons, hgroups], by simp [hfront, hnil], ?_⟩
      rw [hcut, List.take_left' rfl, List.drop_left' rfl, hblocks]
      rfl

/-- **Every block is some whole records**, in any chunks; what stands behind them is a block of its own. -/
theorem exists_blocks (s : Stream) {chunks : List Str} (hchunks : [] ∉ chunks) (hflatten : chunks.flatten = s.text) :
    ∃ groups : List (List Piece), groups.flatten = s.pieces ∧ [] ∉ groups ∧
      blocks chunks = groups.map textOf ++ s.rest := by
  refine exists_blocksGo s hchunks (fun p ps _ => ?_) hflatten
  rw [p.text_eq, List.length_append]
  exact Nat.succ_pos _

theorem blocksGo_rest (s : Stream) : blocksGo [] s.rest = s.rest := by
  have hboundary := boundary_text [] s.proper s.plain (List.prefix_refl _)
  rw [textOf_nil, List.nil_append] at hboundary
  rw [Stream.rest]
  split
  · rfl
  · next hnil =>
    rw [blocksGo, if_neg hnil, List.nil_append, hboundary]
    show blocksGo (Lexeme.text s.tail) [] = _
    rw [blocksGo, if_neg hnil]

/-- Chunks that are whole records are blocks. -/
theorem blocks_groups (s : Stream) {groups : List (List Piece)} (hgroups : [] ∉ groups) :
    blocks (groups.map textOf ++ s.rest) = groups.map textOf ++ s.rest := by
  rw [blocks]
  induction groups with
  | nil => exact blocksGo_rest s
  | cons ps groups ih =>
    rw [List.mem_cons, not_or] at hgroups
    have hps := textOf_ne_nil (Ne.symm hgroups.1)
    have hboundary := @boundary_text ps [] trivial List.not_mem_nil [] (List.prefix_refl _)
    rw [List.append_nil] at hboundary
    have hlength : ¬ (textOf ps).length = 0 := fun h => hps (List.length_eq_zero_iff.mp h)
    rw [List.map_cons, List.cons_append, blocksGo, if_neg hps, List.nil_append, hboundary]
    dsimp only
    rw [if_neg hlength, List.take_length, List.drop_length, ih hgroups.2]

/-- The file at once: its records are one block. -/
theorem blocks_whole (s : Stream) (h : s.pieces ≠ []) : blocks [s.text] = textOf s.pieces :: s.rest := by
  have hps := textOf_ne_nil h
  have hboundary := boundary_text s.pieces s.proper s.plain (List.prefix_refl _)
  have hlength : ¬ (textOf s.pieces).length = 0 := fun h => hps (List.length_eq_zero_iff.mp h)
  have hnil : ¬ s.text = [] := fun h => hps (List.append_eq_nil_iff.mp h).1
  rw [blocks, blocksGo, if_neg hnil, List.nil_append]
  rw [Stream.text, hboundary]
  dsimp only
  rw [if_neg hlength, List.take_left' rfl, List.drop_left' rfl]
  rfl

/-! ## Without comments -/

theorem withoutCommentsGo_kept (s rest : Str) :
    withoutCommentsGo s.length 0 (s ++ rest) = s ++ withoutCommentsGo 0 0 rest := by
  induction s with
  | nil => rfl
  | cons c s ih => exact congrArg (List.cons c) ih

theorem withoutCommentsGo_dropped (s rest : Str) :
    withoutCommentsGo 0 s.length (s ++ rest) = withoutCommentsGo 0 0 rest := by
  induction s with
  | nil => rfl
  | cons c s ih => exact ih

theorem withoutCommentsGo_text {ls : List Lexeme} (h : Proper ls) :
    withoutCommentsGo 0 0 (text ls) = bareText ls := by
  induction ls with
  | nil => rfl
  | cons l ls ih =>
    obtain ⟨hfits, hproper⟩ := h
    have ih := ih hproper
    cases l with
    | char c =>
      have hnot : ¬ (c = '/' ∧ (text ls).head? = some '*') := fun h => hfits.2 h.1 h.2
      show withoutCommentsGo 0 0 (c :: text ls) = _
      rw [withoutCommentsGo, if_neg hfits.1, if_neg hnot, ih, bareText_char]
    | string content =>
      have hcut : text (string content :: ls) = '\'' :: ((doubled content ++ ['\'']) ++ text ls) := rfl
      have hbare : bareText (string content :: ls) = '\'' :: ((doubled content ++ ['\'']) ++ bareText ls) := by simp
      rw [hcut, hbare, withoutCommentsGo, if_pos rfl]
      cases ls with
      | nil =>
        have hnone : endOfString ((doubled content ++ ['\'']) ++ text []) = none := by
          rw [text_nil, List.append_nil]
          exact endOfString_of_cut (List.prefix_refl _)
        rw [hnone]
        rfl
      | cons l ls =>
        have hne : text (l :: ls) ≠ [] := by
          cases l <;> simp [toText]
        rw [endOfString_doubled content hne hfits]
        show '\'' :: withoutCommentsGo _ 0 _ = _
        rw [withoutCommentsGo_kept, ih]
    | comment content =>
      have hcut : text (comment content :: ls) = '/' :: (('*' :: (content ++ ['*', '/'])) ++ text ls) := rfl
      have htail : (('*' :: (content ++ ['*', '/'])) ++ text ls).tail = content ++ '*' :: '/' :: text ls := by simp
      have hdropped := withoutCommentsGo_dropped ('*' :: (content ++ ['*', '/'])) (text ls)
      rw [List.length_cons, List.length_append] at hdropped
      rw [hcut, withoutCommentsGo, if_neg (by decide), if_pos ⟨rfl, rfl⟩, htail, commentLength_content hfits]
      exact hdropped.trans ih

/-- **Comments are left out, and strings stay.** -/
theorem withoutComments_text {ls : List Lexeme} (h : Proper ls) : withoutComments (text ls) = bareText ls := by
  rw [withoutComments]
  split
  · exact withoutCommentsGo_text h
  · next hnone =>
    have hplain : uncommented ls = ls := by
      refine List.filter_eq_self.mpr fun l hl => ?_
      cases l with
      | char c => rfl
      | string content => rfl
      | comment content =>
        obtain ⟨front, back, rfl⟩ := List.append_of_mem hl
        refine absurd ⟨text front, content ++ ['*', '/'] ++ text back, ?_⟩ hnone
        simp [toText]
    rw [bareText, hplain]

theorem proper_append {ls rest : List Lexeme} {l : Lexeme} (h : Proper (ls ++ [l])) (hl : Proper (l :: rest)) :
    Proper (ls ++ l :: rest) := by
  induction ls with
  | nil => exact hl
  | cons l' ls ih =>
    obtain ⟨hfits, hproper⟩ := h
    have hhead : (text (ls ++ l :: rest)).head? = (text (ls ++ [l])).head? := by
      have hl' : l.toText ≠ [] := by
        cases l <;> simp [toText]
      obtain ⟨c, t, ht⟩ := List.exists_cons_of_ne_nil hl'
      simp [ht, List.head?_append]
    refine ⟨?_, ih hproper⟩
    cases l' with
    | char c => exact ⟨hfits.1, fun hslash => hhead ▸ hfits.2 hslash⟩
    | string content =>
      show (text (ls ++ l :: rest)).head? ≠ some '\''
      rw [hhead]
      exact hfits
    | comment content => exact hfits

theorem bareText_flatMap (ps : List Piece) : bareText (ps.flatMap Piece.lexemes) = ps.flatMap Piece.bare := by
  induction ps with
  | nil => rfl
  | cons p ps ih =>
    rw [List.flatMap_cons, bareText_append, ih]
    rfl

/-- The records of a block without comments. -/
theorem withoutComments_textOf (ps : List Piece) : withoutComments (textOf ps) = ps.flatMap Piece.bare := by
  have hproper : Proper (ps.flatMap Piece.lexemes) := by
    induction ps with
    | nil => exact trivial
    | cons p ps ih =>
      rw [List.flatMap_cons, Piece.lexemes, List.append_assoc]
      exact proper_append p.proper ⟨⟨by decide, fun h => absurd h (by decide)⟩, ih⟩
  have htext : textOf ps = text (ps.flatMap Piece.lexemes) := by
    rw [text, List.flatMap_assoc]
    rfl
  rw [htext, withoutComments_text hproper, bareText_flatMap]

end PartCAD.Tolerance
