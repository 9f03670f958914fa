import Mathlib.Data.List.Forall2
import PartCAD.Lib.Offsets

/-!
# Masked templates

A document is a template.  To be checked as it is written, each construct of the template is replaced by
as many characters that mean nothing.

* `maskTemplate` : the masked text, with what the mask covers;
* `blankLike_lines` : a construct and what stands for it have the same lines;
* `maskTemplate_keeps` : **a masked text is the text, but for the constructs**.
-/

namespace PartCAD.Checks.Template

open PartCAD.Lib PartCAD.Lib.Text PartCAD.Lib.Offsets

/-! ## Masking -/

/-- An expression stands for a value, a statement for keys. -/
inductive Kind
  | expr
  | stmt
  deriving DecidableEq, Repr

structure Delimiter where
  opening : Str
  closing : Str
  kind : Kind

/-- `_DELIMITERS` -/
def delimiters : List Delimiter :=
  [⟨['{', '{'], ['}', '}'], .expr⟩, ⟨['{', '%'], ['%', '}'], .stmt⟩, ⟨['{', '#'], ['#', '}'], .stmt⟩]

/-- `_FILL`, in the first line of an expression. -/
def filler : Kind → Char
  | .expr => 'x'
  | .stmt => ' '

/-- `_blank_like`: only the first line can stand for a value. -/
def blankLike (chunk : Str) (kind : Kind) : Str :=
  match split '\n' chunk with
  | [] => []
  | line :: lines =>
    join '\n' (List.replicate line.length (filler kind) :: lines.map fun line => List.replicate line.length ' ')

/-- What is found, or what a delimiter opens before it. -/
def nearer (text : Str) (index : ℕ) (found : Option (ℕ × Delimiter)) (d : Delimiter) : Option (ℕ × Delimiter) :=
  match find text d.opening index with
  | none => found
  | some at_ => if found.all fun f => at_ < f.1 then some (at_, d) else found

/-- The first construct that opens from an offset on. -/
def opened (text : Str) (index : ℕ) : Option (ℕ × Delimiter) := delimiters.foldl (nearer text index) none

/-- Where it opens, and where it is closed; there is none where it is not. -/
def nextSpan (text : Str) (index : ℕ) : Option (ℕ × ℕ × Kind) :=
  (opened text index).bind fun (at_, d) =>
    (find text d.closing (at_ + d.opening.length)).map fun stop => (at_, stop + d.closing.length, d.kind)

theorem opened_eq_some {text : Str} {index at_ : ℕ} {d : Delimiter}
    (h : opened text index = some (at_, d)) : d ∈ delimiters ∧ find text d.opening index = some at_ := by
  have hfold : ∀ (ds : List Delimiter) (found : Option (ℕ × Delimiter)), (∀ d ∈ ds, d ∈ delimiters) →
      (∀ f ∈ found, f.2 ∈ delimiters ∧ find text f.2.opening index = some f.1) →
      ∀ f ∈ ds.foldl (nearer text index) found,
        f.2 ∈ delimiters ∧ find text f.2.opening index = some f.1 := by
    intro ds
    induction ds with
    | nil => exact fun found _ h => h
    | cons d ds ih =>
      intro found hds hfound
      refine ih _ (fun e he => hds e (List.mem_cons_of_mem _ he)) ?_
      rw [nearer]
      split
      · exact hfound
      · next at_ hat =>
        split
        · intro f hf
          obtain rfl : (at_, d) = f := Option.some.inj hf
          exact ⟨hds d List.mem_cons_self, hat⟩
        · exact hfound
  exact hfold delimiters none (fun _ h => h) (fun _ h => by cases h) (at_, d) h

/-- A construct: where it starts and where it ends. -/
structure Construct (text : Str) (index start stop : ℕ) (kind : Kind) : Prop where
  le_start : index ≤ start
  lt_stop : start < stop
  stop_le : stop ≤ text.length
  written : ∃ d ∈ delimiters, d.kind = kind ∧ ∃ body, slice text start stop = d.opening ++ body ++ d.closing

theorem construct_nextSpan {text : Str} {index start stop : ℕ} {kind : Kind} (hindex : index ≤ text.length)
    (h : nextSpan text index = some (start, stop, kind)) : Construct text index start stop kind := by
  obtain ⟨⟨at_, d⟩, hopened, hmap⟩ := Option.bind_eq_some_iff.mp h
  obtain ⟨close, hclose, heq⟩ := Option.map_eq_some_iff.mp hmap
  obtain ⟨hd, hopen⟩ := opened_eq_some hopened
  obtain ⟨rfl, rfl, rfl⟩ : at_ = start ∧ close + d.closing.length = stop ∧ d.kind = kind := by
    simpa using heq
  obtain ⟨hle, hlength, hslice⟩ := find_eq_some hindex hopen
  obtain ⟨hle', hlength', hslice'⟩ := find_eq_some hlength hclose
  have hpos : 0 < d.opening.length := by
    have hall : ∀ d ∈ delimiters, 0 < d.opening.length := by decide
    exact hall d hd
  refine ⟨hle, by omega, hlength', d, hd, rfl, slice text (at_ + d.opening.length) close, ?_⟩
  rw [← slice_append_slice (b := close) (by omega) (by omega) hlength', hslice',
    ← slice_append_slice (b := at_ + d.opening.length) (by omega) hle' (by omega), hslice]

/-- The text from an offset on, masked, and what the mask covers. -/
def maskFrom (text : Str) (starts : List ℕ) (index : ℕ) : Str × List ((ℕ × ℕ) × (ℕ × ℕ) × Kind) :=
  if _hindex : index < text.length then
    match _hnext : nextSpan text index with
    | none => (text.drop index, [])
    | some (start, stop, kind) =>
      let (out, spans) := maskFrom text starts stop
      (slice text index start ++ blankLike (slice text start stop) kind ++ out,
        (positionIn starts start, positionIn starts stop, kind) :: spans)
  else ([], [])
termination_by text.length - index
decreasing_by
  have h := construct_nextSpan _hindex.le _hnext
  have hstart := h.le_start
  have hstop := h.lt_stop
  omega

/-- `mask_template` -/
def maskTemplate (text : Str) : Str × List ((ℕ × ℕ) × (ℕ × ℕ) × Kind) :=
  maskFrom text (lineStarts text) 0

/-! ## What a mask keeps -/

/-- Two texts with the same line ends. -/
def SameLines (s t : Str) : Prop := List.Forall₂ (fun c d => c = '\n' ↔ d = '\n') s t

theorem sameLines_refl (s : Str) : SameLines s s := List.forall₂_refl s

theorem sameLines_append {s s' t t' : Str} (h : SameLines s t) (h' : SameLines s' t') :
    SameLines (s ++ s') (t ++ t') := List.rel_append h h'

/-- Two texts of one length, without a line end. -/
theorem sameLines_of_notMem {s t : Str} (hlength : s.length = t.length) (hs : '\n' ∉ s) (ht : '\n' ∉ t) :
    SameLines s t := by
  refine List.forall₂_iff_get.mpr ⟨hlength, fun i hi hi' => ⟨fun h => ?_, fun h => ?_⟩⟩
  · exact absurd (h ▸ List.get_mem s ⟨i, hi⟩) hs
  · exact absurd (h ▸ List.get_mem t ⟨i, hi'⟩) ht

theorem sameLines_replicate {line : Str} (h : '\n' ∉ line) {c : Char} (hc : c ≠ '\n') :
    SameLines (List.replicate line.length c) line :=
  sameLines_of_notMem (List.length_replicate ..) (fun hmem => hc (List.eq_of_mem_replicate hmem).symm) h

theorem sameLines_join {ls ls' : List Str} (h : List.Forall₂ SameLines ls ls') :
    SameLines (join '\n' ls) (join '\n' ls') := by
  induction h with
  | nil => exact List.Forall₂.nil
  | @cons l l' ls ls' hl hls ih =>
    cases hls with
    | nil => exact hl
    | cons h hs => exact sameLines_append hl (List.Forall₂.cons Iff.rfl ih)

/-- A construct and what stands for it have the same lines. -/
theorem blankLike_lines (chunk : Str) (kind : Kind) : SameLines (blankLike chunk kind) chunk := by
  have hnot : ∀ line ∈ split '\n' chunk, '\n' ∉ line := fun line h => notMem_of_mem_split h
  have hjoin := join_split '\n' chunk
  rw [blankLike]
  cases hsplit : split '\n' chunk with
  | nil => exact absurd hsplit (split_ne_nil _ _)
  | cons line lines =>
    rw [hsplit] at hjoin hnot
    have hfiller : filler kind ≠ '\n' := by cases kind <;> decide
    have hlines : SameLines (join '\n' (List.replicate line.length (filler kind) ::
        lines.map fun line => List.replicate line.length ' ')) (join '\n' (line :: lines)) := by
      refine sameLines_join (List.Forall₂.cons (sameLines_replicate (hnot line List.mem_cons_self) hfiller) ?_)
      rw [List.forall₂_map_left_iff]
      refine List.forall₂_same.mpr fun line hline => ?_
      exact sameLines_replicate (hnot line (List.mem_cons_of_mem _ hline)) (by decide)
    rwa [hjoin] at hlines

/-- What the mask covers, by offsets. -/
structure Span where
  start : ℕ
  stop : ℕ
  kind : Kind

/-- What is masked from an offset on. -/
structure Masks (text : Str) (index : ℕ) (out : Str) (spans : List Span) : Prop where
  lines : SameLines out (text.drop index)
  kept : ∀ i, index ≤ i → (∀ span ∈ spans, ¬ (span.start ≤ i ∧ i < span.stop)) → out[i - index]? = text[i]?
  constructs : ∀ span ∈ spans, Construct text index span.start span.stop span.kind
  ordered : spans.Pairwise fun span next => span.stop ≤ next.start

theorem masks_nil (text : Str) (index : ℕ) : Masks text index (text.drop index) [] where
  lines := sameLines_refl _
  kept i hi _ := by
    rw [List.getElem?_drop]
    congr 1
    omega
  constructs _ h := absurd h List.not_mem_nil
  ordered := List.Pairwise.nil

/-- One construct more in front. -/
theorem masks_cons {text out : Str} {index start stop : ℕ} {kind : Kind} {spans : List Span}
    (h : Construct text index start stop kind) (hout : Masks text stop out spans) :
    Masks text index (slice text index start ++ blankLike (slice text start stop) kind ++ out)
      (⟨start, stop, kind⟩ :: spans) where
  lines := by
    have hlines := sameLines_append (sameLines_append (sameLines_refl (slice text index start))
      (blankLike_lines (slice text start stop) kind)) hout.lines
    rwa [slice_append_slice h.le_start h.lt_stop.le h.stop_le,
      slice_append_drop (h.le_start.trans h.lt_stop.le) h.stop_le] at hlines
  kept i hi hcovered := by
    have hlength : (slice text index start).length = start - index :=
      length_slice (h.lt_stop.le.trans h.stop_le)
    have hblank : (blankLike (slice text start stop) kind).length = stop - start :=
      (List.Forall₂.length_eq (blankLike_lines _ _)).trans (length_slice h.stop_le)
    have hhead := hcovered _ List.mem_cons_self
    dsimp only at hhead
    have hstart := h.le_start
    have hstop := h.lt_stop
    by_cases hi' : i < start
    · rw [List.append_assoc, List.getElem?_append_left (by omega), slice, List.getElem?_drop,
        List.getElem?_take_of_lt (by omega)]
      congr 1
      omega
    · have hout' := hout.kept i (by omega) fun span hspan => hcovered span (List.mem_cons_of_mem _ hspan)
      rw [List.getElem?_append_right (by rw [List.length_append]; omega), List.length_append, hlength, hblank,
        ← hout']
      congr 1
      omega
  constructs span hspan := by
    rcases List.mem_cons.mp hspan with rfl | hspan
    · exact h
    · have hspan := hout.constructs span hspan
      exact ⟨(h.le_start.trans h.lt_stop.le).trans hspan.le_start, hspan.lt_stop, hspan.stop_le, hspan.written⟩
  ordered := List.Pairwise.cons (fun span hspan => (hout.constructs span hspan).le_start) hout.ordered

/-- A reported span, by the positions of its ends. -/
def Span.reported (text : Str) (span : Span) : (ℕ × ℕ) × (ℕ × ℕ) × Kind :=
  (position text span.start, position text span.stop, span.kind)

theorem masks_maskFrom (text : Str) (index : ℕ) (hindex : index ≤ text.length) :
    ∃ spans, Masks text index (maskFrom text (lineStarts text) index).1 spans ∧
      (maskFrom text (lineStarts text) index).2 = spans.map (Span.reported text) := by
  fun_induction maskFrom text (lineStarts text) index with
  | case1 index hlt hnext => exact ⟨[], masks_nil text index, rfl⟩
  | case2 index hlt start stop kind hnext out spans hout ih =>
    have hconstruct := construct_nextSpan hindex hnext
    obtain ⟨covered, hmasks, hspans⟩ := ih hconstruct.stop_le
    rw [hout] at hmasks hspans
    refine ⟨⟨start, stop, kind⟩ :: covered, masks_cons hconstruct hmasks, ?_⟩
    rw [positionIn_lineStarts (hconstruct.lt_stop.le.trans hconstruct.stop_le),
      positionIn_lineStarts hconstruct.stop_le]
    exact congrArg (_ :: ·) hspans
  | case3 index hlt =>
    have hmasks := masks_nil text index
    rw [List.drop_of_length_le (Nat.le_of_not_lt hlt)] at hmasks
    exact ⟨[], hmasks, rfl⟩

/-- A position is in a span. -/
def In (place : ℕ × ℕ) (span : (ℕ × ℕ) × (ℕ × ℕ) × Kind) : Prop :=
  toLex span.1 ≤ toLex place ∧ toLex place < toLex span.2.1

theorem in_reported_iff {text : Str} {span : Span} {i : ℕ} (hi : i < text.length)
    (hspan : span.start < span.stop) (hstop : span.stop ≤ text.length) :
    In (position text i) (span.reported text) ↔ span.start ≤ i ∧ i < span.stop := by
  refine and_congr ⟨fun h => ?_, fun h => position_le h hi.le⟩ ⟨fun h => ?_, fun h => position_lt h hstop⟩
  · by_contra hlt
    exact absurd h (not_le_of_gt (position_lt (Nat.lt_of_not_le hlt) (hspan.le.trans hstop)))
  · by_contra hle
    exact absurd h (not_lt_of_ge (position_le (Nat.le_of_not_lt hle) hi.le))

/-- **A masked text is the text, but for the constructs of the template**, which the reported spans cover;
and an offset is mapped to its line and column. -/
theorem maskTemplate_keeps (text : Str) :
    SameLines (maskTemplate text).1 text ∧
    (∀ i < text.length, (∀ span ∈ (maskTemplate text).2, ¬ In (position text i) span) →
      (maskTemplate text).1[i]? = text[i]?) ∧
    ((maskTemplate text).2.Pairwise fun span next => toLex span.2.1 ≤ toLex next.1) ∧
    (∀ span ∈ (maskTemplate text).2, ∃ start stop, Construct text 0 start stop span.2.2 ∧
      span.1 = position text start ∧ span.2.1 = position text stop ∧
      toLex span.1 < toLex span.2.1 ∧ toLex span.2.1 ≤ toLex (position text text.length)) ∧
    ∀ offset ≤ text.length, positionIn (lineStarts text) offset = position text offset := by
  obtain ⟨spans, hmasks, hspans⟩ := masks_maskFrom text 0 (Nat.zero_le _)
  rw [maskTemplate, hspans]
  refine ⟨hmasks.lines, ?_, ?_, ?_, fun offset h => positionIn_lineStarts h⟩
  · intro i hi hnot
    refine hmasks.kept i (Nat.zero_le _) fun span hspan hin => ?_
    have hconstruct := hmasks.constructs span hspan
    exact hnot _ (List.mem_map_of_mem hspan)
      ((in_reported_iff hi hconstruct.lt_stop hconstruct.stop_le).mpr hin)
  · rw [List.pairwise_map]
    refine hmasks.ordered.imp_of_mem fun _ hnext hle => position_le hle ?_
    have hconstruct := hmasks.constructs _ hnext
    exact hconstruct.lt_stop.le.trans hconstruct.stop_le
  · intro span hspan
    obtain ⟨covered, hcovered, rfl⟩ := List.mem_map.mp hspan
    have hconstruct := hmasks.constructs covered hcovered
    exact ⟨_, _, hconstruct, rfl, rfl, position_lt hconstruct.lt_stop hconstruct.stop_le,
      position_le hconstruct.stop_le le_rfl⟩

end PartCAD.Checks.Template
