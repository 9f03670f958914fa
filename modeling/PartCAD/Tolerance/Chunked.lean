import PartCAD.Tolerance.Places

/-!
# A STEP file in any chunks

The records of a file are read in blocks, and which records make a block depends on the chunks the file comes in.

* `Independent` : the same is found at the same places, and the tolerance is the same, in any chunks;
* `Clear` : what is found lies in one record, and units are not found again behind where they are taken from;
* `independent_iff` : **the chunks do not matter if and only if the file is clear**;
* `not_independent` : a file of whole records that is read in two ways.
-/

namespace PartCAD.Tolerance

open PartCAD.Lib PartCAD.Lib.Regex PartCAD.Lib.Lexeme

/-! ## The claim -/

/-- What of a kind is found in a file that is read in such chunks, and where. -/
def found (kind : Kind) (chunks : List Str) : List Match := foundAt kind 0 (blocks chunks)

/-- In any chunks, the same is found at the same places, and the tables and the tolerance are the same as for
the file at once. -/
def Independent {F : Type} (fl : Floats F) (s : Stream) : Prop :=
  ∀ chunks : List Str, [] ∉ chunks → chunks.flatten = s.text →
    (∀ kind, found kind chunks = found kind [s.text]) ∧
      (readBlocks fl (blocks chunks)).Same (readBlocks fl (blocks [s.text])) ∧
      ofStepFile fl chunks = ofStepFile fl [s.text]

/-- What of a kind is found in some records at once. -/
def foundOf (kind : Kind) (ps : List Piece) : List Match :=
  gated Piece.bare (fun ps => keyed (textOf ps)) (reads kind) ps

/-- It lies in one of the records, which holds a keyword as it is written. -/
abbrev LiesIn (ps : List Piece) (m : Match) : Prop := Lies Piece.bare (fun ps => keyed (textOf ps)) ps m

/-- The numbers of the metres that are found in a block. -/
def metreIds (block : Str) : List ℕ :=
  (foundIn .siUnit block).filterMap fun m => (scaleFactor m).map fun _ => numberOf m 0

/-- The numbers of the units that are found in a block as so much of another one. -/
def conversionIds (block : Str) : List ℕ := (foundIn .conversionUnit block).map fun m => numberOf m 0

/-- Whatever is found in the records lies in one of them, and no metre is found behind the last unit of its
number that is so much of another one; if it is not found behind the records as well. -/
structure Clear (s : Stream) : Prop where
  lies : ∀ kind, ∀ m ∈ foundOf kind s.pieces, LiesIn s.pieces m
  units : ∀ front back id, s.pieces = front ++ back → id ∈ front.flatMap (fun p => conversionIds p.text) →
    id ∈ back.flatMap (fun p => metreIds p.text) → id ∈ back.flatMap (fun p => conversionIds p.text) ∨
      id ∈ s.rest.flatMap fun block => metreIds block ++ conversionIds block

/-! ## Records in groups -/

theorem whole_eq (ps : List Piece) : whole Piece.bare ps = withoutComments (textOf ps) :=
  (withoutComments_textOf ps).symm

theorem foundOf_eq (kind : Kind) (ps : List Piece) : foundOf kind ps = foundIn kind (textOf ps) := by
  rw [foundOf, gated, whole_eq, foundIn]

theorem ends_whole (ps : List Piece) : Ends (whole Piece.bare ps) := by
  rcases List.eq_nil_or_concat ps with rfl | ⟨ps, p, rfl⟩
  · intro c hc
    cases hc
  · intro c hc
    have hbare : whole Piece.bare (ps ++ [p]) = (whole Piece.bare ps ++ bareText p.body) ++ [';'] := by
      rw [whole_append, List.append_assoc]
      simp [whole, Piece.bare, Piece.lexemes]
    rw [List.concat_eq_append, hbare, List.getLast?_concat] at hc
    exact (Option.some.inj hc).symm

theorem keyed_append (front ps back : List Piece) (h : keyed (textOf ps) = true) :
    keyed (textOf (front ++ ps ++ back)) = true := by
  obtain ⟨keyword, hmem, hin⟩ := List.any_eq_true.mp h
  refine List.any_eq_true.mpr ⟨keyword, hmem, decide_eq_true ?_⟩
  rw [textOf_append, textOf_append]
  exact (of_decide_eq_true hin).trans ⟨textOf front, textOf back, rfl⟩

/-- What is found in one group of records after the other. -/
abbrev eachOf (kind : Kind) (k : ℕ) (groups : List (List Piece)) : List Match :=
  eachAt Piece.bare (fun ps => keyed (textOf ps)) (reads kind) k groups

theorem foundAt_groups (kind : Kind) (i : ℕ) (groups : List (List Piece)) (rest : List Str) :
    foundAt kind i (groups.map textOf ++ rest) =
      eachOf kind i groups ++ foundAt kind (i + (whole Piece.bare groups.flatten).length) rest := by
  induction groups generalizing i with
  | nil => rfl
  | cons ps groups ih =>
    rw [List.map_cons, List.cons_append, foundAt, ih, ← foundOf_eq, ← whole_eq, List.flatten_cons, whole_append,
      List.length_append, Nat.add_assoc, ← List.append_assoc]
    rfl

theorem foundOf_flatten {kind : Kind} {groups : List (List Piece)}
    (h : ∀ m ∈ foundOf kind groups.flatten, LiesIn groups.flatten m) :
    foundOf kind groups.flatten = eachOf kind 0 groups :=
  gated_flatten (local_reads kind) ends_whole keyed_append h

/-! ## What the tables hold -/

theorem magnitude_listFound (block : Str) (m : Match) :
    (listFound block m).map (fun m => numberOf m 0) = geometricMagnitude (block.drop m.stop) := by
  rw [listFound, geometricMagnitude, arguments]
  cases argumentsGo 0 1 [] (block.drop m.stop) with
  | none => rfl
  | some x =>
    show Option.map _ ((magnitudeDigits x.1).map _) = (magnitudeDigits x.1).map digitsValue
    rw [Option.map_map]
    rfl

section

variable {F : Type} (fl : Floats F)

/-- The units that are found in a block: the metres, then those that are so much of another one. -/
def unitItems (block : Str) : List (ℕ × LengthUnit F) :=
  (foundIn .siUnit block).filterMap (scaleItem fl) ++ (foundIn .conversionUnit block).map conversionItem

/-- What a block adds to the tables. -/
theorem readBlock_eq (t : Tables F) (block : Str) :
    readBlock fl t block =
      { measures := t.measures.setAll ((foundIn .measure block).filterMap (measureItem fl))
        units := t.units.setAll (unitItems fl block)
        toleranceValues := t.toleranceValues ++
          (foundIn .toleranceValue block).map fun m => (numberOf m 0, numberOf m 1)
        magnitudes := t.magnitudes ++ (foundIn .magnitude block).map fun m => numberOf m 0 } := by
  have hmagnitudes : ∀ block : Str, (reads .magnitude block).map (fun m => numberOf m 0) =
      (search isWord geometricTolerance block).filterMap fun m => geometricMagnitude (block.drop m.stop) := by
    intro block
    show ((search isWord geometricTolerance block).filterMap (listFound block)).map _ = _
    rw [List.map_filterMap]
    exact List.filterMap_congr fun m _ => magnitude_listFound block m
  rw [readBlock, unitItems]
  by_cases hkeyed : keyed block = true
  · simp only [foundIn, hkeyed, if_true, hmagnitudes, Dict.setAll_append]
    rfl
  · have hnone : ∀ kind, foundIn kind block = [] := fun kind => if_neg hkeyed
    simp only [hnone, if_neg hkeyed, List.filterMap_nil, List.map_nil, List.append_nil]
    rfl

/-- What some blocks add to the tables is what is found in them, wherever it is. -/
theorem foldl_readBlock (i : ℕ) (t : Tables F) (bs : List Str) :
    bs.foldl (readBlock fl) t =
      { measures := t.measures.setAll ((foundAt .measure i bs).filterMap (measureItem fl))
        units := t.units.setAll (bs.flatMap (unitItems fl))
        toleranceValues := t.toleranceValues ++
          (foundAt .toleranceValue i bs).map fun m => (numberOf m 0, numberOf m 1)
        magnitudes := t.magnitudes ++ (foundAt .magnitude i bs).map fun m => numberOf m 0 } := by
  induction bs generalizing i t with
  | nil => simp [foundAt, Dict.setAll]
  | cons block bs ih =>
    have hmeasure : measureItem fl ∘ Match.moved i = measureItem fl := rfl
    have hvalue : (fun m => (numberOf m 0, numberOf m 1)) ∘ Match.moved i =
        fun m => (numberOf m 0, numberOf m 1) := rfl
    have hnumber : (fun m => numberOf m 0) ∘ Match.moved i = fun m => numberOf m 0 := rfl
    rw [List.foldl_cons, ih (i + (withoutComments block).length), readBlock_eq]
    simp only [foundAt, List.filterMap_append, List.filterMap_map, List.map_append, List.map_map, hmeasure, hvalue,
      hnumber, Dict.setAll_append, List.append_assoc, List.flatMap_cons]

/-- Where the same is found, the tables are the same but for the units. -/
theorem same_of_found {bs bs' : List Str} (h : ∀ kind, foundAt kind 0 bs = foundAt kind 0 bs')
    (hunits : ∀ id, lookupItem id (bs.flatMap (unitItems fl)).reverse =
      lookupItem id (bs'.flatMap (unitItems fl)).reverse) :
    (readBlocks fl bs).Same (readBlocks fl bs') := by
  rw [readBlocks, readBlocks, foldl_readBlock fl 0, foldl_readBlock fl 0]
  refine ⟨fun id => ?_, fun id => ?_, ?_, ?_⟩
  · dsimp only
    rw [h]
  · dsimp only
    rw [Dict.get?_setAll_eq, Dict.get?_setAll_eq, hunits]
  · dsimp only
    rw [h]
  · dsimp only
    rw [h]

theorem get?_units (bs : List Str) (id : ℕ) :
    (readBlocks fl bs).units.get? id = lookupItem id (bs.flatMap (unitItems fl)).reverse := by
  rw [readBlocks, foldl_readBlock fl 0]
  dsimp only
  rw [Dict.get?_setAll_eq, Dict.get?_empty, Option.or_none]

/-! ## The file at once -/

/-- All records in one group. -/
def atOnce (ps : List Piece) : List (List Piece) := if ps = [] then [] else [ps]

theorem flatten_atOnce (ps : List Piece) : (atOnce ps).flatten = ps := by
  rw [atOnce]
  split
  · next h =>
    rw [h]
    rfl
  · simp

theorem blocks_atOnce (s : Stream) : blocks [s.text] = (atOnce s.pieces).map textOf ++ s.rest := by
  by_cases h : s.pieces = []
  · rw [atOnce, if_pos h, Stream.text, h, textOf_nil, List.nil_append, List.map_nil, List.nil_append]
    have hrest := @blocks_groups s [] List.not_mem_nil
    rw [List.map_nil, List.nil_append] at hrest
    rw [Stream.rest] at hrest ⊢
    split
    · next hnil => rw [hnil]; rfl
    · next hnil =>
      rw [if_neg hnil] at hrest
      exact hrest
  · rw [atOnce, if_neg h, blocks_whole s h]
    rfl

theorem eachOf_atOnce (kind : Kind) (ps : List Piece) : eachOf kind 0 (atOnce ps) = foundOf kind ps := by
  have hzero : Match.moved 0 = id := rfl
  rw [atOnce]
  split
  · next h =>
    have hkeyed : keyed (textOf ps) = false := by
      rw [h]
      decide
    rw [foundOf, gated, hkeyed]
    rfl
  · rw [eachOf, eachAt, eachAt, hzero, List.map_id, List.append_nil]
    rfl

/-! ## Units in turns -/

/-- The metres of a record, and the units that are so much of another one. -/
def scalesOf (p : Piece) : List (ℕ × LengthUnit F) := (foundIn .siUnit p.text).filterMap (scaleItem fl)

def conversionsOf (p : Piece) : List (ℕ × LengthUnit F) := (foundIn .conversionUnit p.text).map conversionItem

theorem keys_scalesOf (ps : List Piece) :
    (ps.flatMap (scalesOf fl)).map Prod.fst = ps.flatMap fun p => metreIds p.text := by
  rw [List.map_flatMap]
  refine List.flatMap_congr fun p _ => ?_
  rw [scalesOf, metreIds, List.map_filterMap]
  refine List.filterMap_congr fun m _ => ?_
  rw [scaleItem, Option.map_map]
  rfl

theorem keys_conversionsOf (ps : List Piece) :
    (ps.flatMap (@conversionsOf F)).map Prod.fst = ps.flatMap fun p => conversionIds p.text := by
  rw [List.map_flatMap]
  refine List.flatMap_congr fun p _ => ?_
  rw [conversionsOf, conversionIds, List.map_map]
  rfl

theorem keys_unitItems (bs : List Str) :
    (bs.flatMap (unitItems fl)).map Prod.fst = bs.flatMap fun block => metreIds block ++ conversionIds block := by
  rw [List.map_flatMap]
  refine List.flatMap_congr fun block _ => ?_
  rw [unitItems, List.map_append, metreIds, conversionIds, List.map_map, List.map_filterMap]
  refine congrArg (· ++ _) (List.filterMap_congr fun m _ => ?_)
  rw [scaleItem, Option.map_map]
  rfl

variable {fl}

theorem flatMap_flatten {α β : Type} (f : α → List β) (xss : List (List α)) :
    xss.flatten.flatMap f = xss.flatMap fun xs => xs.flatMap f := by
  rw [← List.flatMap_id, List.flatMap_assoc]
  rfl

/-- What is read off a group is what is read off its records. -/
theorem filterMap_foundOf {kind : Kind} {ps : List Piece} (h : ∀ m ∈ foundOf kind ps, LiesIn ps m) {β : Type}
    {f : Match → Option β} (hf : ∀ k m, f (m.moved k) = f m) :
    (foundOf kind ps).filterMap f = ps.flatMap fun p => (foundIn kind p.text).filterMap f := by
  have hflatten : (ps.map fun p => [p]).flatten = ps := by
    rw [← List.flatMap_def]
    exact List.flatMap_singleton' ps
  have heach : foundOf kind ps = eachOf kind 0 (ps.map fun p => [p]) := by
    have := @foundOf_flatten kind (ps.map fun p => [p]) (by rwa [hflatten])
    rwa [hflatten] at this
  rw [heach, filterMap_eachAt hf, List.flatMap_map]
  refine List.flatMap_congr fun p _ => ?_
  have hone : foundOf kind [p] = foundIn kind p.text := by
    rw [foundOf_eq, textOf_cons, textOf_nil, List.append_nil]
  rw [← hone]
  rfl

theorem unitItems_textOf {ps : List Piece} (h : ∀ kind, ∀ m ∈ foundOf kind ps, LiesIn ps m) :
    unitItems fl (textOf ps) = ps.flatMap (scalesOf fl) ++ ps.flatMap conversionsOf := by
  have hmap : ∀ ms : List Match, ms.map (@conversionItem F) = ms.filterMap (some ∘ conversionItem) := by
    intro ms
    rw [List.filterMap_eq_map]
  rw [unitItems, ← foundOf_eq, ← foundOf_eq, filterMap_foundOf (h _) fun _ _ => rfl, hmap,
    filterMap_foundOf (h _) fun _ _ => rfl]
  refine congrArg (_ ++ ·) (List.flatMap_congr fun p _ => ?_)
  rw [conversionsOf, hmap]

/-- Units that are read in groups end as if they were read at once. -/
theorem lookupItem_groups {s : Stream} (h : Clear s) {groups : List (List Piece)} (hgroups : groups.flatten = s.pieces)
    (id : ℕ) :
    lookupItem id ((groups.map textOf ++ s.rest).flatMap (unitItems fl)).reverse =
      lookupItem id ((s.pieces.flatMap (scalesOf fl) ++ s.pieces.flatMap conversionsOf) ++
        s.rest.flatMap (unitItems fl)).reverse := by
  have hnone : ∀ {ps : List (ℕ × LengthUnit F)}, lookupItem id ps.reverse = none ↔ id ∉ ps.map Prod.fst := by
    intro ps
    rw [lookupItem_eq_none, List.map_reverse, List.mem_reverse]
  have hitems : (groups.map textOf).flatMap (unitItems fl) =
      groups.flatMap fun ps => ps.flatMap (scalesOf fl) ++ ps.flatMap conversionsOf := by
    rw [List.flatMap_map]
    refine List.flatMap_congr fun ps hps => unitItems_textOf fun kind => ?_
    obtain ⟨front, back, rfl⟩ := List.append_of_mem hps
    rw [List.flatten_append, List.flatten_cons] at hgroups
    have hlies := h.lies kind
    rw [← hgroups] at hlies
    exact lies_of_mem (local_reads kind) ends_whole keyed_append hlies
  rw [List.flatMap_append, hitems, List.reverse_append, List.reverse_append, Dict.lookupItem_append, Dict.lookupItem_append]
  cases hrest : lookupItem id (s.rest.flatMap (unitItems fl)).reverse with
  | some v => rfl
  | none =>
    have hnot : id ∉ s.rest.flatMap fun block => metreIds block ++ conversionIds block := by
      rw [← keys_unitItems fl]
      exact hnone.mp hrest
    refine congrArg (Option.or none) ?_
    rw [Dict.lookupItem_interleaved (fun ps : List Piece => ps.flatMap (scalesOf fl)) (fun ps => ps.flatMap conversionsOf)]
    · rw [← hgroups, flatMap_flatten, flatMap_flatten]
    · intro front back heq hconversion hscale
      subst heq
      rw [List.flatten_append] at hgroups
      rw [← flatMap_flatten, keys_conversionsOf] at hconversion ⊢
      rw [← flatMap_flatten, keys_scalesOf] at hscale
      exact (h.units front.flatten back.flatten id hgroups.symm hconversion hscale).resolve_right hnot

end

/-! ## Any chunks -/

/-- The same is found in any groups of records. -/
theorem found_groups {s : Stream} {kind : Kind} (h : ∀ m ∈ foundOf kind s.pieces, LiesIn s.pieces m)
    {groups : List (List Piece)} (hgroups : groups.flatten = s.pieces) :
    foundAt kind 0 (groups.map textOf ++ s.rest) = foundAt kind 0 (blocks [s.text]) := by
  have hgroup : foundOf kind groups.flatten = eachOf kind 0 groups := foundOf_flatten (by rwa [hgroups])
  rw [blocks_atOnce, foundAt_groups, foundAt_groups, flatten_atOnce, eachOf_atOnce, hgroups, ← hgroup, hgroups]

theorem Clear.independent {s : Stream} (h : Clear s) {F : Type} (fl : Floats F) : Independent fl s := by
  intro chunks hchunks hflatten
  obtain ⟨groups, hgroups, -, hblocks⟩ := exists_blocks s hchunks hflatten
  have hfound : ∀ kind, foundAt kind 0 (blocks chunks) = foundAt kind 0 (blocks [s.text]) := by
    intro kind
    rw [hblocks]
    exact found_groups (h.lies kind) hgroups
  have hsame : (readBlocks fl (blocks chunks)).Same (readBlocks fl (blocks [s.text])) := by
    refine same_of_found fl hfound fun id => ?_
    rw [hblocks, blocks_atOnce, lookupItem_groups h hgroups, lookupItem_groups h (flatten_atOnce s.pieces)]
  refine ⟨hfound, hsame, ?_⟩
  rw [ofStepFile, ofStepFile, values_congr hsame]

/-- Each record in a chunk of its own. -/
def oneByOne (s : Stream) : List Str := (s.pieces.map fun p => [p]).map textOf ++ s.rest

theorem blocks_oneByOne (s : Stream) : blocks (oneByOne s) = oneByOne s :=
  blocks_groups s (by simp)

theorem flatten_oneByOne (s : Stream) : (oneByOne s).flatten = s.text := by
  have hpieces : ((s.pieces.map fun p => [p]).map textOf).flatten = textOf s.pieces := by
    rw [List.map_map, ← List.flatMap_def, textOf]
    refine List.flatMap_congr fun p _ => ?_
    simp
  have hrest : s.rest.flatten = Lexeme.text s.tail := by
    rw [Stream.rest]
    split
    · next h => rw [h]; rfl
    · simp
  rw [oneByOne, List.flatten_append, hpieces, hrest]
  rfl

theorem nil_notMem_oneByOne (s : Stream) : [] ∉ oneByOne s := by
  intro h
  rcases List.mem_append.mp h with h | h
  · obtain ⟨ps, hps, hnil⟩ := List.mem_map.mp h
    obtain ⟨p, -, rfl⟩ := List.mem_map.mp hps
    exact textOf_ne_nil (List.cons_ne_nil p []) hnil
  · rw [Stream.rest] at h
    split at h
    · cases h
    · next hnil => exact hnil (List.mem_singleton.mp h).symm

theorem exists_lookupItem {α : Type} {id : ℕ} {ps : List (ℕ × α)} (h : id ∈ ps.map Prod.fst) :
    ∃ v, lookupItem id ps.reverse = some v ∧ (id, v) ∈ ps := by
  cases hv : lookupItem id ps.reverse with
  | none =>
    rw [lookupItem_eq_none, List.map_reverse, List.mem_reverse] at hv
    exact absurd h hv
  | some v => exact ⟨v, rfl, List.mem_reverse.mp (mem_of_lookupItem hv)⟩

theorem Independent.clear {s : Stream} {F : Type} {fl : Floats F} (h : Independent fl s) : Clear s := by
  obtain ⟨hfound, hsame, -⟩ := h (oneByOne s) (nil_notMem_oneByOne s) (flatten_oneByOne s)
  have hflatten : (s.pieces.map fun p => [p]).flatten = s.pieces := by
    rw [← List.flatMap_def]
    exact List.flatMap_singleton' s.pieces
  have hlies : ∀ kind, ∀ m ∈ foundOf kind s.pieces, LiesIn s.pieces m := by
    intro kind
    have hkind := hfound kind
    rw [found, found, blocks_oneByOne, blocks_atOnce, oneByOne, foundAt_groups, foundAt_groups, hflatten,
      flatten_atOnce, eachOf_atOnce] at hkind
    exact lies_of_each (local_reads kind) (List.append_cancel_right hkind).symm
  refine ⟨hlies, fun front back id heq hconversion hmetre => ?_⟩
  by_contra hnot
  rw [not_or] at hnot
  have hrest : lookupItem id (s.rest.flatMap (unitItems fl)).reverse = none := by
    rw [lookupItem_eq_none, List.map_reverse, List.mem_reverse, keys_unitItems]
    exact hnot.2
  -- one by one, the last to be found of that number is a metre
  obtain ⟨v, hv, hvmem⟩ : ∃ v, lookupItem id (back.flatMap fun p => unitItems fl p.text).reverse = some v ∧
      (id, v) ∈ back.flatMap fun p => unitItems fl p.text := by
    refine exists_lookupItem ?_
    rw [← keys_scalesOf fl, List.map_flatMap, List.mem_flatMap] at hmetre
    obtain ⟨p, hp, hid⟩ := hmetre
    rw [List.map_flatMap, List.mem_flatMap]
    refine ⟨p, hp, ?_⟩
    rw [unitItems, List.map_append]
    exact List.mem_append_left _ hid
  have hone : (readBlocks fl (blocks (oneByOne s))).units.get? id = some v := by
    have hitems : ((s.pieces.map fun p => [p]).map textOf).flatMap (unitItems fl) =
        (front.flatMap fun p => unitItems fl p.text) ++ back.flatMap fun p => unitItems fl p.text := by
      rw [heq, List.map_map, List.flatMap_map, List.flatMap_append]
      simp
    rw [get?_units, blocks_oneByOne, oneByOne, List.flatMap_append, hitems, List.reverse_append, List.reverse_append,
      Dict.lookupItem_append, Dict.lookupItem_append, hrest, hv]
    rfl
  -- at once, it is one that is so much of another
  obtain ⟨v', hv', hvmem'⟩ : ∃ v', lookupItem id (s.pieces.flatMap (@conversionsOf F)).reverse = some v' ∧
      (id, v') ∈ s.pieces.flatMap (@conversionsOf F) := by
    refine exists_lookupItem ?_
    rw [keys_conversionsOf, heq, List.flatMap_append]
    exact List.mem_append_left _ hconversion
  have hwhole : (readBlocks fl (blocks [s.text])).units.get? id = some v' := by
    have hne : s.pieces ≠ [] := by
      rintro hnil
      rw [hnil] at hvmem'
      cases hvmem'
    rw [get?_units, blocks_whole s hne, List.flatMap_cons, unitItems_textOf hlies]
    simp only [List.reverse_append, Dict.lookupItem_append, hrest, hv']
    rfl
  have hvalue : v = v' := by
    have := hsame.units id
    rw [hone, hwhole] at this
    exact Option.some.inj this
  obtain ⟨p', -, hp'⟩ := List.mem_flatMap.mp hvmem'
  obtain ⟨m', -, hm'⟩ := List.mem_map.mp hp'
  have hmeasure : v' = .measure (numberOf m' 1) := (Prod.mk.inj hm').2.symm
  obtain ⟨p, hp, hvp⟩ := List.mem_flatMap.mp hvmem
  rcases List.mem_append.mp hvp with hscale | hother
  · obtain ⟨m, -, hm⟩ := List.mem_filterMap.mp hscale
    obtain ⟨factor, -, hfactor⟩ := Option.map_eq_some_iff.mp hm
    rw [hvalue, hmeasure] at hfactor
    cases hfactor
  · refine hnot.1 (List.mem_flatMap.mpr ⟨p, hp, ?_⟩)
    obtain ⟨m, hm, hid⟩ := List.mem_map.mp hother
    exact List.mem_map.mpr ⟨m, hm, (Prod.mk.inj hid).1⟩

/-- **The chunks do not matter** if and only if whatever is found lies in one record, and no metre is found behind
the last unit of its number that is so much of another one. -/
theorem independent_iff {F : Type} (fl : Floats F) (s : Stream) : Independent fl s ↔ Clear s :=
  ⟨fun h => h.clear, fun h => h.independent fl⟩

/-! ## A name that looks like a tolerance -/

/-- How many parentheses are open behind some lexemes, so many of them before. -/
def depthAfter : ℕ → List Lexeme → Option ℕ
  | depth, [] => some depth
  | depth, .char c :: ls =>
    if c = '(' then depthAfter (depth + 1) ls
    else if c = ')' then if depth = 0 then none else depthAfter (depth - 1) ls
    else depthAfter depth ls
  | depth, _ :: ls => depthAfter depth ls

/-- The parentheses of a record are closed. -/
def Piece.Closed (p : Piece) : Prop := depthAfter 0 p.body = some 0

instance (p : Piece) : Decidable p.Closed := inferInstanceAs (Decidable (_ = _))

theorem proper_chars {s : Str} (hs : '\'' ∉ s ∧ '/' ∉ s) {ls : List Lexeme} (h : Proper ls) : Proper (chars s ++ ls) := by
  induction s with
  | nil => exact h
  | cons c s ih =>
    simp only [List.mem_cons, not_or] at hs
    exact ⟨⟨fun hc => hs.1.1 hc.symm, fun hc => absurd hc.symm hs.2.1⟩, ih ⟨hs.1.2, hs.2.2⟩⟩

/-- A record with one string in it. -/
def quotedPiece (before content behind : Str) (hbefore : '\'' ∉ before ∧ '/' ∉ before ∧ ';' ∉ before)
    (hbehind : '\'' ∉ behind ∧ '/' ∉ behind ∧ ';' ∉ behind) : Piece where
  body := chars before ++ .string content :: chars behind
  proper := by
    have hend : Proper (chars behind ++ [.char ';']) :=
      proper_chars ⟨hbehind.1, hbehind.2.1⟩ ⟨⟨by decide, fun h => absurd h (by decide)⟩, trivial⟩
    have hhead : (Lexeme.text (chars behind ++ [.char ';'])).head? ≠ some '\'' := by
      rw [text_append, text_chars]
      cases behind with
      | nil => decide
      | cons c behind =>
        intro h
        obtain rfl := Option.some.inj h
        exact hbehind.1 List.mem_cons_self
    rw [List.append_assoc]
    exact proper_chars ⟨hbefore.1, hbefore.2.1⟩ ⟨hhead, hend⟩
  plain := by
    have hchars : ∀ {s : Str}, ';' ∉ s → Lexeme.char ';' ∉ chars s := by
      intro s hs h
      obtain ⟨c, hc, heq⟩ := List.mem_map.mp h
      obtain rfl := Lexeme.char.inj heq
      exact hs hc
    intro h
    rcases List.mem_append.mp h with h | h
    · exact hchars hbefore.2.2 h
    · rcases List.mem_cons.mp h with h | h
      · cases h
      · exact hchars hbehind.2.2 h

/-- A record without strings. -/
def plainPiece (s : Str) (hs : '\'' ∉ s ∧ '/' ∉ s ∧ ';' ∉ s) : Piece where
  body := chars s
  proper := proper_chars ⟨hs.1, hs.2.1⟩ ⟨⟨by decide, fun h => absurd h (by decide)⟩, trivial⟩
  plain := by
    intro h
    obtain ⟨c, hc, heq⟩ := List.mem_map.mp h
    obtain rfl := Lexeme.char.inj heq
    exact hs.2.2 hc

/-- A length of 0.1 mm, and two products whose names look like the list of a tolerance. -/
def namedStream : Stream where
  pieces := [
    plainPiece "#1=LENGTH_MEASURE_WITH_UNIT(LENGTH_MEASURE(0.1),#2)".toList (by decide +kernel),
    plainPiece "#2=(LENGTH_UNIT()NAMED_UNIT(*)SI_UNIT(.MILLI.,.METRE.))".toList (by decide +kernel),
    quotedPiece "#3=PRODUCT(".toList "XTOLERANCE(".toList ")".toList (by decide +kernel) (by decide +kernel),
    quotedPiece "#4=PRODUCT(".toList "$,$,#1,$)".toList ")".toList (by decide +kernel) (by decide +kernel)]
  tail := []
  proper := trivial
  plain := List.not_mem_nil

/-- Floats that are exact. -/
def decimals : Floats ℚ where
  parse s := Lib.numberOf asciiDigits s
  literal q := q
  nan := 0
  mul x y := x * y
  sub x y := x - y
  abs x := if x < 0 then -x else x
  lt x y := x < y
  le x y := x ≤ y

/-- A literal text is known by its characters. -/
theorem of_literal {P : Str → Prop} {l : List Char} {s : String} (h : String.ofList l = s) (hp : P l) : P s.toList := by
  rw [← h, String.toList_ofList]
  exact hp

/-- The text of the records. -/
def namedText : String :=
  "#1=LENGTH_MEASURE_WITH_UNIT(LENGTH_MEASURE(0.1),#2);#2=(LENGTH_UNIT()NAMED_UNIT(*)SI_UNIT(.MILLI.,.METRE.));#3=PRODUCT('XTOLERANCE(');#4=PRODUCT('$,$,#1,$)');"

set_option maxRecDepth 4000 in
theorem text_namedStream : namedStream.text = namedText.toList :=
  @of_literal (fun text => namedStream.text = text) _ namedText rfl (by decide +kernel)

set_option maxRecDepth 4000 in
theorem blocks_namedText : blocks [namedText.toList] = [namedText.toList] :=
  @of_literal (fun text => blocks [text] = [text]) _ namedText rfl (by decide +kernel)

set_option maxRecDepth 4000 in
/-- At once, the records state a magnitude. -/
theorem tables_namedText :
    (readBlocks decimals [namedText.toList]).toleranceValues = [] ∧
      (readBlocks decimals [namedText.toList]).magnitudes = [1] :=
  @of_literal (fun text => (readBlocks decimals [text]).toleranceValues = [] ∧
    (readBlocks decimals [text]).magnitudes = [1]) _ namedText rfl (by decide +kernel)

set_option maxRecDepth 4000 in
theorem measure_namedText : (readBlocks decimals [namedText.toList]).measures.get? 1 = some (1 / 10, 2) :=
  @of_literal (fun text => (readBlocks decimals [text]).measures.get? 1 = some (1 / 10, 2)) _ namedText rfl
    (by decide +kernel)

set_option maxRecDepth 4000 in
theorem unit_namedText : (readBlocks decimals [namedText.toList]).units.get? 2 = some (.scale 1) :=
  @of_literal (fun text => (readBlocks decimals [text]).units.get? 2 = some (.scale 1)) _ namedText rfl
    (by decide +kernel)

/-- The records one by one state no tolerance, and at once they state one of 0.1 mm. -/
theorem not_independent :
    (∀ p ∈ namedStream.pieces, p.Closed) ∧ ofStepFile decimals [namedStream.text] = some (1 / 10) ∧
      ofStepFile decimals (oneByOne namedStream) = none ∧ ¬ Independent decimals namedStream := by
  have hwhole : ofStepFile decimals [namedStream.text] = some (1 / 10) := by
    obtain ⟨hbounds, hmagnitudes⟩ := tables_namedText
    have hlength : lengthMm decimals (readBlocks decimals [namedText.toList]) 1 = some (1 / 10) := by
      rw [lengthMm, measure_namedText]
      dsimp only
      rw [unitMm_eq, unit_namedText]
      decide +kernel
    rw [text_namedStream, ofStepFile, blocks_namedText, values, hbounds, hmagnitudes, List.filterMap_nil,
      List.nil_append, List.filterMap_cons, hlength, List.filterMap_nil]
    decide +kernel
  have hone : ofStepFile decimals (oneByOne namedStream) = none := by
    have hvalues : (readBlocks decimals (oneByOne namedStream)).toleranceValues = [] ∧
        (readBlocks decimals (oneByOne namedStream)).magnitudes = [] := by decide +kernel
    rw [ofStepFile, blocks_oneByOne, values, hvalues.1, hvalues.2]
    rfl
  refine ⟨by decide +kernel, hwhole, hone, fun h => ?_⟩
  have := (h (oneByOne namedStream) (nil_notMem_oneByOne _) (flatten_oneByOne _)).2.2
  rw [hone, hwhole] at this
  cases this

end PartCAD.Tolerance
