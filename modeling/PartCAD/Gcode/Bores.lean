import Mathlib.Data.Multiset.AddSub
import PartCAD.Gcode.Drilling
import PartCAD.Gcode.Milling
import PartCAD.Lib.Along

/-!
# Holes and the order of their faces

* `topOf`, `bottomOf` : between which heights the hole of a face lies;
* `get?_gatheredHoles` : **what the faces of a hole make of it**;
* `drilling_eq_iff` : a program tells what is drilled, hole by hole;
* `drilling_perm_iff` : **when the order of the faces does not matter**.
-/

namespace PartCAD.Gcode

open PartCAD.Lib PartCAD.Lib.Modal

variable {K : Type} [Field K] [LinearOrder K] [FloorRing K] (tolerance : K)

/-! ## What faces make of a hole -/

/-- The faces of the hole that a face is a part of. -/
def partsOf (faces : List (Face K)) (f : Face K) : List (Face K) :=
  faces.filter fun g => g.key tolerance = f.key tolerance

def topOf (faces : List (Face K)) (f : Face K) : K := ((partsOf tolerance faces f).map Face.top).foldl max f.top

def bottomOf (faces : List (Face K)) (f : Face K) : K :=
  ((partsOf tolerance faces f).map Face.bottom).foldl min f.bottom

variable {tolerance} {faces faces' : List (Face K)} {f g : Face K}

theorem mem_partsOf : g ∈ partsOf tolerance faces f ↔ g ∈ faces ∧ g.key tolerance = f.key tolerance := by
  rw [partsOf, List.mem_filter, decide_eq_true_eq]

/-- The face itself is one of the parts of its hole. -/
theorem values_partsOf (value : Face K → K) (hf : f ∈ faces) :
    {t | ∃ g ∈ partsOf tolerance faces f, value g = t} =
      {t | t ∈ value f :: (partsOf tolerance faces f).map value} := by
  ext t
  simp only [Set.mem_ofPred_eq, List.mem_cons, List.mem_map]
  constructor
  · exact Or.inr
  · rintro (rfl | h)
    · exact ⟨f, mem_partsOf.2 ⟨hf, rfl⟩, rfl⟩
    · exact h

variable (tolerance) in
theorem isGreatest_topOf (hf : f ∈ faces) :
    IsGreatest {t | ∃ g ∈ partsOf tolerance faces f, g.top = t} (topOf tolerance faces f) := by
  rw [values_partsOf Face.top hf]
  exact isGreatest_foldl_max _ _

variable (tolerance) in
theorem isLeast_bottomOf (hf : f ∈ faces) :
    IsLeast {t | ∃ g ∈ partsOf tolerance faces f, g.bottom = t} (bottomOf tolerance faces f) := by
  rw [values_partsOf Face.bottom hf]
  exact isLeast_foldl_min _ _

omit [Field K] [FloorRing K] in
theorem extend_foldl (l : List (Face K)) (h : Hole K) :
    (l.foldl Hole.extend h).centre = h.centre ∧
      (l.foldl Hole.extend h).top = (l.map Face.top).foldl max h.top ∧
      (l.foldl Hole.extend h).bottom = (l.map Face.bottom).foldl min h.bottom := by
  induction l generalizing h with
  | nil => exact ⟨rfl, rfl, rfl⟩
  | cons g l ih => exact ih (h.extend g)

/-- A hole as its faces have it. -/
structure MadeOf (tolerance : K) (faces : List (Face K)) (f : Face K) (h : Hole K) : Prop where
  centre : ∃ g ∈ partsOf tolerance faces f, h.centre = g.centre
  top : h.top = topOf tolerance faces f
  bottom : h.bottom = bottomOf tolerance faces f

variable (tolerance) in
/-- **What the faces of a hole make of it.** -/
theorem get?_gatheredHoles (hf : f ∈ faces) :
    ∃ h, (gatheredHoles tolerance faces).get? (f.key tolerance) = some h ∧ MadeOf tolerance faces f h := by
  have hself : f ∈ partsOf tolerance faces f := mem_partsOf.2 ⟨hf, rfl⟩
  have hget := @Dict.get?_gathered _ _ _ _ (Face.key tolerance) Face.hole Hole.extend faces
    (f.key tolerance)
  have htop := isGreatest_topOf tolerance hf
  have hbottom := isLeast_bottomOf tolerance hf
  change _ = Dict.made Face.hole Hole.extend (partsOf tolerance faces f) at hget
  cases hparts : partsOf tolerance faces f with
  | nil =>
    rw [hparts] at hself
    cases hself
  | cons c rest =>
    rw [hparts] at hget htop hbottom
    obtain ⟨hcentre, hmax, hmin⟩ := extend_foldl rest c.hole
    refine ⟨_, hget, ⟨⟨c, hparts ▸ List.mem_cons_self, hcentre⟩, ?_, ?_⟩⟩
    · rw [hmax]
      refine IsGreatest.unique ?_ htop
      have hset := isGreatest_foldl_max c.top (rest.map Face.top)
      rw [← List.map_cons] at hset
      simp only [List.mem_map] at hset
      exact hset
    · rw [hmin]
      refine IsLeast.unique ?_ hbottom
      have hset := isLeast_foldl_min c.bottom (rest.map Face.bottom)
      rw [← List.map_cons] at hset
      simp only [List.mem_map] at hset
      exact hset

theorem mem_holesOf {h : Hole K} : h ∈ holesOf tolerance faces ↔
    ∃ f ∈ faces, (gatheredHoles tolerance faces).get? (f.key tolerance) = some h := by
  rw [holesOf, (sortBy_perm _ _).mem_iff, List.mem_map]
  constructor
  · rintro ⟨⟨k, h⟩, hmem, rfl⟩
    obtain ⟨f, hf, rfl⟩ := Dict.mem_keys_gathered.1 (Dict.mem_keys.2 ⟨h, hmem⟩)
    exact ⟨f, hf, Dict.get?_eq_some.2 hmem⟩
  · rintro ⟨f, -, hget⟩
    exact ⟨(f.key tolerance, h), Dict.get?_eq_some.1 hget, rfl⟩

/-- Every hole is made of the faces with its key. -/
theorem madeOf_of_mem {h : Hole K} (hh : h ∈ holesOf tolerance faces) :
    ∃ f ∈ faces, MadeOf tolerance faces f h := by
  obtain ⟨f, hf, hget⟩ := mem_holesOf.1 hh
  obtain ⟨h', hget', hmade⟩ := get?_gatheredHoles tolerance hf
  obtain rfl : h = h' := Option.some.inj (hget.symm.trans hget')
  exact ⟨f, hf, hmade⟩

/-! ## What a program tells of its holes -/

section

variable (job : DrillJob K)

/-- What is drilled in a hole: where, from which height, and down to which ones. -/
def cutsOf (h : Hole K) : Point K × K × List K := (h.centre, h.top, job.steps h)

/-- The blocks of one plunge, in a file whose numbers have the scale. -/
def stepBlocks (scale : K) (cuts : Point K × K × List K) (z : K) : List (Block K) :=
  .cut none none (some (z * scale)) (some (job.plungeFeed * scale)) ::
    if 1 < cuts.2.2.length then [.rapid none none (some (cuts.2.1 * scale))] else []

/-- The blocks that a hole is drilled with. -/
def cutBlocks (scale : K) (cuts : Point K × K × List K) : List (Block K) :=
  .rapid (some (cuts.1.1 * scale)) (some (cuts.1.2 * scale)) none ::
    .rapid none none (some (cuts.2.1 * scale)) ::
      (cuts.2.2.flatMap (stepBlocks job scale cuts) ++ [.rapid none none (some (job.safeHeight * scale))])

variable {job} {p : Program K}

variable (job) in
theorem lines_drillSteps (h : Hole K) (zs : List K) (p : Program K) :
    (zs.foldl (drillStep job (job.steps h) h) p).lines =
        p.lines ++ zs.flatMap (stepBlocks job p.scale (cutsOf job h)) ∧
      (zs.foldl (drillStep job (job.steps h) h) p).scale = p.scale := by
  induction zs generalizing p with
  | nil => exact ⟨(List.append_nil _).symm, rfl⟩
  | cons z zs ih =>
    have hstep : (drillStep job (job.steps h) h p z).lines =
        p.lines ++ stepBlocks job p.scale (cutsOf job h) z ∧
        (drillStep job (job.steps h) h p z).scale = p.scale := by
      have hlength : (cutsOf job h).2.2.length = (job.steps h).length := rfl
      unfold drillStep stepBlocks
      rw [hlength]
      by_cases hmany : 1 < (job.steps h).length
      · rw [if_pos hmany, if_pos hmany]
        exact ⟨List.append_assoc _ _ _, rfl⟩
      · rw [if_neg hmany, if_neg hmany]
        exact ⟨rfl, rfl⟩
    obtain ⟨hlines, hscale⟩ := ih (drillStep job (job.steps h) h p z)
    rw [List.foldl_cons, hlines, hscale, hstep.1, hstep.2, List.flatMap_cons, List.append_assoc]
    exact ⟨rfl, rfl⟩

theorem drillHole_eq (h : Hole K) :
    drillHole job p h = ⟨p.lines ++ cutBlocks job p.scale (cutsOf job h), p.scale, none⟩ := by
  obtain ⟨hlines, hscale⟩ := lines_drillSteps job h (job.steps h) ((p.rapidXY h.centre).rapidZ h.top)
  rw [drillHole, Program.rapidZ, Program.code, Program.number, hlines, hscale]
  simp only [Program.rapidZ, Program.rapidXY, Program.code, Program.number, cutBlocks, cutsOf, List.append_assoc,
    List.cons_append, List.nil_append]

/-- The lines of all holes. -/
theorem foldl_drillHole (holes : List (Hole K)) (p : Program K) (hp : p.where_ = none) :
    holes.foldl (drillHole job) p =
      ⟨p.lines ++ (holes.map (cutsOf job)).flatMap (cutBlocks job p.scale), p.scale, none⟩ := by
  induction holes generalizing p with
  | nil =>
    rw [List.foldl_nil, List.map_nil, List.flatMap_nil, List.append_nil, ← hp]
  | cons h holes ih =>
    rw [List.foldl_cons, drillHole_eq, ih _ rfl, List.map_cons, List.flatMap_cons, List.append_assoc]

/-- A hole starts with a move in the plane, and has no other one. -/
def planarRapid : Block K → Bool
  | .rapid (some _) _ _ => true
  | _ => false

omit [LinearOrder K] [FloorRing K] in
theorem cutBlocks_marked (scale : K) (cuts : Point K × K × List K) : ∃ b rest,
    cutBlocks job scale cuts = b :: rest ∧ planarRapid b = true ∧ ∀ c ∈ rest, planarRapid c = false := by
  refine ⟨_, _, rfl, rfl, ?_⟩
  intro c hc
  rcases List.mem_cons.1 hc with rfl | hc
  · rfl
  · rcases List.mem_append.1 hc with hc | hc
    · obtain ⟨z, -, hz⟩ := List.mem_flatMap.1 hc
      unfold stepBlocks at hz
      rcases List.mem_cons.1 hz with rfl | hz
      · rfl
      · split at hz
        · rw [List.mem_singleton.1 hz]
          rfl
        · cases hz
    · rw [List.mem_singleton.1 hc]
      rfl

/-- The height of a plunge. -/
def plungeHeight : Block K → Option K
  | .cut _ _ z _ => z
  | _ => none

omit [LinearOrder K] [FloorRing K] in
theorem filterMap_stepBlocks (scale : K) (cuts : Point K × K × List K) (zs : List K) :
    (zs.flatMap (stepBlocks job scale cuts)).filterMap plungeHeight = zs.map (· * scale) := by
  induction zs with
  | nil => rfl
  | cons z zs ih =>
    have hstep : (stepBlocks job scale cuts z).filterMap plungeHeight = [z * scale] := by
      unfold stepBlocks
      split <;> rfl
    rw [List.flatMap_cons, List.filterMap_append, ih, hstep]
    rfl

omit [LinearOrder K] [FloorRing K] in
/-- **The blocks of a hole tell what is drilled in it.** -/
theorem cutBlocks_injective {scale : K} (hscale : scale ≠ 0) :
    Function.Injective (cutBlocks job scale) := by
  rintro ⟨⟨x, y⟩, top, zs⟩ ⟨⟨x', y'⟩, top', zs'⟩ h
  have hmul : ∀ a b : K, a * scale = b * scale → a = b := fun a b hab => mul_right_cancel₀ hscale hab
  have hsteps := congrArg (List.filterMap plungeHeight) h
  have hblocks : ∀ cuts : Point K × K × List K,
      (cutBlocks job scale cuts).filterMap plungeHeight = cuts.2.2.map (· * scale) := by
    intro cuts
    have hcuts : (cutBlocks job scale cuts).filterMap plungeHeight =
        (cuts.2.2.flatMap (stepBlocks job scale cuts)).filterMap plungeHeight ++ [] := by
      unfold cutBlocks
      simp only [List.filterMap_cons, List.filterMap_append, List.filterMap_nil, plungeHeight]
    rw [hcuts, filterMap_stepBlocks, List.append_nil]
  rw [hblocks, hblocks] at hsteps
  have hzs : zs = zs' := (List.map_injective_iff.2 hmul) hsteps
  obtain ⟨hplane, hrest⟩ := List.cons_eq_cons.1 h
  obtain ⟨htop, -⟩ := List.cons_eq_cons.1 hrest
  simp only [Block.rapid.injEq, Option.some.injEq] at hplane htop
  obtain ⟨hx, hy, -⟩ := hplane
  obtain ⟨-, -, htop⟩ := htop
  rw [hmul _ _ hx, hmul _ _ hy, hmul _ _ htop, hzs]

/-- The program before its first hole. -/
def started (job : DrillJob K) : Program K :=
  (if job.spindle then (startProgram job.inches job.comments).code .on
    else startProgram job.inches job.comments).rapidZ job.safeHeight

/-- The program after its last hole. -/
def finished (job : DrillJob K) (p : Program K) : Program K := (if job.spindle then p.code .off else p).code .other

theorem drilling_of_nil (h : holesOf job.tolerance faces = []) : drilling job faces = none := by
  unfold drilling
  rw [h]
  rfl

theorem drilling_of_ne (h : holesOf job.tolerance faces ≠ []) : drilling job faces =
    some (finished job ((holesOf job.tolerance faces).foldl (drillHole job) (started job))) := by
  have hempty : (holesOf job.tolerance faces).isEmpty = false := by simpa using h
  unfold drilling
  simp only [hempty]
  rfl

omit [LinearOrder K] [FloorRing K] in
theorem started_scale : (started job).scale = 1 / perUnit job.inches := by
  unfold started
  split <;> rfl

omit [Field K] [FloorRing K] [LinearOrder K] in
theorem Program.eq_of_lines {p q : Program K} (hlines : p.lines = q.lines) (hscale : p.scale = q.scale)
    (hwhere : p.where_ = q.where_) : p = q := by
  cases p
  cases q
  obtain rfl := hlines
  obtain rfl := hscale
  obtain rfl := hwhere
  rfl

omit [Field K] [FloorRing K] [LinearOrder K] in
theorem finished_injective : Function.Injective (finished job) := by
  intro p q h
  have hscale := congrArg Program.scale h
  have hwhere := congrArg Program.where_ h
  have hlines := congrArg Program.lines h
  cases hspindle : job.spindle with
  | false =>
    simp only [finished, hspindle, Bool.false_eq_true, if_false, Program.code] at hscale hwhere hlines
    exact Program.eq_of_lines (List.append_cancel_right hlines) hscale hwhere
  | true =>
    simp only [finished, hspindle, if_true, Program.code] at hscale hwhere hlines
    exact Program.eq_of_lines (List.append_cancel_right (List.append_cancel_right hlines)) hscale hwhere

variable [IsStrictOrderedRing K]

/-- **Programs are the same** when the same is drilled, hole by hole. -/
theorem drilling_eq_iff : drilling job faces' = drilling job faces ↔
    (holesOf job.tolerance faces').map (cutsOf job) = (holesOf job.tolerance faces).map (cutsOf job) := by
  have hunit : (1 : K) / perUnit job.inches ≠ 0 := (one_div_pos.2 (perUnit_pos job.inches)).ne'
  have hstart : (started job).where_ = none := rfl
  by_cases hnil : holesOf job.tolerance faces = []
  · rw [drilling_of_nil hnil, hnil, List.map_nil, List.map_eq_nil_iff]
    by_cases hnil' : holesOf job.tolerance faces' = []
    · rw [drilling_of_nil hnil']
      simp [hnil']
    · rw [drilling_of_ne hnil']
      simp [hnil']
  · rw [drilling_of_ne hnil]
    by_cases hnil' : holesOf job.tolerance faces' = []
    · rw [drilling_of_nil hnil', hnil', List.map_nil]
      constructor
      · intro h
        cases h
      · intro h
        exact absurd (List.map_eq_nil_iff.1 h.symm) hnil
    · rw [drilling_of_ne hnil', Option.some_inj, finished_injective.eq_iff, foldl_drillHole _ _ hstart,
        foldl_drillHole _ _ hstart]
      constructor
      · intro h
        have hblocks := List.append_cancel_left (congrArg Program.lines h)
        have hmap := map_eq_of_flatMap (cutBlocks_marked _) hblocks
        rw [started_scale] at hmap
        exact (List.map_injective_iff.2 (cutBlocks_injective hunit)) hmap
      · intro h
        rw [h]

end

/-! ## The order of the faces -/

section

variable (tolerance) (job : DrillJob K)

/-- The hole that a face is a part of, where the face has it. -/
def boreOf (faces : List (Face K)) (f : Face K) : Hole K :=
  { f.hole with top := topOf tolerance faces f, bottom := bottomOf tolerance faces f }

variable {tolerance} {job}

theorem cutsOf_congr {h h' : Hole K} (hcentre : h.centre = h'.centre) (htop : h.top = h'.top)
    (hbottom : h.bottom = h'.bottom) : cutsOf job h = cutsOf job h' := by
  have hsteps : job.steps h = job.steps h' := by
    unfold DrillJob.steps
    rw [htop, hbottom]
  rw [cutsOf, cutsOf, hcentre, htop, hsteps]

theorem partsOf_congr (h : f.key tolerance = g.key tolerance) :
    partsOf tolerance faces f = partsOf tolerance faces g := by
  rw [partsOf, partsOf, h]

theorem topOf_congr (h : f.key tolerance = g.key tolerance) (hf : f ∈ faces) (hg : g ∈ faces) :
    topOf tolerance faces f = topOf tolerance faces g :=
  (isGreatest_topOf _ hf).unique (partsOf_congr h ▸ isGreatest_topOf _ hg)

theorem bottomOf_congr (h : f.key tolerance = g.key tolerance) (hf : f ∈ faces) (hg : g ∈ faces) :
    bottomOf tolerance faces f = bottomOf tolerance faces g :=
  (isLeast_bottomOf _ hf).unique (partsOf_congr h ▸ isLeast_bottomOf _ hg)

theorem mem_partsOf_perm (h : faces'.Perm faces) : g ∈ partsOf tolerance faces' f ↔ g ∈ partsOf tolerance faces f := by
  rw [mem_partsOf, mem_partsOf, h.mem_iff]

theorem topOf_perm (h : faces'.Perm faces) (hf : f ∈ faces) : topOf tolerance faces' f = topOf tolerance faces f := by
  have htop := isGreatest_topOf tolerance (h.mem_iff.2 hf)
  simp only [mem_partsOf_perm h] at htop
  exact htop.unique (isGreatest_topOf _ hf)

theorem bottomOf_perm (h : faces'.Perm faces) (hf : f ∈ faces) :
    bottomOf tolerance faces' f = bottomOf tolerance faces f := by
  have hbottom := isLeast_bottomOf tolerance (h.mem_iff.2 hf)
  simp only [mem_partsOf_perm h] at hbottom
  exact hbottom.unique (isLeast_bottomOf _ hf)

/-- A hole is that of each face that is where it is. -/
theorem MadeOf.cutsOf_eq {h : Hole K} (hh : MadeOf tolerance faces f h) (hcentre : h.centre = f.centre) :
    cutsOf job h = cutsOf job (boreOf tolerance faces f) :=
  cutsOf_congr hcentre hh.top hh.bottom

/-- Faces of one hole are at one place. -/
def OneCentre (tolerance : K) (faces : List (Face K)) : Prop :=
  ∀ f ∈ faces, ∀ g ∈ faces, f.key tolerance = g.key tolerance → f.centre = g.centre

/-- Holes at one place are drilled alike. -/
def DrilledAlike (job : DrillJob K) (faces : List (Face K)) : Prop :=
  ∀ f ∈ faces, ∀ g ∈ faces, f.centre = g.centre →
    cutsOf job (boreOf job.tolerance faces f) = cutsOf job (boreOf job.tolerance faces g)

variable (job) in
theorem cutsOf_of_madeOf (hone : OneCentre tolerance faces) (hf : f ∈ faces) {h : Hole K}
    (hh : MadeOf tolerance faces f h) : cutsOf job h = cutsOf job (boreOf tolerance faces f) := by
  obtain ⟨g, hg, hcentre⟩ := hh.centre
  obtain ⟨hg, hkey⟩ := mem_partsOf.1 hg
  exact hh.cutsOf_eq (hcentre.trans (hone g hg f hf hkey))

/-- The place by which holes are sorted. -/
def placeKey (cuts : Point K × K × List K) : K ×ₗ K := toLex (cuts.1.2, cuts.1.1)

/-- **In every order of the faces** the same is drilled, when the faces of a hole are at one place and
holes at one place are drilled alike. -/
theorem cuts_of_perm (hone : OneCentre job.tolerance faces) (halike : DrilledAlike job faces)
    (hperm : faces'.Perm faces) :
    (holesOf job.tolerance faces').map (cutsOf job) = (holesOf job.tolerance faces).map (cutsOf job) := by
  refine @map_sortBy_of_map_perm _ _ _ _ Hole.sortKey (cutsOf job) placeKey (fun _ => rfl) _ _ ?_ ?_
  · intro h hh h' hh' hkey
    obtain ⟨f, hf, hmade⟩ := madeOf_of_mem ((sortBy_perm _ _).mem_iff.2 hh)
    obtain ⟨f', hf', hmade'⟩ := madeOf_of_mem ((sortBy_perm _ _).mem_iff.2 hh')
    have heq := cutsOf_of_madeOf job hone hf hmade
    have heq' := cutsOf_of_madeOf job hone hf' hmade'
    have hcentre : f.centre = f'.centre := by
      have hplace : h.centre = h'.centre := by
        obtain ⟨hy, hx⟩ := Prod.mk.inj (toLex_inj.1 hkey)
        exact Prod.ext hx hy
      have hf := congrArg Prod.fst heq
      have hf' := congrArg Prod.fst heq'
      exact hf.symm.trans (hplace.trans hf')
    rw [heq, heq', halike f hf f' hf' hcentre]
  · have hsame : Dict.Same ((gatheredHoles job.tolerance faces').mapValues (cutsOf job))
        ((gatheredHoles job.tolerance faces).mapValues (cutsOf job)) := by
      intro k
      rw [Dict.get?_mapValues, Dict.get?_mapValues]
      by_cases hk : ∃ f ∈ faces, f.key job.tolerance = k
      · obtain ⟨f, hf, rfl⟩ := hk
        have hf' := hperm.mem_iff.2 hf
        obtain ⟨h, hget, hmade⟩ := get?_gatheredHoles job.tolerance hf
        obtain ⟨h', hget', hmade'⟩ := get?_gatheredHoles job.tolerance hf'
        have hone' : OneCentre job.tolerance faces' := fun f hf g hg =>
          hone f (hperm.mem_iff.1 hf) g (hperm.mem_iff.1 hg)
        rw [hget, hget', Option.map_some, Option.map_some, cutsOf_of_madeOf _ hone hf hmade,
          cutsOf_of_madeOf _ hone' hf' hmade']
        exact congrArg some (cutsOf_congr rfl (topOf_perm hperm hf) (bottomOf_perm hperm hf))
      · have hnone : ∀ l : List (Face K), l.Perm faces → (gatheredHoles job.tolerance l).get? k = none := by
          intro l hl
          refine Option.not_isSome_iff_eq_none.1 fun hsome => hk ?_
          obtain ⟨f, hf, hkey⟩ := Dict.mem_keys_gathered.1 (Dict.mem_keys_iff_isSome.2 hsome)
          exact ⟨f, hl.mem_iff.1 hf, hkey⟩
        rw [hnone _ hperm, hnone _ (List.Perm.refl _)]
    have hitems := hsame.perm.map Prod.snd
    simp only [Dict.mapValues, List.map_map] at hitems
    rw [List.map_map, List.map_map]
    exact hitems

variable (tolerance job) in
/-- The first face comes first, and its hole is where it is. -/
theorem first_hole (f : Face K) (rest : List (Face K)) : ∃ h items,
    (gatheredHoles tolerance (f :: rest)).items = (f.key tolerance, h) :: items ∧
      cutsOf job h = cutsOf job (boreOf tolerance (f :: rest) f) := by
  obtain ⟨h, items, hitems⟩ := @Dict.items_gathered_cons _ _ _ _ (Face.key tolerance) Face.hole Hole.extend f rest
  have hget : (gatheredHoles tolerance (f :: rest)).get? (f.key tolerance) = some h :=
    Dict.get?_eq_some.2 (hitems ▸ List.mem_cons_self)
  obtain ⟨h', hget', hmade⟩ := get?_gatheredHoles tolerance (@List.mem_cons_self _ f rest)
  obtain rfl : h = h' := Option.some.inj (hget.symm.trans hget')
  refine ⟨h, items, hitems, hmade.cutsOf_eq ?_⟩
  have hfirst := @Dict.get?_gathered _ _ _ _ (Face.key tolerance) Face.hole Hole.extend (f :: rest) (f.key tolerance)
  rw [List.filter_cons_of_pos (by simp)] at hfirst
  have heq : h = _ := Option.some.inj (hget.symm.trans hfirst)
  rw [heq]
  exact (extend_foldl _ _).1

variable (tolerance) in
theorem exists_first (hf : f ∈ faces) : ∃ rest, (f :: rest).Perm faces ∧
    ∀ k, k ≠ f.key tolerance → (f :: rest).filter (fun c => c.key tolerance = k) = faces.filter fun c => c.key tolerance = k := by
  obtain ⟨front, back, rfl⟩ := List.append_of_mem hf
  refine ⟨front ++ back, List.perm_middle.symm, fun k hk => ?_⟩
  have hfalse : decide (f.key tolerance = k) = false := decide_eq_false (Ne.symm hk)
  simp only [List.filter_append, List.filter_cons, hfalse, Bool.false_eq_true, if_false]

/-- In every order of the faces the same is drilled. -/
def SameCuts (job : DrillJob K) (faces : List (Face K)) : Prop :=
  ∀ faces', faces'.Perm faces →
    (holesOf job.tolerance faces').map (cutsOf job) = (holesOf job.tolerance faces).map (cutsOf job)

/-- A face that comes first decides what is drilled after all holes that are sorted before it. -/
theorem drilledAlike_of_same (h : SameCuts job faces) : DrilledAlike job faces := by
  let cuts := (holesOf job.tolerance faces).map (cutsOf job)
  have hposition : ∀ f ∈ faces,
      cuts[cuts.countP fun c => decide (placeKey c < toLex (f.y, f.x))]? =
        some (cutsOf job (boreOf job.tolerance faces f)) := by
    intro f hf
    obtain ⟨rest, hperm, -⟩ := exists_first job.tolerance hf
    obtain ⟨hole, items, hitems, hcuts⟩ := first_hole job.tolerance job f rest
    have hbore : cutsOf job (boreOf job.tolerance (f :: rest) f) = cutsOf job (boreOf job.tolerance faces f) :=
      cutsOf_congr rfl (topOf_perm hperm hf) (bottomOf_perm hperm hf)
    have hplace : hole.sortKey = toLex (f.y, f.x) := congrArg placeKey (hcuts.trans hbore)
    have hfirst := sortBy_first Hole.sortKey hole (items.map Prod.snd)
    have hlist : holesOf job.tolerance (f :: rest) = sortBy Hole.sortKey (hole :: items.map Prod.snd) := by
      rw [holesOf, hitems, List.map_cons]
    have hcount : (cuts.countP fun c => decide (placeKey c < toLex (f.y, f.x))) =
        (items.map Prod.snd).countP fun c => decide (c.sortKey < hole.sortKey) := by
      have hmap : cuts = (sortBy Hole.sortKey (hole :: items.map Prod.snd)).map (cutsOf job) := by
        rw [← hlist]
        exact (h _ hperm).symm
      rw [hmap, List.countP_map, (sortBy_perm _ _).countP_eq, hplace, List.countP_cons_of_neg]
      · rfl
      · have hself : placeKey (cutsOf job hole) = toLex (f.y, f.x) := hplace
        simp only [Function.comp_apply, hself, lt_self_iff_false, decide_false, Bool.false_eq_true, not_false_eq_true]
    rw [hcount]
    have hget : cuts[(items.map Prod.snd).countP fun c => decide (c.sortKey < hole.sortKey)]? =
        some (cutsOf job hole) := by
      have hmap : cuts = (holesOf job.tolerance (f :: rest)).map (cutsOf job) := (h _ hperm).symm
      rw [hmap, hlist, List.getElem?_map, hfirst]
      rfl
    rw [hget, hcuts, hbore]
  intro f hf g hg hcentre
  have hxy : toLex (f.y, f.x) = toLex (g.y, g.x) := by
    obtain ⟨hx, hy⟩ := Prod.mk.inj hcentre
    rw [hx, hy]
  have hfirst := hposition f hf
  rw [hxy, hposition g hg] at hfirst
  exact (Option.some.inj hfirst).symm

/-- The faces of a hole decide where it is, each one when it comes first. -/
theorem oneCentre_of_same (h : SameCuts job faces) : OneCentre job.tolerance faces := by
  intro f hf g hg hkey
  obtain ⟨rest, hperm, hfilter⟩ := exists_first job.tolerance hf
  obtain ⟨rest', hperm', hfilter'⟩ := exists_first job.tolerance hg
  obtain ⟨hole, items, hitems, hcuts⟩ := first_hole job.tolerance job f rest
  obtain ⟨hole', items', hitems', hcuts'⟩ := first_hole job.tolerance job g rest'
  have hothers : items.Perm items' := by
    rw [← hkey] at hitems' hfilter'
    refine Dict.tail_perm hitems hitems' fun k hk => ?_
    rw [gatheredHoles, gatheredHoles, Dict.get?_gathered, Dict.get?_gathered, hfilter k hk, hfilter' k hk]
  have hall : (holesOf job.tolerance (f :: rest)).map (cutsOf job) =
      (holesOf job.tolerance (g :: rest')).map (cutsOf job) := (h _ hperm).trans (h _ hperm').symm
  have hbag : ((hole :: items.map Prod.snd).map (cutsOf job)).Perm ((hole' :: items'.map Prod.snd).map (cutsOf job)) := by
    have hmade : ∀ l : List (Face K), ((gatheredHoles job.tolerance l).items.map Prod.snd).Perm (holesOf job.tolerance l) :=
      fun l => (sortBy_perm _ _).symm
    have hleft := (hmade (f :: rest)).map (cutsOf job)
    have hright := (hmade (g :: rest')).map (cutsOf job)
    rw [hitems, hall] at hleft
    rw [hitems'] at hright
    exact hleft.trans hright.symm
  have hsame : cutsOf job hole = cutsOf job hole' := by
    have hrest := (hothers.map Prod.snd).map (cutsOf job)
    rw [List.map_cons, List.map_cons] at hbag
    have heq := Multiset.coe_eq_coe.2 (hbag.trans (hrest.symm.cons _))
    rw [← Multiset.cons_coe, ← Multiset.cons_coe, Multiset.cons_inj_left] at heq
    exact heq
  exact congrArg Prod.fst (hcuts.symm.trans (hsame.trans hcuts'))

variable [IsStrictOrderedRing K]

/-- **When the order of the faces does not matter** for the program. -/
theorem drilling_perm_iff : (∀ faces', faces'.Perm faces → drilling job faces' = drilling job faces) ↔
    OneCentre job.tolerance faces ∧ DrilledAlike job faces := by
  constructor
  · intro h
    have hsame : SameCuts job faces := fun faces' hperm => drilling_eq_iff.1 (h faces' hperm)
    exact ⟨oneCentre_of_same hsame, drilledAlike_of_same hsame⟩
  · rintro ⟨hone, halike⟩ faces' hperm
    exact drilling_eq_iff.2 (cuts_of_perm hone halike hperm)

end

end PartCAD.Gcode
