import Mathlib.Data.Rat.Floor
import Mathlib.Tactic.Linarith
import Mathlib.Tactic.NormNum
import PartCAD.Gcode.Program

/-!
# What the programs do

* `now_rapidZ`, ... : what each line does to the machine that reads it;
* `follows_cutAll`, `safe_cutContour` : one pass along a contour, and all of its passes;
* `steps_down` : the depths of the passes;
* `routes_safe` : **what a router and a laser do**.
-/

namespace PartCAD.Gcode

open PartCAD.Lib PartCAD.Lib.Modal

variable {K : Type} [Field K]

/-! ## One line after the other -/

/-- The machine that has read the program so far, with its moves. -/
def Program.now (u : K) (p : Program K) : Play K := play u p.lines

variable {u : K} {p : Program K}

theorem now_code (b : Block K) : (p.code b).now u = (p.now u).step b := play_concat _ _ _

/-- The numbers of the file are in the unit that the machine reads them in. -/
def InUnits (u : K) (p : Program K) : Prop := p.scale * (p.now u).machine.perUnit = 1

theorem inUnits_of_now {p' : Program K} (h : InUnits u p) (hscale : p'.scale = p.scale)
    (hunit : (p'.now u).machine.perUnit = (p.now u).machine.perUnit) : InUnits u p' := by
  rw [InUnits, hscale, hunit]
  exact h

theorem set_number (h : InUnits u p) (old : Option K) (v : K) :
    (p.now u).machine.set old (some (p.number v)) = some v := by
  have hv : p.number v * (p.now u).machine.perUnit = v := by
    rw [Program.number, mul_assoc, h, mul_one]
  show some (p.number v * (p.now u).machine.perUnit) = some v
  rw [hv]

theorem set_numbers (h : InUnits u p) (old : Option K) (v : Option K) :
    (p.now u).machine.set old (v.map p.number) = v.or old := by
  cases v with
  | none => rfl
  | some v => exact set_number h old v

/-- The moves of a machine, with one more. -/
def Play.move (s : Play K) (rapid planar vertical : Bool) (after : Machine K) (history : History K) : Play K :=
  ⟨after, s.motions ++ [⟨rapid, planar, vertical, s.machine, after⟩], history⟩

theorem now_rapidZ (h : InUnits u p) (z : K) :
    (p.rapidZ z).now u = Play.move (p.now u) true false true { (p.now u).machine with z := some z }
      (p.now u).history := by
  have hcode : (p.rapidZ z).now u = (p.code (.rapid none none (some (p.number z)))).now u := rfl
  have hz := set_number h (p.now u).machine.z z
  rw [hcode, now_code]
  simp only [Play.step, Machine.motion, Machine.step, hz]
  rfl

theorem now_rapidXY (h : InUnits u p) (point : Point K) :
    (p.rapidXY point).now u = Play.move (p.now u) true true false
      { (p.now u).machine with x := some point.1, y := some point.2 } ([] :: (p.now u).history) := by
  have hcode : (p.rapidXY point).now u =
      (p.code (.rapid (some (p.number point.1)) (some (p.number point.2)) none)).now u := rfl
  have hx := set_number h (p.now u).machine.x point.1
  have hy := set_number h (p.now u).machine.y point.2
  rw [hcode, now_code]
  simp only [Play.step, Machine.motion, Machine.step, hx, hy]
  rfl

theorem now_plunge (h : InUnits u p) (z feed : K) :
    (p.plunge z feed).now u = Play.move (p.now u) false false true
      { (p.now u).machine with z := some z, feed := some feed }
      ((p.now u).history.plunge { (p.now u).machine with z := some z, feed := some feed }) := by
  have hcode : (p.plunge z feed).now u =
      (p.code (.cut none none (some (p.number z)) (some (p.number feed)))).now u := rfl
  have hz := set_number h (p.now u).machine.z z
  have hfeed := set_number h (p.now u).machine.feed feed
  rw [hcode, now_code]
  simp only [Play.step, Machine.motion, Machine.step, hz, hfeed]
  rfl

/-- A cutting move that is written. -/
theorem now_cut (h : InUnits u p) (point : Point K) (feed : Option K) :
    (p.code (.cut (some (p.number point.1)) (some (p.number point.2)) none (feed.map p.number))).now u =
      Play.move (p.now u) false true false
        { (p.now u).machine with
          x := some point.1, y := some point.2, feed := feed.or (p.now u).machine.feed }
        ((p.now u).history.visit (some point.1, some point.2)) := by
  have hx := set_number h (p.now u).machine.x point.1
  have hy := set_number h (p.now u).machine.y point.2
  have hfeed := set_numbers h (p.now u).machine.feed feed
  rw [now_code]
  simp only [Play.step, Machine.motion, Machine.step, hx, hy, hfeed]
  rfl

/-! ## One pass along a contour -/

/-- Where a machine is in the plane. -/
def at_ (place : Point K) : Option K × Option K := (some place.1, some place.2)

/-- The machine reads the numbers as they are meant, and is where the program takes it to be. -/
structure Located (u : K) (p : Program K) (place : Point K) : Prop where
  units : InUnits u p
  where_ : p.where_ = some place
  machine : (p.now u).machine.place = at_ place

/-- The places that a tool comes to, one after the other. -/
def visitAll (h : History K) (places : List (Point K)) : History K :=
  places.foldl (fun h place => h.visit (at_ place)) h

/-- A move that cuts, at the feed that is asked for and with the tool as it was. -/
structure Cutting (feed : K) (on : Bool) (motion : Motion K) : Prop where
  cuts : motion.rapid = false
  before : motion.before.on = on
  after : motion.after.on = on
  feed : motion.after.feed = some feed

section

variable {place : Point K} {job : Job K}

theorem located_plunge (h : Located u p place) (z feed : K) : Located u (p.plunge z feed) place := by
  have hnow := now_plunge h.units z feed
  exact ⟨inUnits_of_now h.units rfl (congrArg (fun s => s.machine.perUnit) hnow), h.where_,
    (congrArg (fun s => s.machine.place) hnow).trans h.machine⟩

/-- The tool is above the work. -/
structure Above (u : K) (job : Job K) (p : Program K) : Prop where
  units : InUnits u p
  height : (p.now u).machine.z = some job.safeHeight

theorem above_rapidZ (h : InUnits u p) : Above u job (p.rapidZ job.safeHeight) := by
  have hnow := now_rapidZ h job.safeHeight
  exact ⟨inUnits_of_now h rfl (congrArg (fun s => s.machine.perUnit) hnow),
    congrArg (fun s => s.machine.z) hnow⟩

theorem located_rapidXY (h : InUnits u p) (point : Point K) : Located u (p.rapidXY point) point := by
  have hnow := now_rapidXY h point
  exact ⟨inUnits_of_now h rfl (congrArg (fun s => s.machine.perUnit) hnow), rfl,
    congrArg (fun s => s.machine.place) hnow⟩

end

omit [Field K] in
theorem visitAll_cons (pass : Pass K) (passes : List (Pass K)) (contours : History K)
    (places : List (Point K)) :
    visitAll ((pass :: passes) :: contours) places =
      ({ pass with visited := (places.map at_).reverse ++ pass.visited } :: passes) :: contours := by
  induction places generalizing pass with
  | nil => rfl
  | cons place places ih =>
    rw [visitAll, List.foldl_cons]
    refine (ih { pass with visited := at_ place :: pass.visited }).trans ?_
    simp

variable [LinearOrder K]

/-- From one program to another one, along points: `places` is where the tool comes to. -/
structure Follows (u feed : K) (points : List (Point K)) (p p' : Program K) (place : Point K)
    (places : List (Point K)) : Prop where
  located : Located u p' ((place :: places).getLast (List.cons_ne_nil _ _))
  height : (p'.now u).machine.z = (p.now u).machine.z
  on : (p'.now u).machine.on = (p.now u).machine.on
  history : (p'.now u).history = visitAll (p.now u).history places
  motions : ∃ more, (p'.now u).motions = (p.now u).motions ++ more ∧
    ∀ motion ∈ more, Cutting feed (p.now u).machine.on motion
  visits : ∀ point ∈ points, ∃ q ∈ place :: places, Program.Near q point
  ends : ∀ q, Program.Near place q → Program.Near ((place :: places).getLast (List.cons_ne_nil _ _))
    ((q :: points).getLast (List.cons_ne_nil _ _))

section

variable {feed : K} {place : Point K}

theorem follows_nil (h : Located u p place) : Follows u feed [] p p place [] where
  located := h
  height := rfl
  on := rfl
  history := rfl
  motions := ⟨[], (List.append_nil _).symm, fun _ h => absurd h List.not_mem_nil⟩
  visits _ h := absurd h List.not_mem_nil
  ends _ h := h

/-- A point that the tool is at already. -/
theorem follows_near {p' : Program K} {point : Point K} {points : List (Point K)}
    {places : List (Point K)} (hnear : Program.Near place point)
    (h : Follows u feed points p p' place places) :
    Follows u feed (point :: points) p p' place places where
  located := h.located
  height := h.height
  on := h.on
  history := h.history
  motions := h.motions
  visits q hq := by
    rcases List.mem_cons.mp hq with rfl | hq
    · exact ⟨place, List.mem_cons_self, hnear⟩
    · exact h.visits q hq
  ends _ _ := h.ends point hnear

variable [IsStrictOrderedRing K]

theorem near_self (q : Point K) : Program.Near q q := by
  show (q.1 - q.1) ^ 2 + (q.2 - q.2) ^ 2 ≤ Program.tolerance ^ 2
  rw [sub_self, sub_self]
  have h : (0 : K) ≤ Program.tolerance ^ 2 := sq_nonneg _
  simpa using h

/-- A point that the tool is sent to. -/
theorem follows_cut {p' : Program K} {point : Point K} {points places : List (Point K)}
    {word : Option K} (hp : Located u p place)
    (hfeed : word.or (p.now u).machine.feed = some feed)
    (h : Follows u feed points
      { p.code (.cut (some (p.number point.1)) (some (p.number point.2)) none (word.map p.number)) with
        where_ := some point } p' point places) :
    Follows u feed (point :: points) p p' place (point :: places) := by
  have hcut := now_cut hp.units point word
  have hnow : ({ p.code (.cut (some (p.number point.1)) (some (p.number point.2)) none
      (word.map p.number)) with where_ := some point } : Program K).now u = _ := hcut
  refine ⟨?_, ?_, ?_, ?_, ?_, ?_, ?_⟩
  · simpa only [List.getLast_cons_cons] using h.located
  · rw [h.height, hnow]
    rfl
  · rw [h.on, hnow]
    rfl
  · rw [h.history, hnow]
    rfl
  · obtain ⟨more, hmore, hall⟩ := h.motions
    rw [hnow] at hmore hall
    refine ⟨_ :: more, hmore.trans (List.append_assoc _ _ _), ?_⟩
    intro motion hmotion
    rcases List.mem_cons.mp hmotion with rfl | hmotion
    · exact ⟨rfl, rfl, rfl, hfeed⟩
    · exact hall motion hmotion
  · intro q hq
    rcases List.mem_cons.mp hq with rfl | hq
    · exact ⟨q, List.mem_cons_of_mem _ List.mem_cons_self, near_self q⟩
    · obtain ⟨r, hr, hnear⟩ := h.visits q hq
      exact ⟨r, List.mem_cons_of_mem _ hr, hnear⟩
  · intro q hq
    simpa only [List.getLast_cons_cons] using h.ends point (near_self point)

/-- **A pass**: the tool comes to each point, at the feed that is asked for. -/
theorem follows_cutAll (feed : K) (points : List (Point K)) : ∀ (p : Program K) (place : Point K) (first : Bool),
    Located u p place → (first = false → (p.now u).machine.feed = some feed) →
    ∃ places, Follows u feed points p (Program.cutAll feed points p first) place places := by
  induction points with
  | nil => exact fun p place first h _ => ⟨[], follows_nil h⟩
  | cons point points ih =>
    intro p place first h hfirst
    by_cases hnear : Program.Near place point
    · have hcut : ∀ word, p.cutTo point word = (p, false) := fun word => by
        rw [Program.cutTo, h.where_]
        exact if_pos (decide_eq_true hnear)
      obtain ⟨places, hplaces⟩ := ih p place first h hfirst
      refine ⟨places, follows_near hnear ?_⟩
      rw [Program.cutAll, hcut]
      simpa only [Bool.not_false, Bool.and_true] using hplaces
    · have hcut : ∀ word, p.cutTo point word =
          ({ p.code (.cut (some (p.number point.1)) (some (p.number point.2)) none
            (word.map p.number)) with where_ := some point }, true) := fun word => by
        rw [Program.cutTo, h.where_]
        exact if_neg (by simpa using hnear)
      have hfeed : (if first then some feed else none).or (p.now u).machine.feed = some feed := by
        cases first with
        | true => rfl
        | false => exact hfirst rfl
      have hnow := now_cut h.units point (if first then some feed else none)
      have hlocated : Located u { p.code (.cut (some (p.number point.1)) (some (p.number point.2)) none
          ((if first then some feed else none : Option K).map p.number)) with
            where_ := some point } point :=
        ⟨inUnits_of_now h.units rfl (congrArg (fun s => s.machine.perUnit) hnow), rfl,
          congrArg (fun s => s.machine.place) hnow⟩
      obtain ⟨places, hplaces⟩ := ih _ point false hlocated fun _ =>
        (congrArg (fun s => s.machine.feed) hnow).trans hfeed
      refine ⟨point :: places, ?_⟩
      rw [Program.cutAll, hcut]
      simpa only [Bool.not_true, Bool.and_false] using follows_cut h hfeed hplaces

end

/-! ## A contour, one pass after the other -/

/-- A pass at a height, which comes to every point of a contour. -/
structure Visits (z : K) (points : List (Point K)) (pass : Pass K) : Prop where
  height : pass.z = some z
  visits : ∀ point ∈ points, ∃ q, at_ q ∈ pass.visited ∧ Program.Near q point

/-- A move of the passes of a contour. -/
structure InContour (feed : K) (motion : Motion K) : Prop where
  cuts : motion.rapid = false
  feed : motion.planar = true → motion.after.feed = some feed

section

variable [IsStrictOrderedRing K] {job : Job K} {place : Point K}

/-- **One pass**, from a place that is next to the start of the contour. -/
theorem visits_cutPass (job : Job K) {path : Path K} (hclosed : path.Closed) (h : Located u p place)
    (hnear : Program.Near place path.start) {passes : List (Pass K)} {contours : History K}
    (hhistory : (p.now u).history = passes :: contours) (z : K) :
    ∃ place' pass, Located u (cutPass job path.rest p z) place' ∧ Program.Near place' path.start ∧
      Visits z path.points pass ∧
      ((cutPass job path.rest p z).now u).history = (pass :: passes) :: contours ∧
      ∃ more, ((cutPass job path.rest p z).now u).motions = (p.now u).motions ++ more ∧
        ∀ motion ∈ more, InContour job.feed motion := by
  have hnow := now_plunge h.units z job.plungeFeed
  obtain ⟨places, hplaces⟩ := follows_cutAll job.feed path.rest
    (p.plunge z job.plungeFeed) place true (located_plunge h z job.plungeFeed) (fun h => by cases h)
  have hmachine : ((p.plunge z job.plungeFeed).now u).machine.place = at_ place :=
    (located_plunge h z job.plungeFeed).machine
  have hplunge : ((p.plunge z job.plungeFeed).now u).history =
      (⟨some z, [at_ place]⟩ :: passes) :: contours := by
    rw [hnow] at hmachine ⊢
    show (p.now u).history.plunge _ = _
    rw [hhistory, ← hmachine]
    rfl
  refine ⟨_, { z := some z, visited := (places.map at_).reverse ++ [at_ place] }, hplaces.located, ?_, ⟨rfl, ?_⟩,
    ?_, ?_⟩
  · have hend := hplaces.ends path.start hnear
    rwa [show (path.start :: path.rest).getLast _ = path.start from hclosed] at hend
  · have hin : ∀ q ∈ place :: places, at_ q ∈ (places.map at_).reverse ++ [at_ place] := by
      intro q hq
      rcases List.mem_cons.mp hq with rfl | hq
      · exact List.mem_append_right _ List.mem_cons_self
      · exact List.mem_append_left _ (List.mem_reverse.mpr (List.mem_map_of_mem hq))
    intro point hpoint
    rcases List.mem_cons.mp hpoint with rfl | hpoint
    · exact ⟨place, hin place List.mem_cons_self, hnear⟩
    · obtain ⟨q, hq, hnear⟩ := hplaces.visits point hpoint
      exact ⟨q, hin q hq, hnear⟩
  · exact (hplaces.history.trans (congrArg (visitAll · places) hplunge)).trans (visitAll_cons _ _ _ _)
  · obtain ⟨more, hmore, hall⟩ := hplaces.motions
    rw [hnow] at hmore
    refine ⟨_ :: more, hmore.trans (List.append_assoc _ _ _), ?_⟩
    intro motion hmotion
    rcases List.mem_cons.mp hmotion with rfl | hmotion
    · exact ⟨rfl, fun h => by cases h⟩
    · exact ⟨(hall motion hmotion).cuts, fun _ => (hall motion hmotion).feed⟩

/-- **The passes of a contour**, one after the other. -/
theorem visits_cutPasses (job : Job K) {path : Path K} (hclosed : path.Closed) {contours : History K}
    (heights : List K) : ∀ (p : Program K) (place : Point K) (passes : List (Pass K)),
    Located u p place → Program.Near place path.start → (p.now u).history = passes :: contours →
    ∃ place' more, Located u (heights.foldl (cutPass job path.rest) p) place' ∧
      List.Forall₂ (Visits · path.points) heights more ∧
      ((heights.foldl (cutPass job path.rest) p).now u).history = (more.reverse ++ passes) :: contours ∧
      ∃ moves, ((heights.foldl (cutPass job path.rest) p).now u).motions = (p.now u).motions ++ moves ∧
        ∀ motion ∈ moves, InContour job.feed motion := by
  induction heights with
  | nil =>
    intro p place passes h _ hhistory
    exact ⟨place, [], h, List.Forall₂.nil, hhistory, [], (List.append_nil _).symm,
      fun _ h => absurd h List.not_mem_nil⟩
  | cons z heights ih =>
    intro p place passes h hnear hhistory
    obtain ⟨place₁, pass, h₁, hnear₁, hvisits, hhistory₁, moves₁, hmoves₁, hall₁⟩ :=
      visits_cutPass job hclosed h hnear hhistory z
    obtain ⟨place₂, more, h₂, hvisits₂, hhistory₂, moves₂, hmoves₂, hall₂⟩ :=
      ih (cutPass job path.rest p z) place₁ (pass :: passes) h₁ hnear₁ hhistory₁
    refine ⟨place₂, pass :: more, h₂, List.Forall₂.cons hvisits hvisits₂, ?_, moves₁ ++ moves₂, ?_, ?_⟩
    · rw [List.foldl_cons, hhistory₂, List.reverse_cons, List.append_assoc]
      rfl
    · rw [List.foldl_cons, hmoves₂, hmoves₁, List.append_assoc]
    · intro motion hmotion
      rcases List.mem_append.mp hmotion with hmotion | hmotion
      · exact hall₁ motion hmotion
      · exact hall₂ motion hmotion

/-! ## A program, one contour after the other -/

/-- What a move of a router must be. -/
structure Safe (job : Job K) (motion : Motion K) : Prop where
  rapid : motion.rapid = true → motion.planar = true →
    motion.before.z = some job.safeHeight ∧ motion.after.z = some job.safeHeight
  feed : motion.rapid = false → motion.planar = true → motion.after.feed = some job.feed

variable [FloorRing K]

/-- **A contour**, from above the work back to there. -/
theorem safe_cutContour {path : Path K} (hclosed : path.Closed) (h : Above u job p) :
    Above u job (cutContour job p path) ∧
    (∃ passes, ((cutContour job p path).now u).history = passes.reverse :: (p.now u).history ∧
      List.Forall₂ (Visits · path.points) job.depths passes) ∧
    ∃ moves, ((cutContour job p path).now u).motions = (p.now u).motions ++ moves ∧
      ∀ motion ∈ moves, Safe job motion := by
  have hxy := now_rapidXY h.units path.start
  obtain ⟨place, passes, hlocated, hvisits, hhistory, moves, hmoves, hall⟩ :=
    visits_cutPasses job hclosed job.depths (p.rapidXY path.start) path.start []
      (located_rapidXY h.units path.start) (near_self path.start)
      (congrArg (fun s => s.history) hxy)
  have hz := now_rapidZ hlocated.units job.safeHeight
  rw [hxy] at hmoves
  refine ⟨above_rapidZ hlocated.units, ⟨passes, ?_, hvisits⟩, ?_⟩
  · refine ((congrArg (fun s => s.history) hz).trans hhistory).trans ?_
    rw [List.append_nil]
  · let first : Motion K := ⟨true, true, false, (p.now u).machine,
      { (p.now u).machine with x := some path.start.1, y := some path.start.2 }⟩
    let milled := job.depths.foldl (cutPass job path.rest) (p.rapidXY path.start)
    let last : Motion K := ⟨true, false, true, (milled.now u).machine,
      { (milled.now u).machine with z := some job.safeHeight }⟩
    have hlast : ((cutContour job p path).now u).motions = (milled.now u).motions ++ [last] :=
      congrArg (fun s => s.motions) hz
    refine ⟨first :: (moves ++ [last]), ?_, ?_⟩
    · rw [hlast, hmoves]
      exact (List.append_assoc _ _ _).trans (List.append_assoc _ _ _)
    · intro motion hmotion
      rcases List.mem_cons.mp hmotion with rfl | hmotion
      · exact ⟨fun _ _ => ⟨h.height, h.height⟩, fun hrapid => nomatch hrapid⟩
      rcases List.mem_append.mp hmotion with hmotion | hmotion
      · refine ⟨fun hrapid => ?_, fun _ => (hall motion hmotion).feed⟩
        rw [(hall motion hmotion).cuts] at hrapid
        cases hrapid
      · obtain rfl := List.mem_singleton.mp hmotion
        exact ⟨fun _ hplanar => (nomatch hplanar), fun hrapid => nomatch hrapid⟩

/-- The contours of a route, one after the other. -/
theorem safe_cutContours (paths : List (Path K)) : ∀ p : Program K, (∀ path ∈ paths, path.Closed) →
    Above u job p →
    Above u job (paths.foldl (cutContour job) p) ∧
    (∃ contours, ((paths.foldl (cutContour job) p).now u).history =
        (contours.map List.reverse).reverse ++ (p.now u).history ∧
      List.Forall₂ (fun path => List.Forall₂ (Visits · path.points) job.depths) paths contours) ∧
    ∃ moves, ((paths.foldl (cutContour job) p).now u).motions = (p.now u).motions ++ moves ∧
      ∀ motion ∈ moves, Safe job motion := by
  induction paths with
  | nil =>
    intro p _ h
    exact ⟨h, ⟨[], rfl, List.Forall₂.nil⟩, [], (List.append_nil _).symm,
      fun _ h => absurd h List.not_mem_nil⟩
  | cons path paths ih =>
    intro p hclosed h
    obtain ⟨h₁, ⟨passes, hpasses, hvisits⟩, moves₁, hmoves₁, hall₁⟩ :=
      safe_cutContour (hclosed path List.mem_cons_self) h
    obtain ⟨h₂, ⟨contours, hcontours, hvisits₂⟩, moves₂, hmoves₂, hall₂⟩ :=
      ih (cutContour job p path) (fun path h => hclosed path (List.mem_cons_of_mem _ h)) h₁
    refine ⟨h₂, ⟨passes :: contours, ?_, List.Forall₂.cons hvisits hvisits₂⟩, moves₁ ++ moves₂, ?_, ?_⟩
    · rw [List.foldl_cons, hcontours, hpasses, List.map_cons, List.reverse_cons, List.append_assoc]
      rfl
    · rw [List.foldl_cons, hmoves₂, hmoves₁, List.append_assoc]
    · intro motion hmotion
      rcases List.mem_append.mp hmotion with hmotion | hmotion
      · exact hall₁ motion hmotion
      · exact hall₂ motion hmotion

end

/-! ## The depths of the passes -/

section

variable [FloorRing K]

/-- Depths that grow by at most one pass at a time, down to the whole depth. -/
structure Steps (depth perPass : K) (depths : List K) : Prop where
  steps : (0 :: depths).IsChain fun a b => a < b ∧ b - a ≤ perPass
  last : ∃ d, depths.getLast? = some d ∧ |depth - d| ≤ perPass / 10 ^ 9

/-- The depth of each pass, below the top. -/
def Job.down (job : Job K) : List K :=
  (List.range job.passes).map fun index : ℕ => min job.depth (job.depthPerPass * (index + 1))

theorem depths_eq (job : Job K) : job.depths = job.down.map fun d => job.top - d :=
  (List.map_map ..).symm

theorem passes_pos (job : Job K) : 0 < job.passes := Nat.lt_of_lt_of_le Nat.one_pos (le_max_left _ _)

variable [IsStrictOrderedRing K]

/-- All passes but the last one stay above the whole depth. -/
theorem lt_depth {job : Job K} (hperPass : 0 < job.depthPerPass) (index : ℕ)
    (h : index + 1 < job.passes) : job.depthPerPass * (index + 1) < job.depth := by
  have hceil : index + 1 < ⌈job.depth / job.depthPerPass - 1 / 10 ^ 9⌉.toNat := by
    rcases lt_max_iff.mp (show index + 1 < max 1 _ from h) with h | h
    · omega
    · exact h
  have hlt : ((index + 1 : ℕ) : ℤ) < ⌈job.depth / job.depthPerPass - 1 / 10 ^ 9⌉ := by omega
  have hdiv := Int.lt_ceil.mp hlt
  have hpos : (0 : K) < 1 / 10 ^ 9 := by positivity
  have hlt : ((index : K) + 1) < job.depth / job.depthPerPass := by
    push_cast at hdiv
    linarith
  rw [mul_comm]
  exact (lt_div_iff₀ hperPass).mp hlt

/-- The passes come to the whole depth, but for what is lost to rounding. -/
theorem depth_le {job : Job K} (hperPass : 0 < job.depthPerPass) :
    job.depth - job.depthPerPass / 10 ^ 9 ≤ job.depthPerPass * job.passes := by
  have hceil : job.depth / job.depthPerPass - 1 / 10 ^ 9 ≤ (job.passes : K) := by
    refine (Int.le_ceil _).trans ?_
    have hle : ⌈job.depth / job.depthPerPass - 1 / 10 ^ 9⌉ ≤ (job.passes : ℤ) := by
      refine (Int.self_le_toNat _).trans ?_
      exact Int.ofNat_le.mpr (le_max_right _ _)
    exact_mod_cast hle
  have hmul := mul_le_mul_of_nonneg_left hceil hperPass.le
  rw [mul_sub, mul_div_cancel₀ _ hperPass.ne'] at hmul
  linarith [mul_one_div job.depthPerPass ((10 : K) ^ 9)]

/-- **The depths of the passes.** -/
theorem steps_down {job : Job K} (hdepth : 0 < job.depth) (hperPass : 0 < job.depthPerPass) :
    Steps job.depth job.depthPerPass job.down := by
  have hlength : job.down.length = job.passes := by rw [Job.down, List.length_map, List.length_range]
  have hget : ∀ (index : ℕ) (h : index < job.down.length),
      job.down[index] = min job.depth (job.depthPerPass * (index + 1)) := by
    intro index h
    simp only [Job.down, List.getElem_map, List.getElem_range]
  refine ⟨?_, ?_⟩
  · rw [List.isChain_iff_getElem]
    intro index hindex
    cases index with
    | zero =>
      rw [List.getElem_cons_zero, List.getElem_cons_succ, hget]
      have hmin : (0 : K) < min job.depth (job.depthPerPass * ((0 : ℕ) + 1)) := by
        rw [Nat.cast_zero, zero_add, mul_one]
        exact lt_min hdepth hperPass
      have hle := min_le_right job.depth (job.depthPerPass * ((0 : ℕ) + 1))
      rw [Nat.cast_zero, zero_add, mul_one] at *
      exact ⟨hmin, by linarith⟩
    | succ index =>
      rw [List.getElem_cons_succ, List.getElem_cons_succ, hget, hget]
      have hlt := lt_depth hperPass index (by
        simp only [List.length_cons] at hindex
        omega)
      rw [min_eq_right hlt.le]
      have hle := min_le_right job.depth (job.depthPerPass * ((index + 1 : ℕ) + 1))
      have hstep : job.depthPerPass * ((index : K) + 1) < job.depthPerPass * ((index + 1 : ℕ) + 1) := by
        push_cast
        nlinarith
      refine ⟨lt_min hlt hstep, ?_⟩
      push_cast at hle ⊢
      linarith
  · have hpos := passes_pos job
    refine ⟨_, List.getLast?_eq_getElem?.trans (List.getElem?_eq_getElem (by omega)), ?_⟩
    rw [hget, hlength, Nat.cast_pred hpos, sub_add_cancel]
    have hge := depth_le hperPass
    have hnonneg : (0 : K) ≤ job.depthPerPass / 10 ^ 9 := by positivity
    rw [abs_of_nonneg (sub_nonneg.mpr (min_le_left _ _))]
    rcases le_total job.depth (job.depthPerPass * job.passes) with h | h
    · rw [min_eq_left h, sub_self]
      exact hnonneg
    · rw [min_eq_right h]
      linarith

end

/-! ## The start of a program -/

omit [LinearOrder K] in
theorem play_others (u : K) (comments : ℕ) :
    play u (List.replicate comments .other) = ⟨⟨none, none, none, none, false, u⟩, [], []⟩ := by
  induction comments with
  | zero => rfl
  | succ comments ih =>
    rw [List.replicate_succ', play_concat, ih]
    rfl

omit [LinearOrder K] in
theorem now_startProgram (u : K) (inches : Bool) (comments : ℕ) :
    (startProgram inches comments).now u =
      ⟨⟨none, none, none, none, false, perUnit inches⟩, [], []⟩ := by
  have hother := play_others u comments
  rw [play] at hother
  rw [Program.now, startProgram, play, List.foldl_append, hother]
  rfl

section

variable [IsStrictOrderedRing K]

theorem perUnit_pos (inches : Bool) : (0 : K) < perUnit inches := by
  cases inches with
  | false => exact one_pos
  | true =>
    show (0 : K) < 254 / 10
    positivity

theorem inUnits_startProgram (u : K) (inches : Bool) (comments : ℕ) :
    InUnits u (startProgram inches comments) := by
  rw [InUnits, now_startProgram]
  exact one_div_mul_cancel (perUnit_pos inches).ne'

/-! ## The route of a laser -/

/-- What a move of a laser must be. -/
structure Lit (feed : K) (motion : Motion K) : Prop where
  rapid : motion.rapid = true → motion.before.on = false ∧ motion.after.on = false
  cut : motion.rapid = false →
    motion.before.on = true ∧ motion.after.on = true ∧ motion.after.feed = some feed

/-- The numbers are in the unit of the machine, and the beam is off. -/
structure Dark (u : K) (p : Program K) : Prop where
  units : InUnits u p
  off : (p.now u).machine.on = false

/-- **A contour of a laser.** -/
theorem lit_burnContour (feed : K) (path : Path K) (h : Dark u p) :
    Dark u (burnContour feed p path) ∧
    ∃ moves, ((burnContour feed p path).now u).motions = (p.now u).motions ++ moves ∧
      ∀ motion ∈ moves, Lit feed motion := by
  have hxy := now_rapidXY h.units path.start
  have hlocated := located_rapidXY h.units path.start
  have hon := now_code (u := u) (p := p.rapidXY path.start) .on
  have hstart : Located u ((p.rapidXY path.start).code .on) path.start :=
    ⟨inUnits_of_now hlocated.units rfl (congrArg (fun s => s.machine.perUnit) hon), rfl,
      (congrArg (fun s => s.machine.place) hon).trans hlocated.machine⟩
  obtain ⟨places, hplaces⟩ := follows_cutAll feed path.rest
    ((p.rapidXY path.start).code .on) path.start true hstart (fun h => nomatch h)
  have hoff := now_code (u := u)
    (p := Program.cutAll feed path.rest ((p.rapidXY path.start).code .on) true) .off
  refine ⟨⟨inUnits_of_now hplaces.located.units rfl (congrArg (fun s => s.machine.perUnit) hoff),
    congrArg (fun s => s.machine.on) hoff⟩, ?_⟩
  obtain ⟨more, hmore, hall⟩ := hplaces.motions
  let first : Motion K := ⟨true, true, false, (p.now u).machine,
    { (p.now u).machine with x := some path.start.1, y := some path.start.2 }⟩
  have hfirst : (((p.rapidXY path.start).code .on).now u).motions = (p.now u).motions ++ [first] :=
    (congrArg (fun s => s.motions) hon).trans (congrArg (fun s => s.motions) hxy)
  have hlit : (((p.rapidXY path.start).code .on).now u).machine.on = true :=
    congrArg (fun s => s.machine.on) hon
  refine ⟨first :: more, ?_, ?_⟩
  · refine (congrArg (fun s => s.motions) hoff).trans (hmore.trans ?_)
    rw [hfirst]
    exact List.append_assoc _ _ _
  · intro motion hmotion
    rcases List.mem_cons.mp hmotion with rfl | hmotion
    · exact ⟨fun _ => ⟨h.off, h.off⟩, fun hrapid => nomatch hrapid⟩
    · have hcutting := hall motion hmotion
      rw [hlit] at hcutting
      refine ⟨fun hrapid => ?_, fun _ => ⟨hcutting.before, hcutting.after, hcutting.feed⟩⟩
      rw [hcutting.cuts] at hrapid
      cases hrapid

theorem lit_burnContours (feed : K) (paths : List (Path K)) : ∀ p : Program K, Dark u p →
    ∃ moves, ((paths.foldl (burnContour feed) p).now u).motions = (p.now u).motions ++ moves ∧
      ∀ motion ∈ moves, Lit feed motion := by
  induction paths with
  | nil => exact fun p _ => ⟨[], (List.append_nil _).symm, fun _ h => absurd h List.not_mem_nil⟩
  | cons path paths ih =>
    intro p h
    obtain ⟨h₁, moves₁, hmoves₁, hall₁⟩ := lit_burnContour feed path h
    obtain ⟨moves₂, hmoves₂, hall₂⟩ := ih (burnContour feed p path) h₁
    refine ⟨moves₁ ++ moves₂, ?_, ?_⟩
    · rw [List.foldl_cons, hmoves₂, hmoves₁, List.append_assoc]
    · intro motion hmotion
      rcases List.mem_append.mp hmotion with hmotion | hmotion
      · exact hall₁ motion hmotion
      · exact hall₂ motion hmotion

variable [FloorRing K]

theorem lit_laser (u : K) (inches : Bool) (comments : ℕ) (feed : K) (paths : List (Path K)) :
    ∀ motion ∈ ((laser inches comments feed paths).now u).motions, Lit feed motion := by
  have hstart := now_startProgram u inches comments
  obtain ⟨moves, hmoves, hall⟩ := lit_burnContours feed (sortedPaths paths)
    (startProgram inches comments)
    ⟨inUnits_startProgram u inches comments, congrArg (fun s => s.machine.on) hstart⟩
  have hend : ((laser inches comments feed paths).now u).motions = moves := by
    have hother := now_code (u := u)
      (p := (sortedPaths paths).foldl (burnContour feed) (startProgram inches comments)) .other
    refine (congrArg (fun s => s.motions) hother).trans (hmoves.trans ?_)
    rw [hstart]
    rfl
  rw [hend]
  exact hall

/-! ## Both routes -/

/-- **What a router does**: the moves are safe, and each contour is followed at one depth after the
other. -/
structure Milled (job : Job K) (paths : List (Path K)) (run : Play K) : Prop where
  safe : ∀ motion ∈ run.motions, Safe job motion
  contours : ∃ depths, Steps job.depth job.depthPerPass depths ∧
    List.Forall₂ (fun path passes => List.Forall₂ (fun d => Visits (job.top - d) path.points) depths passes)
      (sortedPaths paths) (run.history.map List.reverse).reverse

section

variable {job : Job K}

/-- Before the first contour the tool is above the work, and there was no other move. -/
theorem above_start (u : K) (job : Job K) : ∃ p : Program K,
    (∀ paths, cnc job paths = (if job.spindle then ((sortedPaths paths).foldl (cutContour job) p).code .off
      else (sortedPaths paths).foldl (cutContour job) p).code .other) ∧
    Above u job p ∧ (p.now u).history = [] ∧ ∀ motion ∈ (p.now u).motions, Safe job motion := by
  let start : Program K := startProgram job.inches job.comments
  let started : Program K := if job.spindle then start.code .on else start
  have hstart : start.now u = _ := now_startProgram u job.inches job.comments
  have hunits : InUnits u start := inUnits_startProgram u job.inches job.comments
  have hstarted : InUnits u started ∧ (started.now u).history = [] ∧ (started.now u).motions = [] := by
    cases hspindle : job.spindle with
    | false =>
      have heq : started = start := if_neg (by rw [hspindle]; exact Bool.false_ne_true)
      rw [heq, hstart]
      exact ⟨hunits, rfl, rfl⟩
    | true =>
      have heq : started = start.code .on := if_pos hspindle
      have hon := now_code (u := u) (p := start) .on
      rw [heq, hon, hstart]
      exact ⟨inUnits_of_now hunits rfl (congrArg (fun s => s.machine.perUnit) hon), rfl, rfl⟩
  obtain ⟨hunits, hhistory, hmotions⟩ := hstarted
  have hz := now_rapidZ hunits job.safeHeight
  refine ⟨started.rapidZ job.safeHeight, fun _ => rfl, above_rapidZ hunits,
    (congrArg (fun s => s.history) hz).trans hhistory, ?_⟩
  intro motion hmotion
  rw [hz] at hmotion
  rcases List.mem_append.mp hmotion with hmotion | hmotion
  · rw [hmotions] at hmotion
    cases hmotion
  · rw [List.mem_singleton.mp hmotion]
    exact ⟨fun _ hplanar => (nomatch hplanar), fun hrapid => nomatch hrapid⟩

theorem milled_cnc (u : K) {paths : List (Path K)} (hclosed : ∀ path ∈ paths, path.Closed)
    (hdepth : 0 < job.depth) (hperPass : 0 < job.depthPerPass) :
    Milled job paths ((cnc job paths).now u) := by
  obtain ⟨p, hcnc, habove, hhistory, hsafe⟩ := above_start u job
  obtain ⟨-, ⟨contours, hcontours, hvisits⟩, moves, hmoves, hall⟩ :=
    safe_cutContours (sortedPaths paths) p
      (fun path h => hclosed path ((sortBy_perm _ _).mem_iff.mp h)) habove
  have hlast : ∀ q : Program K,
      (((if job.spindle then q.code .off else q).code .other).now u).motions = (q.now u).motions ∧
      (((if job.spindle then q.code .off else q).code .other).now u).history = (q.now u).history := by
    intro q
    rw [now_code]
    split
    · have hoff := now_code (u := u) (p := q) .off
      rw [hoff]
      exact ⟨rfl, rfl⟩
    · exact ⟨rfl, rfl⟩
  rw [hcnc]
  refine ⟨?_, job.down, steps_down hdepth hperPass, ?_⟩
  · rw [(hlast _).1, hmoves]
    intro motion hmotion
    rcases List.mem_append.mp hmotion with hmotion | hmotion
    · exact hsafe motion hmotion
    · exact hall motion hmotion
  · rw [(hlast _).2, hcontours, hhistory, List.append_nil, List.map_reverse, List.reverse_reverse,
      List.map_map, Function.comp_def]
    simp only [List.reverse_reverse, List.map_id']
    refine hvisits.imp fun path passes h => ?_
    rw [depths_eq, List.forall₂_map_left_iff] at h
    exact h

/-- **What a router and a laser do** with the programs for closed contours. -/
theorem routes_safe (u : K) (job : Job K) (paths : List (Path K)) (hclosed : ∀ path ∈ paths, path.Closed)
    (hdepth : 0 < job.depth) (hperPass : 0 < job.depthPerPass) :
    Milled job paths ((cnc job paths).now u) ∧
    ∀ (inches : Bool) (comments : ℕ) (feed : K),
      ∀ motion ∈ ((laser inches comments feed paths).now u).motions, Lit feed motion :=
  ⟨milled_cnc u hclosed hdepth hperPass,
    fun inches comments feed => lit_laser u inches comments feed paths⟩

/-- A square, in inches, with a point that is next to the one before it. -/
theorem routes_safe_square :
    Milled (K := ℚ) ⟨true, 3, true, 800, 200, 0, 5, 2, 10⟩
      [⟨(0, 0), [(10, 0), (10, 1 / 10 ^ 9), (10, 10), (0, 10), (0, 0)], false, 1⟩]
      ((cnc ⟨true, 3, true, 800, 200, 0, 5, 2, 10⟩
        [⟨(0, 0), [(10, 0), (10, 1 / 10 ^ 9), (10, 10), (0, 10), (0, 0)], false, 1⟩]).now 1) :=
  (routes_safe 1 ⟨true, 3, true, 800, 200, 0, 5, 2, 10⟩
    [⟨(0, 0), [(10, 0), (10, 1 / 10 ^ 9), (10, 10), (0, 10), (0, 0)], false, 1⟩] (fun _ h => List.mem_singleton.mp h ▸ rfl) (by norm_num) (by norm_num)).1

end

end

end PartCAD.Gcode
