import Mathlib.Data.List.Chain
import Mathlib.Data.List.Range
import PartCAD.Gcode.Bores

/-!
# What a drill does

* `goes_drillHole` : the moves of a hole;
* `rapidsSafe_iff` : **when no rapid move enters what has not been drilled**;
* `drilled_iff` : **when a program for a drill is as it should be**.
-/

namespace PartCAD.Gcode

open PartCAD.Lib PartCAD.Lib.Modal

variable {K : Type} [Field K] [LinearOrder K] [FloorRing K]

/-! ## The moves of a hole -/

/-- A move, by where it ends. -/
structure Event (K : Type) where
  rapid : Bool
  place : Option K × Option K
  z : Option K

def eventOf (motion : Motion K) : Event K := ⟨motion.rapid, motion.after.place, motion.after.z⟩

/-- A rapid move in the plane is at the safe height. -/
def PlanarSafe (job : DrillJob K) (motion : Motion K) : Prop :=
  motion.rapid = true → motion.planar = true →
    motion.before.z = some job.safeHeight ∧ motion.after.z = some job.safeHeight

/-- From one program to another one, with the moves between them. -/
structure Goes (u : K) (job : DrillJob K) (p p' : Program K) (events : List (Event K)) : Prop where
  units : InUnits u p'
  motions : ∃ more, (p'.now u).motions = (p.now u).motions ++ more ∧ more.map eventOf = events ∧
    ∀ motion ∈ more, PlanarSafe job motion

section

variable {u : K} {job : DrillJob K} {p p' p'' : Program K} {events events' : List (Event K)}

theorem Goes.refl (h : InUnits u p) : Goes u job p p [] := ⟨h, [], by simp, rfl, by simp⟩

theorem Goes.trans (h : Goes u job p p' events) (h' : Goes u job p' p'' events') :
    Goes u job p p'' (events ++ events') := by
  obtain ⟨more, hmore, hevents, hsafe⟩ := h.motions
  obtain ⟨more', hmore', hevents', hsafe'⟩ := h'.motions
  refine ⟨h'.units, more ++ more', ?_, ?_, ?_⟩
  · rw [hmore', hmore, List.append_assoc]
  · rw [List.map_append, hevents, hevents']
  · intro motion hmotion
    rcases List.mem_append.1 hmotion with hmotion | hmotion
    · exact hsafe motion hmotion
    · exact hsafe' motion hmotion

variable (job) in
theorem goes_rapidZ (h : InUnits u p) (z : K) :
    Goes u job p (p.rapidZ z) [⟨true, (p.now u).machine.place, some z⟩] := by
  have hnow := now_rapidZ h z
  refine ⟨inUnits_of_now h rfl (congrArg (fun s => s.machine.perUnit) hnow), _,
    congrArg (fun s => s.motions) hnow, rfl, ?_⟩
  intro motion hmotion _ hplanar
  rw [List.mem_singleton.1 hmotion] at hplanar
  cases hplanar

variable (job) in
theorem goes_plunge (h : InUnits u p) (z feed : K) :
    Goes u job p (p.plunge z feed) [⟨false, (p.now u).machine.place, some z⟩] := by
  have hnow := now_plunge h z feed
  refine ⟨inUnits_of_now h rfl (congrArg (fun s => s.machine.perUnit) hnow), _,
    congrArg (fun s => s.motions) hnow, rfl, ?_⟩
  intro motion hmotion hrapid
  rw [List.mem_singleton.1 hmotion] at hrapid
  cases hrapid

theorem goes_rapidXY (h : InUnits u p) (hz : (p.now u).machine.z = some job.safeHeight) (place : Point K) :
    Goes u job p (p.rapidXY place) [⟨true, at_ place, some job.safeHeight⟩] := by
  have hnow := now_rapidXY h place
  refine ⟨inUnits_of_now h rfl (congrArg (fun s => s.machine.perUnit) hnow), _,
    congrArg (fun s => s.motions) hnow, ?_, ?_⟩
  · simp only [List.map_cons, List.map_nil, eventOf, hz]
    rfl
  · intro motion hmotion _ _
    rw [List.mem_singleton.1 hmotion]
    exact ⟨hz, hz⟩

/-- The moves of one plunge. -/
def stepEvents (job : DrillJob K) (h : Hole K) (z : K) : List (Event K) :=
  ⟨false, at_ h.centre, some z⟩ ::
    if 1 < (job.steps h).length then [⟨true, at_ h.centre, some h.top⟩] else []

/-- The moves of a hole. -/
def holeEvents (job : DrillJob K) (h : Hole K) : List (Event K) :=
  ⟨true, at_ h.centre, some job.safeHeight⟩ :: ⟨true, at_ h.centre, some h.top⟩ ::
    ((job.steps h).flatMap (stepEvents job h) ++ [⟨true, at_ h.centre, some job.safeHeight⟩])

/-- The pass of one plunge. -/
def passAt (h : Hole K) (z : K) : Pass K := ⟨some z, [at_ h.centre]⟩

variable (job) in
/-- One plunge keeps the place, and is one pass more. -/
theorem goes_drillStep (hole : Hole K) (z : K) {passes : List (Pass K)} {contours : History K} (h : InUnits u p)
    (hplace : (p.now u).machine.place = at_ hole.centre) (hhistory : (p.now u).history = passes :: contours) :
    Goes u job p (drillStep job (job.steps hole) hole p z) (stepEvents job hole z) ∧
      ((drillStep job (job.steps hole) hole p z).now u).machine.place = at_ hole.centre ∧
      ((drillStep job (job.steps hole) hole p z).now u).history = (passAt hole z :: passes) :: contours := by
  have hplunge := now_plunge h z job.plungeFeed
  have hgoes := goes_plunge job h z job.plungeFeed
  have hplace' : ((p.plunge z job.plungeFeed).now u).machine.place = at_ hole.centre :=
    (congrArg (fun s => s.machine.place) hplunge).trans hplace
  have hhistory' : ((p.plunge z job.plungeFeed).now u).history = (passAt hole z :: passes) :: contours := by
    rw [congrArg (fun s => s.history) hplunge]
    simp only [Play.move, hhistory, History.plunge, passAt]
    rw [← hplace]
    rfl
  rw [hplace] at hgoes
  unfold drillStep stepEvents
  by_cases hmany : 1 < (job.steps hole).length
  · have hrapid := now_rapidZ hgoes.units hole.top
    have hout := goes_rapidZ job hgoes.units hole.top
    rw [hplace'] at hout
    rw [if_pos hmany, if_pos hmany]
    exact ⟨hgoes.trans hout, (congrArg (fun s => s.machine.place) hrapid).trans hplace',
      (congrArg (fun s => s.history) hrapid).trans hhistory'⟩
  · rw [if_neg hmany, if_neg hmany]
    exact ⟨hgoes, hplace', hhistory'⟩

variable (job) in
theorem goes_drillSteps (hole : Hole K) (zs : List K) {passes : List (Pass K)} {contours : History K}
    (h : InUnits u p) (hplace : (p.now u).machine.place = at_ hole.centre)
    (hhistory : (p.now u).history = passes :: contours) :
    Goes u job p (zs.foldl (drillStep job (job.steps hole) hole) p) (zs.flatMap (stepEvents job hole)) ∧
      ((zs.foldl (drillStep job (job.steps hole) hole) p).now u).machine.place = at_ hole.centre ∧
      ((zs.foldl (drillStep job (job.steps hole) hole) p).now u).history =
        ((zs.map (passAt hole)).reverse ++ passes) :: contours := by
  induction zs generalizing p passes with
  | nil => exact ⟨Goes.refl h, hplace, hhistory⟩
  | cons z zs ih =>
    obtain ⟨hgoes, hplace', hhistory'⟩ := goes_drillStep job hole z h hplace hhistory
    obtain ⟨hrest, hplace'', hhistory''⟩ := ih hgoes.units hplace' hhistory'
    refine ⟨hgoes.trans hrest, hplace'', ?_⟩
    rw [List.foldl_cons, hhistory'', List.map_cons, List.reverse_cons, List.append_assoc]
    rfl

/-- The numbers are in the unit of the machine, and the tool is above the work. -/
structure Ready (u : K) (job : DrillJob K) (p : Program K) : Prop where
  units : InUnits u p
  height : (p.now u).machine.z = some job.safeHeight

theorem ready_rapidZ (h : InUnits u p) : Ready u job (p.rapidZ job.safeHeight) :=
  ⟨(goes_rapidZ job h job.safeHeight).units,
    congrArg (fun s => s.machine.z) (now_rapidZ h job.safeHeight)⟩

/-- **The moves of a hole**: down from above the work, and up again. -/
theorem goes_drillHole (hole : Hole K) (h : Ready u job p) :
    Goes u job p (drillHole job p hole) (holeEvents job hole) ∧ Ready u job (drillHole job p hole) ∧
      ((drillHole job p hole).now u).history =
        ((job.steps hole).map (passAt hole)).reverse :: (p.now u).history := by
  have hxy := goes_rapidXY h.units h.height hole.centre
  have hxyNow := now_rapidXY h.units hole.centre
  have hplace : ((p.rapidXY hole.centre).now u).machine.place = at_ hole.centre :=
    congrArg (fun s => s.machine.place) hxyNow
  have htop := goes_rapidZ job hxy.units hole.top
  have htopNow := now_rapidZ hxy.units hole.top
  rw [hplace] at htop
  obtain ⟨hsteps, hplace', hhistory⟩ := goes_drillSteps job hole (job.steps hole) htop.units
    ((congrArg (fun s => s.machine.place) htopNow).trans hplace)
    ((congrArg (fun s => s.history) htopNow).trans (congrArg (fun s => s.history) hxyNow))
  have hup := goes_rapidZ job hsteps.units job.safeHeight
  rw [hplace'] at hup
  refine ⟨hxy.trans (htop.trans (hsteps.trans hup)), ready_rapidZ hsteps.units, ?_⟩
  rw [drillHole, congrArg (fun s => s.history) (now_rapidZ hsteps.units job.safeHeight)]
  rw [List.append_nil] at hhistory
  exact hhistory

/-- The moves of all holes. -/
theorem goes_drillHoles (holes : List (Hole K)) (h : Ready u job p) :
    Goes u job p (holes.foldl (drillHole job) p) (holes.flatMap (holeEvents job)) ∧
      ((holes.foldl (drillHole job) p).now u).history =
        (holes.map fun hole => ((job.steps hole).map (passAt hole)).reverse).reverse ++ (p.now u).history := by
  induction holes generalizing p with
  | nil => exact ⟨Goes.refl h.units, rfl⟩
  | cons hole holes ih =>
    obtain ⟨hgoes, hready, hhistory⟩ := goes_drillHole hole h
    obtain ⟨hrest, hhistory'⟩ := ih hready
    refine ⟨hgoes.trans hrest, ?_⟩
    rw [List.foldl_cons, hhistory', hhistory, List.map_cons, List.reverse_cons, List.append_assoc]
    rfl

end

/-! ## Down to the bottom -/

section

variable {job : DrillJob K} {hole : Hole K} {step : K}

/-- From the top of a hole to its bottom, by at most one peck at a time. -/
structure FedDown (job : DrillJob K) (hole : Hole K) (zs : List K) : Prop where
  down : (hole.top :: zs).IsChain fun a b => b ≤ a ∧ ∀ step, job.peck = some step → 0 < step → a - b ≤ step
  bottom : zs.getLast? = some hole.bottom

/-- A hole that is deeper than a whole number of pecks is so by more than the program overlooks. -/
def DepthTold (job : DrillJob K) (hole : Hole K) : Prop :=
  ∀ step, job.peck = some step → 0 < step → ∀ n : ℕ, 0 < n → step * n < hole.top - hole.bottom →
    step * n + step / 10 ^ 9 < hole.top - hole.bottom

theorem steps_of_pecks (hpeck : job.peck = some step) (hstep : 0 < step) :
    job.steps hole = (List.range (DrillJob.pecks step (hole.top - hole.bottom))).map fun index : ℕ =>
      hole.top - min (hole.top - hole.bottom) (step * (index + 1)) := by
  unfold DrillJob.steps
  rw [hpeck]
  exact if_pos hstep

theorem steps_at_once (h : ∀ step, job.peck = some step → ¬ 0 < step) : job.steps hole = [hole.bottom] := by
  unfold DrillJob.steps
  cases hpeck : job.peck with
  | none => rfl
  | some step => exact if_neg (h step hpeck)

theorem pecks_pos (step depth : K) : 0 < DrillJob.pecks step depth := Nat.lt_of_lt_of_le Nat.one_pos (le_max_left _ _)

variable [IsStrictOrderedRing K]

theorem chain_steps (hdepth : hole.bottom ≤ hole.top) : (hole.top :: job.steps hole).IsChain fun a b =>
    b ≤ a ∧ ∀ step, job.peck = some step → 0 < step → a - b ≤ step := by
  by_cases h : ∃ step, job.peck = some step ∧ 0 < step
  · obtain ⟨step, hpeck, hstep⟩ := h
    -- the top is where no peck has been made yet
    have hrange : hole.top :: job.steps hole =
        (List.range (DrillJob.pecks step (hole.top - hole.bottom) + 1)).map fun index : ℕ =>
          hole.top - min (hole.top - hole.bottom) (step * index) := by
      rw [steps_of_pecks hpeck hstep, List.range_succ_eq_map, List.map_cons, List.map_map, Nat.cast_zero, mul_zero,
        min_eq_right (sub_nonneg.2 hdepth), sub_zero]
      simp only [Function.comp_def, Nat.succ_eq_add_one, Nat.cast_add, Nat.cast_one]
    rw [hrange, List.isChain_map, List.isChain_range_succ]
    intro index _
    have hnext : step * ((index + 1 : ℕ) : K) = step * index + step := by
      push_cast
      ring
    rw [Nat.succ_eq_add_one, hnext]
    refine ⟨sub_le_sub_left (min_le_min_left _ (le_add_of_nonneg_right hstep.le)) _, ?_⟩
    intro step' hpeck' _
    obtain rfl : step = step' := Option.some.inj (hpeck.symm.trans hpeck')
    have hle : min (hole.top - hole.bottom) (step * index + step) ≤
        min (hole.top - hole.bottom) (step * index) + step := by
      rw [← min_add_add_right]
      exact min_le_min_right _ (le_add_of_nonneg_right hstep.le)
    linarith
  · have hnone : ∀ step, job.peck = some step → ¬ 0 < step := fun step hpeck hstep => h ⟨step, hpeck, hstep⟩
    rw [steps_at_once hnone]
    refine List.IsChain.cons_cons ⟨hdepth, fun step hpeck hstep => absurd hstep (hnone step hpeck)⟩ ?_
    exact List.IsChain.singleton _

/-- The pecks come to the whole depth, unless it is one that is overlooked. -/
theorem depth_le_pecks_iff (hstep : 0 < step) (depth : K) :
    depth ≤ step * DrillJob.pecks step depth ↔
      ∀ n : ℕ, 0 < n → step * n < depth → step * n + step / 10 ^ 9 < depth := by
  -- pecks are counted as the passes of a router are
  have hle : depth - step / 10 ^ 9 ≤ step * DrillJob.pecks step depth :=
    @depth_le _ _ _ _ _ ⟨false, 0, false, 0, 0, 0, depth, step, 0⟩ hstep
  constructor
  · intro h n hn hlt
    by_contra hnot
    have hceil : depth / step - 1 / 10 ^ 9 ≤ (n : K) := by
      rw [sub_le_iff_le_add, div_le_iff₀ hstep]
      have hsplit : (n + 1 / 10 ^ 9) * step = step * n + step / 10 ^ 9 := by ring
      rw [hsplit]
      exact not_lt.1 hnot
    have hpecks : DrillJob.pecks step depth ≤ n := by
      unfold DrillJob.pecks
      refine max_le hn ?_
      rw [Int.toNat_le]
      exact Int.ceil_le.2 (by exact_mod_cast hceil)
    have hmul : step * DrillJob.pecks step depth ≤ step * n :=
      mul_le_mul_of_nonneg_left (Nat.cast_le.2 hpecks) hstep.le
    exact absurd (hlt.trans_le (h.trans hmul)) (lt_irrefl _)
  · intro h
    by_contra hnot
    have hover := h _ (pecks_pos step depth) (not_le.1 hnot)
    linarith

/-- **A hole is drilled down to its bottom** unless its depth is one that is overlooked. -/
theorem fedDown_steps_iff (hdepth : hole.bottom ≤ hole.top) :
    FedDown job hole (job.steps hole) ↔ DepthTold job hole := by
  have hfed : FedDown job hole (job.steps hole) ↔ (job.steps hole).getLast? = some hole.bottom :=
    ⟨fun h => h.bottom, fun h => ⟨chain_steps hdepth, h⟩⟩
  rw [hfed]
  by_cases h : ∃ step, job.peck = some step ∧ 0 < step
  · obtain ⟨step, hpeck, hstep⟩ := h
    have hlast : (job.steps hole).getLast? = some (hole.top -
        min (hole.top - hole.bottom) (step * DrillJob.pecks step (hole.top - hole.bottom))) := by
      obtain ⟨n, hn⟩ := Nat.exists_eq_add_of_lt (pecks_pos step (hole.top - hole.bottom))
      rw [steps_of_pecks hpeck hstep, hn, zero_add, List.range_succ, List.map_append, List.map_singleton,
        List.getLast?_concat]
      push_cast
      rfl
    have htold : DepthTold job hole ↔ ∀ n : ℕ, 0 < n → step * n < hole.top - hole.bottom →
        step * n + step / 10 ^ 9 < hole.top - hole.bottom := by
      constructor
      · exact fun h => h step hpeck hstep
      · intro h step' hpeck' _
        obtain rfl : step = step' := Option.some.inj (hpeck.symm.trans hpeck')
        exact h
    rw [htold, ← depth_le_pecks_iff hstep, hlast, Option.some_inj]
    constructor
    · intro h
      have hmin : min (hole.top - hole.bottom) (step * DrillJob.pecks step (hole.top - hole.bottom)) =
          hole.top - hole.bottom := by linarith
      exact min_eq_left_iff.1 hmin
    · intro h
      rw [min_eq_left h]
      ring
  · have hnone : ∀ step, job.peck = some step → ¬ 0 < step := fun step hpeck hstep => h ⟨step, hpeck, hstep⟩
    rw [steps_at_once hnone]
    exact ⟨fun _ step hpeck hstep => absurd hstep (hnone step hpeck), fun _ => rfl⟩

end

/-! ## No rapid move into the material -/

/-- At a centre, a rapid move ends at the top of the highest hole or above it, or no deeper than a feed
move has been there. -/
def RapidSafe (holes : List (Hole K)) (before : List (Event K)) (e : Event K) : Prop :=
  e.rapid = true → ∀ z, e.z = some z →
    (∀ h ∈ holes, at_ h.centre = e.place → h.top ≤ z) ∨
      ∃ fed ∈ before, fed.rapid = false ∧ fed.place = e.place ∧ ∃ z', fed.z = some z' ∧ z' ≤ z

/-- A hole is as high as the highest one at its centre, or one before it was drilled down to its top. -/
def OpenedBefore (job : DrillJob K) (holes front : List (Hole K)) (h : Hole K) : Prop :=
  (∀ g ∈ holes, g.centre = h.centre → g.top ≤ h.top) ∨
    ∃ g ∈ front, g.centre = h.centre ∧ ∃ z ∈ job.steps g, z ≤ h.top

section

variable {job : DrillJob K} {holes : List (Hole K)}

omit [Field K] [FloorRing K] in
theorem RapidSafe.mono (past more : List (Event K)) (e : Event K) (h : RapidSafe holes past e) :
    RapidSafe holes (past ++ more) e := by
  intro hrapid z hz
  rcases h hrapid z hz with h | ⟨fed, hfed, h⟩
  · exact Or.inl h
  · exact Or.inr ⟨fed, List.mem_append_left _ hfed, h⟩

omit [Field K] [LinearOrder K] [FloorRing K] in
theorem at_inj {a b : Point K} : at_ a = at_ b ↔ a = b := by
  simp [at_, Prod.ext_iff]

/-- The feed moves of a hole are at its centre, at the heights of its steps. -/
theorem mem_holeEvents_fed {e : Event K} {h : Hole K} :
    e ∈ holeEvents job h ∧ e.rapid = false ↔ ∃ z ∈ job.steps h, e = ⟨false, at_ h.centre, some z⟩ := by
  constructor
  · rintro ⟨hmem, hrapid⟩
    rcases List.mem_cons.1 hmem with rfl | hmem
    · cases hrapid
    · rcases List.mem_cons.1 hmem with rfl | hmem
      · cases hrapid
      · rcases List.mem_append.1 hmem with hmem | hmem
        · obtain ⟨z, hz, hstep⟩ := List.mem_flatMap.1 hmem
          rcases List.mem_cons.1 hstep with rfl | hstep
          · exact ⟨z, hz, rfl⟩
          · split at hstep
            · rw [List.mem_singleton.1 hstep] at hrapid
              cases hrapid
            · cases hstep
        · rw [List.mem_singleton.1 hmem] at hrapid
          cases hrapid
  · rintro ⟨z, hz, rfl⟩
    refine ⟨?_, rfl⟩
    have hstep : (⟨false, at_ h.centre, some z⟩ : Event K) ∈ (job.steps h).flatMap (stepEvents job h) :=
      List.mem_flatMap.2 ⟨z, hz, List.mem_cons_self⟩
    exact List.mem_cons_of_mem _ (List.mem_cons_of_mem _ (List.mem_append_left _ hstep))

/-- The rapid moves of a hole end at its top and at the safe height. -/
theorem mem_holeEvents_rapid {e : Event K} {h : Hole K} (he : e ∈ holeEvents job h) (hrapid : e.rapid = true) :
    e.place = at_ h.centre ∧ (e.z = some h.top ∨ e.z = some job.safeHeight) := by
  rcases List.mem_cons.1 he with rfl | he
  · exact ⟨rfl, Or.inr rfl⟩
  · rcases List.mem_cons.1 he with rfl | he
    · exact ⟨rfl, Or.inl rfl⟩
    · rcases List.mem_append.1 he with he | he
      · obtain ⟨z, -, hstep⟩ := List.mem_flatMap.1 he
        rcases List.mem_cons.1 hstep with rfl | hstep
        · cases hrapid
        · split at hstep
          · rw [List.mem_singleton.1 hstep]
            exact ⟨rfl, Or.inl rfl⟩
          · cases hstep
      · rw [List.mem_singleton.1 he]
        exact ⟨rfl, Or.inr rfl⟩

/-- The moves of a hole are as safe as the first one to its top. -/
theorem along_holeEvents (hsafe : ∀ h ∈ holes, h.top ≤ job.safeHeight) {past : List (Event K)} (h : Hole K) :
    Along (RapidSafe holes) past (holeEvents job h) ↔
      (∀ g ∈ holes, g.centre = h.centre → g.top ≤ h.top) ∨
        ∃ fed ∈ past, fed.rapid = false ∧ fed.place = at_ h.centre ∧ ∃ z, fed.z = some z ∧ z ≤ h.top := by
  constructor
  · intro halong
    obtain ⟨-, hrest⟩ := along_cons.1 halong
    obtain ⟨htop, -⟩ := along_cons.1 hrest
    rcases htop rfl h.top rfl with htop | ⟨fed, hfed, hfeed, hrest⟩
    · exact Or.inl fun g hg hcentre => htop g hg (at_inj.2 hcentre)
    · rcases List.mem_append.1 hfed with hfed | hfed
      · exact Or.inr ⟨fed, hfed, hfeed, hrest⟩
      · rw [List.mem_singleton.1 hfed] at hfeed
        cases hfeed
  · intro htop
    refine along_of_forall RapidSafe.mono fun e he hrapid z hz => ?_
    obtain ⟨hplace, hheight⟩ := mem_holeEvents_rapid he hrapid
    rw [hplace]
    rcases hheight with hheight | hheight
    · obtain rfl : z = h.top := Option.some.inj (hz.symm.trans hheight)
      rcases htop with htop | htop
      · exact Or.inl fun g hg hat => htop g hg (at_inj.1 hat)
      · exact Or.inr htop
    · obtain rfl : z = job.safeHeight := Option.some.inj (hz.symm.trans hheight)
      exact Or.inl fun g hg _ => hsafe g hg

/-- **When no rapid move enters what has not been drilled**: when no hole is opened below the top of a
higher one that is drilled later. -/
theorem rapidsSafe_iff (hsafe : ∀ h ∈ holes, h.top ≤ job.safeHeight) :
    Along (RapidSafe holes) [] (⟨true, (none, none), some job.safeHeight⟩ :: holes.flatMap (holeEvents job)) ↔
      Along (OpenedBefore job holes) [] holes := by
  have hfirst : RapidSafe holes [] ⟨true, (none, none), some job.safeHeight⟩ := by
    intro _ z _
    refine Or.inl fun h _ hplace => ?_
    cases hplace
  have hholes := @along_flatMap _ _ (RapidSafe holes) [⟨true, (none, none), some job.safeHeight⟩]
    (holeEvents job) [] holes
  rw [List.flatMap_nil, List.append_nil] at hholes
  rw [along_cons, List.nil_append, hholes, and_iff_right hfirst]
  refine along_congr fun front h _ => ?_
  rw [along_holeEvents hsafe, OpenedBefore]
  refine or_congr_right ⟨?_, ?_⟩
  · rintro ⟨fed, hfed, hfeed, hplace, z, hz, hle⟩
    rcases List.mem_append.1 hfed with hfed | hfed
    · rw [List.mem_singleton.1 hfed] at hfeed
      cases hfeed
    · obtain ⟨g, hg, hmem⟩ := List.mem_flatMap.1 hfed
      obtain ⟨z', hz', rfl⟩ := mem_holeEvents_fed.1 ⟨hmem, hfeed⟩
      obtain rfl : z' = z := Option.some.inj hz
      exact ⟨g, hg, at_inj.1 hplace, z', hz', hle⟩
  · rintro ⟨g, hg, hcentre, z, hz, hle⟩
    obtain ⟨hmem, hfeed⟩ := mem_holeEvents_fed.2 ⟨z, hz, rfl⟩
    exact ⟨_, List.mem_append_right _ (List.mem_flatMap.2 ⟨g, hg, hmem⟩), hfeed, at_inj.2 hcentre, z, rfl, hle⟩

end

/-! ## The whole program -/

/-- **A program for a drill as it should be**: it is the same in every order of the faces, rapid moves in
the plane are at the safe height, holes are drilled down to their bottoms, and no rapid move enters what
has not been drilled. -/
structure Drilled (u : K) (w : Work K) : Prop where
  same : ∀ faces', faces'.Perm w.faces → drilling w.job faces' = drilling w.job w.faces
  planar : ∀ p, drilling w.job w.faces = some p → ∀ motion ∈ (p.now u).motions, PlanarSafe w.job motion
  fed : ∀ p, drilling w.job w.faces = some p →
    List.Forall₂ (fun hole passes => ∃ zs, FedDown w.job hole zs ∧ passes = zs.map (passAt hole))
      (holesOf w.job.tolerance w.faces) ((p.now u).history.map List.reverse).reverse
  rapids : ∀ p, drilling w.job w.faces = some p →
    Along (RapidSafe (holesOf w.job.tolerance w.faces)) [] ((p.now u).motions.map eventOf)

/-- The faces of a hole are at one place, holes at one place lie between the same heights, and no depth is
one that is overlooked. -/
structure Separate (w : Work K) : Prop where
  oneCentre : OneCentre w.job.tolerance w.faces
  alike : ∀ f ∈ w.faces, ∀ g ∈ w.faces, f.centre = g.centre →
    topOf w.job.tolerance w.faces f = topOf w.job.tolerance w.faces g ∧
      bottomOf w.job.tolerance w.faces f = bottomOf w.job.tolerance w.faces g
  depths : ∀ f ∈ w.faces, DepthTold w.job (boreOf w.job.tolerance w.faces f)

section

variable [IsStrictOrderedRing K] {w : Work K}

theorem bottomOf_le_topOf {tolerance : K} {faces : List (Face K)} {f : Face K} (hf : f ∈ faces) :
    bottomOf tolerance faces f ≤ topOf tolerance faces f := by
  have hself : f ∈ partsOf tolerance faces f := mem_partsOf.2 ⟨hf, rfl⟩
  exact ((isLeast_bottomOf tolerance hf).2 ⟨f, hself, rfl⟩).trans
    (f.bottom_le.trans ((isGreatest_topOf tolerance hf).2 ⟨f, hself, rfl⟩))

theorem topOf_le_safeHeight {f : Face K} (hf : f ∈ w.faces) :
    topOf w.job.tolerance w.faces f ≤ w.job.safeHeight := by
  obtain ⟨g, hg, htop⟩ := (isGreatest_topOf w.job.tolerance hf).1
  rw [← htop]
  exact (w.le_top g (mem_partsOf.1 hg).1).trans (le_add_of_nonneg_right w.clearance_nonneg)

theorem top_le_safeHeight {h : Hole K} (hh : h ∈ holesOf w.job.tolerance w.faces) : h.top ≤ w.job.safeHeight := by
  obtain ⟨f, hf, hmade⟩ := madeOf_of_mem hh
  rw [hmade.top]
  exact topOf_le_safeHeight hf

theorem bottom_le_top {h : Hole K} (hh : h ∈ holesOf w.job.tolerance w.faces) : h.bottom ≤ h.top := by
  obtain ⟨f, hf, hmade⟩ := madeOf_of_mem hh
  rw [hmade.top, hmade.bottom]
  exact bottomOf_le_topOf hf

/-- Before the first hole the tool goes up to the safe height, wherever it is. -/
theorem goes_started (u : K) (job : DrillJob K) : ∃ p : Program K, (p.now u).motions = [] ∧
    (p.now u).history = [] ∧ Goes u job p (started job) [⟨true, (none, none), some job.safeHeight⟩] ∧
      Ready u job (started job) ∧ ((started job).now u).history = [] := by
  let start : Program K := startProgram job.inches job.comments
  let begun : Program K := if job.spindle then start.code .on else start
  have hstart : start.now u = _ := now_startProgram u job.inches job.comments
  have hunits : InUnits u start := inUnits_startProgram u job.inches job.comments
  have hbegun : InUnits u begun ∧ (begun.now u).machine.place = (none, none) ∧ (begun.now u).history = [] ∧
      (begun.now u).motions = [] := by
    cases hspindle : job.spindle with
    | false =>
      have heq : begun = start := if_neg (by rw [hspindle]; exact Bool.false_ne_true)
      rw [heq, hstart]
      exact ⟨hunits, rfl, rfl, rfl⟩
    | true =>
      have heq : begun = start.code .on := if_pos hspindle
      have hon := @now_code _ _ u start .on
      rw [heq, hon, hstart]
      exact ⟨inUnits_of_now hunits rfl (congrArg (fun s => s.machine.perUnit) hon), rfl, rfl, rfl⟩
  obtain ⟨hunits, hplace, hhistory, hmotions⟩ := hbegun
  have hup := goes_rapidZ job hunits job.safeHeight
  rw [hplace] at hup
  exact ⟨begun, hmotions, hhistory, hup, ready_rapidZ hunits,
    (congrArg (fun s => s.history) (now_rapidZ hunits job.safeHeight)).trans hhistory⟩

/-- What ends a program moves nothing. -/
theorem now_finished (u : K) (job : DrillJob K) (p : Program K) :
    ((finished job p).now u).motions = (p.now u).motions ∧ ((finished job p).now u).history = (p.now u).history := by
  unfold finished
  rw [now_code]
  split
  · have hoff := @now_code _ _ u p .off
    rw [hoff]
    exact ⟨rfl, rfl⟩
  · exact ⟨rfl, rfl⟩

/-- **The moves of a program for a drill.** -/
theorem run_drilling (u : K) {p : Program K} (hp : drilling w.job w.faces = some p) :
    (p.now u).motions.map eventOf = ⟨true, (none, none), some w.job.safeHeight⟩ ::
        (holesOf w.job.tolerance w.faces).flatMap (holeEvents w.job) ∧
      ((p.now u).history.map List.reverse).reverse =
        (holesOf w.job.tolerance w.faces).map (fun hole => (w.job.steps hole).map (passAt hole)) ∧
      ∀ motion ∈ (p.now u).motions, PlanarSafe w.job motion := by
  have hholes : holesOf w.job.tolerance w.faces ≠ [] := by
    intro hnil
    rw [drilling_of_nil hnil] at hp
    cases hp
  obtain ⟨start, hnone, -, hup, hready, hhistory⟩ := goes_started u w.job
  obtain ⟨hall, hpasses⟩ := goes_drillHoles (holesOf w.job.tolerance w.faces) hready
  obtain ⟨more, hmore, hevents, hsafe⟩ := (hup.trans hall).motions
  rw [hnone, List.nil_append] at hmore
  rw [drilling_of_ne hholes] at hp
  obtain rfl := Option.some.inj hp
  obtain ⟨hmotions, hlast⟩ := now_finished u w.job ((holesOf w.job.tolerance w.faces).foldl (drillHole w.job) (started w.job))
  rw [hmotions, hlast, hmore, hpasses, hhistory, List.append_nil]
  refine ⟨hevents, ?_, hsafe⟩
  rw [List.map_reverse, List.reverse_reverse, List.map_map]
  simp only [Function.comp_def, List.reverse_reverse]

/-- Each hole is drilled down to its bottom when no depth is overlooked. -/
theorem fed_iff (u : K) {p : Program K} (hp : drilling w.job w.faces = some p) :
    List.Forall₂ (fun hole passes => ∃ zs, FedDown w.job hole zs ∧ passes = zs.map (passAt hole))
        (holesOf w.job.tolerance w.faces) ((p.now u).history.map List.reverse).reverse ↔
      ∀ hole ∈ holesOf w.job.tolerance w.faces, DepthTold w.job hole := by
  have hinj : ∀ hole : Hole K, Function.Injective (passAt hole) := by
    intro hole z z' h
    exact Option.some.inj (congrArg Pass.z h)
  rw [(run_drilling u hp).2.1, List.forall₂_map_right_iff, List.forall₂_same]
  refine forall₂_congr fun hole hhole => ?_
  rw [← fedDown_steps_iff (bottom_le_top hhole)]
  constructor
  · rintro ⟨zs, hzs, heq⟩
    rwa [List.map_injective_iff.2 (hinj hole) heq]
  · exact fun h => ⟨_, h, rfl⟩

/-- **When no rapid move of a program enters what has not been drilled.** -/
theorem rapids_iff (u : K) {p : Program K} (hp : drilling w.job w.faces = some p) :
    Along (RapidSafe (holesOf w.job.tolerance w.faces)) [] ((p.now u).motions.map eventOf) ↔
      Along (OpenedBefore w.job (holesOf w.job.tolerance w.faces)) [] (holesOf w.job.tolerance w.faces) := by
  rw [(run_drilling u hp).1]
  exact rapidsSafe_iff fun h hh => top_le_safeHeight hh

/-- Holes at one place lie between the same heights. -/
theorem cutsOf_boreOf {f g : Face K} (halike : topOf w.job.tolerance w.faces f = topOf w.job.tolerance w.faces g ∧
    bottomOf w.job.tolerance w.faces f = bottomOf w.job.tolerance w.faces g) (hcentre : f.centre = g.centre) :
    cutsOf w.job (boreOf w.job.tolerance w.faces f) = cutsOf w.job (boreOf w.job.tolerance w.faces g) :=
  cutsOf_congr hcentre halike.1 halike.2

/-- Where a hole that is drilled down to its bottom ends, its steps tell. -/
theorem bottom_of_steps {h h' : Hole K} (hle : h.bottom ≤ h.top) (hle' : h'.bottom ≤ h'.top)
    (htold : DepthTold w.job h) (htold' : DepthTold w.job h') (hsteps : w.job.steps h = w.job.steps h') :
    h.bottom = h'.bottom := by
  have hlast := ((fedDown_steps_iff hle).2 htold).bottom
  rw [hsteps, ((fedDown_steps_iff hle').2 htold').bottom] at hlast
  exact (Option.some.inj hlast).symm

theorem depthTold_congr {h h' : Hole K} (htop : h.top = h'.top) (hbottom : h.bottom = h'.bottom) :
    DepthTold w.job h ↔ DepthTold w.job h' := by
  unfold DepthTold
  rw [htop, hbottom]

/-- The depths of the holes are those that their faces tell. -/
theorem depthTold_holes_iff : (∀ hole ∈ holesOf w.job.tolerance w.faces, DepthTold w.job hole) ↔
    ∀ f ∈ w.faces, DepthTold w.job (boreOf w.job.tolerance w.faces f) := by
  constructor
  · intro h f hf
    obtain ⟨hole, hget, hmade⟩ := get?_gatheredHoles w.job.tolerance hf
    exact (depthTold_congr hmade.top hmade.bottom).1 (h hole (mem_holesOf.2 ⟨f, hf, hget⟩))
  · intro h hole hhole
    obtain ⟨f, hf, hmade⟩ := madeOf_of_mem hhole
    exact (depthTold_congr hmade.top hmade.bottom).2 (h f hf)

/-- Where holes at one centre are of one height, each is as high as the highest. -/
theorem openedBefore_of_separate (h : Separate w) :
    Along (OpenedBefore w.job (holesOf w.job.tolerance w.faces)) [] (holesOf w.job.tolerance w.faces) := by
  rintro before hole after hholes
  refine Or.inl fun g hg hcentre => ?_
  have hhole : hole ∈ holesOf w.job.tolerance w.faces := hholes ▸ by simp
  obtain ⟨f, hf, hmade⟩ := madeOf_of_mem hhole
  obtain ⟨f', hf', hmade'⟩ := madeOf_of_mem hg
  have hplace := congrArg Prod.fst (cutsOf_of_madeOf w.job h.oneCentre hf hmade)
  have hplace' := congrArg Prod.fst (cutsOf_of_madeOf w.job h.oneCentre hf' hmade')
  have htop := (h.alike f' hf' f hf (hplace'.symm.trans (hcentre.trans hplace))).1
  rw [hmade.top, hmade'.top, htop]

/-- **A program for a drill is as it should be** exactly when the faces of a hole are at one place, holes at
one place lie between the same heights, and no depth is one that is overlooked. -/
theorem drilled_iff (u : K) (w : Work K) : Drilled u w ↔ Separate w := by
  constructor
  · intro h
    obtain ⟨hone, halike⟩ := drilling_perm_iff.1 h.same
    have hdepths : ∀ f ∈ w.faces, DepthTold w.job (boreOf w.job.tolerance w.faces f) := by
      refine depthTold_holes_iff.1 fun hole hhole => ?_
      have hp := drilling_of_ne (List.ne_nil_of_mem hhole)
      exact (fed_iff u hp).1 (h.fed _ hp) hole hhole
    refine ⟨hone, fun f hf g hg hcentre => ?_, hdepths⟩
    obtain ⟨-, hcuts⟩ := Prod.mk.inj (halike f hf g hg hcentre)
    obtain ⟨htop, hsteps⟩ := Prod.mk.inj hcuts
    exact ⟨htop, bottom_of_steps (bottomOf_le_topOf hf) (bottomOf_le_topOf hg) (hdepths f hf) (hdepths g hg) hsteps⟩
  · intro h
    refine ⟨?_, ?_, ?_, ?_⟩
    · exact drilling_perm_iff.2 ⟨h.oneCentre, fun f hf g hg hcentre =>
        cutsOf_boreOf (h.alike f hf g hg hcentre) hcentre⟩
    · exact fun p hp => (run_drilling u hp).2.2
    · exact fun p hp => (fed_iff u hp).2 (depthTold_holes_iff.2 h.depths)
    · exact fun p hp => (rapids_iff u hp).2 (openedBefore_of_separate h)

end

/-! ## Two bores -/

/-- A bore of radius 3 up to the height 5, and one that is like it at another place. -/
def bore : Face ℚ := ⟨0, 0, 3, 5, 0, by norm_num⟩

def boreAside : Face ℚ := ⟨20, 0, 3, 5, 0, by norm_num⟩

def twoBores : Work ℚ where
  job := ⟨false, 2, true, 1 / 100, 80, none, 10, 5⟩
  faces := [bore, boreAside]
  le_top := by
    intro f hf
    simp only [List.mem_cons, List.not_mem_nil, or_false] at hf
    rcases hf with rfl | rfl <;> norm_num [bore, boreAside]
  clearance_nonneg := by norm_num

theorem drilled_twoBores : Drilled 1 twoBores := by
  have hfaces : ∀ f ∈ twoBores.faces, f = bore ∨ f = boreAside := fun f hf => by
    simpa [twoBores] using hf
  have hcentre : bore.centre ≠ boreAside.centre := by
    norm_num [Face.centre, bore, boreAside]
  have hkey : bore.key twoBores.job.tolerance ≠ boreAside.key twoBores.job.tolerance := by
    decide +kernel
  refine (drilled_iff 1 twoBores).2 ⟨?_, ?_, ?_⟩
  · intro f hf g hg hsame
    rcases hfaces f hf with rfl | rfl <;> rcases hfaces g hg with rfl | rfl
    · rfl
    · exact absurd hsame hkey
    · exact absurd hsame.symm hkey
    · rfl
  · intro f hf g hg hsame
    rcases hfaces f hf with rfl | rfl <;> rcases hfaces g hg with rfl | rfl
    · exact ⟨rfl, rfl⟩
    · exact absurd hsame hcentre
    · exact absurd hsame.symm hcentre
    · exact ⟨rfl, rfl⟩
  · intro f _ step hpeck
    cases hpeck

/-! ## A stepped bore -/

/-- A bore of radius 5 above the first one. -/
def counterbore : Face ℚ := ⟨0, 0, 5, 10, 5, by norm_num⟩

def steppedBore : Work ℚ where
  job := ⟨false, 2, true, 1 / 100, 80, none, 10, 5⟩
  faces := [bore, counterbore]
  le_top := by
    intro f hf
    simp only [List.mem_cons, List.not_mem_nil, or_false] at hf
    rcases hf with rfl | rfl <;> norm_num [bore, counterbore]
  clearance_nonneg := by norm_num

theorem holesOf_steppedBore : holesOf (1 / 100) [bore, counterbore] = [bore.hole, counterbore.hole] := by
  have hkey : bore.key (1 / 100) = (0, 0, 300) := by decide +kernel
  have hkey' : counterbore.key (1 / 100) = (0, 0, 500) := by decide +kernel
  have hitems : (gatheredHoles (1 / 100) [bore, counterbore]).items =
      [((0, 0, 300), bore.hole), ((0, 0, 500), counterbore.hole)] := by
    simp only [gatheredHoles, Dict.gathered, List.foldl_cons, List.foldl_nil, Dict.gatherStep, hkey, hkey']
    rfl
  rw [holesOf, hitems]
  refine List.mergeSort_of_pairwise (List.pairwise_pair.2 ?_)
  exact decide_eq_true le_rfl

/-- **The bore is drilled first**: the tool goes to its top through the material above it. -/
theorem not_drilled_steppedBore : ¬ Drilled 1 steppedBore := by
  intro h
  have hne : holesOf steppedBore.job.tolerance steppedBore.faces ≠ [] := by
    intro hnil
    have hholes := holesOf_steppedBore.symm.trans hnil
    cases hholes
  have hp := drilling_of_ne hne
  have hfirst := (rapids_iff 1 hp).1 (h.rapids _ hp) [] bore.hole [counterbore.hole] holesOf_steppedBore
  rcases hfirst with htop | ⟨g, hg, -⟩
  · have hlow := htop counterbore.hole (holesOf_steppedBore ▸ by simp) rfl
    norm_num [bore, counterbore, Face.hole] at hlow
  · cases hg

end PartCAD.Gcode
