import Mathlib.Order.Defs.LinearOrder
import PartCAD.Assembly.MappedPorts
import PartCAD.Ports.Governing
import PartCAD.Ports.Inherited

/-!
# Resolving how two items are connected

The instructions of a connection are resolved against the two items and their interfaces, as often as
that is asked for.

* `How.resolve` : one call;
* `resolve_eq` : what it gives depends on the calls before by the thread step only;
* `settles_iff` : **when the last call alone decides**, and the hold forces are ranges.
-/

namespace PartCAD.Connect

open PartCAD.Lib PartCAD.Ports PartCAD.Ports.Lineage

variable {ι F G : Type}

/-! ## Numbers -/

/-- A float, which may be no number. -/
inductive PyNumber (G : Type) where
  | nan
  | real (x : G)
  deriving DecidableEq

section

variable [LinearOrder G]

/-- `x < y` -/
def PyNumber.lt : PyNumber G → PyNumber G → Bool
  | .real x, .real y => x < y
  | _, _ => false

/-- `x <= y` -/
def PyNumber.le : PyNumber G → PyNumber G → Bool
  | .real x, .real y => x ≤ y
  | _, _ => false

/-- `_as_number`, where the value is one of a configuration. -/
def asNumber [Zero G] : Stated (PyNumber G) → Option (PyNumber G)
  | .absent => none
  | .number x => if x.lt (.real 0) then none else some x
  | .other => none

/-- `_first_number(candidates, default)` -/
def firstNumber [Zero G] (candidates : List (Stated (PyNumber G))) (default : PyNumber G) :
    PyNumber G × Bool :=
  match candidates.findSome? asNumber with
  | some x => (x, true)
  | none => (default, false)

end

/-! ## Holds -/

/-- An interface, and the instance of it, to hold an item by. -/
structure ConnectHold where
  interface : Str
  instanceName : Option Str
  deriving DecidableEq

/-- What a part or an assembly says about holding it, and the instances of its interfaces. -/
structure Held (G : Type) where
  projectName : Option Str
  hold : List Str
  holdInstance : List Str
  holdForce : Stated (PyNumber G)
  holdForceMin : Stated (PyNumber G)
  holdForceMax : Stated (PyNumber G)
  interfaces : Dict Str (List Str)

/-- No item, or one that says nothing. -/
def Held.nothing : Held G where
  projectName := none
  hold := []
  holdInstance := []
  holdForce := .absent
  holdForceMin := .absent
  holdForceMax := .absent
  interfaces := Dict.empty

/-- `_same_interface(one, other)` -/
def sameInterface (one other : Str) : Bool :=
  one = other ∨ Mapped.shortInterfaceName one = Mapped.shortInterfaceName other

/-- `_HoldDefaults(item).instance_for(interface)` -/
def Held.instanceFor (item : Held G) (interface : Str) : Option Str :=
  let byInterface := Dict.ofPairs (item.hold.zip item.holdInstance)
  match byInterface.items.find? fun p => sameInterface p.1 interface with
  | some p => some p.2
  | none => if item.hold.isEmpty then item.holdInstance.head? else none

/-- `_match_interface(interface, available, item)` -/
def Held.matchInterface (item : Held G) (interface : Str) : Option Str :=
  let available := item.interfaces.keys
  if interface ∈ available then some interface
  else
    let qualified := item.projectName.map (· ++ ':' :: interface)
    match qualified.filter (· ∈ available) with
    | some name => some name
    | none =>
      match available.filter (sameInterface · interface) with
      | [name] => some name
      | _ => none

/-- `_resolve_instance` -/
def Held.resolveInstance (item : Held G) (interface : Str) (requested : Option Str) : Option Str :=
  let instances := (item.interfaces.get? interface).getD []
  let usable := fun name => instances.isEmpty || instances.contains name
  match requested.filter usable with
  | some name => some name
  | none =>
    match (item.instanceFor interface).filter usable with
    | some name => some name
    | none => instances.head?

/-- `_resolve_holds` -/
def Held.resolveHolds (item : Held G) (interfacesSpec instancesSpec : List Str) : List ConnectHold :=
  let interfaces := if interfacesSpec.isEmpty then item.hold else interfacesSpec
  interfaces.mapIdx fun index interface =>
    let resolved := (item.matchInterface interface).getD interface
    ⟨resolved, item.resolveInstance resolved instancesSpec[index]?⟩

/-! ## The instructions -/

/-- What the section says about holding one end. -/
structure HoldSpec (G : Type) where
  interfaces : List Str
  instances : List Str
  forceMin : Stated (PyNumber G)
  forceMax : Stated (PyNumber G)
  force : Stated (PyNumber G)

/-- The `how` section.  A flag is `none` unless it is a boolean. -/
structure HowSpec (F G : Type) where
  snapIn : Option Bool
  selfScrew : Option Bool
  threadStep : Stated F
  holdWith : HoldSpec G
  holdTo : HoldSpec G

/-- `DEFAULT_HOLD_FORCE_MIN` and `DEFAULT_HOLD_FORCE_MAX`, 3 and 7 N. -/
structure ForceDefaults (G : Type) [LE G] where
  min : G
  max : G
  le : min ≤ max

/-- How one end is held. -/
structure Hold (G : Type) where
  holds : List ConnectHold
  forceMin : PyNumber G
  forceMax : PyNumber G
  deriving DecidableEq

/-- The instructions by now. -/
structure How (F G : Type) where
  how : ConnectHow F
  holdWith : Hold G
  holdTo : Hold G
  holdForceSpecified : Bool

/-- What a call is made with: the two items and the two interfaces, the matings there are, and the orders
in which they are searched. -/
structure Call (ι F G : Type) where
  sourceItem : Option (Held G)
  targetItem : Option (Held G)
  source : Option (ConnectEnd F)
  target : Option (ConnectEnd F)
  mates : Mates ι F
  threadOrder : SearchOrder
  snapOrder : SearchOrder

section

variable [LinearOrder F] [Zero F] [LinearOrder G]

/-- `ConnectHow(config)` -/
def How.fresh (defaults : ForceDefaults G) (spec : HowSpec F G) : How F G where
  how :=
    { snapIn := spec.snapIn.getD false
      snapInSpecified := spec.snapIn.isSome
      selfScrew := spec.selfScrew.getD false
      selfScrewSpecified := spec.selfScrew.isSome
      threadStep := (threadStepOf spec.threadStep).getD 0
      threadStepSpecified := (threadStepOf spec.threadStep).isSome
      problems := [] }
  holdWith := ⟨[], .real defaults.min, .real defaults.max⟩
  holdTo := ⟨[], .real defaults.min, .real defaults.max⟩
  holdForceSpecified := false

/-- The lower bound that is given for a force, and whether there is one. -/
def HoldSpec.minimum [Zero G] (defaults : ForceDefaults G) (spec : HoldSpec G) (item : Held G) :
    PyNumber G × Bool :=
  firstNumber [spec.forceMin, spec.force, item.holdForceMin, item.holdForce] (.real defaults.min)

/-- The upper bound. -/
def HoldSpec.maximum [Zero G] (defaults : ForceDefaults G) (spec : HoldSpec G) (item : Held G) :
    PyNumber G × Bool :=
  firstNumber [spec.forceMax, spec.force, item.holdForceMax, item.holdForce] (.real defaults.max)

/-- `_hold_force(side, item)`: the range, whether it was specified, and what is wrong with it. -/
def holdForce [Zero G] (text : PyNumber G → Str) (defaults : ForceDefaults G) (side : Str)
    (spec : HoldSpec G) (item : Held G) : (PyNumber G × PyNumber G) × Bool × List Str :=
  let minimum := spec.minimum defaults item
  let maximum := spec.maximum defaults item
  if maximum.1.lt minimum.1 then
    ((.real defaults.min, .real defaults.max), false,
      ["'".toList ++ side ++ "ForceMin' is above '".toList ++ side ++ "ForceMax' (".toList ++
        text minimum.1 ++ " > ".toList ++ text maximum.1 ++ "), using the defaults".toList])
  else ((minimum.1, maximum.1), minimum.2 || maximum.2, [])

variable [PyFloat F] [BEq F] [Zero G] (text : PyNumber G → Str) (defaults : ForceDefaults G)

/-- `resolve(...)` -/
def How.resolve (spec : HowSpec F G) (st : How F G) (call : Call ι F G) : How F G :=
  let how := st.how.resolve call.mates call.source call.target call.threadOrder call.snapOrder
  let sourceItem := call.sourceItem.getD .nothing
  let targetItem := call.targetItem.getD .nothing
  let withForce := holdForce text defaults "holdWith".toList spec.holdWith sourceItem
  let toForce := holdForce text defaults "holdTo".toList spec.holdTo targetItem
  { how := { how with problems := how.problems ++ withForce.2.2 ++ toForce.2.2 }
    holdWith := ⟨sourceItem.resolveHolds spec.holdWith.interfaces spec.holdWith.instances,
      withForce.1.1, withForce.1.2⟩
    holdTo := ⟨targetItem.resolveHolds spec.holdTo.interfaces spec.holdTo.instances,
      toForce.1.1, toForce.1.2⟩
    holdForceSpecified := withForce.2.1 || toForce.2.1 }

end

/-! ## The thread step of a call -/

section

variable [PyFloat F] [BEq F]

/-- Whether the joint cuts its own thread, as far as the interfaces and their mating say. -/
def Call.cutsItsOwn (call : Call ι F G) : Bool :=
  (sides call.source call.target).any (·.2.selfScrew) ||
    ((matingBetween call.mates call.threadOrder.sourceNames call.threadOrder.targetNames).map
      Mating.selfScrew).getD false

/-- The thread steps of the interfaces, with their sides. -/
def Call.declared (call : Call ι F G) : List (Str × F) :=
  (sides call.source call.target).filterMap fun p => p.2.threadStep.map (p.1, ·)

/-- The interfaces disagree about the thread, and nothing cuts its own. -/
def Call.Disagrees (call : Call ι F G) (selfScrew : Option Bool) : Prop :=
  (call.declared.map Prod.snd).eraseDups.length > 1 ∧ ¬ selfScrew.getD call.cutsItsOwn

instance (call : Call ι F G) (selfScrew : Option Bool) : Decidable (call.Disagrees selfScrew) := by
  unfold Call.Disagrees
  infer_instance

/-- The thread step that the interfaces bring: that of the end that has to match one, or else of the end
that cuts its own. -/
def Call.candidate (call : Call ι F G) : Option F :=
  let ends := sides call.source call.target
  let matched := ends.filterMap fun p => if p.2.selfScrew then none else p.2.threadStep
  let brought := ends.filterMap fun p => p.2.threadStep
  (if matched.isEmpty then brought else matched).head?

/-- The thread step that a call sets, if it does. -/
def Call.sets [LinearOrder F] [Zero F] (call : Call ι F G) (spec : HowSpec F G) : Option F :=
  if call.Disagrees spec.selfScrew ∨ (threadStepOf spec.threadStep).isSome then none
  else call.candidate

/-- The thread step that is left by some calls: what the last of those that set it has set. -/
def leftover [LinearOrder F] [Zero F] (spec : HowSpec F G) (calls : List (Call ι F G)) : F :=
  ((calls.filterMap fun call => call.sets spec).getLast?).getD ((threadStepOf spec.threadStep).getD 0)

/-- The rest of `_resolve_thread_step`, once it is known whether the joint cuts its own thread. -/
def Call.settleThread (call : Call ι F G) (how : ConnectHow F) : ConnectHow F :=
  if (call.declared.map Prod.snd).eraseDups.length > 1 ∧ ¬ how.selfScrew then
    how.problem (disagreement call.declared)
  else if how.threadStepSpecified then how
  else
    match call.candidate with
    | none => how
    | some step => { how with threadStep := step }

theorem resolveThreadStep_eq (how : ConnectHow F) (call : Call ι F G) :
    how.resolveThreadStep call.source call.target
        (matingBetween call.mates call.threadOrder.sourceNames call.threadOrder.targetNames) =
      call.settleThread
        (if how.selfScrewSpecified then how else { how with selfScrew := call.cutsItsOwn }) := by
  unfold ConnectHow.resolveThreadStep Call.settleThread Call.candidate
  dsimp only
  refine if_congr Iff.rfl rfl (if_congr Iff.rfl rfl ?_)
  split
  · rename_i hnil
    rw [hnil]
    rfl
  · rename_i first rest hcons
    rw [hcons]
    rfl

/-- What a section states is in the instructions. -/
structure States (how : ConnectHow F) (snapIn selfScrew : Option Bool) (threadStep : Bool) : Prop where
  snapInSpecified : how.snapInSpecified = snapIn.isSome
  snapIn : ∀ b, snapIn = some b → how.snapIn = b
  selfScrewSpecified : how.selfScrewSpecified = selfScrew.isSome
  selfScrew : ∀ b, selfScrew = some b → how.selfScrew = b
  threadStep : how.threadStepSpecified = threadStep

/-- What `resolve` makes of the instructions that look at the interfaces. -/
theorem resolve_connectHow {how : ConnectHow F} {snapIn selfScrew : Option Bool} {threadStep : Bool}
    (hstates : States how snapIn selfScrew threadStep) (call : Call ι F G) :
    how.resolve call.mates call.source call.target call.threadOrder call.snapOrder =
      { snapIn := snapIn.getD
          (((matingBetween call.mates call.snapOrder.sourceNames call.snapOrder.targetNames).map
            Mating.snapIn).getD false)
        snapInSpecified := snapIn.isSome
        selfScrew := selfScrew.getD call.cutsItsOwn
        selfScrewSpecified := selfScrew.isSome
        threadStep :=
          (if call.Disagrees selfScrew ∨ threadStep = true then none else call.candidate).getD
            how.threadStep
        threadStepSpecified := threadStep
        problems := if call.Disagrees selfScrew then [disagreement call.declared] else [] } := by
  obtain ⟨snap, snapSpecified, cuts, cutsSpecified, step, stepSpecified, problems⟩ := how
  obtain ⟨rfl, hsnap, rfl, hcuts, rfl⟩ := hstates
  dsimp only at hsnap hcuts
  -- whether the joint cuts its own thread
  have hself : (if selfScrew.isSome then
        (⟨snap, snapIn.isSome, cuts, selfScrew.isSome, step, stepSpecified, []⟩ : ConnectHow F)
      else ⟨snap, snapIn.isSome, call.cutsItsOwn, selfScrew.isSome, step, stepSpecified, []⟩) =
      ⟨snap, snapIn.isSome, selfScrew.getD call.cutsItsOwn, selfScrew.isSome, step, stepSpecified, []⟩ := by
    cases selfScrew with
    | none => rfl
    | some b =>
      rw [hcuts b rfl]
      rfl
  have hthread : ConnectHow.resolveThreadStep
      ⟨snap, snapIn.isSome, cuts, selfScrew.isSome, step, stepSpecified, []⟩ call.source call.target
        (matingBetween call.mates call.threadOrder.sourceNames call.threadOrder.targetNames) =
      ⟨snap, snapIn.isSome, selfScrew.getD call.cutsItsOwn, selfScrew.isSome,
        (if call.Disagrees selfScrew ∨ stepSpecified = true then none else call.candidate).getD step,
        stepSpecified, if call.Disagrees selfScrew then [disagreement call.declared] else []⟩ := by
    rw [resolveThreadStep_eq]
    dsimp only
    rw [hself, Call.settleThread]
    by_cases hdisagrees : call.Disagrees selfScrew
    · rw [if_pos hdisagrees, if_pos (Or.inl hdisagrees)]
      exact if_pos hdisagrees
    · rw [if_neg hdisagrees]
      refine (if_neg hdisagrees).trans ?_
      cases stepSpecified with
      | true =>
        rw [if_pos (Or.inr rfl)]
        rfl
      | false =>
        rw [if_neg (by simp [hdisagrees] : ¬ (call.Disagrees selfScrew ∨ false = true))]
        refine (if_neg Bool.false_ne_true).trans ?_
        cases call.candidate <;> rfl
  rw [ConnectHow.resolve, hthread, ConnectHow.resolveSnapIn]
  cases snapIn with
  | none => rfl
  | some b =>
    rw [hsnap b rfl]
    rfl

theorem States.resolve {how : ConnectHow F} {snapIn selfScrew : Option Bool} {threadStep : Bool}
    (hstates : States how snapIn selfScrew threadStep) (call : Call ι F G) :
    States (how.resolve call.mates call.source call.target call.threadOrder call.snapOrder)
      snapIn selfScrew threadStep := by
  rw [resolve_connectHow hstates]
  refine ⟨rfl, fun b hb => ?_, rfl, fun b hb => ?_, rfl⟩
  · rw [hb]
    rfl
  · rw [hb]
    rfl

end

/-! ## Hold forces -/

section

variable [LinearOrder G]

omit [LinearOrder G] in
/-- The number is one. -/
def PyNumber.IsNumber : PyNumber G → Prop
  | .nan => False
  | .real _ => True

/-- Numbers are ordered one way or the other, and what is none is not. -/
theorem PyNumber.le_iff {x y : PyNumber G} (h : y.lt x = false) :
    x.le y = true ↔ x.IsNumber ∧ y.IsNumber := by
  cases x with
  | nan => exact iff_of_false (fun h => by cases h) fun h => h.1
  | real x =>
    cases y with
    | nan => exact iff_of_false (fun h => by cases h) fun h => h.2
    | real y =>
      refine iff_of_true (decide_eq_true ?_) ⟨trivial, trivial⟩
      exact not_lt.1 (of_decide_eq_false h)

theorem PyNumber.isNumber_of_lt {x y : PyNumber G} (h : x.lt y = true) : x.IsNumber ∧ y.IsNumber := by
  cases x with
  | nan => cases h
  | real x =>
    cases y with
    | nan => cases h
    | real y => exact ⟨trivial, trivial⟩

/-- **A hold force is a range** just when both its bounds are numbers. -/
theorem holdForce_iff [Zero G] (text : PyNumber G → Str) (defaults : ForceDefaults G) (side : Str)
    (spec : HoldSpec G) (item : Held G) :
    (holdForce text defaults side spec item).1.1.le (holdForce text defaults side spec item).1.2 = true ↔
      (spec.minimum defaults item).1.IsNumber ∧ (spec.maximum defaults item).1.IsNumber := by
  unfold holdForce
  dsimp only
  split
  · rename_i hlt
    obtain ⟨hmax, hmin⟩ := PyNumber.isNumber_of_lt hlt
    exact iff_of_true (decide_eq_true defaults.le) ⟨hmin, hmax⟩
  · rename_i hlt
    exact PyNumber.le_iff (Bool.eq_false_iff.2 hlt)

end

/-! ## Any calls, and a last one -/

section

variable [LinearOrder F] [Zero F] [LinearOrder G] [Zero G] [PyFloat F] [BEq F]
  (text : PyNumber G → Str) (defaults : ForceDefaults G)

/-- The instructions after some calls. -/
def How.after (spec : HowSpec F G) (calls : List (Call ι F G)) : How F G :=
  calls.foldl (How.resolve text defaults spec) (How.fresh defaults spec)

/-- After some calls and a last one, everything is as after the last call alone, and the forces are
ranges. -/
structure Alone (spec : HowSpec F G) (calls : List (Call ι F G)) (call : Call ι F G) : Prop where
  same : How.after text defaults spec (calls ++ [call]) = How.after text defaults spec [call]
  withRange : (How.after text defaults spec (calls ++ [call])).holdWith.forceMin.le
    (How.after text defaults spec (calls ++ [call])).holdWith.forceMax = true
  toRange : (How.after text defaults spec (calls ++ [call])).holdTo.forceMin.le
    (How.after text defaults spec (calls ++ [call])).holdTo.forceMax = true

/-- The last call sets the thread step, or the calls before have left that of the section; and the bounds
given for the forces are numbers. -/
structure Settles (spec : HowSpec F G) (calls : List (Call ι F G)) (call : Call ι F G) : Prop where
  threadStep : (call.sets spec).isSome ∨ leftover spec calls = (threadStepOf spec.threadStep).getD 0
  withMin : (spec.holdWith.minimum defaults (call.sourceItem.getD .nothing)).1.IsNumber
  withMax : (spec.holdWith.maximum defaults (call.sourceItem.getD .nothing)).1.IsNumber
  toMin : (spec.holdTo.minimum defaults (call.targetItem.getD .nothing)).1.IsNumber
  toMax : (spec.holdTo.maximum defaults (call.targetItem.getD .nothing)).1.IsNumber

variable {text defaults} {spec : HowSpec F G}

/-- The instructions have what the section states. -/
def Stands (spec : HowSpec F G) (st : How F G) : Prop :=
  States st.how spec.snapIn spec.selfScrew (threadStepOf spec.threadStep).isSome

omit [PyFloat F] [BEq F] [Zero G] in
theorem stands_fresh : Stands spec (How.fresh defaults spec) := by
  refine ⟨rfl, fun b hb => ?_, rfl, fun b hb => ?_, rfl⟩
  · show spec.snapIn.getD false = b
    rw [hb]
    rfl
  · show spec.selfScrew.getD false = b
    rw [hb]
    rfl

theorem Stands.resolve {st : How F G} (hst : Stands spec st) (call : Call ι F G) :
    Stands spec (How.resolve text defaults spec st call) := by
  obtain ⟨h₁, h₂, h₃, h₄, h₅⟩ := States.resolve hst call
  exact ⟨h₁, h₂, h₃, h₄, h₅⟩

/-- **What a call gives** depends on what was before by the thread step only. -/
theorem resolve_eq {st st' : How F G} (hst : Stands spec st) (hst' : Stands spec st')
    (call : Call ι F G) (h : (call.sets spec).getD st.how.threadStep = (call.sets spec).getD st'.how.threadStep) :
    How.resolve text defaults spec st call = How.resolve text defaults spec st' call := by
  unfold How.resolve
  rw [resolve_connectHow hst, resolve_connectHow hst']
  unfold Call.sets at h
  rw [h]

theorem threadStep_resolve {st : How F G} (hst : Stands spec st) (call : Call ι F G) :
    (How.resolve text defaults spec st call).how.threadStep =
      (call.sets spec).getD st.how.threadStep := by
  unfold How.resolve
  rw [resolve_connectHow hst]
  rfl

variable (text defaults spec) in
/-- What some calls leave. -/
theorem after_spec (calls : List (Call ι F G)) : Stands spec (How.after text defaults spec calls) ∧
    (How.after text defaults spec calls).how.threadStep = leftover spec calls := by
  induction calls using List.reverseRecOn with
  | nil => exact ⟨stands_fresh, rfl⟩
  | append_singleton calls call ih =>
    obtain ⟨hstands, hthread⟩ := ih
    unfold How.after at hstands hthread ⊢
    rw [List.foldl_append, List.foldl_cons, List.foldl_nil]
    refine ⟨hstands.resolve call, ?_⟩
    rw [threadStep_resolve hstands, hthread]
    unfold leftover
    rw [List.filterMap_append]
    cases hsets : call.sets spec with
    | none => simp [hsets]
    | some step => simp [hsets]

/-- **The last call alone decides**, and the forces are ranges, just when it sets the thread step or the
calls before have left that of the section, and the bounds given are numbers. -/
theorem settles_iff (text : PyNumber G → Str) (defaults : ForceDefaults G) (spec : HowSpec F G)
    (calls : List (Call ι F G)) (call : Call ι F G) :
    Alone text defaults spec calls call ↔ Settles defaults spec calls call := by
  obtain ⟨hstands, hthread⟩ := after_spec text defaults spec calls
  have hlast : How.after text defaults spec (calls ++ [call]) =
      How.resolve text defaults spec (How.after text defaults spec calls) call := List.foldl_append
  have halone : How.after text defaults spec [call] =
      How.resolve text defaults spec (How.fresh defaults spec) call := rfl
  have hwith := holdForce_iff text defaults "holdWith".toList spec.holdWith (call.sourceItem.getD .nothing)
  have hto := holdForce_iff text defaults "holdTo".toList spec.holdTo (call.targetItem.getD .nothing)
  constructor
  · rintro ⟨hsame, hwithRange, htoRange⟩
    rw [hlast] at hsame hwithRange htoRange
    obtain ⟨hwithMin, hwithMax⟩ := hwith.1 hwithRange
    obtain ⟨htoMin, htoMax⟩ := hto.1 htoRange
    refine ⟨?_, hwithMin, hwithMax, htoMin, htoMax⟩
    rw [halone] at hsame
    have hsteps := congrArg (fun st => st.how.threadStep) hsame
    rw [threadStep_resolve hstands, threadStep_resolve stands_fresh, hthread] at hsteps
    cases hsets : call.sets spec with
    | none =>
      rw [hsets] at hsteps
      exact .inr hsteps
    | some step => exact .inl rfl
  · rintro ⟨hstep, hwithMin, hwithMax, htoMin, htoMax⟩
    refine ⟨?_, ?_, ?_⟩
    · rw [hlast, halone]
      refine resolve_eq hstands stands_fresh call ?_
      rw [hthread]
      cases hsets : call.sets spec with
      | none =>
        rw [hsets] at hstep
        exact hstep.resolve_left Bool.false_ne_true
      | some step => rfl
    · rw [hlast]
      exact hwith.2 ⟨hwithMin, hwithMax⟩
    · rw [hlast]
      exact hto.2 ⟨htoMin, htoMax⟩

end

/-! ## A screw, and then two items without a thread -/

/-- A screw with a step of 2 mm, and nothing on the other side. -/
def screwCall : Call Str DigitFloat ℕ where
  sourceItem := none
  targetItem := none
  source := some ⟨"screw".toList, some 2, false⟩
  target := none
  mates := Dict.empty
  threadOrder := ⟨[], []⟩
  snapOrder := ⟨[], []⟩

/-- No interface on either side. -/
def plainCall : Call Str DigitFloat ℕ := { screwCall with source := none }

/-- A section that says nothing. -/
def emptySpec : HowSpec DigitFloat ℕ where
  snapIn := none
  selfScrew := none
  threadStep := .absent
  holdWith := ⟨[], [], .absent, .absent, .absent⟩
  holdTo := ⟨[], [], .absent, .absent, .absent⟩

/-- The thread of the screw is still there. -/
theorem not_alone_screw : ¬ Alone (fun _ => []) ⟨3, 7, by decide⟩ emptySpec [screwCall] plainCall := by
  intro h
  have hsteps := congrArg (fun st => st.how.threadStep) h.same
  exact absurd hsteps (by decide)

end PartCAD.Connect
