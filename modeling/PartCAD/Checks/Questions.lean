import PartCAD.Checks.Cached

/-!
# What a verdict rests on

The verdict of a check rests on a few answers that the check reads off the declarations, in order and
no further than it gets (`facts`), and on the checks it asks in turn (`objects`).

* `verdict_eq` : the verdict is made from what is read and from what is asked;
* `judge_congr` : **questions that read the same, and ask questions that do, have the same verdict**.
-/

namespace PartCAD.Checks

open PartCAD.Lib PartCAD.Lib.Text PartCAD.Supply

/-! ## Readings -/

/-- An answer that `ManufacturabilityTest` reads. -/
inductive Fact where
  /-- manufacturable, or taken to be -/
  | asked (b : Bool)
  | reproducible (b : Bool)
  | shapeClass (c : ShapeClass)
  | purchasable (b : Bool)
  | partMethod (b : Bool)
  | assemblyMethod (b : Bool)
  | tolerance (b : Bool)
  | software (r : Except Unit Bool)
  | supply (r : Except Unit Bool)

/-- How the check ends after the last answer. -/
inductive Ending where
  | verdict (b : Bool)
  | raises
  /-- it goes on to the objects of the assembly -/
  | objects (failed : Bool)

def Ending.of : Except Unit Bool → Ending
  | .ok b => .verdict b
  | .error _ => .raises

/-- The last answer decides. -/
def Fact.ending : Fact → Ending
  | .asked b => .verdict (! b)
  | .reproducible b | .purchasable b | .partMethod b | .tolerance b => .verdict b
  | .shapeClass _ => .verdict true
  | .assemblyMethod b => .objects (! b)
  | .software r | .supply r => .of r

section

variable {F ρ : Type} [PyFloat F] (d : Declarations F)

/-- What is read of the software, and what is read after it. -/
def softwareFacts (shape : Shape F) (rest : List Fact) : List Fact :=
  match d.softwareFailure shape with
  | .error e => [.software (.error e)]
  | .ok (some _) => [.software (.ok false)]
  | .ok none => .software (.ok true) :: rest

def supplyFact (shape : Shape F) : Fact := .supply ((d.supplyFailure shape).map Option.isNone)

def partFacts (part : Shape F) : List Fact :=
  if isPurchasable part.getStoreData then
    .purchasable true :: softwareFacts d part [supplyFact d part]
  else if ! part.hasMethod then [.purchasable false, .partMethod false]
  else if (Declarations.toleranceFailure part).isSome then
    [.purchasable false, .partMethod true, .tolerance false]
  else
    .purchasable false :: .partMethod true :: .tolerance true ::
      softwareFacts d part [supplyFact d part]

def assemblyFacts (assembly : Shape F) : List Fact :=
  softwareFacts d assembly
    (if isPurchasable assembly.getStoreData then [.purchasable true, supplyFact d assembly]
    else [.purchasable false, .assemblyMethod assembly.hasMethod])

/-- What `ManufacturabilityTest` reads, in order. -/
def facts (q : Question F) : List Fact :=
  if ! q.shape.isManufacturable && ! q.ctx.forceManufacturing then [.asked false]
  else if (Declarations.reproducibilityFailure q.shape).isSome then [.asked true, .reproducible false]
  else
    .asked true :: .reproducible true :: .shapeClass q.shape.shapeClass ::
      match q.shape.shapeClass with
      | .part => partFacts d q.shape
      | .assembly => assemblyFacts d q.shape
      | .other => []

/-- What `InterferenceTest` reads: of each overlap, whether a joint requires it. -/
inductive Overlaps where
  | notAssembly
  | broken
  | noGeometry
  | found (overlaps : List ((Str × Str) × Bool)) (isManufacturable : Bool)

def overlaps (shape : Shape F) : Overlaps :=
  if shape.shapeClass ≠ .assembly then .notAssembly
  else
    match shape.interference (minVolume shape) (minFraction shape) with
    | .error _ => .broken
    | .ok none => .noGeometry
    | .ok (some result) =>
      .found (result.overlaps.map fun o =>
        (o, Declarations.isExpected (d.expectedOverlapPairs shape) o)) shape.isManufacturable

def Overlaps.verdict : Overlaps → Bool
  | .notAssembly | .noGeometry => true
  | .broken => false
  | .found overlaps isManufacturable => overlaps.all Prod.snd || ! isManufacturable

/-- What a check reads. -/
inductive Reading (ρ : Type) where
  | manufacturability (facts : List Fact)
  | interference (overlaps : Overlaps)
  | other (name : Str) (look : ρ)

variable (M : Machine F ρ)

def reading (q : Question F) : Reading ρ :=
  match q.test with
  | .manufacturability => .manufacturability (facts d q)
  | .interference => .interference (overlaps d q.shape)
  | .other name => .other name ((M.other name).look d q.shape q.ctx)

def endingOf (facts : List Fact) : Ending := (facts.getLast?.map Fact.ending).getD .raises

/-- The objects that the assembly is procured from, if the check gets to them: for each what is asked
about it, and nothing for one that is missing. -/
def objects (q : Question F) : Option (List (Option (List (Command F)))) :=
  match q.test, endingOf (facts d q) with
  | .manufacturability, .objects _ => q.shape.children.map fun children =>
      (getSupplyBom (items children)).keys.map fun objectName =>
        (resolveCartObject d.cart objectName).map fun object =>
          commands q.testsToRun object q.forced
  | _, _ => some []

/-! ## Verdicts -/

/-- The check without `NOT_CACHEABLE`. -/
def verdict (q : Question F) : Checking F Bool := (test M d q).bind fun r => .done r.1

/-- What becomes of the objects. -/
def askObjects : List (Option (List (Command F))) → Bool → Checking F Bool
  | [], failed => .done failed
  | none :: rest, _ => askObjects rest true
  | some cs :: rest, failed => (Program.gather cs).bind fun results =>
      askObjects rest (failed || results.contains false)

/-- The rest of a check. -/
def Ending.run (objects : Option (List (Option (List (Command F))))) : Ending → Checking F Bool
  | .verdict b => .done b
  | .raises => .raised ()
  | .objects failed =>
    match objects with
    | none => .raised ()
    | some objects => (askObjects objects failed).bind fun failed => .done (! failed)

/-- The verdict on what has been read. -/
def Reading.run (objects : Option (List (Option (List (Command F))))) : Reading ρ → Checking F Bool
  | .manufacturability facts => (endingOf facts).run objects
  | .interference overlaps => .done overlaps.verdict
  | .other name look =>
    match (M.other name).verdict look with
    | .error e => .raised e
    | .ok verdict => .done verdict.1

theorem testObjects_eq (testsToRun : List Test) (ctx : TestCtx) (names : List Str) (failed : Bool) :
    testObjects d testsToRun ctx names failed =
      askObjects (names.map fun objectName => (resolveCartObject d.cart objectName).map fun object =>
        commands testsToRun object ctx) failed := by
  induction names generalizing failed with
  | nil => rfl
  | cons name names ih =>
    rw [testObjects, List.map_cons]
    cases resolveCartObject d.cart name with
    | none => exact ih true
    | some object =>
      exact congrArg (Program.bind _) (funext fun results => ih _)

theorem endingOf_cons (fact : Fact) {facts : List Fact} (h : facts ≠ []) :
    endingOf (fact :: facts) = endingOf facts := by
  obtain ⟨f, rest, rfl⟩ := List.exists_cons_of_ne_nil h
  simp only [endingOf, List.getLast?_cons_cons]

theorem endingOf_singleton (fact : Fact) : endingOf [fact] = fact.ending := rfl

omit [PyFloat F] in
theorem softwareFacts_ne_nil (shape : Shape F) (rest : List Fact) :
    softwareFacts d shape rest ≠ [] := by
  unfold softwareFacts
  split <;> exact List.cons_ne_nil _ _

omit [PyFloat F] in
theorem endingOf_softwareFacts (shape : Shape F) {rest : List Fact} (h : rest ≠ []) :
    endingOf (softwareFacts d shape rest) =
      match d.softwareFailure shape with
      | .error _ => .raises
      | .ok (some _) => .verdict false
      | .ok none => endingOf rest := by
  unfold softwareFacts
  cases d.softwareFailure shape with
  | error e => rfl
  | ok failure =>
    cases failure with
    | some _ => rfl
    | none => exact endingOf_cons _ h

theorem partFacts_ne_nil (part : Shape F) : partFacts d part ≠ [] := by
  unfold partFacts
  split
  · exact List.cons_ne_nil _ _
  · split
    · exact List.cons_ne_nil _ _
    · split <;> exact List.cons_ne_nil _ _

theorem assemblyFacts_ne_nil (assembly : Shape F) : assemblyFacts d assembly ≠ [] :=
  softwareFacts_ne_nil d assembly _

theorem ending_supplyFact (shape : Shape F) :
    endingOf [supplyFact d shape] = .of ((d.supplyFailure shape).map Option.isNone) := rfl

/-- A part by what is read of it. -/
theorem of_testPart (part : Shape F) : Ending.of (testPart d part) = endingOf (partFacts d part) := by
  have hrest : endingOf (softwareFacts d part [supplyFact d part]) =
      Ending.of (match d.softwareFailure part with
        | .error e => .error e
        | .ok (some _) => .ok false
        | .ok none => (d.supplyFailure part).map Option.isNone) := by
    rw [endingOf_softwareFacts d part (List.cons_ne_nil _ _)]
    cases d.softwareFailure part with
    | error e => rfl
    | ok failure => cases failure <;> rfl
  have hne := softwareFacts_ne_nil d part [supplyFact d part]
  unfold testPart partFacts
  cases isPurchasable part.getStoreData with
  | true =>
    simp only [Bool.not_true, Bool.false_and, Bool.false_eq_true, if_false, if_true]
    exact ((endingOf_cons _ hne).trans hrest).symm
  | false =>
    cases part.hasMethod with
    | false => rfl
    | true =>
      cases (Declarations.toleranceFailure part).isSome with
      | true => rfl
      | false =>
        simp only [Bool.not_true, Bool.not_false, Bool.and_false, Bool.false_eq_true, if_false]
        have htolerance := (endingOf_cons (.tolerance true) hne).trans hrest
        have hmethod := (endingOf_cons (.partMethod true) (List.cons_ne_nil _ _)).trans htolerance
        exact ((endingOf_cons (.purchasable false) (List.cons_ne_nil _ _)).trans hmethod).symm

/-- An assembly by what is read of it. -/
theorem testAssembly_eq (q : Question F) :
    testAssembly d q = (endingOf (assemblyFacts d q.shape)).run
      (q.shape.children.map fun children =>
        (getSupplyBom (items children)).keys.map fun objectName =>
          (resolveCartObject d.cart objectName).map fun object =>
            commands q.testsToRun object q.forced) := by
  have hne : (if isPurchasable q.shape.getStoreData then
      [Fact.purchasable true, supplyFact d q.shape]
    else [Fact.purchasable false, Fact.assemblyMethod q.shape.hasMethod]) ≠ [] := by
    split <;> exact List.cons_ne_nil _ _
  unfold testAssembly assemblyFacts
  rw [endingOf_softwareFacts d q.shape hne]
  cases d.softwareFailure q.shape with
  | error e => rfl
  | ok failure =>
    cases failure with
    | some _ => rfl
    | none =>
      simp only
      split
      · rw [endingOf_cons _ (List.cons_ne_nil _ _), ending_supplyFact]
        cases d.supplyFailure q.shape <;> rfl
      · rw [endingOf_cons _ (List.cons_ne_nil _ _), endingOf_singleton]
        cases q.shape.children with
        | none => rfl
        | some children =>
          simp only [Fact.ending, Ending.run, Option.map_some]
          rw [testObjects_eq]

/-- `ManufacturabilityTest` by what it reads. -/
theorem manufacturability_eq (q : Question F) (h : q.test = .manufacturability) :
    manufacturability d q = (endingOf (facts d q)).run (objects d q) := by
  unfold manufacturability objects facts
  rw [h]
  split
  · rfl
  · split
    · rfl
    · cases hclass : q.shape.shapeClass with
      | other => rfl
      | part =>
        have hend : endingOf (.asked true :: .reproducible true :: .shapeClass .part ::
            partFacts d q.shape) = Ending.of (testPart d q.shape) := by
          rw [endingOf_cons _ (List.cons_ne_nil _ _), endingOf_cons _ (List.cons_ne_nil _ _),
            endingOf_cons _ (partFacts_ne_nil d q.shape), of_testPart]
        simp only [hend]
        cases testPart d q.shape <;> rfl
      | assembly =>
        have hend : endingOf (.asked true :: .reproducible true :: .shapeClass .assembly ::
            assemblyFacts d q.shape) = endingOf (assemblyFacts d q.shape) := by
          rw [endingOf_cons _ (List.cons_ne_nil _ _), endingOf_cons _ (List.cons_ne_nil _ _),
            endingOf_cons _ (assemblyFacts_ne_nil d q.shape)]
        simp only [hend, testAssembly_eq]
        cases endingOf (assemblyFacts d q.shape) <;> rfl

theorem all_map_isExpected {expected found : List (Str × Str)} :
    ((found.map fun o => (o, Declarations.isExpected expected o)).all Prod.snd) =
      (found.filter fun o => ! Declarations.isExpected expected o).isEmpty := by
  induction found with
  | nil => rfl
  | cons o found ih =>
    rw [List.map_cons, List.all_cons, ih, List.filter_cons]
    cases Declarations.isExpected expected o <;> rfl

omit [PyFloat F] in
theorem fst_interference (shape : Shape F) :
    (interference d shape).1 = (overlaps d shape).verdict := by
  unfold interference overlaps
  split
  · rfl
  · cases shape.interference (minVolume shape) (minFraction shape) with
    | error e => rfl
    | ok result =>
      cases result with
      | none => rfl
      | some result =>
        simp only [Overlaps.verdict]
        rw [all_map_isExpected]

/-- **The verdict is made from what the check reads and from what it asks.** -/
theorem verdict_eq (q : Question F) :
    verdict d M q = (reading d M q).run M (objects d q) := by
  unfold verdict test reading
  cases h : q.test with
  | manufacturability =>
    simp only [Reading.run]
    rw [Program.bind_bind_done fun _ => rfl, manufacturability_eq d q h]
  | interference => exact congrArg Program.done (fst_interference d q.shape)
  | other name =>
    simp only [Reading.run]
    cases (M.other name).verdict ((M.other name).look d q.shape q.ctx) <;> rfl

/-! ## Questions that are the same -/

variable {R : Command F → Command F → Prop}

omit [PyFloat F] in
theorem alike_askObjects {os os' : List (Option (List (Command F)))}
    (h : List.Forall₂ (Option.Rel (List.Forall₂ R)) os os') (failed : Bool) :
    Program.Alike R (askObjects os failed) (askObjects os' failed) := by
  induction h generalizing failed with
  | nil => exact .done failed
  | cons ho _ ih =>
    cases ho with
    | none => exact ih true
    | some hcs => exact (Program.alike_gather hcs).bind fun results => ih _

omit [PyFloat F] in
theorem alike_ending {os os' : Option (List (Option (List (Command F))))}
    (h : Option.Rel (List.Forall₂ (Option.Rel (List.Forall₂ R))) os os') (ending : Ending) :
    Program.Alike R (ending.run os) (ending.run os') := by
  cases ending with
  | verdict b => exact .done b
  | raises => exact .raised ()
  | objects failed =>
    cases h with
    | none => exact .raised ()
    | some ho => exact (alike_askObjects ho failed).bind fun failed => .done _

omit [PyFloat F] in
theorem alike_reading {os os' : Option (List (Option (List (Command F))))}
    (h : Option.Rel (List.Forall₂ (Option.Rel (List.Forall₂ R))) os os') (r : Reading ρ) :
    Program.Alike R (r.run M os) (r.run M os') := by
  cases r with
  | manufacturability facts => exact alike_ending h _
  | interference overlaps => exact .done _
  | other name look =>
    simp only [Reading.run]
    cases (M.other name).verdict look with
    | error e => exact .raised e
    | ok b => exact .done _

end

section

variable {F ρ : Type} [PyFloat F] (M : Machine F ρ)

/-- A question at the moment when it is asked. -/
abbrev Moment (F : Type) := Declarations F × Question F

/-- The pairs of a relation read the same, and ask about as many objects what is paired again. -/
def Reads (R : Moment F → Moment F → Prop) : Prop :=
  ∀ x y, R x y → reading x.1 M x.2 = reading y.1 M y.2 ∧
    Option.Rel (List.Forall₂ (Option.Rel (List.Forall₂ fun c c' =>
      R (x.1, c.question) (y.1, c'.question)))) (objects x.1 x.2) (objects y.1 y.2)

/-- **The same question** : what the check reads is the same at both moments, and so is what it asks in
turn. -/
def SameQuestion (x y : Moment F) : Prop := ∃ R, R x y ∧ Reads M R

theorem judge_eq (d : Declarations F) (n : ℕ) (q : Question F) :
    judge M d (n + 1) q = (verdict d M q).value fun c => judge M d n c.question :=
  (Program.value_bind_done Prod.fst).symm

/-- **The same question has the same verdict.** -/
theorem judge_congr {x y : Moment F} (h : SameQuestion M x y) (n : ℕ) :
    judge M x.1 n x.2 = judge M y.1 n y.2 := by
  obtain ⟨R, hxy, hR⟩ := h
  induction n generalizing x y with
  | zero => rfl
  | succ n ih =>
    obtain ⟨hread, hobjects⟩ := hR x y hxy
    rw [judge_eq, judge_eq, verdict_eq, verdict_eq, hread]
    exact (alike_reading M hobjects _).value_eq fun c c' hc => ih hc

theorem judge_mono {d : Declarations F} {m n : ℕ} (hmn : m ≤ n) {q : Question F}
    {r : Except Unit Bool} (h : judge M d m q = some r) : judge M d n q = some r := by
  induction m generalizing n q r with
  | zero => cases h
  | succ m ih =>
    cases n with
    | zero => exact absurd hmn (Nat.not_succ_le_zero m)
    | succ n =>
      rw [judge_eq] at h ⊢
      exact Program.value_mono (fun c r => ih (Nat.le_of_succ_le_succ hmn)) h

/-- A check has one verdict. -/
theorem judge_unique {d : Declarations F} {m n : ℕ} {q : Question F} {r r' : Except Unit Bool}
    (h : judge M d m q = some r) (h' : judge M d n q = some r') : r = r' := by
  have hr := judge_mono M (Nat.le_max_left m n) h
  have hr' := judge_mono M (Nat.le_max_right m n) h'
  exact Option.some.inj (hr.symm.trans hr')

theorem optionRel_refl {α : Type} {r : α → α → Prop} (h : ∀ a, r a a) (o : Option α) :
    Option.Rel r o o := by
  cases o with
  | none => exact .none
  | some a => exact .some (h a)

theorem SameQuestion.refl (x : Moment F) : SameQuestion M x x := by
  refine ⟨Eq, rfl, ?_⟩
  rintro x _ rfl
  refine ⟨rfl, optionRel_refl (fun os => ?_) _⟩
  refine List.forall₂_same.2 fun o _ => optionRel_refl (fun cs => ?_) o
  exact List.forall₂_same.2 fun _ _ => rfl

/-! ## What a check asks -/

/-- The commands that a check may come to. -/
def asks (d : Declarations F) (q : Question F) : List (Command F) :=
  ((objects d q).getD []).flatMap fun o => o.getD []

omit [PyFloat F] in
theorem calls_askObjects {os : List (Option (List (Command F)))} {failed : Bool} {c : Command F}
    (h : (askObjects os failed).Calls c) : c ∈ os.flatMap fun o => o.getD [] := by
  induction os generalizing failed with
  | nil => exact h.elim
  | cons o os ih =>
    rw [List.flatMap_cons]
    cases o with
    | none => exact List.mem_append_right _ (ih h)
    | some cs =>
      obtain hc | ⟨results, hc⟩ := Program.calls_bind h
      · exact List.mem_append_left _ (Program.calls_gather hc)
      · exact List.mem_append_right _ (ih hc)

theorem calls_test {d : Declarations F} {q : Question F} {c : Command F}
    (h : (test M d q).Calls c) : c ∈ asks d q := by
  have h : (verdict d M q).Calls c := Program.calls_of_calls h
  rw [verdict_eq] at h
  unfold asks
  cases hread : reading d M q with
  | manufacturability facts =>
    rw [hread] at h
    simp only [Reading.run] at h
    cases hend : endingOf facts with
    | verdict b => rw [hend] at h; exact h.elim
    | raises => rw [hend] at h; exact h.elim
    | objects failed =>
      rw [hend] at h
      cases hos : objects d q with
      | none => rw [hos] at h; exact h.elim
      | some os =>
        rw [hos] at h
        obtain h | ⟨failed, h⟩ := Program.calls_bind h
        · exact calls_askObjects h
        · exact h.elim
  | interference overlaps => rw [hread] at h; exact h.elim
  | other name look =>
    rw [hread] at h
    simp only [Reading.run] at h
    split at h <;> exact h.elim

omit [PyFloat F] in
theorem propagates_askObjects (os : List (Option (List (Command F)))) (failed : Bool) :
    (askObjects os failed).Propagates := by
  induction os generalizing failed with
  | nil => trivial
  | cons o os ih =>
    cases o with
    | none => exact ih true
    | some cs => exact (Program.propagates_gather cs).bind fun results => ih _

/-- A check that raises under another one raises through it. -/
theorem propagates_test (d : Declarations F) (q : Question F) : (test M d q).Propagates := by
  suffices h : (verdict d M q).Propagates from Program.Propagates.of_bind_done h
  rw [verdict_eq]
  cases reading d M q with
  | manufacturability facts =>
    simp only [Reading.run]
    cases endingOf facts with
    | verdict b => trivial
    | raises => trivial
    | objects failed =>
      cases objects d q with
      | none => trivial
      | some os => exact (propagates_askObjects os failed).bind fun failed => trivial
  | interference overlaps => trivial
  | other name look =>
    simp only [Reading.run]
    split <;> trivial

/-- Where the wrapper is used it is used throughout, and elsewhere nothing is remembered on the way. -/
theorem asks_cases {d : Declarations F} {q : Question F} {c : Command F} (h : c ∈ asks d q) :
    (q.ctx.logWrapper = true ∧ ∃ q', c = .testLogWrapper q') ∨
      (q.ctx.logWrapper = false ∧ ∃ q', c = .test q' ∧ q'.ctx.logWrapper = false) := by
  obtain ⟨o, ho, hc⟩ := List.mem_flatMap.1 h
  obtain ⟨os, hos⟩ : ∃ os, objects d q = some os := by
    cases hos : objects d q with
    | none => rw [hos] at ho; cases ho
    | some os => exact ⟨os, rfl⟩
  rw [hos] at ho
  unfold objects at hos
  split at hos
  · obtain ⟨children, -, rfl⟩ := Option.map_eq_some_iff.1 hos
    obtain ⟨name, -, rfl⟩ := List.mem_map.1 ho
    cases hobject : resolveCartObject d.cart name with
    | none => rw [hobject] at hc; cases hc
    | some object =>
      rw [hobject] at hc
      obtain ⟨t, -, rfl⟩ := List.mem_map.1 hc
      cases hlog : q.ctx.logWrapper with
      | true => exact .inl ⟨rfl, _, if_pos hlog⟩
      | false => exact .inr ⟨rfl, _, if_neg (by simp [Question.forced, hlog]), hlog⟩
  · obtain rfl := Option.some.inj hos
    cases ho

end

end PartCAD.Checks
