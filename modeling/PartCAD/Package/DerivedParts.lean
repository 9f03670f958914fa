import Mathlib.Logic.Relation
import PartCAD.Lib.Dict
import PartCAD.Lib.Run
import PartCAD.Lib.Value

/-!
# Parts that an assembly produces

A part that is named after an assembly or a scene exists once that object, its owner, has been
built.  Looking such a part up builds the owner, or waits for the build of another caller; and a
build may look up parts itself.

* `derivedPartOwner` : whose part a name is;
* `Inv`, `Inv.step` : who has claimed what, in every run;
* `materialize_run` : each owner is claimed once; and when the owners are ranked, no caller waits
  for a build that waits for it.
-/

namespace PartCAD.Package

open PartCAD.Lib PartCAD.Lib.Text

/-! ## Owners -/

inductive OwnerKind where
  | assembly
  | scene
  deriving DecidableEq

structure Owner where
  kind : OwnerKind
  name : Str
  deriving DecidableEq

/-- What a package declares, and the types that have a factory of their own. -/
structure Declared (F : Type) where
  objectConfigs : OwnerKind → Dict Str (Value F)
  factories : OwnerKind → List Str

section

variable {F : Type} (declared : Declared F)

def partProducingBuiltinTypes : List Str := ["step".toList]

/-- `produces_own_parts` -/
def producesOwnParts (kind : OwnerKind) (typeName : Option (Value F)) : Bool :=
  match typeName with
  | some (.str t) =>
    if t = [] then false
    else if t ∈ partProducingBuiltinTypes then true
    else t ∉ declared.factories kind
  | _ => false

/-- The object of a kind that has this name and produces parts. -/
def producer (name : Str) (kind : OwnerKind) : Option Owner :=
  match (declared.objectConfigs kind).get? name with
  | some (.dict items) =>
    if producesOwnParts declared kind (lookupItem "type".toList items) then some ⟨kind, name⟩
    else none
  | _ => none

/-- The loop over the prefixes of a name.  A prefix is given by its parts, the last one first. -/
def ownerOfPrefix : List Str → Option Owner
  | _ :: part :: parts =>
    let name := join '/' (part :: parts).reverse
    match (producer declared name .assembly).or (producer declared name .scene) with
    | some owner => some owner
    | none => ownerOfPrefix (part :: parts)
  | _ => none

/-- `_derived_part_owner` -/
def derivedPartOwner (partName : Str) : Option Owner :=
  ownerOfPrefix declared (split '/' (partition ';' partName).1).reverse

end

/-! ## Calls -/

/-- How a part is asked for: by the accessor for coroutines, or by the other one, on a thread that
has a running loop or not. -/
inductive Accessor where
  | async
  | sync (runningLoop : Bool)
  deriving DecidableEq

/-- Where a call of `_materialize_derived_part` or of its twin is. -/
inductive CallPhase where
  | called
  /-- The part is not there; its owner is looked at. -/
  | looking (o : Owner)
  /-- The owner is to be built. -/
  | claiming (o : Owner)
  /-- Another call builds the owner, and sets this event when it is done. -/
  | waiting (o : Owner) (done : ℕ)
  | building (o : Owner)
  /-- The owner has been built, and the event is to be set. -/
  | finishing (o : Owner)
  /-- The call has returned and has built the owner. -/
  | built (o : Owner)
  /-- The call has returned and has built nothing. -/
  | passed
  /-- `RuntimeError` -/
  | refused
  deriving DecidableEq

namespace CallPhase

/-- The owner that the call has claimed. -/
def claimed : CallPhase → Option Owner
  | building o | finishing o | built o => some o
  | _ => none

/-- The owner that the call would have built, if it were not for another call. -/
def after : CallPhase → Option Owner
  | looking o | claiming o | waiting o _ => some o
  | _ => none

def isOver : CallPhase → Bool
  | built _ | passed | refused => true
  | _ => false

end CallPhase

/-- A call, with the call in whose build it is made. -/
structure Call where
  partName : Str
  accessor : Accessor
  parent : Option ℕ
  phase : CallPhase

/-- The package as the calls see it.  The event that a call makes has the number of the call. -/
structure Derived where
  parts : List Str
  /-- The owners whose object has children. -/
  children : List Owner
  attempted : List Owner
  building : Dict Owner ℕ
  /-- The events that are set. -/
  isSet : List ℕ
  calls : List Call

namespace Derived

def init : Derived := ⟨[], [], [], .empty, [], []⟩

/-- A call gets on. -/
def move (s : Derived) (i : ℕ) (c : Call) (phase : CallPhase) : Derived :=
  { s with calls := s.calls.set i { c with phase := phase } }

/-- The call builds its owner right now. -/
def isBuilding (s : Derived) (i : ℕ) : Bool :=
  (s.calls[i]?.map Call.phase).any fun phase => phase matches .building _

/-- The calls that are made in a build are over. -/
def nestedOver (s : Derived) (i : ℕ) : Bool :=
  s.calls.all fun c => c.parent ≠ some i || c.phase.isOver

/-- `_claim_derived_part`, with what the callers do with its answer. -/
def claim (s : Derived) (i : ℕ) (c : Call) (o : Owner) : Derived :=
  match s.building.get? o with
  | some done => s.move i c (.waiting o done)
  | none =>
    if o ∈ s.attempted then s.move i c .passed
    else
      { s.move i c (.building o) with
        attempted := s.attempted ++ [o]
        building := s.building.set o i }

end Derived

inductive DerivedEvent where
  | call (partName : Str) (accessor : Accessor) (parent : Option ℕ)
  | lookPart (i : ℕ)
  /-- The object of the owner is there or not. -/
  | lookObject (i : ℕ) (found : Bool)
  | claim (i : ℕ)
  /-- A call that waits sees that the event is set. -/
  | wake (i : ℕ)
  /-- The build of a call is over, however it went. -/
  | finish (i : ℕ)
  | setEvent (i : ℕ)
  /-- What builds do: parts are registered, and objects have children. -/
  | effect (parts : List Str) (children : List Owner)

namespace Derived

variable {F : Type} (declared : Declared F)

def step (s : Derived) : DerivedEvent → Option Derived
  | .call partName accessor parent =>
    if parent.all s.isBuilding then
      some { s with calls := s.calls ++ [⟨partName, accessor, parent, .called⟩] }
    else none
  | .lookPart i =>
    s.calls[i]?.bind fun c =>
      match c.phase with
      | .called =>
        if c.partName ∈ s.parts then some (s.move i c .passed)
        else
          match derivedPartOwner declared c.partName with
          | none => some (s.move i c .passed)
          | some o => some (s.move i c (.looking o))
      | _ => none
  | .lookObject i found =>
    s.calls[i]?.bind fun c =>
      match c.phase with
      | .looking o =>
        some (s.move i c (if !found ∨ o ∈ s.children then .passed else .claiming o))
      | _ => none
  | .claim i =>
    s.calls[i]?.bind fun c =>
      match c.phase with
      | .claiming o =>
        if c.accessor = .sync true then some (s.move i c .refused) else some (s.claim i c o)
      | _ => none
  | .wake i =>
    s.calls[i]?.bind fun c =>
      match c.phase with
      | .waiting _ done => if done ∈ s.isSet then some (s.move i c .passed) else none
      | _ => none
  | .finish i =>
    s.calls[i]?.bind fun c =>
      match c.phase with
      | .building o =>
        if s.nestedOver i then
          some { s.move i c (.finishing o) with building := s.building.erase o }
        else none
      | _ => none
  | .setEvent i =>
    s.calls[i]?.bind fun c =>
      match c.phase with
      | .finishing o => some { s.move i c (.built o) with isSet := i :: s.isSet }
      | _ => none
  | .effect parts children => some { s with parts := parts, children := children }

end Derived

def derivedParts {F : Type} (declared : Declared F) : System Derived DerivedEvent :=
  ⟨Derived.init, Derived.step declared⟩

namespace Derived

/-! ## What a step can do -/

/-- A step, by the phases that a call goes through. -/
inductive StepTo (s : Derived) : DerivedEvent → Derived → Prop where
  | call {partName : Str} {accessor : Accessor} {parent : Option ℕ} :
      (∀ p, parent = some p → ∃ c o, s.calls[p]? = some c ∧ c.phase = .building o) →
      StepTo s (.call partName accessor parent)
        { s with calls := s.calls ++ [⟨partName, accessor, parent, .called⟩] }
  | needless {i : ℕ} {c : Call} : s.calls[i]? = some c → c.phase = .called →
      StepTo s (.lookPart i) (s.move i c .passed)
  | owned {i : ℕ} {c : Call} {o : Owner} : s.calls[i]? = some c → c.phase = .called →
      StepTo s (.lookPart i) (s.move i c (.looking o))
  | turnedAway {i : ℕ} {c : Call} {o : Owner} {found : Bool} : s.calls[i]? = some c →
      c.phase = .looking o → (found = false ∨ o ∈ s.children) →
      StepTo s (.lookObject i found) (s.move i c .passed)
  | unbuilt {i : ℕ} {c : Call} {o : Owner} : s.calls[i]? = some c → c.phase = .looking o →
      StepTo s (.lookObject i true) (s.move i c (.claiming o))
  | refused {i : ℕ} {c : Call} {o : Owner} : s.calls[i]? = some c → c.phase = .claiming o →
      StepTo s (.claim i) (s.move i c .refused)
  | waits {i d : ℕ} {c : Call} {o : Owner} : s.calls[i]? = some c → c.phase = .claiming o →
      c.accessor ≠ .sync true → s.building.get? o = some d →
      StepTo s (.claim i) (s.move i c (.waiting o d))
  | late {i : ℕ} {c : Call} {o : Owner} : s.calls[i]? = some c → c.phase = .claiming o →
      s.building.get? o = none → StepTo s (.claim i) (s.move i c .passed)
  | claims {i : ℕ} {c : Call} {o : Owner} : s.calls[i]? = some c → c.phase = .claiming o →
      c.accessor ≠ .sync true → s.building.get? o = none → o ∉ s.attempted →
      StepTo s (.claim i)
        { s.move i c (.building o) with
          attempted := s.attempted ++ [o]
          building := s.building.set o i }
  | wakes {i d : ℕ} {c : Call} {o : Owner} : s.calls[i]? = some c → c.phase = .waiting o d →
      d ∈ s.isSet → StepTo s (.wake i) (s.move i c .passed)
  | finishes {i : ℕ} {c : Call} {o : Owner} : s.calls[i]? = some c → c.phase = .building o →
      (∀ c' ∈ s.calls, c'.parent = some i → c'.phase.isOver = true) →
      StepTo s (.finish i) { s.move i c (.finishing o) with building := s.building.erase o }
  | sets {i : ℕ} {c : Call} {o : Owner} : s.calls[i]? = some c → c.phase = .finishing o →
      StepTo s (.setEvent i) { s.move i c (.built o) with isSet := i :: s.isSet }
  | effect {parts : List Str} {children : List Owner} :
      StepTo s (.effect parts children) { s with parts := parts, children := children }

theorem isBuilding_iff {s : Derived} {i : ℕ} :
    s.isBuilding i = true ↔ ∃ c o, s.calls[i]? = some c ∧ c.phase = .building o := by
  unfold isBuilding
  cases hc : s.calls[i]? with
  | none => simp
  | some c =>
    cases hp : c.phase with
    | building o => simp [hp]
    | _ => simp [hp]

variable {F : Type} {declared : Declared F} {s s' : Derived}

theorem stepTo {e : DerivedEvent} (hs : s.step declared e = some s') : StepTo s e s' := by
  cases e with
  | call partName accessor parent =>
    obtain ⟨hparent, hs⟩ := Option.ite_none_right_eq_some.1 hs
    obtain rfl := Option.some.inj hs
    refine .call fun p hp => ?_
    subst hp
    exact isBuilding_iff.1 (by simpa using hparent)
  | lookPart i =>
    obtain ⟨c, hc, hs⟩ := Option.bind_eq_some_iff.1 hs
    cases hp : c.phase with
    | called =>
      rw [hp] at hs
      simp only at hs
      split at hs
      · obtain rfl := Option.some.inj hs
        exact .needless hc hp
      · split at hs
        · obtain rfl := Option.some.inj hs
          exact .needless hc hp
        · obtain rfl := Option.some.inj hs
          exact .owned hc hp
    | _ =>
      rw [hp] at hs
      exact absurd hs (by simp)
  | lookObject i found =>
    obtain ⟨c, hc, hs⟩ := Option.bind_eq_some_iff.1 hs
    cases hp : c.phase with
    | looking o =>
      rw [hp] at hs
      obtain rfl := Option.some.inj hs
      by_cases haway : (!found) = true ∨ o ∈ s.children
      · rw [if_pos haway]
        exact .turnedAway hc hp (by simpa using haway)
      · rw [if_neg haway]
        obtain rfl : found = true := by simpa using (not_or.1 haway).1
        exact .unbuilt hc hp
    | _ =>
      rw [hp] at hs
      exact absurd hs (by simp)
  | claim i =>
    obtain ⟨c, hc, hs⟩ := Option.bind_eq_some_iff.1 hs
    cases hp : c.phase with
    | claiming o =>
      rw [hp] at hs
      simp only at hs
      split at hs
      · obtain rfl := Option.some.inj hs
        exact .refused hc hp
      · rename_i haccessor
        obtain rfl := Option.some.inj hs
        unfold Derived.claim
        cases hbuilding : s.building.get? o with
        | some d => exact .waits hc hp haccessor hbuilding
        | none =>
          by_cases hattempted : o ∈ s.attempted
          · simp only [hattempted, if_true]
            exact .late hc hp hbuilding
          · simp only [hattempted, if_false]
            exact .claims hc hp haccessor hbuilding hattempted
    | _ =>
      rw [hp] at hs
      exact absurd hs (by simp)
  | wake i =>
    obtain ⟨c, hc, hs⟩ := Option.bind_eq_some_iff.1 hs
    cases hp : c.phase with
    | waiting o d =>
      rw [hp] at hs
      obtain ⟨hd, hs⟩ := Option.ite_none_right_eq_some.1 hs
      obtain rfl := Option.some.inj hs
      exact .wakes hc hp hd
    | _ =>
      rw [hp] at hs
      exact absurd hs (by simp)
  | finish i =>
    obtain ⟨c, hc, hs⟩ := Option.bind_eq_some_iff.1 hs
    cases hp : c.phase with
    | building o =>
      rw [hp] at hs
      obtain ⟨hover, hs⟩ := Option.ite_none_right_eq_some.1 hs
      obtain rfl := Option.some.inj hs
      refine .finishes hc hp fun c' hc' hparent => ?_
      simpa [hparent] using List.all_eq_true.1 hover c' hc'
    | _ =>
      rw [hp] at hs
      exact absurd hs (by simp)
  | setEvent i =>
    obtain ⟨c, hc, hs⟩ := Option.bind_eq_some_iff.1 hs
    cases hp : c.phase with
    | finishing o =>
      rw [hp] at hs
      obtain rfl := Option.some.inj hs
      exact .sets hc hp
    | _ =>
      rw [hp] at hs
      exact absurd hs (by simp)
  | effect parts children =>
    obtain rfl := Option.some.inj hs
    exact .effect

/-! ## Who has claimed what -/

def phase (s : Derived) (i : ℕ) : Option CallPhase := s.calls[i]?.map Call.phase

def claimed (s : Derived) (i : ℕ) : Option Owner := (s.phase i).bind CallPhase.claimed

/-- The call is made in the build of another one, and is not over. -/
def Nested (s : Derived) (p i : ℕ) : Prop :=
  ∃ c, s.calls[i]? = some c ∧ c.parent = some p ∧ c.phase.isOver = false

section

variable {i : ℕ} {c : Call}

theorem phase_eq (hc : s.calls[i]? = some c) : s.phase i = some c.phase := by
  rw [phase, hc]
  rfl

theorem claimed_eq (hc : s.calls[i]? = some c) : s.claimed i = c.phase.claimed := by
  rw [claimed, phase_eq hc]
  rfl

theorem claimed_of_building {o : Owner} (h : s.phase i = some (.building o)) :
    s.claimed i = some o := by
  rw [claimed, h]
  rfl

theorem phase_move (hc : s.calls[i]? = some c) (p : CallPhase) (j : ℕ) :
    (s.move i c p).phase j = if j = i then some p else s.phase j := by
  obtain ⟨hi, -⟩ := List.getElem?_eq_some_iff.1 hc
  by_cases hj : j = i
  · subst hj
    simp [phase, move, hi]
  · rw [if_neg hj]
    simp [phase, move, List.getElem?_set_ne (Ne.symm hj)]

theorem claimed_move (hc : s.calls[i]? = some c) (p : CallPhase) (j : ℕ) :
    (s.move i c p).claimed j = if j = i then p.claimed else s.claimed j := by
  unfold claimed
  rw [phase_move hc]
  by_cases hj : j = i
  · rw [if_pos hj, if_pos hj]
    rfl
  · rw [if_neg hj, if_neg hj]

/-- What is nested is a call that goes on, or another one. -/
theorem Nested.of_move {p : CallPhase} {q j : ℕ} (hc : s.calls[i]? = some c)
    (h : (s.move i c p).Nested q j) :
    j = i ∧ c.parent = some q ∧ p.isOver = false ∨ j ≠ i ∧ s.Nested q j := by
  obtain ⟨hi, -⟩ := List.getElem?_eq_some_iff.1 hc
  obtain ⟨c', hc', hparent, hover⟩ := h
  by_cases hj : j = i
  · subst hj
    simp only [move, List.getElem?_set_self hi] at hc'
    obtain rfl := Option.some.inj hc'
    exact Or.inl ⟨rfl, hparent, hover⟩
  · simp only [move, List.getElem?_set_ne (Ne.symm hj)] at hc'
    exact Or.inr ⟨hj, c', hc', hparent, hover⟩

end

/-- Who has claimed what, and who waits for whom. -/
structure Inv (s : Derived) : Prop where
  attempted : ∀ o, o ∈ s.attempted ↔ ∃ i, s.claimed i = some o
  once : ∀ i j o, s.claimed i = some o → s.claimed j = some o → i = j
  building : ∀ o i, s.building.get? o = some i ↔ s.phase i = some (.building o)
  waiting : ∀ i o d, s.phase i = some (.waiting o d) → s.claimed d = some o
  isSet : ∀ d ∈ s.isSet, ∃ o, s.phase d = some (.built o)
  nested : ∀ p i, s.Nested p i → ∃ o, s.phase p = some (.building o)

theorem inv_init : Inv init where
  attempted o := by simp [init, claimed, phase]
  once i j o hi := absurd hi (by simp [init, claimed, phase])
  building o i := by simp [init, phase]
  waiting i o d hi := absurd hi (by simp [init, phase])
  isSet d hd := absurd hd (by simp [init])
  nested p i h := by
    obtain ⟨c, hc, -⟩ := h
    exact absurd hc (by simp [init])

namespace Inv

variable {i : ℕ} {c : Call} {o : Owner}

/-- A call gets on, without claiming anything. -/
theorem move {p : CallPhase} {building : Dict Owner ℕ} {isSet : List ℕ} (h : Inv s)
    (hc : s.calls[i]? = some c) (hclaimed : p.claimed = c.phase.claimed)
    (hover : c.phase.isOver = false)
    (hbuilding : ∀ o j, building.get? o = some j ↔ (s.move i c p).phase j = some (.building o))
    (hwaits : ∀ o d, p = .waiting o d → s.claimed d = some o)
    (hset : ∀ d ∈ isSet, ∃ o, (s.move i c p).phase d = some (.built o))
    (hnested : ∀ j, ¬ s.Nested i j) :
    Inv { s.move i c p with building := building, isSet := isSet } := by
  have hsame : ∀ j, (s.move i c p).claimed j = s.claimed j := by
    intro j
    rw [claimed_move hc]
    by_cases hj : j = i
    · subst hj
      rw [if_pos rfl, hclaimed, claimed_eq hc]
    · rw [if_neg hj]
  refine ⟨?_, ?_, hbuilding, ?_, hset, ?_⟩
  · intro o
    show o ∈ s.attempted ↔ ∃ j, (s.move i c p).claimed j = some o
    simp only [hsame]
    exact h.attempted o
  · intro j k o hj hk
    exact h.once j k o ((hsame j).symm.trans hj) ((hsame k).symm.trans hk)
  · intro j o d hj
    apply (hsame d).trans
    have hj' := (phase_move hc p j).symm.trans hj
    by_cases hji : j = i
    · rw [if_pos hji] at hj'
      exact hwaits o d (Option.some.inj hj')
    · rw [if_neg hji] at hj'
      exact h.waiting j o d hj'
  · intro q j hq
    have hold : s.Nested q j := by
      rcases Nested.of_move hc hq with ⟨rfl, hparent, -⟩ | ⟨-, hnested⟩
      · exact ⟨c, hc, hparent, hover⟩
      · exact hnested
    obtain ⟨o, ho⟩ := h.nested q j hold
    have hqi : q ≠ i := by
      rintro rfl
      exact hnested j hold
    exact ⟨o, (phase_move hc p q).trans (by rw [if_neg hqi, ho])⟩

/-- A call that does not build has no calls nested in it. -/
theorem not_nested (h : Inv s) (hc : s.calls[i]? = some c) (hbuilding : ∀ o, c.phase ≠ .building o)
    (j : ℕ) : ¬ s.Nested i j := by
  intro hnested
  obtain ⟨o, ho⟩ := h.nested i j hnested
  rw [phase_eq hc] at ho
  exact hbuilding o (Option.some.inj ho)

/-- Another phase that is no build, for a call that was not building. -/
theorem phase_move_iff {p q : CallPhase} (hc : s.calls[i]? = some c) (hold : c.phase ≠ q)
    (hnew : p ≠ q) (j : ℕ) : (s.move i c p).phase j = some q ↔ s.phase j = some q := by
  rw [phase_move hc]
  by_cases hj : j = i
  · subst hj
    rw [if_pos rfl, phase_eq hc]
    constructor
    · intro hpq
      exact absurd (Option.some.inj hpq) hnew
    · intro hpq
      exact absurd (Option.some.inj hpq) hold
  · rw [if_neg hj]

/-- A call that has claimed nothing gets on, and still has claimed nothing. -/
theorem quiet {p : CallPhase} (h : Inv s) (hc : s.calls[i]? = some c)
    (hclaimed : c.phase.claimed = none) (hover : c.phase.isOver = false)
    (hclaimed' : p.claimed = none) (hwaits : ∀ o d, p = .waiting o d → s.claimed d = some o) :
    Inv (s.move i c p) := by
  have hne : ∀ {p q : CallPhase}, p.claimed = none → q.claimed ≠ none → p ≠ q := by
    rintro p q hp hq rfl
    exact hq hp
  refine h.move hc (by rw [hclaimed, hclaimed']) hover ?_ hwaits ?_ ?_
  · intro o j
    have hq : (CallPhase.building o).claimed ≠ none := by simp [CallPhase.claimed]
    rw [phase_move_iff hc (hne hclaimed hq) (hne hclaimed' hq)]
    exact h.building o j
  · intro d hd
    obtain ⟨o, ho⟩ := h.isSet d hd
    have hq : (CallPhase.built o).claimed ≠ none := by simp [CallPhase.claimed]
    exact ⟨o, (phase_move_iff hc (hne hclaimed hq) (hne hclaimed' hq) d).2 ho⟩
  · apply h.not_nested hc
    intro o ho
    rw [ho] at hclaimed
    exact absurd hclaimed (by simp [CallPhase.claimed])

/-- A call claims its owner. -/
theorem claims (h : Inv s) (hc : s.calls[i]? = some c) (hp : c.phase = .claiming o)
    (hfree : o ∉ s.attempted) :
    Inv { s.move i c (.building o) with
      attempted := s.attempted ++ [o]
      building := s.building.set o i } := by
  have hunclaimed : ∀ j, s.claimed j ≠ some o := fun j hj => hfree ((h.attempted o).2 ⟨j, hj⟩)
  have hi : s.phase i = some (.claiming o) := by rw [phase_eq hc, hp]
  have hclaimed := claimed_move hc (.building o)
  have hphase := phase_move hc (.building o)
  have hother : ∀ j q, s.phase j = some q → q ≠ .claiming o →
      (s.move i c (.building o)).phase j = some q := by
    intro j q hj hq
    have hji : j ≠ i := by
      rintro rfl
      rw [hi] at hj
      exact hq (Option.some.inj hj).symm
    rw [hphase, if_neg hji, hj]
  refine ⟨?_, ?_, ?_, ?_, ?_, ?_⟩
  · intro o'
    show o' ∈ s.attempted ++ [o] ↔ ∃ j, (s.move i c (.building o)).claimed j = some o'
    rw [List.mem_append, List.mem_singleton, h.attempted]
    constructor
    · rintro (⟨j, hj⟩ | rfl)
      · have hji : j ≠ i := by
          rintro rfl
          rw [claimed_eq hc, hp] at hj
          exact absurd hj (by simp [CallPhase.claimed])
        exact ⟨j, by rw [hclaimed, if_neg hji, hj]⟩
      · exact ⟨i, by rw [hclaimed, if_pos rfl]; rfl⟩
    · rintro ⟨j, hj⟩
      rw [hclaimed] at hj
      by_cases hji : j = i
      · rw [if_pos hji] at hj
        exact Or.inr (Option.some.inj hj).symm
      · rw [if_neg hji] at hj
        exact Or.inl ⟨j, hj⟩
  · intro j k o' hj hk
    have hj' := (hclaimed j).symm.trans hj
    have hk' := (hclaimed k).symm.trans hk
    by_cases hji : j = i
    · rw [if_pos hji] at hj'
      obtain rfl : o = o' := Option.some.inj hj'
      by_cases hki : k = i
      · rw [hji, hki]
      · rw [if_neg hki] at hk'
        exact absurd hk' (hunclaimed k)
    · rw [if_neg hji] at hj'
      by_cases hki : k = i
      · rw [if_pos hki] at hk'
        obtain rfl : o = o' := Option.some.inj hk'
        exact absurd hj' (hunclaimed j)
      · rw [if_neg hki] at hk'
        exact h.once j k o' hj' hk'
  · intro o' j
    show (s.building.set o i).get? o' = some j ↔ (s.move i c (.building o)).phase j = _
    rw [Dict.get?_set, hphase]
    by_cases ho : o = o'
    · subst ho
      rw [if_pos rfl]
      by_cases hji : j = i
      · simp [hji]
      · rw [if_neg hji]
        constructor
        · intro hij
          exact absurd (Option.some.inj hij).symm hji
        · intro hj
          exact absurd (claimed_of_building hj) (hunclaimed j)
    · rw [if_neg ho, h.building]
      by_cases hji : j = i
      · rw [if_pos hji, hji, hi]
        simp [ho]
      · rw [if_neg hji]
  · intro j o' d hj
    have hj' := (hphase j).symm.trans hj
    by_cases hji : j = i
    · rw [if_pos hji] at hj'
      exact absurd hj' (by simp)
    · rw [if_neg hji] at hj'
      have hd := h.waiting j o' d hj'
      have hdi : d ≠ i := by
        rintro rfl
        rw [claimed_eq hc, hp] at hd
        exact absurd hd (by simp [CallPhase.claimed])
      exact (hclaimed d).trans (by rw [if_neg hdi, hd])
  · intro d hd
    obtain ⟨o', ho'⟩ := h.isSet d hd
    exact ⟨o', hother d _ ho' (by simp)⟩
  · intro q j hq
    have hold : s.Nested q j := by
      rcases Nested.of_move hc hq with ⟨rfl, hparent, -⟩ | ⟨-, hnested⟩
      · exact ⟨c, hc, hparent, by rw [hp]; rfl⟩
      · exact hnested
    obtain ⟨o', ho'⟩ := h.nested q j hold
    exact ⟨o', hother q _ ho' (by simp)⟩

/-- A build is over. -/
theorem finishes (h : Inv s) (hc : s.calls[i]? = some c) (hp : c.phase = .building o)
    (hover : ∀ c' ∈ s.calls, c'.parent = some i → c'.phase.isOver = true) :
    Inv { s.move i c (.finishing o) with building := s.building.erase o } := by
  have hi : s.phase i = some (.building o) := by rw [phase_eq hc, hp]
  refine h.move hc (by rw [hp]; rfl) (by rw [hp]; rfl) ?_ (by simp) ?_ ?_
  · intro o' j
    rw [Dict.get?_erase, phase_move hc]
    by_cases hji : j = i
    · rw [if_pos hji, hji]
      by_cases ho : o' = o
      · simp [ho]
      · simp [ho, h.building, hi, Ne.symm ho]
    · rw [if_neg hji]
      by_cases ho : o' = o
      · subst ho
        simp only [if_true]
        constructor
        · intro hnone
          exact absurd hnone (by simp)
        · intro hj
          exact absurd (h.once j i o' (claimed_of_building hj) (claimed_of_building hi)) hji
      · rw [if_neg ho, h.building]
  · intro d hd
    obtain ⟨o', ho'⟩ := h.isSet d hd
    exact ⟨o', (phase_move_iff hc (by rw [hp]; simp) (by simp) d).2 ho'⟩
  · rintro j ⟨c', hc', hparent, hnot⟩
    rw [hover c' (List.mem_of_getElem? hc') hparent] at hnot
    exact absurd hnot (by simp)

/-- The event of a build is set. -/
theorem sets (h : Inv s) (hc : s.calls[i]? = some c) (hp : c.phase = .finishing o) :
    Inv { s.move i c (.built o) with isSet := i :: s.isSet } := by
  refine h.move hc (by rw [hp]; rfl) (by rw [hp]; rfl) ?_ (by simp) ?_ ?_
  · intro o' j
    rw [phase_move_iff hc (by rw [hp]; simp) (by simp)]
    exact h.building o' j
  · intro d hd
    rcases List.mem_cons.1 hd with rfl | hd
    · exact ⟨o, by rw [phase_move hc, if_pos rfl]⟩
    · obtain ⟨o', ho'⟩ := h.isSet d hd
      have hdi : d ≠ i := by
        rintro rfl
        rw [phase_eq hc, hp] at ho'
        exact absurd ho' (by simp)
      exact ⟨o', by rw [phase_move hc, if_neg hdi, ho']⟩
  · exact h.not_nested hc (by rw [hp]; simp)

/-- A new call. -/
theorem call (h : Inv s) {partName : Str} {accessor : Accessor} {parent : Option ℕ}
    (hparent : ∀ p, parent = some p → ∃ c o, s.calls[p]? = some c ∧ c.phase = .building o) :
    Inv { s with calls := s.calls ++ [⟨partName, accessor, parent, .called⟩] } := by
  set s' : Derived := { s with calls := s.calls ++ [⟨partName, accessor, parent, .called⟩] } with hs'
  have hphase : ∀ j q, q ≠ .called → (s'.phase j = some q ↔ s.phase j = some q) := by
    intro j q hq
    simp only [hs', phase, List.getElem?_append]
    by_cases hj : j < s.calls.length
    · simp [hj]
    · by_cases hzero : j - s.calls.length = 0
      · simp [hj, hzero, Ne.symm hq]
      · simp [hj, hzero]
  have hclaimed : ∀ j o, s'.claimed j = some o ↔ s.claimed j = some o := by
    intro j o
    simp only [claimed, Option.bind_eq_some_iff]
    constructor
    · rintro ⟨q, hq, ho⟩
      exact ⟨q, (hphase j q (by rintro rfl; exact absurd ho (by simp [CallPhase.claimed]))).1 hq, ho⟩
    · rintro ⟨q, hq, ho⟩
      exact ⟨q, (hphase j q (by rintro rfl; exact absurd ho (by simp [CallPhase.claimed]))).2 hq, ho⟩
  refine ⟨?_, ?_, ?_, ?_, ?_, ?_⟩
  · intro o
    simp only [hclaimed]
    exact h.attempted o
  · intro j k o hj hk
    exact h.once j k o ((hclaimed j o).1 hj) ((hclaimed k o).1 hk)
  · intro o j
    rw [hphase j _ (by simp)]
    exact h.building o j
  · intro j o d hj
    exact (hclaimed d o).2 (h.waiting j o d ((hphase j _ (by simp)).1 hj))
  · intro d hd
    obtain ⟨o, ho⟩ := h.isSet d hd
    exact ⟨o, (hphase d _ (by simp)).2 ho⟩
  · rintro q j ⟨c, hc, hq, hover⟩
    have hbuilds : ∃ o, s.phase q = some (.building o) := by
      rcases Nat.lt_or_ge j s.calls.length with hj | hj
      · rw [hs', List.getElem?_append_left hj] at hc
        exact h.nested q j ⟨c, hc, hq, hover⟩
      · rw [hs', List.getElem?_append_right hj] at hc
        obtain rfl := List.mem_singleton.1 (List.mem_of_getElem? hc)
        obtain ⟨c', o, hc', ho⟩ := hparent q hq
        exact ⟨o, by rw [phase_eq hc', ho]⟩
    obtain ⟨o, ho⟩ := hbuilds
    exact ⟨o, (hphase q _ (by simp)).2 ho⟩

/-- **Every step keeps it.** -/
theorem step (h : Inv s) {e : DerivedEvent} (hs : s.step declared e = some s') : Inv s' := by
  have hquiet : ∀ {i : ℕ} {c : Call} {p q : CallPhase}, s.calls[i]? = some c → c.phase = p →
      p.claimed = none → p.isOver = false → q.claimed = none →
      (∀ o d, q = .waiting o d → s.claimed d = some o) → Inv (s.move i c q) := by
    rintro i c p q hc rfl hclaimed hover hclaimed' hwaits
    exact h.quiet hc hclaimed hover hclaimed' hwaits
  cases stepTo hs with
  | call hparent => exact h.call hparent
  | needless hc hp => exact hquiet hc hp rfl rfl rfl (by simp)
  | owned hc hp => exact hquiet hc hp rfl rfl rfl (by simp)
  | turnedAway hc hp => exact hquiet hc hp rfl rfl rfl (by simp)
  | unbuilt hc hp => exact hquiet hc hp rfl rfl rfl (by simp)
  | refused hc hp => exact hquiet hc hp rfl rfl rfl (by simp)
  | waits hc hp _ hbuilding =>
    refine hquiet hc hp rfl rfl rfl ?_
    intro o d hwaits
    obtain ⟨rfl, rfl⟩ := CallPhase.waiting.inj hwaits
    exact claimed_of_building ((h.building _ _).1 hbuilding)
  | late hc hp => exact hquiet hc hp rfl rfl rfl (by simp)
  | claims hc hp _ _ hfree => exact h.claims hc hp hfree
  | wakes hc hp hd => exact hquiet hc hp rfl rfl rfl (by simp)
  | finishes hc hp hover => exact h.finishes hc hp hover
  | sets hc hp => exact h.sets hc hp
  | effect => exact ⟨h.attempted, h.once, h.building, h.waiting, h.isSet, h.nested⟩

end Inv

theorem inv_run {ok : Derived → DerivedEvent → Prop} (h : Run (derivedParts declared) ok s) : Inv s :=
  h.invariant inv_init fun _ _ _ hinv _ hs => hinv.step hs

/-! ## Who waits for whom -/

inductive Awaits (s : Derived) : ℕ → ℕ → Prop where
  /-- A call waits for the event of another one. -/
  | event {i d : ℕ} {o : Owner} : s.phase i = some (.waiting o d) → d ∉ s.isSet → Awaits s i d
  /-- A build waits for the calls that are made in it. -/
  | nested {p i : ℕ} : s.Nested p i → Awaits s p i

variable (declared)

def ClaimedOnce (s : Derived) : Prop :=
  ∀ i j o, s.claimed i = some o → s.claimed j = some o → i = j

/-- What the calls promise, of the steps that meet a condition. -/
structure Settled (ok : Derived → DerivedEvent → Prop) (s : Derived) : Prop where
  /-- Who is after an owner and builds nothing returns when the owner is not being built. -/
  proceeds : ∀ e s' i p o, ok s e → s.step declared e = some s' → s.phase i = some p →
    p.after = some o → s'.phase i = some .passed → ∀ j, s.phase j ≠ some (.building o)
  /-- No call waits for a build that waits for it. -/
  acyclic : ∀ i, ¬ Relation.TransGen s.Awaits i i

/-- While an owner is being built, its object is found and has no children. -/
def patient (s : Derived) : DerivedEvent → Bool
  | .lookObject i found =>
    match s.phase i with
    | some (.looking o) => (found ∧ o ∉ s.children) ∨ s.building.get? o = none
    | _ => true
  | _ => true

/-- In the build of an owner, only parts of lower owners are looked up, as long as their owners
have not been built. -/
def ranked (rank : Owner → ℕ) (s : Derived) : DerivedEvent → Bool
  | .claim i =>
    match s.calls[i]? with
    | some ⟨_, accessor, some p, .claiming o⟩ =>
      match s.phase p with
      | some (.building o') =>
        accessor = .sync true ∨ (o ∈ s.attempted ∧ s.building.get? o = none) ∨ rank o < rank o'
      | _ => true
    | _ => true
  | _ => true

/-- The owner that a call builds or waits for. -/
def target : CallPhase → Option Owner
  | .building o | .waiting o _ => some o
  | _ => none

/-- Builds look down. -/
def RankInv (rank : Owner → ℕ) (s : Derived) : Prop :=
  ∀ p i q o o', s.Nested p i → s.phase p = some (.building o') → s.phase i = some q →
    target q = some o → rank o < rank o'

variable {declared} {rank : Owner → ℕ}

theorem RankInv.move {i : ℕ} {c : Call} {p : CallPhase} (h : RankInv rank s)
    (hc : s.calls[i]? = some c) (hover : c.phase.isOver = false) (hidle : ∀ j, ¬ s.Nested i j)
    (hdown : ∀ o q o', target p = some o → c.parent = some q → s.phase q = some (.building o') →
      rank o < rank o') : RankInv rank (s.move i c p) := by
  intro q j r o o' hnested hq hj ho
  have hold : s.Nested q j := by
    rcases hnested.of_move hc with ⟨rfl, hparent, -⟩ | ⟨-, hnested⟩
    · exact ⟨c, hc, hparent, hover⟩
    · exact hnested
  have hqi : q ≠ i := by
    rintro rfl
    exact hidle j hold
  rw [phase_move hc, if_neg hqi] at hq
  rw [phase_move hc] at hj
  by_cases hji : j = i
  · rw [if_pos hji] at hj
    obtain rfl := Option.some.inj hj
    obtain ⟨c', hc', hparent, -⟩ := hold
    rw [hji, hc] at hc'
    obtain rfl := Option.some.inj hc'
    exact hdown o q o' ho hparent hq
  · rw [if_neg hji] at hj
    exact h q j r o o' hold hq hj ho

theorem rankInv_init : RankInv rank init := by
  rintro p i q o o' ⟨c, hc, -⟩
  exact absurd hc (by simp [init])

/-- What the condition says of a call that comes to claim an owner. -/
theorem down_of_ranked {i q : ℕ} {c : Call} {o o' : Owner} (h : ranked rank s (.claim i) = true)
    (hc : s.calls[i]? = some c) (hp : c.phase = .claiming o) (hq : c.parent = some q)
    (ho' : s.phase q = some (.building o')) (haccessor : c.accessor ≠ .sync true)
    (hunbuilt : o ∈ s.attempted → s.building.get? o ≠ none) : rank o < rank o' := by
  obtain ⟨partName, accessor, parent, phase⟩ := c
  obtain rfl : phase = .claiming o := hp
  obtain rfl : parent = some q := hq
  simp only [ranked, hc, ho', decide_eq_true_eq] at h
  rcases h with hsync | ⟨hattempted, hnone⟩ | hlt
  · exact absurd hsync haccessor
  · exact absurd hnone (hunbuilt hattempted)
  · exact hlt

theorem RankInv.step {e : DerivedEvent} (h : RankInv rank s) (hinv : Inv s)
    (hranked : ranked rank s e = true) (hs : s.step declared e = some s') : RankInv rank s' := by
  have hquiet : ∀ {i : ℕ} {c : Call} {p q : CallPhase}, s.calls[i]? = some c → c.phase = p →
      p.isOver = false → (∀ o, p ≠ .building o) → target q = none → RankInv rank (s.move i c q) := by
    rintro i c p q hc rfl hover hidle htarget
    refine h.move hc hover (hinv.not_nested hc hidle) fun o q o' ho _ _ => ?_
    rw [htarget] at ho
    exact absurd ho (by simp)
  cases stepTo hs with
  | @call partName accessor parent hparent =>
    rintro q j r o o' ⟨c, hc, hq, hover⟩ hqo hj ho
    rcases Nat.lt_or_ge j s.calls.length with hlt | hge
    · rw [List.getElem?_append_left hlt] at hc
      have hnested : s.Nested q j := ⟨c, hc, hq, hover⟩
      obtain ⟨o'', ho''⟩ := hinv.nested q j hnested
      have hqlt : q < s.calls.length := by
        obtain ⟨c', hc', -⟩ := Option.map_eq_some_iff.1 ho''
        exact (List.getElem?_eq_some_iff.1 hc').1
      simp only [phase, List.getElem?_append_left hqlt, List.getElem?_append_left hlt] at hqo hj
      exact h q j r o o' hnested hqo hj ho
    · -- the new call builds nothing yet
      simp only [phase, List.getElem?_append_right hge] at hj
      obtain ⟨c', hc', rfl⟩ := Option.map_eq_some_iff.1 hj
      obtain rfl := List.mem_singleton.1 (List.mem_of_getElem? hc')
      exact absurd ho (by simp [target])
  | needless hc hp => exact hquiet hc hp rfl (by simp) rfl
  | owned hc hp => exact hquiet hc hp rfl (by simp) rfl
  | turnedAway hc hp => exact hquiet hc hp rfl (by simp) rfl
  | unbuilt hc hp => exact hquiet hc hp rfl (by simp) rfl
  | refused hc hp => exact hquiet hc hp rfl (by simp) rfl
  | @waits i d c o hc hp haccessor hbuilding =>
    refine h.move hc (by rw [hp]; rfl) (hinv.not_nested hc (by rw [hp]; simp)) ?_
    intro o₁ q o' ho₁ hq ho'
    obtain rfl := Option.some.inj ho₁
    refine down_of_ranked hranked hc hp hq ho' haccessor fun _ => ?_
    rw [hbuilding]
    simp
  | late hc hp => exact hquiet hc hp rfl (by simp) rfl
  | @claims i c o hc hp haccessor hbuilding hfree =>
    refine h.move hc (by rw [hp]; rfl) (hinv.not_nested hc (by rw [hp]; simp)) ?_
    intro o₁ q o' ho₁ hq ho'
    obtain rfl := Option.some.inj ho₁
    exact down_of_ranked hranked hc hp hq ho' haccessor fun hattempted => absurd hattempted hfree
  | wakes hc hp hd => exact hquiet hc hp rfl (by simp) rfl
  | @finishes i c o hc hp hover =>
    refine h.move hc (by rw [hp]; rfl) ?_ fun o q o' ho => absurd ho (by simp [target])
    rintro j ⟨c', hc', hparent, hnot⟩
    rw [hover c' (List.mem_of_getElem? hc') hparent] at hnot
    exact absurd hnot (by simp)
  | sets hc hp => exact hquiet hc hp rfl (by simp) rfl
  | effect => exact h

/-- What a call waits for is lighter than the call. -/
def weight (rank : Owner → ℕ) : Option CallPhase → ℕ
  | some (.building o) => 2 * rank o + 2
  | some (.waiting o _) => 2 * rank o + 3
  | _ => 0

theorem weight_le_of_claimed {i : ℕ} {o : Owner} (h : s.claimed i = some o) :
    weight rank (s.phase i) ≤ 2 * rank o + 2 := by
  obtain ⟨p, hp, ho⟩ := Option.bind_eq_some_iff.1 h
  rw [hp]
  cases p with
  | building o' =>
    obtain rfl := Option.some.inj ho
    exact Nat.le_refl _
  | waiting o' d => exact absurd ho (by simp [CallPhase.claimed])
  | _ => exact Nat.zero_le _

theorem weight_lt_of_target {p : CallPhase} {o' : Owner}
    (h : ∀ o, target p = some o → rank o < rank o') :
    weight rank (some p) < 2 * rank o' + 2 := by
  cases p with
  | building o =>
    have hlt := h o rfl
    simp only [weight]
    omega
  | waiting o d =>
    have hlt := h o rfl
    simp only [weight]
    omega
  | _ =>
    simp only [weight]
    omega

theorem weight_lt_of_awaits (h : RankInv rank s) (hinv : Inv s) {i j : ℕ} (hij : s.Awaits i j) :
    weight rank (s.phase j) < weight rank (s.phase i) := by
  cases hij with
  | @event o hi hd =>
    have hle : weight rank (s.phase j) ≤ 2 * rank o + 2 :=
      weight_le_of_claimed (hinv.waiting _ _ _ hi)
    rw [hi]
    show weight rank (s.phase j) < 2 * rank o + 3
    omega
  | nested hnested =>
    obtain ⟨o', ho'⟩ := hinv.nested _ _ hnested
    obtain ⟨c, hc, hparent, hover⟩ := hnested
    rw [ho', phase_eq hc]
    apply weight_lt_of_target
    exact fun o ho => h _ _ _ o o' ⟨c, hc, hparent, hover⟩ ho' (phase_eq hc) ho

/-- A call that returns without having claimed its owner finds that it is not being built. -/
theorem proceeds_step {e : DerivedEvent} (hinv : Inv s) (hpatient : patient s e = true)
    (hs : s.step declared e = some s') {i : ℕ} {p : CallPhase} {o : Owner}
    (hp : s.phase i = some p) (ho : p.after = some o) (hpassed : s'.phase i = some .passed) (j : ℕ) :
    s.phase j ≠ some (.building o) := by
  have hmoved : ∀ {k : ℕ} {c : Call} {q : CallPhase}, s.calls[k]? = some c →
      (s.move k c q).phase i = some .passed → i = k ∧ c.phase = p ∧ q = .passed := by
    intro k c q hc hq
    rw [phase_move hc] at hq
    by_cases hik : i = k
    · subst hik
      rw [if_pos rfl] at hq
      rw [phase_eq hc] at hp
      exact ⟨rfl, Option.some.inj hp, Option.some.inj hq⟩
    · rw [if_neg hik, hp] at hq
      obtain rfl := Option.some.inj hq
      exact absurd ho (by simp [CallPhase.after])
  have hnot : s.building.get? o = none → s.phase j ≠ some (.building o) := by
    intro hnone hj
    rw [(hinv.building o j).2 hj] at hnone
    exact absurd hnone (by simp)
  cases stepTo hs with
  | call hparent =>
    -- a call that is there stays as it is
    obtain ⟨c, hc, rfl⟩ := Option.map_eq_some_iff.1 hp
    obtain ⟨hi, -⟩ := List.getElem?_eq_some_iff.1 hc
    simp only [phase, List.getElem?_append_left hi, hc] at hpassed
    rw [Option.some.inj hpassed] at ho
    exact absurd ho (by simp [CallPhase.after])
  | needless hc hq =>
    obtain ⟨-, rfl, -⟩ := hmoved hc hpassed
    rw [hq] at ho
    exact absurd ho (by simp [CallPhase.after])
  | owned hc hq => exact absurd (hmoved hc hpassed).2.2 (by simp)
  | @turnedAway k c o' found hc hq haway =>
    obtain ⟨rfl, rfl, -⟩ := hmoved hc hpassed
    rw [hq] at ho
    obtain rfl := Option.some.inj ho
    apply hnot
    simp only [patient, phase_eq hc, hq, decide_eq_true_eq] at hpatient
    rcases hpatient with ⟨hfound, hchildren⟩ | hnone
    · rcases haway with hlost | hmem
      · rw [hlost] at hfound
        exact absurd hfound (by simp)
      · exact absurd hmem hchildren
    · exact hnone
  | unbuilt hc hq => exact absurd (hmoved hc hpassed).2.2 (by simp)
  | refused hc hq => exact absurd (hmoved hc hpassed).2.2 (by simp)
  | waits hc hq _ hbuilding => exact absurd (hmoved hc hpassed).2.2 (by simp)
  | late hc hq hnone =>
    obtain ⟨-, rfl, -⟩ := hmoved hc hpassed
    rw [hq] at ho
    obtain rfl := Option.some.inj ho
    exact hnot hnone
  | claims hc hq _ _ _ => exact absurd (hmoved hc hpassed).2.2 (by simp)
  | @wakes k d c o' hc hq hd =>
    obtain ⟨rfl, rfl, -⟩ := hmoved hc hpassed
    rw [hq] at ho
    obtain rfl := Option.some.inj ho
    -- the event belongs to the one call that has claimed the owner, and that call has returned
    intro hj
    rw [hq] at hp
    have hd' := hinv.waiting _ _ _ hp
    obtain rfl := hinv.once _ _ _ hd' (claimed_of_building hj)
    obtain ⟨o'', ho''⟩ := hinv.isSet _ hd
    rw [hj] at ho''
    exact absurd ho'' (by simp)
  | finishes hc hq _ => exact absurd (hmoved hc hpassed).2.2 (by simp)
  | sets hc hq => exact absurd (hmoved hc hpassed).2.2 (by simp)
  | effect =>
    have hsame : s.phase i = some .passed := hpassed
    rw [hp] at hsame
    obtain rfl := Option.some.inj hsame
    exact absurd ho (by simp [CallPhase.after])

/-- An assembly `robot` and a scene `world`, both of an imported type. -/
def twoOwners : Declared DigitFloat where
  objectConfigs
    | .assembly => Dict.empty.set "robot".toList (.dict [("type".toList, .str "urdf".toList)])
    | .scene => Dict.empty.set "world".toList (.dict [("type".toList, .str "sdf".toList)])
  factories
    | .assembly => ["assy".toList]
    | .scene => ["assy".toList]

def robot : Owner := ⟨.assembly, "robot".toList⟩

def world : Owner := ⟨.scene, "world".toList⟩

/-- The robot has its first child, and a call for another of its parts does not wait. -/
theorem not_settled_midBuild : ∃ s, Run (derivedParts twoOwners) (fun _ _ => True) s ∧
    ¬ Settled twoOwners (fun _ _ => True) s := by
  have hafter : ((derivedParts twoOwners).after (fun _ _ => True)
      [.call "robot/base".toList .async none, .lookPart 0, .lookObject 0 true, .claim 0,
        .effect ["robot/base".toList] [robot], .call "robot/wheel".toList .async none,
        .lookPart 1]).map
      (fun s => (s.phase 0, s.phase 1, (s.step twoOwners (.lookObject 1 true)).map (·.phase 1))) =
        some (some (.building robot), some (.looking robot), some (some .passed)) := by decide
  obtain ⟨s, hs, hseen⟩ := Option.map_eq_some_iff.1 hafter
  obtain ⟨hbuilding, hrest⟩ := Prod.mk.inj hseen
  obtain ⟨hlooking, hpassed⟩ := Prod.mk.inj hrest
  obtain ⟨s', hs', hpassed⟩ := Option.map_eq_some_iff.1 hpassed
  refine ⟨s, run_after hs, fun h => ?_⟩
  exact h.proceeds (.lookObject 1 true) s' 1 (.looking robot) robot trivial hs' hlooking rfl hpassed
    0 hbuilding

end Derived

end PartCAD.Package
