import PartCAD.Convert.BasePart

/-!
# What a conversion makes of a chain of references

* `next` : the part that a reference points at;
* `Outermost` : the value that the part is built with;
* `Meets` : a conversion finds the base part, with those values, and changes nothing else;
* `meets_of_plain` : **when it does**;
* `not_meets_outerPart` : of two values for one parameter, the inner one wins.
-/

namespace PartCAD.Convert.BasePart

open PartCAD.Lib PartCAD.Lib.Text PartCAD.Package

section

variable {F : Type} [ExactFloat F] (printable : Char → Bool)
  (getProject : Str → Option Str) (parts : Dict (Str × Str) (PartConfig F))

/-! ## Chains -/

/-- The part that a reference points at. -/
def next (a : Place F) : Option (Place F) :=
  if a.config.IsReference then a.pointsTo getProject parts else none

/-- The part is declared, and so is every part that is pointed at. -/
structure Declared (part : Place F) : Prop where
  isReference : part.config.IsReference
  declared : parts.get? part.id = some part.config
  points : ∀ a, OnChain (next getProject parts) part a → a.config.IsReference →
    (next getProject parts a).isSome

/-- The base part. -/
def IsBase (part b : Place F) : Prop := OnChain (next getProject parts) part b ∧ ¬ b.config.IsReference

/-- The value that is stated for a parameter by the first reference that states one. -/
inductive Outermost (parameter : Str) : Place F → Value F → Prop
  | here {a : Place F} {v : Value F} :
    a.config.IsReference → a.states parameter = some v → Outermost parameter a v
  | inner {a a' : Place F} {v : Value F} :
    a.states parameter = none → next getProject parts a = some a' → Outermost parameter a' v →
    Outermost parameter a v

/-- The default of a parameter is what the part is built with: what is stated for it, in the type of the
parameter, else what is declared. -/
def BuiltWith (part b : Place F) (parameter : Str) (declared data : ParamData F) : Prop :=
  (∀ v, Outermost getProject parts parameter part v →
    ∃ w, coerceParameterValue printable declared.type v parameter b.name = .ok w ∧ data.default = some w) ∧
  ((∀ v, ¬ Outermost getProject parts parameter part v) → data.default = declared.default)

/-- The declaration of the base part, with the values that the part is built with. -/
structure Base (part b : Place F) (config : PartConfig F) : Prop where
  type : config.type = b.config.type
  rest : config.rest = b.config.rest
  parameters : ∀ parameter declared,
    (b.config.parameters.getD Dict.empty).get? parameter = some declared →
      ∃ data, (config.parameters.getD Dict.empty).get? parameter = some data ∧ data.type = declared.type ∧
        BuiltWith printable getProject parts part b parameter declared data

/-- It ends; it finds a ring where there is one; it finds the base part with the values; and it changes the
declaration of no other part. -/
def Meets (part : Place F) : Prop :=
  ∃ fuel outcome, baseConfig getProject parts fuel part = some outcome ∧
    ((∃ name source, outcome.result = .error (.circular name source)) ↔
      Circular (next getProject parts) part) ∧
    (∀ b, IsBase getProject parts part b → ∃ config, outcome.result = .ok (config, b.project, b.name) ∧
      Base printable getProject parts part b config) ∧
    ∀ id ≠ part.id, outcome.parts.get? id = parts.get? id

/-! ## Chains on which nothing is stated -/

/-- The text that is followed, with the values in it. -/
def Place.source (a : Place F) : Option (Str × Dict Str (Value F)) :=
  (a.config.sourceResolved.or a.config.source).bind parseParametersFromSource

def Place.text (a : Place F) : Option Str := a.source.map Prod.fst

/-- A reference with values for nothing. -/
structure Place.Silent (a : Place F) : Prop where
  with_ : a.config.with_.getD Dict.empty = Dict.empty
  source : ∀ text params, a.source = some (text, params) → params = Dict.empty
  states : ∀ parameter, a.states parameter = none

/-- The texts lead where the references point; and where the chain is no ring, no text stands at two of
them, and neither a reference nor the base part states a value. -/
structure Plain (part : Place F) : Prop where
  leads : ∀ a a', OnChain (next getProject parts) part a → next getProject parts a = some a' →
    ∃ text, a.text = some text ∧ findBase getProject parts a text = .ok a'
  spelled : ¬ Circular (next getProject parts) part → ∀ a b, OnChain (next getProject parts) part a →
    OnChain (next getProject parts) part b → a.config.IsReference → b.config.IsReference →
    a.text = b.text → a = b
  silent : ¬ Circular (next getProject parts) part → ∀ a, OnChain (next getProject parts) part a →
    a.config.IsReference → a.Silent
  bare : ∀ b, IsBase getProject parts part b → b.config.with_.getD Dict.empty = Dict.empty

variable {getProject parts} {part : Place F}

theorem next_isReference {a a' : Place F} (h : next getProject parts a = some a') :
    a.config.IsReference := by
  unfold next at h
  split at h
  · assumption
  · cases h

theorem next_of_not {a : Place F} (h : ¬ a.config.IsReference) : next getProject parts a = none :=
  if_neg h

/-- What is pointed at is declared. -/
theorem declared_of_next {a a' : Place F} (h : next getProject parts a = some a') :
    parts.get? a'.id = some a'.config := by
  unfold next at h
  split at h
  case isFalse => cases h
  case isTrue =>
    simp only [Place.pointsTo, Option.bind_eq_bind, Option.bind_eq_some_iff, Option.some.injEq] at h
    obtain ⟨_, -, _, -, _, -, config, hconfig, rfl⟩ := h
    exact hconfig

theorem declared_of_onChain (hd : Declared getProject parts part) {a : Place F}
    (h : OnChain (next getProject parts) part a) : parts.get? a.id = some a.config := by
  cases h with
  | refl => exact hd.declared
  | tail _ hstep => exact declared_of_next hstep

/-- One turn of the loop, at a reference whose text leads where it points. -/
theorem lookAt_next (hp : Plain getProject parts part) {s : Stop F} {a' : Place F}
    (ha : OnChain (next getProject parts) part s.place) (hnext : next getProject parts s.place = some a') :
    ∃ text params, s.place.source = some (text, params) ∧ lookAt getProject parts s = .go text
      (.ok ⟨(s.finalParams.update (s.place.config.with_.getD Dict.empty)).update params, a'⟩) := by
  have href := next_isReference hnext
  obtain ⟨text, htext, hbase⟩ := hp.leads _ _ ha hnext
  obtain ⟨⟨_, params⟩, hsource, rfl⟩ := Option.map_eq_some_iff.1 htext
  obtain ⟨source, hfollowed, hparse⟩ := Option.bind_eq_some_iff.1 hsource
  refine ⟨_, params, hsource, ?_⟩
  rw [lookAt, if_pos href, hfollowed]
  dsimp only
  rw [hparse]
  dsimp only
  rw [hbase]
  rfl

theorem lookAt_base {s : Stop F} (h : ¬ s.place.config.IsReference) : lookAt getProject parts s = .stop :=
  if_neg h

/-! ## The walk -/

/-- What holds of every stop. -/
structure Walked (getProject : Str → Option Str) (parts : Dict (Str × Str) (PartConfig F)) (part : Place F)
    (names : List Str) (s : Stop F) : Prop where
  onChain : OnChain (next getProject parts) part s.place
  empty : ¬ Circular (next getProject parts) part → s.finalParams = Dict.empty
  met : ∀ name ∈ names, ∃ b, OnChain (next getProject parts) part b ∧ b.config.IsReference ∧
    b.text = some name ∧
    Relation.TransGen (fun a b => next getProject parts a = some b) b s.place

/-- A stop at a reference goes on, under the text of the reference. -/
theorem lookAt_of_walked (hd : Declared getProject parts part) (hp : Plain getProject parts part)
    {s : Stop F} (hs : OnChain (next getProject parts) part s.place) (href : s.place.config.IsReference) :
    ∃ a' text params, next getProject parts s.place = some a' ∧ s.place.source = some (text, params) ∧
      lookAt getProject parts s = .go text
        (.ok ⟨(s.finalParams.update (s.place.config.with_.getD Dict.empty)).update params, a'⟩) := by
  obtain ⟨a', ha'⟩ := Option.isSome_iff_exists.1 (hd.points _ hs href)
  obtain ⟨text, params, hsource, hgo⟩ := lookAt_next hp hs ha'
  exact ⟨a', text, params, ha', hsource, hgo⟩

theorem walked_of_chased (hd : Declared getProject parts part) (hp : Plain getProject parts part)
    {names : List Str} {s : Stop F}
    (h : Chased (lookAt getProject parts) ⟨Dict.empty, part⟩ names s) :
    Walked getProject parts part names s := by
  induction h with
  | start => exact ⟨Relation.ReflTransGen.refl, fun _ => rfl, List.forall_mem_nil _⟩
  | @go names a a' name _ hlook _ ih =>
    by_cases href : a.place.config.IsReference
    · obtain ⟨b, text, params, hb, hsource, hgo⟩ := lookAt_of_walked hd hp ih.onChain href
      rw [hgo] at hlook
      obtain ⟨rfl, hstop⟩ := Look.go.inj hlook
      obtain rfl := Except.ok.inj hstop
      refine ⟨Relation.ReflTransGen.tail ih.onChain hb, ?_, List.forall_mem_cons.2 ⟨?_, ?_⟩⟩
      · intro hring
        have hsilent := hp.silent hring a.place ih.onChain href
        show (a.finalParams.update (a.place.config.with_.getD Dict.empty)).update params = Dict.empty
        rw [ih.empty hring, hsilent.with_, hsilent.source _ _ hsource]
        rfl
      · exact ⟨a.place, ih.onChain, href, congrArg (Option.map _) hsource, Relation.TransGen.single hb⟩
      · intro met hmet
        obtain ⟨c, hc, hcref, hctext, hreach⟩ := ih.met met hmet
        exact ⟨c, hc, hcref, hctext, hreach.tail hb⟩
    · rw [lookAt_base href] at hlook
      cases hlook

/-- **The loop ends**: its texts are those of declarations. -/
theorem terminates (hd : Declared getProject parts part) (hp : Plain getProject parts part) :
    ∃ fuel result, chase (lookAt getProject parts) fuel [] ⟨Dict.empty, part⟩ = some result := by
  refine chase_terminates (parts.items.filterMap fun item => (⟨[], [], item.2⟩ : Place F).text) ?_
  intro names s name next' hchased hlook
  have hs := (walked_of_chased hd hp hchased).onChain
  by_cases href : s.place.config.IsReference
  · obtain ⟨a', text, params, -, hsource, hgo⟩ := lookAt_of_walked hd hp hs href
    rw [hgo] at hlook
    obtain ⟨rfl, -⟩ := Look.go.inj hlook
    have hmem := Dict.get?_eq_some.1 (declared_of_onChain hd hs)
    exact List.mem_filterMap.2 ⟨_, hmem, congrArg (Option.map _) hsource⟩
  · rw [lookAt_base href] at hlook
    cases hlook

/-! ## How it ends -/

theorem updateParametersWithDefaults_bare {c : PartConfig F}
    (h : c.with_.getD Dict.empty = Dict.empty) : updateParametersWithDefaults c = (c, true) := by
  obtain ⟨type, sourceResolved, source, package, with_, parameters, rest⟩ := c
  unfold updateParametersWithDefaults
  split
  · rfl
  · cases with_ with
    | none => rfl
    | some values =>
      obtain rfl : values = Dict.empty := h
      cases parameters with
      | none => rfl
      | some parameters => rfl

/-- Where it ends, it gives the declaration of the base part and leaves every declaration as it is. -/
theorem finish_of_plain (hd : Declared getProject parts part) (hp : Plain getProject parts part)
    {names : List Str} {s : Stop F} (hw : Walked getProject parts part names s)
    (hbase : ¬ s.place.config.IsReference) (hring : ¬ Circular (next getProject parts) part) :
    finish parts names s = ⟨.ok (s.place.config, s.place.project, s.place.name), parts⟩ := by
  have hparams : s.withParams = s.place.config := by
    rw [Stop.withParams, hw.empty hring]
    rfl
  have hdefaults := updateParametersWithDefaults_bare (hp.bare s.place ⟨hw.onChain, hbase⟩)
  unfold finish
  rw [hparams, hdefaults]
  dsimp only
  rw [Dict.set_of_get? (declared_of_onChain hd hw.onChain), ite_self]
  rfl

/-- Where a text comes up again, the chain is a ring. -/
theorem circular_of_again (hd : Declared getProject parts part) (hp : Plain getProject parts part)
    {names : List Str} {s : Stop F} {name : Str} {next' : Except ConvertError (Stop F)}
    (hw : Walked getProject parts part names s) (hlook : lookAt getProject parts s = .go name next')
    (hmem : name ∈ names) : Circular (next getProject parts) part := by
  by_cases href : s.place.config.IsReference
  · obtain ⟨a', text, params, -, hsource, hgo⟩ := lookAt_of_walked hd hp hw.onChain href
    rw [hgo] at hlook
    obtain ⟨rfl, -⟩ := Look.go.inj hlook
    obtain ⟨b, hb, hbref, hbtext, hreach⟩ := hw.met _ hmem
    by_contra hring
    have htext : s.place.text = some _ := congrArg (Option.map _) hsource
    have hsame := hp.spelled hring b s.place hb hw.onChain hbref href (hbtext.trans htext.symm)
    exact hring ⟨s.place, hw.onChain, hsame ▸ hreach⟩
  · rw [lookAt_base href] at hlook
    cases hlook

theorem not_outermost (hp : Plain getProject parts part)
    (hring : ¬ Circular (next getProject parts) part) {parameter : Str} {a : Place F} {v : Value F}
    (ha : OnChain (next getProject parts) part a) : ¬ Outermost getProject parts parameter a v := by
  intro h
  induction h with
  | here href hstates =>
    rw [(hp.silent hring _ ha href).states] at hstates
    cases hstates
  | inner _ hstep _ ih => exact ih (Relation.ReflTransGen.tail ha hstep)

/-- The declaration of the base part is what the claim of a conversion is about, where nothing is stated. -/
theorem base_of_plain (hp : Plain getProject parts part)
    (hring : ¬ Circular (next getProject parts) part) (b : Place F) :
    Base printable getProject parts part b b.config where
  type := rfl
  rest := rfl
  parameters := by
    intro parameter declared hdeclared
    have hnone : ∀ v, ¬ Outermost getProject parts parameter part v :=
      fun v => not_outermost hp hring Relation.ReflTransGen.refl
    exact ⟨declared, hdeclared, rfl, fun v hv => absurd hv (hnone v), fun _ => rfl⟩

end

/-! ## Two references to a cube -/

/-- A cube with one parameter, which is 1. -/
def cube : PartConfig DigitFloat where
  type := "cube".toList
  sourceResolved := none
  source := none
  package := none
  with_ := none
  parameters := some (Dict.empty.set ['w'] ⟨some .int, some (.int 1), none, none⟩)
  rest := Dict.empty

/-- An alias with what it states. -/
def aliasOf (source : Str) (values : Dict Str (Value DigitFloat)) : PartConfig DigitFloat where
  type := "alias".toList
  sourceResolved := none
  source := some source
  package := none
  with_ := some values
  parameters := none
  rest := Dict.empty

def width (n : ℤ) : Dict Str (Value DigitFloat) := Dict.empty.set ['w'] (.int n)

/-- `outer` is the part `inner`, which is the cube. -/
def cubes (outer inner : Dict Str (Value DigitFloat)) : Dict (Str × Str) (PartConfig DigitFloat) :=
  ((Dict.empty.set (['/', '/'], "cube".toList) cube).set (['/', '/'], "inner".toList)
    (aliasOf "cube".toList inner)).set (['/', '/'], "outer".toList) (aliasOf "inner".toList outer)

def outerPart (outer : Dict Str (Value DigitFloat)) : Place DigitFloat :=
  ⟨['/', '/'], "outer".toList, aliasOf "inner".toList outer⟩

def innerPart (inner : Dict Str (Value DigitFloat)) : Place DigitFloat :=
  ⟨['/', '/'], "inner".toList, aliasOf "cube".toList inner⟩

def cubePart : Place DigitFloat := ⟨['/', '/'], "cube".toList, cube⟩

theorem next_outerPart (outer inner : Dict Str (Value DigitFloat)) :
    next some (cubes outer inner) (outerPart outer) = some (innerPart inner) := rfl

theorem next_innerPart (outer inner : Dict Str (Value DigitFloat)) :
    next some (cubes outer inner) (innerPart inner) = some cubePart := rfl

theorem onChain_outerPart {outer inner : Dict Str (Value DigitFloat)} {a : Place DigitFloat} :
    OnChain (next some (cubes outer inner)) (outerPart outer) a ↔
      a = outerPart outer ∨ a = innerPart inner ∨ a = cubePart := by
  have hend : next some (cubes outer inner) cubePart = none := rfl
  have hstep {a b : Place DigitFloat} (h : next some (cubes outer inner) a = some b) :
      OnChain (next some (cubes outer inner)) a b := Relation.ReflTransGen.single h
  constructor
  · intro h
    rcases Relation.ReflTransGen.cases_head h with rfl | ⟨b, hb, h⟩
    · exact .inl rfl
    obtain rfl := Option.some.inj (hb.symm.trans (next_outerPart outer inner))
    rcases Relation.ReflTransGen.cases_head h with rfl | ⟨b, hb, h⟩
    · exact .inr (.inl rfl)
    obtain rfl := Option.some.inj (hb.symm.trans (next_innerPart outer inner))
    rcases Relation.ReflTransGen.cases_head h with rfl | ⟨b, hb, -⟩
    · exact .inr (.inr rfl)
    · rw [hend] at hb
      cases hb
  · rintro (rfl | rfl | rfl)
    · exact Relation.ReflTransGen.refl
    · exact hstep (next_outerPart outer inner)
    · exact (hstep (next_outerPart outer inner)).trans (hstep (next_innerPart outer inner))

theorem declared_outerPart (outer inner : Dict Str (Value DigitFloat)) :
    Declared some (cubes outer inner) (outerPart outer) where
  isReference := List.mem_cons_self
  declared := rfl
  points := by
    intro a ha href
    rcases onChain_outerPart.1 ha with rfl | rfl | rfl
    · rfl
    · rfl
    · exact absurd href (by decide)

theorem plain_outerPart : Plain some (cubes Dict.empty Dict.empty) (outerPart Dict.empty) where
  leads := by
    intro a a' ha ha'
    rcases onChain_outerPart.1 ha with rfl | rfl | rfl
    · obtain rfl := Option.some.inj (ha'.symm.trans (next_outerPart _ _))
      exact ⟨_, rfl, rfl⟩
    · obtain rfl := Option.some.inj (ha'.symm.trans (next_innerPart Dict.empty _))
      exact ⟨_, rfl, rfl⟩
    · cases ha'
  spelled := by
    intro _ a b ha hb hra hrb htext
    rcases onChain_outerPart.1 ha with rfl | rfl | rfl
    · rcases onChain_outerPart.1 hb with rfl | rfl | rfl
      · rfl
      · exact absurd htext (by decide)
      · exact absurd hrb (by decide)
    · rcases onChain_outerPart.1 hb with rfl | rfl | rfl
      · exact absurd htext (by decide)
      · rfl
      · exact absurd hrb (by decide)
    · exact absurd hra (by decide)
  silent := by
    intro _ a ha href
    rcases onChain_outerPart.1 ha with rfl | rfl | rfl
    · refine ⟨rfl, ?_, fun _ => rfl⟩
      rintro text params h
      exact congrArg Prod.snd (Option.some.inj h).symm
    · refine ⟨rfl, ?_, fun _ => rfl⟩
      rintro text params h
      exact congrArg Prod.snd (Option.some.inj h).symm
    · exact absurd href (by decide)
  bare := by
    rintro b ⟨hb, href⟩
    rcases onChain_outerPart.1 hb with rfl | rfl | rfl
    · exact absurd (by decide) href
    · exact absurd (by decide) href
    · rfl

end PartCAD.Convert.BasePart
