import Mathlib.Data.Finset.Card
import Mathlib.Data.Finset.Dedup
import Mathlib.Data.Finset.SDiff
import PartCAD.Lib.Text

/-!
# A client that builds first what it is told to

A service refuses a request for which others have to come first, and names them.  The client makes
those, each of which may be refused in its turn, and asks again.

* `pendingSubassemblies`, `identity`, `requestParams` : what both ends agree on;
* `callStaging` : the client, of any service;
* `callStaging_terminates` : **it ends** if what the service names is from a finite set;
* `callStaging_rule` : what holds of an exchange, from what holds of each request.
-/

namespace PartCAD.Staging

open PartCAD.Lib PartCAD.Lib.Text

/-! ## What both ends agree on -/

/-- `RETRY_LATER` -/
def retryLater : Int := -32004

/-- `INSTANTIATE_METHOD` -/
def instantiateMethod : Str := "assembly.instantiate".toList

/-- `KIND_ASSEMBLY` -/
def kindAssembly : Str := "assembly".toList

/-- An entry of a refusal. -/
structure Item where
  package : Option Str
  name : Option Str
  kind : Option Str
  deriving DecidableEq

/-- An error of the service, with what its data lists under `subassemblies`; what is no dictionary there
is `none`. -/
structure ServiceError where
  code : Int
  message : Str
  subassemblies : Option (List (Option Item))

/-- `value or default` -/
def orElse (value : Option Str) (default : Str) : Str :=
  match value with
  | none => default
  | some [] => default
  | some s => s

/-- `identity` -/
def identity (item : Item) : Str :=
  let name := orElse item.package [] ++ ':' :: orElse item.name []
  let kind := orElse item.kind kindAssembly
  if kind = kindAssembly then name else name ++ " (".toList ++ kind ++ ")".toList

/-- `", ".join` of the identities -/
def identities : List Item → Str
  | [] => []
  | [item] => identity item
  | item :: items => identity item ++ ", ".toList ++ identities items

/-- `pending_subassemblies` -/
def pendingSubassemblies (e : ServiceError) : List Item :=
  if e.code = retryLater then
    ((e.subassemblies.getD []).filterMap id).filter fun item => orElse item.name [] ≠ []
  else []

/-- `error_message` and `error_data` -/
def refusal (items : List Item) : ServiceError where
  code := retryLater
  message := "Build these sub-assemblies first, then ask again: ".toList ++ identities items
  subassemblies := some (items.map some)

/-- A request, with what the service reads of its parameters. -/
structure Request where
  method : Str
  package : Option Str
  name : Option Str
  kind : Option Str
  cacheOnly : Bool
  context : Option Str

/-- `request_params` -/
def requestParams (item : Item) (context : Option Str) : Request where
  method := instantiateMethod
  package := item.package
  name := item.name
  kind := some (orElse item.kind kindAssembly)
  cacheOnly := true
  context := context

/-! ## The client -/

/-- How a request ends: with a result, with an error of the service, or with none of these, where the
service says nothing for too long or goes away. -/
inductive Reply (ρ : Type) where
  | result (r : ρ)
  | error (e : ServiceError)
  | lost (message : Str)

def Reply.isResult {ρ : Type} : Reply ρ → Bool
  | .result _ => true
  | _ => false

def askedAgain (e : ServiceError) (askedFor : List Item) : ServiceError where
  code := e.code
  message :=
    "The PartCAD service asked again for sub-assemblies it has already been told to build: ".toList ++
      identities askedFor
  subassemblies := e.subassemblies

section

variable {σ ρ : Type}

/-- The client makes a request for each of the items. -/
def stageAll (stage : Item → σ → Finset Str → Option (Reply ρ × σ × Finset Str)) :
    List Item → σ → Finset Str → Option (Option (Reply ρ) × σ × Finset Str)
  | [], s, staged => some (none, s, staged)
  | item :: items, s, staged =>
    match stage item s (insert (identity item) staged) with
    | none => none
    | some (.result _, s, staged) => stageAll stage items s staged
    -- an error leaves the loop, and `_call_staging`
    | some (raised, s, staged) => some (some raised, s, staged)

variable (service : Request → σ → Reply ρ × σ)

/-- `DaemonClient._call_staging`, with a bound on how deep it goes and how often it asks. -/
def callStaging : ℕ → Request → σ → Finset Str → Option (Reply ρ × σ × Finset Str)
  | 0, _, _, _ => none
  | fuel + 1, request, s, staged =>
    match service request s with
    | (.error e, s) =>
      let askedFor := pendingSubassemblies e
      let pending := askedFor.filter fun item => identity item ∉ staged
      if askedFor = [] then some (.error e, s, staged)
      else if pending = [] then some (.error (askedAgain e askedFor), s, staged)
      else
        match stageAll (fun item => callStaging fuel (requestParams item request.context)) pending s
            staged with
        | none => none
        | some (some raised, s, staged) => some (raised, s, staged)
        | some (none, s, staged) => callStaging fuel request s staged
    | (reply, s) => some (reply, s, staged)

/-- `DaemonClient.call` -/
def call (fuel : ℕ) (request : Request) (s : σ) : Option (Reply ρ × σ × Finset Str) :=
  callStaging service fuel request s ∅

/-! ## How an exchange goes on -/

variable {service}

/-- A request is answered, or names only what has been asked for already, or something new. -/
theorem service_cases (service : Request → σ → Reply ρ × σ) (request : Request) (s : σ)
    (staged : Finset Str) :
    (∃ reply s₁, service request s = (reply, s₁) ∧
      ∀ e, reply = .error e → pendingSubassemblies e = []) ∨
    (∃ e s₁, service request s = (.error e, s₁) ∧ pendingSubassemblies e ≠ [] ∧
      ∀ item ∈ pendingSubassemblies e, identity item ∈ staged) ∨
    ∃ e s₁ item items, service request s = (.error e, s₁) ∧
      (pendingSubassemblies e).filter (fun item => identity item ∉ staged) = item :: items := by
  rcases service request s with ⟨reply, s₁⟩
  cases reply with
  | result r => exact .inl ⟨_, s₁, rfl, nofun⟩
  | lost message => exact .inl ⟨_, s₁, rfl, nofun⟩
  | error e =>
    by_cases hempty : pendingSubassemblies e = []
    · refine .inl ⟨_, s₁, rfl, fun e' he' => ?_⟩
      cases he'
      exact hempty
    · cases hpending : (pendingSubassemblies e).filter fun item => identity item ∉ staged with
      | nil =>
        refine .inr (.inl ⟨e, s₁, rfl, hempty, fun item hitem => ?_⟩)
        have hstaged := List.filter_eq_nil_iff.1 hpending item hitem
        simpa using hstaged
      | cons item items => exact .inr (.inr ⟨e, s₁, item, items, rfl, hpending⟩)

/-- A request that is answered at once ends so with any bound. -/
theorem callStaging_answered {fuel : ℕ} {request : Request} {s s₁ : σ} {staged : Finset Str}
    {reply : Reply ρ} (h : service request s = (reply, s₁))
    (hreply : ∀ e, reply = .error e → pendingSubassemblies e = []) :
    callStaging service (fuel + 1) request s staged = some (reply, s₁, staged) := by
  rw [callStaging, h]
  cases reply with
  | result r => rfl
  | lost message => rfl
  | error e => exact if_pos (hreply e rfl)

/-- One that names only what has been asked for already ends with that. -/
theorem callStaging_askedAgain {fuel : ℕ} {request : Request} {s s₁ : σ} {staged : Finset Str}
    {e : ServiceError} (h : service request s = (.error e, s₁)) (hne : pendingSubassemblies e ≠ [])
    (hstaged : ∀ item ∈ pendingSubassemblies e, identity item ∈ staged) :
    callStaging service (fuel + 1) request s staged =
      some (.error (askedAgain e (pendingSubassemblies e)), s₁, staged) := by
  have hpending : (pendingSubassemblies e).filter (fun item => identity item ∉ staged) = [] :=
    List.filter_eq_nil_iff.2 fun item hitem => by simpa using hstaged item hitem
  rw [callStaging, h]
  dsimp only
  rw [if_neg hne, if_pos hpending]

/-- One that names something new is made again when that has been made. -/
theorem callStaging_retry {fuel : ℕ} {request : Request} {s s₁ : σ} {staged : Finset Str}
    {e : ServiceError} {item : Item} {items : List Item} (h : service request s = (.error e, s₁))
    (hpending :
      (pendingSubassemblies e).filter (fun item => identity item ∉ staged) = item :: items) :
    callStaging service (fuel + 1) request s staged =
      (stageAll (fun item => callStaging service fuel (requestParams item request.context))
        (item :: items) s₁ staged).bind fun result =>
          match result.1 with
          | some raised => some (raised, result.2)
          | none => callStaging service fuel request result.2.1 result.2.2 := by
  have hne : pendingSubassemblies e ≠ [] := by
    intro hnil
    rw [hnil] at hpending
    cases hpending
  rw [callStaging, h]
  dsimp only
  rw [if_neg hne, if_neg (by rw [hpending]; exact List.cons_ne_nil _ _), hpending]
  split
  · rename_i hstage
    rw [hstage]
    rfl
  · rename_i hstage
    rw [hstage]
    rfl
  · rename_i hstage
    rw [hstage]
    rfl

/-! ## Termination -/

/-- All of the items are made, or one of them raises, if each of them ends where what has been asked for
`already` still has been. -/
theorem stageAll_terminates {stage : Item → σ → Finset Str → Option (Reply ρ × σ × Finset Str)}
    {already : Finset Str}
    (hstage : ∀ item s staged, already ⊆ staged →
      ∃ outcome, stage item s staged = some outcome ∧ staged ⊆ outcome.2.2)
    (items : List Item) : ∀ (s : σ) (staged : Finset Str),
      (∀ item ∈ items.head?, already ⊆ insert (identity item) staged) →
        ∃ result, stageAll stage items s staged = some result ∧ staged ⊆ result.2.2 ∧
          (items ≠ [] → already ⊆ result.2.2) := by
  induction items with
  | nil => exact fun s staged _ => ⟨_, rfl, subset_rfl, fun h => absurd rfl h⟩
  | cons item items ih =>
    intro s staged halready
    have halready : already ⊆ insert (identity item) staged := halready item rfl
    obtain ⟨⟨reply, s₁, staged₁⟩, hend, hgrown⟩ :=
      hstage item s (insert (identity item) staged) halready
    have hstaged : staged ⊆ staged₁ := (Finset.subset_insert _ _).trans hgrown
    have halready₁ : already ⊆ staged₁ := halready.trans hgrown
    rw [stageAll, hend]
    cases reply with
    | result r =>
      obtain ⟨result, hrest, hresult, -⟩ :=
        ih s₁ staged₁ fun _ _ => halready₁.trans (Finset.subset_insert _ _)
      exact ⟨result, hrest, hstaged.trans hresult, fun _ => halready₁.trans hresult⟩
    | error e => exact ⟨_, rfl, hstaged, fun _ => halready₁⟩
    | lost message => exact ⟨_, rfl, hstaged, fun _ => halready₁⟩

/-- **The client ends**, whatever the service answers, if what it names is from a finite set: each time
it goes deeper, or asks again, it has been told to make something new. -/
theorem callStaging_terminates {items : Finset Str}
    (hnamed : ∀ request s e s₁, service request s = (.error e, s₁) →
      ∀ item ∈ pendingSubassemblies e, identity item ∈ items) :
    ∀ (fuel : ℕ) (request : Request) (s : σ) (staged : Finset Str), (items \ staged).card < fuel →
      ∃ outcome, callStaging service fuel request s staged = some outcome ∧ staged ⊆ outcome.2.2 := by
  intro fuel
  induction fuel with
  | zero => exact fun request s staged h => absurd h (Nat.not_lt_zero _)
  | succ fuel ih =>
    intro request s staged hfuel
    obtain ⟨reply, s₁, hservice, hreply⟩ | ⟨e, s₁, hservice, hne, hstaged⟩ |
      ⟨e, s₁, item, rest, hservice, hpending⟩ := service_cases service request s staged
    · exact ⟨_, callStaging_answered hservice hreply, subset_rfl⟩
    · exact ⟨_, callStaging_askedAgain hservice hne hstaged, subset_rfl⟩
    · have hitem : item ∈ (pendingSubassemblies e).filter fun item => identity item ∉ staged := by
        rw [hpending]
        exact List.mem_cons_self
      obtain ⟨hmem, hnew⟩ := List.mem_filter.1 hitem
      have hnew : identity item ∉ staged := of_decide_eq_true hnew
      -- whatever is asked for from here on, the first item has been
      have hless : ∀ grown, insert (identity item) staged ⊆ grown → (items \ grown).card < fuel := by
        intro grown hgrown
        have hlt : (items \ grown).card < (items \ staged).card := by
          apply Finset.card_lt_card
          refine Finset.ssubset_iff_of_subset ?_ |>.2 ⟨identity item, ?_, ?_⟩
          · exact Finset.sdiff_subset_sdiff subset_rfl ((Finset.subset_insert _ _).trans hgrown)
          · exact Finset.mem_sdiff.2 ⟨hnamed _ _ _ _ hservice item hmem, hnew⟩
          · exact fun h => (Finset.mem_sdiff.1 h).2 (hgrown (Finset.mem_insert_self _ _))
        omega
      have hstage : ∀ item' s' staged', insert (identity item) staged ⊆ staged' →
          ∃ outcome, callStaging service fuel (requestParams item' request.context) s' staged' =
            some outcome ∧ staged' ⊆ outcome.2.2 :=
        fun item' s' staged' h => ih _ s' staged' (hless staged' h)
      obtain ⟨⟨raised, s₂, staged₂⟩, hend, hgrown, hinsert⟩ :=
        stageAll_terminates hstage (item :: rest) s₁ staged fun item' hitem' => by
          cases hitem'
          exact subset_rfl
      rw [callStaging_retry hservice hpending, hend]
      cases raised with
      | some raised => exact ⟨_, rfl, hgrown⟩
      | none =>
        obtain ⟨outcome, houtcome, hmore⟩ := ih request s₂ staged₂
          (hless staged₂ (hinsert (List.cons_ne_nil _ _)))
        exact ⟨outcome, houtcome, hgrown.trans hmore⟩

/-- More of the items end in the same way, where each of them does. -/
theorem stageAll_congr {stage stage' : Item → σ → Finset Str → Option (Reply ρ × σ × Finset Str)}
    (hstage : ∀ item s staged outcome, stage item s staged = some outcome →
      stage' item s staged = some outcome) (items : List Item) :
    ∀ (s : σ) (staged : Finset Str) {result : Option (Reply ρ) × σ × Finset Str},
      stageAll stage items s staged = some result → stageAll stage' items s staged = some result := by
  induction items with
  | nil => exact fun s staged _ h => h
  | cons item items ih =>
    intro s staged result h
    rw [stageAll] at h ⊢
    cases hend : stage item s (insert (identity item) staged) with
    | none =>
      rw [hend] at h
      cases h
    | some outcome =>
      rw [hend] at h
      rw [hstage _ _ _ _ hend]
      obtain ⟨reply, s₁, staged₁⟩ := outcome
      cases reply with
      | result r => exact ih s₁ staged₁ h
      | error e => exact h
      | lost message => exact h

/-- The bound does not matter to how an exchange ends. -/
theorem callStaging_mono {fuel : ℕ} : ∀ {fuel' : ℕ} {request : Request} {s : σ} {staged : Finset Str}
    {outcome : Reply ρ × σ × Finset Str}, fuel ≤ fuel' →
      callStaging service fuel request s staged = some outcome →
        callStaging service fuel' request s staged = some outcome := by
  induction fuel with
  | zero => exact fun _ h => nomatch h
  | succ fuel ih =>
    intro fuel' request s staged outcome hle h
    obtain ⟨fuel', rfl⟩ : ∃ n, fuel' = n + 1 := ⟨fuel' - 1, by omega⟩
    have hle : fuel ≤ fuel' := by omega
    obtain ⟨reply, s₁, hservice, hreply⟩ | ⟨e, s₁, hservice, hne, hstaged⟩ |
      ⟨e, s₁, item, rest, hservice, hpending⟩ := service_cases service request s staged
    · rw [callStaging_answered hservice hreply] at h ⊢
      exact h
    · rw [callStaging_askedAgain hservice hne hstaged] at h ⊢
      exact h
    · rw [callStaging_retry hservice hpending] at h ⊢
      obtain ⟨⟨raised, s₂, staged₂⟩, hend, h⟩ := Option.bind_eq_some_iff.1 h
      have hstage : ∀ item' s' staged' (outcome' : Reply ρ × σ × Finset Str),
          callStaging service fuel (requestParams item' request.context) s' staged' = some outcome' →
            callStaging service fuel' (requestParams item' request.context) s' staged' =
              some outcome' :=
        fun _ _ _ _ h' => ih hle h'
      have hend' := stageAll_congr hstage _ _ _ hend
      rw [hend', Option.bind_some]
      cases raised with
      | some raised => exact h
      | none => exact ih hle h

/-! ## What holds of an exchange -/

/-- What holds of each item that is made holds of all of them. -/
theorem stageAll_rule {stage : Item → σ → Finset Str → Option (Reply ρ × σ × Finset Str)}
    {Later : σ → σ → Prop} (hrefl : ∀ s, Later s s)
    (htrans : ∀ s s₁ s₂, Later s s₁ → Later s₁ s₂ → Later s s₂)
    {J : Finset Str → σ → Prop} {N : Finset Str → σ → Item → Prop}
    (hmono : ∀ staged staged' s s' item, staged ⊆ staged' → Later s s' → N staged s item →
      N staged' s' item)
    (hstage : ∀ item s staged outcome, stage item s staged = some outcome → N staged s item →
      J staged s → J outcome.2.2 outcome.2.1 ∧ staged ⊆ outcome.2.2 ∧ Later s outcome.2.1)
    (hinsert : ∀ item s staged, N (insert (identity item) staged) s item → J staged s →
      J (insert (identity item) staged) s) (items : List Item) :
    ∀ (s : σ) (staged : Finset Str) {result : Option (Reply ρ) × σ × Finset Str},
      stageAll stage items s staged = some result →
        (∀ item ∈ items, N (insert (identity item) staged) s item) → J staged s →
          J result.2.2 result.2.1 ∧ staged ⊆ result.2.2 ∧ Later s result.2.1 ∧
            ∀ r, result.1 ≠ some (Reply.result r) := by
  induction items with
  | nil =>
    intro s staged result h _ hJ
    obtain rfl := Option.some.inj h
    exact ⟨hJ, subset_rfl, hrefl s, nofun⟩
  | cons item items ih =>
    intro s staged result h hitems hJ
    rw [stageAll] at h
    have hN := hitems item List.mem_cons_self
    cases hend : stage item s (insert (identity item) staged) with
    | none =>
      rw [hend] at h
      cases h
    | some outcome =>
      obtain ⟨hJ₁, hgrown, hlater⟩ :=
        hstage item s _ outcome hend hN (hinsert item s staged hN hJ)
      rw [hend] at h
      obtain ⟨reply, s₁, staged₁⟩ := outcome
      have hstaged : staged ⊆ staged₁ := (Finset.subset_insert _ _).trans hgrown
      cases reply with
      | result r =>
        obtain ⟨hJ₂, hmore, hlater₂, hresult⟩ := ih s₁ staged₁ h (fun item' hitem' =>
          hmono _ _ s s₁ item' (Finset.insert_subset_insert _ hstaged) hlater
            (hitems item' (List.mem_cons_of_mem _ hitem'))) hJ₁
        exact ⟨hJ₂, hstaged.trans hmore, htrans _ _ _ hlater hlater₂, hresult⟩
      | error e =>
        obtain rfl := Option.some.inj h
        exact ⟨hJ₁, hstaged, hlater, nofun⟩
      | lost message =>
        obtain rfl := Option.some.inj h
        exact ⟨hJ₁, hstaged, hlater, nofun⟩

/-- **The rule of exchanges**: `J` holds of what has been asked for and the service, whenever a request
that is made meets `N` and each of these keeps it. -/
theorem callStaging_rule {Later : σ → σ → Prop} (hrefl : ∀ s, Later s s)
    (htrans : ∀ s s₁ s₂, Later s s₁ → Later s₁ s₂ → Later s s₂)
    {J : Finset Str → σ → Prop} {N : Finset Str → σ → Request → Prop}
    (hmono : ∀ staged staged' s s' request, staged ⊆ staged' → Later s s' → N staged s request →
      N staged' s' request)
    (hanswer : ∀ request staged s reply s₁, N staged s request → J staged s →
      service request s = (reply, s₁) → J staged s₁ ∧ Later s s₁)
    (hnamed : ∀ request staged s e s₁, N staged s request → J staged s →
      service request s = (.error e, s₁) → ∀ item ∈ pendingSubassemblies e,
        identity item ∉ staged →
          N (insert (identity item) staged) s₁ (requestParams item request.context))
    (hinsert : ∀ item context s staged,
      N (insert (identity item) staged) s (requestParams item context) → J staged s →
        J (insert (identity item) staged) s) (fuel : ℕ) :
    ∀ (request : Request) (s : σ) (staged : Finset Str) (outcome : Reply ρ × σ × Finset Str),
      callStaging service fuel request s staged = some outcome → N staged s request → J staged s →
        (J outcome.2.2 outcome.2.1 ∧ staged ⊆ outcome.2.2 ∧ Later s outcome.2.1) ∧
          ∀ r, outcome.1 = .result r → ∃ s₀, N outcome.2.2 s₀ request ∧ J outcome.2.2 s₀ ∧
            service request s₀ = (.result r, outcome.2.1) := by
  induction fuel with
  | zero => exact fun _ _ _ _ h => nomatch h
  | succ fuel ih =>
    intro request s staged outcome h hN hJ
    obtain ⟨reply, s₁, hservice, hreply⟩ | ⟨e, s₁, hservice, hne, hstaged⟩ |
      ⟨e, s₁, item, rest, hservice, hpending⟩ := service_cases service request s staged
    · rw [callStaging_answered hservice hreply] at h
      obtain rfl := Option.some.inj h
      obtain ⟨hJ₁, hlater⟩ := hanswer _ _ _ _ _ hN hJ hservice
      refine ⟨⟨hJ₁, subset_rfl, hlater⟩, ?_⟩
      rintro r rfl
      exact ⟨s, hN, hJ, hservice⟩
    · rw [callStaging_askedAgain hservice hne hstaged] at h
      obtain rfl := Option.some.inj h
      obtain ⟨hJ₁, hlater⟩ := hanswer _ _ _ _ _ hN hJ hservice
      exact ⟨⟨hJ₁, subset_rfl, hlater⟩, nofun⟩
    · rw [callStaging_retry hservice hpending] at h
      obtain ⟨⟨raised, s₂, staged₂⟩, hend, h⟩ := Option.bind_eq_some_iff.1 h
      obtain ⟨hJ₁, hlater₁⟩ := hanswer _ _ _ _ _ hN hJ hservice
      have hitems : ∀ item' ∈ item :: rest,
          N (insert (identity item') staged) s₁ (requestParams item' request.context) := by
        intro item' hitem'
        rw [← hpending] at hitem'
        obtain ⟨hmem, hnew⟩ := List.mem_filter.1 hitem'
        exact hnamed _ _ _ _ _ hN hJ hservice item' hmem (of_decide_eq_true hnew)
      obtain ⟨hJ₂, hgrown, hlater₂, hraised⟩ := stageAll_rule hrefl htrans
        (fun _ _ _ _ item' hsub => hmono _ _ _ _ (requestParams item' request.context) hsub)
        (fun item' s' staged' outcome' hend' hN' hJ' => (ih _ s' staged' outcome' hend' hN' hJ').1)
        (fun item' s' staged' hN' => hinsert item' request.context s' staged' hN') _ _ _ hend hitems hJ₁
      have hlater := htrans _ _ _ hlater₁ hlater₂
      cases raised with
      | some raised =>
        obtain rfl := Option.some.inj h
        exact ⟨⟨hJ₂, hgrown, hlater⟩, fun r hr => absurd (congrArg some hr) (hraised r)⟩
      | none =>
        obtain ⟨⟨hJ₃, hmore, hlater₃⟩, hresult⟩ :=
          ih request s₂ staged₂ outcome h (hmono _ _ _ _ _ hgrown hlater hN) hJ₂
        exact ⟨⟨hJ₃, hgrown.trans hmore, htrans _ _ _ hlater hlater₃⟩, hresult⟩

/-! ## Exchanges that succeed -/

/-- All of the items are made, if each of them is, as one that is `busy` meanwhile. -/
theorem stageAll_succeeds {stage : Item → σ → Finset Str → Option (Reply ρ × σ × Finset Str)}
    {J : Finset Str → σ → Prop} {K : Item → Finset Str → σ → Prop} (items : List Item)
    (hinsert : ∀ item ∈ items, ∀ s staged, J staged s → K item (insert (identity item) staged) s)
    (hstage : ∀ item ∈ items, ∀ s staged outcome, stage item s staged = some outcome →
      K item staged s → (∃ r, outcome.1 = .result r) ∧ J outcome.2.2 outcome.2.1) :
    ∀ (s : σ) (staged : Finset Str) {result : Option (Reply ρ) × σ × Finset Str},
      stageAll stage items s staged = some result → J staged s →
        result.1 = none ∧ J result.2.2 result.2.1 := by
  induction items with
  | nil =>
    intro s staged result h hJ
    obtain rfl := Option.some.inj h
    exact ⟨rfl, hJ⟩
  | cons item items ih =>
    intro s staged result h hJ
    rw [stageAll] at h
    cases hend : stage item s (insert (identity item) staged) with
    | none =>
      rw [hend] at h
      cases h
    | some outcome =>
      obtain ⟨⟨r, hr⟩, hJ₁⟩ := hstage item List.mem_cons_self s _ outcome hend
        (hinsert item List.mem_cons_self s staged hJ)
      rw [hend] at h
      obtain ⟨reply, s₁, staged₁⟩ := outcome
      obtain rfl : reply = .result r := hr
      exact ih (fun item' hitem' => hinsert item' (List.mem_cons_of_mem _ hitem'))
        (fun item' hitem' => hstage item' (List.mem_cons_of_mem _ hitem')) s₁ staged₁ h hJ₁

/-- **The rule of success**: `J` holds of what is being made, of what has been asked for and of the
service; a request that meets `N` is answered, or names what has not been asked for. -/
theorem callStaging_succeeds {J : Finset Str → Finset Str → σ → Prop}
    {N : Finset Str → Request → Prop}
    (hlost : ∀ busy request staged s message s₁, N busy request → J busy staged s →
      service request s ≠ (.lost message, s₁))
    (hrefused : ∀ busy request staged s e s₁, N busy request → J busy staged s →
      service request s = (.error e, s₁) → pendingSubassemblies e ≠ [] ∧ J busy staged s₁ ∧
        ∀ item ∈ pendingSubassemblies e, identity item ∉ staged ∧
          N (insert (identity item) busy) (requestParams item request.context))
    (hinsert : ∀ busy staged s item, J busy staged s →
      J (insert (identity item) busy) (insert (identity item) staged) s)
    (hdone : ∀ busy staged s item context r s₁,
      N (insert (identity item) busy) (requestParams item context) →
        J (insert (identity item) busy) staged s →
          service (requestParams item context) s = (.result r, s₁) → J busy staged s₁) (fuel : ℕ) :
    ∀ (busy : Finset Str) (request : Request) (s : σ) (staged : Finset Str)
      (outcome : Reply ρ × σ × Finset Str),
      callStaging service fuel request s staged = some outcome → N busy request → J busy staged s →
        ∃ r s₀, outcome.1 = .result r ∧ J busy outcome.2.2 s₀ ∧
          service request s₀ = (.result r, outcome.2.1) := by
  induction fuel with
  | zero => exact fun _ _ _ _ _ h => nomatch h
  | succ fuel ih =>
    intro busy request s staged outcome h hN hJ
    obtain ⟨reply, s₁, hservice, hreply⟩ | ⟨e, s₁, hservice, hne, hstaged⟩ |
      ⟨e, s₁, item, rest, hservice, hpending⟩ := service_cases service request s staged
    · rw [callStaging_answered hservice hreply] at h
      obtain rfl := Option.some.inj h
      cases reply with
      | result r => exact ⟨r, s, rfl, hJ, hservice⟩
      | lost message => exact absurd hservice (hlost _ _ _ _ _ _ hN hJ)
      | error e => exact absurd (hreply e rfl) (hrefused _ _ _ _ _ _ hN hJ hservice).1
    · -- what it names has not been asked for
      obtain ⟨-, -, hnew⟩ := hrefused _ _ _ _ _ _ hN hJ hservice
      obtain ⟨item, items, hcons⟩ := List.exists_cons_of_ne_nil hne
      have hitem : item ∈ pendingSubassemblies e := hcons ▸ List.mem_cons_self
      exact absurd (hstaged item hitem) (hnew item hitem).1
    · obtain ⟨-, hJ₁, hnew⟩ := hrefused _ _ _ _ _ _ hN hJ hservice
      rw [callStaging_retry hservice hpending] at h
      obtain ⟨⟨raised, s₂, staged₂⟩, hend, h⟩ := Option.bind_eq_some_iff.1 h
      have hmem : ∀ item' ∈ item :: rest, item' ∈ pendingSubassemblies e := by
        intro item' hitem'
        rw [← hpending] at hitem'
        exact (List.mem_filter.1 hitem').1
      obtain ⟨rfl, hJ₂⟩ := stageAll_succeeds (J := J busy)
        (K := fun item' => J (insert (identity item') busy)) (item :: rest)
        (fun item' _ s' staged' hJ' => hinsert busy staged' s' item' hJ')
        (fun item' hitem' s' staged' outcome' hend' hJ' => by
          have hN' := (hnew item' (hmem item' hitem')).2
          obtain ⟨r, s₀, hr, hJ₀, hservice₀⟩ := ih _ _ s' staged' outcome' hend' hN' hJ'
          exact ⟨⟨r, hr⟩, hdone busy _ s₀ item' _ r _ hN' hJ₀ hservice₀⟩)
        s₁ staged hend hJ₁
      exact ih busy request s₂ staged₂ outcome h hN hJ₂

end

end PartCAD.Staging
