import PartCAD.Service.StagedBuilds

/-!
# How often an exchange has an assembly built

The client keeps the names of what it has asked for, for all the requests that it makes within one
another.  It leaves out what has been asked for when it reads a refusal, and not again when it gets to an
entry, though by then it may have asked for that while it was making an earlier one.

* `BuiltOnce` : no two requests of an exchange end in the building of one assembly;
* `Graph.Stack` : the requests that a client can have open at one time;
* `Graph.InOrder` : nothing is placed after what it is placed in;
* `builtOnce_of_inOrder` : **then everything is built once**, whatever the cache has;
* `not_builtOnce` : else a cache can have entries so that something is built twice;
* `builtOnce_iff` : both.
-/

namespace PartCAD.Staging

open PartCAD.Lib PartCAD.Lib.Text

/-! ## Requests within one another -/

/-- Of the requests that are made between two sessions, no two end in the building of one assembly. -/
def BuiltOnce (s s' : Session) : Prop :=
  ∃ builds, s'.builds = s.builds ++ builds ∧ (builds.map Build.assembly).Nodup

/-- The name that the client keeps. -/
def Assembly.ident (a : Assembly) : Str := identity a.item

/-- The requests that a client can have open within the one for `root`, the last one first: each is for
something that the one before places, and no two are named alike. -/
def Graph.Stack (g : Graph) (root : Assembly) : List Assembly → Prop
  | [] => True
  | b :: stack => b ∈ g.places (stack.headD root) ∧ b.ident ∉ stack.map Assembly.ident ∧ g.Stack root stack

/-- Nothing is placed after something that it is itself placed in, or in one that is placed there, and so
on. -/
def Graph.InOrder (g : Graph) (root : Assembly) : Prop :=
  ∀ stack b between c, g.Stack root (c :: between ++ b :: stack) →
    ¬ [b, c].Sublist (g.places (stack.headD root))

section

variable {g : Graph} {m : Machine} {root : Assembly}

@[simp] theorem Session.ask_looks (s : Session) (request : Request) (a : Assembly) :
    (s.ask request a).looks = s.looks := by
  unfold Session.ask
  split <;> rfl

theorem Session.Looked.look {s s' : Session} (h : s.Looked s') : s.Looked s'.look := by
  obtain ⟨n, rfl⟩ := h
  exact ⟨n + 1, rfl⟩

theorem Graph.Stack.tail {b : Assembly} {stack : List Assembly} (h : g.Stack root (b :: stack)) :
    g.Stack root stack :=
  h.2.2

theorem Graph.Stack.drop {above stack : List Assembly} (h : g.Stack root (above ++ stack)) :
    g.Stack root stack := by
  induction above with
  | nil => exact h
  | cons b above ih => exact ih h.tail

/-- What is asked for is below what asked for it. -/
theorem Graph.Stack.below {stack : List Assembly} {c : Assembly} {between : List Assembly}
    (h : g.Stack root (c :: between ++ stack)) : g.Below (stack.headD root) c := by
  induction between generalizing c with
  | nil => exact .single h.1
  | cons b between ih => exact (ih h.tail).tail h.1

theorem Graph.Stack.mem {stack : List Assembly} (h : g.Stack root stack) (hroot : root ∈ g.assemblies) :
    stack.headD root ∈ g.assemblies := by
  cases stack with
  | nil => exact hroot
  | cons c between =>
    have hstack : g.Stack root (c :: between ++ []) := by rwa [List.append_nil]
    exact hstack.below.mem hroot

/-! ## What is named -/

/-- What has been found is among what has been gone through, in that order, and everything once. -/
def Picked (through : List Assembly) (acc : Session × List Assembly × List Assembly) : Prop :=
  acc.2.1.Sublist through ∧ acc.2.1.Nodup

theorem picked_step {a : Assembly} {through : List Assembly}
    {acc : Session × List Assembly × List Assembly} (h : Picked through acc) (b : Assembly) :
    Picked (through ++ [b]) (findUncached m a acc b) := by
  obtain ⟨hsub, hnodup⟩ := h
  have hmore : acc.2.1.Sublist (through ++ [b]) := hsub.trans (List.sublist_append_left _ _)
  unfold findUncached
  split
  · exact ⟨hmore, hnodup⟩
  · rename_i hnew
    split
    · exact ⟨hmore, hnodup⟩
    · refine ⟨hsub.append (List.Sublist.refl _), ?_⟩
      rw [List.nodup_append]
      refine ⟨hnodup, List.nodup_singleton b, ?_⟩
      rintro x hx y hy rfl
      obtain rfl := List.mem_singleton.1 hy
      exact hnew (.inr hx)

theorem getUncached_picked (s : Session) (a : Assembly) :
    Picked (g.places a) (getUncachedSubassemblies g m s a) := by
  have hfold : ∀ (rest through : List Assembly) (acc : Session × List Assembly × List Assembly),
      Picked through acc → Picked (through ++ rest) (rest.foldl (findUncached m a) acc) := by
    intro rest
    induction rest with
    | nil =>
      intro through acc h
      rwa [List.append_nil]
    | cons b rest ih =>
      intro through acc h
      rw [List.append_cons]
      exact ih _ _ (picked_step h b)
  exact hfold (g.places a) [] (s, [], []) ⟨List.Sublist.refl _, List.nodup_nil⟩

/-- **A request is refused** with some of what it places, in that order, and each of these once. -/
theorem stage_error_picked {s s' : Session} {a : Assembly} {e : ServiceError}
    (h : stageSubassemblies g m s a = (.error e, s')) :
    ∃ pending : List Assembly, e = refusal (pending.map Assembly.item) ∧
      pending.Sublist (g.places a) ∧ pending.Nodup := by
  obtain ⟨hsub, hnodup⟩ := getUncached_picked (g := g) (m := m) s a
  unfold stageSubassemblies at h
  rcases hacc : getUncachedSubassemblies g m s a with ⟨s₁, found, hits⟩
  rw [hacc] at h hsub hnodup
  dsimp only at h hsub hnodup
  split at h
  · cases h
  · obtain ⟨herror, -⟩ := Prod.mk.inj h
    obtain rfl := Except.error.inj herror
    exact ⟨_, rfl, List.filter_sublist.trans hsub, hnodup.filter _⟩

/-- What the client makes of a refusal: it asks for some of what the assembly places, in that order, and
for nothing that it has asked for before. -/
theorem pending_spec {request : Request} {a : Assembly} (hasks : asksFor g request = some a)
    {s s₁ : Session} {staged : Finset Str} {e : ServiceError} {pending : List Item}
    (h : service g m request s = (.error e, s₁))
    (hpending : (pendingSubassemblies e).filter (fun item => identity item ∉ staged) = pending) :
    ∃ bs : List Assembly, pending = bs.map Assembly.item ∧ bs.Sublist (g.places a) ∧ bs.Nodup ∧
      ∀ b ∈ bs, b.ident ∉ staged := by
  obtain ⟨s₂, -, ⟨e', hstage, hservice⟩ | ⟨cached, -, reply, s₂, hservice, hends⟩⟩ :=
    service_spec (m := m) hasks s
  · obtain ⟨heq, rfl⟩ := Prod.mk.inj (hservice.symm.trans h)
    obtain rfl := Reply.error.inj heq
    obtain ⟨named, rfl, hsub, hnodup⟩ := stage_error_picked hstage
    rw [pendingSubassemblies_refusal, List.filter_map] at hpending
    refine ⟨_, hpending.symm, List.filter_sublist.trans hsub, hnodup.filter _, fun b hb => ?_⟩
    exact of_decide_eq_true (List.mem_filter.1 hb).2
  · obtain ⟨rfl, -⟩ := Prod.mk.inj (hservice.symm.trans h)
    rw [hends.pending rfl] at hpending
    subst hpending
    exact ⟨[], rfl, List.nil_sublist _, List.nodup_nil, nofun⟩

/-! ## Where nothing is placed after what it is placed in -/

/-- A request builds the assembly that it is about, or nothing; one that is refused builds nothing. -/
theorem service_builds {request : Request} {a : Assembly} (hasks : asksFor g request = some a)
    {s s₁ : Session} {reply : Reply Result} (h : service g m request s = (reply, s₁)) :
    (s₁.builds = s.builds ∨ ∃ cached, s₁.builds = s.builds ++ [⟨a, cached⟩]) ∧
      ∀ e, reply = .error e → pendingSubassemblies e ≠ [] → s₁.builds = s.builds := by
  obtain ⟨s₂, hlooked, hspec⟩ := service_spec (m := m) hasks s
  have hbuilds : s₂.builds = s.builds := by rw [hlooked.builds, Session.ask_builds]
  have hbuild : ∀ cached, (s₂.build request a cached).builds = s.builds ++ [⟨a, cached⟩] := by
    intro cached
    rw [Session.build, hbuilds]
  rcases hspec with ⟨e', -, hservice⟩ | ⟨cached, -, reply', s₃, hservice, hends⟩
  · obtain ⟨rfl, rfl⟩ := Prod.mk.inj (hservice.symm.trans h)
    exact ⟨.inl hbuilds, fun _ _ _ => hbuilds⟩
  · obtain ⟨rfl, rfl⟩ := Prod.mk.inj (hservice.symm.trans h)
    refine ⟨?_, fun e he hne => absurd (hends.pending he) hne⟩
    cases hends with
    | failed failure _ => exact .inl hbuilds
    | built r => exact .inr ⟨cached, hbuild cached⟩
    | notShown failure _ => exact .inr ⟨cached, hbuild cached⟩

/-- What is built from one state to another is `P`, and is built once. -/
def Adds (s s' : Session) (P : Assembly → Prop) : Prop :=
  ∃ builds, s'.builds = s.builds ++ builds ∧ (builds.map Build.assembly).Nodup ∧
    ∀ x ∈ builds.map Build.assembly, P x

theorem adds_of_eq {s s' : Session} {P : Assembly → Prop} (h : s'.builds = s.builds) : Adds s s' P :=
  ⟨[], by rw [h, List.append_nil], List.nodup_nil, nofun⟩

theorem adds_of_one {s s' : Session} {P : Assembly → Prop} {a : Assembly} {cached : List Assembly}
    (h : s'.builds = s.builds ++ [⟨a, cached⟩]) (ha : P a) : Adds s s' P := by
  refine ⟨_, h, List.nodup_singleton _, fun x hx => ?_⟩
  obtain rfl := List.mem_singleton.1 hx
  exact ha

theorem Adds.mono {s s' : Session} {P Q : Assembly → Prop} (h : Adds s s' P) (himp : ∀ x, P x → Q x) :
    Adds s s' Q := by
  obtain ⟨builds, hbuilds, honce, hP⟩ := h
  exact ⟨builds, hbuilds, honce, fun x hx => himp x (hP x hx)⟩

/-- What is built later is not what has been built earlier. -/
theorem Adds.trans {s s₁ s₂ : Session} {P Q : Assembly → Prop} (h : Adds s s₁ P) (h' : Adds s₁ s₂ Q)
    (hapart : ∀ x, P x → ¬ Q x) : Adds s s₂ fun x => P x ∨ Q x := by
  obtain ⟨builds, hbuilds, honce, hP⟩ := h
  obtain ⟨builds', hbuilds', honce', hQ⟩ := h'
  refine ⟨builds ++ builds', ?_, ?_, fun x hx => ?_⟩
  · rw [hbuilds', hbuilds, List.append_assoc]
  · rw [List.map_append, List.nodup_append]
    refine ⟨honce, honce', ?_⟩
    rintro x hx y hy rfl
    exact hapart x (hP x hx) (hQ x hy)
  · rw [List.map_append] at hx
    exact (List.mem_append.1 hx).imp (hP x) (hQ x)

/-- What a request for the last of a stack builds: that one, and what is below it that had not been asked
for and then has been; everything once. -/
def BuildsOnce (g : Graph) (root : Assembly) (stack : List Assembly) (s : Session) (staged : Finset Str)
    (s' : Session) (staged' : Finset Str) : Prop :=
  staged ⊆ staged' ∧ ∃ builds, s'.builds = s.builds ++ builds ∧ (builds.map Build.assembly).Nodup ∧
    ∀ x ∈ builds.map Build.assembly, x = stack.headD root ∨
      x.ident ∈ staged' ∧ x.ident ∉ staged ∧ ∃ between, g.Stack root (x :: between ++ stack)

/-- **All that is named in one refusal** is built once: what comes later in the list is not below what
comes earlier, and all else that is below has been asked for. -/
theorem stageAll_buildsOnce {stack : List Assembly} (horder : g.InOrder root)
    {stage : Item → Session → Finset Str → Option (Reply Result × Session × Finset Str)}
    (hstage : ∀ b s staged outcome, g.Stack root (b :: stack) →
      (∀ c ∈ stack, c.ident ∈ staged) → stage b.item s (insert b.ident staged) = some outcome →
        BuildsOnce g root (b :: stack) s (insert b.ident staged) outcome.2.1 outcome.2.2)
    (bs : List Assembly) :
    ∀ (s : Session) (staged : Finset Str) {result : Option (Reply Result) × Session × Finset Str},
      stageAll stage (bs.map Assembly.item) s staged = some result →
        bs.Sublist (g.places (stack.headD root)) → bs.Nodup → (∀ b ∈ bs, g.Stack root (b :: stack)) →
          (∀ c ∈ stack, c.ident ∈ staged) →
            staged ⊆ result.2.2 ∧ Adds s result.2.1 fun x => x.ident ∈ result.2.2 ∧ ∃ b ∈ bs, x = b ∨
              x.ident ∉ staged ∧ ∃ between, g.Stack root (x :: between ++ b :: stack) := by
  induction bs with
  | nil =>
    intro s staged result h _ _ _ _
    obtain rfl := Option.some.inj h
    exact ⟨subset_rfl, adds_of_eq rfl⟩
  | cons b bs ih =>
    intro s staged result h hsub hnodup hbs hstack
    rw [List.map_cons, stageAll] at h
    have hb := hbs b List.mem_cons_self
    have hgrow : staged ⊆ insert b.ident staged := Finset.subset_insert _ _
    cases hend : stage b.item s (insert b.ident staged) with
    | none =>
      rw [show identity b.item = b.ident from rfl, hend] at h
      cases h
    | some outcome =>
      rw [show identity b.item = b.ident from rfl, hend] at h
      obtain ⟨hgrown, hadds⟩ := hstage b s staged outcome hb hstack hend
      obtain ⟨reply, s₁, staged₁⟩ := outcome
      dsimp only at hgrown hadds
      have hstaged : staged ⊆ staged₁ := hgrow.trans hgrown
      have hmine : Adds s s₁ fun x => x.ident ∈ staged₁ ∧ (x = b ∨
          x.ident ∉ staged ∧ ∃ between, g.Stack root (x :: between ++ b :: stack)) := by
        refine Adds.mono hadds ?_
        rintro x (rfl | ⟨hmem, hnot, hbelow⟩)
        · exact ⟨hgrown (Finset.mem_insert_self _ _), .inl rfl⟩
        · exact ⟨hmem, .inr ⟨fun h => hnot (hgrow h), hbelow⟩⟩
      have hraised : Adds s s₁ fun x => x.ident ∈ staged₁ ∧ ∃ b' ∈ b :: bs, x = b' ∨
          x.ident ∉ staged ∧ ∃ between, g.Stack root (x :: between ++ b' :: stack) :=
        hmine.mono fun x hx => ⟨hx.1, b, List.mem_cons_self, hx.2⟩
      cases reply with
      | error e =>
        obtain rfl := Option.some.inj h
        exact ⟨hstaged, hraised⟩
      | lost message =>
        obtain rfl := Option.some.inj h
        exact ⟨hstaged, hraised⟩
      | result r =>
        obtain ⟨hmore, hrest⟩ := ih s₁ staged₁ h ((List.sublist_cons_self b bs).trans hsub)
          (List.nodup_cons.1 hnodup).2 (fun b' hb' => hbs b' (List.mem_cons_of_mem _ hb'))
          (fun c hc => hstaged (hstack c hc))
        refine ⟨hstaged.trans hmore, (hmine.trans hrest ?_).mono ?_⟩
        · rintro x ⟨hmem, hxb⟩ ⟨-, b', hb', rfl | ⟨hnot, -⟩⟩
          · rcases hxb with rfl | ⟨-, between, hbelow⟩
            · exact (List.nodup_cons.1 hnodup).1 hb'
            · -- it is below what comes before it
              refine horder stack b between x hbelow ?_
              exact (List.Sublist.cons_cons b (List.singleton_sublist.2 hb')).trans hsub
          · exact hnot hmem
        · rintro x (⟨hmem, hxb⟩ | ⟨hmem, b', hb', hxb⟩)
          · exact ⟨hmore hmem, b, List.mem_cons_self, hxb⟩
          · refine ⟨hmem, b', List.mem_cons_of_mem _ hb', hxb.imp_right fun hnot => ?_⟩
            exact ⟨fun h => hnot.1 (hstaged h), hnot.2⟩

/-- **A request and all that are made within it** build everything once. -/
theorem callStaging_buildsOnce (hnamed : g.Named) (hacyclic : g.Acyclic) (hroot : root ∈ g.assemblies)
    (horder : g.InOrder root) (fuel : ℕ) :
    ∀ (stack : List Assembly) (request : Request) (s : Session) (staged : Finset Str)
      (outcome : Reply Result × Session × Finset Str),
      callStaging (service g m) fuel request s staged = some outcome →
        asksFor g request = some (stack.headD root) → g.Stack root stack →
          (∀ c ∈ stack, c.ident ∈ staged) →
            BuildsOnce g root stack s staged outcome.2.1 outcome.2.2 := by
  induction fuel with
  | zero => exact fun _ _ _ _ _ h => nomatch h
  | succ fuel ih =>
    intro stack request s staged outcome h hasks hstack hasked
    have hone : ∀ {s₁ : Session}, (s₁.builds = s.builds ∨
        ∃ cached, s₁.builds = s.builds ++ [⟨stack.headD root, cached⟩]) →
          BuildsOnce g root stack s staged s₁ staged := by
      rintro s₁ (hbuilds | ⟨cached, hbuilds⟩)
      · exact ⟨subset_rfl, adds_of_eq hbuilds⟩
      · exact ⟨subset_rfl, adds_of_one hbuilds (.inl rfl)⟩
    obtain ⟨reply, s₁, hservice, hreply⟩ | ⟨e, s₁, hservice, hne, hstaged⟩ |
      ⟨e, s₁, item, rest, hservice, hpending⟩ := service_cases (service g m) request s staged
    · rw [callStaging_answered hservice hreply] at h
      obtain rfl := Option.some.inj h
      exact hone (service_builds hasks hservice).1
    · rw [callStaging_askedAgain hservice hne hstaged] at h
      obtain rfl := Option.some.inj h
      exact hone (service_builds hasks hservice).1
    · rw [callStaging_retry hservice hpending] at h
      obtain ⟨⟨raised, s₂, staged₂⟩, hend, h⟩ := Option.bind_eq_some_iff.1 h
      have hrefused : s₁.builds = s.builds := by
        refine (service_builds hasks hservice).2 e rfl fun hnil => ?_
        rw [hnil] at hpending
        cases hpending
      obtain ⟨bs, hbs, hsub, hnodup, hnew⟩ := pending_spec hasks hservice hpending
      rw [hbs] at hend
      have hopen : ∀ b ∈ bs, g.Stack root (b :: stack) := by
        intro b hb
        refine ⟨hsub.subset hb, fun hmem => ?_, hstack⟩
        obtain ⟨c, hc, hsame⟩ := List.mem_map.1 hmem
        exact hnew b hb (hsame ▸ hasked c hc)
      obtain ⟨hgrown, hadds⟩ := stageAll_buildsOnce horder
        (fun b s' staged' outcome' hb hasked' hend' => by
          refine ih (b :: stack) _ s' _ outcome' hend' ?_ hb fun c hc => ?_
          · exact asksFor_item hnamed (hb.mem hroot) request.context
          · rcases List.mem_cons.1 hc with rfl | hc
            · exact Finset.mem_insert_self _ _
            · exact Finset.mem_insert_of_mem (hasked' c hc))
        bs s₁ staged hend hsub hnodup hopen hasked
      dsimp only at hgrown hadds h
      -- what has been built so far is below, and had not been asked for
      have hsofar : Adds s s₂ fun x => x.ident ∈ staged₂ ∧ x.ident ∉ staged ∧
          ∃ between, g.Stack root (x :: between ++ stack) := by
        rw [Adds, hrefused] at hadds
        refine Adds.mono hadds ?_
        rintro x ⟨hmem, b, hb, rfl | ⟨hnot, between, hxb⟩⟩
        · exact ⟨hmem, hnew x hb, [], hopen x hb⟩
        · refine ⟨hmem, hnot, between ++ [b], ?_⟩
          rwa [List.cons_append, List.append_assoc, List.singleton_append, ← List.cons_append]
      cases raised with
      | some raised =>
        obtain rfl := Option.some.inj h
        exact ⟨hgrown, hsofar.mono fun x hx => .inr hx⟩
      | none =>
        obtain ⟨hmore, hrest⟩ := ih stack request s₂ staged₂ outcome h hasks hstack
          fun c hc => hgrown (hasked c hc)
        refine ⟨hgrown.trans hmore, (hsofar.trans hrest ?_).mono ?_⟩
        · rintro x ⟨hmem, -, between, hx⟩ (heq | ⟨-, hnot, -⟩)
          · have hself := hx.below
            rw [heq] at hself
            exact hacyclic _ (hstack.mem hroot) hself
          · exact hnot hmem
        · rintro x (⟨hmem, hnot, hx⟩ | hx)
          · exact .inr ⟨hmore hmem, hnot, hx⟩
          · exact hx.imp_right fun ⟨hmem, hnot, hx⟩ => ⟨hmem, fun h => hnot (hgrown h), hx⟩

/-- **Where nothing is placed after what it is placed in**, an exchange has everything built once. -/
theorem builtOnce_of_inOrder (hnamed : g.Named) (hacyclic : g.Acyclic) {request : Request}
    (horder : ∀ root, asksFor g request = some root → g.InOrder root) {fuel : ℕ} {s : Session}
    {outcome : Reply Result × Session × Finset Str}
    (h : call (service g m) fuel request s = some outcome) : BuiltOnce s outcome.2.1 := by
  cases hasks : asksFor g request with
  | some root =>
    obtain ⟨-, builds, hbuilds, honce, -⟩ := callStaging_buildsOnce hnamed hacyclic (asksFor_mem hasks)
      (horder root hasks) fuel [] request s ∅ outcome h hasks trivial nofun
    exact ⟨builds, hbuilds, honce⟩
  | none =>
    obtain ⟨reply, hservice, hreply⟩ := service_none (m := m) hasks s
    cases fuel with
    | zero => cases h
    | succ fuel =>
      rw [call, callStaging_answered hservice hreply] at h
      obtain rfl := Option.some.inj h
      exact ⟨[], (List.append_nil _).symm, List.nodup_nil⟩

/-! ## A cache that answers what it is told to -/

/-- The answers of a cache in the order in which it is asked; afterwards it has everything. -/
def scripted (script : List Bool) : Machine :=
  ⟨fun s _ => script.getD s.looks true, fun _ _ => none, fun _ _ => none, fun _ _ => .ok []⟩

theorem scripted_succeeds (script : List Bool) : (scripted script).Succeeds :=
  ⟨fun _ _ => rfl, fun _ _ => rfl, fun _ _ => ⟨[], rfl⟩⟩

/-- What the cache has left to say. -/
def left (script : List Bool) (s : Session) : List Bool := script.drop s.looks

theorem isCached_scripted {script rest : List Bool} {s : Session} {answer : Bool}
    (h : left script s = answer :: rest) (b : Assembly) :
    (scripted script).isCached s b = answer ∧ left script s.look = rest := by
  have hhead : script[s.looks]? = some answer := by
    rw [← List.head?_drop]
    exact congrArg List.head? h
  have htail : script.drop (s.looks + 1) = rest := by
    rw [← List.tail_drop]
    exact congrArg List.tail h
  refine ⟨?_, htail⟩
  unfold scripted
  dsimp only
  rw [List.getD_eq_getElem?_getD, hhead, Option.getD_some]

theorem isCached_over {script : List Bool} {s : Session} (h : left script s = []) (b : Assembly) :
    (scripted script).isCached s b = true ∧ left script s.look = [] := by
  have hle : script.length ≤ s.looks := List.drop_eq_nil_iff.1 h
  refine ⟨?_, List.drop_eq_nil_iff.2 (hle.trans (Nat.le_succ _))⟩
  unfold scripted
  dsimp only
  rw [List.getD_eq_getElem?_getD, List.getElem?_eq_none hle, Option.getD_none]

/-- **The cache can be such that any of what is placed is found**, in that order. -/
theorem getUncached_scripted (g : Graph) {a : Assembly} {bs : List Assembly}
    (hsub : bs.Sublist (g.places a)) (hnodup : bs.Nodup) (ha : a ∉ bs) :
    ∃ answers, ∀ (script : List Bool) (s : Session) (rest : List Bool),
      left script s = answers ++ rest → ∃ s' cached,
        getUncachedSubassemblies g (scripted script) s a = (s', bs, cached) ∧ s.Looked s' ∧
          left script s' = rest := by
  have hfold : ∀ {bs places : List Assembly}, bs.Sublist places → ∀ found : List Assembly,
      (found ++ bs).Nodup → a ∉ bs →
        ∃ answers, ∀ (script : List Bool) (s s₁ : Session) (cached : List Assembly) (rest : List Bool),
          s.Looked s₁ → left script s₁ = answers ++ rest → ∃ s' cached',
          places.foldl (findUncached (scripted script) a) (s₁, found, cached) =
              (s', found ++ bs, cached') ∧
            s.Looked s' ∧ left script s' = rest := by
    intro bs places hsub
    induction hsub with
    | slnil =>
      intro found _ _
      exact ⟨[], fun script s s₁ cached rest hlooked h => ⟨s₁, cached, by simp, hlooked, h⟩⟩
    | cons b hsub ih =>
      intro found hnodup ha
      obtain ⟨answers, hanswers⟩ := ih found hnodup ha
      by_cases hskip : b = a ∨ b ∈ found
      · refine ⟨answers, fun script s s₁ cached rest hlooked h => ?_⟩
        rw [List.foldl_cons, findUncached, if_pos hskip]
        exact hanswers script s s₁ cached rest hlooked h
      · refine ⟨true :: answers, fun script s s₁ cached rest hlooked h => ?_⟩
        obtain ⟨hcached, hleft⟩ := isCached_scripted h b
        rw [List.foldl_cons, findUncached, if_neg hskip, if_pos hcached]
        exact hanswers script s s₁.look _ rest hlooked.look hleft
    | cons_cons b hsub ih =>
      intro found hnodup ha
      rename_i bs places
      have hskip : ¬ (b = a ∨ b ∈ found) := by
        rintro (rfl | hmem)
        · exact ha List.mem_cons_self
        · exact (List.nodup_append.1 hnodup).2.2 b hmem b List.mem_cons_self rfl
      have happend : found ++ b :: bs = (found ++ [b]) ++ bs := List.append_cons _ _ _
      obtain ⟨answers, hanswers⟩ := ih (found ++ [b]) (happend ▸ hnodup)
        fun h => ha (List.mem_cons_of_mem _ h)
      refine ⟨false :: answers, fun script s s₁ cached rest hlooked h => ?_⟩
      obtain ⟨hmiss, hleft⟩ := isCached_scripted h b
      rw [List.foldl_cons, findUncached, if_neg hskip, if_neg (by rw [hmiss]; exact nofun), happend]
      exact hanswers script s s₁.look cached rest hlooked.look hleft
  obtain ⟨answers, hanswers⟩ := hfold hsub [] hnodup ha
  exact ⟨answers, fun script s rest h => hanswers script s s [] rest ⟨s.looks, rfl⟩ h⟩

/-- When the cache has everything, nothing is found. -/
theorem getUncached_over {script : List Bool} {s : Session} (h : left script s = []) (a : Assembly) :
    ∃ s' cached, getUncachedSubassemblies g (scripted script) s a = (s', [], cached) ∧ s.Looked s' ∧
      left script s' = [] := by
  have hfold : ∀ (places : List Assembly) (s₁ : Session) (cached : List Assembly), s.Looked s₁ →
      left script s₁ = [] → ∃ s' cached',
        places.foldl (findUncached (scripted script) a) (s₁, [], cached) = (s', [], cached') ∧
          s.Looked s' ∧ left script s' = [] := by
    intro places
    induction places with
    | nil => exact fun s₁ cached hlooked h => ⟨s₁, cached, rfl, hlooked, h⟩
    | cons b places ih =>
      intro s₁ cached hlooked h
      rw [List.foldl_cons, findUncached]
      split
      · exact ih s₁ cached hlooked h
      · obtain ⟨hcached, hleft⟩ := isCached_over h b
        rw [if_pos hcached]
        exact ih _ _ hlooked.look hleft
  exact hfold (g.places a) s [] ⟨s.looks, rfl⟩ h

/-- Some of what an assembly places is asked for first, if the cache is such. -/
theorem service_scripted (g : Graph) {a : Assembly} {bs : List Assembly} (hne : bs ≠ [])
    (hsub : bs.Sublist (g.places a)) (hnodup : bs.Nodup) (ha : a ∉ bs) :
    ∃ answers, ∀ (script : List Bool) (request : Request) (s : Session) (rest : List Bool),
      asksFor g request = some a → s.staged = ∅ → left script s = answers ++ rest → ∃ s',
        service g (scripted script) request s = (.error (refusal (bs.map Assembly.item)), s') ∧
          s'.staged = ∅ ∧ s'.builds = s.builds ∧ left script s' = rest := by
  obtain ⟨answers, hanswers⟩ := getUncached_scripted g hsub hnodup ha
  refine ⟨answers, fun script request s rest hasks hstaged hleft => ?_⟩
  have hask : left script (s.ask request a) = answers ++ rest := by
    rw [left, Session.ask_looks]
    exact hleft
  obtain ⟨s', cached, hfound, hlooked, hleft'⟩ := hanswers script (s.ask request a) rest hask
  have hempty : s'.staged = ∅ := by rw [hlooked.staged, Session.ask_staged, hstaged]
  have hstage : stageSubassemblies g (scripted script) (s.ask request a) a =
      (.error (refusal (bs.map Assembly.item)), s') := by
    have hall : (bs.filter fun b => b ∉ s'.staged) = bs :=
      List.filter_eq_self.2 fun b _ => by rw [hempty]; exact decide_eq_true (Finset.notMem_empty b)
    unfold stageSubassemblies
    rw [hfound]
    dsimp only
    rw [hall, if_neg hne]
  refine ⟨s', ?_, hempty, by rw [hlooked.builds, Session.ask_builds], hleft'⟩
  obtain ⟨s₁, -, ⟨e, he, hservice⟩ | ⟨cached, hok, -⟩⟩ :=
    service_spec (m := scripted script) hasks s
  · obtain ⟨heq, rfl⟩ := Prod.mk.inj (he.symm.trans hstage)
    obtain rfl := Except.error.inj heq
    exact hservice
  · cases (Prod.mk.inj (hok.symm.trans hstage)).1

/-- An assembly is built when the cache has everything. -/
theorem service_over {script : List Bool} {request : Request} {a : Assembly} {s : Session}
    (hasks : asksFor g request = some a) (hleft : left script s = []) :
    ∃ r s' cached, service g (scripted script) request s = (.result r, s') ∧ left script s' = [] ∧
      s'.builds = s.builds ++ [⟨a, cached⟩] := by
  have hask : left script (s.ask request a) = [] := by
    rw [left, Session.ask_looks]
    exact hleft
  obtain ⟨s', cached, hfound, hlooked, hleft'⟩ := getUncached_over (g := g) hask a
  have hstage : stageSubassemblies g (scripted script) (s.ask request a) a = (.ok cached, s') := by
    unfold stageSubassemblies
    rw [hfound]
    rfl
  obtain ⟨s₁, -, ⟨e, he, -⟩ | ⟨cached', r, hok, hservice⟩⟩ :=
    service_succeeds (scripted_succeeds script) hasks s
  · cases (Prod.mk.inj (he.symm.trans hstage)).1
  · obtain ⟨-, rfl⟩ := Prod.mk.inj (hok.symm.trans hstage)
    refine ⟨r, _, cached', hservice, hleft', ?_⟩
    rw [Session.build, hlooked.builds, Session.ask_builds]

/-! ## Something that is built twice -/

/-- How often an assembly has been built. -/
def Session.built (s : Session) (c : Assembly) : ℕ := (s.builds.map Build.assembly).count c

/-- With some answers of the cache, a request for `a` has `c` built `n` times more, if nothing has been
asked for that has one of the names. -/
def Builds (g : Graph) (c : Assembly) (n : ℕ) (names : List Str) (a : Assembly) : Prop :=
  ∃ answers, ∀ (script : List Bool) (request : Request) (s : Session) (staged : Finset Str),
    asksFor g request = some a → s.staged = ∅ → (∀ i ∈ names, i ∉ staged) → left script s = answers →
      ∃ fuel r s' staged', left script s' = [] ∧ s.built c + n ≤ s'.built c ∧
        callStaging (service g (scripted script)) fuel request s staged =
          some (.result r, s', staged')

/-- An assembly is built when the cache has everything, whatever has been asked for. -/
theorem callStaging_over {script : List Bool} {request : Request} {a : Assembly} {s : Session}
    (hasks : asksFor g request = some a) (hleft : left script s = []) (fuel : ℕ) (staged : Finset Str) :
    ∃ r s', left script s' = [] ∧ s.built a + 1 ≤ s'.built a ∧ (∀ c, s.built c ≤ s'.built c) ∧
      callStaging (service g (scripted script)) (fuel + 1) request s staged =
        some (.result r, s', staged) := by
  obtain ⟨r, s', cached, hservice, hleft', hbuilds⟩ := service_over hasks hleft
  have hbuilt : ∀ c, s'.built c = s.built c + [a].count c := by
    intro c
    rw [Session.built, hbuilds, List.map_append, List.count_append]
    rfl
  refine ⟨r, s', hleft', ?_, fun c => ?_, callStaging_answered hservice nofun⟩
  · rw [hbuilt, List.count_singleton_self]
  · rw [hbuilt]
    exact Nat.le_add_right _ _

/-- A request is made again when what it was refused with has been built. -/
theorem callStaging_again {script : List Bool} {request : Request} {a : Assembly} {s s₁ s₂ : Session}
    {staged staged₂ : Finset Str} {bs : List Assembly} {fuel : ℕ} (hasks : asksFor g request = some a)
    (hservice :
      service g (scripted script) request s = (.error (refusal (bs.map Assembly.item)), s₁))
    (hne : bs ≠ []) (hnew : ∀ b ∈ bs, b.ident ∉ staged)
    (hstage : stageAll (fun item => callStaging (service g (scripted script)) (fuel + 1)
      (requestParams item request.context)) (bs.map Assembly.item) s₁ staged = some (none, s₂, staged₂))
    (hleft : left script s₂ = []) :
    ∃ r s', left script s' = [] ∧ (∀ c, s₂.built c ≤ s'.built c) ∧
      callStaging (service g (scripted script)) (fuel + 2) request s staged =
        some (.result r, s', staged₂) := by
  obtain ⟨r, s', hleft', -, hmore, hend⟩ := callStaging_over hasks hleft fuel staged₂
  refine ⟨r, s', hleft', hmore, ?_⟩
  have hpending : (pendingSubassemblies (refusal (bs.map Assembly.item))).filter
      (fun item => identity item ∉ staged) = bs.map Assembly.item := by
    rw [pendingSubassemblies_refusal, List.filter_eq_self]
    intro item hitem
    obtain ⟨b, hb, rfl⟩ := List.mem_map.1 hitem
    exact decide_eq_true (hnew b hb)
  obtain ⟨b, bs, rfl⟩ := List.exists_cons_of_ne_nil hne
  rw [callStaging_retry hservice hpending, ← List.map_cons, hstage, Option.bind_some]
  exact hend

/-- **One step up**: what is placed is all that is asked for. -/
theorem Builds.up (hnamed : g.Named) {a b c : Assembly} {n : ℕ} {names : List Str}
    (hb : b ∈ g.places a) (hab : a ≠ b) (hname : b.ident ∉ names) (h : Builds g c n names b) :
    Builds g c n (b.ident :: names) a := by
  obtain ⟨below, hbelow⟩ := h
  obtain ⟨answers, hanswers⟩ := service_scripted g (List.cons_ne_nil b [])
    (List.singleton_sublist.2 hb) (List.nodup_singleton b) (fun h => hab (List.mem_singleton.1 h))
  refine ⟨answers ++ below, fun script request s staged hasks hstaged hnames hleft => ?_⟩
  obtain ⟨s₁, hservice, hstaged₁, hbuilds, hleft₁⟩ := hanswers script request s below hasks hstaged hleft
  have hasksb := asksFor_item hnamed (g.places_mem a (asksFor_mem hasks) b hb) request.context
  obtain ⟨fuel, r, s₂, staged₂, hleft₂, hbuilt, hend⟩ := hbelow script _ s₁ (insert b.ident staged) hasksb
    hstaged₁ (fun i hi hmem => by
      rcases Finset.mem_insert.1 hmem with rfl | hmem
      · exact hname hi
      · exact hnames i (List.mem_cons_of_mem _ hi) hmem) hleft₁
  have hstage : stageAll (fun item => callStaging (service g (scripted script)) (fuel + 1)
      (requestParams item request.context)) ([b].map Assembly.item) s₁ staged =
        some (none, s₂, staged₂) := by
    rw [List.map_cons, stageAll, show identity b.item = b.ident from rfl,
      callStaging_mono (Nat.le_succ fuel) hend]
    rfl
  obtain ⟨r', s', hleft', hmore, hagain⟩ := callStaging_again hasks hservice (List.cons_ne_nil b [])
    (fun b' hb' => by
      obtain rfl := List.mem_singleton.1 hb'
      exact hnames _ List.mem_cons_self) hstage hleft₂
  refine ⟨_, r', s', _, hleft', ?_, hagain⟩
  have hsame : s₁.built c = s.built c := by rw [Session.built, hbuilds, Session.built]
  exact (hsame ▸ hbuilt).trans (hmore c)

/-- **The turn**: `c` is built below `b`, which comes before it, and then it is asked for. -/
theorem Builds.turn (hnamed : g.Named) {a b c : Assembly} {n : ℕ} {names : List Str}
    (hsub : [b, c].Sublist (g.places a)) (hbc : b ≠ c) (hab : a ≠ b) (hac : a ≠ c)
    (hname : b.ident ∉ names) (h : Builds g c n names b) :
    Builds g c (n + 1) (c.ident :: b.ident :: names) a := by
  obtain ⟨below, hbelow⟩ := h
  have hb : b ∈ g.places a := hsub.subset List.mem_cons_self
  have hc : c ∈ g.places a := hsub.subset (List.mem_cons_of_mem _ List.mem_cons_self)
  obtain ⟨answers, hanswers⟩ := service_scripted g (List.cons_ne_nil b [c]) hsub (by simpa using hbc)
    (by simp [hab, hac])
  refine ⟨answers ++ below, fun script request s staged hasks hstaged hnames hleft => ?_⟩
  obtain ⟨s₁, hservice, hstaged₁, hbuilds, hleft₁⟩ := hanswers script request s below hasks hstaged hleft
  have hmem := asksFor_mem hasks
  have hasksb := asksFor_item hnamed (g.places_mem a hmem b hb) request.context
  have hasksc := asksFor_item hnamed (g.places_mem a hmem c hc) request.context
  obtain ⟨fuel, r, s₂, staged₂, hleft₂, hbuilt, hend⟩ := hbelow script _ s₁ (insert b.ident staged) hasksb
    hstaged₁ (fun i hi hmem => by
      rcases Finset.mem_insert.1 hmem with rfl | hmem
      · exact hname hi
      · exact hnames i (List.mem_cons_of_mem _ (List.mem_cons_of_mem _ hi)) hmem) hleft₁
  -- though it is in the set by now
  obtain ⟨r₃, s₃, hleft₃, hbuilt₃, -, hend₃⟩ :=
    callStaging_over hasksc hleft₂ fuel (insert c.ident staged₂)
  have hstage : stageAll (fun item => callStaging (service g (scripted script)) (fuel + 1)
      (requestParams item request.context)) ([b, c].map Assembly.item) s₁ staged =
        some (none, s₃, insert c.ident staged₂) := by
    rw [List.map_cons, stageAll, show identity b.item = b.ident from rfl,
      callStaging_mono (Nat.le_succ fuel) hend]
    dsimp only
    rw [List.map_cons, stageAll, show identity c.item = c.ident from rfl, hend₃]
    rfl
  obtain ⟨r', s', hleft', hmore, hagain⟩ := callStaging_again hasks hservice (List.cons_ne_nil b [c])
    (fun x hx => by
      rcases List.mem_cons.1 hx with rfl | hx
      · exact hnames _ (List.mem_cons_of_mem _ List.mem_cons_self)
      · obtain rfl := List.mem_singleton.1 hx
        exact hnames _ List.mem_cons_self) hstage hleft₃
  refine ⟨_, r', s', _, hleft', ?_, hagain⟩
  have hsame : s₁.built c = s.built c := by rw [Session.built, hbuilds, Session.built]
  have hlast := hmore c
  omega

/-- All the way up a stack. -/
theorem Builds.rise (hnamed : g.Named) (hacyclic : g.Acyclic) (hroot : root ∈ g.assemblies)
    {c : Assembly} {n : ℕ} {stack : List Assembly} : ∀ {above : List Assembly} {names : List Str},
      g.Stack root (above ++ stack) → (∀ i ∈ names, i ∉ (above ++ stack).map Assembly.ident) →
        Builds g c n names ((above ++ stack).headD root) →
          ∃ names', (∀ i ∈ names', i ∉ stack.map Assembly.ident) ∧
            Builds g c n names' (stack.headD root) := by
  intro above
  induction above with
  | nil => exact fun _ hnames h => ⟨_, hnames, h⟩
  | cons b above ih =>
    intro names hstack hnames h
    obtain ⟨hb, hname, htail⟩ := hstack
    have hself : (above ++ stack).headD root ≠ b := by
      intro heq
      refine hacyclic b (heq ▸ htail.mem hroot) (.single ?_)
      rw [← heq] at hb ⊢
      exact hb
    refine ih htail (fun i hi hmem => ?_) (h.up hnamed hb hself fun hi => ?_)
    · rcases List.mem_cons.1 hi with rfl | hi
      · exact hname hmem
      · exact hnames i hi (List.mem_cons_of_mem _ hmem)
    · exact hnames _ hi List.mem_cons_self

/-- An assembly that is placed after one that it is placed in **can be built twice**. -/
theorem not_builtOnce (hnamed : g.Named) (hacyclic : g.Acyclic) {request : Request}
    (hasks : asksFor g request = some root) (horder : ¬ g.InOrder root) :
    ∃ m fuel outcome, call (service g m) fuel request fresh = some outcome ∧
      ¬ BuiltOnce fresh outcome.2.1 := by
  have hroot := asksFor_mem hasks
  unfold Graph.InOrder at horder
  push Not at horder
  obtain ⟨stack, b, between, c, hstack, hsub⟩ := horder
  have hbstack : g.Stack root (b :: stack) := hstack.drop
  have hself : ∀ x ∈ g.places (stack.headD root), stack.headD root ≠ x := fun x hx heq =>
    hacyclic _ (hbstack.tail.mem hroot) (.single (heq ▸ hx))
  have hbc : b ≠ c := by
    rintro rfl
    exact hacyclic _ (hbstack.mem hroot) hstack.below
  have honce : Builds g c 1 [] c := by
    refine ⟨[], fun script request' s staged hasks' _ _ hleft => ?_⟩
    obtain ⟨r, s', hleft', hbuilt, -, hend⟩ := callStaging_over hasks' hleft 0 staged
    exact ⟨1, r, s', staged, hleft', hbuilt, hend⟩
  obtain ⟨names, hnames, hbelow⟩ := honce.rise hnamed hacyclic hroot hstack
    fun i hi => absurd hi List.not_mem_nil
  have hturn := hbelow.turn hnamed hsub hbc (hself b (hsub.subset (by simp)))
    (hself c (hsub.subset (by simp))) fun hi => hnames _ hi List.mem_cons_self
  have hopen : g.Stack root (stack ++ []) := by
    rw [List.append_nil]
    exact hbstack.tail
  have habove : ∀ i ∈ c.ident :: b.ident :: names, i ∉ (stack ++ []).map Assembly.ident := by
    intro i hi
    rw [List.append_nil]
    rcases List.mem_cons.1 hi with rfl | hi
    · intro hname
      obtain ⟨x, hx, hsame⟩ := List.mem_map.1 hname
      refine hstack.2.1 (List.mem_map.2 ⟨x, ?_, hsame⟩)
      exact List.mem_append_right _ (List.mem_cons_of_mem _ hx)
    · rcases List.mem_cons.1 hi with rfl | hi
      · exact hbstack.2.1
      · exact fun hname => hnames i hi (List.mem_cons_of_mem _ hname)
  obtain ⟨names', -, answers, htwice⟩ : ∃ names', (∀ i ∈ names', i ∉ ([] : List Assembly).map _) ∧
      Builds g c 2 names' root :=
    Builds.rise hnamed hacyclic hroot hopen habove (by rwa [List.append_nil])
  obtain ⟨fuel, r, s', staged', -, hbuilt, hend⟩ :=
    htwice answers request fresh ∅ hasks rfl (fun _ _ => Finset.notMem_empty _) rfl
  refine ⟨scripted answers, fuel, _, hend, ?_⟩
  rintro ⟨builds, hbuilds, hnodup⟩
  have hcount := List.nodup_iff_count_le_one.1 hnodup c
  have hfresh : fresh.built c = 0 := rfl
  have hsame : s'.built c = (builds.map Build.assembly).count c := by
    rw [Session.built, hbuilds]
    rfl
  omega

end

/-- **What is built in an exchange**: for every graph without cycles and every request, no two of the
requests that the client makes end in the building of one assembly, whatever the cache has whenever it is
asked, just when nothing that the request leads to is placed after something that it is itself placed
in. -/
theorem builtOnce_iff {g : Graph} (hnamed : g.Named) (hacyclic : g.Acyclic) (request : Request) :
    (∀ (m : Machine) (s : Session) (fuel : ℕ), g.assemblies.card < fuel →
      ∃ outcome, call (service g m) fuel request s = some outcome ∧ BuiltOnce s outcome.2.1) ↔
        ∀ root, asksFor g request = some root → g.InOrder root := by
  constructor
  · intro h root hasks
    by_contra horder
    obtain ⟨m, fuel, outcome, hend, hnot⟩ := not_builtOnce hnamed hacyclic hasks horder
    obtain ⟨outcome', hend', honce⟩ := h m fresh (fuel + g.assemblies.card + 1) (by omega)
    have hmore : fuel ≤ fuel + g.assemblies.card + 1 := by omega
    obtain rfl := Option.some.inj ((callStaging_mono hmore hend).symm.trans hend')
    exact hnot honce
  · intro horder m s fuel hfuel
    obtain ⟨outcome, hend⟩ := call_terminates g m request s hfuel
    exact ⟨outcome, hend, builtOnce_of_inOrder hnamed hacyclic horder hend⟩

/-! ## A wagon with an axle and a spare wheel -/

def wagon : Assembly := ⟨.assembly, "//".toList, "wagon".toList, by decide⟩

def axle : Assembly := ⟨.assembly, "//".toList, "axle".toList, by decide⟩

def wheel : Assembly := ⟨.assembly, "//".toList, "wheel".toList, by decide⟩

/-- The wagon places the axle and then a wheel, of which there are some on the axle. -/
def wagonGraph : Graph where
  assemblies := {wagon, axle, wheel}
  places a := if a = wagon then [axle, wheel] else if a = axle then [wheel, wheel] else []
  places_mem a _ b hb := by
    split at hb
    · rcases List.mem_cons.1 hb with rfl | hb
      · simp
      · obtain rfl := List.mem_singleton.1 hb
        simp
    · split at hb
      · obtain rfl : b = wheel := by simpa using hb
        simp
      · cases hb
  find kind path :=
    [wagon, axle, wheel].find? fun a => a.kind = kind ∧ qualified a.projectName a.name = path
  find_mem kind path a h := by
    have hmem := List.mem_of_find?_eq_some h
    simpa using hmem

theorem wagonGraph_acyclic : wagonGraph.Acyclic := by
  refine Graph.acyclic_of_rank (fun a => if a = wagon then 2 else if a = axle then 1 else 0)
    fun a b hb => ?_
  unfold wagonGraph at hb
  dsimp only at hb
  split at hb
  · rename_i ha
    rw [if_pos ha]
    rcases List.mem_cons.1 hb with rfl | hb
    · decide
    · obtain rfl := List.mem_singleton.1 hb
      decide
  · rename_i ha
    split at hb
    · rename_i ha'
      obtain rfl : b = wheel := by simpa using hb
      rw [if_neg ha, if_pos ha']
      decide
    · cases hb

theorem wagonGraph_named : wagonGraph.Named := by
  unfold Graph.Named
  decide

/-- The request to look at an assembly. -/
def inspectRequest (a : Assembly) : Request :=
  ⟨"inspect.assembly".toList, some a.projectName, some a.name, some a.kind.text, false, none⟩

/-- Of the axle alone everything is built once. -/
theorem builtOnce_axle :
    ∃ outcome, call (service wagonGraph uncached) 4 (inspectRequest axle) fresh = some outcome ∧
      BuiltOnce fresh outcome.2.1 := by
  refine (builtOnce_iff wagonGraph_named wagonGraph_acyclic (inspectRequest axle)).2 ?_ uncached fresh 4
    (by decide)
  intro root hroot
  have haxle : asksFor wagonGraph (inspectRequest axle) = some axle := by decide
  obtain rfl := Option.some.inj (haxle.symm.trans hroot)
  intro stack b between c hstack hsub
  -- there is nothing below the wheel
  have hleaf : ∀ x, x ∉ wagonGraph.places wheel := fun x hx => nomatch hx
  have hbelow : ∀ x, wagonGraph.Below axle x → x = wheel := by
    intro x hx
    induction hx with
    | single h => exact (List.mem_pair.1 h).elim id id
    | tail _ h ih =>
      rw [ih] at h
      exact absurd h (hleaf _)
  have hb : b = wheel := by
    have hbstack : wagonGraph.Stack axle (b :: stack ++ []) := by
      rw [List.append_nil]
      exact hstack.drop
    exact hbelow b hbstack.below
  obtain ⟨x, hx, -⟩ := (hstack.below).first
  rw [List.headD_cons, hb] at hx
  exact hleaf x hx

/-- The wheel is built twice. -/
theorem not_builtOnce_wagon :
    ¬ ∀ (g : Graph) (request : Request), g.Acyclic → g.Named →
      ∀ (m : Machine) (s : Session) (fuel : ℕ), g.assemblies.card < fuel →
        ∃ outcome, call (service g m) fuel request s = some outcome ∧ BuiltOnce s outcome.2.1 := by
  intro h
  obtain ⟨outcome, hend, builds, hbuilds, hnodup⟩ :=
    h wagonGraph (inspectRequest wagon) wagonGraph_acyclic wagonGraph_named uncached fresh 4
      (by decide)
  have hrun : (call (service wagonGraph uncached) 4 (inspectRequest wagon) fresh).map
      (fun outcome => outcome.2.1.builds.map Build.assembly) = some [wheel, axle, wheel, wagon] := by
    decide
  rw [hend, Option.map_some, hbuilds] at hrun
  have hall : builds.map Build.assembly = [wheel, axle, wheel, wagon] := Option.some.inj hrun
  rw [hall] at hnodup
  exact absurd hnodup (by decide)

end PartCAD.Staging
