import Mathlib.Data.List.Nodup
import Mathlib.Order.WellFounded

/-!
# What is used comes first

A depth-first walk over what things use, which are told apart by keys: a thing is listed when all
that it uses has been, and only once.

* `Listed` : what always holds of the list;
* `collect_spec` : the walk ends, and lists everything that is used, and the first thing last.
-/

namespace PartCAD.Lib.PostOrder

variable {α κ : Type} [DecidableEq κ] (uses : α → List α) (key : α → κ)

/-- The walk below a thing, with the list so far and the keys that have been met.  The number bounds
its depth. -/
def collect : ℕ → α → List α × List κ → Option (List α × List κ)
  | 0, _, _ => none
  | n + 1, a, (nodes, seen) =>
    if key a ∈ seen then some (nodes, seen)
    else
      ((uses a).foldlM (fun st b => collect n b st) (nodes, key a :: seen)).map fun st =>
        (st.1 ++ [a], st.2)

/-- One uses the other. -/
def UsedBy (b a : α) : Prop := b ∈ uses a

/-- One is the other, or is used by it, directly or not. -/
def Below (b a : α) : Prop := Relation.ReflTransGen (UsedBy uses) b a

/-- Everything is listed once, after all that it uses, and is known by its key. -/
structure Listed (nodes : List α) (seen : List κ) : Prop where
  nodup : nodes.Nodup
  known : ∀ b ∈ nodes, key b ∈ seen
  after : ∀ front b back, nodes = front ++ b :: back → ∀ c ∈ uses b, c ∈ front

/-- What has been met below a thing is listed. -/
def Ready (a : α) (nodes : List α) (seen : List κ) : Prop :=
  ∀ b, Below uses b a → key b ∈ seen → b ∈ nodes

variable {uses key}

theorem below_of_mem {a b c : α} (hb : b ∈ uses a) (h : Below uses c b) : Below uses c a :=
  h.tail hb

/-- Nothing is below what it uses. -/
theorem not_below_of_mem (hwf : WellFounded (UsedBy uses)) {a b : α} (hb : b ∈ uses a) :
    ¬ Below uses a b := by
  intro h
  have hcycle : Relation.TransGen (UsedBy uses) a a := Relation.TransGen.tail' h hb
  exact hwf.transGen.irrefl.irrefl a hcycle

omit [DecidableEq κ] in
/-- With a thing, all that is below it is listed. -/
theorem Listed.mem_of_below {nodes : List α} {seen : List κ} (h : Listed uses key nodes seen)
    {a b : α} (ha : a ∈ nodes) (hb : Below uses b a) : b ∈ nodes := by
  induction hb using Relation.ReflTransGen.head_induction_on with
  | refl => exact ha
  | head hcb _ ih =>
    obtain ⟨front, back, hnodes⟩ := List.append_of_mem ih
    rw [hnodes]
    exact List.mem_append_left _ (h.after front _ back hnodes _ hcb)

omit [DecidableEq κ] in
/-- A thing comes after all that it uses. -/
theorem Listed.concat {nodes : List α} {seen : List κ} (h : Listed uses key nodes seen) {a : α}
    (ha : a ∉ nodes) (hseen : key a ∈ seen) (huses : ∀ b ∈ uses a, b ∈ nodes) :
    Listed uses key (nodes ++ [a]) seen where
  nodup := by
    refine List.nodup_append.2 ⟨h.nodup, List.nodup_singleton a, ?_⟩
    intro b hb c hc hbc
    rw [List.mem_singleton.1 hc] at hbc
    exact ha (hbc ▸ hb)
  known b hb := by
    rcases List.mem_append.1 hb with hb | hb
    · exact h.known b hb
    · rw [List.mem_singleton.1 hb]
      exact hseen
  after := by
    intro front b back heq c hc
    rcases List.append_eq_append_iff.1 heq with ⟨mid, hfront, hmid⟩ | ⟨mid, hnodes, hmid⟩
    · -- the new thing is in what follows, so it is what comes next
      cases mid with
      | nil =>
        rw [List.nil_append] at hmid
        obtain ⟨rfl, -⟩ := List.cons.inj hmid
        rw [hfront, List.append_nil]
        exact huses c hc
      | cons d mid =>
        have hlen := congrArg List.length hmid
        simp at hlen
    · cases mid with
      | nil =>
        rw [List.nil_append] at hmid
        obtain ⟨rfl, -⟩ := List.cons.inj hmid.symm
        rw [List.append_nil] at hnodes
        rw [← hnodes]
        exact huses c hc
      | cons d mid =>
        obtain ⟨rfl, -⟩ := List.cons.inj hmid
        exact h.after front b mid hnodes c hc

/-- What the walk below a thing does. -/
structure Done (uses : α → List α) (key : α → κ) (a : α) (nodes : List α) (seen : List κ)
    (nodes' : List α) (seen' : List κ) : Prop where
  listed : Listed uses key nodes' seen'
  mem : a ∈ nodes'
  grown : ∃ new, nodes' = nodes ++ new ∧ ∀ b ∈ new, Below uses b a
  met : ∀ k ∈ seen', k ∈ seen ∨ ∃ b ∈ nodes', key b = k
  kept : ∀ k ∈ seen, k ∈ seen'
  last : key a ∉ seen → nodes'.getLast? = some a

/-- The walk is below a thing, between one that it uses and the next. -/
structure Between (uses : α → List α) (key : α → κ) (a : α) (nodes₀ : List α) (seen₀ : List κ)
    (nodes : List α) (seen : List κ) : Prop where
  listed : Listed uses key nodes seen
  grown : ∃ new, nodes = nodes₀ ++ new ∧ ∀ b ∈ new, ∃ c ∈ uses a, Below uses b c
  met : ∀ k ∈ seen, k = key a ∨ k ∈ seen₀ ∨ ∃ b ∈ nodes, key b = k
  kept : ∀ k ∈ key a :: seen₀, k ∈ seen

/-- A bound for each of several is a bound for all. -/
theorem exists_bound {P : α → ℕ → Prop} {as : List α}
    (h : ∀ a ∈ as, ∃ N, ∀ n, N ≤ n → P a n) : ∃ N, ∀ a ∈ as, ∀ n, N ≤ n → P a n := by
  induction as with
  | nil => exact ⟨0, fun a ha => absurd ha (by simp)⟩
  | cons a as ih =>
    obtain ⟨N, hN⟩ := h a (List.mem_cons_self ..)
    obtain ⟨M, hM⟩ := ih fun b hb => h b (List.mem_cons_of_mem _ hb)
    refine ⟨max N M, fun b hb n hn => ?_⟩
    rcases List.mem_cons.1 hb with rfl | hb
    · exact hN n (by omega)
    · exact hM b hb n (by omega)

section

variable (hkey : ∀ a b, key a = key b → a = b) (hwf : WellFounded (UsedBy uses))

include hkey hwf

omit hkey hwf [DecidableEq κ] in
/-- The walk has come to a thing, and to nothing that it uses. -/
theorem between_start {a : α} {nodes : List α} {seen : List κ} (h : Listed uses key nodes seen) :
    Between uses key a nodes seen nodes (key a :: seen) where
  listed := ⟨h.nodup, fun b hb => List.mem_cons_of_mem _ (h.known b hb), h.after⟩
  grown := ⟨[], (List.append_nil _).symm, by simp⟩
  met k hk := by
    rcases List.mem_cons.1 hk with heq | hold
    · exact Or.inl heq
    · exact Or.inr (Or.inl hold)
  kept _ hk := hk

omit [DecidableEq κ] in
/-- What has been met below the next of what the thing uses is listed. -/
theorem Between.ready {a b : α} {nodes₀ nodes : List α} {seen₀ seen : List κ}
    (h : Between uses key a nodes₀ seen₀ nodes seen) (hready : Ready uses key a nodes₀ seen₀)
    (hb : b ∈ uses a) : Ready uses key b nodes seen := by
  obtain ⟨new, hnew, -⟩ := h.grown
  intro c hc hknown
  rcases h.met _ hknown with heq | hold | ⟨d, hd, heq⟩
  · -- the thing itself is not below what it uses
    obtain rfl := hkey _ _ heq
    exact absurd hc (not_below_of_mem hwf hb)
  · rw [hnew]
    exact List.mem_append_left _ (hready c (below_of_mem hb hc) hold)
  · rw [← hkey _ _ heq]
    exact hd

omit hkey hwf [DecidableEq κ] in
/-- The walk below one of what the thing uses. -/
theorem Between.done {a b : α} {nodes₀ nodes nodes' : List α} {seen₀ seen seen' : List κ}
    (h : Between uses key a nodes₀ seen₀ nodes seen) (hb : b ∈ uses a)
    (hdone : Done uses key b nodes seen nodes' seen') :
    Between uses key a nodes₀ seen₀ nodes' seen' := by
  obtain ⟨new, hnew, hbelow⟩ := h.grown
  obtain ⟨added, hadded, hbelow'⟩ := hdone.grown
  refine ⟨hdone.listed, ⟨new ++ added, ?_, ?_⟩, ?_, fun k hk => hdone.kept k (h.kept k hk)⟩
  · rw [hadded, hnew, List.append_assoc]
  · intro c hc
    rcases List.mem_append.1 hc with hc | hc
    · exact hbelow c hc
    · exact ⟨b, hb, hbelow' c hc⟩
  · intro k hk
    rcases hdone.met k hk with hold | hnode
    · rcases h.met k hold with heq | hold | ⟨d, hd, heq⟩
      · exact Or.inl heq
      · exact Or.inr (Or.inl hold)
      · exact Or.inr (Or.inr ⟨d, hadded ▸ List.mem_append_left _ hd, heq⟩)
    · exact Or.inr (Or.inr hnode)

/-- The walk below what a thing uses, one after the other. -/
theorem Between.foldlM {a : α} {n : ℕ} {nodes₀ nodes : List α} {seen₀ seen : List κ} {bs : List α}
    (h : Between uses key a nodes₀ seen₀ nodes seen) (hready : Ready uses key a nodes₀ seen₀)
    (hbs : ∀ b ∈ bs, b ∈ uses a)
    (ih : ∀ b ∈ bs, ∀ nodes seen, Listed uses key nodes seen → Ready uses key b nodes seen →
      ∃ nodes' seen', collect uses key n b (nodes, seen) = some (nodes', seen') ∧
        Done uses key b nodes seen nodes' seen') :
    ∃ nodes' seen',
      bs.foldlM (fun st b => collect uses key n b st) (nodes, seen) = some (nodes', seen') ∧
        Between uses key a nodes₀ seen₀ nodes' seen' ∧ (∀ b ∈ nodes, b ∈ nodes') ∧
        ∀ b ∈ bs, b ∈ nodes' := by
  induction bs generalizing nodes seen with
  | nil => exact ⟨nodes, seen, rfl, h, fun _ hb => hb, fun b hb => absurd hb (by simp)⟩
  | cons b bs ihbs =>
    have hb : b ∈ uses a := hbs b (List.mem_cons_self ..)
    obtain ⟨nodes', seen', hcollect, hdone⟩ :=
      ih b (List.mem_cons_self ..) nodes seen h.listed (h.ready hkey hwf hready hb)
    obtain ⟨nodes'', seen'', hfold, hbetween, hgrow, hall⟩ :=
      ihbs (h.done hb hdone) (fun c hc => hbs c (List.mem_cons_of_mem _ hc))
        fun c hc => ih c (List.mem_cons_of_mem _ hc)
    obtain ⟨added, hadded, -⟩ := hdone.grown
    refine ⟨nodes'', seen'', ?_, hbetween, ?_, ?_⟩
    · rw [List.foldlM_cons, hcollect]
      exact hfold
    · exact fun c hc => hgrow c (hadded ▸ List.mem_append_left _ hc)
    · intro c hc
      rcases List.mem_cons.1 hc with rfl | hc
      · exact hgrow c hdone.mem
      · exact hall c hc

omit hkey [DecidableEq κ] in
/-- A thing is listed when all that it uses has been. -/
theorem Between.finish {a : α} {nodes₀ nodes : List α} {seen₀ seen : List κ}
    (h : Between uses key a nodes₀ seen₀ nodes seen) (hlisted : Listed uses key nodes₀ seen₀)
    (hunknown : key a ∉ seen₀) (hall : ∀ b ∈ uses a, b ∈ nodes) :
    Done uses key a nodes₀ seen₀ (nodes ++ [a]) seen := by
  obtain ⟨new, hnew, hbelow⟩ := h.grown
  have hnot : a ∉ nodes := by
    rw [hnew, List.mem_append, not_or]
    refine ⟨fun ha => hunknown (hlisted.known a ha), fun ha => ?_⟩
    obtain ⟨c, hc, hac⟩ := hbelow a ha
    exact not_below_of_mem hwf hc hac
  refine ⟨h.listed.concat hnot (h.kept _ (List.mem_cons_self ..)) hall, ?_, ⟨new ++ [a], ?_, ?_⟩, ?_,
    fun k hk => h.kept k (List.mem_cons_of_mem _ hk), fun _ => List.getLast?_concat⟩
  · exact List.mem_append_right _ (List.mem_singleton_self a)
  · rw [hnew, List.append_assoc]
  · intro b hb
    rcases List.mem_append.1 hb with hb | hb
    · obtain ⟨c, hc, hbc⟩ := hbelow b hb
      exact below_of_mem hc hbc
    · rw [List.mem_singleton.1 hb]
      exact Relation.ReflTransGen.refl
  · intro k hk
    rcases h.met k hk with rfl | hold | ⟨b, hb, heq⟩
    · exact Or.inr ⟨a, List.mem_append_right _ (List.mem_singleton_self a), rfl⟩
    · exact Or.inl hold
    · exact Or.inr ⟨b, List.mem_append_left _ hb, heq⟩

/-- **The walk below a thing.** -/
theorem exists_collect (a : α) : ∃ N, ∀ n, N ≤ n → ∀ nodes seen, Listed uses key nodes seen →
    Ready uses key a nodes seen →
      ∃ nodes' seen', collect uses key n a (nodes, seen) = some (nodes', seen') ∧
        Done uses key a nodes seen nodes' seen' := by
  induction a using hwf.induction with
  | _ a ih =>
    obtain ⟨N, hN⟩ := exists_bound fun b hb => ih b hb
    refine ⟨N + 1, fun n hn nodes seen hlisted hready => ?_⟩
    obtain ⟨n, rfl⟩ : ∃ m, n = m + 1 := ⟨n - 1, by omega⟩
    rw [collect]
    by_cases hknown : key a ∈ seen
    · rw [if_pos hknown]
      have hmem : a ∈ nodes := hready a Relation.ReflTransGen.refl hknown
      refine ⟨nodes, seen, rfl, hlisted, hmem, ⟨[], (List.append_nil _).symm, by simp⟩, ?_, ?_, ?_⟩
      · exact fun k hk => Or.inl hk
      · exact fun k hk => hk
      · exact fun hnew => absurd hknown hnew
    · rw [if_neg hknown]
      obtain ⟨nodes', seen', hfold, hbetween, -, hall⟩ :=
        (between_start hlisted).foldlM hkey hwf hready (fun b hb => hb)
          fun b hb => hN b hb n (by omega)
      exact ⟨nodes' ++ [a], seen', by rw [hfold]; rfl, hbetween.finish hwf hlisted hknown hall⟩

/-- **The walk from a thing** lists what is below it, each once, after all that it uses; the thing
itself comes last. -/
theorem collect_spec (a : α) : ∃ N, ∀ n, N ≤ n →
    ∃ nodes seen, collect uses key n a ([], []) = some (nodes, seen) ∧
      Listed uses key nodes seen ∧ (∀ b, b ∈ nodes ↔ Below uses b a) ∧
      nodes.getLast? = some a := by
  obtain ⟨N, hN⟩ := exists_collect hkey hwf a
  refine ⟨N, fun n hn => ?_⟩
  have hempty : Listed uses key [] ([] : List κ) := by
    refine ⟨List.nodup_nil, by simp, fun front b back heq => ?_⟩
    exact absurd heq (by simp)
  obtain ⟨nodes, seen, hcollect, hdone⟩ := hN n hn [] [] hempty fun b _ hb => absurd hb (by simp)
  obtain ⟨new, hnew, hbelow⟩ := hdone.grown
  rw [List.nil_append] at hnew
  refine ⟨nodes, seen, hcollect, hdone.listed, fun b => ⟨fun hb => ?_, ?_⟩, hdone.last (by simp)⟩
  · exact hbelow b (hnew ▸ hb)
  · exact hdone.listed.mem_of_below hdone.mem

end

end PartCAD.Lib.PostOrder
