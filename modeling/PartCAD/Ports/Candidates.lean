import Mathlib.Data.Finset.Basic
import PartCAD.Ports.Governing
import PartCAD.Ports.Instances

/-!
# The interfaces that two objects can be connected by

`findMatingInterfaces` goes from the interfaces of either object to the names that they are drop-ins
for, keeps those that something on the other side is mated with, and goes back to the interfaces that
brought them in.  It takes the unions over either side separately.

* `symmetric_mateRun` : the tables that declarations make hold every mating in both directions;
* `findMatingInterfaces_spec` : with such a table the interfaces found are those with a drop-in that
  is mated with a drop-in of some interface of the other object.
-/

namespace PartCAD.Ports

open PartCAD.Lib PartCAD.Package

variable {L B P ι F : Type}

/-! ## The functions -/

/-- The interfaces, and those that they are drop-ins for. -/
def forms (compatible : Str → List Str) (interfaces : List Str) : List Str :=
  interfaces ++ interfaces.flatMap compatible

def enterForm (real : Dict Str (Finset Str)) (form interface : Str) : Dict Str (Finset Str) :=
  let real := real.setdefault form ∅
  real.set form (insert interface ((real.get? form).getD ∅))

/-- For every form, the interfaces that brought it in. -/
def realInterfaces (compatible : Str → List Str) (interfaces : List Str) :
    Dict Str (Finset Str) :=
  interfaces.foldl
    (fun real interface =>
      (compatible interface).foldl (fun real form => enterForm real form interface) real)
    (Dict.ofPairs (interfaces.map fun interface => (interface, {interface})))

def peers (mates : Mates ι F) (name : Str) : List Str :=
  ((mates.get? name).getD Dict.empty).keys

/-- The interfaces that brought in the candidates. -/
def realCandidates (real : Dict Str (Finset Str)) (candidates : List Str) :
    Except KeyError (Finset Str) :=
  candidates.foldlM
    (fun found form =>
      match real.get? form with
      | none => .error ⟨form⟩
      | some interfaces => .ok (found ∪ interfaces))
    ∅

/-- `find_mating_interfaces`, for the interfaces of the two objects with their instances. -/
def findMatingInterfaces (h : Hierarchy L B P) (mates : Mates ι F) (source target : Table) :
    Except KeyError (Finset Str × Finset Str) := do
  let compatible := compatibleWith h
  let sourceForms := forms compatible source.keys
  let targetForms := forms compatible target.keys
  let sourceMates := sourceForms.flatMap (peers mates)
  let targetMates := targetForms.flatMap (peers mates)
  let sources ← realCandidates (realInterfaces compatible source.keys)
    (sourceForms.filter (· ∈ targetMates))
  let targets ← realCandidates (realInterfaces compatible target.keys)
    (targetForms.filter (· ∈ sourceMates))
  return (sources, targets)

/-! ## Tables with both directions -/

/-- Every mating can be found from either side. -/
def Symmetric (mates : Mates ι F) : Prop :=
  ∀ a b, (getMate mates a b).isSome = (getMate mates b a).isSome

theorem symmetric_addMate [PyFloat F] [DecidableEq ι] {fullName : ι → Str} {mates : Mates ι F}
    (h : Symmetric mates) (c : MateCall ι F) :
    Symmetric (addMate fullName mates c.source c.target c.config).1 := by
  refine addMate_directions (Q := fun x y => x.isSome = y.isSome) (fun _ _ hsome => hsome.symm) h
    (fun _ => rfl) (fun _ => ?_)
  rw [Option.isSome_or, Option.isSome_or, h,
    isSome_entered c.source c.target c.target c.source c.config false true]

/-- **Declarations make symmetric tables.** -/
theorem symmetric_mateRun [PyFloat F] [DecidableEq ι] (fullName : ι → Str)
    (calls : List (MateCall ι F)) : Symmetric (mateRun fullName calls) := by
  induction calls using List.reverseRecOn with
  | nil =>
    intro a b
    simp [mateRun, getMate]
  | append_singleton calls c ih =>
    have hrun : mateRun fullName (calls ++ [c]) =
        (addMate fullName (mateRun fullName calls) c.source c.target c.config).1 := by
      rw [mateRun, List.foldl_append]
      rfl
    rw [hrun]
    exact symmetric_addMate ih c

/-! ## From an interface to its forms and back -/

theorem get?_enterForm (real : Dict Str (Finset Str)) (form interface name : Str) :
    (enterForm real form interface).get? name =
      if form = name then some (insert interface ((real.get? name).getD ∅))
      else real.get? name := by
  unfold enterForm
  dsimp only
  rw [Dict.get?_set, Dict.get?_setdefault, Dict.get?_setdefault]
  by_cases hname : form = name
  · subst hname
    cases real.get? form <;> simp
  · simp [hname]

theorem mem_foldl_enterForm (pairs : List (Str × Str)) (real : Dict Str (Finset Str))
    (form interface : Str) :
    interface ∈ ((pairs.foldl (fun real p => enterForm real p.1 p.2) real).get? form).getD ∅ ↔
      interface ∈ (real.get? form).getD ∅ ∨ (form, interface) ∈ pairs := by
  induction pairs generalizing real with
  | nil => simp
  | cons p pairs ih =>
    obtain ⟨f, i⟩ := p
    rw [List.foldl_cons, ih, get?_enterForm, List.mem_cons, Prod.mk.injEq]
    by_cases hform : f = form
    · rw [if_pos hform, Option.getD_some, Finset.mem_insert]
      tauto
    · rw [if_neg hform]
      have hne : ¬ form = f := fun h => hform h.symm
      tauto

/-- An interface is found under the names that it is a drop-in for, and under its own. -/
theorem mem_realInterfaces {h : Hierarchy L B P} {interfaces : List Str} {form interface : Str} :
    interface ∈ ((realInterfaces (compatibleWith h) interfaces).get? form).getD ∅ ↔
      interface ∈ interfaces ∧ form ∈ dropIns h interface := by
  have hflat : realInterfaces (compatibleWith h) interfaces =
      (interfaces.flatMap fun i => (compatibleWith h i).map fun f => (f, i)).foldl
        (fun real p => enterForm real p.1 p.2)
        (Dict.ofPairs (interfaces.map fun i => (i, {i}))) := by
    rw [realInterfaces, List.foldl_flatMap]
    simp only [List.foldl_map]
  have hown : ∀ name, (Dict.ofPairs (interfaces.map fun i => (i, ({i} : Finset Str)))).get? name =
      if name ∈ interfaces then some {name} else none := by
    intro name
    rw [Dict.get?_ofPairs_map (fun i => ({i} : Finset Str))]
    congr
  have hpairs : (form, interface) ∈
      (interfaces.flatMap fun i => (compatibleWith h i).map fun f => (f, i)) ↔
        interface ∈ interfaces ∧ form ∈ compatibleWith h interface := by
    simp only [List.mem_flatMap, List.mem_map, Prod.mk.injEq]
    constructor
    · rintro ⟨i, hi, f, hf, rfl, rfl⟩
      exact ⟨hi, hf⟩
    · rintro ⟨hi, hf⟩
      exact ⟨interface, hi, form, hf, rfl, rfl⟩
  rw [hflat, mem_foldl_enterForm, hown, hpairs, dropIns, List.mem_cons]
  by_cases hform : form ∈ interfaces
  · rw [if_pos hform, Option.getD_some, Finset.mem_singleton]
    constructor
    · rintro (rfl | ⟨hi, hf⟩)
      · exact ⟨hform, Or.inl rfl⟩
      · exact ⟨hi, Or.inr hf⟩
    · rintro ⟨hi, rfl | hf⟩
      · exact Or.inl rfl
      · exact Or.inr ⟨hi, hf⟩
  · rw [if_neg hform, Option.getD_none]
    constructor
    · rintro (hnone | ⟨hi, hf⟩)
      · simp at hnone
      · exact ⟨hi, Or.inr hf⟩
    · rintro ⟨hi, rfl | hf⟩
      · exact absurd hi hform
      · exact Or.inr ⟨hi, hf⟩

theorem mem_forms {h : Hierarchy L B P} {interfaces : List Str} {form : Str} :
    form ∈ forms (compatibleWith h) interfaces ↔ ∃ i ∈ interfaces, form ∈ dropIns h i := by
  simp only [forms, List.mem_append, List.mem_flatMap, dropIns, List.mem_cons]
  constructor
  · rintro (hform | ⟨i, hi, hform⟩)
    · exact ⟨form, hform, Or.inl rfl⟩
    · exact ⟨i, hi, Or.inr hform⟩
  · rintro ⟨i, hi, rfl | hform⟩
    · exact Or.inl hi
    · exact Or.inr ⟨i, hi, hform⟩

theorem mem_peers {mates : Mates ι F} {name peer : Str} :
    peer ∈ peers mates name ↔ (getMate mates name peer).isSome := by
  unfold peers getMate
  cases mates.get? name with
  | none => simp [Dict.keys, Dict.empty]
  | some row =>
    rw [Option.getD_some, Option.bind_some, Option.isSome_iff_exists, Dict.mem_keys]
    simp only [Dict.get?_eq_some]

/-- Every candidate brings in what it stands for, when each stands for something. -/
theorem realCandidates_spec {real : Dict Str (Finset Str)} {candidates : List Str}
    (hknown : ∀ form ∈ candidates, (real.get? form).isSome) :
    ∃ found, realCandidates real candidates = .ok found ∧
      ∀ i, i ∈ found ↔ ∃ form ∈ candidates, i ∈ (real.get? form).getD ∅ := by
  suffices hrun : ∀ before : Finset Str, ∃ found,
      candidates.foldlM
          (fun found form =>
            match real.get? form with
            | none => Except.error (⟨form⟩ : KeyError)
            | some interfaces => .ok (found ∪ interfaces)) before = .ok found ∧
        ∀ i, i ∈ found ↔ i ∈ before ∨ ∃ form ∈ candidates, i ∈ (real.get? form).getD ∅ by
    obtain ⟨found, hfound, hmem⟩ := hrun ∅
    refine ⟨found, hfound, fun i => ?_⟩
    rw [hmem]
    simp
  induction candidates with
  | nil =>
    intro before
    exact ⟨before, rfl, fun i => by simp⟩
  | cons form candidates ih =>
    intro before
    obtain ⟨interfaces, hget⟩ := Option.isSome_iff_exists.1 (hknown form (by simp))
    obtain ⟨found, hfound, hmem⟩ :=
      ih (fun form hform => hknown form (List.mem_cons_of_mem _ hform)) (before ∪ interfaces)
    refine ⟨found, ?_, fun i => ?_⟩
    · rw [List.foldlM_cons, hget]
      exact hfound
    · rw [hmem, Finset.mem_union]
      simp only [List.mem_cons, exists_eq_or_imp, hget, Option.getD_some, or_assoc]

/-! ## The interfaces found -/

/-- A drop-in of the interface is mated with a drop-in of one of the others. -/
def MatesAmong (h : Hierarchy L B P) (mates : Mates ι F) (interface : Str) (others : List Str) :
    Prop :=
  ∃ form ∈ dropIns h interface, ∃ other ∈ others, ∃ peer ∈ dropIns h other,
    (getMate mates form peer).isSome

theorem realCandidates_forms {h : Hierarchy L B P} {mates : Mates ι F} (hsymm : Symmetric mates)
    (interfaces others : List Str) :
    ∃ found, realCandidates (realInterfaces (compatibleWith h) interfaces)
        ((forms (compatibleWith h) interfaces).filter
          (· ∈ (forms (compatibleWith h) others).flatMap (peers mates))) = .ok found ∧
      ∀ i, i ∈ found ↔ i ∈ interfaces ∧ MatesAmong h mates i others := by
  have hknown : ∀ form ∈ forms (compatibleWith h) interfaces,
      ((realInterfaces (compatibleWith h) interfaces).get? form).isSome := by
    intro form hform
    obtain ⟨i, hi, hdrop⟩ := mem_forms.1 hform
    have hmem := mem_realInterfaces.2 ⟨hi, hdrop⟩
    cases hget : (realInterfaces (compatibleWith h) interfaces).get? form with
    | none =>
      rw [hget] at hmem
      exact absurd hmem (by simp)
    | some found => rfl
  have hcandidates : ∀ form ∈ (forms (compatibleWith h) interfaces).filter
        (· ∈ (forms (compatibleWith h) others).flatMap (peers mates)),
      ((realInterfaces (compatibleWith h) interfaces).get? form).isSome :=
    fun form hform => hknown form (List.mem_of_mem_filter hform)
  obtain ⟨found, hfound, hmem⟩ := realCandidates_spec hcandidates
  refine ⟨found, hfound, fun i => ?_⟩
  rw [hmem]
  simp only [List.mem_filter, decide_eq_true_eq, List.mem_flatMap, mem_forms, mem_realInterfaces,
    mem_peers]
  constructor
  · rintro ⟨form, ⟨-, peer, ⟨other, hother, hpeer⟩, hmate⟩, hi, hform⟩
    exact ⟨hi, form, hform, other, hother, peer, hpeer, hsymm peer form ▸ hmate⟩
  · rintro ⟨hi, form, hform, other, hother, peer, hpeer, hmate⟩
    exact ⟨form, ⟨⟨i, hi, hform⟩, peer, ⟨other, hother, hpeer⟩, hsymm form peer ▸ hmate⟩, hi,
      hform⟩

/-- **The interfaces found** are those of either object that have a drop-in mated with a drop-in of
the other object, there are some on both sides or on none, and if there is one on either side, then
these two are mated through their drop-ins. -/
theorem findMatingInterfaces_spec (h : Hierarchy L B P) (mates : Mates ι F)
    (hsymm : Symmetric mates) (source target : Table) :
    ∃ sources targets, findMatingInterfaces h mates source target = .ok (sources, targets) ∧
      (∀ s, s ∈ sources ↔ s ∈ source.keys ∧ MatesAmong h mates s target.keys) ∧
      (∀ t, t ∈ targets ↔ t ∈ target.keys ∧ MatesAmong h mates t source.keys) ∧
      (sources = ∅ ↔ targets = ∅) ∧
      ∀ s t, sources = {s} → targets = {t} →
        ∃ form ∈ dropIns h s, ∃ peer ∈ dropIns h t, (getMate mates form peer).isSome := by
  obtain ⟨sources, hsources, hsource⟩ :=
    realCandidates_forms (h := h) hsymm source.keys target.keys
  obtain ⟨targets, htargets, htarget⟩ :=
    realCandidates_forms (h := h) hsymm target.keys source.keys
  -- an interface found on one side has its peer on the other side
  have hpeer : ∀ (mine others : List Str) (found found' : Finset Str),
      (∀ i, i ∈ found ↔ i ∈ mine ∧ MatesAmong h mates i others) →
      (∀ i, i ∈ found' ↔ i ∈ others ∧ MatesAmong h mates i mine) →
      ∀ i ∈ found, ∃ form ∈ dropIns h i, ∃ other ∈ found', ∃ peer ∈ dropIns h other,
        (getMate mates form peer).isSome := by
    intro mine others found found' hfound hfound' i hi
    obtain ⟨hmine, form, hform, other, hother, peer, hpeer, hmate⟩ := (hfound i).1 hi
    refine ⟨form, hform, other, (hfound' other).2 ⟨hother, ?_⟩, peer, hpeer, hmate⟩
    exact ⟨peer, hpeer, i, hmine, form, hform, hsymm form peer ▸ hmate⟩
  have hleft := hpeer source.keys target.keys sources targets hsource htarget
  have hright := hpeer target.keys source.keys targets sources htarget hsource
  refine ⟨sources, targets, ?_, hsource, htarget, ?_, ?_⟩
  · unfold findMatingInterfaces
    dsimp only
    rw [hsources, htargets]
    rfl
  · constructor
    · rintro rfl
      apply Finset.eq_empty_of_forall_notMem
      intro t ht
      obtain ⟨-, -, s, hs, -⟩ := hright t ht
      exact absurd hs (Finset.notMem_empty s)
    · rintro rfl
      apply Finset.eq_empty_of_forall_notMem
      intro s hs
      obtain ⟨-, -, t, ht, -⟩ := hleft s hs
      exact absurd ht (Finset.notMem_empty t)
  · rintro s t rfl rfl
    obtain ⟨form, hform, other, hother, peer, hpeer, hmate⟩ := hleft s (Finset.mem_singleton_self s)
    obtain rfl := Finset.mem_singleton.1 hother
    exact ⟨form, hform, peer, hpeer, hmate⟩

/-- An object with one instance of an interface. -/
def implementing (name : Str) : Table := Dict.empty.set name (Dict.empty.set [] Dict.empty)

/-- The screw and the hole, with the two matings declared for them. -/
theorem findMatingInterfaces_screw :
    ∃ sources targets,
      findMatingInterfaces openings twoMatings (implementing "screw".toList)
        (implementing "hole".toList) = .ok (sources, targets) ∧
      "screw".toList ∈ sources ∧ "hole".toList ∈ targets := by
  obtain ⟨sources, targets, hfound, hsource, htarget, -, -⟩ :=
    findMatingInterfaces_spec openings twoMatings (symmetric_mateRun id _)
      (implementing "screw".toList) (implementing "hole".toList)
  refine ⟨sources, targets, hfound, (hsource _).2 ⟨by decide, ?_⟩, (htarget _).2 ⟨by decide, ?_⟩⟩
  · exact ⟨"screw".toList, by decide, "hole".toList, by decide, "hole".toList, by decide,
      by decide⟩
  · exact ⟨"hole".toList, by decide, "screw".toList, by decide, "screw".toList, by decide,
      by decide⟩

end PartCAD.Ports
