import Mathlib.Data.List.Induction
import Mathlib.Data.List.Nodup
import Mathlib.Logic.Function.Basic
import Mathlib.Tactic.Common
import PartCAD.Lib.Loops

/-!
# Copies one after the other

Files are copied from places to places.  A copy can write over what a later one reads.

* `copyAll` : the copies, one after the other;
* `copyAll_iff` : when each copy is, in the end, what was there to be copied in the beginning.
-/

namespace PartCAD.Lib

variable {P B : Type} [DecidableEq P]

/-- `shutil.copyfile`, from a place to another.  A file is not copied onto itself. -/
def copy (c : P × P) (contents : P → Option B) : Option (P → Option B) :=
  if c.1 = c.2 then none
  else (contents c.1).map fun b => Function.update contents c.2 (some b)

def copyAll (cs : List (P × P)) (contents : P → Option B) : Option (P → Option B) :=
  cs.foldlM (fun contents c => copy c contents) contents

theorem copy_eq_some {c : P × P} {contents contents' : P → Option B} :
    copy c contents = some contents' ↔
      c.1 ≠ c.2 ∧ (contents c.1).isSome ∧ contents' = Function.update contents c.2 (contents c.1) := by
  unfold copy
  split
  · rename_i hsame
    simp [hsame]
  · rename_i hne
    cases contents c.1 with
    | none => simp
    | some b => simp [hne, eq_comm]

theorem copyAll_concat (cs : List (P × P)) (c : P × P) (contents : P → Option B) :
    copyAll (cs ++ [c]) contents = (copyAll cs contents).bind (copy c) :=
  foldlM_concat _ cs c contents

/-- What is not copied to is as it was. -/
theorem copyAll_frame {cs : List (P × P)} {contents contents' : P → Option B}
    (h : copyAll cs contents = some contents') {p : P} (hp : p ∉ cs.map Prod.snd) :
    contents' p = contents p := by
  induction cs using List.reverseRecOn generalizing contents' with
  | nil => exact congrFun (Option.some.inj h).symm p
  | append_singleton cs c ih =>
    rw [copyAll_concat] at h
    obtain ⟨before, hbefore, hcopy⟩ := Option.bind_eq_some_iff.1 h
    obtain ⟨-, -, rfl⟩ := copy_eq_some.1 hcopy
    rw [List.map_append, List.mem_append, not_or] at hp
    have hne : p ≠ c.2 := fun heq => hp.2 (heq ▸ List.mem_cons_self)
    rw [Function.update_of_ne hne, ih hbefore hp.1]

/-- Every copy can be made, and what a copy writes over is read later only if it is the same. -/
structure Undisturbed (cs : List (P × P)) (contents : P → Option B) : Prop where
  apart : ∀ c ∈ cs, c.1 ≠ c.2 ∧ (contents c.1).isSome
  order : cs.Pairwise fun c c' => c.2 = c'.1 → contents c.1 = contents c'.1

omit [DecidableEq P] in
theorem undisturbed_concat {cs : List (P × P)} {c : P × P} {contents : P → Option B} :
    Undisturbed (cs ++ [c]) contents ↔ Undisturbed cs contents ∧ c.1 ≠ c.2 ∧
      (contents c.1).isSome ∧ ∀ c' ∈ cs, c'.2 = c.1 → contents c'.1 = contents c.1 := by
  constructor
  · rintro ⟨hapart, horder⟩
    obtain ⟨hbefore, -, hlast⟩ := List.pairwise_append.1 horder
    obtain ⟨hne, hsome⟩ := hapart c (List.mem_append_right _ List.mem_cons_self)
    exact ⟨⟨fun c' hc' => hapart c' (List.mem_append_left _ hc'), hbefore⟩, hne, hsome,
      fun c' hc' => hlast c' hc' c List.mem_cons_self⟩
  · rintro ⟨⟨hapart, horder⟩, hne, hsome, hlast⟩
    refine ⟨fun c' hc' => ?_, List.pairwise_append.2 ⟨horder, List.pairwise_singleton _ _, ?_⟩⟩
    · rcases List.mem_append.1 hc' with hc' | hc'
      · exact hapart c' hc'
      · rw [List.mem_singleton.1 hc']
        exact ⟨hne, hsome⟩
    · intro c' hc' d hd
      rw [List.mem_singleton.1 hd]
      exact hlast c' hc'

/-- **Each copy is what was there to be copied**, when no two are made to one place, if and only if none
is disturbed by those before it. -/
theorem copyAll_iff {cs : List (P × P)} (hdistinct : (cs.map Prod.snd).Nodup)
    (contents : P → Option B) :
    (∃ contents', copyAll cs contents = some contents' ∧ ∀ c ∈ cs, contents' c.2 = contents c.1) ↔
      Undisturbed cs contents := by
  induction cs using List.reverseRecOn with
  | nil => exact ⟨fun _ => ⟨nofun, .nil⟩, fun _ => ⟨contents, rfl, nofun⟩⟩
  | append_singleton cs c ih =>
    rw [List.map_append] at hdistinct
    obtain ⟨hbefore, -, hnew⟩ := List.nodup_append.1 hdistinct
    have hother : ∀ c' ∈ cs, c'.2 ≠ c.2 := fun c' hc' =>
      hnew _ (List.mem_map_of_mem hc') _ List.mem_cons_self
    rw [undisturbed_concat, ← ih hbefore, copyAll_concat]
    constructor
    · rintro ⟨contents'', hall, hcopies⟩
      obtain ⟨contents', hcopied, hcopy⟩ := Option.bind_eq_some_iff.1 hall
      obtain ⟨hne, hsome, rfl⟩ := copy_eq_some.1 hcopy
      have hkept : ∀ c' ∈ cs, contents' c'.2 = contents c'.1 := by
        intro c' hc'
        have h := hcopies c' (List.mem_append_left _ hc')
        rwa [Function.update_of_ne (hother c' hc')] at h
      have hlast := hcopies c (List.mem_append_right _ List.mem_cons_self)
      rw [Function.update_self] at hlast
      refine ⟨⟨contents', hcopied, hkept⟩, hne, hlast ▸ hsome, fun c' hc' hread => ?_⟩
      rw [← hkept c' hc', hread, hlast]
    · rintro ⟨⟨contents', hcopied, hkept⟩, hne, hsome, hread⟩
      have hsource : contents' c.1 = contents c.1 := by
        by_cases hwritten : c.1 ∈ cs.map Prod.snd
        · obtain ⟨c', hc', heq⟩ := List.mem_map.1 hwritten
          rw [← hread c' hc' heq, ← hkept c' hc', heq]
        · exact copyAll_frame hcopied hwritten
      have hcopy : copy c contents' = some (Function.update contents' c.2 (contents' c.1)) :=
        copy_eq_some.2 ⟨hne, by rwa [hsource], rfl⟩
      refine ⟨_, Option.bind_eq_some_iff.2 ⟨contents', hcopied, hcopy⟩, fun c' hc' => ?_⟩
      rcases List.mem_append.1 hc' with hc' | hc'
      · rw [Function.update_of_ne (hother c' hc'), hkept c' hc']
      · rw [List.mem_singleton.1 hc', Function.update_self, hsource]

end PartCAD.Lib
