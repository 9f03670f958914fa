import Mathlib.Data.List.Basic
import PartCAD.Lib.Dict
import PartCAD.Lib.Repr
import PartCAD.Lib.Run

/-!
# The pictures of an instruction book

The pages of a book ask for their pictures at the same time.  `RenderedImages` draws one for every
key, into a file that the key names, and gives it to whoever asks for that key again.  The keys are
names: of the object that is drawn, or of the section and the step.

* `shows_iff` : whatever the order of the pages, they show what they have asked for exactly where
  requests that come to one file are for one picture;
* `slug_stepKey` : what is left of the key of a step in the name of its file;
* `faithful_iff` : the books that show what their pages ask for are those whose names stay apart.
-/

namespace PartCAD.Illustrations

open PartCAD.Lib PartCAD.Lib.Text

/-! ## Drawing what is asked for -/

/-- The characters that the name of a file keeps. -/
def isPlain (c : Char) : Bool := c.isAlphanum || c = '_' || c = '.' || c = '-'

/-- `re.sub(r"[^A-Za-z0-9_.-]+", "-", text)`, after a character that is kept or in the middle of a
run of others. -/
def dashes (within : Bool) : Str → Str
  | [] => []
  | c :: text =>
    if isPlain c then c :: dashes false text
    else if within then dashes true text
    else '-' :: dashes true text

/-- `_slug` -/
def slug (text : Str) : Str :=
  let name := stripChar '-' (dashes false text)
  if name = [] then "image".toList else name

/-- The file that goes with a key, in the directory of the book. -/
def fileOf (key : Str) : Str := slug key ++ ".svg".toList

structure Request (π : Type) where
  key : Str
  picture : π
deriving DecidableEq

inductive Phase where
  | waiting
  | rendering
  | drawn
  | given (path : Option Str)

/-- `RenderedImages`, the files of its directory, and where every request is.  A request holds the
lock of its key while it is drawn. -/
structure Images (π : Type) where
  rendered : Dict Str Str
  held : List Str
  files : Dict Str π
  phases : List Phase

section

variable {π : Type}

/-- `shape_image_async`: the request with the given number gets on, and drawing it leaves a file or
does not.  What bounds the number of drawings only keeps some waiting. -/
def advance (requests : List (Request π)) (st : Images π) (e : ℕ × Bool) : Option (Images π) :=
  match requests[e.1]?, st.phases[e.1]? with
  | some r, some .waiting =>
    if r.key ∈ st.held then none
    else
      match st.rendered.get? r.key with
      | some path => some { st with phases := st.phases.set e.1 (.given (some path)) }
      | none =>
        some { st with held := r.key :: st.held, phases := st.phases.set e.1 .rendering }
  | some r, some .rendering =>
    some {
      st with
        files := if e.2 then st.files.set (fileOf r.key) r.picture else st.files
        phases := st.phases.set e.1 .drawn }
  | some r, some .drawn =>
    match st.files.get? (fileOf r.key) with
    | none =>
      some { st with held := st.held.erase r.key, phases := st.phases.set e.1 (.given none) }
    | some _ =>
      some {
        st with
          rendered := st.rendered.set r.key (fileOf r.key)
          held := st.held.erase r.key
          phases := st.phases.set e.1 (.given (some (fileOf r.key))) }
  | _, _ => none

def images (requests : List (Request π)) : System (Images π) (ℕ × Bool) where
  init := ⟨Dict.empty, [], Dict.empty, requests.map fun _ => .waiting⟩
  step := advance requests

/-- The book has been worked on for a while, with any pages next and any drawings failing. -/
def Reached (requests : List (Request π)) (st : Images π) : Prop :=
  Run (images requests) (fun _ _ => True) st

/-- Every picture that a page has been given is the one that it has asked for. -/
def Shows (requests : List (Request π)) (st : Images π) : Prop :=
  ∀ (i : ℕ) (r : Request π) (path : Str), requests[i]? = some r →
    st.phases[i]? = some (.given (some path)) → st.files.get? path = some r.picture

/-- Requests that come to one file are for one picture. -/
def OnePicture (requests : List (Request π)) : Prop :=
  ∀ r ∈ requests, ∀ r' ∈ requests, fileOf r.key = fileOf r'.key → r.picture = r'.picture

/-- What is in the files, and which of them are given. -/
structure Kept (requests : List (Request π)) (st : Images π) : Prop where
  files : ∀ path p, st.files.get? path = some p →
    ∃ r ∈ requests, fileOf r.key = path ∧ r.picture = p
  rendered : ∀ key path, st.rendered.get? key = some path →
    path = fileOf key ∧ (st.files.get? path).isSome
  given : ∀ (i : ℕ) (r : Request π) (path : Str), requests[i]? = some r →
    st.phases[i]? = some (.given (some path)) →
      path = fileOf r.key ∧ (st.files.get? path).isSome

variable {requests : List (Request π)} {st st' : Images π}

theorem isSome_get?_set (files : Dict Str π) (path path' : Str) (p : π)
    (h : (files.get? path).isSome) : ((files.set path' p).get? path).isSome := by
  rw [Dict.get?_set]
  split
  · rfl
  · exact h

/-- A page that gets on: what is given stays, and what it may be given is there. -/
theorem Kept.given_set (h : Kept requests st) {i : ℕ} {r : Request π} (hr : requests[i]? = some r)
    {phase : Phase}
    (hphase : ∀ path, phase = .given (some path) →
      path = fileOf r.key ∧ (st.files.get? path).isSome) :
    ∀ (j : ℕ) (s : Request π) (path : Str), requests[j]? = some s →
      (st.phases.set i phase)[j]? = some (.given (some path)) →
        path = fileOf s.key ∧ (st.files.get? path).isSome := by
  intro j s path hs hgiven
  rcases getElem?_set_cases hgiven with ⟨rfl, hsame⟩ | ⟨-, hgiven⟩
  · rw [hr] at hs
    obtain rfl := Option.some.inj hs
    exact hphase path hsame.symm
  · exact h.given j s path hs hgiven

theorem kept_advance {e : ℕ × Bool} (h : Kept requests st) (hstep : advance requests st e = some st') :
    Kept requests st' := by
  obtain ⟨i, ok⟩ := e
  unfold advance at hstep
  dsimp only at hstep
  split at hstep
  · rename_i r hr hphase
    split at hstep
    · cases hstep
    · split at hstep
      · rename_i path hpath
        cases hstep
        refine ⟨h.files, h.rendered, h.given_set hr fun p hp => ?_⟩
        cases hp
        exact h.rendered _ _ hpath
      · cases hstep
        exact ⟨h.files, h.rendered, h.given_set hr fun _ hp => by cases hp⟩
  · rename_i r hr hphase
    cases hstep
    have hsome : ∀ path, (st.files.get? path).isSome →
        ((if ok then st.files.set (fileOf r.key) r.picture else st.files).get? path).isSome := by
      intro path hpath
      split
      · exact isSome_get?_set _ _ _ _ hpath
      · exact hpath
    refine ⟨fun path p hp => ?_, fun key path hpath => ?_, fun j s p hs hgiven => ?_⟩
    · dsimp only at hp
      split at hp
      · rw [Dict.get?_set] at hp
        split at hp
        · rename_i hpath
          cases hp
          exact ⟨r, List.mem_of_getElem? hr, hpath, rfl⟩
        · exact h.files path p hp
      · exact h.files path p hp
    · obtain ⟨heq, hthere⟩ := h.rendered key path hpath
      exact ⟨heq, hsome path hthere⟩
    · have hdrawn : ∀ path, Phase.drawn = .given (some path) →
          path = fileOf r.key ∧ (st.files.get? path).isSome := fun _ hp => by cases hp
      obtain ⟨heq, hthere⟩ := h.given_set hr hdrawn j s p hs hgiven
      exact ⟨heq, hsome p hthere⟩
  · rename_i r hr hphase
    split at hstep
    · cases hstep
      exact ⟨h.files, h.rendered, h.given_set hr fun _ hp => by cases hp⟩
    · rename_i drawn hdrawn
      cases hstep
      have hthere : (st.files.get? (fileOf r.key)).isSome := by rw [hdrawn]; rfl
      refine ⟨h.files, fun key path hpath => ?_, h.given_set hr fun p hp => ?_⟩
      · rw [Dict.get?_set] at hpath
        split at hpath
        · rename_i hkey
          cases hpath
          exact ⟨by rw [hkey], hthere⟩
        · exact h.rendered key path hpath
      · cases hp
        exact ⟨rfl, hthere⟩
  · cases hstep

theorem kept_init : Kept requests (images requests).init := by
  refine ⟨fun path p hp => ?_, fun key path hp => ?_, fun i r path hr hgiven => ?_⟩
  · simp [images] at hp
  · simp [images] at hp
  · have hmap : ((images requests).init.phases)[i]? = some .waiting := by
      simp only [images, List.getElem?_map, hr, Option.map_some]
    rw [hmap] at hgiven
    cases hgiven

theorem kept_reached (h : Reached requests st) : Kept requests st :=
  h.invariant kept_init fun _ _ _ hkept _ hstep => kept_advance hkept hstep

/-- Pages that come to one file for one picture are shown it. -/
theorem shows_of_onePicture (hone : OnePicture requests) (h : Reached requests st) :
    Shows requests st := by
  intro i r path hr hgiven
  have hkept := kept_reached h
  obtain ⟨rfl, hthere⟩ := hkept.given i r path hr hgiven
  obtain ⟨p, hp⟩ := Option.isSome_iff_exists.1 hthere
  obtain ⟨r', hr', hfile, rfl⟩ := hkept.files _ p hp
  rw [hp, hone r' hr' r (List.mem_of_getElem? hr) hfile]

/-! ## Two requests for one file -/

theorem advance_waiting {i : ℕ} {r : Request π} (ok : Bool) (hr : requests[i]? = some r)
    (hphase : st.phases[i]? = some .waiting) (hfree : r.key ∉ st.held)
    (hrendered : st.rendered.get? r.key = none) :
    advance requests st (i, ok) =
      some { st with held := r.key :: st.held, phases := st.phases.set i .rendering } := by
  simp only [advance, hr, hphase, if_neg hfree, hrendered]

theorem advance_cached {i : ℕ} {r : Request π} {path : Str} (ok : Bool) (hr : requests[i]? = some r)
    (hphase : st.phases[i]? = some .waiting) (hfree : r.key ∉ st.held)
    (hrendered : st.rendered.get? r.key = some path) :
    advance requests st (i, ok) =
      some { st with phases := st.phases.set i (.given (some path)) } := by
  simp only [advance, hr, hphase, if_neg hfree, hrendered]

theorem advance_rendering {i : ℕ} {r : Request π} (hr : requests[i]? = some r)
    (hphase : st.phases[i]? = some .rendering) :
    advance requests st (i, true) =
      some {
        st with
          files := st.files.set (fileOf r.key) r.picture
          phases := st.phases.set i .drawn } := by
  simp only [advance, hr, hphase, if_true]

theorem advance_drawn {i : ℕ} {r : Request π} {p : π} (ok : Bool) (hr : requests[i]? = some r)
    (hphase : st.phases[i]? = some .drawn) (hfile : st.files.get? (fileOf r.key) = some p) :
    advance requests st (i, ok) =
      some {
        st with
          rendered := st.rendered.set r.key (fileOf r.key)
          held := st.held.erase r.key
          phases := st.phases.set i (.given (some (fileOf r.key))) } := by
  simp only [advance, hr, hphase, hfile]

theorem Reached.step {e : ℕ × Bool} (h : Reached requests st)
    (hstep : advance requests st e = some st') : Reached requests st' :=
  Run.step h trivial hstep

/-- One page may be the only one so far, and have its picture. -/
theorem reached_alone {i : ℕ} {r : Request π} (hr : requests[i]? = some r) :
    ∃ st, Reached requests st ∧ st.held = [] ∧
      st.rendered = Dict.empty.set r.key (fileOf r.key) ∧
      st.files = Dict.empty.set (fileOf r.key) r.picture ∧
      st.phases[i]? = some (.given (some (fileOf r.key))) ∧
      ∀ j, j ≠ i → st.phases[j]? = (requests[j]?).map fun _ => .waiting := by
  set init := (images requests).init
  have hinit : init.phases[i]? = some .waiting := by
    simp only [init, images, List.getElem?_map, hr, Option.map_some]
  have hlength : i < init.phases.length := (List.getElem?_eq_some_iff.1 hinit).1
  have h₀ : Reached requests init := .init
  have h₁ := h₀.step (advance_waiting true hr hinit (by simp [init, images]) (Dict.get?_empty _))
  have h₂ := h₁.step (advance_rendering hr (List.getElem?_set_self hlength))
  have h₃ := h₂.step (advance_drawn true hr
    (List.getElem?_set_self (by rw [List.length_set]; exact hlength))
    (by rw [Dict.get?_set, if_pos rfl]))
  refine ⟨_, h₃, List.erase_cons_head .., rfl, rfl, ?_, fun j hj => ?_⟩
  · exact List.getElem?_set_self (by rw [List.length_set, List.length_set]; exact hlength)
  · dsimp only
    rw [List.getElem?_set_ne hj.symm, List.getElem?_set_ne hj.symm, List.getElem?_set_ne hj.symm]
    exact List.getElem?_map ..

/-- **The pages show what they have asked for**, in whatever order they are drawn, exactly where
requests that come to one file are for one picture. -/
theorem shows_iff : (∀ st, Reached requests st → Shows requests st) ↔ OnePicture requests := by
  refine ⟨fun h r hr r' hr' hfile => ?_, fun hone st => shows_of_onePicture hone⟩
  obtain ⟨i, hi⟩ := List.getElem?_of_mem hr
  obtain ⟨j, hj⟩ := List.getElem?_of_mem hr'
  by_cases hij : j = i
  · subst hij
    rw [hi] at hj
    rw [Option.some.inj hj]
  obtain ⟨st, hst, hheld, hrendered, hfiles, hgiven, hothers⟩ := reached_alone hi
  have hwaiting : st.phases[j]? = some .waiting := by
    rw [hothers j hij, hj]
    rfl
  have hfree : r'.key ∉ st.held := by
    rw [hheld]
    exact List.not_mem_nil
  by_cases hkey : r.key = r'.key
  · -- the second page is given what the first one has had drawn
    have hcached : st.rendered.get? r'.key = some (fileOf r.key) := by
      rw [hrendered, Dict.get?_set, if_pos hkey]
    have hnext := h _ (hst.step (advance_cached true hj hwaiting hfree hcached)) j r'
      (fileOf r.key) hj (List.getElem?_set_self (List.getElem?_eq_some_iff.1 hwaiting).1)
    dsimp only at hnext
    rw [hfiles, Dict.get?_set, if_pos rfl] at hnext
    exact Option.some.inj hnext
  · -- the second page draws over the picture of the first one
    have hnone : st.rendered.get? r'.key = none := by
      rw [hrendered, Dict.get?_set, if_neg hkey, Dict.get?_empty]
    have hrendering := hst.step (advance_waiting true hj hwaiting hfree hnone)
    have hover := hrendering.step (advance_rendering hj
      (List.getElem?_set_self (List.getElem?_eq_some_iff.1 hwaiting).1))
    have hnext := h _ hover i r (fileOf r.key) hi (by
      dsimp only
      rw [List.getElem?_set_ne hij, List.getElem?_set_ne hij]
      exact hgiven)
    dsimp only at hnext
    rw [Dict.get?_set, if_pos hfile.symm] at hnext
    exact (Option.some.inj hnext).symm

end

/-! ## The names of the pictures -/

section

variable {O : Type}

/-- What a name is made of: an object of a package, or an assembly that is embedded in a file. -/
structure Object where
  projectName : Str
  name : Str
  /-- It is an assembly, and `config.get("child", False)`. -/
  embedded : Bool

/-- `"%s:%s" % (shape.project_name, shape.name)` -/
def Object.fullName (o : Object) : Str := o.projectName ++ ':' :: o.name

/-- `_display_name` -/
def displayName (o : Object) : Str :=
  let name := if o.name ≠ [] then o.name else o.projectName
  let short := (split ':' name).getLastD []
  if short ≠ [] then short else name

/-- `"%s-step-%d-so-far"`, and with `exploded` at the end -/
def stepKey (display : Str) (number : ℕ) (what : Str) : Str :=
  display ++ ("-step-".toList ++ (Nat.toDigits 10 number ++ '-' :: what))

/-- A child of an assembly: its item, and what it is connected to, if it is. -/
structure Child (O : Type) where
  item : O
  name : Option Str
  target : Option Str

/-- What the item of a step is joined to: another item, or everything that is placed so far. -/
inductive Counterpart (O : Type) where
  | object (o : O)
  | soFar

structure Step (O : Type) where
  item : O
  counterpart : Counterpart O

/-- `_counterpart` -/
def counterpart (placed : List (Child O)) (child : Child O) : Counterpart O :=
  match child.target.bind fun target => placed.find? fun c => c.name = some target with
  | some candidate => .object candidate.item
  | none =>
    match placed with
    | [only] => .object only.item
    | _ => .soFar

def stepsFrom (placed : List (Child O)) : List (Child O) → List (Step O)
  | [] => []
  | child :: rest => ⟨child.item, counterpart placed child⟩ :: stepsFrom (placed ++ [child]) rest

/-- An assembly and the children that are put together in its steps. -/
structure Section (O : Type) where
  assembly : O
  content : List (Child O)

/-- The steps of `_build_section`: there is none for the first child. -/
def Section.steps (s : Section O) : List (Step O) :=
  match s.content with
  | [] => []
  | base :: rest => stepsFrom [base] rest

structure Book (O : Type) where
  object : O → Object
  top : O
  sections : List (Section O)

/-- A picture: of an object, of what a step of a section has so far, or of that step pulled apart
with its gap. -/
inductive Picture (O : Type) where
  | object (o : O)
  | soFar (section' step : ℕ)
  | exploded (section' step : ℕ)
deriving DecidableEq

namespace Book

variable (book : Book O)

/-- A picture without a key of its own. -/
def ownRequest (o : O) : Request (Picture O) := ⟨(book.object o).fullName, .object o⟩

/-- `_counterpart_key` with the picture of the counterpart -/
def counterpartRequest (i : ℕ) (display : Str) (number : ℕ) : Counterpart O → Request (Picture O)
  | .object o =>
    if (book.object o).embedded then ⟨stepKey display number "so-far".toList, .object o⟩
    else book.ownRequest o
  | .soFar => ⟨stepKey display number "so-far".toList, .soFar i number⟩

/-- `_step_page` -/
def stepRequests (i : ℕ) (display : Str) (number : ℕ) (step : Step O) :
    List (Request (Picture O)) :=
  [book.ownRequest step.item,
    book.counterpartRequest i display number step.counterpart,
    ⟨stepKey display number "exploded".toList, .exploded i number⟩]

def display (s : Section O) : Str := displayName (book.object s.assembly)

/-- `_section_pages` -/
def sectionRequests (i : ℕ) (s : Section O) : List (Request (Picture O)) :=
  book.ownRequest s.assembly ::
    s.steps.zipIdx.flatMap fun p => book.stepRequests i (book.display s) (p.2 + 1) p.1

/-- `build_guide_document_async`: the title page and those of every section. -/
def requests : List (Request (Picture O)) :=
  book.ownRequest book.top :: book.sections.zipIdx.flatMap fun p => book.sectionRequests p.2 p.1

/-- The step with the given number less one in the section with the given number. -/
structure At (i : ℕ) (s : Section O) (n : ℕ) (step : Step O) : Prop where
  sections : book.sections[i]? = some s
  steps : s.steps[n]? = some step

/-- The objects of a step that are drawn under their own names. -/
def Owns (step : Step O) (o : O) : Prop :=
  o = step.item ∨ step.counterpart = .object o ∧ (book.object o).embedded = false

/-- The objects of a book that are drawn under their own names. -/
def Pictured (o : O) : Prop :=
  o = book.top ∨ (∃ s ∈ book.sections, o = s.assembly) ∨
    ∃ i s n step, book.At i s n step ∧ book.Owns step o

/-- What a step has drawn under a name of its own. -/
def StepPicture (i : ℕ) (s : Section O) (n : ℕ) (step : Step O) (r : Request (Picture O)) : Prop :=
  r = ⟨stepKey (book.display s) (n + 1) "exploded".toList, .exploded i (n + 1)⟩ ∨
    r.key = stepKey (book.display s) (n + 1) "so-far".toList ∧
      r = book.counterpartRequest i (book.display s) (n + 1) step.counterpart

variable {book}

theorem mem_stepRequests {i : ℕ} {s : Section O} {n : ℕ} {step : Step O}
    {r : Request (Picture O)} :
    r ∈ book.stepRequests i (book.display s) (n + 1) step →
      (∃ o, book.Owns step o ∧ r = book.ownRequest o) ∨ book.StepPicture i s n step r := by
  intro hr
  simp only [stepRequests, List.mem_cons, List.not_mem_nil, or_false] at hr
  rcases hr with hr | hr | hr
  · exact Or.inl ⟨step.item, Or.inl rfl, hr⟩
  · cases hcounterpart : step.counterpart with
    | soFar => exact Or.inr (Or.inr ⟨by rw [hr, hcounterpart]; rfl, hr⟩)
    | object o =>
      cases hembedded : (book.object o).embedded with
      | false =>
        refine Or.inl ⟨o, Or.inr ⟨hcounterpart, hembedded⟩, ?_⟩
        rw [hr, hcounterpart, counterpartRequest, hembedded]
        rfl
      | true =>
        refine Or.inr (Or.inr ⟨?_, hr⟩)
        rw [hr, hcounterpart, counterpartRequest, hembedded]
        rfl
  · exact Or.inr (Or.inl hr)

theorem stepRequests_mem {i : ℕ} {s : Section O} {n : ℕ} {step : Step O}
    {r : Request (Picture O)}
    (h : (∃ o, book.Owns step o ∧ r = book.ownRequest o) ∨ book.StepPicture i s n step r) :
    r ∈ book.stepRequests i (book.display s) (n + 1) step := by
  simp only [stepRequests, List.mem_cons, List.not_mem_nil, or_false]
  rcases h with ⟨o, rfl | ⟨hcounterpart, hembedded⟩, rfl⟩ | hr | ⟨-, hr⟩
  · exact Or.inl rfl
  · refine Or.inr (Or.inl ?_)
    rw [hcounterpart, counterpartRequest, hembedded]
    rfl
  · exact Or.inr (Or.inr hr)
  · exact Or.inr (Or.inl hr)

/-- **What a book asks for**: objects under their names, and the pictures of its steps. -/
theorem mem_requests {r : Request (Picture O)} :
    r ∈ book.requests ↔
      (∃ o, book.Pictured o ∧ r = book.ownRequest o) ∨
        ∃ i s n step, book.At i s n step ∧ book.StepPicture i s n step r := by
  constructor
  · intro hr
    rcases List.mem_cons.1 hr with rfl | hr
    · exact Or.inl ⟨book.top, Or.inl rfl, rfl⟩
    obtain ⟨⟨s, i⟩, hs, hr⟩ := List.mem_flatMap.1 hr
    have hsection : book.sections[i]? = some s := List.mem_zipIdx_iff_getElem?.1 hs
    rcases List.mem_cons.1 hr with rfl | hr
    · exact Or.inl ⟨s.assembly, Or.inr (Or.inl ⟨s, List.mem_of_getElem? hsection, rfl⟩), rfl⟩
    obtain ⟨⟨step, n⟩, hstep, hr⟩ := List.mem_flatMap.1 hr
    have hat : book.At i s n step := ⟨hsection, List.mem_zipIdx_iff_getElem?.1 hstep⟩
    rcases mem_stepRequests hr with ⟨o, ho, rfl⟩ | hpicture
    · exact Or.inl ⟨o, Or.inr (Or.inr ⟨i, s, n, step, hat, ho⟩), rfl⟩
    · exact Or.inr ⟨i, s, n, step, hat, hpicture⟩
  · have hinside : ∀ {i s n step}, book.At i s n step →
        (∃ o, book.Owns step o ∧ r = book.ownRequest o) ∨ book.StepPicture i s n step r →
          r ∈ book.requests := by
      intro i s n step hat hr
      refine List.mem_cons_of_mem _ (List.mem_flatMap.2
        ⟨(s, i), List.mem_zipIdx_iff_getElem?.2 hat.sections, List.mem_cons_of_mem _ ?_⟩)
      exact List.mem_flatMap.2
        ⟨(step, n), List.mem_zipIdx_iff_getElem?.2 hat.steps, stepRequests_mem hr⟩
    rintro (⟨o, rfl | ⟨s, hs, rfl⟩ | ⟨i, s, n, step, hat, ho⟩, rfl⟩ | ⟨i, s, n, step, hat, hr⟩)
    · exact List.mem_cons_self ..
    · obtain ⟨i, hi⟩ := List.getElem?_of_mem hs
      exact List.mem_cons_of_mem _ (List.mem_flatMap.2
        ⟨(s, i), List.mem_zipIdx_iff_getElem?.2 hi, List.mem_cons_self ..⟩)
    · exact hinside hat (Or.inl ⟨o, ho, rfl⟩)
    · exact hinside hat (Or.inr hr)

end Book

/-! ## The files of the steps -/

theorem dashes_of_plain {text : Str} (h : ∀ c ∈ text, isPlain c) (within : Bool) :
    dashes within text = text := by
  induction text generalizing within with
  | nil => rfl
  | cons c text ih =>
    rw [dashes, if_pos (h c (List.mem_cons_self ..)),
      ih (fun d hd => h d (List.mem_cons_of_mem c hd)) false]

theorem dashes_append {text tail : Str} (h : ∀ c ∈ tail, isPlain c) (within : Bool) :
    dashes within (text ++ tail) = dashes within text ++ tail := by
  induction text generalizing within with
  | nil => exact dashes_of_plain h within
  | cons c text ih =>
    rw [List.cons_append, dashes, dashes]
    split
    · rw [ih, List.cons_append]
    · split
      · rw [ih]
      · rw [ih, List.cons_append]

/-- What the file of a step has of the name of its section. -/
def sectionSlug (display : Str) : Str := (dashes false display ++ ['-']).dropWhile (· == '-')

theorem isPlain_of_mem_toDigits {n : ℕ} {c : Char} (h : c ∈ Nat.toDigits 10 n) : isPlain c := by
  have hdigit := (isDigits_toDigits n).2 c h
  simp only [isPlain, Char.isAlphanum, Bool.or_eq_true]
  exact Or.inl (Or.inl (Or.inl (Or.inr hdigit)))

theorem getLast?_step (left : Str) (number : ℕ) {what : Str} (hne : what ≠ []) :
    (left ++ ("step-".toList ++ (Nat.toDigits 10 number ++ '-' :: what))).getLast? =
      what.getLast? := by
  have hlast := List.getLast?_eq_some_getLast hne
  rw [List.getLast?_append, List.getLast?_append, List.getLast?_append, List.getLast?_cons, hlast]
  rfl

/-- **The file of a step** has its number and what it shows. -/
theorem slug_stepKey (display : Str) (number : ℕ) {what : Str} (hwhat : ∀ c ∈ what, isPlain c)
    (hne : what ≠ []) (hlast : what.getLast? ≠ some '-') :
    slug (stepKey display number what) =
      sectionSlug display ++ ("step-".toList ++ (Nat.toDigits 10 number ++ '-' :: what)) := by
  have hstep : ∀ c ∈ "-step-".toList, isPlain c := by simp [isPlain]
  have hplain : ∀ c ∈ "-step-".toList ++ (Nat.toDigits 10 number ++ '-' :: what), isPlain c := by
    intro c hc
    rcases List.mem_append.1 hc with hc | hc
    · exact hstep c hc
    rcases List.mem_append.1 hc with hc | hc
    · exact isPlain_of_mem_toDigits hc
    rcases List.mem_cons.1 hc with rfl | hc
    · decide
    · exact hwhat c hc
  have hsplit : dashes false (stepKey display number what) =
      (dashes false display ++ ['-']) ++
        ("step-".toList ++ (Nat.toDigits 10 number ++ '-' :: what)) := by
    rw [stepKey, dashes_append hplain, List.append_assoc]
    rfl
  set rest := "step-".toList ++ (Nat.toDigits 10 number ++ '-' :: what) with hrest
  have hdrop : rest.dropWhile (· == '-') = rest := by
    rw [hrest]
    rfl
  have hleft : ((dashes false display ++ ['-']) ++ rest).dropWhile (· == '-') =
      sectionSlug display ++ rest := by
    rw [List.dropWhile_append, hdrop, sectionSlug]
    split
    · rename_i hempty
      rw [List.isEmpty_iff.1 hempty, List.nil_append]
    · rfl
  have hend : (sectionSlug display ++ rest).getLast? ≠ some '-' := by
    rw [hrest, getLast?_step _ _ hne]
    exact hlast
  have hnonempty : sectionSlug display ++ rest ≠ [] := by
    rw [hrest]
    exact fun h => List.cons_ne_nil _ _ (List.append_eq_nil_iff.1 h).2
  rw [slug, hsplit, stripChar, hleft, rstrip_of_getLast hend, if_neg hnonempty]

theorem slug_exploded (display : Str) (number : ℕ) :
    slug (stepKey display number "exploded".toList) =
      sectionSlug display ++
        ("step-".toList ++ (Nat.toDigits 10 number ++ '-' :: "exploded".toList)) :=
  slug_stepKey display number (by simp [isPlain]) (by decide) (by decide)

theorem slug_soFar (display : Str) (number : ℕ) :
    slug (stepKey display number "so-far".toList) =
      sectionSlug display ++
        ("step-".toList ++ (Nat.toDigits 10 number ++ '-' :: "so-far".toList)) :=
  slug_stepKey display number (by simp [isPlain]) (by decide) (by decide)

/-- The number and the section can be read off the file. -/
theorem section_eq_of_slug {left left' what : Str} {number number' : ℕ}
    (h : left ++ ("step-".toList ++ (Nat.toDigits 10 number ++ '-' :: what)) =
      left' ++ ("step-".toList ++ (Nat.toDigits 10 number' ++ '-' :: what))) :
    left = left' ∧ number = number' := by
  have hdigits : ∀ n, '-' ∉ (Nat.toDigits 10 n).reverse := by
    intro n hn
    have hdigit := (isDigits_toDigits n).2 '-' (List.mem_reverse.1 hn)
    revert hdigit
    decide
  have hshape : ∀ (l : Str) (n : ℕ),
      (l ++ ("step-".toList ++ (Nat.toDigits 10 n ++ '-' :: what))).reverse =
        what.reverse ++ '-' :: ((Nat.toDigits 10 n).reverse ++ '-' :: ("pets".toList ++ l.reverse)) := by
    intro l n
    have hstep : "step-".toList.reverse = '-' :: "pets".toList := by decide
    rw [List.reverse_append, List.reverse_append, List.reverse_append, List.reverse_cons, hstep]
    simp only [List.append_assoc, List.cons_append, List.nil_append]
  have hreverse := congrArg List.reverse h
  rw [hshape, hshape] at hreverse
  have htail := List.cons.inj (List.append_cancel_left hreverse)
  have hparts := congrArg (partition '-') htail.2
  rw [partition_append_cons _ (hdigits number), partition_append_cons _ (hdigits number')] at hparts
  obtain ⟨hnumber, hleft⟩ := Prod.mk.inj hparts
  exact ⟨List.reverse_injective (List.append_cancel_left hleft),
    toDigits_injective (List.reverse_injective hnumber)⟩

end

/-! ## Books that show what they ask for -/

/-- Every page is shown what it asks for; different pictures have different keys, and different keys
give different files. -/
structure Faithful {π : Type} (requests : List (Request π)) : Prop where
  shows : ∀ st, Reached requests st → Shows requests st
  keys : ∀ r ∈ requests, ∀ r' ∈ requests, r.picture ≠ r'.picture → r.key ≠ r'.key
  files : ∀ r ∈ requests, ∀ r' ∈ requests, r.key ≠ r'.key → fileOf r.key ≠ fileOf r'.key

theorem fileOf_inj {key key' : Str} : fileOf key = fileOf key' ↔ slug key = slug key' :=
  ⟨List.append_cancel_right, fun h => congrArg (· ++ ".svg".toList) h⟩

/-- Every file is that of one request. -/
theorem faithful_iff_one {π : Type} {requests : List (Request π)} :
    Faithful requests ↔
      ∀ r ∈ requests, ∀ r' ∈ requests, slug r.key = slug r'.key → r = r' := by
  constructor
  · rintro ⟨-, hkeys, hfiles⟩ ⟨key, picture⟩ hr ⟨key', picture'⟩ hr' hslug
    have hkey : key = key' := by
      by_contra hne
      exact hfiles _ hr _ hr' hne (fileOf_inj.2 hslug)
    have hpicture : picture = picture' := by
      by_contra hne
      exact hkeys _ hr _ hr' hne hkey
    rw [hkey, hpicture]
  · intro h
    refine ⟨shows_iff.2 fun r hr r' hr' hfile => ?_, fun r hr r' hr' hne hkey => ?_,
      fun r hr r' hr' hne hfile => ?_⟩
    · rw [h r hr r' hr' (fileOf_inj.1 hfile)]
    · exact hne (congrArg Request.picture (h r hr r' hr' (congrArg slug hkey)))
    · exact hne (congrArg Request.key (h r hr r' hr' (fileOf_inj.1 hfile)))

variable {O : Type}

/-- The names in a book stay apart in its files: those of the objects that are drawn, those of the
sections that have steps, and the former from what the steps have drawn. -/
structure NamesApart (book : Book O) : Prop where
  objects : ∀ o, book.Pictured o → ∀ o', book.Pictured o' →
    slug (book.object o).fullName = slug (book.object o').fullName → o = o'
  sections : ∀ (i j : ℕ) (s t : Section O), book.sections[i]? = some s →
    book.sections[j]? = some t → s.steps ≠ [] → t.steps ≠ [] →
      sectionSlug (book.display s) = sectionSlug (book.display t) → i = j
  steps : ∀ o, book.Pictured o → ∀ (i : ℕ) (s : Section O) (n : ℕ) (step : Step O)
    (r : Request (Picture O)), book.At i s n step → book.StepPicture i s n step r →
      slug (book.object o).fullName = slug r.key → r = book.ownRequest o

/-- The number of the step, the section and what is shown make the picture of a step. -/
theorem stepPicture_eq {book : Book O} {i j : ℕ} {s t : Section O} {m n : ℕ} {step step' : Step O}
    {r r' : Request (Picture O)} (hr : book.At i s m step) (hr' : book.At j t n step')
    (hpicture : book.StepPicture i s m step r) (hpicture' : book.StepPicture j t n step' r')
    (hsections : sectionSlug (book.display s) = sectionSlug (book.display t) → i = j)
    (hslug : slug r.key = slug r'.key) : r = r' := by
  have hwhats : ∀ (left left' : Str) (a b : ℕ),
      left ++ ("step-".toList ++ (Nat.toDigits 10 a ++ '-' :: "exploded".toList)) ≠
        left' ++ ("step-".toList ++ (Nat.toDigits 10 b ++ '-' :: "so-far".toList)) := by
    intro left left' a b h
    have hlast := congrArg List.getLast? h
    rw [getLast?_step _ _ (by decide), getLast?_step _ _ (by decide)] at hlast
    exact absurd hlast (by decide)
  have hsame : ∀ what : Str,
      sectionSlug (book.display s) ++ ("step-".toList ++ (Nat.toDigits 10 (m + 1) ++ '-' :: what)) =
        sectionSlug (book.display t) ++ ("step-".toList ++ (Nat.toDigits 10 (n + 1) ++ '-' :: what)) →
      i = j ∧ s = t ∧ m = n ∧ step = step' := by
    intro what h
    obtain ⟨hleft, hnumber⟩ := section_eq_of_slug h
    obtain rfl := hsections hleft
    obtain rfl := Option.some.inj (hr.sections.symm.trans hr'.sections)
    obtain rfl := Nat.succ.inj hnumber
    exact ⟨rfl, rfl, rfl, Option.some.inj (hr.steps.symm.trans hr'.steps)⟩
  rcases hpicture with rfl | ⟨hkey, hrequest⟩
  · rcases hpicture' with rfl | ⟨hkey', -⟩
    · rw [slug_exploded, slug_exploded] at hslug
      obtain ⟨rfl, rfl, rfl, -⟩ := hsame _ hslug
      rfl
    · rw [hkey', slug_exploded, slug_soFar] at hslug
      exact absurd hslug (hwhats _ _ _ _)
  · rcases hpicture' with rfl | ⟨hkey', hrequest'⟩
    · rw [hkey, slug_exploded, slug_soFar] at hslug
      exact absurd hslug.symm (hwhats _ _ _ _)
    · rw [hkey, hkey', slug_soFar, slug_soFar] at hslug
      obtain ⟨rfl, rfl, rfl, rfl⟩ := hsame _ hslug
      rw [hrequest, hrequest']

/-- **The books that show what their pages ask for** are those whose names stay apart. -/
theorem faithful_iff (book : Book O) : Faithful book.requests ↔ NamesApart book := by
  rw [faithful_iff_one]
  constructor
  · intro h
    have hown : ∀ {o}, book.Pictured o → book.ownRequest o ∈ book.requests :=
      fun ho => Book.mem_requests.2 (Or.inl ⟨_, ho, rfl⟩)
    have hstep : ∀ {i s n step r}, book.At i s n step → book.StepPicture i s n step r →
        r ∈ book.requests :=
      fun hat hr => Book.mem_requests.2 (Or.inr ⟨_, _, _, _, hat, hr⟩)
    refine ⟨fun o ho o' ho' hslug => ?_, fun i j s t hs ht hsteps hsteps' hslug => ?_,
      fun o ho i s n step r hat hr hslug => ?_⟩
    · exact Picture.object.inj (congrArg Request.picture (h _ (hown ho) _ (hown ho') hslug))
    · obtain ⟨step, hfirst⟩ : ∃ step, s.steps[0]? = some step := by
        obtain ⟨step, steps, hsteps⟩ := List.exists_cons_of_ne_nil hsteps
        exact ⟨step, by rw [hsteps]; rfl⟩
      obtain ⟨step', hfirst'⟩ : ∃ step, t.steps[0]? = some step := by
        obtain ⟨step, steps, hsteps⟩ := List.exists_cons_of_ne_nil hsteps'
        exact ⟨step, by rw [hsteps]; rfl⟩
      have hsame := h _ (hstep ⟨hs, hfirst⟩ (Or.inl rfl)) _ (hstep ⟨ht, hfirst'⟩ (Or.inl rfl))
        (by rw [slug_exploded, slug_exploded, hslug])
      exact (Picture.exploded.inj (congrArg Request.picture hsame)).1
    · exact (h _ (hown ho) _ (hstep hat hr) hslug).symm
  · intro h r hr r' hr' hslug
    rcases Book.mem_requests.1 hr with ⟨o, ho, rfl⟩ | ⟨i, s, n, step, hat, hpicture⟩
    · rcases Book.mem_requests.1 hr' with ⟨o', ho', rfl⟩ | ⟨j, t, m, step', hat', hpicture'⟩
      · rw [h.objects o ho o' ho' hslug]
      · exact (h.steps o ho j t m step' r' hat' hpicture' hslug).symm
    · rcases Book.mem_requests.1 hr' with ⟨o', ho', rfl⟩ | ⟨j, t, m, step', hat', hpicture'⟩
      · exact h.steps o' ho' i s n step r hat hpicture hslug.symm
      · refine stepPicture_eq hat hat' hpicture hpicture' (fun hsection => ?_) hslug
        have hne : ∀ {u : Section O} {k : ℕ} {x : Step O},
            u.steps[k]? = some x → u.steps ≠ [] := by
          rintro u k x hx hnil
          rw [hnil] at hx
          cases hx
        exact h.sections i j s t hat.sections hat'.sections (hne hat.steps) (hne hat'.steps) hsection

/-! ## Two towers -/

/-- A castle with the towers of two packages, each of them a wall with a roof. -/
def castle : Book ℕ where
  object n :=
    match n with
    | 0 => ⟨"//gothic".toList, "castle".toList, false⟩
    | 1 => ⟨"//gothic".toList, "tower".toList, false⟩
    | 2 => ⟨"//roman".toList, "tower".toList, false⟩
    | 3 => ⟨"//gothic".toList, "wall".toList, false⟩
    | 4 => ⟨"//gothic".toList, "roof".toList, false⟩
    | 5 => ⟨"//roman".toList, "wall".toList, false⟩
    | _ => ⟨"//roman".toList, "roof".toList, false⟩
  top := 0
  sections :=
    [⟨1, [⟨3, none, none⟩, ⟨4, none, none⟩]⟩,
      ⟨2, [⟨5, none, none⟩, ⟨6, none, none⟩]⟩,
      ⟨0, [⟨1, none, none⟩, ⟨2, none, none⟩]⟩]

/-- The exploded views of the two towers have one key, and one page may be shown that of the
other. -/
theorem not_faithful_castle :
    ¬ Faithful castle.requests ∧
      ∃ st, Reached castle.requests st ∧ ¬ Shows castle.requests st := by
  have hfirst : (⟨"tower-step-1-exploded".toList, .exploded 0 1⟩ : Request (Picture ℕ)) ∈
      castle.requests := by decide
  have hsecond : (⟨"tower-step-1-exploded".toList, .exploded 1 1⟩ : Request (Picture ℕ)) ∈
      castle.requests := by decide
  refine ⟨fun h => h.keys _ hfirst _ hsecond (by decide) rfl, ?_⟩
  by_contra hshows
  push Not at hshows
  exact absurd (shows_iff.1 hshows _ hfirst _ hsecond rfl) (by decide)

end PartCAD.Illustrations
