import PartCAD.Lib.Regex

/-!
# A text read piece by piece

A text stands in pieces, and a reader finds things in it. It may be given several pieces at a time, and it
reads what it is given only if a key is in it.

* `Local` : a reader that finds the same in two texts one after the other, where nothing goes on from one into
  the other;
* `gated`, `eachAt` : what it finds in some pieces at once, and in one group of pieces after the other;
* `gated_flatten` : **the groups do not matter** where whatever is found lies in one piece with a key;
* `lies_of_each` : **and only there**, if every piece may be a group.
-/

namespace PartCAD.Lib.Regex

/-- A reader that finds the same in two texts one after the other, if the first ends as it should and
nothing goes on from one into the other. -/
structure Local (ends : Str → Prop) (read : Str → List Match) : Prop where
  start_lt : ∀ {s : Str} {m : Match}, m ∈ read s → m.start < s.length
  stop_le : ∀ {s : Str} {m : Match}, m ∈ read s → m.stop ≤ s.length
  append : ∀ {a b : Str}, ends a → (∀ m ∈ read (a ++ b), m.start < a.length → m.stop ≤ a.length) →
    read (a ++ b) = read a ++ (read b).map (Match.moved a.length)

theorem Local.mono {ends ends' : Str → Prop} {read : Str → List Match} (h : Local ends read)
    (hends : ∀ a, ends' a → ends a) : Local ends' read :=
  ⟨h.start_lt, h.stop_le, fun ha => h.append (hends _ ha)⟩

/-- What a search for an expression finds. -/
theorem local_search (isWord : Char → Bool) (r : Regex) :
    Local (fun a => behind isWord false a = false) (search isWord r) where
  start_lt := by
    intro s m h
    obtain ⟨-, hlt, -⟩ := exists_found h
    omega
  stop_le := by
    intro s m h
    obtain ⟨-, hlt, w, f, hf, hstop⟩ := exists_found h
    have hle := length_le hf
    rw [List.length_drop] at hle
    omega
  append := search_append

section

variable {α : Type} (bare : α → Str) (key : List α → Bool) (read : Str → List Match)

/-- The text of some pieces. -/
def whole (ps : List α) : Str := ps.flatMap bare

/-- What is found in some pieces at once. -/
def gated (ps : List α) : List Match := if key ps = true then read (whole bare ps) else []

/-- What is found in one group of pieces after the other, where the first one begins. -/
def eachAt : ℕ → List (List α) → List Match
  | _, [] => []
  | k, ps :: pss => (gated bare key read ps).map (Match.moved k) ++ eachAt (k + (whole bare ps).length) pss

/-- A match that lies in one of the pieces, and there is a key in it. -/
def Lies (ps : List α) (m : Match) : Prop :=
  ∃ front p back, ps = front ++ p :: back ∧ (whole bare front).length ≤ m.start ∧
    m.start < (whole bare front).length + (bare p).length ∧
    m.stop ≤ (whole bare front).length + (bare p).length ∧ key [p] = true

variable {bare key read}

theorem whole_append (ps ps' : List α) : whole bare (ps ++ ps') = whole bare ps ++ whole bare ps' :=
  List.flatMap_append

theorem length_whole_le {ps ps' : List α} (h : ps <+: ps') : (whole bare ps).length ≤ (whole bare ps').length := by
  obtain ⟨rest, rfl⟩ := h
  rw [whole_append, List.length_append]
  exact Nat.le_add_right _ _

/-- A match that begins in the first of two groups lies in one of its pieces. -/
theorem Lies.of_lt {ps ps' : List α} {m : Match} (h : Lies bare key (ps ++ ps') m)
    (hlt : m.start < (whole bare ps).length) : Lies bare key ps m := by
  obtain ⟨front, p, back, heq, hle, hstart, hstop, hkey⟩ := h
  rcases List.append_eq_append_iff.mp heq with ⟨rest, rfl, -⟩ | ⟨rest, rfl, hrest⟩
  · have := @length_whole_le _ bare _ _ (List.prefix_append ps rest)
    omega
  · cases rest with
    | nil =>
      rw [List.append_nil] at hlt
      omega
    | cons q rest =>
      obtain ⟨rfl, -⟩ := List.cons.inj hrest
      exact ⟨front, p, rest, rfl, hle, hstart, hstop, hkey⟩

/-- A match that begins behind the first of two groups lies in a piece of the second one. -/
theorem Lies.of_le {ps ps' : List α} {m : Match} (h : Lies bare key (ps ++ ps') (m.moved (whole bare ps).length)) :
    Lies bare key ps' m := by
  obtain ⟨front, p, back, heq, hle, hstart, hstop, hkey⟩ := h
  have hmoved : (m.moved (whole bare ps).length).start = m.start + (whole bare ps).length ∧
      (m.moved (whole bare ps).length).stop = m.stop + (whole bare ps).length := ⟨rfl, rfl⟩
  rcases List.append_eq_append_iff.mp heq with ⟨rest, rfl, hrest⟩ | ⟨rest, rfl, hrest⟩
  · rw [whole_append, List.length_append] at hle hstart hstop
    exact ⟨rest, p, back, hrest, by omega, by omega, by omega, hkey⟩
  · cases rest with
    | nil =>
      rw [List.append_nil] at hmoved
      rw [List.nil_append] at hrest
      rw [List.append_nil] at hle hstart hstop
      exact ⟨[], p, back, hrest.symm, Nat.zero_le _, by simp [whole]; omega, by simp [whole]; omega, hkey⟩
    | cons q rest =>
      obtain ⟨rfl, -⟩ := List.cons.inj hrest
      have hlong : (whole bare (front ++ p :: rest)).length =
          (whole bare front).length + (bare p).length + (whole bare rest).length := by
        simp [whole]
        omega
      omega

variable {ends : Str → Prop} (hlocal : Local ends read) (hends : ∀ ps : List α, ends (whole bare ps))
  (hkey : ∀ front ps back : List α, key ps = true → key (front ++ ps ++ back) = true)

include hlocal hends hkey

/-- A group without a key would not have been of use. -/
theorem read_whole_flatten {pss : List (List α)}
    (h : ∀ m ∈ read (whole bare pss.flatten), Lies bare key pss.flatten m) (k : ℕ) :
    (read (whole bare pss.flatten)).map (Match.moved k) = eachAt bare key read k pss := by
  induction pss generalizing k with
  | nil =>
    have hnone : read (whole bare []) = [] := by
      refine List.eq_nil_iff_forall_not_mem.mpr fun m hm => ?_
      exact absurd (hlocal.start_lt hm) (Nat.not_lt_zero _)
    rw [eachAt, List.flatten_nil, hnone]
    rfl
  | cons ps pss ih =>
    rw [List.flatten_cons, whole_append] at h
    have hclear : ∀ m ∈ read (whole bare ps ++ whole bare pss.flatten), m.start < (whole bare ps).length →
        m.stop ≤ (whole bare ps).length := by
      intro m hm hlt
      obtain ⟨front, p, back, rfl, -, -, hstop, -⟩ := (h m hm).of_lt hlt
      have hlong := @length_whole_le _ bare _ _ (List.prefix_append (front ++ [p]) back)
      rw [whole_append, List.length_append, List.append_assoc] at hlong
      have hp : (whole bare [p]).length = (bare p).length := by simp [whole]
      rw [hp] at hlong
      exact hstop.trans hlong
    have hsplit := hlocal.append (hends ps) hclear
    rw [hsplit] at h
    have hgated : read (whole bare ps) = gated bare key read ps := by
      rw [gated]
      split
      · rfl
      · next hnot =>
        refine List.eq_nil_iff_forall_not_mem.mpr fun m hm => hnot ?_
        obtain ⟨front, p, back, rfl, -, -, -, hp⟩ := (h m (List.mem_append_left _ hm)).of_lt (hlocal.start_lt hm)
        have := hkey front [p] back hp
        rwa [List.append_assoc] at this
    have hrest : ∀ m ∈ read (whole bare pss.flatten), Lies bare key pss.flatten m := fun m hm =>
      (h _ (List.mem_append_right _ (List.mem_map.mpr ⟨m, hm, rfl⟩))).of_le
    have hmoved : Match.moved k ∘ Match.moved (whole bare ps).length =
        Match.moved (k + (whole bare ps).length) := by
      funext m
      simp [Match.moved, Nat.add_assoc, Nat.add_comm k]
    rw [List.flatten_cons, whole_append, hsplit, List.map_append, List.map_map, hmoved, ih hrest, eachAt, hgated]

/-- **The groups do not matter**, where whatever is found lies in one piece with a key. -/
theorem gated_flatten {pss : List (List α)} (h : ∀ m ∈ gated bare key read pss.flatten, Lies bare key pss.flatten m) :
    gated bare key read pss.flatten = eachAt bare key read 0 pss := by
  by_cases hwhole : key pss.flatten = true
  · have hread := read_whole_flatten hlocal hends hkey (by rwa [gated, if_pos hwhole] at h) 0
    have hzero : Match.moved 0 = id := rfl
    rw [hzero, List.map_id] at hread
    rw [gated, if_pos hwhole, hread]
  · have hnone : ∀ (k : ℕ) (qss : List (List α)), (∀ qs ∈ qss, ¬ key qs = true) → eachAt bare key read k qss = [] := by
      intro k qss hqss
      induction qss generalizing k with
      | nil => rfl
      | cons qs qss ih =>
        rw [eachAt, gated, if_neg (hqss qs List.mem_cons_self), ih _ fun q hq => hqss q (List.mem_cons_of_mem _ hq)]
        rfl
    rw [gated, if_neg hwhole, hnone 0 pss]
    intro qs hqs hq
    obtain ⟨front, back, rfl⟩ := List.append_of_mem hqs
    refine hwhole ?_
    have := hkey front.flatten qs back.flatten hq
    rwa [List.flatten_append, List.flatten_cons, ← List.append_assoc]

/-- What is found in a group lies in one of its pieces, if that is so for all that is found. -/
theorem lies_of_mem {front ps back : List α}
    (h : ∀ m ∈ gated bare key read (front ++ (ps ++ back)), Lies bare key (front ++ (ps ++ back)) m) :
    ∀ m ∈ gated bare key read ps, Lies bare key ps m := by
  intro m hm
  have hflatten : [front, ps, back].flatten = front ++ (ps ++ back) := by simp
  have hgated : gated bare key read [front, ps, back].flatten = eachAt bare key read 0 [front, ps, back] :=
    gated_flatten hlocal hends hkey (by rwa [hflatten])
  rw [hflatten] at hgated
  have hmem : m.moved (0 + (whole bare front).length) ∈ gated bare key read (front ++ (ps ++ back)) := by
    rw [hgated, eachAt, eachAt]
    exact List.mem_append_right _ (List.mem_append_left _ (List.mem_map.mpr ⟨m, hm, rfl⟩))
  rw [Nat.zero_add] at hmem
  refine (h _ hmem).of_le.of_lt ?_
  rw [gated] at hm
  split at hm
  · exact hlocal.start_lt hm
  · cases hm

omit hends hkey

/-- What is found piece by piece lies in a piece with a key. -/
theorem lies_of_mem_eachAt {ps front : List α} {m : Match}
    (h : m ∈ eachAt bare key read (whole bare front).length (ps.map ([·]))) : Lies bare key (front ++ ps) m := by
  induction ps generalizing front with
  | nil =>
    rw [List.map_nil, eachAt] at h
    cases h
  | cons p ps ih =>
    have hp : whole bare [p] = bare p := by simp [whole]
    rw [List.map_cons, eachAt] at h
    rcases List.mem_append.mp h with h | h
    · obtain ⟨m', hm', rfl⟩ := List.mem_map.mp h
      rw [gated] at hm'
      split at hm'
      · next hpkey =>
        rw [hp] at hm'
        have hlt := hlocal.start_lt hm'
        have hle := hlocal.stop_le hm'
        refine ⟨front, p, ps, rfl, ?_, ?_, ?_, hpkey⟩
        · exact Nat.le_add_left _ _
        · show m'.start + _ < _
          omega
        · show m'.stop + _ ≤ _
          omega
      · cases hm'
    · have hfront : (whole bare front).length + (whole bare [p]).length = (whole bare (front ++ [p])).length := by
        rw [whole_append, List.length_append]
      rw [hfront] at h
      have := ih h
      rwa [List.append_assoc] at this

/-- **Only there**: if the pieces one by one give the same, whatever is found lies in one with a key. -/
theorem lies_of_each {ps : List α} (h : gated bare key read ps = eachAt bare key read 0 (ps.map ([·]))) :
    ∀ m ∈ gated bare key read ps, Lies bare key ps m := by
  intro m hm
  rw [h] at hm
  exact @lies_of_mem_eachAt _ _ _ _ _ hlocal ps [] m hm

omit hlocal

/-- What does not depend on the places is read off one group after the other. -/
theorem filterMap_eachAt {β : Type} {f : Match → Option β} (hf : ∀ k m, f (m.moved k) = f m) (k : ℕ)
    (pss : List (List α)) :
    (eachAt bare key read k pss).filterMap f = pss.flatMap fun ps => (gated bare key read ps).filterMap f := by
  induction pss generalizing k with
  | nil => rfl
  | cons ps pss ih =>
    rw [eachAt, List.filterMap_append, List.filterMap_map, ih, List.flatMap_cons]
    refine congrArg (· ++ _) (List.filterMap_congr fun m _ => hf k m)

end

end PartCAD.Lib.Regex
