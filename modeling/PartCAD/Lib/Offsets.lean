import Mathlib.Data.List.Induction
import Mathlib.Data.Prod.Lex
import PartCAD.Lib.Text

/-!
# Offsets into a text

Characters of a text are counted from its start, or by the line that they stand in.

* `find`, `slice` : where a text occurs in another one, and what stands between two offsets;
* `lastLe` : the last number that is not larger than another one, by halving;
* `lineStarts`, `position` : the line and the column of an offset.
-/

namespace PartCAD.Lib.Offsets

open PartCAD.Lib.Text

/-! ## Finding a text -/

def findGo (sub : Str) : ℕ → Str → Option ℕ
  | at_, [] => if startswith [] sub then some at_ else none
  | at_, c :: s => if startswith (c :: s) sub then some at_ else findGo sub (at_ + 1) s

/-- `s.find(sub, start)` -/
def find (s sub : Str) (start : ℕ) : Option ℕ := findGo sub start (s.drop start)

/-- `s[start:stop]` -/
def slice (s : Str) (start stop : ℕ) : Str := (s.take stop).drop start

theorem findGo_eq_some {sub : Str} : ∀ {s : Str} {start at_ : ℕ}, findGo sub start s = some at_ →
    ∃ n, at_ = start + n ∧ n ≤ s.length ∧ sub <+: s.drop n := by
  intro s
  induction s with
  | nil =>
    intro start at_ h
    rw [findGo] at h
    split at h
    · obtain rfl : start = at_ := Option.some.inj h
      exact ⟨0, rfl, Nat.zero_le _, startswith_iff.mp ‹_›⟩
    · cases h
  | cons c s ih =>
    intro start at_ h
    rw [findGo] at h
    split at h
    · obtain rfl : start = at_ := Option.some.inj h
      exact ⟨0, rfl, Nat.zero_le _, startswith_iff.mp ‹_›⟩
    · obtain ⟨n, rfl, hle, hsub⟩ := ih h
      exact ⟨n + 1, by omega, Nat.succ_le_succ hle, hsub⟩

/-- A text is found where it stands. -/
theorem find_eq_some {s sub : Str} {start at_ : ℕ} (hstart : start ≤ s.length)
    (h : find s sub start = some at_) :
    start ≤ at_ ∧ at_ + sub.length ≤ s.length ∧ slice s at_ (at_ + sub.length) = sub := by
  obtain ⟨n, rfl, hle, hsub⟩ := findGo_eq_some h
  rw [List.drop_drop] at hsub
  have hlength := hsub.length_le
  rw [List.length_drop] at hle hlength
  refine ⟨Nat.le_add_right _ _, by omega, ?_⟩
  rw [slice, List.take_add, List.drop_append_of_le_length (by rw [List.length_take]; omega)]
  rw [List.drop_of_length_le (by rw [List.length_take]; omega), List.nil_append]
  exact (List.prefix_iff_eq_take.mp hsub).symm

theorem length_slice {s : Str} {start stop : ℕ} (h : stop ≤ s.length) :
    (slice s start stop).length = stop - start := by
  rw [slice, List.length_drop, List.length_take, Nat.min_eq_left h]

/-- What stands between two offsets, and then behind the second one. -/
theorem slice_append_drop {s : Str} {start stop : ℕ} (h : start ≤ stop) (hstop : stop ≤ s.length) :
    slice s start stop ++ s.drop stop = s.drop start := by
  have hdrop := congrArg (List.drop start) (List.take_append_drop stop s)
  rwa [List.drop_append_of_le_length (by rw [List.length_take]; omega)] at hdrop

theorem slice_append_slice {s : Str} {a b c : ℕ} (hab : a ≤ b) (hbc : b ≤ c) (hc : c ≤ s.length) :
    slice s a b ++ slice s b c = slice s a c := by
  have htake : (s.take c).take b = s.take b := by rw [List.take_take, Nat.min_eq_left hbc]
  have h := slice_append_drop (s := s.take c) hab (by rw [List.length_take]; omega)
  rwa [slice, htake] at h

/-! ## Halving -/

/-- The last index from `low` to `high` whose number is not larger. -/
def lastLe (numbers : List ℕ) (n low high : ℕ) : ℕ :=
  if low < high then
    let middle := (low + high + 1) / 2
    if numbers.getD middle 0 ≤ n then lastLe numbers n middle high
    else lastLe numbers n low (middle - 1)
  else low
termination_by high - low

theorem getD_of_lt {numbers : List ℕ} {index : ℕ} (h : index < numbers.length) :
    numbers.getD index 0 = numbers[index] := by
  rw [List.getD_eq_getElem?_getD, List.getElem?_eq_getElem h, Option.getD_some]

/-- It is the last one of those that come first. -/
theorem lastLe_append {before after : List ℕ} {n : ℕ} (hbefore : ∀ a ∈ before, a ≤ n)
    (hafter : ∀ a ∈ after, n < a) (low high : ℕ) (hlow : low < before.length)
    (hhigh : before.length ≤ high + 1) (hlength : high < (before ++ after).length) :
    lastLe (before ++ after) n low high = before.length - 1 := by
  fun_induction lastLe (before ++ after) n low high with
  | case1 low high hlt middle hle ih =>
    refine ih ?_ hhigh hlength
    by_contra hnot
    have hmiddle : middle < (before ++ after).length := by omega
    rw [getD_of_lt hmiddle, List.getElem_append_right (by omega)] at hle
    exact absurd hle (Nat.not_le.mpr (hafter _ (List.getElem_mem _)))
  | case2 low high hlt middle hle ih =>
    have hmiddle : before.length ≤ middle := by
      by_contra hnot
      refine hle ?_
      rw [getD_of_lt (by omega), List.getElem_append_left (by omega)]
      exact hbefore _ (List.getElem_mem _)
    exact ih hlow (by omega) (by omega)
  | case3 low high hlt => omega

/-! ## Lines -/

/-- Where the lines start. -/
def lineStarts (s : Str) : List ℕ :=
  0 :: s.zipIdx.filterMap fun (c, index) => if c = '\n' then some (index + 1) else none

/-- The number of a line, and what stands before an offset in it. -/
def positionIn (starts : List ℕ) (offset : ℕ) : ℕ × ℕ :=
  let line := lastLe starts offset 0 (starts.length - 1)
  (line, offset - starts.getD line 0)

/-- The line ends before an offset, and the characters since the last one. -/
def position (s : Str) (offset : ℕ) : ℕ × ℕ :=
  ((s.take offset).count '\n', ((s.take offset).reverse.takeWhile (· ≠ '\n')).length)

theorem mem_lineStarts_le {s : Str} {n : ℕ} (h : n ∈ lineStarts s) : n ≤ s.length := by
  rcases List.mem_cons.mp h with rfl | h
  · exact Nat.zero_le _
  · obtain ⟨⟨c, index⟩, hmem, hc⟩ := List.mem_filterMap.mp h
    have hindex := (List.mem_zipIdx_iff_getElem?.mp hmem)
    obtain ⟨hlt, -⟩ := List.getElem?_eq_some_iff.mp hindex
    dsimp only at hc hlt
    split at hc
    · obtain rfl := Option.some.inj hc
      exact hlt
    · cases hc

theorem lineStarts_append (s t : Str) : ∃ after, lineStarts (s ++ t) = lineStarts s ++ after ∧
    ∀ n ∈ after, s.length < n := by
  refine ⟨(t.zipIdx (0 + s.length)).filterMap fun (c, index) => if c = '\n' then some (index + 1) else none,
    ?_, ?_⟩
  · rw [lineStarts, List.zipIdx_append, List.filterMap_append]
    rfl
  · intro n hn
    obtain ⟨⟨c, index⟩, hmem, hc⟩ := List.mem_filterMap.mp hn
    have hle := List.le_snd_of_mem_zipIdx hmem
    dsimp only at hc hle
    split at hc
    · obtain rfl := Option.some.inj hc
      omega
    · cases hc

theorem lineStarts_concat (s : Str) (c : Char) :
    lineStarts (s ++ [c]) = lineStarts s ++ if c = '\n' then [s.length + 1] else [] := by
  rw [lineStarts, List.zipIdx_append, List.filterMap_append, lineStarts, List.cons_append]
  congr 2
  rw [List.zipIdx_cons, List.zipIdx_nil, Nat.zero_add]
  by_cases h : c = '\n'
  · simp [h]
  · simp [h]

theorem position_concat (s : Str) (c : Char) : position (s ++ [c]) (s.length + 1) =
    if c = '\n' then ((position s s.length).1 + 1, 0)
    else ((position s s.length).1, (position s s.length).2 + 1) := by
  have htake : (s ++ [c]).take (s.length + 1) = s ++ [c] := List.take_of_length_le (by simp)
  simp only [position, htake, List.take_length, List.reverse_append, List.reverse_singleton,
    List.singleton_append, List.takeWhile_cons, List.count_append]
  by_cases h : c = '\n'
  · simp [h]
  · simp [h]

/-- The last line, of a whole text. -/
theorem last_lineStarts (s : Str) :
    (lineStarts s).length = (position s s.length).1 + 1 ∧
    s.length - (lineStarts s).getD (position s s.length).1 0 = (position s s.length).2 := by
  induction s using List.reverseRecOn with
  | nil => exact ⟨rfl, rfl⟩
  | append_singleton s c ih =>
    obtain ⟨hlength, hlast⟩ := ih
    rw [List.length_append, List.length_singleton, position_concat, lineStarts_concat]
    by_cases h : c = '\n'
    · rw [if_pos h, if_pos h, List.length_append, hlength]
      refine ⟨rfl, ?_⟩
      rw [getD_of_lt (by rw [List.length_append, hlength]; exact Nat.lt_succ_self _),
        List.getElem_append_right (by rw [hlength])]
      simp only [hlength, Nat.sub_self, List.getElem_cons_zero]
    · rw [if_neg h, if_neg h, List.append_nil]
      refine ⟨hlength, ?_⟩
      have hle : (lineStarts s).getD (position s s.length).1 0 ≤ s.length := by
        rw [getD_of_lt (by rw [hlength]; exact Nat.lt_succ_self _)]
        exact mem_lineStarts_le (List.getElem_mem _)
      dsimp only
      omega

/-- **The line and the column of an offset.** -/
theorem positionIn_lineStarts {s : Str} {offset : ℕ} (h : offset ≤ s.length) :
    positionIn (lineStarts s) offset = position s offset := by
  have hlength : (s.take offset).length = offset := by rw [List.length_take, Nat.min_eq_left h]
  obtain ⟨after, hafter, hlt⟩ := lineStarts_append (s.take offset) (s.drop offset)
  rw [List.take_append_drop] at hafter
  rw [hlength] at hlt
  have hpos : position (s.take offset) (s.take offset).length = position s offset := by
    rw [position, List.take_length]
    rfl
  obtain ⟨hcount, hlast⟩ := last_lineStarts (s.take offset)
  rw [hpos] at hcount hlast
  rw [hlength] at hlast
  have hline : lastLe (lineStarts s) offset 0 ((lineStarts s).length - 1) = (position s offset).1 := by
    rw [hafter, lastLe_append (fun n hn => hlength ▸ mem_lineStarts_le hn) hlt 0 _ (by omega)
      (by rw [List.length_append]; omega) (by rw [List.length_append]; omega), hcount]
    rfl
  rw [positionIn, hline]
  refine Prod.ext rfl ?_
  show offset - (lineStarts s).getD (position s offset).1 0 = _
  rw [← hlast, hafter, getD_of_lt (by rw [List.length_append]; omega),
    List.getElem_append_left (by omega), getD_of_lt (by omega)]

theorem position_take {s : Str} {offset n : ℕ} (h : offset ≤ n) :
    position (s.take n) offset = position s offset := by
  rw [position, List.take_take, Nat.min_eq_left h]
  rfl

theorem position_succ {s : Str} {offset : ℕ} (h : offset < s.length) :
    toLex (position s offset) < toLex (position s (offset + 1)) := by
  have hlength : (s.take offset).length = offset := by rw [List.length_take, Nat.min_eq_left h.le]
  have hnext := position_concat (s.take offset) s[offset]
  rw [hlength, List.take_append_getElem h, position_take (Nat.le_refl _),
    position_take (Nat.le_refl _)] at hnext
  rw [hnext, Prod.Lex.toLex_lt_toLex]
  split
  · exact Or.inl (Nat.lt_succ_self _)
  · exact Or.inr ⟨rfl, Nat.lt_succ_self _⟩

/-- Offsets and positions have one order. -/
theorem position_lt {s : Str} {a b : ℕ} (hab : a < b) (hb : b ≤ s.length) :
    toLex (position s a) < toLex (position s b) := by
  induction b, hab using Nat.le_induction with
  | base => exact position_succ hb
  | succ b _ ih => exact (ih (Nat.le_of_succ_le hb)).trans (position_succ hb)

theorem position_le {s : Str} {a b : ℕ} (hab : a ≤ b) (hb : b ≤ s.length) :
    toLex (position s a) ≤ toLex (position s b) := by
  rcases hab.lt_or_eq with h | rfl
  · exact (position_lt h hb).le
  · exact le_rfl

end PartCAD.Lib.Offsets
