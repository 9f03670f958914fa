import Mathlib.Algebra.Ring.Nat
import Mathlib.Data.List.Basic
import Mathlib.Data.List.DropRight
import Mathlib.Algebra.Order.BigOperators.Group.List
import Mathlib.Algebra.Order.Group.Nat
import Mathlib.Tactic.Common

/-!
# Cutting a list

A list is cut at the occurrences of a shorter one, at items that stand between words, or where a line
ends; and some of its items are taken, by where they stand.

* `pieces`, `words`, `lines` : what is left between the cuts;
* `Cut` : not more than what there was, in not more pieces than one can make of it;
* `slice` : every so manyth item between two places.
-/

namespace PartCAD.Lib.Substrings

/-- The pieces have no more items together than are there, and there is at most one more of them. -/
structure Cut {α : Type} (n : ℕ) (ps : List (List α)) : Prop where
  total : (ps.map List.length).sum ≤ n
  count : ps.length ≤ n + 1

section

variable {α : Type}

theorem cut_singleton (s : List α) : Cut s.length [s] where
  total := by simp
  count := by simp

theorem cut_nil (n : ℕ) : Cut n ([] : List (List α)) where
  total := Nat.zero_le _
  count := Nat.zero_le _

theorem Cut.mono {m n : ℕ} (hle : m ≤ n) {ps : List (List α)} (h : Cut m ps) : Cut n ps where
  total := h.total.trans hle
  count := h.count.trans (Nat.succ_le_succ hle)

/-- A piece, and the pieces of what comes behind an item that is cut away. -/
theorem Cut.cons {m n : ℕ} {p : List α} {ps : List (List α)} (hp : p.length ≤ m) (h : Cut n ps) :
    Cut (m + n + 1) (p :: ps) where
  total := by
    have htotal := h.total
    rw [List.map_cons, List.sum_cons]
    omega
  count := by
    have hcount := h.count
    rw [List.length_cons]
    omega

theorem Cut.reverse {n : ℕ} {ps : List (List α)} (h : Cut n ps) : Cut n (ps.map List.reverse).reverse where
  total := by
    have hlengths : List.length ∘ List.reverse = (List.length : List α → ℕ) :=
      funext fun p => List.length_reverse
    rw [List.map_reverse, List.sum_reverse, List.map_map, hlengths]
    exact h.total
  count := by
    rw [List.length_reverse, List.length_map]
    exact h.count

/-- The pieces with a list between them. -/
theorem length_intercalate (sep : List α) (ps : List (List α)) :
    (sep.intercalate ps).length ≤ (ps.map List.length).sum + ps.length * sep.length := by
  induction ps with
  | nil => exact Nat.zero_le _
  | cons p ps ih =>
    cases ps with
    | nil => simp
    | cons q ps =>
      rw [List.intercalate_cons_cons, List.length_append, List.length_append, List.map_cons, List.sum_cons,
        List.length_cons, Nat.succ_mul]
      omega

/-! ## At the occurrences of a list -/

section

variable [DecidableEq α] (sep : List α)

/-- At so many occurrences as are left; the number counts the items of an occurrence that are still to be
passed over, and `current` has the items since the last one, backwards. -/
def piecesGo : Option ℕ → ℕ → List α → List α → List (List α)
  | _, _, current, [] => [current.reverse]
  | limit, n + 1, current, _ :: s => piecesGo limit n current s
  | limit, 0, current, a :: s =>
    if limit ≠ some 0 ∧ sep.isPrefixOf (a :: s) then
      current.reverse :: piecesGo (limit.map (· - 1)) (sep.length - 1) [] s
    else piecesGo limit 0 (a :: current) s

/-- The pieces between the first occurrences, from the left. -/
def pieces (limit : Option ℕ) (s : List α) : List (List α) := piecesGo sep limit 0 [] s

/-- The pieces between the last occurrences, from the right. -/
def rpieces (limit : Option ℕ) (s : List α) : List (List α) :=
  ((pieces sep.reverse limit s.reverse).map List.reverse).reverse

theorem cut_piecesGo (limit : Option ℕ) (n : ℕ) (current s : List α) :
    Cut (current.length + s.length) (piecesGo sep limit n current s) := by
  induction s generalizing limit n current with
  | nil =>
    cases n <;>
    · rw [piecesGo, List.length_nil, Nat.add_zero, ← List.length_reverse]
      exact cut_singleton _
  | cons a s ih =>
    cases n with
    | succ n =>
      rw [piecesGo]
      exact (ih limit n current).mono (by rw [List.length_cons]; omega)
    | zero =>
      rw [piecesGo]
      split
      · have hrest := ih (limit.map (· - 1)) (sep.length - 1) []
        refine (hrest.cons (le_of_eq List.length_reverse)).mono ?_
        rw [List.length_nil, List.length_cons]
        omega
      · refine (ih limit 0 (a :: current)).mono ?_
        rw [List.length_cons, List.length_cons]
        omega

theorem cut_pieces (limit : Option ℕ) (s : List α) : Cut s.length (pieces sep limit s) :=
  (cut_piecesGo sep limit 0 [] s).mono (by rw [List.length_nil, Nat.zero_add])

theorem cut_rpieces (limit : Option ℕ) (s : List α) : Cut s.length (rpieces sep limit s) := by
  have h := (cut_pieces sep.reverse limit s.reverse).reverse
  rwa [List.length_reverse] at h

end

/-! ## Between words -/

section

variable (isSpace : α → Bool)

/-- The words, or so many of them and the rest; `current` has the word that is being read, backwards. -/
def wordsGo : Option ℕ → Option (List α) → List α → List (List α)
  | _, none, [] => []
  | _, some current, [] => [current.reverse]
  | limit, none, a :: s =>
    if isSpace a then wordsGo limit none s
    else if limit = some 0 then [a :: s]
    else wordsGo limit (some [a]) s
  | limit, some current, a :: s =>
    if isSpace a then current.reverse :: wordsGo (limit.map (· - 1)) none s
    else wordsGo limit (some (a :: current)) s

def words (limit : Option ℕ) (s : List α) : List (List α) := wordsGo isSpace limit none s

def rwords (limit : Option ℕ) (s : List α) : List (List α) :=
  ((words isSpace limit s.reverse).map List.reverse).reverse

theorem cut_wordsGo (limit : Option ℕ) (current : Option (List α)) (s : List α) :
    Cut ((current.getD []).length + s.length) (wordsGo isSpace limit current s) := by
  induction s generalizing limit current with
  | nil =>
    cases current with
    | none => exact cut_nil _
    | some current =>
      rw [wordsGo, Option.getD_some, List.length_nil, Nat.add_zero, ← List.length_reverse]
      exact cut_singleton _
  | cons a s ih =>
    cases current with
    | none =>
      rw [wordsGo, Option.getD_none, List.length_nil, Nat.zero_add]
      split
      · exact (ih limit none).mono (by rw [Option.getD_none, List.length_nil, List.length_cons]; omega)
      · split
        · exact cut_singleton _
        · refine (ih limit (some [a])).mono ?_
          rw [Option.getD_some, List.length_singleton, List.length_cons]
          omega
    | some current =>
      rw [wordsGo, Option.getD_some]
      split
      · refine ((ih (limit.map (· - 1)) none).cons (le_of_eq List.length_reverse)).mono ?_
        rw [Option.getD_none, List.length_nil, List.length_cons]
        omega
      · refine (ih limit (some (a :: current))).mono ?_
        rw [Option.getD_some, List.length_cons, List.length_cons]
        omega

theorem cut_words (limit : Option ℕ) (s : List α) : Cut s.length (words isSpace limit s) :=
  (cut_wordsGo isSpace limit none s).mono (by rw [Option.getD_none, List.length_nil, Nat.zero_add])

theorem cut_rwords (limit : Option ℕ) (s : List α) : Cut s.length (rwords isSpace limit s) := by
  have h := (cut_words isSpace limit s.reverse).reverse
  rwa [List.length_reverse] at h

end

/-! ## By places -/

section

/-- Every `step`th item from `start` on that stands before `stop`, or behind it where one goes backwards. -/
def slice (start stop step : ℤ) (s : List α) : List α :=
  if 0 < step then
    (s.zipIdx.filter fun (_, i) => start ≤ i ∧ i < stop ∧ (i - start) % step = 0).map Prod.fst
  else
    ((s.zipIdx.filter fun (_, i) => stop < i ∧ i ≤ start ∧ (start - i) % -step = 0).map Prod.fst).reverse

/-- What is taken is there, and nothing is taken twice. -/
theorem slice_subperm (start stop step : ℤ) (s : List α) : (slice start stop step s).Subperm s := by
  have htaken (p : α × ℕ → Bool) : List.Sublist ((s.zipIdx.filter p).map Prod.fst) s := by
    have hall := (List.filter_sublist (l := s.zipIdx) (p := p)).map Prod.fst
    rwa [List.zipIdx_map_fst] at hall
  unfold slice
  split
  · exact (htaken _).subperm
  · exact (List.reverse_perm _).subperm.trans (htaken _).subperm

end

end

/-! ## Where lines end -/

section

variable (isBreak : Char → Bool) (keep : Bool)

/-- The lines, with what ends them where that is kept; `current` has the line that is being read,
backwards. -/
def linesGo : List Char → List Char → List (List Char)
  | [], [] => []
  | a :: current, [] => [(a :: current).reverse]
  | current, '\r' :: '\n' :: s =>
    (current.reverse ++ if keep then ['\r', '\n'] else []) :: linesGo [] s
  | current, c :: s =>
    if isBreak c then (current.reverse ++ if keep then [c] else []) :: linesGo [] s
    else linesGo (c :: current) s

def lines (s : List Char) : List (List Char) := linesGo isBreak keep [] s

theorem length_kept (current ending : List Char) :
    (current.reverse ++ if keep then ending else []).length ≤ current.length + ending.length := by
  cases keep <;> simp

theorem cut_linesGo (current s : List Char) :
    Cut (current.length + s.length) (linesGo isBreak keep current s) := by
  fun_induction linesGo isBreak keep current s with
  | case1 => exact cut_nil _
  | case2 a current =>
    rw [List.length_nil, Nat.add_zero, ← List.length_reverse]
    exact cut_singleton _
  | case3 current s ih =>
    refine ⟨?_, ?_⟩
    · have hrest := ih.total
      have hline := length_kept keep current ['\r', '\n']
      simp only [List.map_cons, List.sum_cons, List.length_cons, List.length_nil] at *
      omega
    · have hrest := ih.count
      simp only [List.length_cons, List.length_nil] at *
      omega
  | case4 current c s _ _ ih =>
    refine ⟨?_, ?_⟩
    · have hrest := ih.total
      have hline := length_kept keep current [c]
      simp only [List.map_cons, List.sum_cons, List.length_cons, List.length_nil] at *
      omega
    · have hrest := ih.count
      simp only [List.length_cons, List.length_nil] at *
      omega
  | case5 current c s _ _ ih =>
    refine ih.mono ?_
    rw [List.length_cons, List.length_cons]
    omega

theorem cut_lines (s : List Char) : Cut s.length (lines isBreak keep s) :=
  (cut_linesGo isBreak keep [] s).mono (by rw [List.length_nil, Nat.zero_add])

end

end PartCAD.Lib.Substrings
