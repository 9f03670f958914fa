import Mathlib.Data.List.Infix
import Mathlib.Data.List.TakeWhile
import Mathlib.Tactic.Common
import PartCAD.Lib.Value

/-!
# Regular expressions

What a backtracking engine finds: every way to match at a place, in the order in which they are tried, and
the matches of a text from left to right.

* `Regex`, `run`, `search` : the expressions, and what is found;
* `run_append` : a match does not depend on what comes behind it;
* `search_append` : **two texts are searched one after the other** where no match goes on from one into the other;
* `Avoids` : expressions no match of which holds a character.
-/

namespace PartCAD.Lib

inductive Regex where
  /-- The text as it stands. -/
  | text (s : Str)
  /-- A character of the class. -/
  | char (p : Char → Bool)
  /-- `[…]*` -/
  | many (p : Char → Bool)
  /-- `[…]*?` -/
  | fewest (p : Char → Bool)
  /-- `'[^']*(?:''[^']*)*'` -/
  | quoted
  /-- `\b` before what begins with a character of a word. -/
  | wordStart (r : Regex)
  | group (r : Regex)
  | alt (r r' : Regex)
  | seq (r r' : Regex)

/-- How long a match is, and what its groups hold. -/
structure Found where
  length : ℕ
  groups : List Str
  deriving DecidableEq

/-- A match in a text: where it begins, where it ends, and what its groups hold. -/
structure Match where
  start : ℕ
  stop : ℕ
  groups : List Str
  deriving DecidableEq

/-- A match, in a text with so many characters more before it. -/
def Match.moved (k : ℕ) (m : Match) : Match := ⟨m.start + k, m.stop + k, m.groups⟩

namespace Regex

/-- One expression after the other. -/
@[grind =]
def seqs : List Regex → Regex
  | [] => text []
  | [r] => r
  | r :: rs => seq r (seqs rs)

/-- `(?:…)?` -/
def opt (r : Regex) : Regex := alt r (text [])

/-- `[…]+` -/
def atLeastOne (p : Char → Bool) : Regex := seq (char p) (many p)

/-! ## Matches -/

/-- The ways in which a string may end behind its first quote: the last end first. -/
@[grind =]
def stringEnds : Str → List ℕ
  | [] => []
  | [c] => if c = '\'' then [1] else []
  | c :: d :: rest =>
    if c ≠ '\'' then (stringEnds (d :: rest)).map (· + 1)
    else if d ≠ '\'' then [1]
    else (stringEnds rest).map (· + 2) ++ [1]

section

variable (isWord : Char → Bool)

/-- Whether the character before is one of a word, behind a text. -/
def behind (w : Bool) (s : Str) : Bool := s.getLast?.elim w isWord

/-- Every match at the beginning of a text, the one tried first before the others. -/
@[grind =]
def run : Regex → Bool → Str → List Found
  | text t, _, s => if t <+: s then [⟨t.length, []⟩] else []
  | char p, _, s => if s.head?.any p then [⟨1, []⟩] else []
  | many p, _, s => (List.range ((s.takeWhile p).length + 1)).reverse.map (⟨·, []⟩)
  | fewest p, _, s => (List.range ((s.takeWhile p).length + 1)).map (⟨·, []⟩)
  | quoted, _, s => if s.head? = some '\'' then (stringEnds s.tail).map (⟨· + 1, []⟩) else []
  | wordStart r, w, s => if w = true then [] else run r w s
  | group r, w, s => (run r w s).map fun f => ⟨f.length, s.take f.length :: f.groups⟩
  | alt r r', w, s => run r w s ++ run r' w s
  | seq r r', w, s => (run r w s).flatMap fun f =>
      (run r' (behind isWord w (s.take f.length)) (s.drop f.length)).map fun f' =>
        ⟨f.length + f'.length, f.groups ++ f'.groups⟩

/-- The matches of a text from left to right, over so many characters of the one before; of an expression
that does not match the empty text. -/
@[grind =]
def searchGo (r : Regex) : ℕ → Bool → ℕ → Str → List Match
  | _, _, _, [] => []
  | skip + 1, _, i, c :: s => searchGo r skip (isWord c) (i + 1) s
  | 0, w, i, c :: s =>
    match (run isWord r w (c :: s)).head? with
    | none => searchGo r 0 (isWord c) (i + 1) s
    | some f => ⟨i, i + f.length, f.groups⟩ :: searchGo r (f.length - 1) (isWord c) (i + 1) s

/-- `finditer` -/
def search (r : Regex) (s : Str) : List Match := searchGo isWord r 0 false 0 s

end

/-! ## What a match is -/

/-- No match of the expression is shorter. -/
@[grind =]
def shortest : Regex → ℕ
  | text t => t.length
  | char _ => 1
  | many _ => 0
  | fewest _ => 0
  | quoted => 1
  | wordStart r => shortest r
  | group r => shortest r
  | alt r r' => min (shortest r) (shortest r')
  | seq r r' => shortest r + shortest r'

/-- No match of the expression holds the character. -/
@[grind =]
def avoids (c : Char) : Regex → Bool
  | text t => c ∉ t
  | char p => ! p c
  | many p => ! p c
  | fewest p => ! p c
  | quoted => false
  | wordStart r => avoids c r
  | group r => avoids c r
  | alt r r' => avoids c r && avoids c r'
  | seq r r' => avoids c r && avoids c r'

section

variable {isWord : Char → Bool}

theorem notMem_take_of_le {p : Char → Bool} {c : Char} (hc : p c = false) {s : Str} {n : ℕ}
    (hn : n ≤ (s.takeWhile p).length) : c ∉ s.take n := by
  intro h
  have hlength : (s.take n).length ≤ (s.takeWhile p).length := (List.length_take_le n s).trans hn
  have hfront := List.prefix_of_prefix_length_le (List.take_prefix n s) (List.takeWhile_prefix p) hlength
  have hp := List.mem_takeWhile_imp (hfront.subset h)
  rw [hc] at hp
  cases hp

theorem notMem_take {r : Regex} {c : Char} (hr : avoids c r = true) {w : Bool} {s : Str} {f : Found}
    (h : f ∈ run isWord r w s) : c ∉ s.take f.length := by
  induction r generalizing w s f with
  | text t =>
    rw [run] at h
    split at h
    · next ht =>
      obtain rfl := List.mem_singleton.mp h
      rw [List.prefix_iff_eq_take.mp ht] at hr
      exact of_decide_eq_true hr
    · cases h
  | char p =>
    rw [run] at h
    split at h
    · next hp =>
      obtain rfl := List.mem_singleton.mp h
      cases s with
      | nil => cases hp
      | cons d s =>
        intro hmem
        obtain rfl : c = d := by simpa using hmem
        rw [avoids, show p c = true from hp] at hr
        cases hr
    · cases h
  | many p =>
    obtain ⟨n, hn, rfl⟩ := List.mem_map.mp h
    rw [List.mem_reverse, List.mem_range] at hn
    exact notMem_take_of_le (by simpa [avoids] using hr) (Nat.le_of_lt_succ hn)
  | fewest p =>
    obtain ⟨n, hn, rfl⟩ := List.mem_map.mp h
    rw [List.mem_range] at hn
    exact notMem_take_of_le (by simpa [avoids] using hr) (Nat.le_of_lt_succ hn)
  | quoted => cases hr
  | wordStart r ih =>
    rw [run] at h
    split at h
    · cases h
    · exact ih hr h
  | group r ih =>
    obtain ⟨g, hg, rfl⟩ := List.mem_map.mp h
    exact @ih hr w s g hg
  | alt r r' ih ih' =>
    rw [avoids, Bool.and_eq_true] at hr
    rcases List.mem_append.mp h with h | h
    · exact ih hr.1 h
    · exact ih' hr.2 h
  | seq r r' ih ih' =>
    rw [avoids, Bool.and_eq_true] at hr
    obtain ⟨g, hg, h⟩ := List.mem_flatMap.mp h
    obtain ⟨g', hg', rfl⟩ := List.mem_map.mp h
    rw [List.take_add, List.mem_append, not_or]
    exact ⟨ih hr.1 hg, ih' hr.2 hg'⟩

/-! ## Texts in two parts -/

theorem stringEnds_pos {s : Str} {n : ℕ} (h : n ∈ stringEnds s) : 1 ≤ n := by
  fun_induction stringEnds s generalizing n with
  | case1 => cases h
  | case2 => simp_all
  | case3 => simp_all
  | case4 c d rest hc ih =>
    obtain ⟨m, -, rfl⟩ := List.mem_map.mp h
    omega
  | case5 => simp_all
  | case6 c d rest hc hd ih =>
    rcases List.mem_append.mp h with h | h
    · obtain ⟨m, -, rfl⟩ := List.mem_map.mp h
      omega
    · simp_all

/-- A string ends at the same places, as far as the text goes. -/
theorem stringEnds_append (a b : Str) : stringEnds a = (stringEnds (a ++ b)).filter (· ≤ a.length) := by
  have hpos : ∀ {s : Str} {k : ℕ}, ((stringEnds s).map (· + k)).filter (· ≤ k) = [] := by
    intro s k
    refine List.filter_eq_nil_iff.mpr fun n hn => ?_
    obtain ⟨m, hm, rfl⟩ := List.mem_map.mp hn
    have := stringEnds_pos hm
    simp
    omega
  have hshift : ∀ (l : List ℕ) (n k : ℕ), (l.map (· + k)).filter (· ≤ n + k) = (l.filter (· ≤ n)).map (· + k) := by
    intro l n k
    rw [List.filter_map]
    refine congrArg (List.map (· + k)) (List.filter_congr fun m _ => ?_)
    simp
  fun_induction stringEnds a with
  | case1 =>
    refine (List.filter_eq_nil_iff.mpr fun n hn => ?_).symm
    have := stringEnds_pos hn
    simp
    omega
  | case2 =>
    cases b with
    | nil => rfl
    | cons d b =>
      by_cases hd : d = '\''
      · subst hd
        show [1] = ((stringEnds b).map (· + 2) ++ [1]).filter (· ≤ 1)
        rw [List.filter_append, List.filter_eq_nil_iff.mpr, List.nil_append]
        · rfl
        · intro n hn
          obtain ⟨m, -, rfl⟩ := List.mem_map.mp hn
          simp
      · rw [List.cons_append, List.nil_append, stringEnds, if_neg (not_not_intro rfl), if_pos hd]
        rfl
  | case3 c hc =>
    cases b with
    | nil => simp [stringEnds, hc]
    | cons d b =>
      rw [List.cons_append, List.nil_append, stringEnds, if_pos hc]
      exact hpos.symm
  | case4 c d rest hc ih =>
    rw [List.cons_append, List.cons_append, stringEnds, if_pos hc, ih]
    exact (hshift _ _ _).symm
  | case5 c d rest hc hd =>
    rw [List.cons_append, List.cons_append, stringEnds, if_neg hc, if_pos hd]
    simp
  | case6 c d rest hc hd ih =>
    rw [List.cons_append, List.cons_append, stringEnds, if_neg hc, if_neg hd, ih, List.filter_append]
    refine congrArg₂ (· ++ ·) (hshift _ _ _).symm ?_
    simp

theorem length_takeWhile_append (p : Char → Bool) (a b : Str) :
    (a.takeWhile p).length = min ((a ++ b).takeWhile p).length a.length := by
  induction a with
  | nil => simp
  | cons c a ih =>
    rw [List.cons_append, List.takeWhile_cons, List.takeWhile_cons]
    split
    · simp only [List.length_cons, ih]
      omega
    · simp

theorem filter_range_le (n k : ℕ) : (List.range (n + 1)).filter (· ≤ k) = List.range (min n k + 1) := by
  induction n with
  | zero => simp
  | succ n ih =>
    rw [List.range_succ, List.filter_append, ih]
    by_cases h : n + 1 ≤ k
    · have hmin : min (n + 1) k = n + 1 ∧ min n k = n := by omega
      rw [hmin.1, hmin.2, List.range_succ (n := n + 1)]
      simp [h]
    · have hmin : min (n + 1) k = min n k := by omega
      rw [hmin]
      simp [h]

theorem flatMap_filter {α β : Type} (p : α → Bool) (g : α → List β) (l : List α) :
    (l.filter p).flatMap g = l.flatMap fun x => if p x = true then g x else [] := by
  induction l with
  | nil => rfl
  | cons x l ih =>
    rw [List.filter_cons, List.flatMap_cons, ← ih]
    split <;> rfl

/-- **A match does not depend on what comes behind it.** -/
theorem run_append (r : Regex) (w : Bool) (a b : Str) :
    run isWord r w a = (run isWord r w (a ++ b)).filter (·.length ≤ a.length) := by
  induction r generalizing w a with
  | text t =>
    rw [run, run]
    by_cases h : t <+: a
    · rw [if_pos h, if_pos (h.trans (List.prefix_append a b))]
      simp [h.length_le]
    · rw [if_neg h]
      split
      · next ht =>
        have hlong : ¬ t.length ≤ a.length := fun hle => h (List.prefix_of_prefix_length_le ht (List.prefix_append a b) hle)
        simp [hlong]
      · rfl
  | char p =>
    cases a with
    | nil =>
      rw [run, run]
      split
      · next h => cases h
      · split <;> simp
    | cons c a =>
      rw [run, run, List.cons_append]
      split <;> simp_all
  | many p =>
    rw [run, run, length_takeWhile_append p a b, ← filter_range_le, ← List.filter_reverse, List.filter_map]
    rfl
  | fewest p =>
    rw [run, run, length_takeWhile_append p a b, ← filter_range_le, List.filter_map]
    rfl
  | quoted =>
    cases a with
    | nil =>
      rw [run, run]
      split
      · next h => cases h
      · split
        · refine (List.filter_eq_nil_iff.mpr fun f hf => ?_).symm
          obtain ⟨n, -, rfl⟩ := List.mem_map.mp hf
          simp
        · rfl
    | cons c a =>
      rw [run, run, List.cons_append, List.head?_cons, List.head?_cons]
      split
      · rw [List.tail_cons, List.tail_cons, stringEnds_append a b, List.filter_map]
        refine congrArg (List.map _) (List.filter_congr fun n _ => ?_)
        simp
      · rfl
  | wordStart r ih =>
    rw [run, run]
    split
    · rfl
    · exact ih w a
  | group r ih =>
    rw [run, run, ih w a, List.filter_map]
    refine List.map_congr_left fun f hf => ?_
    have hle : f.length ≤ a.length := of_decide_eq_true (List.mem_filter.mp hf).2
    rw [List.take_append_of_le_length hle]
  | alt r r' ih ih' =>
    rw [run, run, List.filter_append, ← ih w a, ← ih' w a]
  | seq r r' ih ih' =>
    rw [run, run, ih w a, List.filter_flatMap, flatMap_filter]
    refine List.flatMap_congr fun f _ => ?_
    by_cases hle : f.length ≤ a.length
    · rw [List.take_append_of_le_length hle, List.drop_append_of_le_length hle, ih' _ (a.drop f.length), List.filter_map]
      simp only [hle, decide_true, if_true]
      refine congrArg (List.map _) (List.filter_congr fun f' _ => ?_)
      simp only [List.length_drop, Function.comp_apply, decide_eq_decide]
      omega
    · simp only [hle, decide_false, Bool.false_eq_true, if_false]
      refine (List.filter_eq_nil_iff.mpr fun g hg => ?_).symm
      obtain ⟨f', -, rfl⟩ := List.mem_map.mp hg
      simp only [decide_eq_true_eq]
      omega

/-- A match is no longer than the text. -/
theorem length_le {r : Regex} {w : Bool} {s : Str} {f : Found} (h : f ∈ run isWord r w s) : f.length ≤ s.length := by
  rw [run_append r w s []] at h
  exact of_decide_eq_true (List.mem_filter.mp h).2

/-! ## The matches of a text -/

/-- A match of a text is one at its place. -/
theorem exists_found {r : Regex} {skip : ℕ} {w : Bool} {i : ℕ} {s : Str} {m : Match}
    (h : m ∈ searchGo isWord r skip w i s) :
    i ≤ m.start ∧ m.start < i + s.length ∧
      ∃ w', ∃ f ∈ run isWord r w' (s.drop (m.start - i)), m.stop = m.start + f.length := by
  induction s generalizing skip w i with
  | nil =>
    rw [searchGo] at h
    cases h
  | cons c s ih =>
    have hlater : ∀ {skip : ℕ}, m ∈ searchGo isWord r skip (isWord c) (i + 1) s →
        i ≤ m.start ∧ m.start < i + (c :: s).length ∧
          ∃ w', ∃ f ∈ run isWord r w' ((c :: s).drop (m.start - i)), m.stop = m.start + f.length := by
      intro skip hm
      obtain ⟨hstart, hend, hfound⟩ := ih hm
      have hdrop : (c :: s).drop (m.start - i) = s.drop (m.start - (i + 1)) := by
        rw [show m.start - i = m.start - (i + 1) + 1 by omega, List.drop_succ_cons]
      rw [hdrop, List.length_cons]
      exact ⟨by omega, by omega, hfound⟩
    cases skip with
    | succ skip => exact hlater h
    | zero =>
      rw [searchGo] at h
      split at h
      · exact hlater h
      · next f hf =>
        rcases List.mem_cons.mp h with rfl | h
        · refine ⟨le_rfl, by simp, w, f, ?_, rfl⟩
          show f ∈ run isWord r w ((c :: s).drop (i - i))
          rw [Nat.sub_self]
          exact List.mem_of_head? hf
        · exact hlater h

theorem searchGo_moved (r : Regex) (skip : ℕ) (w : Bool) (i k : ℕ) (s : Str) :
    searchGo isWord r skip w (i + k) s = (searchGo isWord r skip w i s).map (Match.moved k) := by
  induction s generalizing skip w i with
  | nil =>
    rw [searchGo, searchGo]
    rfl
  | cons c s ih =>
    cases skip with
    | succ skip =>
      rw [searchGo, searchGo, ← ih, Nat.add_right_comm]
    | zero =>
      rw [searchGo, searchGo]
      split
      · rw [← ih, Nat.add_right_comm]
      · next f _ =>
        rw [List.map_cons, ← ih, Nat.add_right_comm i 1 k]
        refine congrArg (· :: _) ?_
        rw [Match.moved, Nat.add_right_comm i f.length k]

theorem searchGo_append {r : Regex} {skip : ℕ} {w : Bool} {i : ℕ} {a b : Str} (hskip : skip ≤ a.length)
    (hclear : ∀ m ∈ searchGo isWord r skip w i (a ++ b), m.start < i + a.length → m.stop ≤ i + a.length) :
    searchGo isWord r skip w i (a ++ b) =
      searchGo isWord r skip w i a ++ searchGo isWord r 0 (behind isWord w a) (i + a.length) b := by
  induction a generalizing skip w i with
  | nil =>
    obtain rfl : skip = 0 := by simpa using hskip
    rw [searchGo]
    rfl
  | cons c a ih =>
    have hbehind : behind isWord w (c :: a) = behind isWord (isWord c) a := by
      cases a with
      | nil => rfl
      | cons d a => simp [behind, List.getLast?_cons]
    have hlength : i + (c :: a).length = i + 1 + a.length := by
      rw [List.length_cons]
      omega
    rw [hlength] at hclear
    rw [hbehind, hlength]
    cases skip with
    | succ skip =>
      rw [List.cons_append, searchGo, searchGo]
      exact ih (Nat.le_of_succ_le_succ hskip) hclear
    | zero =>
      rw [List.cons_append, searchGo] at hclear
      rw [List.cons_append, searchGo, searchGo, run_append r w (c :: a) b, List.cons_append]
      cases hhead : (run isWord r w (c :: (a ++ b))).head? with
      | none =>
        rw [hhead] at hclear
        rw [List.head?_eq_none_iff.mp hhead]
        exact ih (Nat.zero_le _) hclear
      | some f =>
        rw [hhead] at hclear
        -- the first match stays in the first text, so it is the first one there too
        have hle : i + f.length ≤ i + 1 + a.length := hclear _ List.mem_cons_self (show i < _ by omega)
        obtain ⟨fs, hfs⟩ : ∃ fs, run isWord r w (c :: (a ++ b)) = f :: fs := List.head?_eq_some_iff.mp hhead
        have hkeep : (decide (f.length ≤ (c :: a).length)) = true := by
          rw [List.length_cons]
          exact decide_eq_true (by omega)
        rw [hfs, List.filter_cons, if_pos hkeep, List.head?_cons]
        refine congrArg (_ :: ·) (ih (by omega) fun m hm => ?_)
        exact hclear m (List.mem_cons_of_mem _ hm)

/-- **Two texts are searched one after the other**, where no match goes on from one into the other. -/
theorem search_append {r : Regex} {a b : Str} (ha : behind isWord false a = false)
    (hclear : ∀ m ∈ search isWord r (a ++ b), m.start < a.length → m.stop ≤ a.length) :
    search isWord r (a ++ b) = search isWord r a ++ (search isWord r b).map (Match.moved a.length) := by
  have happend := @searchGo_append isWord r 0 false 0 a b (Nat.zero_le a.length) (by rwa [Nat.zero_add])
  rw [search, happend, ha, searchGo_moved]
  rfl

/-- A match that holds no `c` does not go on behind one. -/
theorem stop_le_of_avoids {r : Regex} {c : Char} (hr : avoids c r = true) {a b : Str} (ha : a.getLast? = some c)
    {m : Match} (h : m ∈ search isWord r (a ++ b)) (hlt : m.start < a.length) : m.stop ≤ a.length := by
  obtain ⟨-, -, w, f, hf, hstop⟩ := exists_found h
  obtain ⟨front, rfl⟩ := List.getLast?_eq_some_iff.mp ha
  rw [List.length_append, List.length_singleton] at hlt ⊢
  by_contra hlong
  refine notMem_take hr hf ?_
  have hdrop : (front ++ [c] ++ b).drop (m.start - 0) = front.drop m.start ++ c :: b := by
    rw [Nat.sub_zero, List.append_assoc, List.drop_append_of_le_length (by omega)]
    rfl
  rw [hdrop, List.take_append, List.mem_append]
  have hpos : ∃ n, f.length - (front.drop m.start).length = n + 1 := by
    rw [List.length_drop]
    exact ⟨f.length - (front.length - m.start) - 1, by omega⟩
  obtain ⟨n, hn⟩ := hpos
  rw [hn, List.take_succ_cons]
  exact Or.inr List.mem_cons_self

end

end Regex

end PartCAD.Lib
