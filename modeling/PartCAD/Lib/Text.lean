import Mathlib.Algebra.Ring.Int.Defs
import Mathlib.Algebra.Ring.Nat
import Mathlib.Data.Char
import Mathlib.Data.List.Infix
import Mathlib.Data.List.Lex
import Mathlib.Tactic.Common

/-!
# Python strings

A Python string is the list of its characters.  The methods used by the modelled code, with the
lemmas that say what they do to a string built by concatenation:

* `startswith`, `partition`, `split`, `join`, `replace`, `encode`, `rstrip`;
* `split_join` and `join_split` : splitting undoes joining when no piece holds the separator.
-/

namespace PartCAD.Lib

/-- A Python string: its characters in order. -/
abbrev Str := List Char

instance : LawfulBEq Str := inferInstance

/-- Python bytes. -/
abbrev Bytes := List UInt8

namespace Text

/-! ## `startswith` -/

/-- `s.startswith(p)` -/
def startswith (s p : Str) : Bool := p.isPrefixOf s

theorem startswith_iff {s p : Str} : startswith s p = true ↔ p <+: s :=
  List.isPrefixOf_iff_prefix

@[simp]
theorem startswith_append (p t : Str) : startswith (p ++ t) p = true :=
  startswith_iff.2 (List.prefix_append p t)

/-! ## `partition` -/

/-- `s.partition(c)`, without the separator in the middle: what stands before the first `c`, and
what stands after it. -/
@[grind =]
def partition (c : Char) : Str → Str × Str
  | [] => ([], [])
  | a :: s => if a = c then ([], s) else (a :: (partition c s).1, (partition c s).2)

theorem partition_of_notMem {c : Char} {s : Str} (h : c ∉ s) : partition c s = (s, []) := by
  induction s with
  | nil => rfl
  | cons a s ih =>
    simp only [List.mem_cons, not_or] at h
    simp [partition, Ne.symm h.1, ih h.2]

theorem partition_append_cons {c : Char} {s : Str} (t : Str) (h : c ∉ s) :
    partition c (s ++ c :: t) = (s, t) := by
  induction s with
  | nil => simp [partition]
  | cons a s ih =>
    simp only [List.mem_cons, not_or] at h
    simp [partition, Ne.symm h.1, ih h.2]

theorem notMem_partition_fst (c : Char) (s : Str) : c ∉ (partition c s).1 := by
  induction s with
  | nil => simp [partition]
  | cons a s ih =>
    by_cases h : a = c
    · simp [partition, h]
    · simp [partition, h, ih, Ne.symm h]

/-- A string with the separator in it is the two halves around it. -/
theorem partition_eq {c : Char} {s : Str} (h : c ∈ s) :
    s = (partition c s).1 ++ c :: (partition c s).2 := by
  induction s with
  | nil => simp at h
  | cons a s ih =>
    by_cases hac : a = c
    · simp [partition, hac]
    · have hs : c ∈ s := by simpa [Ne.symm hac] using h
      simp only [partition, hac, if_false, List.cons_append]
      rw [← ih hs]

/-! ## `split` and `join` -/

/-- `s.split(c)` -/
def split (c : Char) (s : Str) : List Str := s.splitOn c

/-- `c.join(pieces)` for a separator of one character. -/
@[grind =]
def join (c : Char) : List Str → Str
  | [] => []
  | [p] => p
  | p :: q :: ps => p ++ c :: join c (q :: ps)

theorem join_cons_of_ne_nil (c : Char) (p : Str) {ps : List Str} (h : ps ≠ []) :
    join c (p :: ps) = p ++ c :: join c ps := by
  obtain ⟨q, qs, rfl⟩ := List.exists_cons_of_ne_nil h
  rfl

theorem join_eq_intercalate (c : Char) (ps : List Str) : join c ps = [c].intercalate ps := by
  induction ps with
  | nil => rfl
  | cons p ps ih =>
    cases ps with
    | nil => simp [join]
    | cons q qs => simp [join, ih]

theorem split_ne_nil (c : Char) (s : Str) : split c s ≠ [] := List.splitOn_ne_nil c s

/-- Splitting undoes joining. -/
theorem split_join {c : Char} {ps : List Str} (h : ∀ p ∈ ps, c ∉ p) (hne : ps ≠ []) :
    split c (join c ps) = ps := by
  rw [split, join_eq_intercalate]
  exact List.splitOn_intercalate c h hne

/-- Joining undoes splitting. -/
theorem join_split (c : Char) (s : Str) : join c (split c s) = s := by
  rw [split, join_eq_intercalate]
  exact List.intercalate_splitOn c

theorem split_append_cons (c : Char) (s t : Str) :
    split c (s ++ c :: t) = split c s ++ split c t :=
  List.splitOn_append_cons_self s t

theorem split_of_notMem {c : Char} {s : Str} (h : c ∉ s) : split c s = [s] :=
  List.splitOn_eq_singleton h

theorem split_of_mem {c : Char} {s : Str} (h : c ∈ s) :
    split c s = (partition c s).1 :: split c (partition c s).2 := by
  conv_lhs => rw [partition_eq h]
  rw [split_append_cons, split_of_notMem (notMem_partition_fst c s)]
  rfl

theorem notMem_of_mem_split {c : Char} {s p : Str} (h : p ∈ split c s) : c ∉ p := by
  induction hn : s.length using Nat.strongRecOn generalizing s with
  | ind n ih =>
    by_cases hc : c ∈ s
    · rw [split_of_mem hc] at h
      rcases List.mem_cons.1 h with rfl | h
      · exact notMem_partition_fst c s
      · have hlen := congrArg List.length (partition_eq hc)
        simp only [List.length_append, List.length_cons] at hlen
        exact ih (partition c s).2.length (by omega) h rfl
    · rw [split_of_notMem hc] at h
      rwa [List.mem_singleton.1 h]

theorem mem_join {c x : Char} {ps : List Str} (h : x ∈ join c ps) : x = c ∨ ∃ p ∈ ps, x ∈ p := by
  induction ps with
  | nil => simp [join] at h
  | cons p ps ih =>
    by_cases hps : ps = []
    · subst hps
      exact Or.inr ⟨p, by simp, by simpa [join] using h⟩
    · rw [join_cons_of_ne_nil c p hps] at h
      rcases List.mem_append.1 h with h | h
      · exact Or.inr ⟨p, by simp, h⟩
      · rcases List.mem_cons.1 h with h | h
        · exact Or.inl h
        · obtain h | ⟨q, hq, hx⟩ := ih h
          · exact Or.inl h
          · exact Or.inr ⟨q, by simp [hq], hx⟩

theorem mem_join_of_mem {c x : Char} {ps : List Str} {p : Str} (hp : p ∈ ps) (hx : x ∈ p) :
    x ∈ join c ps := by
  induction ps with
  | nil => simp at hp
  | cons q ps ih =>
    by_cases hps : ps = []
    · subst hps
      obtain rfl : p = q := by simpa using hp
      simpa [join] using hx
    · rw [join_cons_of_ne_nil c q hps]
      rcases List.mem_cons.1 hp with rfl | hp
      · exact List.mem_append_left _ hx
      · exact List.mem_append_right _ (List.mem_cons_of_mem _ (ih hp))

theorem join_eq_nil {c : Char} {ps : List Str} (hps : ∀ p ∈ ps, p ≠ []) (h : join c ps = []) :
    ps = [] := by
  cases ps with
  | nil => rfl
  | cons p ps =>
    obtain ⟨a, p', hp⟩ := List.exists_cons_of_ne_nil (hps p (by simp))
    have ha : a ∈ join c (p :: ps) := mem_join_of_mem (p := p) (by simp) (by simp [hp])
    rw [h] at ha
    exact absurd ha (by simp)

/-- Joining is injective on lists of pieces that hold no separator. -/
theorem join_injective {c : Char} {ps qs : List Str} (hp : ∀ p ∈ ps, p ≠ [] ∧ c ∉ p)
    (hq : ∀ q ∈ qs, q ≠ [] ∧ c ∉ q) (h : join c ps = join c qs) : ps = qs := by
  by_cases hps : ps = []
  · subst hps
    exact (join_eq_nil (fun q hq' => (hq q hq').1) h.symm).symm
  · have hqs : qs ≠ [] := by
      rintro rfl
      exact hps (join_eq_nil (fun p hp' => (hp p hp').1) h)
    rw [← split_join (fun p hp' => (hp p hp').2) hps, h, split_join (fun q hq' => (hq q hq').2) hqs]

theorem join_append (c : Char) {ps qs : List Str} (hp : ps ≠ []) (hq : qs ≠ []) :
    join c (ps ++ qs) = join c ps ++ c :: join c qs := by
  induction ps with
  | nil => exact absurd rfl hp
  | cons p ps ih =>
    by_cases h : ps = []
    · subst h
      simp [join_cons_of_ne_nil c p hq, join]
    · rw [List.cons_append, join_cons_of_ne_nil c p (by simp [h]), ih h,
        join_cons_of_ne_nil c p h]
      simp

/-! ## `replace` -/

/-- `s.replace(old, new)` for a non-empty `old`; the number counts the characters of an
occurrence that are still to be passed over. -/
@[grind =]
def replaceGo (old new : Str) : ℕ → Str → Str
  | _, [] => []
  | n + 1, _ :: s => replaceGo old new n s
  | 0, a :: s =>
    if old.isPrefixOf (a :: s) then new ++ replaceGo old new (old.length - 1) s
    else a :: replaceGo old new 0 s

/-- `s.replace(old, new)` -/
def replace (old new s : Str) : Str := replaceGo old new 0 s

/-- A string without the text looked for is left alone. -/
theorem replace_of_not_infix {old new s : Str} (h : ¬ old <:+: s) : replace old new s = s := by
  unfold replace
  induction s with
  | nil => rfl
  | cons a s ih =>
    have hp : old.isPrefixOf (a :: s) = false := by
      rw [Bool.eq_false_iff, ne_eq, List.isPrefixOf_iff_prefix]
      exact fun hpre => h hpre.isInfix
    have hs : ¬ old <:+: s := fun hin => h (hin.trans (List.suffix_cons a s).isInfix)
    simp [replaceGo, hp, ih hs]

/-- One character is replaced wherever it stands. -/
theorem replace_singleton (c : Char) (new s : Str) :
    replace [c] new s = s.flatMap fun x => if x = c then new else [x] := by
  unfold replace
  induction s with
  | nil => rfl
  | cons a s ih =>
    by_cases hac : a = c
    · subst hac
      simp [replaceGo, ih]
    · have hp : [c].isPrefixOf (a :: s) = false := by simp [List.isPrefixOf, Ne.symm hac]
      simp [replaceGo, hac, ih, Ne.symm hac]

theorem mem_of_mem_replaceGo {old new : Str} {x : Char} : ∀ {n : ℕ} {s : Str},
    x ∈ replaceGo old new n s → x ∈ s ∨ x ∈ new
  | _, [], h => by simp [replaceGo] at h
  | n + 1, a :: s, h => by
    rw [replaceGo] at h
    rcases mem_of_mem_replaceGo h with h | h
    · exact Or.inl (List.mem_cons_of_mem _ h)
    · exact Or.inr h
  | 0, a :: s, h => by
    rw [replaceGo] at h
    split at h
    · rcases List.mem_append.1 h with h | h
      · exact Or.inr h
      · exact (mem_of_mem_replaceGo h).imp (List.mem_cons_of_mem _) id
    · rcases List.mem_cons.1 h with rfl | h
      · exact Or.inl (List.mem_cons_self ..)
      · exact (mem_of_mem_replaceGo h).imp (List.mem_cons_of_mem _) id

/-- A replacement never reaches over a character that the text looked for does not hold. -/
theorem replaceGo_append_cons {old new : Str} {a : Char} (ha : a ∉ old) (hne : old ≠ []) (t : Str) :
    ∀ (n : ℕ) (s : Str), n ≤ s.length →
      replaceGo old new n (s ++ a :: t) = replaceGo old new n s ++ a :: replaceGo old new 0 t
  | 0, [], _ => by
    obtain ⟨b, old', rfl⟩ := List.exists_cons_of_ne_nil hne
    have hb : b ≠ a := fun h => ha (by simp [h])
    simp [replaceGo, List.isPrefixOf, hb]
  | n + 1, b :: s, hn => by
    simp only [List.cons_append, replaceGo]
    exact replaceGo_append_cons ha hne t n s (by simpa using hn)
  | 0, b :: s, _ => by
    have hiff : old.isPrefixOf (b :: s ++ a :: t) = old.isPrefixOf (b :: s) := by
      rw [Bool.eq_iff_iff, List.isPrefixOf_iff_prefix, List.isPrefixOf_iff_prefix]
      constructor
      · intro h
        rcases Nat.lt_or_ge (b :: s).length old.length with hlt | hle
        · -- an occurrence reaching past `s` would hold `a`
          exfalso
          apply ha
          have hpre : b :: s ++ [a] <+: old := by
            refine List.prefix_of_prefix_length_le ?_ h (by simp at hlt ⊢; omega)
            exact ⟨t, by simp⟩
          exact hpre.subset (by simp)
        · exact List.prefix_of_prefix_length_le h (List.prefix_append _ _) hle
      · exact fun h => h.trans (List.prefix_append _ _)
    rw [List.cons_append] at hiff
    simp only [List.cons_append, replaceGo, hiff]
    split
    · rename_i hp
      have hlen := (List.isPrefixOf_iff_prefix.1 hp).length_le
      rw [replaceGo_append_cons ha hne t _ s (by simp at hlen; omega), List.append_assoc]
    · rw [replaceGo_append_cons ha hne t 0 s (Nat.zero_le _), List.cons_append]

theorem replace_append_cons {old new : Str} {a : Char} (ha : a ∉ old) (hne : old ≠ [])
    (s t : Str) : replace old new (s ++ a :: t) = replace old new s ++ a :: replace old new t :=
  replaceGo_append_cons ha hne t 0 s (Nat.zero_le _)

/-! ## Encoding -/

/-- `s.encode()` -/
def encode (s : Str) : Bytes := s.flatMap String.utf8EncodeChar

theorem encode_append (s t : Str) : encode (s ++ t) = encode s ++ encode t :=
  List.flatMap_append

theorem encode_flatten (ss : List Str) : encode ss.flatten = ss.flatMap encode := by
  induction ss with
  | nil => rfl
  | cons s ss ih => rw [List.flatten_cons, encode_append, ih, List.flatMap_cons]

/-! ## `rstrip` -/

/-- `s.rstrip(c)` -/
def rstrip (c : Char) (s : Str) : Str := (s.reverse.dropWhile (· == c)).reverse

theorem rstrip_of_getLast {c : Char} {s : Str} (h : s.getLast? ≠ some c) : rstrip c s = s := by
  unfold rstrip
  cases hs : s.reverse with
  | nil => rw [List.reverse_eq_nil_iff.1 hs]; rfl
  | cons a t =>
    have ha : a ≠ c := by
      rintro rfl
      rw [← List.head?_reverse, hs] at h
      exact h rfl
    rw [List.dropWhile_cons_of_neg (by simpa using ha), ← hs, List.reverse_reverse]

/-- `s.strip(c)` -/
def stripChar (c : Char) (s : Str) : Str := rstrip c (s.dropWhile (· == c))

/-! ## Letters -/

theorem toLower_of_not_upper {c : Char} (h : ¬ (65 ≤ c.toNat ∧ c.toNat ≤ 90)) : c.toLower = c := dif_neg h

theorem toNat_toLower {c : Char} (h : 65 ≤ c.toNat ∧ c.toNat ≤ 90) : c.toLower.toNat = c.toNat + 32 := by
  have hval : c.toLower.val = c.val + 32 := congrArg Char.val (dif_pos h)
  have hle : c.val.toNat ≤ 90 := h.2
  show c.toLower.val.toNat = c.val.toNat + 32
  rw [hval, UInt32.toNat_add]
  exact Nat.mod_eq_of_lt (Nat.lt_of_le_of_lt (Nat.add_le_add_right hle 32) (by decide))

/-! ## `str(n)` -/

/-- Two numbers are not written alike. -/
theorem toDigits_injective {m n : ℕ} (h : Nat.toDigits 10 m = Nat.toDigits 10 n) : m = n := by
  have hm := Nat.ofDigitChars_toDigits (b := 10) (n := m) (by decide) (by decide)
  rw [h, Nat.ofDigitChars_toDigits (by decide) (by decide)] at hm
  exact hm.symm

end Text

end PartCAD.Lib
