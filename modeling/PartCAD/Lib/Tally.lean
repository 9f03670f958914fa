import Mathlib.Algebra.Ring.Nat
import Mathlib.Data.List.Basic
import Mathlib.Data.List.Nodup
import Mathlib.Tactic.Common

/-!
# Tallies

A tally says for each key how often it was mentioned, with what was said at its first mention.  A
program that keeps one has a table that leads from the keys to entries, and the entries are objects
that it changes in place.

* `tally_append` : the tally of two runs of mentions is the merge of their tallies;
* `Extends` : a step changes only the entries that its table leads to, and new ones;
* `account_tallies`, `Tallies.merge` : what counting a mention and merging another table do;
* `Adds` : a step adds entries that count more than once;
* `Kept.of_extends`, `Kept.trans` : the entries of a table made meanwhile stay as they were left.
-/

namespace PartCAD.Lib

/-! ## Tallies -/

/-- What a key was mentioned with, and how often. -/
structure Entry (ε : Type) where
  data : ε
  count : ℕ

def Tally (κ ε : Type) := κ → Option (Entry ε)

namespace Tally

variable {κ ε : Type}

/-- Two entries of one key: the first one says what it is. -/
def plus : Option (Entry ε) → Option (Entry ε) → Option (Entry ε)
  | some e, some e' => some { e with count := e.count + e'.count }
  | some e, none => some e
  | none, o => o

@[simp]
theorem plus_none (o : Option (Entry ε)) : plus o none = o := by cases o <;> rfl

@[simp]
theorem none_plus (o : Option (Entry ε)) : plus none o = o := rfl

theorem plus_assoc (a b c : Option (Entry ε)) : plus (plus a b) c = plus a (plus b c) := by
  cases a <;> cases b <;> cases c <;> simp [plus, Nat.add_assoc]

/-- How often the key of an entry was mentioned. -/
def times (o : Option (Entry ε)) : ℕ := o.elim 0 Entry.count

theorem times_plus (a b : Option (Entry ε)) : times (plus a b) = times a + times b := by
  cases a <;> cases b <;> simp [plus, times]

theorem data_plus (a b : Option (Entry ε)) :
    (plus a b).map Entry.data = (a.map Entry.data).or (b.map Entry.data) := by
  cases a <;> cases b <;> rfl

def empty : Tally κ ε := fun _ => none

def merge (t u : Tally κ ε) : Tally κ ε := fun k => plus (t k) (u k)

theorem merge_assoc (t u v : Tally κ ε) : (t.merge u).merge v = t.merge (u.merge v) :=
  funext fun _ => plus_assoc _ _ _

@[simp]
theorem merge_empty (t : Tally κ ε) : t.merge empty = t := funext fun _ => plus_none _

@[simp]
theorem empty_merge (t : Tally κ ε) : empty.merge t = t := rfl

variable [DecidableEq κ]

/-- An entry under one key only. -/
def only (k : κ) (o : Option (Entry ε)) : Tally κ ε := fun k' => if k = k' then o else none

/-- The tally of a run of mentions. -/
def of : List (κ × ε) → Tally κ ε
  | [] => empty
  | (k, d) :: mentions => (only k (some ⟨d, 1⟩)).merge (of mentions)

theorem of_append (ms ns : List (κ × ε)) : of (ms ++ ns) = (of ms).merge (of ns) := by
  induction ms with
  | nil => rfl
  | cons m ms ih => simp only [List.cons_append, of, ih, merge_assoc]

theorem times_of (ms : List (κ × ε)) (k : κ) :
    times (of ms k) = ms.countP fun m => m.1 = k := by
  induction ms with
  | nil => rfl
  | cons m ms ih =>
    show times (plus (only m.1 (some ⟨m.2, 1⟩) k) (of ms k)) = _
    rw [times_plus, ih, List.countP_cons, Nat.add_comm]
    by_cases h : m.1 = k <;> simp [only, times, h]

theorem data_of (ms : List (κ × ε)) (k : κ) :
    (of ms k).map Entry.data = (ms.find? fun m => m.1 = k).map Prod.snd := by
  induction ms with
  | nil => rfl
  | cons m ms ih =>
    show (plus (only m.1 (some ⟨m.2, 1⟩) k) (of ms k)).map Entry.data = _
    rw [data_plus, ih, List.find?_cons]
    by_cases h : m.1 = k <;> simp [only, h]

/-- The tally of a run of mentions that count more than once. -/
def sum : List (κ × Entry ε) → Tally κ ε
  | [] => empty
  | (k, e) :: es => (only k (some e)).merge (sum es)

theorem sum_append (es fs : List (κ × Entry ε)) : sum (es ++ fs) = (sum es).merge (sum fs) := by
  induction es with
  | nil => rfl
  | cons e es ih => simp only [List.cons_append, sum, ih, merge_assoc]

theorem times_sum (es : List (κ × Entry ε)) (k : κ) :
    times (sum es k) = ((es.filter fun p => p.1 = k).map fun p => p.2.count).sum := by
  induction es with
  | nil => rfl
  | cons e es ih =>
    show times (plus (only e.1 (some e.2) k) (sum es k)) = _
    rw [times_plus, ih, List.filter_cons]
    by_cases h : e.1 = k <;> simp [only, times, h]

theorem isSome_sum {es : List (κ × Entry ε)} {k : κ} :
    (sum es k).isSome ↔ k ∈ es.map Prod.fst := by
  induction es with
  | nil => simp [sum, empty]
  | cons e es ih =>
    show (plus (only e.1 (some e.2) k) (sum es k)).isSome ↔ _
    rw [List.map_cons, List.mem_cons, ← ih]
    by_cases h : e.1 = k
    · subst h
      cases hsum : sum es e.1 <;> simp [only, plus]
    · simp [only, h, Ne.symm h]

/-- What the tally has on a key was said at a mention of it. -/
theorem exists_of_eq_some {ms : List (κ × ε)} {k : κ} {e : Entry ε} (h : of ms k = some e) :
    (k, e.data) ∈ ms := by
  have hdata := data_of ms k
  rw [h, Option.map_some, eq_comm, Option.map_eq_some_iff] at hdata
  obtain ⟨m, hm, hd⟩ := hdata
  have hk : m.1 = k := by simpa using List.find?_some hm
  rw [← hk, ← hd]
  exact List.mem_of_find?_eq_some hm

end Tally

/-! ## Entries that are changed in place -/

/-- The entries made so far; an address is a position. -/
abbrev Heap (ε : Type) := List (Entry ε)

/-- `entry["count"] += n` -/
def Heap.bump {ε : Type} (h : Heap ε) (a n : ℕ) : Heap ε :=
  h.modify a fun e => { e with count := e.count + n }

/-- The dictionaries in which a program looks up the entry of a key. -/
structure Table (σ κ : Type) [DecidableEq κ] where
  get : σ → κ → Option ℕ
  insert : σ → κ → ℕ → σ
  get_insert : ∀ s k a k', get (insert s k a) k' = if k = k' then some a else get s k'

section

variable {σ κ ε : Type} [DecidableEq κ] (T : Table σ κ)

/-- One more mention of a key: its entry is made with the count 0 when there is none. -/
def account (k : κ) (d : ε) (st : σ × Heap ε) : σ × Heap ε :=
  match T.get st.1 k with
  | some a => (st.1, st.2.bump a 1)
  | none => (T.insert st.1 k st.2.length, Heap.bump (st.2 ++ [⟨d, 0⟩]) st.2.length 1)

/-- The entry at an address is added to that of the key, or copied when there is none. -/
def mergeEntry (st : σ × Heap ε) (p : κ × ℕ) : σ × Heap ε :=
  match st.2[p.2]? with
  | none => st
  | some e =>
    match T.get st.1 p.1 with
    | some a => (st.1, st.2.bump a e.count)
    | none => (T.insert st.1 p.1 st.2.length, st.2 ++ [e])

/-- The tally that a table stands for. -/
def view (st : σ × Heap ε) : Tally κ ε := fun k => (T.get st.1 k).bind fun a => st.2[a]?

/-- The table leads to entries that are there, and to no entry twice. -/
structure Owns (st : σ × Heap ε) : Prop where
  bound : ∀ {k a}, T.get st.1 k = some a → a < st.2.length
  inj : ∀ {k k' a}, T.get st.1 k = some a → T.get st.1 k' = some a → k = k'

/-- From `st` to `st'`, only the entries that the table leads to were changed, and the table leads
to these and new ones. -/
structure Extends (st st' : σ × Heap ε) : Prop where
  owns : Owns T st'
  grows : st.2.length ≤ st'.2.length
  frame : ∀ {a}, a < st.2.length → (∀ k, T.get st.1 k ≠ some a) → st'.2[a]? = st.2[a]?
  fresh : ∀ {k a}, T.get st'.1 k = some a → T.get st.1 k = some a ∨ st.2.length ≤ a

end

section

variable {σ κ ε : Type} [DecidableEq κ] {T : Table σ κ}

theorem Owns.of_empty {s : σ} (hs : ∀ k, T.get s k = none) (h : Heap ε) : Owns T (s, h) := by
  refine ⟨?_, ?_⟩
  · intro k a hk
    rw [hs k] at hk
    cases hk
  · intro k k' a hk
    rw [hs k] at hk
    cases hk

theorem Extends.refl {st : σ × Heap ε} (h : Owns T st) : Extends T st st where
  owns := h
  grows := Nat.le_refl _
  frame := fun _ _ => rfl
  fresh := fun h => Or.inl h

theorem Extends.trans {st st' st'' : σ × Heap ε} (h : Extends T st st') (h' : Extends T st' st'') :
    Extends T st st'' where
  owns := h'.owns
  grows := Nat.le_trans h.grows h'.grows
  frame := by
    intro a ha hout
    have hout' : ∀ k, T.get st'.1 k ≠ some a := by
      intro k hk
      rcases h.fresh hk with hold | hnew
      · exact hout k hold
      · omega
    rw [h'.frame (Nat.lt_of_lt_of_le ha h.grows) hout', h.frame ha hout]
  fresh := by
    intro k a hk
    rcases h'.fresh hk with hold | hnew
    · exact h.fresh hold
    · exact Or.inr (Nat.le_trans h.grows hnew)

theorem getElem?_bump (h : Heap ε) (a n b : ℕ) :
    (h.bump a n)[b]? =
      if a = b then (h[b]?).map fun e => { e with count := e.count + n } else h[b]? := by
  rw [Heap.bump, List.getElem?_modify]
  split <;> simp

theorem length_bump (h : Heap ε) (a n : ℕ) : (h.bump a n).length = h.length :=
  List.length_modify ..

theorem bump_append (h : Heap ε) (d : ε) (n : ℕ) :
    Heap.bump (h ++ [⟨d, 0⟩]) h.length n = h ++ [⟨d, n⟩] := by
  induction h with
  | nil => simp [Heap.bump]
  | cons e h ih => exact congrArg (e :: ·) ih

/-- Adding to the entry that a key leads to. -/
theorem bump_spec {st : σ × Heap ε} (hown : Owns T st) {k : κ} {a : ℕ}
    (hk : T.get st.1 k = some a) (e : Entry ε) :
    Extends T st (st.1, st.2.bump a e.count) ∧
      view T (st.1, st.2.bump a e.count) = (view T st).merge (Tally.only k (some e)) := by
  refine ⟨⟨⟨?_, hown.inj⟩, ?_, ?_, fun h => Or.inl h⟩, ?_⟩
  · intro k' a' h
    rw [length_bump]
    exact hown.bound h
  · exact Nat.le_of_eq (length_bump st.2 a e.count).symm
  · intro b _ hout
    have hne : a ≠ b := by
      rintro rfl
      exact hout k hk
    rw [getElem?_bump, if_neg hne]
  · funext k'
    show (T.get st.1 k').bind _ = Tally.plus ((T.get st.1 k').bind _) _
    by_cases heq : k = k'
    · subst heq
      have hlt := hown.bound hk
      simp [hk, getElem?_bump, Tally.only, Tally.plus, hlt]
    · cases hk' : T.get st.1 k' with
      | none => simp [Tally.only, heq]
      | some b =>
        have hne : a ≠ b := by
          rintro rfl
          exact heq (hown.inj hk hk')
        simp [Tally.only, heq, getElem?_bump, hne]

/-- A new entry for a key that leads to none. -/
theorem insert_spec {st : σ × Heap ε} (hown : Owns T st) {k : κ} (hk : T.get st.1 k = none)
    (e : Entry ε) :
    Extends T st (T.insert st.1 k st.2.length, st.2 ++ [e]) ∧
      view T (T.insert st.1 k st.2.length, st.2 ++ [e]) =
        (view T st).merge (Tally.only k (some e)) := by
  have hget : ∀ k' a, T.get (T.insert st.1 k st.2.length) k' = some a →
      k = k' ∧ a = st.2.length ∨ k ≠ k' ∧ T.get st.1 k' = some a := by
    intro k' a h
    rw [T.get_insert] at h
    split at h
    · rename_i heq
      exact Or.inl ⟨heq, (Option.some.inj h).symm⟩
    · rename_i hne
      exact Or.inr ⟨hne, h⟩
  refine ⟨⟨⟨?_, ?_⟩, ?_, ?_, ?_⟩, ?_⟩
  · intro k' a h
    rw [List.length_append, List.length_singleton]
    rcases hget k' a h with ⟨_, rfl⟩ | ⟨_, hold⟩
    · omega
    · have := hown.bound hold
      omega
  · intro k' k'' a h' h''
    rcases hget k' a h' with ⟨rfl, rfl⟩ | ⟨_, hold'⟩
    · rcases hget k'' _ h'' with ⟨heq, _⟩ | ⟨_, hold''⟩
      · exact heq
      · have := hown.bound hold''
        omega
    · rcases hget k'' a h'' with ⟨_, rfl⟩ | ⟨_, hold''⟩
      · have := hown.bound hold'
        omega
      · exact hown.inj hold' hold''
  · rw [List.length_append]
    omega
  · intro a ha _
    exact List.getElem?_append_left ha
  · intro k' a h
    rcases hget k' a h with ⟨_, rfl⟩ | ⟨_, hold⟩
    · exact Or.inr (Nat.le_refl _)
    · exact Or.inl hold
  · funext k'
    show (T.get (T.insert st.1 k st.2.length) k').bind _ = Tally.plus ((T.get st.1 k').bind _) _
    rw [T.get_insert]
    by_cases heq : k = k'
    · subst heq
      simp [hk, Tally.only]
    · cases hk' : T.get st.1 k' with
      | none => simp [Tally.only, heq]
      | some b =>
        have hlt := hown.bound hk'
        simp [Tally.only, heq, List.getElem?_append_left hlt]

/-- From `st` to `st'`, the table counted the mentions `ms`. -/
structure Tallies (T : Table σ κ) (st : σ × Heap ε) (ms : List (κ × ε)) (st' : σ × Heap ε) :
    Prop extends Extends T st st' where
  view_eq : view T st' = (view T st).merge (Tally.of ms)

theorem Tallies.refl {st : σ × Heap ε} (h : Owns T st) : Tallies T st [] st :=
  ⟨Extends.refl h, (Tally.merge_empty _).symm⟩

theorem Tallies.trans {st st' st'' : σ × Heap ε} {ms ns : List (κ × ε)} (h : Tallies T st ms st')
    (h' : Tallies T st' ns st'') : Tallies T st (ms ++ ns) st'' where
  toExtends := h.toExtends.trans h'.toExtends
  view_eq := by rw [h'.view_eq, h.view_eq, Tally.merge_assoc, Tally.of_append]

/-- Counting a mention. -/
theorem account_tallies {st : σ × Heap ε} (hown : Owns T st) (k : κ) (d : ε) :
    Tallies T st [(k, d)] (account T k d st) := by
  have hof : Tally.of [(k, d)] = Tally.only k (some ⟨d, 1⟩) := Tally.merge_empty _
  unfold account
  cases hk : T.get st.1 k with
  | some a =>
    obtain ⟨hext, hview⟩ := bump_spec hown hk ⟨d, 1⟩
    exact ⟨hext, hof ▸ hview⟩
  | none =>
    simp only [bump_append]
    obtain ⟨hext, hview⟩ := insert_spec hown hk ⟨d, 1⟩
    exact ⟨hext, hof ▸ hview⟩

/-- Counting the mentions that some things make. -/
theorem foldl_account_tallies {β : Type} (f : β → κ × ε) (bs : List β) {st : σ × Heap ε}
    (hown : Owns T st) :
    Tallies T st (bs.map f) (bs.foldl (fun st b => account T (f b).1 (f b).2 st) st) := by
  induction bs generalizing st with
  | nil => exact Tallies.refl hown
  | cons b bs ih =>
    have hstep := account_tallies hown (f b).1 (f b).2
    exact hstep.trans (ih hstep.owns)

/-! ## Merging tables -/

/-- The tally of the entries at some addresses. -/
def entriesAt (h : Heap ε) : List (κ × ℕ) → Tally κ ε
  | [] => Tally.empty
  | (k, a) :: ps => (Tally.only k h[a]?).merge (entriesAt h ps)

theorem entriesAt_congr {h h' : Heap ε} {ps : List (κ × ℕ)}
    (heq : ∀ p ∈ ps, h'[p.2]? = h[p.2]?) : entriesAt h' ps = entriesAt h ps := by
  induction ps with
  | nil => rfl
  | cons p ps ih =>
    rw [entriesAt, entriesAt, heq p (by simp), ih fun q hq => heq q (by simp [hq])]

/-- Where the addresses are those that a table has for its keys, it is the tally of the table. -/
theorem entriesAt_eq_view {s : σ} {h : Heap ε} {ps : List (κ × ℕ)}
    (hnodup : (ps.map Prod.fst).Nodup) (hps : ∀ k a, T.get s k = some a ↔ (k, a) ∈ ps) :
    entriesAt h ps = view T (s, h) := by
  have hat : ∀ ps : List (κ × ℕ), (ps.map Prod.fst).Nodup → ∀ k,
      (∀ a, (k, a) ∈ ps → entriesAt h ps k = h[a]?) ∧
        (k ∉ ps.map Prod.fst → entriesAt h ps k = none) := by
    intro ps hnodup k
    induction ps with
    | nil => exact ⟨fun a ha => by simp at ha, fun _ => rfl⟩
    | cons p ps ih =>
      obtain ⟨hp, htail⟩ := List.nodup_cons.1 hnodup
      have hcons : entriesAt h (p :: ps) k =
          Tally.plus (if p.1 = k then h[p.2]? else none) (entriesAt h ps k) := rfl
      rw [hcons]
      refine ⟨?_, ?_⟩
      · intro a ha
        rcases List.mem_cons.1 ha with rfl | hmem
        · rw [if_pos rfl, (ih htail).2 hp, Tally.plus_none]
        · have hne : p.1 ≠ k := by
            rintro rfl
            exact hp (List.mem_map.2 ⟨_, hmem, rfl⟩)
          rw [if_neg hne, (ih htail).1 a hmem, Tally.none_plus]
      · intro hk
        rw [List.map_cons, List.mem_cons, not_or] at hk
        rw [if_neg (Ne.symm hk.1), (ih htail).2 hk.2, Tally.none_plus]
  funext k
  show _ = (T.get s k).bind _
  cases hk : T.get s k with
  | some a => exact (hat ps hnodup k).1 a ((hps k a).1 hk)
  | none =>
    refine (hat ps hnodup k).2 fun hmem => ?_
    obtain ⟨p, hp, rfl⟩ := List.mem_map.1 hmem
    rw [(hps p.1 p.2).2 hp] at hk
    cases hk

/-- Adding or copying one entry that the table does not lead to. -/
theorem mergeEntry_spec {st : σ × Heap ε} (hown : Owns T st) {p : κ × ℕ}
    (hp : p.2 < st.2.length) :
    Extends T st (mergeEntry T st p) ∧
      view T (mergeEntry T st p) = (view T st).merge (entriesAt st.2 [p]) := by
  have hat : entriesAt st.2 [p] = Tally.only p.1 (some st.2[p.2]) := by
    funext k
    show Tally.plus (if p.1 = k then st.2[p.2]? else none) none = _
    rw [Tally.plus_none, List.getElem?_eq_getElem hp]
    rfl
  rw [hat]
  unfold mergeEntry
  simp only [List.getElem?_eq_getElem hp]
  cases hk : T.get st.1 p.1 with
  | some a => exact bump_spec hown hk _
  | none => exact insert_spec hown hk _

/-- Merging the entries at addresses that the table does not lead to. -/
theorem foldl_mergeEntry_spec {ps : List (κ × ℕ)} {st : σ × Heap ε} (hown : Owns T st)
    (hps : ∀ p ∈ ps, p.2 < st.2.length ∧ ∀ k, T.get st.1 k ≠ some p.2) :
    Extends T st (ps.foldl (mergeEntry T) st) ∧
      view T (ps.foldl (mergeEntry T) st) = (view T st).merge (entriesAt st.2 ps) := by
  induction ps generalizing st with
  | nil => exact ⟨Extends.refl hown, (Tally.merge_empty _).symm⟩
  | cons p ps ih =>
    obtain ⟨hstep, hview⟩ := mergeEntry_spec hown (hps p (by simp)).1
    have hkeep : ∀ q ∈ ps, (mergeEntry T st p).2[q.2]? = st.2[q.2]? := by
      intro q hq
      obtain ⟨hlt, hout⟩ := hps q (by simp [hq])
      exact hstep.frame hlt hout
    have hps' : ∀ q ∈ ps, q.2 < (mergeEntry T st p).2.length ∧
        ∀ k, T.get (mergeEntry T st p).1 k ≠ some q.2 := by
      intro q hq
      obtain ⟨hlt, hout⟩ := hps q (by simp [hq])
      refine ⟨Nat.lt_of_lt_of_le hlt hstep.grows, fun k hk => ?_⟩
      rcases hstep.fresh hk with hold | hnew
      · exact hout k hold
      · omega
    obtain ⟨hrest, hview'⟩ := ih hstep.owns hps'
    refine ⟨hstep.trans hrest, ?_⟩
    have hcons : entriesAt st.2 (p :: ps) = (entriesAt st.2 [p]).merge (entriesAt st.2 ps) := by
      rw [entriesAt, entriesAt, entriesAt, Tally.merge_empty]
    rw [List.foldl_cons, hview', hview, entriesAt_congr hkeep, Tally.merge_assoc, hcons]

/-! ## A table made meanwhile -/

/-- A table is made, from an empty one, while another one is under way: the other one is still
owned, and leads to none of the entries of the new one. -/
theorem Extends.child {st : σ × Heap ε} (hown : Owns T st) {s : σ} (hs : ∀ k, T.get s k = none)
    {other : σ × Heap ε} (h : Extends T (s, st.2) other) :
    Extends T st (st.1, other.2) ∧ view T (st.1, other.2) = view T st ∧
      ∀ {k a}, T.get other.1 k = some a → st.2.length ≤ a := by
  have hkeep : ∀ {a}, a < st.2.length → other.2[a]? = st.2[a]? := by
    intro a ha
    refine h.frame ha fun k hk => ?_
    rw [hs k] at hk
    cases hk
  refine ⟨⟨⟨?_, hown.inj⟩, h.grows, ?_, fun h => Or.inl h⟩, ?_, ?_⟩
  · intro k a hk
    exact Nat.lt_of_lt_of_le (hown.bound hk) h.grows
  · intro a ha _
    exact hkeep ha
  · funext k
    show (T.get st.1 k).bind _ = (T.get st.1 k).bind _
    cases hk : T.get st.1 k with
    | none => rfl
    | some a => exact hkeep (hown.bound hk)
  · intro k a hk
    rcases h.fresh hk with hold | hnew
    · rw [hs k] at hold
      cases hold
    · exact hnew

/-- Merging a table made meanwhile. -/
theorem Extends.merge {st : σ × Heap ε} (hown : Owns T st) {s : σ} (hs : ∀ k, T.get s k = none)
    {other : σ × Heap ε} (h : Extends T (s, st.2) other) {ps : List (κ × ℕ)}
    (hps : ∀ k a, T.get other.1 k = some a ↔ (k, a) ∈ ps) :
    Extends T (st.1, other.2) (ps.foldl (mergeEntry T) (st.1, other.2)) ∧
      view T (ps.foldl (mergeEntry T) (st.1, other.2)) =
        (view T (st.1, other.2)).merge (entriesAt other.2 ps) := by
  obtain ⟨hext, -, hfresh⟩ := Extends.child hown hs h
  refine foldl_mergeEntry_spec hext.owns fun p hp => ?_
  have hget := (hps p.1 p.2).2 hp
  refine ⟨h.owns.bound hget, fun k hk => ?_⟩
  have hlt := hown.bound hk
  have hle := hfresh hget
  omega

/-- Merging a table made meanwhile counts what it counted. -/
theorem Tallies.merge {st : σ × Heap ε} (hown : Owns T st) {s : σ} (hs : ∀ k, T.get s k = none)
    {other : σ × Heap ε} {ms : List (κ × ε)} (h : Tallies T (s, st.2) ms other)
    {ps : List (κ × ℕ)} (hnodup : (ps.map Prod.fst).Nodup)
    (hps : ∀ k a, T.get other.1 k = some a ↔ (k, a) ∈ ps) :
    Tallies T st ms (ps.foldl (mergeEntry T) (st.1, other.2)) := by
  obtain ⟨hext, hview, -⟩ := Extends.child hown hs h.toExtends
  obtain ⟨hmerge, hmergeView⟩ := Extends.merge hown hs h.toExtends hps
  have hempty : view T (s, st.2) = Tally.empty := by
    funext k
    show (T.get s k).bind _ = _
    rw [hs k]
    rfl
  have hother : entriesAt other.2 ps = Tally.of ms := by
    rw [entriesAt_eq_view hnodup hps]
    show view T other = _
    rw [h.view_eq, hempty, Tally.empty_merge]
  exact ⟨hext.trans hmerge, by rw [hmergeView, hview, hother]⟩

/-- From `st` to `st'`, the entries `es` were added to those of their keys. -/
structure Adds (T : Table σ κ) (st : σ × Heap ε) (es : List (κ × Entry ε)) (st' : σ × Heap ε) :
    Prop extends Extends T st st' where
  view_eq : view T st' = (view T st).merge (Tally.sum es)

theorem Adds.refl {st : σ × Heap ε} (h : Owns T st) : Adds T st [] st :=
  ⟨Extends.refl h, (Tally.merge_empty _).symm⟩

theorem Adds.trans {st st' st'' : σ × Heap ε} {es fs : List (κ × Entry ε)} (h : Adds T st es st')
    (h' : Adds T st' fs st'') : Adds T st (es ++ fs) st'' where
  toExtends := h.toExtends.trans h'.toExtends
  view_eq := by rw [h'.view_eq, h.view_eq, Tally.merge_assoc, Tally.sum_append]

/-- An entry that the table does not lead to. -/
theorem alloc_adds {st : σ × Heap ε} (hown : Owns T st) (e : Entry ε) :
    Adds T st [] (st.1, st.2 ++ [e]) := by
  refine ⟨⟨⟨?_, hown.inj⟩, ?_, ?_, fun h => Or.inl h⟩, ?_⟩
  · intro k a hk
    have hlt := hown.bound hk
    rw [List.length_append]
    omega
  · rw [List.length_append]
    omega
  · intro a ha _
    exact List.getElem?_append_left ha
  · funext k
    show (T.get st.1 k).bind _ = Tally.plus ((T.get st.1 k).bind _) none
    rw [Tally.plus_none]
    cases hk : T.get st.1 k with
    | none => rfl
    | some a => exact List.getElem?_append_left (hown.bound hk)

/-- The table `st` leads to entries from the address `n` on, which are in `h` as they were left. -/
structure Kept (T : Table σ κ) (n : ℕ) (st : σ × Heap ε) (h : Heap ε) : Prop where
  grows : st.2.length ≤ h.length
  bound : ∀ {k a}, T.get st.1 k = some a → n ≤ a ∧ a < st.2.length
  same : ∀ {k a}, T.get st.1 k = some a → h[a]? = st.2[a]?

/-- A table made meanwhile is kept, whatever the first table is used for from then on. -/
theorem Kept.of_extends {st : σ × Heap ε} (hown : Owns T st) {s : σ}
    (hs : ∀ k, T.get s k = none) {other : σ × Heap ε} (h : Extends T (s, st.2) other)
    {last : σ × Heap ε} (hlast : Extends T (st.1, other.2) last) :
    Kept T st.2.length other last.2 where
  grows := hlast.grows
  bound hk := ⟨(Extends.child hown hs h).2.2 hk, h.owns.bound hk⟩
  same := by
    intro k a hk
    refine hlast.frame (h.owns.bound hk) fun k' hk' => ?_
    have hle := (Extends.child hown hs h).2.2 hk
    have hlt := hown.bound hk'
    omega

/-- What was kept while a table was made is kept from then on. -/
theorem Kept.trans {st : σ × Heap ε} (hown : Owns T st) {n : ℕ} (hn : n ≤ st.2.length)
    {other : σ × Heap ε} {kept : σ × Heap ε} (hkept : Kept T st.2.length kept other.2)
    {last : σ × Heap ε} (hlast : Extends T (st.1, other.2) last) : Kept T n kept last.2 where
  grows := Nat.le_trans hkept.grows hlast.grows
  bound hk := ⟨Nat.le_trans hn (hkept.bound hk).1, (hkept.bound hk).2⟩
  same := by
    intro k a hk
    obtain ⟨hle, hlt⟩ := hkept.bound hk
    rw [← hkept.same hk]
    refine hlast.frame (Nat.lt_of_lt_of_le hlt hkept.grows) fun k' hk' => ?_
    have hlt' := hown.bound hk'
    omega

theorem Kept.mono {n m : ℕ} (hnm : n ≤ m) {st : σ × Heap ε} {h : Heap ε} (hkept : Kept T m st h) :
    Kept T n st h :=
  ⟨hkept.grows, fun hk => ⟨Nat.le_trans hnm (hkept.bound hk).1, (hkept.bound hk).2⟩, hkept.same⟩

theorem Kept.view_eq {n : ℕ} {st : σ × Heap ε} {h : Heap ε} (hkept : Kept T n st h) :
    view T (st.1, h) = view T st := by
  funext k
  show (T.get st.1 k).bind _ = (T.get st.1 k).bind _
  cases hk : T.get st.1 k with
  | none => rfl
  | some a => exact hkept.same hk

end

end PartCAD.Lib
