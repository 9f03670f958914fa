import PartCAD.Lib.Text
import PartCAD.Lib.Walk

/-!
# The tiers of a cache

A cache is a list of tiers, the nearest first.  `readDataAsync` takes an entry from the first tier
that has it, `containsDataAsync` asks the tiers one after the other whether they hold it.

* `get?_readDataAsync` : a read gives the nearest entry, with or without bytes in it;
* `get?_containsDataAsync` : the check looks for an entry with bytes in it on any tier;
* `contains_agrees_iff` : the two agree on a key unless its nearest entry is empty and a later one
  is not.
-/

namespace PartCAD.Cache

open PartCAD.Lib PartCAD.Lib.Walk

/-! ## Tiers -/

/-- The classes of tiers. -/
inductive BackendKind where
  | files
  | memcache
  | s3
  deriving DecidableEq

/-- A tier with what is stored in it. -/
structure Backend where
  kind : BackendKind
  entries : Str → Option Bytes
  reachable : Bool

namespace Backend

/-- What a request for one entry gets. -/
def held (b : Backend) (name : Str) : Option Bytes :=
  if b.reachable then b.entries name else none

/-- `_read_async`; `none` is the exception of a tier that cannot be reached.  The tier in an object
store meets it entry by entry. -/
def rawReadAsync (b : Backend) (names : List Str) : Option (Dict Str Bytes) :=
  match b.kind with
  | .files | .memcache =>
    if b.reachable then
      some (Dict.ofPairs (names.filterMap fun name => (b.entries name).map (name, ·)))
    else none
  | .s3 => some (Dict.ofPairs (names.filterMap fun name => (b.held name).map (name, ·)))

/-- `bool(data)` -/
def truthy : Option Bytes → Bool
  | none => false
  | some data => data ≠ []

/-- `_contains_async`: by reading, unless the tier can be asked for the size of an entry. -/
def rawContainsAsync (b : Backend) (names : List Str) : Option (Dict Str Bool) :=
  match b.kind with
  | .memcache =>
    (b.rawReadAsync names).map fun stored =>
      Dict.ofPairs (names.map fun name => (name, truthy (stored.get? name)))
  | .files | .s3 =>
    some (Dict.ofPairs (names.map fun name =>
      (name, match b.held name with
        | none => false
        | some data => decide (0 < data.length))))

def readAsync (b : Backend) (names : List Str) : Dict Str Bytes :=
  (b.rawReadAsync names).getD Dict.empty

def containsAsync (b : Backend) (names : List Str) : Dict Str Bool :=
  if names = [] then Dict.empty else (b.rawContainsAsync names).getD Dict.empty

theorem get?_readAsync (b : Backend) {names : List Str} {name : Str} (h : name ∈ names) :
    (b.readAsync names).get? name = b.held name := by
  have hpairs : ∀ f : Str → Option Bytes,
      (Dict.ofPairs (names.filterMap fun name => (f name).map (name, ·))).get? name = f name := by
    intro f
    rw [Dict.get?_ofPairs_filterMap, if_pos h]
  unfold readAsync rawReadAsync
  cases hk : b.kind with
  | s3 => exact hpairs b.held
  | files | memcache =>
    by_cases hr : b.reachable = true
    · simp only [hr, if_true, Option.getD_some, hpairs, held]
    · simp [hr, held]

theorem get?_containsAsync (b : Backend) {names : List Str} {name : Str} (h : name ∈ names) :
    ((b.containsAsync names).get? name).getD false = truthy (b.held name) := by
  have hne : names ≠ [] := List.ne_nil_of_mem h
  unfold containsAsync rawContainsAsync
  rw [if_neg hne]
  cases hk : b.kind with
  | memcache =>
    have hread := get?_readAsync b h
    unfold readAsync at hread
    cases hraw : b.rawReadAsync names with
    | none =>
      rw [hraw] at hread
      rw [← hread]
      rfl
    | some stored =>
      rw [hraw, Option.getD_some] at hread
      simp [Dict.get?_ofPairs_map, h, hread]
  | files | s3 =>
    simp only [Option.getD_some, Dict.get?_ofPairs_map, h, if_true]
    cases b.held name with
    | none => rfl
    | some data => simp [truthy, List.length_pos_iff]

end Backend

/-! ## The cache -/

/-- `_name` -/
def entryName (hash key : Str) : Str := hash ++ '.' :: key

/-- `hash` is what the hash object gives: nothing when nothing was hashed. -/
def readDataAsync (backends : List Backend) (hash : Option Str) (keys : List Str) :
    Dict Str (Option Bytes) :=
  if backends.isEmpty then Dict.empty
  else
    match hash with
    | none | some [] => Dict.empty
    | some hashStr =>
      let stored := walk (fun b pending key =>
        ((b.readAsync (pending.map (entryName hashStr))).get? (entryName hashStr key)).map some)
        backends keys Dict.empty
      stored.1.setAll (stored.2.map fun key => (key, none))

def containsDataAsync (backends : List Backend) (hash : Option Str) (keys : List Str) :
    Dict Str Bool :=
  let found := Dict.ofPairs (keys.map fun key => (key, false))
  if backends.isEmpty then found
  else
    match hash with
    | none | some [] => found
    | some hashStr =>
      (walk (fun b pending key =>
        if ((b.containsAsync (pending.map (entryName hashStr))).get?
          (entryName hashStr key)).getD false then some true else none)
        backends keys found).1

/-- What the tiers hold under a name, the nearest first. -/
def holders (backends : List Backend) (name : Str) : List Bytes :=
  backends.filterMap (·.held name)

section

variable (backends : List Backend) (keys : List Str) (hashStr key : Str)

theorem findSome?_held (name : Str) :
    backends.findSome? (fun b => (b.held name).map some) =
      (holders backends name).head?.map some := by
  induction backends with
  | nil => rfl
  | cons b backends ih =>
    cases hb : b.held name with
    | none => simpa [holders, hb] using ih
    | some data => simp [holders, hb]

theorem findSome?_truthy (name : Str) :
    backends.findSome? (fun b => if Backend.truthy (b.held name) then some true else none) =
      if (holders backends name).any (· ≠ []) then some true else none := by
  induction backends with
  | nil => rfl
  | cons b backends ih =>
    cases hb : b.held name with
    | none => simpa [holders, hb, Backend.truthy] using ih
    | some data =>
      by_cases hd : data = []
      · simpa [holders, hb, Backend.truthy, hd] using ih
      · simp [holders, hb, Backend.truthy, hd]

/-- A read gives the nearest entry. -/
theorem get?_readDataAsync (hb : backends ≠ []) (hh : hashStr ≠ []) :
    (readDataAsync backends (some hashStr) keys).get? key =
      if key ∈ keys then some (holders backends (entryName hashStr key)).head? else none := by
  obtain ⟨a, t, rfl⟩ := List.exists_cons_of_ne_nil hh
  have hask : ∀ (b : Backend) (pending : List Str) (k : Str), k ∈ pending →
      ((b.readAsync (pending.map (entryName (a :: t)))).get? (entryName (a :: t) k)).map some =
        (b.held (entryName (a :: t) k)).map some := by
    intro b pending k hk
    rw [b.get?_readAsync (List.mem_map_of_mem hk)]
  have hemp : backends.isEmpty = false := by simpa using hb
  simp only [readDataAsync, hemp, Bool.false_eq_true, if_false]
  simp only [Dict.get?_setAll (fun _ => none), mem_walk_snd hask, get?_walk hask, findSome?_held]
  by_cases hk : key ∈ keys
  · cases (holders backends (entryName (a :: t) key)).head? with
    | none => simp [hk]
    | some data => simp [hk]
  · simp [hk]

/-- The check finds any entry with bytes in it. -/
theorem get?_containsDataAsync (hb : backends ≠ []) (hh : hashStr ≠ []) :
    (containsDataAsync backends (some hashStr) keys).get? key =
      if key ∈ keys then some ((holders backends (entryName hashStr key)).any (· ≠ []))
      else none := by
  obtain ⟨a, t, rfl⟩ := List.exists_cons_of_ne_nil hh
  have hask : ∀ (b : Backend) (pending : List Str) (k : Str), k ∈ pending →
      (if ((b.containsAsync (pending.map (entryName (a :: t)))).get?
        (entryName (a :: t) k)).getD false then some true else none) =
        if Backend.truthy (b.held (entryName (a :: t) k)) then some true else none := by
    intro b pending k hk
    rw [b.get?_containsAsync (List.mem_map_of_mem hk)]
  have hemp : backends.isEmpty = false := by simpa using hb
  simp only [containsDataAsync, hemp, Bool.false_eq_true, if_false]
  rw [get?_walk hask, findSome?_truthy, Dict.get?_ofPairs_map]
  by_cases hk : key ∈ keys
  · by_cases hany : (holders backends (entryName (a :: t) key)).any (· ≠ []) = true
    · simp only [hk, hany, if_true, Option.some_or]
    · simp only [hk, hany, if_true]
      rfl
  · simp [hk]

end

/-- A read of the key gives bytes. -/
def ReadsBytes (backends : List Backend) (hash : Option Str) (keys : List Str) (key : Str) : Prop :=
  ∃ data, (readDataAsync backends hash keys).get? key = some (some data) ∧ data ≠ []

/-- **The check and the read agree on a key** unless its nearest entry is empty and a later one is
not. -/
theorem contains_agrees_iff (backends : List Backend) (hash : Option Str) (keys : List Str)
    (key : Str) :
    ((containsDataAsync backends hash keys).get? key = some true ↔
        ReadsBytes backends hash keys key) ↔
      ∀ hashStr, hash = some hashStr → hashStr ≠ [] → key ∈ keys →
        (holders backends (entryName hashStr key)).head? = some [] →
        ∀ data ∈ holders backends (entryName hashStr key), data = [] := by
  unfold ReadsBytes
  by_cases hb : backends = []
  · subst hb
    simp [containsDataAsync, readDataAsync, Dict.get?_ofPairs_map, holders]
  · by_cases hh : hash = none ∨ hash = some []
    · have hemp : backends.isEmpty = false := by simpa using hb
      rcases hh with rfl | rfl
      · simp [containsDataAsync, readDataAsync, Dict.get?_ofPairs_map, hemp]
      · simp [containsDataAsync, readDataAsync, Dict.get?_ofPairs_map, hemp]
    · obtain ⟨hashStr, rfl⟩ : ∃ hashStr, hash = some hashStr :=
        Option.ne_none_iff_exists'.1 fun h => hh (Or.inl h)
      have hne : hashStr ≠ [] := fun h => hh (Or.inr (by rw [h]))
      simp only [get?_containsDataAsync backends keys hashStr key hb hne,
        get?_readDataAsync backends keys hashStr key hb hne, Option.some.injEq, forall_eq']
      by_cases hk : key ∈ keys
      · cases holders backends (entryName hashStr key) with
        | nil => simp
        | cons data rest =>
          by_cases hd : data = []
          · simp [hk, hd, hne]
          · simp [hk, hd]
      · simp [hk]

/-- An empty entry on the nearest tier hides the one behind it from a read. -/
theorem contains_disagrees :
    ¬ ∀ (backends : List Backend) (hash : Option Str) (keys : List Str) (key : Str),
      (containsDataAsync backends hash keys).get? key = some true ↔
        ReadsBytes backends hash keys key := by
  intro h
  have h := (h [⟨.files, fun _ => some [], true⟩, ⟨.memcache, fun _ => some [0], true⟩]
    (some ['h']) ["part".toList] "part".toList).1 (by decide)
  obtain ⟨data, hget, hne⟩ := h
  have hempty : (readDataAsync [⟨.files, fun _ => some [], true⟩,
    ⟨.memcache, fun _ => some [0], true⟩] (some ['h']) ["part".toList]).get? "part".toList =
      some (some []) := by decide
  rw [hempty] at hget
  exact hne (Option.some.inj (Option.some.inj hget)).symm

end PartCAD.Cache
