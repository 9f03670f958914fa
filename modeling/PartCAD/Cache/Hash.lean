import PartCAD.Lib.Value

/-!
# The hash that a cache entry is looked up by

A `CacheHash` collects the bytes that decide what an object is.  `addDict` adds a configuration: the
texts of its keys and values in the order of the keys, one after the other.

* `feeds_eq` : what a configuration adds is its texts run together;
* `not_separated` : for every configuration there is another one with the same key.
-/

namespace PartCAD.Cache

open PartCAD.Lib PartCAD.Lib.Text

/-! ## The hash object -/

/-- `VERSION` -/
def version : ℕ := 5

/-- `_VERSION_TAG` -/
def versionTag : Bytes := encode ("partcad-cache-v".toList ++ Nat.toDigits 10 version)

structure CacheHash where
  isEmpty : Bool
  isUsed : Bool
  dependencies : List Str
  /-- the bytes given to the hasher so far; no hasher when caching is disabled -/
  hasher : Option Bytes

namespace CacheHash

/-- A new hash object, which may go on from the bytes of another one. -/
def init (hasher : Option Bytes) (cache : Bool) : CacheHash where
  isEmpty := true
  isUsed := false
  dependencies := []
  hasher := if cache then some (hasher.getD versionTag) else none

/-- Bytes for the hasher. -/
def update (h : CacheHash) (b : Bytes) : CacheHash := { h with hasher := h.hasher.map (· ++ b) }

def touch (h : CacheHash) : CacheHash := { h with isEmpty := false }

section

variable {F : Type} [PyFloat F]

mutual

/-- `recurse` : the texts that a value is hashed as. -/
def recurse : Value F → List Str
  | .dict items => (sortItems (recurseItems items)).flatMap fun p => p.1 :: p.2
  | .str s => [s]
  | .list vs => recurseList vs
  | .none => ["None".toList]
  | .bool true => ["True".toList]
  | .bool false => ["False".toList]
  | .int n => [intText n]
  | .float x => [PyFloat.repr x]
  | .bytes b => [bytesText b]

def recurseList : List (Value F) → List Str
  | [] => []
  | v :: vs => recurse v ++ recurseList vs

def recurseItems : List (Str × Value F) → List (Str × List Str)
  | [] => []
  | (k, v) :: items => (k, recurse v) :: recurseItems items

end

/-- The bytes that a configuration is hashed as. -/
def feeds (data : List (Str × Value F)) : Bytes := (recurse (.dict data)).flatMap encode

def addDict (h : CacheHash) (data : Option (List (Str × Value F))) : CacheHash :=
  if h.hasher = none then h
  else
    match data with
    | none | some [] => h
    | some data => (h.update (feeds data)).touch

end

def addString (h : CacheHash) (string : Option Str) : CacheHash :=
  if h.hasher = none then h
  else
    match string with
    | none => h
    | some string => (h.update (encode string)).touch

def addBytes (h : CacheHash) (bytes : Option Bytes) : CacheHash :=
  if h.hasher = none then h
  else
    match bytes with
    | none | some [] => h
    | some bytes => (h.update bytes).touch

/-- A file that is not there adds nothing. -/
def addFilename (files : Str → Option Bytes) (h : CacheHash) (filename : Str) : CacheHash :=
  if h.hasher = none then h
  else
    match files filename with
    | none => h
    | some content => (h.update content).touch

/-- `get` for a digest: the key, and the object afterwards. -/
def get (digest : Bytes → Str) (files : Str → Option Bytes) (h : CacheHash) :
    Option Str × CacheHash :=
  let h := if h.isUsed then h else h.dependencies.foldl (addFilename files) h
  let h := { h with isUsed := true }
  if h.isEmpty then (none, h) else (h.hasher.map digest, h)

end CacheHash

/-! ## Configurations with the same key -/

/-- The configuration of a shape: no dictionary in it has a key twice. -/
structure Config (F : Type) where
  items : List (Str × Value F)
  wellFormed : (Value.dict items).WellFormed

section

variable {F : Type} [PyFloat F]

open CacheHash

/-- Equality of configurations up to the order of their keys. -/
def Config.Same (c c' : Config F) : Prop := (Value.dict c.items).Same (.dict c'.items)

/-- No other configuration is hashed as the same bytes. -/
def Separated (c : Config F) : Prop := ∀ c' : Config F, feeds c.items = feeds c'.items → c.Same c'

/-- A configuration with one value under the empty key. -/
def single (v : Value F) (hv : v.WellFormed) : Config F where
  items := [([], v)]
  wellFormed := ⟨by simp, hv, trivial⟩

/-- All the texts of a configuration. -/
def textOf (c : Config F) : Str := (recurse (.dict c.items)).flatten

theorem feeds_eq (c : Config F) : feeds c.items = encode (textOf c) :=
  (encode_flatten _).symm

/-- The text of a configuration, as a string under the empty key. -/
def flat (c : Config F) : Config F := single (.str (textOf c)) trivial

/-- The same in a list. -/
def flatList (c : Config F) : Config F := single (.list [.str (textOf c)]) ⟨trivial, trivial⟩

theorem feeds_flat (c : Config F) : feeds (flat c).items = feeds c.items := by
  rw [feeds_eq c]
  simp [flat, single, feeds, recurse, recurseItems, sortItems, encode]

theorem feeds_flatList (c : Config F) : feeds (flatList c).items = feeds c.items := by
  rw [feeds_eq c]
  simp [flatList, single, feeds, recurse, recurseItems, recurseList, sortItems, encode]

theorem not_same_flat_flatList (c : Config F) : ¬ (flat c).Same (flatList c) := by
  simp [Config.Same, Value.Same, flat, flatList, single, Value.canon, Value.canonItems,
    Value.canonList, sortItems]

/-- Another configuration that is hashed as the same bytes. -/
theorem exists_feeds_eq (c : Config F) :
    ∃ c' : Config F, c'.items ≠ [] ∧ ¬ c.Same c' ∧ feeds c.items = feeds c'.items := by
  by_cases hflat : c.Same (flat c)
  · refine ⟨flatList c, by simp [flatList, single], fun hlist => ?_, (feeds_flatList c).symm⟩
    exact not_same_flat_flatList c (hflat.symm.trans hlist)
  · exact ⟨flat c, by simp [flat, single], hflat, (feeds_flat c).symm⟩

/-- Configurations that are hashed as the same bytes give a hash object the same key. -/
theorem addDict_congr {data data' : List (Str × Value F)} (h : data ≠ []) (h' : data' ≠ [])
    (hfeeds : feeds data = feeds data') (hash : CacheHash) :
    hash.addDict (some data) = hash.addDict (some data') := by
  obtain ⟨p, ps, rfl⟩ := List.exists_cons_of_ne_nil h
  obtain ⟨q, qs, rfl⟩ := List.exists_cons_of_ne_nil h'
  simp only [addDict, hfeeds]

/-- **Every configuration shares its key with a different one**: the bytes fed do not tell a
configuration from its own text. -/
theorem not_separated (c : Config F) :
    ¬ Separated c ∧
      (c.items ≠ [] → ∃ c' : Config F, ¬ c.Same c' ∧
        ∀ hash : CacheHash, hash.addDict (some c.items) = hash.addDict (some c'.items)) := by
  obtain ⟨c', hne, hsame, hfeeds⟩ := exists_feeds_eq c
  refine ⟨fun h => hsame (h c' hfeeds), fun hc => ⟨c', hsame, ?_⟩⟩
  exact addDict_congr hc hne hfeeds

end

/-- A part of the type `:bracket` in two sizes. -/
def bracket (m n : ℤ) : Config DigitFloat where
  items := [("type".toList, .str ":bracket".toList), ("size".toList, .list [.int m, .int n])]
  wellFormed := by simp [Value.WellFormed, Value.WellFormedItems, Value.WellFormedList]

theorem canon_bracket (m n : ℤ) : (Value.dict (bracket m n).items).canon =
    .dict [("size".toList, .list [.int m, .int n]), ("type".toList, .str ":bracket".toList)] :=
  rfl

/-- The sizes `[1, 23]` and `[12, 3]` are hashed as the same bytes. -/
theorem feeds_bracket :
    ¬ ∀ c c' : Config DigitFloat, CacheHash.feeds c.items = CacheHash.feeds c'.items →
      c.Same c' := by
  intro h
  have h := h (bracket 1 23) (bracket 12 3) (by decide)
  rw [Config.Same, Value.Same, canon_bracket, canon_bracket] at h
  simp at h

end PartCAD.Cache
