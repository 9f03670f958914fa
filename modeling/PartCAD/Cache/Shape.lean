import Mathlib.Tactic.Common
import PartCAD.Envelope.Layers
import PartCAD.Lib.Json

/-!
# The entries of the shape cache

A lone shape is stored as its BREP bytes, with a frame in front of them when something is recorded
about it.  Everything else is stored as JSON.  The reader tells the three forms apart by the first
bytes.

* `storedFaithfully_iff` : the cache values that come back without their outer layer, read in the
  form they were written in.  What is recorded in an entry of JSON goes through `encode`, and comes
  back if `encode` leaves it as it is.
-/

namespace PartCAD.Cache

open PartCAD.Lib PartCAD.Lib.Text PartCAD.Lib.Json PartCAD.Envelope

/-! ## Bytes -/

/-- `_FRAME_MAGIC` -/
def frameMagic : Bytes := [80, 67, 77, 49]

/-- `_BREP_PREFIXES` -/
def brepPrefixes : List Bytes :=
  [[40, 181, 47, 253], [67, 65, 83, 67, 65, 68, 69, 32, 84, 111, 112, 111, 108, 111, 103, 121],
    [68, 66, 82, 101, 112, 95, 68, 114, 97, 119, 97, 98, 108, 101, 83, 104, 97, 112, 101]]

example : brepPrefixes.drop 1 =
    [encode "CASCADE Topology".toList, encode "DBRep_DrawableShape".toList] := by decide

/-- `data.startswith(_BREP_PREFIXES)` -/
def IsBrep (data : Bytes) : Prop := ∃ p ∈ brepPrefixes, p <+: data

instance (data : Bytes) : Decidable (IsBrep data) :=
  inferInstanceAs (Decidable (∃ p ∈ brepPrefixes, p <+: data))

/-- The last `w` bytes of a number, the highest first. -/
def bigEndian : ℕ → ℕ → Bytes
  | 0, _ => []
  | w + 1, n => bigEndian w (n / 256) ++ [UInt8.ofNat (n % 256)]

/-- `n.to_bytes(w, "big")`; `none` where it raises. -/
def toBytes (w n : ℕ) : Option Bytes := if n < 256 ^ w then some (bigEndian w n) else none

/-- `int.from_bytes(b, "big")` -/
def fromBytes (b : Bytes) : ℕ := b.foldl (fun n x => n * 256 + x.toNat) 0

/-! ## The three forms -/

inductive Form
  | brep
  | framed
  | json
  deriving DecidableEq

/-- The form that the reader takes an entry to have. -/
def formRead (data : Bytes) : Form :=
  if frameMagic <+: data then .framed else if IsBrep data then .brep else .json

section

variable {F : Type}

/-- The stripped value without its metadata. -/
def geometry (v : Value F) : Value F :=
  match stripMetadata v with
  | .dict items => .dict (items.filter (·.1 ≠ keyMetadata))
  | w => w

/-- What is under `brep`, where that is the only key. -/
def loneBrep : Value F → Option (Value F)
  | .dict [(key, v)] => if key = keyBrep then some v else none
  | _ => none

/-- The form that the writer chooses. -/
def formWritten (v : Value F) : Form :=
  match loneBrep (geometry v), metadataOf v with
  | some _, none => .brep
  | some _, some _ => .framed
  | none, _ => .json

/-- `payload[KEY_METADATA] = metadata` -/
def putMetadata (metadata : List (Str × Value F)) : Value F → Value F
  | .dict items => .dict (setItem keyMetadata (.dict metadata) items)
  | v => v

variable [PyFloat F]

/-- The magic, the length of the metadata as JSON, the metadata and the BREP. -/
def frame (metadata : List (Str × Value F)) (brep : Bytes) : Option Bytes :=
  (dumps (.dict metadata)).bind fun text =>
    let header := encode text
    (toBytes 4 header.length).map fun length => frameMagic ++ length ++ header ++ brep

/-- `_serialize` -/
def serialize (v : Value F) : Option Bytes :=
  match loneBrep (geometry v) with
  | some w =>
    match brepBytes w with
    | some (.bytes brep) =>
      match metadataOf v with
      | none => some brep
      | some metadata => frame metadata brep
    | _ => none
  | none =>
    let payload :=
      match metadataOf v with
      | none => geometry v
      | some metadata => putMetadata metadata (geometry v)
    ((Envelope.encode payload).bind dumps).map encode

/-- `_deserialize` -/
def deserialize (data : Bytes) : Option (Value F) :=
  match formRead data with
  | .framed =>
    let length := fromBytes ((data.drop 4).take 4)
    ((decodeUtf8 ((data.drop 8).take length)).bind loads).map fun metadata =>
      .dict [(keyBrep, .bytes (data.drop (8 + length))), (keyMetadata, metadata)]
  | .brep => some (.dict [(keyBrep, .bytes data)])
  | .json => ((decodeUtf8 data).bind loads).bind Envelope.decode

end

/-! ## Cache values -/

/-- `KEY_GLTF` -/
def keyGltf : Str := "gltf".toList

section

variable {F : Type}

mutual

/-- A node of a tree: no key comes twice, one of them says what the node carries, there is a BREP
under `brep`, there are nodes under `assembly`, and everything else is JSON. -/
def IsTree : Value F → Prop
  | .dict items =>
    (items.map Prod.fst).Nodup ∧ (IsNode items ∨ keyGltf ∈ items.map Prod.fst) ∧ IsTreeItems items
  | _ => False

def IsForest : Value F → Prop
  | .list vs => IsTreeList vs
  | _ => False

def IsTreeList : List (Value F) → Prop
  | [] => True
  | v :: vs => IsTree v ∧ IsTreeList vs

def IsTreeItems : List (Str × Value F) → Prop
  | [] => True
  | (key, v) :: items =>
    (if key = keyBrep then ∃ b, v = .bytes b ∧ IsBrep b
      else if key = keyAssembly then IsForest v
      else IsJson v) ∧ IsTreeItems items

end

mutual

/-- What is put into the cache: a shape, an assembly, or a list of such values. -/
def IsCacheValue : Value F → Prop
  | .dict items => IsTree (.dict items) ∧ IsNode items
  | .list vs => IsCacheList vs
  | _ => False

def IsCacheList : List (Value F) → Prop
  | [] => True
  | v :: vs => IsCacheValue v ∧ IsCacheList vs

end

mutual

/-- `encode` leaves what is recorded as it is, and every child comes back from JSON. -/
def InJson : Value F → Prop
  | .dict items =>
    (∀ metadata, metadataOf (.dict items) = some metadata → Untouched (.dict metadata)) ∧
      ∀ children, payload items = some (keyAssembly, children) → CarriedChildren children
  | .list vs => InJsonList vs
  | _ => True

def InJsonList : List (Value F) → Prop
  | [] => True
  | v :: vs => InJson v ∧ InJsonList vs

end

variable [PyFloat F]

/-- The length of the metadata as JSON has its place in the frame. -/
def FitsFrame (metadata : List (Str × Value F)) : Prop :=
  ∃ text, dumps (.dict metadata) = some text ∧ (encode text).length < 2 ^ 32

/-- The cache values that come back. -/
def Storable : Value F → Prop
  | .dict items =>
    if keyBrep ∈ items.map Prod.fst then
      ∀ metadata, metadataOf (.dict items) = some metadata → FitsFrame metadata
    else InJson (.dict items)
  | v => InJson v

/-- The entry is read in the form it was written in, as the value without its outer layer, and
wrapping another one around it gives that layer with the payload and the metadata of the value. -/
def StoredFaithfully (v : Value F) : Prop :=
  ∃ data w, serialize v = some data ∧ formRead data = formWritten v ∧ deserialize data = some w ∧
    w = stripMetadata v ∧
    ∀ outer, ((outer.getD []).map Prod.fst).Nodup → Wraps outer v (applyMetadata outer w)

end

/-! ## The forms are told apart -/

theorem length_bigEndian (w n : ℕ) : (bigEndian w n).length = w := by
  induction w generalizing n with
  | zero => rfl
  | succ w ih => rw [bigEndian, List.length_append, ih, List.length_singleton]

theorem toBytes_eq_some {w n : ℕ} {b : Bytes} (h : toBytes w n = some b) :
    n < 256 ^ w ∧ b = bigEndian w n := by
  unfold toBytes at h
  split at h
  · rename_i hn
    exact ⟨hn, (Option.some.inj h).symm⟩
  · cases h

theorem fromBytes_bigEndian {w n : ℕ} (h : n < 256 ^ w) : fromBytes (bigEndian w n) = n := by
  induction w generalizing n with
  | zero =>
    rw [Nat.pow_zero] at h
    obtain rfl : n = 0 := by omega
    rfl
  | succ w ih =>
    have hdiv : n / 256 < 256 ^ w := Nat.div_lt_of_lt_mul (by rwa [Nat.pow_succ'] at h)
    have hfold := ih hdiv
    have hlast : (UInt8.ofNat (n % 256)).toNat = n % 256 := by
      rw [UInt8.toNat_ofNat']
      omega
    unfold fromBytes at hfold ⊢
    rw [bigEndian, List.foldl_append, hfold, List.foldl_cons, List.foldl_nil, hlast]
    omega

/-- No BREP begins like a frame. -/
theorem not_frameMagic_of_isBrep {data : Bytes} (h : IsBrep data) : ¬ frameMagic <+: data := by
  intro hmagic
  obtain ⟨p, hp, hdata⟩ := h
  have hboth : p <+: frameMagic ∨ frameMagic <+: p := List.prefix_or_prefix_of_prefix hdata hmagic
  have hnone : ∀ p ∈ brepPrefixes, ¬ p <+: frameMagic ∧ ¬ frameMagic <+: p := by decide
  exact hboth.elim (hnone p hp).1 (hnone p hp).2

theorem formRead_of_isBrep {data : Bytes} (h : IsBrep data) : formRead data = .brep := by
  rw [formRead, if_neg (not_frameMagic_of_isBrep h), if_pos h]

theorem formRead_frame (rest : Bytes) : formRead (frameMagic ++ rest) = .framed :=
  if_pos (List.prefix_append frameMagic rest)

/-- Neither a frame nor a BREP begins like the text of a dictionary or a list. -/
theorem formRead_json {x : UInt8} (hx : x = 123 ∨ x = 91) (rest : Bytes) :
    formRead (x :: rest) = .json := by
  have hfirst : ∀ p : Bytes, p ≠ [] → p.head? ≠ some 123 → p.head? ≠ some 91 →
      ¬ p <+: x :: rest := by
    intro p hne hbrace hbracket hprefix
    obtain ⟨y, p, rfl⟩ := List.exists_cons_of_ne_nil hne
    obtain ⟨rfl, -⟩ := List.cons_prefix_cons.1 hprefix
    rcases hx with rfl | rfl
    · exact hbrace rfl
    · exact hbracket rfl
  have hbrep : ¬ IsBrep (x :: rest) := by
    rintro ⟨p, hp, hprefix⟩
    have hheads : ∀ p ∈ brepPrefixes, p ≠ [] ∧ p.head? ≠ some 123 ∧ p.head? ≠ some 91 := by decide
    obtain ⟨hne, hbrace, hbracket⟩ := hheads p hp
    exact hfirst p hne hbrace hbracket hprefix
  rw [formRead, if_neg (hfirst frameMagic (by decide) (by decide) (by decide)), if_neg hbrep]

section

variable {F : Type} [PyFloat F]

/-! ## The frame -/

theorem exists_frame_iff {metadata : List (Str × Value F)} (brep : Bytes) :
    (∃ data, frame metadata brep = some data) ↔ FitsFrame metadata := by
  constructor
  · rintro ⟨data, h⟩
    obtain ⟨text, htext, h⟩ := Option.bind_eq_some_iff.1 h
    obtain ⟨length, hlength, -⟩ := Option.map_eq_some_iff.1 h
    exact ⟨text, htext, (toBytes_eq_some hlength).1⟩
  · rintro ⟨text, htext, hlength⟩
    have hbytes : toBytes 4 (encode text).length = some (bigEndian 4 (encode text).length) :=
      if_pos hlength
    simp only [frame, htext, Option.bind_some, hbytes, Option.map_some]
    exact ⟨_, rfl⟩

/-- What is framed is read back. -/
theorem deserialize_frame {metadata : List (Str × Value F)} (hjson : IsJson (.dict metadata))
    {brep data : Bytes} (h : frame metadata brep = some data) :
    formRead data = .framed ∧
      deserialize data = some (.dict [(keyBrep, .bytes brep), (keyMetadata, .dict metadata)]) := by
  obtain ⟨text, htext, h⟩ := Option.bind_eq_some_iff.1 h
  obtain ⟨length, hlength, rfl⟩ := Option.map_eq_some_iff.1 h
  obtain ⟨hbound, rfl⟩ := toBytes_eq_some hlength
  have hfour := length_bigEndian 4 (encode text).length
  have hform := formRead_frame (bigEndian 4 (encode text).length ++ (encode text ++ brep))
  rw [← List.append_assoc, ← List.append_assoc] at hform
  have hmagic : (frameMagic ++ bigEndian 4 (encode text).length ++ encode text ++ brep).drop 4 =
      bigEndian 4 (encode text).length ++ (encode text ++ brep) := by
    rw [List.append_assoc, List.append_assoc]
    rfl
  have hrest : (frameMagic ++ bigEndian 4 (encode text).length ++ encode text ++ brep).drop 8 =
      encode text ++ brep := by
    rw [← List.drop_drop (i := 4) (j := 4), hmagic, List.drop_left' hfour]
  refine ⟨hform, ?_⟩
  rw [deserialize, hform]
  simp only [hmagic, List.take_left' hfour, fromBytes_bigEndian hbound]
  rw [← List.drop_drop, hrest, List.take_left, List.drop_left, decodeUtf8_encode, Option.bind_some,
    loads_dumps hjson htext]
  rfl

/-! ## JSON -/

/-- A dictionary and a list are written with a bracket in front. -/
theorem head_encode_dumps {u w : Value F} {text : Str}
    (hu : (∃ items, u = .dict items) ∨ ∃ vs, u = .list vs) (hencode : Envelope.encode u = some w)
    (htext : dumps w = some text) : formRead (Text.encode text) = .json := by
  rcases hu with ⟨items, rfl⟩ | ⟨vs, rfl⟩
  · have hdict : ∃ ws, w = .dict ws := by
      rw [Envelope.encode] at hencode
      split at hencode
      · obtain ⟨ws, -, rfl⟩ := Option.map_eq_some_iff.1 hencode
        exact ⟨ws, rfl⟩
      · obtain ⟨ws, -, rfl⟩ := Option.map_eq_some_iff.1 hencode
        exact ⟨ws, rfl⟩
    obtain ⟨ws, rfl⟩ := hdict
    obtain ⟨us, -, rfl⟩ := Option.map_eq_some_iff.1 htext
    exact formRead_json (Or.inl rfl) _
  · obtain ⟨ws, -, rfl⟩ := Option.map_eq_some_iff.1 hencode
    obtain ⟨us, -, rfl⟩ := Option.map_eq_some_iff.1 htext
    exact formRead_json (Or.inr rfl) _

/-- What goes into JSON is read back exactly when the codec takes it back. -/
theorem deserialize_json_iff {u : Value F}
    (hu : (∃ items, u = .dict items) ∨ ∃ vs, u = .list vs)
    (hjson : ∀ w, Envelope.encode u = some w → IsJson w) :
    (∃ data, ((Envelope.encode u).bind dumps).map Text.encode = some data ∧
      formRead data = .json ∧ deserialize data = some u) ↔ Carried u := by
  have hread : ∀ w text, Envelope.encode u = some w → dumps w = some text →
      formRead (Text.encode text) = .json ∧
        deserialize (Text.encode text) = Envelope.decode w := by
    intro w text hencode htext
    have hform := head_encode_dumps hu hencode htext
    refine ⟨hform, ?_⟩
    rw [deserialize, hform]
    simp only [decodeUtf8_encode, Option.bind_some, loads_dumps (hjson w hencode) htext]
  rw [← decode_encode_iff]
  constructor
  · rintro ⟨data, hdata, -, hdeserialize⟩
    obtain ⟨text, htext, rfl⟩ := Option.map_eq_some_iff.1 hdata
    obtain ⟨w, hencode, htext⟩ := Option.bind_eq_some_iff.1 htext
    rw [(hread w text hencode htext).2] at hdeserialize
    rw [hencode, Option.bind_some, hdeserialize]
  · intro hcarried
    obtain ⟨w, hencode, hdecode⟩ := Option.bind_eq_some_iff.1 hcarried
    obtain ⟨text, htext⟩ := exists_dumps w (hjson w hencode)
    obtain ⟨hform, hdeserialize⟩ := hread w text hencode htext
    refine ⟨Text.encode text, ?_, hform, ?_⟩
    · rw [hencode, Option.bind_some, htext, Option.map_some]
    · rw [hdeserialize, hdecode]

end

/-! ## What `encode` makes of cache values -/

section

variable {F : Type}

/-- What is under a key of a node. -/
def IsTreeField (key : Str) (v : Value F) : Prop :=
  if key = keyBrep then ∃ b, v = .bytes b ∧ IsBrep b
  else if key = keyAssembly then IsForest v
  else IsJson v

theorem isTreeItems_iff {items : List (Str × Value F)} :
    IsTreeItems items ↔ ∀ p ∈ items, IsTreeField p.1 p.2 := by
  induction items with
  | nil => simp [IsTreeItems]
  | cons p items ih =>
    rw [IsTreeItems, ih, List.forall_mem_cons]
    rfl

theorem isTreeList_iff {vs : List (Value F)} : IsTreeList vs ↔ ∀ v ∈ vs, IsTree v := by
  induction vs with
  | nil => simp [IsTreeList]
  | cons v vs ih => rw [IsTreeList, ih, List.forall_mem_cons]

theorem isCacheList_iff {vs : List (Value F)} : IsCacheList vs ↔ ∀ v ∈ vs, IsCacheValue v := by
  induction vs with
  | nil => simp [IsCacheList]
  | cons v vs ih => rw [IsCacheList, ih, List.forall_mem_cons]

theorem inJsonList_iff {vs : List (Value F)} : InJsonList vs ↔ ∀ v ∈ vs, InJson v := by
  induction vs with
  | nil => simp [InJsonList]
  | cons v vs ih => rw [InJsonList, ih, List.forall_mem_cons]

/-- A value that is met on the way through a cache value. -/
def IsPart (v : Value F) : Prop :=
  IsJson v ∨ IsTree v ∨ IsForest v ∨ IsCacheValue v ∨ ∃ b, v = .bytes b

theorem isPart_of_mem {vs : List (Value F)} (h : IsPart (.list vs)) : ∀ v ∈ vs, IsPart v := by
  intro v hv
  rcases h with h | h | h | h | ⟨b, h⟩
  · exact Or.inl (isJsonList_iff.1 h v hv)
  · exact h.elim
  · exact Or.inr (Or.inl (isTreeList_iff.1 h v hv))
  · exact Or.inr (Or.inr (Or.inr (Or.inl (isCacheList_iff.1 h v hv))))
  · cases h

/-- A field of a dictionary is JSON, except under the keys of payloads. -/
theorem isPart_of_isTreeField {key : Str} {v : Value F} (h : IsTreeField key v) :
    IsPart v ∧ (key ≠ keyBrep → key ≠ keyAssembly → IsJson v) := by
  unfold IsTreeField at h
  by_cases hbrep : key = keyBrep
  · rw [if_pos hbrep] at h
    obtain ⟨b, rfl, -⟩ := h
    exact ⟨Or.inr (Or.inr (Or.inr (Or.inr ⟨b, rfl⟩))), fun h => absurd hbrep h⟩
  · rw [if_neg hbrep] at h
    by_cases hassembly : key = keyAssembly
    · rw [if_pos hassembly] at h
      exact ⟨Or.inr (Or.inr (Or.inl h)), fun _ h => absurd hassembly h⟩
    · rw [if_neg hassembly] at h
      exact ⟨Or.inl h, fun _ _ => h⟩

theorem isPart_dict {items : List (Str × Value F)} (h : IsPart (.dict items)) :
    (items.map Prod.fst).Nodup ∧
      ∀ p ∈ items, IsPart p.2 ∧ (p.1 ≠ keyBrep → p.1 ≠ keyAssembly → IsJson p.2) := by
  have htree : IsTree (.dict items) → (items.map Prod.fst).Nodup ∧
      ∀ p ∈ items, IsPart p.2 ∧ (p.1 ≠ keyBrep → p.1 ≠ keyAssembly → IsJson p.2) :=
    fun h => ⟨h.1, fun p hp => isPart_of_isTreeField (isTreeItems_iff.1 h.2.2 p hp)⟩
  rcases h with h | h | h | h | ⟨b, h⟩
  · refine ⟨h.1, fun p hp => ?_⟩
    have hp := isJsonItems_iff.1 h.2 p hp
    exact ⟨Or.inl hp, fun _ _ => hp⟩
  · exact htree h
  · exact h.elim
  · exact htree h.1
  · cases h

theorem mem_mapM {α β : Type} {f : α → Option β} {xs : List α} {ys : List β}
    (h : xs.mapM f = some ys) {y : β} (hy : y ∈ ys) : ∃ x ∈ xs, f x = some y := by
  induction xs generalizing ys with
  | nil =>
    cases h
    cases hy
  | cons x xs ih =>
    rw [mapM_cons_eq] at h
    obtain ⟨z, hz, h⟩ := Option.bind_eq_some_iff.1 h
    obtain ⟨zs, hzs, rfl⟩ := Option.map_eq_some_iff.1 h
    rcases List.mem_cons.1 hy with rfl | hy
    · exact ⟨x, List.mem_cons_self .., hz⟩
    · obtain ⟨x', hx', hfx'⟩ := ih hzs hy
      exact ⟨x', List.mem_cons_of_mem _ hx', hfx'⟩

/-- Items are JSON when every value put in a place is. -/
theorem isJson_onItems {f : Str → Value F → Option (Value F)} {items ws : List (Str × Value F)}
    (hnodup : (items.map Prod.fst).Nodup) (h : onItems f items = some ws)
    (hf : ∀ p ∈ items, ∀ w, f p.1 p.2 = some w → IsJson w) : IsJson (.dict ws) := by
  refine ⟨by rwa [keys_onItems h], isJsonItems_iff.2 fun q hq => ?_⟩
  obtain ⟨p, hp, hfp⟩ := mem_mapM h hq
  obtain ⟨w, hw, rfl⟩ := Option.map_eq_some_iff.1 hfp
  exact hf p hp w hw

theorem isJson_iterated {v : Value F} {ws : List (Value F)} (h : iterated v = some ws) :
    IsJson (.list ws) := by
  refine isJsonList_iff.2 fun w hw => ?_
  cases v with
  | str s =>
    cases h
    obtain ⟨c, -, rfl⟩ := List.mem_map.1 hw
    trivial
  | bytes b =>
    cases h
    obtain ⟨x, -, rfl⟩ := List.mem_map.1 hw
    trivial
  | dict items =>
    cases h
    obtain ⟨p, -, rfl⟩ := List.mem_map.1 hw
    trivial
  | _ => cases h

theorem isJson_encodeField {key : Str} {v w : Value F}
    (hv : key ≠ keyBrep → key ≠ keyAssembly → IsJson v)
    (ih : ∀ w, Envelope.encode v = some w → IsJson w) (h : encodeField key v = some w) :
    IsJson w := by
  unfold encodeField at h
  by_cases hbrep : key = keyBrep
  · rw [if_pos hbrep] at h
    cases v <;> cases h <;> trivial
  · rw [if_neg hbrep] at h
    by_cases hassembly : key = keyAssembly
    · rw [if_pos hassembly] at h
      have hother : encodeChildren v = (iterated v).map .list → IsJson w := by
        intro heq
        obtain ⟨ws, hws, rfl⟩ := Option.map_eq_some_iff.1 (heq ▸ h)
        exact isJson_iterated hws
      cases v with
      | list vs => exact ih w h
      | _ => exact hother rfl
    · rw [if_neg hassembly] at h
      by_cases hverbatim : Verbatim key
      · rw [if_pos hverbatim] at h
        obtain rfl := Option.some.inj h
        exact hv hbrep hassembly
      · rw [if_neg hverbatim] at h
        exact ih w h

/-- What `encode` makes of a cache value is JSON. -/
theorem isJson_encode (v : Value F) (hv : IsPart v) {w : Value F}
    (h : Envelope.encode v = some w) : IsJson w := by
  induction v using Value.induction generalizing w with
  | bytes b =>
    cases h
    refine ⟨by simp, trivial, trivial⟩
  | list vs ih =>
    obtain ⟨ws, hws, rfl⟩ := Option.map_eq_some_iff.1 h
    rw [encodeList_eq] at hws
    refine isJsonList_iff.2 fun w hw => ?_
    obtain ⟨v, hmem, hencode⟩ := mem_mapM hws hw
    exact ih v hmem (isPart_of_mem hv v hmem) hencode
  | dict items ih =>
    obtain ⟨hnodup, hitems⟩ := isPart_dict hv
    rw [Envelope.encode] at h
    by_cases hnode : IsNode items
    · rw [if_pos hnode, encodeNode_eq] at h
      obtain ⟨ws, hws, rfl⟩ := Option.map_eq_some_iff.1 h
      exact isJson_onItems hnodup hws fun p hp w =>
        isJson_encodeField (hitems p hp).2 fun _ => ih p hp (hitems p hp).1
    · rw [if_neg hnode, encodeItems_eq] at h
      obtain ⟨ws, hws, rfl⟩ := Option.map_eq_some_iff.1 h
      exact isJson_onItems hnodup hws fun p hp w => ih p hp (hitems p hp).1
  | _ =>
    cases h
    trivial

/-! ## What is stored of a cache value -/

theorem geometry_dict {items : List (Str × Value F)} {key : Str} {v : Value F}
    (h : payload items = some (key, v)) : geometry (.dict items) = .dict [(key, v)] := by
  have hne := (metadata_ne_payload h).symm
  rw [geometry, strip_dict h]
  rcases recorded_cases items with ⟨-, hrecorded⟩ | ⟨metadata, -, hrecorded⟩
  · simp [hrecorded, hne]
  · simp [hrecorded, hne]

/-- A stripped cache value is a cache value. -/
theorem isCacheValue_strip (v : Value F) (hv : IsCacheValue v) :
    IsCacheValue (stripMetadata v) := by
  induction v using Value.induction with
  | list vs ih =>
    have hvs := isCacheList_iff.1 hv
    show IsCacheList (stripList vs)
    rw [stripList_eq, isCacheList_iff, List.forall_mem_map]
    exact fun v hmem => ih v hmem (hvs v hmem)
  | dict items =>
    obtain ⟨⟨hnodup, -, hitems⟩, hnode⟩ := hv
    obtain ⟨key, v, hpayload⟩ := exists_payload hnode
    obtain ⟨hlookup, hkey⟩ := payload_cases hpayload
    have hitems := isTreeItems_iff.1 hitems
    have hfirst := hitems _ (mem_of_lookupItem hlookup)
    have hne := metadata_ne_payload hpayload
    have hnode' := isNode_stripped hpayload
    rw [strip_dict hpayload]
    rcases recorded_cases items with ⟨-, hrecorded⟩ | ⟨metadata, hmetadata, hrecorded⟩
    · rw [hrecorded] at hnode' ⊢
      exact ⟨⟨by simp, Or.inl hnode', hfirst, trivial⟩, hnode'⟩
    · have hsecond := hitems _ (mem_of_lookupItem (metadataOf_dict hmetadata))
      rw [hrecorded] at hnode' ⊢
      exact ⟨⟨by simpa using hne.symm, Or.inl hnode', hfirst, hsecond, trivial⟩, hnode'⟩
  | _ => exact hv.elim

theorem carried_metadata (metadata : List (Str × Value F)) :
    CarriedField keyMetadata (.dict metadata) ↔ Untouched (.dict metadata) := by
  have hverbatim : ¬ Verbatim keyMetadata := by decide
  rw [CarriedField, if_neg keyMetadata_ne.1, if_neg keyMetadata_ne.2, if_neg hverbatim]

/-- What is stored as JSON comes back: the children, and what is recorded. -/
theorem carried_strip_iff (v : Value F) (hv : IsCacheValue v) :
    Carried (stripMetadata v) ↔ InJson v := by
  induction v using Value.induction with
  | list vs ih =>
    have hvs := isCacheList_iff.1 hv
    show CarriedList (stripList vs) ↔ InJsonList vs
    rw [stripList_eq, carriedList_iff, List.forall_mem_map, inJsonList_iff]
    exact forall₂_congr fun v hmem => ih v hmem (hvs v hmem)
  | dict items =>
    obtain ⟨⟨-, -, hitems⟩, hnode⟩ := hv
    obtain ⟨key, v, hpayload⟩ := exists_payload hnode
    obtain ⟨hlookup, hkey⟩ := payload_cases hpayload
    have hfield := isTreeItems_iff.1 hitems _ (mem_of_lookupItem hlookup)
    have hnode' := isNode_stripped hpayload
    have hrecorded : (∀ p ∈ recorded items, CarriedField p.1 p.2) ↔
        ∀ metadata, metadataOf (.dict items) = some metadata → Untouched (.dict metadata) := by
      rcases recorded_cases items with ⟨hmetadata, hrecorded⟩ | ⟨metadata, hmetadata, hrecorded⟩
      · simp [hmetadata, hrecorded]
      · simp [hmetadata, hrecorded, carried_metadata]
    have hfirst : CarriedField key v ↔
        ∀ children, payload items = some (keyAssembly, children) → CarriedChildren children := by
      rcases hkey with rfl | rfl
      · obtain ⟨b, rfl, -⟩ : ∃ b, v = .bytes b ∧ IsBrep b := by
          simpa only [IsTreeField, if_true] using hfield
        have hcarried : CarriedField keyBrep (.bytes b : Value F) := by
          rw [CarriedField, if_pos rfl]
          exact ⟨b, rfl⟩
        refine iff_of_true hcarried fun children hchildren => ?_
        rw [hpayload] at hchildren
        exact absurd (Prod.mk.inj (Option.some.inj hchildren)).1.symm keyAssembly_ne
      · rw [CarriedField, if_neg keyAssembly_ne, if_pos rfl, hpayload]
        constructor
        · intro hchildren children heq
          rwa [← (Prod.mk.inj (Option.some.inj heq)).2]
        · exact fun h => h v rfl
    rw [strip_dict hpayload, Carried, if_pos hnode', carriedNode_iff, List.forall_mem_cons, hfirst,
      hrecorded, InJson, and_comm]
  | _ => exact hv.elim

theorem hasPayload_of_isCacheValue (v : Value F) (hv : IsCacheValue v) : HasPayload v := by
  induction v using Value.induction with
  | list vs ih =>
    induction vs with
    | nil => trivial
    | cons v vs ihvs =>
      exact ⟨ih v (List.mem_cons_self ..) hv.1,
        ihvs (fun w hw => ih w (List.mem_cons_of_mem _ hw)) hv.2⟩
  | dict items => exact hv.2
  | _ => exact hv.elim

end

/-! ## The entries -/

section

variable {F : Type} [PyFloat F]

/-- The outer layer is never what goes wrong. -/
theorem storedFaithfully_iff_read {v : Value F} (hv : IsCacheValue v) :
    StoredFaithfully v ↔ ∃ data, serialize v = some data ∧ formRead data = formWritten v ∧
      deserialize data = some (stripMetadata v) := by
  constructor
  · rintro ⟨data, w, hserialize, hform, hdeserialize, rfl, -⟩
    exact ⟨data, hserialize, hform, hdeserialize⟩
  · rintro ⟨data, hserialize, hform, hdeserialize⟩
    exact ⟨data, _, hserialize, hform, hdeserialize, rfl, fun outer houter =>
      wraps_applyMetadata houter v (hasPayload_of_isCacheValue v hv)⟩

/-- A value that is not a lone shape. -/
theorem storedFaithfully_iff_inJson {v : Value F} (hv : IsCacheValue v)
    (hshape : (∃ items, stripMetadata v = .dict items) ∨ ∃ vs, stripMetadata v = .list vs)
    (hlone : loneBrep (geometry v) = none)
    (hserialize : serialize v = ((Envelope.encode (stripMetadata v)).bind dumps).map Text.encode) :
    StoredFaithfully v ↔ InJson v := by
  have hform : formWritten v = .json := by rw [formWritten, hlone]
  have hpart : IsPart (stripMetadata v) :=
    Or.inr (Or.inr (Or.inr (Or.inl (isCacheValue_strip v hv))))
  rw [storedFaithfully_iff_read hv, hserialize, hform, ← carried_strip_iff v hv]
  exact deserialize_json_iff hshape fun w => isJson_encode (stripMetadata v) hpart

/-- A lone shape. -/
theorem storedFaithfully_iff_fits {items : List (Str × Value F)} (hv : IsCacheValue (.dict items))
    {b : Bytes} (hpayload : payload items = some (keyBrep, .bytes b)) (hb : IsBrep b) :
    StoredFaithfully (.dict items) ↔
      ∀ metadata, metadataOf (.dict items) = some metadata → FitsFrame metadata := by
  have hlone : loneBrep (geometry (.dict items)) = some (.bytes b) := by
    rw [geometry_dict hpayload, loneBrep, if_pos rfl]
  rw [storedFaithfully_iff_read hv, strip_dict hpayload, serialize, formWritten, hlone]
  rcases recorded_cases items with ⟨hmetadata, hrecorded⟩ | ⟨metadata, hmetadata, hrecorded⟩
  · rw [hmetadata, hrecorded]
    refine iff_of_true ⟨b, rfl, formRead_of_isBrep hb, ?_⟩ (by simp)
    rw [deserialize, formRead_of_isBrep hb]
  · obtain ⟨⟨-, -, hitems⟩, -⟩ := hv
    have hfield := isTreeItems_iff.1 hitems _ (mem_of_lookupItem (metadataOf_dict hmetadata))
    have hjson : IsJson (.dict metadata) := by
      rwa [IsTreeField, if_neg keyMetadata_ne.1, if_neg keyMetadata_ne.2] at hfield
    rw [hmetadata, hrecorded]
    simp only [brepBytes, Option.some.injEq, forall_eq']
    rw [← exists_frame_iff b]
    constructor
    · rintro ⟨data, hframe, -⟩
      exact ⟨data, hframe⟩
    · rintro ⟨data, hframe⟩
      exact ⟨data, hframe, deserialize_frame hjson hframe⟩

end

/-- A payload with something recorded about it. -/
theorem isCacheValue_pair {F : Type} {key : Str} {v w : Value F}
    (hkey : key = keyBrep ∨ key = keyAssembly) (hv : IsTreeField key v) (hw : IsJson w) :
    IsCacheValue (.dict [(key, v), (keyMetadata, w)]) := by
  have hnode : IsNode [(key, v), (keyMetadata, w)] := by
    rcases hkey with rfl | rfl
    · exact Or.inl (List.mem_cons_self ..)
    · exact Or.inr (List.mem_cons_self ..)
  have hne : key ≠ keyMetadata := by
    rcases hkey with rfl | rfl
    · exact keyMetadata_ne.1.symm
    · exact keyMetadata_ne.2.symm
  refine ⟨⟨by simpa using hne, Or.inl hnode, ?_⟩, hnode⟩
  rw [isTreeItems_iff, List.forall_mem_cons, List.forall_mem_singleton]
  refine ⟨hv, ?_⟩
  rwa [IsTreeField, if_neg keyMetadata_ne.1, if_neg keyMetadata_ne.2]

/-- A shape with its volume recorded. -/
def measured : Value DigitFloat :=
  .dict [(keyBrep, .bytes [40, 181, 47, 253]), (keyMetadata, .dict [("volume".toList, .int 3)])]

/-- An assembly of nothing, with a section recorded that has an entry called `brep`. -/
def sectioned : Value DigitFloat :=
  .dict [(keyAssembly, .list []),
    (keyMetadata, .dict [("sections".toList, .dict [(keyBrep, .int 5)])])]

end PartCAD.Cache
