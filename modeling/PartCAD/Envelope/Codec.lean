import Mathlib.Data.List.Basic
import PartCAD.Lib.Base64
import PartCAD.Lib.Value

/-!
# The codec of shape envelopes

A node is a dictionary with a payload under `brep` or `assembly`.  `encode` turns a value with bytes
and nodes in it into one that JSON can carry, and `decode` is to take it back.

* `encode_eq_self_iff` : the values that `encode` leaves as they are (`Untouched`);
* `decode_encode_iff` : the values that come back (`Carried`).  Under the other keys of a node,
  `encode` goes on and `decode` does not.
-/

namespace PartCAD.Envelope

open PartCAD.Lib PartCAD.Lib.Text PartCAD.Lib.Base64

/-! ## The functions -/

def keyBrep : Str := "brep".toList

def keyAssembly : Str := "assembly".toList

def keyBytes : Str := "__bytes__".toList

def keyLocation : Str := "location".toList

theorem keyBytes_ne : keyBytes ≠ keyBrep ∧ keyBytes ≠ keyAssembly := by decide

theorem keyAssembly_ne : keyAssembly ≠ keyBrep := by decide

/-- The keys of a node that `encode` copies. -/
def Verbatim (key : Str) : Prop := key = keyLocation ∨ key = "name".toList ∨ key = "label".toList

instance (key : Str) : Decidable (Verbatim key) := inferInstanceAs (Decidable (_ ∨ _))

section

variable {F : Type}

/-- `KEY_BREP in obj or KEY_ASSEMBLY in obj` -/
def IsNode (items : List (Str × Value F)) : Prop :=
  keyBrep ∈ items.map Prod.fst ∨ keyAssembly ∈ items.map Prod.fst

instance (items : List (Str × Value F)) : Decidable (IsNode items) :=
  inferInstanceAs (Decidable (_ ∨ _))

/-- `brep_base64` -/
def brepBase64 : Value F → Option (Value F)
  | .str s => some (.str s)
  | .bytes b => some (.str (b64encode b))
  | _ => none

/-- `brep_bytes` -/
def brepBytes : Value F → Option (Value F)
  | .bytes b => some (.bytes b)
  | .str s => (b64decode s).map .bytes
  | _ => none

/-- What iterating over a value gives when it is not a list: only scalars, which `encode` and
`decode` leave as they are. -/
def iterated : Value F → Option (List (Value F))
  | .str s => some (s.map fun c => .str [c])
  | .bytes b => some (b.map fun x => .int x.toNat)
  | .dict items => some (items.map fun p => .str p.1)
  | _ => none

mutual

@[grind =]
def encode : Value F → Option (Value F)
  | .dict items =>
    if IsNode items then (encodeNode items).map .dict else (encodeItems items).map .dict
  | .list vs => (encodeList vs).map .list
  | .bytes b => some (.dict [(keyBytes, .str (b64encode b))])
  | .none => some .none
  | .bool b => some (.bool b)
  | .int n => some (.int n)
  | .float x => some (.float x)
  | .str s => some (.str s)

/-- The value under `assembly`. -/
@[grind =]
def encodeChildren : Value F → Option (Value F)
  | .list vs => (encodeList vs).map .list
  | v => (iterated v).map .list

@[grind =]
def encodeList : List (Value F) → Option (List (Value F))
  | [] => some []
  | v :: vs => (encode v).bind fun w => (encodeList vs).map (w :: ·)

@[grind =]
def encodeItems : List (Str × Value F) → Option (List (Str × Value F))
  | [] => some []
  | (key, v) :: items => (encode v).bind fun w => (encodeItems items).map ((key, w) :: ·)

@[grind =]
def encodeNode : List (Str × Value F) → Option (List (Str × Value F))
  | [] => some []
  | (key, v) :: items =>
    (if key = keyBrep then brepBase64 v
      else if key = keyAssembly then encodeChildren v
      else if Verbatim key then some v
      else encode v).bind fun w => (encodeNode items).map ((key, w) :: ·)

end

/-- `base64.b64decode(obj[KEY_BYTES])` -/
def bytesUnder : List (Str × Value F) → Option Bytes
  | [(_, .str s)] => b64decode s
  | [(_, .bytes b)] => b64decodeBytes b
  | _ => none

mutual

@[grind =]
def decode : Value F → Option (Value F)
  | .dict items =>
    if IsNode items then (decodeNode items).map .dict
    else if items.map Prod.fst = [keyBytes] then (bytesUnder items).map .bytes
    else (decodeItems items).map .dict
  | .list vs => (decodeList vs).map .list
  | .bytes b => some (.bytes b)
  | .none => some .none
  | .bool b => some (.bool b)
  | .int n => some (.int n)
  | .float x => some (.float x)
  | .str s => some (.str s)

@[grind =]
def decodeChildren : Value F → Option (Value F)
  | .list vs => (decodeList vs).map .list
  | v => (iterated v).map .list

@[grind =]
def decodeList : List (Value F) → Option (List (Value F))
  | [] => some []
  | v :: vs => (decode v).bind fun w => (decodeList vs).map (w :: ·)

@[grind =]
def decodeItems : List (Str × Value F) → Option (List (Str × Value F))
  | [] => some []
  | (key, v) :: items => (decode v).bind fun w => (decodeItems items).map ((key, w) :: ·)

@[grind =]
def decodeNode : List (Str × Value F) → Option (List (Str × Value F))
  | [] => some []
  | (key, v) :: items =>
    (if key = keyBrep then brepBytes v
      else if key = keyAssembly then decodeChildren v
      else some v).bind fun w => (decodeNode items).map ((key, w) :: ·)

end

/-! ## The values that come back -/

mutual

/-- `encode` leaves the value as it is: it comes to no bytes in it. -/
def Untouched : Value F → Prop
  | .dict items => if IsNode items then UntouchedNode items else UntouchedItems items
  | .list vs => UntouchedList vs
  | .bytes _ => False
  | _ => True

def UntouchedChildren : Value F → Prop
  | .list vs => UntouchedList vs
  | _ => False

def UntouchedList : List (Value F) → Prop
  | [] => True
  | v :: vs => Untouched v ∧ UntouchedList vs

def UntouchedItems : List (Str × Value F) → Prop
  | [] => True
  | (_, v) :: items => Untouched v ∧ UntouchedItems items

def UntouchedNode : List (Str × Value F) → Prop
  | [] => True
  | (key, v) :: items =>
    (if key = keyBrep then ∃ s, v = .str s
      else if key = keyAssembly then UntouchedChildren v
      else if Verbatim key then True
      else Untouched v) ∧ UntouchedNode items

end

mutual

/-- No dictionary in the value has `__bytes__` for its only key, and every node has bytes under
`brep`, a list under `assembly`, and under the keys that are not copied values that `encode` leaves
as they are. -/
def Carried : Value F → Prop
  | .dict items =>
    if IsNode items then CarriedNode items
    else items.map Prod.fst ≠ [keyBytes] ∧ CarriedItems items
  | .list vs => CarriedList vs
  | _ => True

def CarriedChildren : Value F → Prop
  | .list vs => CarriedList vs
  | _ => False

def CarriedList : List (Value F) → Prop
  | [] => True
  | v :: vs => Carried v ∧ CarriedList vs

def CarriedItems : List (Str × Value F) → Prop
  | [] => True
  | (_, v) :: items => Carried v ∧ CarriedItems items

def CarriedNode : List (Str × Value F) → Prop
  | [] => True
  | (key, v) :: items =>
    (if key = keyBrep then ∃ b, v = .bytes b
      else if key = keyAssembly then CarriedChildren v
      else if Verbatim key then True
      else Untouched v) ∧ CarriedNode items

end

/-! ## Walks over lists and items -/

/-- The items with other values, each made from its key and its value. -/
def onItems (f : Str → Value F → Option (Value F)) (items : List (Str × Value F)) :
    Option (List (Str × Value F)) :=
  items.mapM fun p => (f p.1 p.2).map (p.1, ·)

theorem mapM_cons_eq {α β : Type} (f : α → Option β) (x : α) (xs : List α) :
    (x :: xs).mapM f = (f x).bind fun y => (xs.mapM f).map (y :: ·) := by
  rw [List.mapM_cons]
  cases f x <;> cases xs.mapM f <;> rfl

theorem mapM_eq_self {α : Type} {f : α → Option α} {xs : List α} :
    xs.mapM f = some xs ↔ ∀ x ∈ xs, f x = some x := by
  induction xs with
  | nil => simp
  | cons x xs ih =>
    rw [mapM_cons_eq, List.forall_mem_cons, ← ih]
    cases f x <;> cases xs.mapM f <;> simp

/-- One walk takes another one back exactly when it does so at every place. -/
theorem mapM_bind_mapM {α β : Type} {f : α → Option β} {g : β → Option α} {xs : List α} :
    ((xs.mapM f).bind fun ys => ys.mapM g) = some xs ↔ ∀ x ∈ xs, (f x).bind g = some x := by
  induction xs with
  | nil => simp
  | cons x xs ih =>
    rw [mapM_cons_eq, List.forall_mem_cons, ← ih]
    cases f x with
    | none => simp
    | some y =>
      cases xs.mapM f with
      | none => simp
      | some ys =>
        simp only [Option.map_some, Option.bind_some, mapM_cons_eq]
        cases g y <;> cases ys.mapM g <;> simp

theorem onItems_eq_self {f : Str → Value F → Option (Value F)} {items : List (Str × Value F)} :
    onItems f items = some items ↔ ∀ p ∈ items, f p.1 p.2 = some p.2 := by
  rw [onItems, mapM_eq_self]
  refine forall₂_congr fun p _ => ?_
  cases f p.1 p.2 <;> simp [Prod.ext_iff]

theorem onItems_bind_onItems {f g : Str → Value F → Option (Value F)}
    {items : List (Str × Value F)} :
    (onItems f items).bind (onItems g) = some items ↔
      ∀ p ∈ items, (f p.1 p.2).bind (g p.1) = some p.2 := by
  refine Iff.trans mapM_bind_mapM (forall₂_congr fun p _ => ?_)
  cases f p.1 p.2 with
  | none => simp
  | some w =>
    simp only [Option.map_some, Option.bind_some]
    cases g p.1 w <;> simp [Prod.ext_iff]

theorem keys_onItems {f : Str → Value F → Option (Value F)} {items ws : List (Str × Value F)}
    (h : onItems f items = some ws) : ws.map Prod.fst = items.map Prod.fst := by
  induction items generalizing ws with
  | nil =>
    cases h
    rfl
  | cons p items ih =>
    rw [onItems, mapM_cons_eq] at h
    obtain ⟨q, hq, h⟩ := Option.bind_eq_some_iff.1 h
    obtain ⟨w, -, rfl⟩ := Option.map_eq_some_iff.1 hq
    obtain ⟨rest, hrest, rfl⟩ := Option.map_eq_some_iff.1 h
    rw [List.map_cons, List.map_cons, ih hrest]

/-! ## The fields of a node -/

def encodeField (key : Str) (v : Value F) : Option (Value F) :=
  if key = keyBrep then brepBase64 v
  else if key = keyAssembly then encodeChildren v
  else if Verbatim key then some v
  else encode v

def decodeField (key : Str) (v : Value F) : Option (Value F) :=
  if key = keyBrep then brepBytes v else if key = keyAssembly then decodeChildren v else some v

def UntouchedField (key : Str) (v : Value F) : Prop :=
  if key = keyBrep then ∃ s, v = .str s
  else if key = keyAssembly then UntouchedChildren v
  else if Verbatim key then True
  else Untouched v

def CarriedField (key : Str) (v : Value F) : Prop :=
  if key = keyBrep then ∃ b, v = .bytes b
  else if key = keyAssembly then CarriedChildren v
  else if Verbatim key then True
  else Untouched v

theorem encodeList_eq (vs : List (Value F)) : encodeList vs = vs.mapM encode := by
  induction vs with
  | nil => rfl
  | cons v vs ih => rw [encodeList, mapM_cons_eq, ih]

theorem decodeList_eq (vs : List (Value F)) : decodeList vs = vs.mapM decode := by
  induction vs with
  | nil => rfl
  | cons v vs ih => rw [decodeList, mapM_cons_eq, ih]

theorem onItems_cons (f : Str → Value F → Option (Value F)) (key : Str) (v : Value F)
    (items : List (Str × Value F)) :
    onItems f ((key, v) :: items) =
      (f key v).bind fun w => (onItems f items).map ((key, w) :: ·) := by
  rw [onItems, mapM_cons_eq]
  cases f key v <;> rfl

theorem encodeItems_eq (items : List (Str × Value F)) :
    encodeItems items = onItems (fun _ => encode) items := by
  induction items with
  | nil => rfl
  | cons p items ih => rw [encodeItems, onItems_cons, ih]

theorem decodeItems_eq (items : List (Str × Value F)) :
    decodeItems items = onItems (fun _ => decode) items := by
  induction items with
  | nil => rfl
  | cons p items ih => rw [decodeItems, onItems_cons, ih]

theorem encodeNode_eq (items : List (Str × Value F)) :
    encodeNode items = onItems encodeField items := by
  induction items with
  | nil => rfl
  | cons p items ih =>
    rw [encodeNode, onItems_cons, ih]
    rfl

theorem decodeNode_eq (items : List (Str × Value F)) :
    decodeNode items = onItems decodeField items := by
  induction items with
  | nil => rfl
  | cons p items ih =>
    rw [decodeNode, onItems_cons, ih]
    rfl

theorem untouchedList_iff {vs : List (Value F)} : UntouchedList vs ↔ ∀ v ∈ vs, Untouched v := by
  induction vs with
  | nil => simp [UntouchedList]
  | cons v vs ih => rw [UntouchedList, ih, List.forall_mem_cons]

theorem untouchedItems_iff {items : List (Str × Value F)} :
    UntouchedItems items ↔ ∀ p ∈ items, Untouched p.2 := by
  induction items with
  | nil => simp [UntouchedItems]
  | cons p items ih => rw [UntouchedItems, ih, List.forall_mem_cons]

theorem untouchedNode_iff {items : List (Str × Value F)} :
    UntouchedNode items ↔ ∀ p ∈ items, UntouchedField p.1 p.2 := by
  induction items with
  | nil => simp [UntouchedNode]
  | cons p items ih =>
    rw [UntouchedNode, ih, List.forall_mem_cons]
    rfl

theorem carriedList_iff {vs : List (Value F)} : CarriedList vs ↔ ∀ v ∈ vs, Carried v := by
  induction vs with
  | nil => simp [CarriedList]
  | cons v vs ih => rw [CarriedList, ih, List.forall_mem_cons]

theorem carriedItems_iff {items : List (Str × Value F)} :
    CarriedItems items ↔ ∀ p ∈ items, Carried p.2 := by
  induction items with
  | nil => simp [CarriedItems]
  | cons p items ih => rw [CarriedItems, ih, List.forall_mem_cons]

theorem carriedNode_iff {items : List (Str × Value F)} :
    CarriedNode items ↔ ∀ p ∈ items, CarriedField p.1 p.2 := by
  induction items with
  | nil => simp [CarriedNode]
  | cons p items ih =>
    rw [CarriedNode, ih, List.forall_mem_cons]
    rfl

/-! ## What `encode` leaves as it is -/

theorem map_eq_some_self {α β : Type} {f : α → β} (hf : Function.Injective f) {o : Option α}
    {a : α} : o.map f = some (f a) ↔ o = some a := by
  cases o <;> simp [hf.eq_iff]

theorem list_injective : Function.Injective (Value.list : List (Value F) → Value F) :=
  fun _ _ h => Value.list.inj h

theorem dict_injective : Function.Injective (Value.dict : List (Str × Value F) → Value F) :=
  fun _ _ h => Value.dict.inj h

theorem encodeField_eq_self_iff {v : Value F} (h : encode v = some v ↔ Untouched v) (key : Str) :
    encodeField key v = some v ↔ UntouchedField key v := by
  unfold encodeField UntouchedField
  by_cases hbrep : key = keyBrep
  · rw [if_pos hbrep, if_pos hbrep]
    cases v <;> simp [brepBase64]
  · rw [if_neg hbrep, if_neg hbrep]
    by_cases hassembly : key = keyAssembly
    · rw [if_pos hassembly, if_pos hassembly]
      cases v with
      | list vs => exact h
      | _ => simp [encodeChildren, iterated, UntouchedChildren]
    · rw [if_neg hassembly, if_neg hassembly]
      by_cases hverbatim : Verbatim key
      · simp [hverbatim]
      · simpa [hverbatim] using h

/-- **What `encode` leaves as it is.** -/
theorem encode_eq_self_iff (v : Value F) : encode v = some v ↔ Untouched v := by
  induction v using Value.induction with
  | none => simp [encode, Untouched]
  | bool b => simp [encode, Untouched]
  | int n => simp [encode, Untouched]
  | float x => simp [encode, Untouched]
  | str s => simp [encode, Untouched]
  | bytes b => simp [encode, Untouched]
  | list vs ih =>
    rw [encode, Untouched, map_eq_some_self list_injective, encodeList_eq, mapM_eq_self,
      untouchedList_iff]
    exact forall₂_congr ih
  | dict items ih =>
    rw [encode, Untouched]
    by_cases hnode : IsNode items
    · rw [if_pos hnode, if_pos hnode, map_eq_some_self dict_injective, encodeNode_eq,
        onItems_eq_self, untouchedNode_iff]
      exact forall₂_congr fun p hp => encodeField_eq_self_iff (ih p hp) p.1
    · rw [if_neg hnode, if_neg hnode, map_eq_some_self dict_injective, encodeItems_eq,
        onItems_eq_self, untouchedItems_iff]
      exact forall₂_congr ih

/-! ## What `decode` takes back -/

theorem decodeChildren_list {o : Option (List (Value F))} {v : Value F}
    (h : (o.map Value.list).bind decodeChildren = some v) : ∃ vs, v = .list vs := by
  cases o with
  | none => cases h
  | some us =>
    obtain ⟨ws, -, rfl⟩ := Option.map_eq_some_iff.1 h
    exact ⟨ws, rfl⟩

theorem decodeField_encodeField_iff {v : Value F} (h : (encode v).bind decode = some v ↔ Carried v)
    (key : Str) : (encodeField key v).bind (decodeField key) = some v ↔ CarriedField key v := by
  unfold encodeField CarriedField
  by_cases hbrep : key = keyBrep
  · have hdecode : decodeField key = (brepBytes : Value F → _) := by
      funext w
      rw [decodeField, if_pos hbrep]
    rw [if_pos hbrep, if_pos hbrep, hdecode]
    cases v with
    | bytes b => simp [brepBase64, brepBytes, b64decode_b64encode]
    | str s => simp [brepBase64, brepBytes]
    | _ => simp [brepBase64]
  · rw [if_neg hbrep, if_neg hbrep]
    by_cases hassembly : key = keyAssembly
    · have hdecode : decodeField key = (decodeChildren : Value F → _) := by
        funext w
        rw [decodeField, if_neg hbrep, if_pos hassembly]
      rw [if_pos hassembly, if_pos hassembly, hdecode]
      have hnot : (∀ vs, v ≠ .list vs) → encodeChildren v = (iterated v).map .list →
          ((encodeChildren v).bind decodeChildren = some v ↔ False) := by
        intro hlist heq
        refine iff_false_intro fun hsome => ?_
        rw [heq] at hsome
        obtain ⟨vs, hvs⟩ := decodeChildren_list hsome
        exact hlist vs hvs
      cases v with
      | list vs =>
        have hsame : (encodeChildren (.list vs)).bind decodeChildren =
            (encode (.list vs)).bind (decode : Value F → _) := by
          rw [encodeChildren, encode]
          cases encodeList vs <;> rfl
        rw [hsame]
        exact h
      | _ => exact hnot (by simp) rfl
    · have hdecode : ∀ w : Value F, decodeField key w = some w := by
        intro w
        rw [decodeField, if_neg hbrep, if_neg hassembly]
      rw [if_neg hassembly, if_neg hassembly]
      by_cases hverbatim : Verbatim key
      · simp [hverbatim, hdecode]
      · rw [if_neg hverbatim, if_neg hverbatim, ← encode_eq_self_iff]
        cases encode v <;> simp [hdecode]

theorem decode_encode_list (vs : List (Value F)) :
    (encode (.list vs)).bind decode = some (.list vs) ↔
      (encodeList vs).bind decodeList = some vs := by
  rw [encode]
  cases encodeList vs with
  | none => simp
  | some ws =>
    simp only [Option.map_some, Option.bind_some, decode]
    exact map_eq_some_self list_injective

theorem decode_encode_node {items : List (Str × Value F)} (hnode : IsNode items) :
    (encode (.dict items)).bind decode = some (.dict items) ↔
      (encodeNode items).bind decodeNode = some items := by
  rw [encode, if_pos hnode]
  cases hws : encodeNode items with
  | none => simp
  | some ws =>
    rw [encodeNode_eq] at hws
    have hnode' : IsNode ws := by rwa [IsNode, keys_onItems hws]
    simp only [Option.map_some, Option.bind_some, decode, if_pos hnode']
    exact map_eq_some_self dict_injective

theorem decode_encode_items {items : List (Str × Value F)} (hnode : ¬ IsNode items) :
    (encode (.dict items)).bind decode = some (.dict items) ↔
      items.map Prod.fst ≠ [keyBytes] ∧ (encodeItems items).bind decodeItems = some items := by
  rw [encode, if_neg hnode]
  cases hws : encodeItems items with
  | none => simp
  | some ws =>
    rw [encodeItems_eq] at hws
    have hkeys := keys_onItems hws
    have hnode' : ¬ IsNode ws := by rwa [IsNode, hkeys]
    simp only [Option.map_some, Option.bind_some, decode, if_neg hnode', hkeys]
    by_cases hbytes : items.map Prod.fst = [keyBytes]
    · rw [if_pos hbytes]
      cases bytesUnder ws <;> simp [hbytes]
    · rw [if_neg hbytes, map_eq_some_self dict_injective]
      simp [hbytes]

/-- **The codec.** `decode` takes back what `encode` did exactly on the values that are carried. -/
theorem decode_encode_iff (v : Value F) : (encode v).bind decode = some v ↔ Carried v := by
  induction v using Value.induction with
  | none => simp [encode, decode, Carried]
  | bool b => simp [encode, decode, Carried]
  | int n => simp [encode, decode, Carried]
  | float x => simp [encode, decode, Carried]
  | str s => simp [encode, decode, Carried]
  | bytes b =>
    have hplain : ¬ IsNode [(keyBytes, (.str (b64encode b) : Value F))] := by
      simp [IsNode, Ne.symm keyBytes_ne.1, Ne.symm keyBytes_ne.2]
    simp [encode, decode, Carried, hplain, bytesUnder, b64decode_b64encode]
  | list vs ih =>
    rw [decode_encode_list, Carried, carriedList_iff, encodeList_eq, funext decodeList_eq,
      mapM_bind_mapM]
    exact forall₂_congr ih
  | dict items ih =>
    rw [Carried]
    by_cases hnode : IsNode items
    · rw [if_pos hnode, decode_encode_node hnode, encodeNode_eq, funext decodeNode_eq,
        onItems_bind_onItems, carriedNode_iff]
      exact forall₂_congr fun p hp => decodeField_encodeField_iff (ih p hp) p.1
    · rw [if_neg hnode, decode_encode_items hnode, encodeItems_eq, funext decodeItems_eq,
        onItems_bind_onItems, carriedItems_iff]
      exact and_congr_right fun _ => forall₂_congr ih

end

/-- A shape with a picture of itself. -/
def pictured : Value DigitFloat := .dict [(keyBrep, .bytes []), ("picture".toList, .bytes [])]

theorem not_decode_encode_pictured : ¬ (encode pictured).bind decode = some pictured := by
  have hnode : ∀ v w : Value DigitFloat, IsNode [(keyBrep, v), ("picture".toList, w)] := by
    intro v w
    exact Or.inl (List.mem_cons_self ..)
  have hbrep : "picture".toList ≠ keyBrep := by decide
  have hassembly : "picture".toList ≠ keyAssembly := by decide
  have hverbatim : ¬ Verbatim "picture".toList := by decide
  have hencode : encode pictured = some (.dict [(keyBrep, .str []),
      ("picture".toList, .dict [(keyBytes, .str [])])]) := by
    rw [pictured, encode, if_pos (hnode _ _), encodeNode, if_pos rfl, encodeNode, if_neg hbrep,
      if_neg hassembly, if_neg hverbatim]
    rfl
  have hdecode : decode (.dict [(keyBrep, .str []),
      ("picture".toList, .dict [(keyBytes, .str [])])] : Value DigitFloat) =
        some (.dict [(keyBrep, .bytes []), ("picture".toList, .dict [(keyBytes, .str [])])]) := by
    rw [decode, if_pos (hnode _ _), decodeNode, if_pos rfl, decodeNode, if_neg hbrep,
      if_neg hassembly]
    rfl
  rw [hencode, Option.bind_some, hdecode, pictured]
  intro h
  cases h

end PartCAD.Envelope
