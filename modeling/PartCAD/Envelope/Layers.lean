import Mathlib.Tactic.Common
import PartCAD.Envelope.Codec
import PartCAD.Lib.Dict

/-!
# The outer layer of shape envelopes

What says which object a node is, as against its payload and what was recorded about the payload.
`stripMetadata` takes the outer layer off and `applyMetadata` puts another one around.

* `wraps_applyMetadata` : the result has the keys of the new outer layer, and of the node itself the
  payload and the recorded metadata only.
-/

namespace PartCAD.Envelope

open PartCAD.Lib

def keyMetadata : Str := "metadata".toList

theorem keyMetadata_ne : keyMetadata ≠ keyBrep ∧ keyMetadata ≠ keyAssembly := by decide

variable {F : Type}

/-! ## The functions -/

/-- `payload_key(obj)`, and what is under that key. -/
def payload (items : List (Str × Value F)) : Option (Str × Value F) :=
  match lookupItem keyBrep items with
  | some v => some (keyBrep, v)
  | none => (lookupItem keyAssembly items).map (keyAssembly, ·)

/-- `metadata_of`: a dictionary with something in it. -/
def metadataOf : Value F → Option (List (Str × Value F))
  | .dict items =>
    match lookupItem keyMetadata items with
    | some (.dict (p :: ps)) => some (p :: ps)
    | _ => none
  | _ => none

/-- The item that `strip_metadata` keeps beside the payload. -/
def recorded (items : List (Str × Value F)) : List (Str × Value F) :=
  match metadataOf (.dict items) with
  | some metadata => [(keyMetadata, .dict metadata)]
  | none => []

mutual

/-- `strip_metadata` -/
def stripMetadata : Value F → Value F
  | .list vs => .list (stripList vs)
  | .dict items =>
    match payload items with
    | some p => .dict (p :: recorded items)
    | none => .dict items
  | v => v

def stripList : List (Value F) → List (Value F)
  | [] => []
  | v :: vs => stripMetadata v :: stripList vs

end

mutual

/-- `apply_metadata` -/
def applyMetadata (outer : Option (List (Str × Value F))) : Value F → Value F
  | .list vs => .list (applyList outer vs)
  | .dict items =>
    match payload items with
    | some (key, v) =>
      let wrapped := setItem key v (outer.getD [])
      match metadataOf (.dict items) with
      | some own => .dict (setItem keyMetadata (.dict own) wrapped)
      | none => .dict wrapped
    | none => .dict items
  | v => v

def applyList (outer : Option (List (Str × Value F))) : List (Value F) → List (Value F)
  | [] => []
  | v :: vs => applyMetadata outer v :: applyList outer vs

end

/-! ## What they are for -/

/-- The items of an outer layer, with the payload and the recorded metadata of a node in it. -/
def IsWrapped (outer : Option (List (Str × Value F))) (items ws : List (Str × Value F)) : Prop :=
  (ws.map Prod.fst).Nodup ∧ ∃ key v, payload items = some (key, v) ∧ ∀ k, lookupItem k ws =
    if k = key then some v
    else if k = keyMetadata then
      ((metadataOf (.dict items)).map .dict).or (lookupItem k (outer.getD []))
    else lookupItem k (outer.getD [])

mutual

/-- Every node is the other one in an outer layer. -/
def Wraps (outer : Option (List (Str × Value F))) : Value F → Value F → Prop
  | .dict items, .dict ws => IsWrapped outer items ws
  | .list vs, .list ws => WrapsList outer vs ws
  | _, _ => False

def WrapsList (outer : Option (List (Str × Value F))) : List (Value F) → List (Value F) → Prop
  | [], [] => True
  | v :: vs, w :: ws => Wraps outer v w ∧ WrapsList outer vs ws
  | _, _ => False

end

mutual

/-- A node with a payload, or a list of such values. -/
def HasPayload : Value F → Prop
  | .dict items => IsNode items
  | .list vs => HasPayloadList vs
  | _ => False

def HasPayloadList : List (Value F) → Prop
  | [] => True
  | v :: vs => HasPayload v ∧ HasPayloadList vs

end

/-! ## Payload and metadata of a node -/

theorem payload_of_brep {items : List (Str × Value F)} {v : Value F}
    (h : lookupItem keyBrep items = some v) : payload items = some (keyBrep, v) := by
  rw [payload, h]

theorem payload_of_assembly {items : List (Str × Value F)} {v : Value F}
    (hbrep : keyBrep ∉ items.map Prod.fst) (h : lookupItem keyAssembly items = some v) :
    payload items = some (keyAssembly, v) := by
  rw [payload, lookupItem_eq_none.2 hbrep, h]
  rfl

theorem exists_lookupItem {key : Str} {items : List (Str × Value F)}
    (h : key ∈ items.map Prod.fst) : ∃ v, lookupItem key items = some v := by
  cases hlookup : lookupItem key items with
  | none => exact absurd h (lookupItem_eq_none.1 hlookup)
  | some v => exact ⟨v, rfl⟩

theorem exists_payload {items : List (Str × Value F)} (h : IsNode items) :
    ∃ key v, payload items = some (key, v) := by
  by_cases hbrep : keyBrep ∈ items.map Prod.fst
  · obtain ⟨v, hv⟩ := exists_lookupItem hbrep
    exact ⟨keyBrep, v, payload_of_brep hv⟩
  · obtain ⟨v, hv⟩ := exists_lookupItem (h.resolve_left hbrep)
    exact ⟨keyAssembly, v, payload_of_assembly hbrep hv⟩

theorem payload_cases {items : List (Str × Value F)} {key : Str} {v : Value F}
    (h : payload items = some (key, v)) :
    lookupItem key items = some v ∧ (key = keyBrep ∨ key = keyAssembly) := by
  unfold payload at h
  cases hbrep : lookupItem keyBrep items with
  | some w =>
    rw [hbrep] at h
    obtain ⟨rfl, rfl⟩ := Prod.mk.inj (Option.some.inj h)
    exact ⟨hbrep, Or.inl rfl⟩
  | none =>
    rw [hbrep] at h
    obtain ⟨w, hw, hkey⟩ := Option.map_eq_some_iff.1 h
    obtain ⟨rfl, rfl⟩ := Prod.mk.inj hkey
    exact ⟨hw, Or.inr rfl⟩

theorem metadata_ne_payload {items : List (Str × Value F)} {key : Str} {v : Value F}
    (h : payload items = some (key, v)) : keyMetadata ≠ key := by
  rcases (payload_cases h).2 with rfl | rfl
  · exact keyMetadata_ne.1
  · exact keyMetadata_ne.2

theorem metadataOf_dict {items : List (Str × Value F)} {metadata : List (Str × Value F)}
    (h : metadataOf (.dict items) = some metadata) :
    lookupItem keyMetadata items = some (.dict metadata) := by
  simp only [metadataOf] at h
  split at h
  · rename_i hlookup
    rw [hlookup, Option.some.inj h]
  · cases h

/-! ## A stripped node -/

theorem stripList_eq (vs : List (Value F)) : stripList vs = vs.map stripMetadata := by
  induction vs with
  | nil => rfl
  | cons v vs ih => rw [stripList, ih, List.map_cons]

theorem strip_dict {items : List (Str × Value F)} {key : Str} {v : Value F}
    (h : payload items = some (key, v)) :
    stripMetadata (.dict items) = .dict ((key, v) :: recorded items) := by
  rw [stripMetadata, h]

theorem recorded_cases (items : List (Str × Value F)) :
    (metadataOf (.dict items) = none ∧ recorded items = []) ∨
      ∃ metadata, metadataOf (.dict items) = some metadata ∧
        recorded items = [(keyMetadata, .dict metadata)] := by
  unfold recorded
  cases hmetadata : metadataOf (.dict items) with
  | none => exact Or.inl ⟨rfl, rfl⟩
  | some metadata => exact Or.inr ⟨metadata, rfl, rfl⟩

theorem isNode_stripped {items : List (Str × Value F)} {key : Str} {v : Value F}
    (h : payload items = some (key, v)) : IsNode ((key, v) :: recorded items) := by
  rcases (payload_cases h).2 with rfl | rfl
  · exact Or.inl (List.mem_cons_self ..)
  · exact Or.inr (List.mem_cons_self ..)

theorem payload_stripped {items : List (Str × Value F)} {key : Str} {v : Value F}
    (h : payload items = some (key, v)) : payload ((key, v) :: recorded items) = some (key, v) := by
  rcases (payload_cases h).2 with rfl | rfl
  · exact payload_of_brep (if_pos rfl)
  · refine payload_of_assembly ?_ (if_pos rfl)
    have hrecorded : keyBrep ∉ (recorded items).map Prod.fst := by
      rcases recorded_cases items with ⟨-, hrecorded⟩ | ⟨metadata, -, hrecorded⟩
      · simp [hrecorded]
      · simpa [hrecorded] using keyMetadata_ne.1.symm
    rw [List.map_cons, List.mem_cons, not_or]
    exact ⟨keyAssembly_ne.symm, hrecorded⟩

theorem metadataOf_stripped {items : List (Str × Value F)} {key : Str} {v : Value F}
    (h : payload items = some (key, v)) :
    metadataOf (.dict ((key, v) :: recorded items)) = metadataOf (.dict items) := by
  have hne := (metadata_ne_payload h).symm
  rcases recorded_cases items with ⟨hmetadata, hrecorded⟩ | ⟨metadata, hmetadata, hrecorded⟩
  · rw [hmetadata]
    simp only [metadataOf, lookupItem, hrecorded, if_neg hne]
  · have hnonempty : metadata ≠ [] := by
      rintro rfl
      have hlookup := metadataOf_dict hmetadata
      simp only [metadataOf, hlookup] at hmetadata
      cases hmetadata
    obtain ⟨p, ps, rfl⟩ := List.exists_cons_of_ne_nil hnonempty
    rw [hmetadata]
    simp only [metadataOf, lookupItem, hrecorded, if_neg hne, if_true]

theorem nodup_keys_setItem {key : Str} {v : Value F} {items : List (Str × Value F)}
    (h : (items.map Prod.fst).Nodup) : ((setItem key v items).map Prod.fst).Nodup :=
  (Dict.set ⟨items, h⟩ key v).nodup

/-- **The outer layer.** What is stripped and then wrapped has the new outer layer, with its own
payload and its own recorded metadata. -/
theorem wraps_applyMetadata {outer : Option (List (Str × Value F))}
    (houter : ((outer.getD []).map Prod.fst).Nodup) (v : Value F) (hv : HasPayload v) :
    Wraps outer v (applyMetadata outer (stripMetadata v)) := by
  induction v using Value.induction with
  | list vs ih =>
    induction vs with
    | nil => trivial
    | cons v vs ihvs =>
      obtain ⟨hv, hvs⟩ := hv
      exact ⟨ih v (List.mem_cons_self ..) hv,
        ihvs (fun w hw => ih w (List.mem_cons_of_mem _ hw)) hvs⟩
  | dict items =>
    obtain ⟨key, v, hpayload⟩ := exists_payload hv
    have hne := metadata_ne_payload hpayload
    rw [strip_dict hpayload, applyMetadata, payload_stripped hpayload]
    simp only [metadataOf_stripped hpayload]
    cases hmetadata : metadataOf (.dict items) with
    | none =>
      refine ⟨nodup_keys_setItem houter, key, v, hpayload, fun k => ?_⟩
      rw [hmetadata, lookupItem_setItem]
      by_cases hk : k = key
      · rw [if_pos hk, if_pos hk.symm]
      · rw [if_neg hk, if_neg (Ne.symm hk)]
        simp
    | some own =>
      refine ⟨nodup_keys_setItem (nodup_keys_setItem houter), key, v, hpayload, fun k => ?_⟩
      rw [hmetadata, lookupItem_setItem, lookupItem_setItem]
      by_cases hk : k = key
      · have hkm : keyMetadata ≠ k := by rwa [hk]
        rw [if_pos hk, if_neg hkm, if_pos hk.symm]
      · rw [if_neg hk, if_neg (Ne.symm hk)]
        by_cases hkm : k = keyMetadata
        · rw [if_pos hkm, if_pos hkm.symm]
          rfl
        · rw [if_neg hkm, if_neg (Ne.symm hkm)]
  | _ => exact hv.elim

end PartCAD.Envelope
