import PartCAD.Expression.Executed

/-!
# How long the answers in an expression are

* `Short` : a value is no longer than so much, when there is one;
* `short_textMethod`, ... : what the functions, the methods and the operators give;
* `extent_padded` : a padded text is as long as a number says;
* `executed_short` : **no other operation** of an accepted expression gives texts or lists that are longer
  than the square of what it is about.
-/

namespace PartCAD.Expr

open PartCAD.Lib PartCAD.Lib.Substrings

variable {F : Type}

/-! ## Lengths of values -/

@[simp] theorem extent_none : extent (.none : Value F) = 0 := rfl
@[simp] theorem extent_num (n : Number F) : extent (.num n) = 0 := rfl
@[simp] theorem extent_other (type : Str) : extent (.other type : Value F) = 0 := rfl
@[simp] theorem extent_str (s : Str) : extent (.str s : Value F) = s.length := rfl
@[simp] theorem extent_bytes (s : Str) : extent (.bytes s : Value F) = s.length := rfl

theorem extent_ofText (isBytes : Bool) (s : Str) : extent (ofText isBytes s : Value F) = s.length := by
  cases isBytes <;> rfl

/-- The lengths of several values. -/
def extents (vs : List (Value F)) : ℕ := (vs.map extent).sum

@[simp] theorem extents_nil : extents ([] : List (Value F)) = 0 := rfl

@[simp] theorem extents_cons (v : Value F) (vs : List (Value F)) : extents (v :: vs) = extent v + extents vs := by
  rw [extents, extents, List.map_cons, List.sum_cons]

theorem extent_le_extents {v : Value F} {vs : List (Value F)} (h : v ∈ vs) : extent v ≤ extents vs :=
  List.single_le_sum (fun _ _ => Nat.zero_le _) _ (List.mem_map_of_mem h)

theorem extent_list (vs : List (Value F)) : extent (.list vs) = extents vs + vs.length := by
  rw [extent, total, totals_eq]
  rfl

theorem extent_tuple (vs : List (Value F)) : extent (.tuple vs) = extents vs + vs.length := by
  rw [extent, total, totals_eq]
  rfl

theorem extents_ofText (isBytes : Bool) (ps : List Str) :
    extents (ps.map (ofText (F := F) isBytes)) = (ps.map List.length).sum := by
  induction ps with
  | nil => rfl
  | cons p ps ih => rw [List.map_cons, extents_cons, ih, extent_ofText, List.map_cons, List.sum_cons]

/-- What a value goes through is no more than the value. -/
theorem extents_iterate {v : Value F} {vs : List (Value F)} (h : iterate v = .ok vs) :
    extents vs ≤ extent v ∧ vs.length ≤ extent v := by
  cases v with
  | str s =>
    cases h
    have hsum : extents (s.map fun c => (.str [c] : Value F)) = s.length := by
      induction s with
      | nil => rfl
      | cons c s ih =>
        rw [List.map_cons, extents_cons, ih, extent_str, List.length_singleton, List.length_cons]
        omega
    rw [hsum, extent_str, List.length_map]
    exact ⟨le_refl _, le_refl _⟩
  | bytes s =>
    cases h
    have hsum : extents (s.map fun c => (.num (.int c.toNat) : Value F)) = 0 := by
      induction s with
      | nil => rfl
      | cons c s ih => rw [List.map_cons, extents_cons, ih, extent_num]
    rw [hsum, extent_bytes, List.length_map]
    exact ⟨Nat.zero_le _, le_refl _⟩
  | list ws =>
    cases h
    rw [extent_list]
    omega
  | tuple ws =>
    cases h
    rw [extent_tuple]
    omega
  | dict items =>
    cases h
    rw [List.length_map]
    have hitems : extents (items.map Prod.fst) + items.length ≤ extent (.dict items) := by
      rw [extent, total]
      induction items with
      | nil => exact le_refl _
      | cons item items ih =>
        obtain ⟨k, w⟩ := item
        rw [List.map_cons, extents_cons, List.length_cons, totalItems]
        have hk : extent (k, w).1 = total (fun _ => 0) k := rfl
        omega
    omega
  | _ => cases h

/-! ## Answers -/

/-- It is no longer than so much, when there is one. -/
def Short (n : ℕ) (r : Except Str (Value F)) : Prop := ∀ v, r = .ok v → extent v ≤ n

section Answers

variable {m n : ℕ}

theorem Short.mono {r : Except Str (Value F)} (h : Short m r) (hle : m ≤ n) : Short n r :=
  fun v hv => (h v hv).trans hle

theorem short_error (n : ℕ) (e : Str) : Short (F := F) n (.error e) := by
  intro v h
  cases h

theorem short_ok {v : Value F} (h : extent v ≤ n) : Short n (.ok v) := by
  intro w hw
  cases hw
  exact h

theorem OnlyNumber.short {r : Except Str (Value F)} (h : OnlyNumber r) (n : ℕ) : Short n r := by
  intro v hv
  obtain ⟨a, rfl⟩ := h v hv
  exact Nat.zero_le _

theorem short_bind {α : Type} {r : Except Str α} {f : α → Except Str (Value F)}
    (h : ∀ a, r = .ok a → Short n (f a)) : Short n (r >>= f) := by
  cases r with
  | error e => exact short_error n e
  | ok a => exact h a rfl

theorem short_map {α : Type} {r : Except Str α} {f : α → Value F} (h : ∀ a, r = .ok a → extent (f a) ≤ n) :
    Short n (r.map f) := by
  cases r with
  | error e => exact short_error n e
  | ok a => exact short_ok (h a rfl)

theorem short_textAnswer {isBytes : Bool} {r : Except Str Str} (h : ∀ s, r = .ok s → s.length ≤ n) :
    Short (F := F) n (textAnswer isBytes r) :=
  short_map fun s hs => (extent_ofText isBytes s).trans_le (h s hs)

theorem short_textsAnswer {isBytes : Bool} {r : Except Str (List Str)} (h : ∀ ps, r = .ok ps → Cut n ps) :
    Short (F := F) (2 * n + 1) (textsAnswer isBytes r) := by
  refine short_map fun ps hps => ?_
  have htotal := (h ps hps).total
  have hcount := (h ps hps).count
  rw [extent_list, extents_ofText, List.length_map]
  omega

theorem short_partsAnswer {isBytes : Bool} {r : Except Str (Str × Str × Str)}
    (h : ∀ p, r = .ok p → p.1.length + p.2.1.length + p.2.2.length ≤ n) :
    Short (F := F) (n + 3) (partsAnswer isBytes r) := by
  refine short_map ?_
  rintro ⟨p, q, s⟩ hp
  have hlength := h _ hp
  dsimp only at hlength
  rw [extent_tuple]
  simp only [extents_cons, extents_nil, extent_ofText, List.length_cons, List.length_nil]
  omega

theorem ok_of_map {α β : Type} {r : Except Str α} {f : α → β} {b : β} (h : r.map f = .ok b) :
    ∃ a, r = .ok a ∧ f a = b := by
  cases r with
  | error e => cases h
  | ok a => exact ⟨a, rfl, Except.ok.inj h⟩

theorem ok_of_plain {α : Type} {args : List (Value F)} {answer a : α} (h : plain args answer = .ok a) :
    answer = a := by
  rw [plain] at h
  split at h
  · exact Except.ok.inj h
  · cases h

end Answers

/-! ## Arguments -/

theorem length_asText {isBytes : Bool} {v : Value F} {s : Str} (h : asText isBytes v = .ok s) :
    s.length = extent v := by
  cases v with
  | str t =>
    cases isBytes with
    | false =>
      cases h
      rfl
    | true => cases h
  | bytes t =>
    cases isBytes with
    | false => cases h
    | true =>
      cases h
      rfl
  | _ => cases h

theorem lengths_asText {isBytes : Bool} {vs : List (Value F)} {ps : List Str}
    (h : mapAll (asText isBytes) vs = .ok ps) :
    (ps.map List.length).sum = extents vs ∧ ps.length = vs.length := by
  induction vs generalizing ps with
  | nil =>
    cases h
    exact ⟨rfl, rfl⟩
  | cons v vs ih =>
    rw [mapAll] at h
    obtain ⟨p, hp, h⟩ := ok_of_bind h
    obtain ⟨rest, hrest, h⟩ := ok_of_bind h
    cases h
    obtain ⟨hsum, hlength⟩ := ih hrest
    rw [List.map_cons, List.sum_cons, hsum, extents_cons, length_asText hp, List.length_cons, hlength,
      List.length_cons]
    exact ⟨rfl, rfl⟩

theorem length_oneText {isBytes : Bool} {args : List (Value F)} {s : Str} (h : oneText isBytes args = .ok s) :
    s.length = extents args := by
  cases args with
  | nil => cases h
  | cons v rest =>
    cases rest with
    | nil => rw [extents_cons, extents_nil, Nat.add_zero, length_asText h]
    | cons w rest => cases h

theorem length_partitionArgs {isBytes : Bool} {args : List (Value F)} {s : Str}
    (h : partitionArgs isBytes args = .ok s) : s.length = extents args := by
  rw [partitionArgs] at h
  obtain ⟨sep, hsep, h⟩ := ok_of_bind h
  split at h
  · cases h
  · cases h
    exact length_oneText hsep

theorem length_replaceArgs {isBytes : Bool} {args : List (Value F)} {old new : Str} {limit : Option ℕ}
    (h : replaceArgs isBytes args = .ok (old, new, limit)) : new.length ≤ extents args := by
  unfold replaceArgs at h
  split at h
  · obtain ⟨p, hp, h⟩ := ok_of_bind h
    obtain ⟨q, hq, h⟩ := ok_of_bind h
    cases h
    rw [length_asText hq]
    exact extent_le_extents (by simp)
  · obtain ⟨p, hp, h⟩ := ok_of_bind h
    obtain ⟨q, hq, h⟩ := ok_of_bind h
    obtain ⟨i, hi, h⟩ := ok_of_bind h
    cases h
    rw [length_asText hq]
    exact extent_le_extents (by simp)
  · cases h

/-! ## The methods of texts -/

section

variable (fl : Floats F) (rt : Runtime F)

theorem length_joinAll {isBytes : Bool} {v : Value F} {s t : Str}
    (h : (iterate v >>= fun vs => (mapAll (asText isBytes) vs).map (joined s)) = .ok t) :
    t.length ≤ extent v + extent v * s.length := by
  obtain ⟨vs, hvs, h⟩ := ok_of_bind h
  obtain ⟨ps, hps, rfl⟩ := ok_of_map h
  obtain ⟨hsum, hlength⟩ := lengths_asText hps
  obtain ⟨htexts, hcount⟩ := extents_iterate hvs
  calc (joined s ps).length
      ≤ (ps.map List.length).sum + ps.length * s.length := length_intercalate s ps
    _ ≤ extent v + extent v * s.length := by
      rw [hsum, hlength]
      exact Nat.add_le_add htexts (Nat.mul_le_mul_right _ hcount)

/-- The square of how long everything is, with room for what is written around it. -/
def room (n : ℕ) : ℕ := 10 * (n + 1) ^ 2

theorem room_mono {m n : ℕ} (h : m ≤ n) : room m ≤ room n :=
  Nat.mul_le_mul_left _ (Nat.pow_le_pow_left (Nat.succ_le_succ h) 2)

theorem linear_le_room (n : ℕ) : 10 * n + 10 ≤ room n := by
  have hsquare : n + 1 ≤ (n + 1) ^ 2 := Nat.le_self_pow (by decide) (n + 1)
  unfold room
  omega

theorem product_le_room {a b n : ℕ} (h : a + b ≤ n) : a + (a + 1) * b ≤ room n := by
  have hproduct : (a + 1) * b ≤ (n + 1) * (n + 1) := Nat.mul_le_mul (by omega) (by omega)
  have hsquare : n + 1 ≤ (n + 1) ^ 2 := Nat.le_self_pow (by decide) (n + 1)
  unfold room
  rw [← sq] at hproduct
  omega

section

variable (t : Characters) (s : Str)

theorem length_upper : (upper t s).length ≤ 3 * s.length :=
  length_mapContext (fun _ c _ => t.length_upper c) [] s

theorem length_lower : (lower t s).length ≤ 3 * s.length := length_mapContext t.length_lower [] s

theorem length_casefold : (casefold t s).length ≤ 3 * s.length :=
  length_mapContext (fun _ c _ => t.length_fold c) [] s

theorem length_capitalize : (capitalize t s).length ≤ 3 * s.length := by
  refine length_mapContext (fun before c behind => ?_) [] s
  split
  · exact t.length_title c
  · exact t.length_lower before c behind

theorem length_title : (title t s).length ≤ 3 * s.length := by
  refine length_mapContext (fun before c behind => ?_) [] s
  split
  · exact t.length_lower before c behind
  · exact t.length_title c

theorem length_swapcase : (swapcase t s).length ≤ 3 * s.length := by
  refine length_mapContext (fun before c behind => ?_) [] s
  split
  · exact t.length_lower before c behind
  · split
    · exact t.length_upper c
    · simp

end

/-- **What the methods of a text give**: only the padded texts may be longer. -/
theorem short_textMethod {m : TextMethod} (hm : m.pads = false) (isBytes : Bool) (s : Str)
    (args : List (Value F)) :
    Short (room (s.length + extents args)) (textMethod fl rt m isBytes s args) := by
  have hroom := linear_le_room (s.length + extents args)
  have hplain : ∀ t : Str, t.length ≤ 3 * s.length →
      Short (F := F) (room (s.length + extents args)) (textAnswer isBytes (plain args t)) := by
    intro t ht
    refine short_textAnswer fun u hu => ?_
    rw [← ok_of_plain hu]
    omega
  have hpart : ∀ {α : Type} (r : Except Str α) (f : α → Str), (∀ a, (f a).length ≤ s.length) →
      Short (F := F) (room (s.length + extents args)) (textAnswer isBytes (r.map f)) := by
    intro α r f hf
    refine short_textAnswer fun u hu => ?_
    obtain ⟨a, -, rfl⟩ := ok_of_map hu
    have ha := hf a
    omega
  have hcut : ∀ r : Except Str (List Str), (∀ ps, r = .ok ps → Cut s.length ps) →
      Short (F := F) (room (s.length + extents args)) (textsAnswer isBytes r) := by
    intro r hr
    refine (short_textsAnswer hr).mono ?_
    omega
  have hparts : ∀ f : Str → Str × Str × Str,
      (∀ sep, (f sep).1.length + (f sep).2.1.length + (f sep).2.2.length ≤ s.length + sep.length) →
      Short (F := F) (room (s.length + extents args))
        (partsAnswer isBytes ((partitionArgs isBytes args).map f)) := by
    intro f hf
    refine (short_partsAnswer (n := s.length + extents args) fun p hp => ?_).mono (by omega)
    obtain ⟨sep, hsep, rfl⟩ := ok_of_map hp
    rw [← length_partitionArgs hsep]
    exact hf sep
  cases m with
  | capitalize => exact hplain _ (length_capitalize _ s)
  | casefold => exact hplain _ (length_casefold _ s)
  | join =>
    refine short_textAnswer fun u hu => ?_
    split at hu
    · rename_i v
      have hlength := length_joinAll hu
      have hproduct : extent v * s.length ≤ (extent v + 1) * s.length := Nat.mul_le_mul_right _ (Nat.le_succ _)
      have hsum : extent v + s.length ≤ s.length + extents [v] := by simp [Nat.add_comm]
      have hbound := product_le_room hsum
      omega
    · cases hu
  | lower => exact hplain _ (length_lower _ s)
  | lstrip => exact hpart _ _ fun chars => (List.dropWhile_suffix _).length_le
  | partition => exact hparts _ fun sep => length_partitionText sep s
  | removePrefix => exact hpart _ _ fun first => length_removePrefix first s
  | removeSuffix => exact hpart _ _ fun last => length_removeSuffix last s
  | replace =>
    refine short_textAnswer fun u hu => ?_
    obtain ⟨⟨old, new, limit⟩, hargs, rfl⟩ := ok_of_map hu
    have hnew := length_replaceArgs hargs
    exact (length_replaceIn old new limit s).trans (product_le_room (Nat.add_le_add_left hnew _))
  | rpartition => exact hparts _ fun sep => length_rpartitionText sep s
  | rsplit =>
    refine hcut _ fun ps hps => ?_
    obtain ⟨⟨sep, limit⟩, -, rfl⟩ := ok_of_map hps
    exact cut_rsplitText _ sep limit s
  | rstrip => exact hpart _ _ fun chars => (List.rdropWhile_prefix _ _).length_le
  | split =>
    refine hcut _ fun ps hps => ?_
    obtain ⟨⟨sep, limit⟩, -, rfl⟩ := ok_of_map hps
    exact cut_splitText _ sep limit s
  | splitlines =>
    refine hcut _ fun ps hps => ?_
    split at hps
    · cases hps
      exact cut_lines _ _ s
    · cases hps
      exact cut_lines _ _ s
    · cases hps
  | strip => exact hpart _ _ fun chars => length_stripText _ chars s
  | swapcase => exact hplain _ (length_swapcase _ s)
  | title => exact hplain _ (length_title _ s)
  | upper => exact hplain _ (length_upper _ s)
  | center | ljust | rjust | zfill => cases hm
  | _ => exact (onlyNumber_map _ _).short _

/-! ## The other calls -/

theorem short_numberMethod (n : Number F) (attr : Str) (args : List (Value F)) :
    Short 2 (numberMethod fl rt n attr args) := by
  unfold numberMethod
  split
  · split
    · split_ifs
      · exact short_ok (Nat.zero_le _)
      · exact short_ok (Nat.zero_le _)
      · exact short_ok (Nat.zero_le _)
      · exact short_ok (le_refl _)
    · split_ifs
      · exact short_ok (Nat.zero_le _)
      · exact short_ok (Nat.zero_le _)
      · exact short_map fun _ _ => le_refl _
  · exact short_error _ _

theorem short_ofObject (r : Except Str (Number F ⊕ Str)) (n : ℕ) : Short n (ofObject r) := by
  refine short_map ?_
  rintro (a | type) -
  · exact Nat.zero_le _
  · exact Nat.zero_le _

/-- The method pads a text. -/
def padsText (isBytes : Bool) (attr : Str) : Bool := (TextMethod.named isBytes attr).any TextMethod.pads

theorem short_textCall {isBytes : Bool} {attr : Str} (h : padsText isBytes attr = false) (s : Str)
    (args : List (Value F)) :
    Short (room (s.length + extents args))
      (match TextMethod.named isBytes attr with
      | some m => textMethod fl rt m isBytes s args
      | none => typeError) := by
  unfold padsText at h
  cases hm : TextMethod.named isBytes attr with
  | none => exact short_error _ _
  | some m =>
    rw [hm] at h
    exact short_textMethod fl rt h isBytes s args

theorem best_mem {op : CmpOperator} {v w : Value F} {vs : List (Value F)}
    (h : best rt op v vs = .ok w) : w ∈ v :: vs := by
  induction vs generalizing v with
  | nil =>
    cases h
    exact List.mem_singleton_self _
  | cons u vs ih =>
    rw [best] at h
    obtain ⟨better, -, h⟩ := ok_of_bind h
    rcases List.mem_cons.1 (ih h) with rfl | hw
    · split
      · simp
      · simp
    · simp [hw]

theorem short_bestOf (op : CmpOperator) (args : List (Value F)) : Short (extents args) (bestOf rt op args) := by
  unfold bestOf
  split
  · exact short_error _ _
  · rename_i v
    refine short_bind fun vs hvs => ?_
    cases vs with
    | nil => exact short_error _ _
    | cons first rest =>
      intro w hw
      have hitems := (extents_iterate hvs).1
      have hmem := extent_le_extents (best_mem rt hw)
      rw [extents_cons, extents_nil]
      omega
  · intro w hw
    exact extent_le_extents (best_mem rt hw)

/-- What numbers, functions and other objects are written in counts. -/
def sizes (rt : Runtime F) (vs : List (Value F)) : ℕ := (vs.map (size rt)).sum

theorem extents_le_sizes (vs : List (Value F)) : extents vs ≤ sizes rt vs :=
  List.sum_le_sum fun v _ => extent_le_size rt v

theorem length_callStr {args : List (Value F)} {s : Str} (h : callStr rt args = .ok s) :
    s.length ≤ 10 * sizes rt args + 4 := by
  unfold callStr at h
  split at h
  · cases h
    exact Nat.zero_le _
  · rename_i v
    cases h
    have hrepr := length_repr rt v
    have hone : sizes rt [v] = size rt v := by rw [sizes, List.map_singleton, List.sum_singleton]
    rw [hone]
    unfold strOf
    split
    · rename_i s
      have hself : size rt (.str s) = s.length := rfl
      omega
    · exact hrepr
  · rename_i t codec _
    split at h
    · obtain ⟨names, -, hdecode⟩ := ok_of_bind h
      have hlength := rt.length_decode t names s hdecode
      have hbytes : t.length ≤ sizes rt (.bytes t :: codec) := by
        rw [sizes, List.map_cons, List.sum_cons]
        exact Nat.le_add_right _ _
      omega
    · cases h
  · cases h

/-! ## Items -/

theorem subperm_sliceOf {α : Type} {lower upper step : Value F} {s t : List α}
    (h : sliceOf lower upper step s = .ok t) : t.Subperm s := by
  unfold sliceOf at h
  dsimp only at h
  obtain ⟨k, -, h⟩ := ok_of_bind h
  split at h
  · cases h
  · split at h
    · obtain ⟨i, -, h⟩ := ok_of_bind h
      obtain ⟨j, -, h⟩ := ok_of_bind h
      cases h
      exact slice_subperm i j k s
    · obtain ⟨i, -, h⟩ := ok_of_bind h
      obtain ⟨j, -, h⟩ := ok_of_bind h
      cases h
      exact slice_subperm i j k s

theorem mem_of_itemOf {α : Type} {i : ℤ} {s : List α} {a : α} (h : itemOf i s = .ok a) : a ∈ s := by
  unfold itemOf at h
  generalize (if i < 0 then i + (s.length : ℤ) else i) = j at h
  dsimp only at h
  split at h
  · cases h
  · split at h
    · rename_i hget
      cases h
      exact List.mem_of_getElem? hget
    · cases h

theorem mem_of_lookupKey {key v : Value F} {items : List (Value F × Value F)}
    (h : lookupKey rt key items = .ok v) : ∃ k, (k, v) ∈ items := by
  induction items with
  | nil => cases h
  | cons item items ih =>
    obtain ⟨k, w⟩ := item
    rw [lookupKey] at h
    obtain ⟨same, -, h⟩ := ok_of_bind h
    split at h
    · cases h
      exact ⟨k, List.mem_cons_self⟩
    · obtain ⟨k', hk⟩ := ih h
      exact ⟨k', List.mem_cons_of_mem _ hk⟩

theorem extents_subperm {vs ws : List (Value F)} (h : vs.Subperm ws) :
    extents vs + vs.length ≤ extents ws + ws.length := by
  have htotals := totals_subperm (fun _ => 0) h
  rw [totals_eq, totals_eq] at htotals
  exact htotals

theorem short_itemOf {vs : List (Value F)} (i : ℤ) : Short (extents vs + vs.length) (itemOf i vs) := by
  intro v hv
  have hmem := extent_le_extents (mem_of_itemOf hv)
  omega

/-- **What is taken out of a value** is no longer than the value. -/
theorem short_subscript (v key : Value F) : Short (extent v) (subscript rt v key) := by
  unfold subscript
  split
  · exact short_map fun t ht => (subperm_sliceOf ht).length_le
  · exact short_map fun t ht => (subperm_sliceOf ht).length_le
  · refine short_map fun t ht => ?_
    rw [extent_list, extent_list]
    exact extents_subperm (subperm_sliceOf ht)
  · refine short_map fun t ht => ?_
    rw [extent_tuple, extent_tuple]
    exact extents_subperm (subperm_sliceOf ht)
  · exact short_bind fun i _ => short_map fun c hc => List.length_pos_of_mem (mem_of_itemOf hc)
  · exact short_bind fun i _ => short_map fun c _ => Nat.zero_le _
  · refine short_bind fun i _ => ?_
    rw [extent_list]
    exact short_itemOf i
  · refine short_bind fun i _ => ?_
    rw [extent_tuple]
    exact short_itemOf i
  · rename_i items _
    intro w hw
    obtain ⟨k, hk⟩ := mem_of_lookupKey rt hw
    have hmem := totalItems_mem (fun _ => 0) hk
    dsimp only at hmem
    rw [extent, extent, total]
    omega
  · exact short_error _ _

/-! ## Operations -/

/-- The answer is as long as a number says: a method that pads a text, or a text that numbers are written
into. -/
def Operation.byNumber : Operation F → Bool
  | .binary .mod (.str _) _ => true
  | .binary .mod (.bytes _) _ => true
  | .call (.method (.str _) attr) _ => padsText false attr
  | .call (.method (.bytes _) attr) _ => padsText true attr
  | _ => false

variable {fl rt}

theorem short_binaryOther (op : Operator) (v w : Value F) (n : ℕ) : Short n (binaryOther rt op v w) := by
  unfold binaryOther
  split
  · exact short_ofObject _ n
  · exact short_ofObject _ n
  · exact short_error n _

theorem short_binary {op : Operator} {v w : Value F} (hmod : (Operation.binary op v w).byNumber = false)
    (hmult : op ≠ .mult) : Short (extent v + extent w) (binary rt op v w) := by
  unfold binary
  split
  · exact short_ok (List.length_append).le
  · exact short_ok (List.length_append).le
  · refine short_ok ?_
    rw [extent_list, extent_list, extent_list, extents, List.map_append, List.sum_append, List.length_append]
    unfold extents
    omega
  · refine short_ok ?_
    rw [extent_tuple, extent_tuple, extent_tuple, extents, List.map_append, List.sum_append,
      List.length_append]
    unfold extents
    omega
  · cases hmod
  · cases hmod
  · exact short_binaryOther _ _ _ _
  · exact short_binaryOther _ _ _ _
  · exact absurd rfl hmult
  · exact absurd rfl hmult
  · exact short_binaryOther _ _ _ _

theorem short_applyBinary {op : Operator} {v w : Value F}
    (hallowed : (Operation.binary op v w).Allowed fl rt) (hmod : (Operation.binary op v w).byNumber = false) :
    Short (extent v + extent w) ((Operation.binary op v w).run fl rt) := by
  show Short _ (applyBinary fl (others fl rt) op v w)
  by_cases hmult : op = .mult
  · subst hmult
    rcases hallowed.2 rfl with ⟨a, b, rfl, rfl⟩ | herror
    · exact (onlyNumber_applyBinary .mult rfl rfl).short _
    · rw [Operation.run] at herror
      rw [herror]
      exact short_error _ _
  · have hbinary : Short (extent v + extent w) (binary rt op v w) := short_binary hmod hmult
    unfold applyBinary
    split
    · split
      · exact (onlyNumber_map _ id).short _
      · exact hbinary
    · exact hbinary

theorem short_callMethod {self : Value F} {attr : Str} {args : List (Value F)}
    (h : (Operation.call (.method self attr) args).byNumber = false) :
    Short (room (extent self + extents args)) (callMethod fl rt self attr args) := by
  have hroom := linear_le_room (extent self + extents args)
  cases self with
  | str s => exact short_textCall fl rt h s args
  | bytes s => exact short_textCall fl rt h s args
  | list vs => exact (onlyNumber_map _ _).short _
  | tuple vs => exact (onlyNumber_map _ _).short _
  | num n => exact (short_numberMethod fl rt n attr args).mono (by omega)
  | other type => exact short_ofObject _ _
  | _ => exact short_error _ _

theorem short_call {func : Value F} {args : List (Value F)} (h : (Operation.call func args).byNumber = false) :
    Short (room ((Operation.call func args).size rt)) ((Operation.call func args).run fl rt) := by
  have hextents := extents_le_sizes rt args
  cases func with
  | builtin f =>
    have hroom := linear_le_room (sizes rt args)
    show Short (room (sizes rt args)) _
    cases f with
    | numeric f => exact (onlyNumber_numeric f args).short _
    | max => exact (short_bestOf rt .gt args).mono (by omega)
    | min => exact (short_bestOf rt .lt args).mono (by omega)
    | str =>
      refine short_map fun s hs => ?_
      have hlength := length_callStr rt hs
      rw [extent_str]
      omega
  | method self attr =>
    have hself := extent_le_size rt self
    show Short (room (sizes rt (self :: args))) _
    rw [Operation.run, applyCall_method]
    refine (short_callMethod h).mono (room_mono ?_)
    rw [sizes, List.map_cons, List.sum_cons]
    exact Nat.add_le_add hself hextents
  | _ =>
    rw [Operation.run, applyCall_of_not_function rfl]
    exact short_error _ _

theorem short_applyUnary (op : UnaryOperator) (v : Value F) (n : ℕ) :
    Short n (applyUnary fl (others fl rt) op v) := by
  cases v with
  | num a => exact (onlyNumber_applyUnary op rfl).short n
  | method self attr => exact (onlyNumber_applyUnary op rfl).short n
  | other type =>
    cases op with
    | not => exact short_ok (Nat.zero_le n)
    | _ => exact short_ofObject _ n
  | _ =>
    cases op with
    | not => exact short_ok (Nat.zero_le n)
    | _ => exact short_error n _

/-- **No other operation** gives a value that is longer than the square of what it is about. -/
theorem short_run {o : Operation F} (hallowed : o.Allowed fl rt) (h : o.byNumber = false) :
    Short (room (o.size rt)) (o.run fl rt) := by
  have hroom := linear_le_room (o.size rt)
  have htwo : ∀ v w : Value F, ([v, w].map (size rt)).sum = size rt v + size rt w := by
    intro v w
    simp
  cases o with
  | unary op v => exact short_applyUnary op v _
  | binary op v w =>
    have hv := extent_le_size rt v
    have hw := extent_le_size rt w
    have hsize : (Operation.binary op v w).size rt = size rt v + size rt w := htwo v w
    exact (short_applyBinary hallowed h).mono (by omega)
  | compare op v w => exact (onlyNumber_compare op v w).short _
  | call func args => exact short_call h
  | readAttribute v attr =>
    have hv := extent_le_size rt v
    have hsize : (Operation.readAttribute v attr).size rt = size rt v := by
      simp [Operation.size, Operation.operands]
    intro f hf
    rcases readAttribute_cases hf with ⟨n, rfl⟩ | ⟨rfl, -⟩
    · exact Nat.zero_le _
    · have hmethod : extent (.method v attr) = extent v := by rw [extent, total, Nat.zero_add, extent]
      omega
  | subscript v key =>
    have hv := extent_le_size rt v
    have hsize : (Operation.subscript v key).size rt = size rt v + size rt key := htwo v key
    exact (short_subscript rt v key).mono (by omega)

/-! ## Padded texts -/

theorem length_ljust (width : ℤ) (fill : Char) (s : Str) :
    (ljust width fill s).length = max s.length width.toNat := by
  rw [ljust, List.length_append, List.length_replicate]
  omega

theorem length_rjust (width : ℤ) (fill : Char) (s : Str) :
    (rjust width fill s).length = max s.length width.toNat := by
  rw [rjust, List.length_append, List.length_replicate]
  omega

theorem length_center (width : ℤ) (fill : Char) (s : Str) :
    (center width fill s).length = max s.length width.toNat := by
  unfold center
  dsimp only
  rw [List.length_append, List.length_append, List.length_replicate, List.length_replicate]
  split <;> omega

theorem length_zfill (width : ℤ) (s : Str) : (zfill width s).length = max s.length width.toNat := by
  unfold zfill
  dsimp only
  split
  · rw [List.length_append, List.length_cons, List.length_replicate, List.length_cons]
    omega
  · rw [List.length_append, List.length_cons, List.length_replicate, List.length_cons]
    omega
  · rw [List.length_append, List.length_replicate]
    omega

/-- The width is the first argument. -/
def widthOf (args : List (Value F)) (w : ℤ) : Prop := ∃ v rest, args = v :: rest ∧ asIndex v = .ok w

theorem widthOf_padArgs {isBytes : Bool} {args : List (Value F)} {w : ℤ} {fill : Char}
    (h : padArgs isBytes args = .ok (w, fill)) : widthOf args w := by
  unfold padArgs at h
  split at h
  · obtain ⟨i, hi, h⟩ := ok_of_bind h
    cases h
    exact ⟨_, _, rfl, hi⟩
  · obtain ⟨i, hi, h⟩ := ok_of_bind h
    obtain ⟨t, -, h⟩ := ok_of_bind h
    split at h
    · cases h
      exact ⟨_, _, rfl, hi⟩
    · cases h
  · cases h

theorem extent_of_padArgs {isBytes : Bool} {args : List (Value F)} {s : Str} {f : ℤ → Char → Str → Str}
    (hf : ∀ w fill, (f w fill s).length = max s.length w.toNat) {r : Value F}
    (h : textAnswer isBytes ((padArgs isBytes args).map fun (w, fill) => f w fill s) = .ok r) :
    ∃ w, widthOf args w ∧ extent r = max s.length w.toNat := by
  obtain ⟨t, ht, rfl⟩ := ok_of_map h
  obtain ⟨⟨w, fill⟩, hargs, rfl⟩ := ok_of_map ht
  exact ⟨w, widthOf_padArgs hargs, (extent_ofText isBytes _).trans (hf w fill)⟩

/-- **A padded text is as long as the number says.** -/
theorem extent_padded {m : TextMethod} (hm : m.pads = true) {isBytes : Bool} {s : Str}
    {args : List (Value F)} {r : Value F} (h : textMethod fl rt m isBytes s args = .ok r) :
    ∃ w, widthOf args w ∧ extent r = max s.length w.toNat := by
  cases m with
  | center => exact extent_of_padArgs (fun w fill => length_center w fill s) h
  | ljust => exact extent_of_padArgs (fun w fill => length_ljust w fill s) h
  | rjust => exact extent_of_padArgs (fun w fill => length_rjust w fill s) h
  | zfill =>
    obtain ⟨t, ht, rfl⟩ := ok_of_map h
    split at ht
    · rename_i width
      obtain ⟨w, hw, rfl⟩ := ok_of_map ht
      exact ⟨w, ⟨width, [], rfl, hw⟩, (extent_ofText isBytes _).trans (length_zfill w s)⟩
    · cases ht
  | _ => cases hm

theorem callMethod_ofText (isBytes : Bool) (s : Str) {attr : Str} {m : TextMethod}
    (h : TextMethod.named isBytes attr = some m) (args : List (Value F)) :
    callMethod fl rt (ofText isBytes s) attr args = textMethod fl rt m isBytes s args := by
  cases isBytes with
  | false =>
    show callMethod fl rt (.str s) attr args = _
    rw [callMethod, h]
  | true =>
    show callMethod fl rt (.bytes s) attr args = _
    rw [callMethod, h]

/-- **The lengths in an accepted expression**: what an operation gives is no longer than the square of what
it is about, unless it writes a text with `%` or pads one, and then it is exactly as long as the number
says. -/
theorem executed_short {values : Dict Str (Value F)} (hdata : NoFunctions values) {tree : Ast F}
    {expression : Str} (hcheck : check Value.isNumber values tree expression = .ok ()) {o : Operation F}
    (ho : o ∈ operations fl rt values tree) {r : Value F} (hrun : o.run fl rt = .ok r) :
    (o.byNumber = false → extent r ≤ room (o.size rt)) ∧
      ∀ isBytes s attr args m, o = .call (.method (ofText isBytes s) attr) args →
        TextMethod.named isBytes attr = some m → m.pads = true →
          ∃ w, widthOf args w ∧ extent r = max s.length w.toNat := by
  constructor
  · intro h
    exact short_run (executed_allowed hdata hcheck ho) h r hrun
  · rintro isBytes s attr args m rfl hattr hm
    rw [Operation.run, applyCall_method, callMethod_ofText isBytes s hattr] at hrun
    exact extent_padded hm hrun

/-- `'M4' + '-'` is short, and `'M4-'.ljust(6)` is six characters long. -/
theorem executed_short_paddedSize :
    extent (.str "M4-".toList : Value ℝ) ≤
        room ((Operation.binary .add (.str "M4".toList) (.str "-".toList)).size asciiRuntime) ∧
      ∃ w, widthOf [(.num (.int 6) : Value ℝ)] w ∧
        extent (.str "M4-   ".toList : Value ℝ) = max "M4-".toList.length w.toNat := by
  have hmem : ∀ o ∈ [(.binary .add (.str "M4".toList) (.str "-".toList) : Operation ℝ),
      .call (.method (.str "M4-".toList) "ljust".toList) [.num (.int 6)]],
      o ∈ operations exact asciiRuntime sizeM4 paddedSize := by
    rw [operations_paddedSize]
    simp
  constructor
  · exact (executed_short noFunctions_sizeM4 check_paddedSize (hmem _ List.mem_cons_self) rfl).1 rfl
  · exact (executed_short noFunctions_sizeM4 check_paddedSize
      (hmem _ (List.mem_cons_of_mem _ List.mem_cons_self)) rfl).2 false
      "M4-".toList "ljust".toList _ .ljust rfl rfl rfl

end

end PartCAD.Expr
