import PartCAD.Expression.Runtime

/-!
# How long values are

* `size` : the lengths of the texts and lists in a value, and the digits of its numbers;
* `extent` : the lengths alone;
* `length_repr` : a value is written in a text that is not much longer than its size.
-/

namespace PartCAD.Expr

open PartCAD.Lib PartCAD.Lib.Substrings

variable {F : Type}

/-! ## Lengths -/

section

variable (leaf : Value F → ℕ)

mutual

/-- The texts, bytes, lists, tuples and dictionaries, and what the other values count for. -/
def total : Value F → ℕ
  | .str s => s.length
  | .bytes s => s.length
  | .list vs => totals vs
  | .tuple vs => totals vs
  | .dict items => totalItems items
  | .slice l u k => leaf (.slice l u k) + total l + total u + total k
  | .method self attr => leaf (.method self attr) + total self
  | v => leaf v

def totals : List (Value F) → ℕ
  | [] => 0
  | v :: vs => total v + 1 + totals vs

def totalItems : List (Value F × Value F) → ℕ
  | [] => 0
  | (k, v) :: items => total k + total v + 2 + totalItems items

end

theorem totals_append (vs ws : List (Value F)) : totals leaf (vs ++ ws) = totals leaf vs + totals leaf ws := by
  induction vs with
  | nil => simp [totals]
  | cons v vs ih =>
    rw [List.cons_append, totals, totals, ih]
    omega

theorem totals_eq (vs : List (Value F)) : totals leaf vs = (vs.map (total leaf)).sum + vs.length := by
  induction vs with
  | nil => rfl
  | cons v vs ih =>
    rw [totals, ih, List.map_cons, List.sum_cons, List.length_cons]
    omega

theorem total_le_totals {v : Value F} {vs : List (Value F)} (h : v ∈ vs) : total leaf v + 1 ≤ totals leaf vs := by
  induction vs with
  | nil => cases h
  | cons w vs ih =>
    rw [totals]
    rcases List.mem_cons.1 h with rfl | h
    · omega
    · have hrest := ih h
      omega

theorem totalItems_mem {p : Value F × Value F} {items : List (Value F × Value F)} (h : p ∈ items) :
    total leaf p.1 + total leaf p.2 + 2 ≤ totalItems leaf items := by
  induction items with
  | nil => cases h
  | cons q items ih =>
    obtain ⟨k, v⟩ := q
    rw [totalItems]
    rcases List.mem_cons.1 h with rfl | h
    · dsimp only
      omega
    · have hrest := ih h
      omega

/-- Some of the values, in some order. -/
theorem totals_subperm {vs ws : List (Value F)} (h : vs.Subperm ws) : totals leaf vs ≤ totals leaf ws := by
  obtain ⟨us, hperm, hsub⟩ := h
  have hsum : ((us.map (total leaf)).sum) ≤ (ws.map (total leaf)).sum :=
    (hsub.map (total leaf)).sum_le_sum fun _ _ => Nat.zero_le _
  rw [totals_eq, totals_eq, ← (hperm.map (total leaf)).sum_eq, ← hperm.length_eq]
  exact Nat.add_le_add hsum hsub.length_le

mutual

theorem total_mono {leaf' : Value F → ℕ} (h : ∀ v, leaf v ≤ leaf' v) :
    ∀ v : Value F, total leaf v ≤ total leaf' v
  | .str s => by rw [total, total]
  | .bytes s => by rw [total, total]
  | .list vs => by rw [total, total]; exact totals_mono h vs
  | .tuple vs => by rw [total, total]; exact totals_mono h vs
  | .dict items => by rw [total, total]; exact totalItems_mono h items
  | .slice l u k => by
    rw [total, total]
    have hleaf := h (.slice l u k)
    have hl := total_mono h l
    have hu := total_mono h u
    have hk := total_mono h k
    omega
  | .method self attr => by
    rw [total, total]
    have hleaf := h (.method self attr)
    have hself := total_mono h self
    omega
  | .none => by rw [total, total] <;> first | exact h _ | simp
  | .num n => by rw [total, total] <;> first | exact h _ | simp
  | .builtin f => by rw [total, total] <;> first | exact h _ | simp
  | .other type => by rw [total, total] <;> first | exact h _ | simp

theorem totals_mono {leaf' : Value F → ℕ} (h : ∀ v, leaf v ≤ leaf' v) :
    ∀ vs : List (Value F), totals leaf vs ≤ totals leaf' vs
  | [] => le_refl _
  | v :: vs => by
    rw [totals, totals]
    have hv := total_mono h v
    have hvs := totals_mono h vs
    omega

theorem totalItems_mono {leaf' : Value F → ℕ} (h : ∀ v, leaf v ≤ leaf' v) :
    ∀ items : List (Value F × Value F), totalItems leaf items ≤ totalItems leaf' items
  | [] => le_refl _
  | (k, v) :: items => by
    rw [totalItems, totalItems]
    have hk := total_mono h k
    have hv := total_mono h v
    have hitems := totalItems_mono h items
    omega

end

end

/-- The lengths of the texts and lists in a value. -/
def extent (v : Value F) : ℕ := total (fun _ => 0) v

section

variable (rt : Runtime F)

/-- The lengths of the texts and lists in a value, with what its numbers are written in. -/
def size (v : Value F) : ℕ := total (fun v => (repr rt v).length) v

theorem extent_le_size (v : Value F) : extent v ≤ size rt v := total_mono _ (fun _ => Nat.zero_le _) v

/-! ## Values as texts -/

theorem length_hexText (w n : ℕ) : (hexText w n).length = w := by
  induction w generalizing n with
  | zero => rfl
  | succ w ih => rw [hexText, List.length_append, ih, List.length_singleton]

theorem length_charText (printable : Char → Bool) (quote c : Char) :
    (charText printable quote c).length ≤ 10 := by
  unfold charText
  split_ifs <;> simp [length_hexText]

theorem length_byteText (quote : Char) (x : UInt8) : (byteText quote x).length ≤ 10 := by
  unfold byteText
  dsimp only
  split_ifs <;> simp

theorem length_flatMap_le {α β : Type} {f : α → List β} {n : ℕ} (hf : ∀ a, (f a).length ≤ n) (s : List α) :
    (s.flatMap f).length ≤ n * s.length := by
  induction s with
  | nil => exact Nat.zero_le _
  | cons a s ih =>
    have ha := hf a
    rw [List.flatMap_cons, List.length_append, List.length_cons, Nat.mul_succ]
    omega

theorem length_quoteText (printable : Char → Bool) (s : Str) :
    (quoteText printable s).length ≤ 10 * s.length + 2 := by
  have hchars := length_flatMap_le (length_charText printable (if '\'' ∈ s ∧ '"' ∉ s then '"' else '\'')) s
  unfold quoteText
  simp only [List.cons_append, List.length_cons, List.length_append, List.length_nil]
  omega

theorem length_bytesRepr (s : Str) : (bytesRepr s).length ≤ 10 * s.length + 3 := by
  have hbytes := fun quote =>
    length_flatMap_le (length_byteText quote) (s.map fun c => UInt8.ofNat c.toNat)
  simp only [List.length_map] at hbytes
  unfold bytesRepr bytesText
  simp only [List.cons_append, List.length_cons, List.length_append, List.length_nil]
  exact Nat.add_le_add_right (Nat.add_le_add_right (hbytes _) 1) 2

theorem length_reprs_le {texts : List Str} {n : ℕ} (h : (texts.map List.length).sum + 2 * texts.length ≤ n)
    (left right : Char) : (left :: List.intercalate ", ".toList texts ++ [right]).length ≤ n + 2 := by
  have htexts := length_intercalate ", ".toList texts
  have htwo : ", ".toList.length = 2 := rfl
  rw [htwo] at htexts
  simp only [List.cons_append, List.length_cons, List.length_append, List.length_nil]
  omega

mutual

theorem length_repr : ∀ v : Value F, (repr rt v).length ≤ 10 * size rt v + 4
  | .str s => by
    have hs := length_quoteText rt.characters.isPrintable s
    rw [repr, size, total]
    omega
  | .bytes s => by
    have hs := length_bytesRepr s
    rw [repr, size, total]
    omega
  | .list vs => by
    rw [repr, size, total]
    exact (length_reprs_le (length_reprs vs) _ _).trans (Nat.add_le_add_left (by decide) _)
  | .tuple [v] => by
    have hv := length_repr v
    have htwo : ",)".toList.length = 2 := rfl
    rw [repr, size, total, totals, totals]
    simp only [List.cons_append, List.length_cons, List.length_append]
    unfold size at hv
    omega
  | .tuple [] => by
    rw [repr]
    · exact Nat.le_add_left 2 _
    · simp
  | .tuple (v :: w :: vs) => by
    rw [repr, size, total]
    · exact (length_reprs_le (length_reprs (v :: w :: vs)) _ _).trans (Nat.add_le_add_left (by decide) _)
    · simp
  | .dict items => by
    rw [repr, size, total]
    exact (length_reprs_le (length_reprItems items) _ _).trans (Nat.add_le_add_left (by decide) _)
  | .slice l u k => by
    rw [size, total]
    omega
  | .method self attr => by
    rw [size, total]
    omega
  | .none => by rw [size, total] <;> first | omega | simp
  | .num n => by rw [size, total] <;> first | omega | simp
  | .builtin f => by rw [size, total] <;> first | omega | simp
  | .other type => by rw [size, total] <;> first | omega | simp

theorem length_reprs : ∀ vs : List (Value F),
    ((reprs rt vs).map List.length).sum + 2 * (reprs rt vs).length ≤
      10 * totals (fun v => (repr rt v).length) vs
  | [] => by simp [reprs]
  | v :: vs => by
    have hv := length_repr v
    have hvs := length_reprs vs
    rw [reprs, totals, List.map_cons, List.sum_cons, List.length_cons]
    unfold size at hv
    omega

theorem length_reprItems : ∀ items : List (Value F × Value F),
    ((reprItems rt items).map List.length).sum + 2 * (reprItems rt items).length ≤
      10 * totalItems (fun v => (repr rt v).length) items
  | [] => by simp [reprItems]
  | (k, v) :: items => by
    have hk := length_repr k
    have hv := length_repr v
    have hitems := length_reprItems items
    have htwo : ": ".toList.length = 2 := rfl
    rw [reprItems, totalItems, List.map_cons, List.sum_cons, List.length_cons, List.length_append,
      List.length_append]
    unfold size at hk hv
    omega

end

end

end PartCAD.Expr
