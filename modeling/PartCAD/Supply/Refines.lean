import PartCAD.Assembly.BomAgree
import PartCAD.Supply.Cart

/-!
# The supply bill refines the bill of materials

The supply bill of materials stops at the sub-assemblies that are declared purchasable and lists them
instead of what they are made of.

* `weigh_supplyBom` : what the supply bill comes to, when each name is worth something;
* `supplyBom_refines` : **replacing the purchasable assemblies by what they are made of** gives the bill of
  materials, and no line is of something that is only below one of them.
-/

namespace PartCAD.Supply

open PartCAD.Lib PartCAD.Assembly

/-! ## Purchasable assemblies -/

mutual
def purchasedIn : Item → List (Object × List Item)
  | .part _ => []
  | .assembly item embedded children =>
    (if isDeclaredPurchasable item.storeData embedded then [(item, children)] else []) ++
      purchased children
/-- The purchasable assemblies of a tree, at any depth, with what they are made of. -/
def purchased : List Item → List (Object × List Item)
  | [] => []
  | child :: rest => purchasedIn child ++ purchased rest
end

mutual
def outsideIn : Item → List Object
  | .part item => [item]
  | .assembly item embedded children =>
    item :: if isDeclaredPurchasable item.storeData embedded then [] else outside children
/-- What occurs in a tree without a purchasable assembly around it. -/
def outside : List Item → List Object
  | [] => []
  | child :: rest => outsideIn child ++ outside rest
end

/-- A tree in which what is purchasable under one name is one assembly. -/
structure BomTree where
  children : List Item
  oneOfAName : ∀ a ∈ purchased children, ∀ b ∈ purchased children,
    a.1.fullName = b.1.fullName → a.2 = b.2

/-- What a line of a supply bill stands for, in lines of a bill of materials. -/
def contents (assemblies : List (Object × List Item)) (name : Str) : List (Str × ℕ) :=
  match assemblies.find? fun a => a.1.fullName = name with
  | some a => (getBom a.2).items
  | none => [(name, 1)]

/-- The lines of a bill, each replaced by its count times what it stands for, and added up by name. -/
def replaced (assemblies : List (Object × List Item)) (bom : Dict Str ℕ) : Dict Str ℕ :=
  bom.items.foldl
    (fun total line => (contents assemblies line.1).foldl
      (fun total p => accountFor total p.1 (line.2 * p.2)) total)
    Dict.empty

/-! ## What a bill comes to -/

section

variable (worth : Str → ℕ)

/-- A bill, when each name is worth something. -/
def weigh (bom : Dict Str ℕ) : ℕ := (bom.items.map fun p => p.2 * worth p.1).sum

theorem sum_setItem (name : Str) (count : ℕ) (items : List (Str × ℕ)) :
    ((setItem name ((lookupItem name items).getD 0 + count) items).map fun p => p.2 * worth p.1).sum =
      (items.map fun p => p.2 * worth p.1).sum + count * worth name := by
  induction items with
  | nil => simp [setItem, lookupItem]
  | cons p items ih =>
    obtain ⟨key, n⟩ := p
    by_cases hkey : key = name
    · subst hkey
      simp only [setItem, lookupItem, if_true, Option.getD_some, List.map_cons, List.sum_cons, Nat.add_mul]
      omega
    · simp only [setItem, lookupItem, if_neg hkey, List.map_cons, List.sum_cons, ih, Nat.add_assoc]

theorem weigh_accountFor (bom : Dict Str ℕ) (name : Str) (count : ℕ) :
    weigh worth (accountFor bom name count) = weigh worth bom + count * worth name := by
  have hset : weigh worth (bom.set name ((bom.get? name).getD 0 + count)) =
      weigh worth bom + count * worth name := sum_setItem worth name count bom.items
  unfold accountFor
  cases hget : bom.get? name with
  | none => rw [hget, Option.getD_none, Nat.zero_add] at hset; exact hset
  | some n => rw [hget, Option.getD_some] at hset; exact hset

theorem weigh_foldl_accountFor (lines : List (Str × ℕ)) (bom : Dict Str ℕ) :
    weigh worth (lines.foldl (fun bom p => accountFor bom p.1 p.2) bom) =
      weigh worth bom + (lines.map fun p => p.2 * worth p.1).sum := by
  induction lines generalizing bom with
  | nil => rfl
  | cons p lines ih =>
    rw [List.foldl_cons, ih, weigh_accountFor, List.map_cons, List.sum_cons, Nat.add_assoc]

mutual
/-- What a supply bill lists, with multiplicity. -/
def listedIn : Item → List Object
  | .part item => [item]
  | .assembly item embedded children =>
    if isDeclaredPurchasable item.storeData embedded then [item] else listed children
def listed : List Item → List Object
  | [] => []
  | child :: rest => listedIn child ++ listed rest
end

theorem weigh_supplyBomChildren (items : List Item) (bom : Dict Str ℕ) :
    weigh worth (supplyBomChildren items bom) =
      weigh worth bom + ((listed items).map fun item => worth item.fullName).sum := by
  induction items using children_induction generalizing bom with
  | nil => rfl
  | part item rest ih =>
    rw [supplyBomChildren, supplyBomChild, listed, listedIn, ih, weigh_accountFor, Nat.one_mul,
      List.singleton_append, List.map_cons, List.sum_cons, Nat.add_assoc]
  | assembly item embedded children rest ihc ih =>
    rw [supplyBomChildren, supplyBomChild, listed, listedIn, ih, List.map_append, List.sum_append]
    cases isDeclaredPurchasable item.storeData embedded with
    | true =>
      simp only [Bool.not_true, Bool.false_eq_true, if_false, if_true, weigh_accountFor, Nat.one_mul,
        List.map_cons, List.map_nil, List.sum_cons, List.sum_nil]
      omega
    | false =>
      have hchildren := ihc Dict.empty
      have hempty : weigh worth (Dict.empty : Dict Str ℕ) = 0 := rfl
      rw [hempty, Nat.zero_add, weigh] at hchildren
      simp only [Bool.not_false, if_true, Bool.false_eq_true, if_false, weigh_foldl_accountFor]
      rw [hchildren]
      omega

/-- **What the supply bill comes to**: what the things that are listed are worth. -/
theorem weigh_supplyBom (items : List Item) :
    weigh worth (getSupplyBom items) = ((listed items).map fun item => worth item.fullName).sum := by
  rw [getSupplyBom, weigh_supplyBomChildren]
  exact Nat.zero_add _

end

/-! ## What is replaced -/

/-- How often a name is among lines. -/
def countIn (lines : List (Str × ℕ)) (k : Str) : ℕ :=
  (lines.map fun p => if p.1 = k then p.2 else 0).sum

theorem countIn_getBom (children : List Item) (k : Str) :
    countIn (getBom children).items k = (leaves children).countP fun item => item.fullName = k := by
  rw [countIn, sum_items, bomCount_getBom]

theorem bomCount_times (lines : List (Str × ℕ)) (count : ℕ) (total : Dict Str ℕ) (k : Str) :
    bomCount (lines.foldl (fun total p => accountFor total p.1 (count * p.2)) total) k =
      bomCount total k + count * countIn lines k := by
  induction lines generalizing total with
  | nil => rfl
  | cons p lines ih =>
    rw [List.foldl_cons, ih, bomCount_accountFor, countIn, countIn, List.map_cons, List.sum_cons,
      Nat.mul_add, Nat.add_assoc]
    split
    · rfl
    · rw [Nat.mul_zero]

theorem bomCount_replaced (assemblies : List (Object × List Item)) (bom : Dict Str ℕ) (k : Str) :
    bomCount (replaced assemblies bom) k = weigh (fun name => countIn (contents assemblies name) k) bom := by
  have hlines : ∀ (lines : List (Str × ℕ)) (total : Dict Str ℕ),
      bomCount (lines.foldl (fun total line => (contents assemblies line.1).foldl
        (fun total p => accountFor total p.1 (line.2 * p.2)) total) total) k =
      bomCount total k + (lines.map fun p => p.2 * countIn (contents assemblies p.1) k).sum := by
    intro lines
    induction lines with
    | nil => exact fun _ => rfl
    | cons line lines ih =>
      intro total
      rw [List.foldl_cons, ih, bomCount_times, List.map_cons, List.sum_cons, Nat.add_assoc]
  rw [replaced, hlines, weigh]
  exact Nat.zero_add _

/-- What is listed stands for the parts of the tree. -/
theorem sum_listed {assemblies : List (Object × List Item)}
    (hone : ∀ a ∈ assemblies, ∀ b ∈ assemblies, a.1.fullName = b.1.fullName → a.2 = b.2) (k : Str)
    (items : List Item) (hsub : ∀ a ∈ purchased items, a ∈ assemblies)
    (hparts : ∀ p ∈ leaves items, ∀ a ∈ assemblies, p.fullName ≠ a.1.fullName) :
    ((listed items).map fun item => countIn (contents assemblies item.fullName) k).sum =
      (leaves items).countP fun item => item.fullName = k := by
  induction items using children_induction with
  | nil => rfl
  | part item rest ih =>
    rw [purchased, purchasedIn, List.nil_append] at hsub
    rw [leaves, Item.leaves, List.singleton_append] at hparts
    have hnone : contents assemblies item.fullName = [(item.fullName, 1)] := by
      have hfind : assemblies.find? (fun a => a.1.fullName = item.fullName) = none := by
        rw [List.find?_eq_none]
        intro a ha hname
        exact hparts item (by simp) a ha (of_decide_eq_true hname).symm
      rw [contents, hfind]
    rw [listed, listedIn, List.singleton_append, List.map_cons, List.sum_cons, hnone,
      ih hsub fun p hp => hparts p (List.mem_cons_of_mem _ hp), leaves, Item.leaves, List.singleton_append,
      List.countP_cons]
    simp only [countIn, List.map_cons, List.map_nil, List.sum_cons, List.sum_nil, decide_eq_true_eq]
    omega
  | assembly item embedded children rest ihc ih =>
    rw [purchased, purchasedIn] at hsub
    rw [leaves, Item.leaves] at hparts
    have hrest := ih (fun a ha => hsub a (by simp [ha])) fun p hp => hparts p (by simp [hp])
    have hchildren := ihc (fun a ha => hsub a (by simp [ha])) fun p hp => hparts p (by simp [hp])
    rw [listed, listedIn, List.map_append, List.sum_append, hrest, leaves, Item.leaves, List.countP_append]
    congr 1
    cases hpurchasable : isDeclaredPurchasable item.storeData embedded with
    | false =>
      rw [if_neg Bool.false_ne_true]
      exact hchildren
    | true =>
      rw [hpurchasable] at hsub
      have hmem : (item, children) ∈ assemblies := hsub _ (by simp)
      -- the assembly that is found under the name is this one
      obtain ⟨a, hfind⟩ := Option.isSome_iff_exists.1 (List.find?_isSome.2
        ⟨(item, children), hmem, decide_eq_true rfl⟩ :
          (assemblies.find? fun a => a.1.fullName = item.fullName).isSome)
      have hname : a.1.fullName = item.fullName := by simpa using List.find?_some hfind
      have hsame : a.2 = children := hone a (List.mem_of_find?_eq_some hfind) _ hmem hname
      have hcontents : contents assemblies item.fullName = (getBom children).items := by
        rw [contents, hfind, ← hsame]
      rw [if_pos rfl, List.map_singleton, List.sum_singleton, hcontents]
      exact countIn_getBom children k

/-! ## Lines and their names -/

/-- Every line counts something. -/
def Positive (bom : Dict Str ℕ) : Prop := ∀ name n, bom.get? name = some n → 0 < n

theorem Positive.account {bom : Dict Str ℕ} (h : Positive bom) (name : Str) {count : ℕ}
    (hcount : 0 < count) : Positive (accountFor bom name count) := by
  intro k n hn
  unfold accountFor at hn
  cases hget : bom.get? name with
  | none =>
    rw [hget, Dict.get?_set] at hn
    split at hn
    · exact Option.some.inj hn ▸ hcount
    · exact h k n hn
  | some m =>
    rw [hget, Dict.get?_set] at hn
    split at hn
    · have hm := h name m hget
      have hsum : m + count = n := Option.some.inj hn
      omega
    · exact h k n hn

theorem Positive.foldl {α : Type} (name : α → Str) (count : α → ℕ) :
    ∀ (lines : List α) {bom : Dict Str ℕ}, Positive bom → (∀ p ∈ lines, 0 < count p) →
      Positive (lines.foldl (fun bom p => accountFor bom (name p) (count p)) bom)
  | [], _, h, _ => h
  | p :: lines, _, h, hcount =>
    Positive.foldl name count lines (h.account (name p) (hcount p (by simp))) fun q hq =>
      hcount q (by simp [hq])

theorem Positive.items {bom : Dict Str ℕ} (h : Positive bom) : ∀ p ∈ bom.items, 0 < p.2 :=
  fun p hp => h p.1 p.2 (Dict.get?_eq_some.2 hp)

theorem positive_empty : Positive Dict.empty := fun name n h => absurd h (by simp)

theorem positive_bomChildren (items : List Item) {bom : Dict Str ℕ} (h : Positive bom) :
    Positive (bomChildren items bom) := by
  induction items using children_induction generalizing bom with
  | nil => exact h
  | part item rest ih =>
    rw [bomChildren, bomChild]
    exact ih (h.account _ Nat.one_pos)
  | assembly item embedded children rest ihc ih =>
    rw [bomChildren, bomChild]
    exact ih (Positive.foldl Prod.fst Prod.snd _ h (ihc positive_empty).items)

theorem positive_supplyBomChildren (items : List Item) {bom : Dict Str ℕ} (h : Positive bom) :
    Positive (supplyBomChildren items bom) := by
  induction items using children_induction generalizing bom with
  | nil => exact h
  | part item rest ih =>
    rw [supplyBomChildren, supplyBomChild]
    exact ih (h.account _ Nat.one_pos)
  | assembly item embedded children rest ihc ih =>
    rw [supplyBomChildren, supplyBomChild]
    apply ih
    split
    · exact Positive.foldl Prod.fst Prod.snd _ h (ihc positive_empty).items
    · exact h.account _ Nat.one_pos

theorem positive_replaced (assemblies : List (Object × List Item)) {bom : Dict Str ℕ}
    (h : Positive bom) : Positive (replaced assemblies bom) := by
  have hcontents : ∀ name, ∀ p ∈ contents assemblies name, 0 < p.2 := by
    intro name p hp
    unfold contents at hp
    split at hp
    · exact (positive_bomChildren _ positive_empty).items p hp
    · obtain rfl := List.mem_singleton.1 hp
      exact Nat.one_pos
  have hlines : ∀ (lines : List (Str × ℕ)), (∀ line ∈ lines, 0 < line.2) → ∀ total, Positive total →
      Positive (lines.foldl (fun total line => (contents assemblies line.1).foldl
        (fun total p => accountFor total p.1 (line.2 * p.2)) total) total) := by
    intro lines
    induction lines with
    | nil => exact fun _ total htotal => htotal
    | cons line lines ih =>
      intro hpositive total htotal
      rw [List.foldl_cons]
      refine ih (fun l hl => hpositive l (by simp [hl])) _ ?_
      exact Positive.foldl Prod.fst (fun p => line.2 * p.2) _ htotal fun p hp =>
        Nat.mul_pos (hpositive line (by simp)) (hcontents line.1 p hp)
  exact hlines _ h.items _ positive_empty

/-- Bills that count alike, and only count what is there, have the same lines. -/
theorem same_of_bomCount {a b : Dict Str ℕ} (ha : Positive a) (hb : Positive b)
    (hcount : ∀ k, bomCount a k = bomCount b k) : Dict.Same a b := by
  intro k
  have hk := hcount k
  unfold bomCount at hk
  cases hget : a.get? k with
  | none =>
    cases hget' : b.get? k with
    | none => rfl
    | some n =>
      have hpositive := hb k n hget'
      rw [hget, hget', Option.getD_none, Option.getD_some] at hk
      omega
  | some m =>
    cases hget' : b.get? k with
    | none =>
      have hpositive := ha k m hget
      rw [hget, hget', Option.getD_none, Option.getD_some] at hk
      omega
    | some n =>
      rw [hget, hget', Option.getD_some, Option.getD_some] at hk
      rw [hk]

theorem mem_keys_supplyBom (items : List Item) (name : Str) :
    name ∈ (getSupplyBom items).keys ↔ ∃ x ∈ listed items, x.fullName = name := by
  have hweigh := weigh_supplyBom (fun k => if k = name then 1 else 0) items
  have hcount : weigh (fun k => if k = name then 1 else 0) (getSupplyBom items) =
      bomCount (getSupplyBom items) name := by
    rw [← sum_items, weigh]
    simp only [mul_ite, mul_one, mul_zero]
  have hlisted : ((listed items).map fun item => if item.fullName = name then 1 else 0).sum =
      (listed items).countP fun item => item.fullName = name := by
    rw [countP_eq_sum]
    simp only [decide_eq_true_eq]
  rw [hcount, hlisted] at hweigh
  constructor
  · intro hkey
    obtain ⟨n, hn⟩ := Dict.mem_keys.1 hkey
    have hget := Dict.get?_eq_some.2 hn
    have hpositive := positive_supplyBomChildren items positive_empty name n hget
    rw [bomCount, hget, Option.getD_some] at hweigh
    obtain ⟨x, hx, hname⟩ := List.countP_pos_iff.1 (hweigh ▸ hpositive)
    exact ⟨x, hx, of_decide_eq_true hname⟩
  · rintro ⟨x, hx, rfl⟩
    have hpositive : 0 < bomCount (getSupplyBom items) x.fullName := by
      rw [hweigh]
      exact List.countP_pos_iff.2 ⟨x, hx, decide_eq_true rfl⟩
    cases hget : (getSupplyBom items).get? x.fullName with
    | none =>
      rw [bomCount, hget] at hpositive
      exact absurd hpositive (by simp)
    | some n => exact Dict.mem_keys.2 ⟨n, Dict.get?_eq_some.1 hget⟩

/-- What is listed is outside of the purchasable assemblies. -/
theorem mem_outside_of_listed (items : List Item) : ∀ x ∈ listed items, x ∈ outside items := by
  induction items using children_induction with
  | nil => exact fun x hx => hx
  | part item rest ih =>
    intro x hx
    rw [listed, listedIn, List.singleton_append] at hx
    rw [outside, outsideIn, List.singleton_append]
    rcases List.mem_cons.1 hx with rfl | hx
    · exact List.mem_cons_self
    · exact List.mem_cons_of_mem _ (ih x hx)
  | assembly item embedded children rest ihc ih =>
    intro x hx
    rw [listed, listedIn] at hx
    rw [outside, outsideIn]
    rcases List.mem_append.1 hx with hx | hx
    · apply List.mem_append_left
      split at hx
      · obtain rfl := List.mem_singleton.1 hx
        exact List.mem_cons_self
      · rename_i hnot
        rw [if_neg hnot]
        exact List.mem_cons_of_mem _ (ihc x hx)
    · exact List.mem_append_right _ (ih x hx)

/-- **The supply bill refines the bill of materials**: with each purchasable assembly replaced by its count
times its own bill it is the bill of the tree, and every line is of something that is outside of the
purchasable assemblies. -/
theorem supplyBom_refines (tree : BomTree)
    (h : ∀ p ∈ leaves tree.children, ∀ a ∈ purchased tree.children, p.fullName ≠ a.1.fullName) :
    Dict.Same (replaced (purchased tree.children) (getSupplyBom tree.children)) (getBom tree.children) ∧
      ∀ name ∈ (getSupplyBom tree.children).keys, ∃ x ∈ outside tree.children, x.fullName = name := by
  constructor
  · refine same_of_bomCount (positive_replaced _ (positive_supplyBomChildren _ positive_empty))
      (positive_bomChildren _ positive_empty) fun k => ?_
    rw [bomCount_replaced, weigh_supplyBom, sum_listed tree.oneOfAName k _ (fun a ha => ha) h,
      bomCount_getBom]
  · intro name hname
    obtain ⟨x, hx, hfull⟩ := (mem_keys_supplyBom _ _).1 hname
    exact ⟨x, mem_outside_of_listed _ x hx, hfull⟩

/-! ## A cart with two motors -/

def bolt : Object := ⟨"pkg".toList, "bolt".toList, none, ⟨none, none, 1⟩, .none⟩

/-- A motor that is sold assembled, with two bolts in it. -/
def motor : Item :=
  .assembly ⟨"pkg".toList, "motor".toList, none, ⟨some "acme".toList, some "M1".toList, 1⟩, .none⟩ false
    [.part bolt, .part bolt]

/-- One motor with a bolt in a container, and another one in an assembly that nobody sells. -/
def cartItems : List Item :=
  [.assembly ⟨"pkg".toList, "cart:links".toList, none, ⟨none, none, 1⟩, .none⟩ true [motor, .part bolt],
    .assembly ⟨"pkg".toList, "drive".toList, none, ⟨none, none, 1⟩, .none⟩ false [motor]]

def motorCart : BomTree where
  children := cartItems
  oneOfAName := by
    have hmotor : ∀ x ∈ purchased cartItems, x.2 = [.part bolt, .part bolt] := by
      simp [purchased, purchasedIn, cartItems, motor, isDeclaredPurchasable, isPurchasable]
    intro a ha b hb _
    rw [hmotor a ha, hmotor b hb]

theorem supplyBom_refines_motorCart :
    (getSupplyBom motorCart.children).items = [("pkg:motor".toList, 2), ("pkg:bolt".toList, 1)] ∧
      Dict.Same (replaced (purchased motorCart.children) (getSupplyBom motorCart.children))
        (getBom motorCart.children) ∧
      ∀ name ∈ (getSupplyBom motorCart.children).keys,
        ∃ x ∈ outside motorCart.children, x.fullName = name :=
  ⟨by decide, supplyBom_refines motorCart (by decide)⟩

end PartCAD.Supply
