import PartCAD.Assembly.Bom

/-!
# The cart

A cart has one line for each name.  It is filled from specs, `name` or `name#count`: an object is
added as it is, or as what its bill of materials lists, one task for each entry (`addObject`).  The
lines are items that the cart changes in place.

* `setSpec_itemSpec` : the spec made for an entry of a bill reads as the name and the count;
* `Interleaved.adds` : in whatever order the tasks get on, they add the entries of the bill;
* `filled_iff` : the cart has one line for each object, with the right count, when the names under
  which an object is entered are the same.
-/

namespace PartCAD.Supply

open PartCAD.Lib PartCAD.Lib.Text PartCAD.Package PartCAD.Assembly

/-! ## The objects -/

/-- `is_purchasable` -/
def isPurchasable (storeData : StoreData) : Bool :=
  (storeData.vendor.getD []) ≠ [] ∧ (storeData.sku.getD []) ≠ []

/-- `is_declared_purchasable` -/
def isDeclaredPurchasable (storeData : StoreData) (embedded : Bool) : Bool :=
  if embedded then false else isPurchasable storeData

mutual
/-- What the loop of `_get_supply_bom_real` does with a child. -/
def supplyBomChild : Item → Dict Str ℕ → Dict Str ℕ
  | .part item, bom => accountFor bom item.fullName 1
  | .assembly item embedded children, bom =>
    if ! isDeclaredPurchasable item.storeData embedded then
      (supplyBomChildren children Dict.empty).items.foldl (fun bom p => accountFor bom p.1 p.2) bom
    else accountFor bom item.fullName 1
def supplyBomChildren : List Item → Dict Str ℕ → Dict Str ℕ
  | [], bom => bom
  | child :: rest, bom => supplyBomChildren rest (supplyBomChild child bom)
end

def getSupplyBom (children : List Item) : Dict Str ℕ := supplyBomChildren children Dict.empty

/-- What the cart reads of an object.  A part has no children. -/
structure CartObject where
  storeData : StoreData
  material : Option Str
  color : Option Str
  finish : Option Str
  embedded : Bool
  children : List Item

/-- The objects of a package by name. -/
structure Shelf (ι : Type) where
  part : Str → Option ι
  assembly : Str → Option ι
  scene : Str → Option ι

/-- The decimal digits of Unicode; the ASCII characters among them are known. -/
structure Decimals where
  value : Char → Option ℕ
  ascii : ∀ c : Char, c.toNat < 128 → value c = if c.isDigit then some (c.toNat - 48) else none

/-- What names lead to.  An object is what a package has under a name. -/
structure CartContext (ι : Type) where
  currentProjectPath : Str
  project : Str → Option (Shelf ι)
  object : ι → CartObject
  decimals : Decimals

/-! ## Specs -/

/-- `int(s)`, for a text with `s.isdigit()`; `none` where either fails. -/
def readCount (decimals : Decimals) (s : Str) : Option ℕ :=
  if s = [] then none else s.foldlM (fun n c => (decimals.value c).map (10 * n + ·)) 0

/-- `none` is a failed assertion. -/
def resolveCartItem (decimals : Decimals) (itemSpec : Str) : Option (Str × ℕ) :=
  if '#' ∈ itemSpec then
    match split '#' itemSpec with
    | [name, digits] =>
      (readCount decimals digits).bind fun count => if count > 0 then some (name, count) else none
    | _ => none
  else some (itemSpec, 1)

section

variable {ι : Type} (ctx : CartContext ι)

def resolveCartObject (name : Str) : Option ι := do
  let (projectName, objectName) ← resolveResourcePath ctx.currentProjectPath name
  let prj ← ctx.project projectName
  (prj.part objectName).or ((prj.assembly objectName).or (prj.scene objectName))

/-- A cart item but its count. -/
structure CartItemData where
  name : Str
  storeData : StoreData
  material : Option Str
  color : Option Str
  finish : Option Str
  format : Str

abbrev ProviderCartItem := Entry CartItemData

def CartItemData.of (name : Str) (object : CartObject) : CartItemData where
  name := name
  storeData := object.storeData
  material := object.material
  color := object.color
  finish := object.finish
  format := "none".toList

/-- `set_spec` on a new item. -/
def setSpec (spec : Str) : Option ProviderCartItem := do
  let (name, count) ← resolveCartItem ctx.decimals spec
  let i ← resolveCartObject ctx name
  return ⟨.of name (ctx.object i), count⟩

/-! ## The cart -/

/-- The addresses of the lines by name, and all items. -/
abbrev CartState := Dict Str ℕ × Heap CartItemData

def allocate (st : CartState) (item : ProviderCartItem) : CartState × ℕ :=
  ((st.1, st.2 ++ [item]), st.2.length)

/-- `_add_item`: the item itself becomes the line of its name when there is none. -/
def addItemInPlace (st : CartState) (a count : ℕ) : Option CartState :=
  match st.2[a]? with
  | none => none
  | some item =>
    if item.count > 0 then
      let item := { item with count := item.count * count }
      let items := st.2.set a item
      match st.1.get? item.data.name with
      | some line => some (st.1, Heap.bump items line item.count)
      | none => some (st.1.set item.data.name a, items)
    else none

/-- `add_item`: the cart afterwards, and the copy. -/
def addItem (st : CartState) (a count : ℕ) : Option (CartState × ℕ) :=
  match st.2[a]? with
  | none => none
  | some item =>
    let copied := allocate st item
    (addItemInPlace copied.1 copied.2 count).map (·, copied.2)

def addItemFromSpec (st : CartState) (partSpec : Str) (count : ℕ) : Option CartState := do
  let item ← setSpec ctx partSpec
  let made := allocate st item
  let added ← addItem made.1 made.2 count
  return added.1

/-- `add_part_spec`: the cart afterwards, and the item. -/
def addPartSpec (st : CartState) (partSpec : Str) : Option (CartState × ℕ) := do
  let item ← setSpec ctx partSpec
  let made := allocate st item
  (addItemInPlace made.1 made.2 1).map (·, made.2)

/-- What an object comes to: itself, or what its bill of materials lists. -/
inductive Contents where
  | whole (name : Str)
  | brokenDown (bom : Dict Str ℕ)

/-- What `add_object` finds out before it adds anything: the count of the spec, and the contents. -/
def objectContents (object : Str) (recursive : Bool) : Option (ℕ × Contents) := do
  let (name, count) ← resolveCartItem ctx.decimals object
  let (projectName, objectName) ← resolveResourcePath ctx.currentProjectPath name
  let name := projectName ++ ':' :: objectName
  let prj ← ctx.project projectName
  if (prj.part objectName).isSome then return (count, .whole name)
  else
    let assembly := prj.assembly objectName
    let holder ← assembly.or (prj.scene objectName)
    let held := ctx.object holder
    if assembly.isSome ∧ ! recursive ∧ isDeclaredPurchasable held.storeData held.embedded then
      return (count, .whole name)
    else
      return (count, .brokenDown
        (if recursive then getBom held.children else getSupplyBom held.children))

def itemSpec (name : Str) (count : ℕ) : Str := name ++ '#' :: Nat.toDigits 10 count

/-- The specs of the items that are added, each as often as the object is asked for. -/
def Contents.itemSpecs : Contents → List Str
  | .whole name => [name]
  | .brokenDown bom => bom.items.map fun p => itemSpec p.1 p.2

/-- A task that adds an item.  It gives way to the others some number of times before that. -/
structure Task where
  spec : Str
  waits : ℕ

/-- The tasks get on in some order, and all of them end. -/
inductive Interleaved (count : ℕ) : List Task → CartState → CartState → Prop where
  | done (st : CartState) : Interleaved count [] st st
  | wait {before after : List Task} {spec : Str} {waits : ℕ} {st st' : CartState}
      (rest : Interleaved count (before ++ ⟨spec, waits⟩ :: after) st st') :
      Interleaved count (before ++ ⟨spec, waits + 1⟩ :: after) st st'
  | add {before after : List Task} {spec : Str} {st st₁ st' : CartState}
      (step : addItemFromSpec ctx st spec count = some st₁)
      (rest : Interleaved count (before ++ after) st₁ st') :
      Interleaved count (before ++ ⟨spec, 0⟩ :: after) st st'

/-- A spec that the cart is filled from, by `add_objects` or by `add_part_specs`. -/
inductive Spec where
  | object (text : Str) (recursive : Bool)
  | part (text : Str)

/-- What is done with the cart.  An item that is passed to `add_item` is given by its address. -/
inductive Call where
  | add (spec : Spec)
  | item (a count : ℕ)

def Performs (st : CartState) : Call → CartState → Prop
  | .add (.object text recursive), st' =>
    ∃ count contents tasks, objectContents ctx text recursive = some (count, contents) ∧
      tasks.map Task.spec = contents.itemSpecs ∧ Interleaved ctx count tasks st st'
  | .add (.part text), st' => ∃ a, addPartSpec ctx st text = some (st', a)
  | .item a count, st' => ∃ b, addItem st a count = some (st', b)

inductive Runs : List Call → CartState → CartState → Prop where
  | nil (st : CartState) : Runs [] st st
  | cons {call : Call} {calls : List Call} {st st₁ st' : CartState}
      (step : Performs ctx st call st₁) (rest : Runs calls st₁ st') : Runs (call :: calls) st st'

/-! ## What the cart should hold -/

/-- What a spec comes to, each with the count in one of the objects asked for. -/
def Contents.bill : Contents → List (Str × ℕ)
  | .whole name => [(name, 1)]
  | .brokenDown bom => bom.items

/-- The count of a spec and its bill of materials; of `add_part_specs`, the object itself. -/
def Spec.bill : Spec → Option (ℕ × List (Str × ℕ))
  | .object text recursive => (objectContents ctx text recursive).map fun c => (c.1, c.2.bill)
  | .part text => (resolveCartItem ctx.decimals text).map fun c => (c.2, [(c.1, 1)])

/-- The names under which a spec enters what it comes to. -/
def Spec.names (spec : Spec) : List Str :=
  match spec.bill ctx with
  | none => []
  | some (_, bill) => bill.map Prod.fst

/-- The counts of the names with a property. -/
def countOf (p : Str → Bool) (bill : List (Str × ℕ)) : ℕ :=
  ((bill.filter fun e => p e.1).map Prod.snd).sum

variable [DecidableEq ι]

/-- How many of the object the spec asks for: its count times the multiplicity in the bill. -/
def Spec.demand (o : ι) (spec : Spec) : ℕ :=
  match spec.bill ctx with
  | none => 0
  | some (count, bill) => count * countOf (fun name => resolveCartObject ctx name = some o) bill

def lineCount (st : CartState) (name : Str) : Option ℕ :=
  (view detailedTable st name).map Entry.count

/-- The object is asked for by one of the specs. -/
def Asked (specs : List Spec) (o : ι) : Prop :=
  ∃ spec ∈ specs, ∃ name ∈ spec.names ctx, resolveCartObject ctx name = some o

/-- One line for each object that is asked for, with the sum of its counts, and no others. -/
structure Filled (specs : List Spec) (st : CartState) : Prop where
  line : ∀ o, Asked ctx specs o → ∃ name,
    (∀ name', (lineCount st name').isSome ∧ resolveCartObject ctx name' = some o ↔ name' = name) ∧
      lineCount st name = some ((specs.map (Spec.demand ctx o)).sum)
  only : ∀ name, (lineCount st name).isSome →
    ∃ o, resolveCartObject ctx name = some o ∧ Asked ctx specs o

/-- An item that is passed to `add_item`, and is not a line of the cart, stays as it is. -/
def ItemsKept (st : CartState) : Prop :=
  ∀ before a count after st₁ st₂, Runs ctx before st st₁ → (∀ name, st₁.1.get? name ≠ some a) →
    Runs ctx (.item a count :: after) st₁ st₂ → st₂.2[a]? = st₁.2[a]?

/-- The names under which an object is entered are the same. -/
def OneSpelling (specs : List Spec) : Prop :=
  ∀ spec ∈ specs, ∀ name ∈ spec.names ctx, ∀ spec' ∈ specs, ∀ name' ∈ spec'.names ctx,
    resolveCartObject ctx name = resolveCartObject ctx name' → name = name'

end

/-! ## Reading a spec -/

theorem readCount_toDigits (decimals : Decimals) (n : ℕ) :
    readCount decimals (Nat.toDigits 10 n) = some n := by
  have hrun : ∀ (s : Str) (acc : ℕ), (∀ c ∈ s, c.isDigit = true) →
      s.foldlM (fun n c => (decimals.value c).map (10 * n + ·)) acc =
        some (Nat.ofDigitChars 10 s acc) := by
    intro s
    induction s with
    | nil =>
      intro acc _
      rfl
    | cons c s ih =>
      intro acc hdigits
      have hc : c.isDigit = true := hdigits c (by simp)
      have hrange : c.toNat < 128 := by
        have hle : 48 ≤ c.toNat ∧ c.toNat ≤ 57 := by
          simpa [Char.isDigit, UInt32.le_iff_toNat_le] using hc
        omega
      rw [List.foldlM_cons, decimals.ascii c hrange, if_pos hc]
      exact ih _ fun c' hc' => hdigits c' (List.mem_cons_of_mem _ hc')
  rw [readCount, if_neg Nat.toDigits_ne_nil, hrun _ 0 fun c hc => isDigit_of_mem_toDigits hc,
    Nat.ofDigitChars_ten_toDigits]

theorem notMem_of_readCount {decimals : Decimals} {s : Str} {n : ℕ}
    (h : readCount decimals s = some n) : ':' ∉ s := by
  have hrun : ∀ (s : Str) (acc n : ℕ),
      s.foldlM (fun n c => (decimals.value c).map (10 * n + ·)) acc = some n → ':' ∉ s := by
    intro s
    induction s with
    | nil => simp
    | cons c s ih =>
      intro acc n h
      rw [List.foldlM_cons] at h
      obtain ⟨acc', hvalue, hrest⟩ := Option.bind_eq_some_iff.1 h
      rw [List.mem_cons, not_or]
      refine ⟨?_, ih acc' n hrest⟩
      rintro rfl
      rw [decimals.ascii ':' (by decide)] at hvalue
      exact absurd hvalue (by simp)
  unfold readCount at h
  split at h
  · exact absurd h (by simp)
  · exact hrun s 0 n h

/-- The spec of an item reads as its name and count, if it reads at all. -/
theorem resolveCartItem_itemSpec {decimals : Decimals} {name name' : Str} {n n' : ℕ}
    (h : resolveCartItem decimals (itemSpec name n) = some (name', n')) : name' = name ∧ n' = n := by
  have hdigits : '#' ∉ Nat.toDigits 10 n := by
    intro hmem
    exact absurd (isDigit_of_mem_toDigits hmem) (by decide)
  unfold resolveCartItem at h
  rw [if_pos (by simp [itemSpec]), itemSpec, split_append_cons, split_of_notMem hdigits] at h
  -- one piece before the digits is the whole name
  rcases hsplit : split '#' name with _ | ⟨piece, _ | ⟨piece', pieces⟩⟩
  · exact absurd hsplit (split_ne_nil '#' name)
  · have hname := join_split '#' name
    rw [hsplit] at hname h
    simp only [List.cons_append, List.nil_append, readCount_toDigits, Option.bind_some] at h
    split at h
    · rw [Option.some.injEq, Prod.mk.injEq] at h
      exact ⟨h.1.symm.trans hname, h.2.symm⟩
    · exact absurd h (by simp)
  · rw [hsplit] at h
    exact absurd h (by cases pieces <;> simp)

theorem notMem_of_resolveCartItem {decimals : Decimals} {itemSpec name : Str} {n : ℕ}
    (h : resolveCartItem decimals itemSpec = some (name, n)) : '#' ∉ name := by
  unfold resolveCartItem at h
  split at h
  · split at h
    · rename_i piece digits hsplit
      obtain ⟨count, -, hcount⟩ := Option.bind_eq_some_iff.1 h
      split at hcount
      · rw [Option.some.injEq, Prod.mk.injEq] at hcount
        exact hcount.1 ▸ notMem_of_mem_split (s := itemSpec) (by rw [hsplit]; simp)
      · exact absurd hcount (by simp)
    · exact absurd h (by simp)
  · rename_i hnone
    rw [Option.some.injEq, Prod.mk.injEq] at h
    exact h.1 ▸ hnone

/-- The full name of an object without a `#` in its own name reads as the name, if at all. -/
theorem resolveCartItem_fullName {decimals : Decimals} {projectName objectName name' : Str} {n' : ℕ}
    (hobject : '#' ∉ objectName)
    (h : resolveCartItem decimals (projectName ++ ':' :: objectName) = some (name', n')) :
    name' = projectName ++ ':' :: objectName ∧ n' = 1 := by
  unfold resolveCartItem at h
  split at h
  · rename_i hmem
    split at h
    · rename_i piece digits hsplit
      obtain ⟨count, hcount, -⟩ := Option.bind_eq_some_iff.1 h
      have hjoin := join_split '#' (projectName ++ ':' :: objectName)
      rw [hsplit] at hjoin
      -- the colon stands after the last `#`
      have hcolon : ':' ∈ digits := by
        by_contra hnot
        have hpieces : piece ++ '#' :: digits = projectName ++ ':' :: objectName := hjoin
        rcases List.append_eq_append_iff.1 hpieces with ⟨rest, -, hrest⟩ | ⟨rest, -, hrest⟩
        · cases rest with
          | nil => exact absurd hrest (by simp)
          | cons c rest =>
            have hdigits : digits = rest ++ ':' :: objectName := (List.cons.inj hrest).2
            exact hnot (by rw [hdigits]; simp)
        · cases rest with
          | nil => exact absurd hrest (by simp)
          | cons c rest =>
            have hobj : objectName = rest ++ '#' :: digits := (List.cons.inj hrest).2
            exact hobject (by rw [hobj]; simp)
      exact absurd hcolon (notMem_of_readCount hcount)
    · exact absurd h (by simp)
  · rw [Option.some.injEq, Prod.mk.injEq] at h
    exact ⟨h.1.symm, h.2.symm⟩

/-! ## Adding an item -/

section

variable {ι : Type} {ctx : CartContext ι}

/-- A new item is counted into the line of its name. -/
theorem addItemInPlace_adds {st st' : CartState} (hown : Owns detailedTable st)
    {item : ProviderCartItem} {count : ℕ}
    (h : addItemInPlace (allocate st item).1 (allocate st item).2 count = some st') :
    Adds detailedTable st [(item.data.name, { item with count := item.count * count })] st' := by
  have hget : (allocate st item).1.2[(allocate st item).2]? = some item := by
    simp [allocate]
  have hset : (allocate st item).1.2.set (allocate st item).2
      { item with count := item.count * count } =
        st.2 ++ [{ item with count := item.count * count }] := by
    simp [allocate]
  unfold addItemInPlace at h
  rw [hget] at h
  dsimp only at h
  rw [hset] at h
  have hsum : ∀ e : ProviderCartItem,
      Tally.sum [(item.data.name, e)] = Tally.only item.data.name (some e) :=
    fun e => Tally.merge_empty _
  split at h
  · cases hline : st.1.get? item.data.name with
    | some line =>
      rw [show (allocate st item).1.1.get? item.data.name = some line from hline] at h
      obtain rfl := Option.some.inj h
      have halloc := alloc_adds hown { item with count := item.count * count }
      obtain ⟨hext, hview⟩ := bump_spec halloc.owns hline { item with count := item.count * count }
      have hkept := halloc.view_eq
      rw [Tally.sum, Tally.merge_empty] at hkept
      refine ⟨halloc.toExtends.trans hext, ?_⟩
      rw [hsum, ← hkept]
      exact hview
    | none =>
      rw [show (allocate st item).1.1.get? item.data.name = none from hline] at h
      obtain rfl := Option.some.inj h
      obtain ⟨hext, hview⟩ := insert_spec hown hline { item with count := item.count * count }
      exact ⟨hext, by rw [hsum]; exact hview⟩
  · exact absurd h (by simp)

theorem addItem_adds {st st' : CartState} (hown : Owns detailedTable st) {a b count : ℕ}
    (h : addItem st a count = some (st', b)) :
    ∃ item, st.2[a]? = some item ∧
      Adds detailedTable st [(item.data.name, { item with count := item.count * count })] st' := by
  unfold addItem at h
  split at h
  · exact absurd h (by simp)
  · rename_i item hitem
    obtain ⟨st₁, hstep, heq⟩ := Option.map_eq_some_iff.1 h
    obtain rfl : st₁ = st' := (Prod.mk.inj heq).1
    exact ⟨item, hitem, addItemInPlace_adds hown hstep⟩

/-- What a spec adds to the cart, some number of times. -/
def orderOf (ctx : CartContext ι) (spec : Str) (count : ℕ) : Option (Str × ℕ) :=
  (setSpec ctx spec).map fun item => (item.data.name, item.count * count)

theorem addItemFromSpec_adds {st st' : CartState} (hown : Owns detailedTable st) {spec : Str}
    {count : ℕ} (h : addItemFromSpec ctx st spec count = some st') :
    ∃ name item, Adds detailedTable st [(name, item)] st' ∧
      orderOf ctx spec count = some (name, item.count) := by
  unfold addItemFromSpec at h
  obtain ⟨item, hset, hrest⟩ := Option.bind_eq_some_iff.1 h
  obtain ⟨⟨st₁, b⟩, hadd, heq⟩ := Option.bind_eq_some_iff.1 hrest
  obtain rfl : st₁ = st' := Option.some.inj heq
  -- the item is made first, and then copied
  have hmade := alloc_adds hown item
  obtain ⟨item', hitem', hadds⟩ := addItem_adds hmade.owns hadd
  have hsame : item' = item := by
    simpa [allocate] using hitem'.symm
  subst hsame
  refine ⟨item'.data.name, _, hmade.trans hadds, ?_⟩
  rw [orderOf, hset]
  rfl

theorem addPartSpec_adds {st st' : CartState} (hown : Owns detailedTable st) {spec : Str} {a : ℕ}
    (h : addPartSpec ctx st spec = some (st', a)) :
    ∃ name item, Adds detailedTable st [(name, item)] st' ∧
      orderOf ctx spec 1 = some (name, item.count) := by
  unfold addPartSpec at h
  obtain ⟨item, hset, hrest⟩ := Option.bind_eq_some_iff.1 h
  obtain ⟨st₁, hstep, heq⟩ := Option.map_eq_some_iff.1 hrest
  obtain rfl : st₁ = st' := (Prod.mk.inj heq).1
  refine ⟨item.data.name, _, addItemInPlace_adds hown hstep, ?_⟩
  rw [orderOf, hset]
  rfl

/-- A task alone. -/
theorem Interleaved.alone {count : ℕ} {spec : Str} {st st' : CartState}
    (h : addItemFromSpec ctx st spec count = some st') :
    Interleaved ctx count [⟨spec, 0⟩] st st' :=
  @Interleaved.add ι ctx count [] [] spec st st' st' h (.done st')

/-- **In whatever order the tasks get on**, they add what their specs say. -/
theorem Interleaved.adds {count : ℕ} {tasks : List Task} {st st' : CartState}
    (h : Interleaved ctx count tasks st st') (hown : Owns detailedTable st) :
    ∃ es, Adds detailedTable st es st' ∧
      (es.map fun e => some (e.1, e.2.count)).Perm
        (tasks.map fun task => orderOf ctx task.spec count) := by
  induction h with
  | done st => exact ⟨[], Adds.refl hown, List.Perm.nil⟩
  | wait rest ih =>
    obtain ⟨es, hadds, hperm⟩ := ih hown
    refine ⟨es, hadds, ?_⟩
    simpa using hperm
  | add step rest ih =>
    obtain ⟨name, item, hfirst, horder⟩ := addItemFromSpec_adds hown step
    obtain ⟨es, hadds, hperm⟩ := ih hfirst.owns
    refine ⟨(name, item) :: es, hfirst.trans hadds, ?_⟩
    rw [List.map_append] at hperm
    rw [List.map_cons, List.map_append, List.map_cons, horder]
    exact (hperm.cons _).trans List.perm_middle.symm

/-! ## What a spec comes to -/

theorem resolveCartObject_of_orderOf {spec name : Str} {count n : ℕ}
    (h : orderOf ctx spec count = some (name, n)) : (resolveCartObject ctx name).isSome := by
  obtain ⟨item, hset, hitem⟩ := Option.map_eq_some_iff.1 h
  obtain ⟨⟨name', count'⟩, -, hrest⟩ := Option.bind_eq_some_iff.1 hset
  obtain ⟨o, hobject, heq⟩ := Option.bind_eq_some_iff.1 hrest
  have hname : name' = name := by
    rw [← (Prod.mk.inj hitem).1, ← Option.some.inj heq]
    rfl
  rw [← hname, hobject]
  rfl

theorem orderOf_eq {spec name : Str} {count n : ℕ} (h : orderOf ctx spec count = some (name, n)) :
    ∃ k, resolveCartItem ctx.decimals spec = some (name, k) ∧ n = k * count := by
  obtain ⟨item, hset, hitem⟩ := Option.map_eq_some_iff.1 h
  obtain ⟨⟨name', k⟩, hread, hrest⟩ := Option.bind_eq_some_iff.1 hset
  obtain ⟨o, -, heq⟩ := Option.bind_eq_some_iff.1 hrest
  obtain rfl := Option.some.inj heq
  obtain ⟨rfl, rfl⟩ := Prod.mk.inj hitem
  exact ⟨k, hread, rfl⟩

theorem notMem_of_resolveResourcePath {currentProjectName pattern projectName itemName : Str}
    {c : Char} (hc : c ∉ pattern) (hcolon : c ≠ ':') (hstar : c ≠ '*')
    (h : resolveResourcePath currentProjectName pattern = some (projectName, itemName)) :
    c ∉ itemName := by
  unfold resolveResourcePath at h
  dsimp only at h
  split at h
  · rename_i projectPattern itemPattern hsplit
    obtain ⟨-, rfl⟩ := Prod.mk.inj (Option.some.inj h)
    intro hmem
    rcases mem_of_mem_replaceGo hmem with hmem | hmem
    · -- the piece after the colon is a piece of the pattern
      have hjoin : c ∈ join ':' [projectPattern, itemPattern] :=
        mem_join_of_mem (List.mem_cons_of_mem _ (List.mem_singleton_self _)) hmem
      rw [← hsplit, join_split] at hjoin
      split at hjoin
      · rcases List.mem_cons.1 hjoin with rfl | hjoin
        · exact hcolon rfl
        · exact hc hjoin
      · exact hc hjoin
    · exact hstar (List.mem_singleton.1 hmem)
  · exact absurd h (by simp)

theorem objectContents_whole {text name : Str} {recursive : Bool} {count : ℕ}
    (h : objectContents ctx text recursive = some (count, .whole name)) :
    ∃ projectName objectName, name = projectName ++ ':' :: objectName ∧ '#' ∉ objectName := by
  unfold objectContents at h
  obtain ⟨⟨typed, n⟩, hread, h⟩ := Option.bind_eq_some_iff.1 h
  obtain ⟨⟨projectName, objectName⟩, hpath, h⟩ := Option.bind_eq_some_iff.1 h
  obtain ⟨prj, -, h⟩ := Option.bind_eq_some_iff.1 h
  have hobject : '#' ∉ objectName :=
    notMem_of_resolveResourcePath (notMem_of_resolveCartItem hread) (by decide) (by decide) hpath
  refine ⟨projectName, objectName, ?_, hobject⟩
  have hname : (n, Contents.whole (projectName ++ ':' :: objectName)) = (count, .whole name) →
      name = projectName ++ ':' :: objectName := by
    intro heq
    exact (Contents.whole.inj (Prod.mk.inj heq).2).symm
  dsimp only at h
  split at h
  · exact hname (Option.some.inj h)
  · obtain ⟨holder, -, h⟩ := Option.bind_eq_some_iff.1 h
    split at h
    · exact hname (Option.some.inj h)
    · simp at h

/-- The tasks add the entries of the bill, as often as the object is asked for. -/
theorem orderOf_itemSpecs {text : Str} {recursive : Bool} {count : ℕ} {contents : Contents}
    (h : objectContents ctx text recursive = some (count, contents))
    (hall : ∀ spec ∈ contents.itemSpecs, (orderOf ctx spec count).isSome) :
    contents.itemSpecs.map (fun spec => orderOf ctx spec count) =
      contents.bill.map fun e => some (e.1, e.2 * count) := by
  cases contents with
  | whole name =>
    obtain ⟨projectName, objectName, rfl, hobject⟩ := objectContents_whole h
    obtain ⟨⟨name', n⟩, horder⟩ := Option.isSome_iff_exists.1 (hall _ (List.mem_singleton_self _))
    obtain ⟨k, hread, rfl⟩ := orderOf_eq horder
    obtain ⟨rfl, rfl⟩ := resolveCartItem_fullName hobject hread
    simp only [Contents.itemSpecs, Contents.bill, List.map_cons, List.map_nil, horder]
  | brokenDown bom =>
    simp only [Contents.itemSpecs, Contents.bill, List.map_map]
    apply List.map_congr_left
    intro e he
    obtain ⟨⟨name', n⟩, horder⟩ :=
      Option.isSome_iff_exists.1 (hall (itemSpec e.1 e.2) (List.mem_map_of_mem he))
    obtain ⟨k, hread, rfl⟩ := orderOf_eq horder
    obtain ⟨rfl, rfl⟩ := resolveCartItem_itemSpec hread
    exact horder

/-- The entries that a spec adds. -/
def Spec.orders (ctx : CartContext ι) (spec : Spec) : List (Str × ℕ) :=
  match spec.bill ctx with
  | none => []
  | some (count, bill) => bill.map fun e => (e.1, e.2 * count)

/-- The entries were added, each under a name that leads to an object. -/
structure Entered (ctx : CartContext ι) (orders : List (Str × ℕ)) (st st' : CartState) : Prop where
  adds : ∃ es, Adds detailedTable st es st' ∧ (es.map fun e => (e.1, e.2.count)).Perm orders
  known : ∀ e ∈ orders, (resolveCartObject ctx e.1).isSome

theorem performs_add {st st' : CartState} (hown : Owns detailedTable st) {spec : Spec}
    (h : Performs ctx st (.add spec) st') : Entered ctx (spec.orders ctx) st st' := by
  cases spec with
  | object text recursive =>
    obtain ⟨count, contents, tasks, hcontents, htasks, hrun⟩ := h
    obtain ⟨es, hadds, hperm⟩ := hrun.adds hown
    have hspecs : (tasks.map fun task => orderOf ctx task.spec count) =
        contents.itemSpecs.map fun spec => orderOf ctx spec count := by
      rw [← htasks, List.map_map]
      rfl
    rw [hspecs] at hperm
    have hall : ∀ spec ∈ contents.itemSpecs, ∃ e ∈ es,
        orderOf ctx spec count = some (e.1, e.2.count) := by
      intro spec hspec
      obtain ⟨e, he, heq⟩ := List.mem_map.1 (hperm.mem_iff.2 (List.mem_map_of_mem hspec))
      exact ⟨e, he, heq.symm⟩
    have horders : (Spec.object text recursive).orders ctx =
        contents.bill.map fun e => (e.1, e.2 * count) := by
      rw [Spec.orders, Spec.bill, hcontents]
      rfl
    have hitems := orderOf_itemSpecs hcontents fun spec hspec => by
      obtain ⟨e, -, heq⟩ := hall spec hspec
      rw [heq]
      rfl
    rw [horders]
    refine ⟨⟨es, hadds, ?_⟩, ?_⟩
    · rw [hitems] at hperm
      have hsome := hperm.filterMap id
      simpa [List.filterMap_map, Function.comp_def] using hsome
    · intro e he
      obtain ⟨p, hp, rfl⟩ := List.mem_map.1 he
      have hmem : some (p.1, p.2 * count) ∈
          contents.itemSpecs.map fun spec => orderOf ctx spec count := by
        rw [hitems]
        exact List.mem_map_of_mem hp
      obtain ⟨spec, -, horder⟩ := List.mem_map.1 hmem
      exact resolveCartObject_of_orderOf horder
  | part text =>
    obtain ⟨a, hstep⟩ := h
    obtain ⟨name, item, hadds, horder⟩ := addPartSpec_adds hown hstep
    obtain ⟨k, hread, hcount⟩ := orderOf_eq horder
    have horders : (Spec.part text).orders ctx = [(name, item.count)] := by
      rw [Spec.orders, Spec.bill, hread, hcount, Nat.mul_comm]
      rfl
    rw [horders]
    refine ⟨⟨[(name, item)], hadds, List.Perm.refl _⟩, ?_⟩
    intro e he
    obtain rfl := List.mem_singleton.1 he
    exact resolveCartObject_of_orderOf horder

theorem performs_extends {st st' : CartState} (hown : Owns detailedTable st) {call : Call}
    (h : Performs ctx st call st') : Extends detailedTable st st' := by
  cases call with
  | add spec =>
    obtain ⟨es, hadds, -⟩ := (performs_add hown h).adds
    exact hadds.toExtends
  | item a count =>
    obtain ⟨b, hstep⟩ := h
    obtain ⟨item, -, hadds⟩ := addItem_adds hown hstep
    exact hadds.toExtends

theorem Runs.extends {calls : List Call} {st st' : CartState} (h : Runs ctx calls st st')
    (hown : Owns detailedTable st) : Extends detailedTable st st' := by
  induction h with
  | nil st => exact Extends.refl hown
  | cons step rest ih =>
    have hfirst := performs_extends hown step
    exact hfirst.trans (ih hfirst.owns)

/-- **A run of specs** adds their entries. -/
theorem Runs.entered {specs : List Spec} {st st' : CartState}
    (h : Runs ctx (specs.map Call.add) st st') (hown : Owns detailedTable st) :
    Entered ctx (specs.flatMap (Spec.orders ctx)) st st' := by
  induction specs generalizing st with
  | nil =>
    cases h with
    | nil st => exact ⟨⟨[], Adds.refl hown, List.Perm.nil⟩, fun e he => absurd he (by simp)⟩
  | cons spec specs ih =>
    cases h with
    | cons step rest =>
      obtain ⟨⟨es, hadds, hperm⟩, hknown⟩ := performs_add hown step
      obtain ⟨⟨es', hadds', hperm'⟩, hknown'⟩ := ih rest hadds.owns
      rw [List.flatMap_cons]
      refine ⟨⟨es ++ es', hadds.trans hadds', ?_⟩, ?_⟩
      · rw [List.map_append]
        exact hperm.append hperm'
      · intro e he
        rcases List.mem_append.1 he with he | he
        · exact hknown e he
        · exact hknown' e he

/-! ## The finished cart -/

theorem countOf_congr {p q : Str → Bool} {bill : List (Str × ℕ)}
    (h : ∀ e ∈ bill, p e.1 = q e.1) : countOf p bill = countOf q bill := by
  unfold countOf
  rw [List.filter_congr h]

theorem countOf_append (p : Str → Bool) (bill bill' : List (Str × ℕ)) :
    countOf p (bill ++ bill') = countOf p bill + countOf p bill' := by
  unfold countOf
  rw [List.filter_append, List.map_append, List.sum_append]

theorem countOf_times (p : Str → Bool) (bill : List (Str × ℕ)) (count : ℕ) :
    countOf p (bill.map fun e => (e.1, e.2 * count)) = count * countOf p bill := by
  unfold countOf
  induction bill with
  | nil => rfl
  | cons e bill ih =>
    rw [List.map_cons, List.filter_cons, List.filter_cons]
    split
    · rw [List.map_cons, List.map_cons, List.sum_cons, List.sum_cons, ih, Nat.mul_add,
        Nat.mul_comm count e.2]
    · exact ih

theorem countOf_perm (p : Str → Bool) {bill bill' : List (Str × ℕ)} (h : bill.Perm bill') :
    countOf p bill = countOf p bill' :=
  ((h.filter _).map _).sum_nat

theorem map_fst_orders (spec : Spec) : (spec.orders ctx).map Prod.fst = spec.names ctx := by
  unfold Spec.orders Spec.names
  cases spec.bill ctx with
  | none => rfl
  | some c => rw [List.map_map]; rfl

/-- The line of a name has the counts of the entries under it. -/
theorem lineCount_of_entered {orders : List (Str × ℕ)} {st st' : CartState}
    (hstart : st.1 = Dict.empty) (h : Entered ctx orders st st') (name : Str) :
    lineCount st' name =
      if name ∈ orders.map Prod.fst then some (countOf (fun n => n = name) orders) else none := by
  obtain ⟨es, hadds, hperm⟩ := h.adds
  have hview : view detailedTable st' name = Tally.sum es name := by
    have hempty : view detailedTable st name = none := by
      show (st.1.get? name).bind _ = none
      rw [hstart]
      rfl
    rw [hadds.view_eq, Tally.merge, hempty, Tally.none_plus]
  have hmem : name ∈ orders.map Prod.fst ↔ (Tally.sum es name).isSome := by
    rw [Tally.isSome_sum, ← (hperm.map Prod.fst).mem_iff, List.map_map]
    rfl
  have hcount : Tally.times (Tally.sum es name) = countOf (fun n => n = name) orders := by
    rw [Tally.times_sum, ← countOf_perm _ hperm, countOf, List.filter_map, List.map_map]
    rfl
  rw [lineCount, hview]
  cases hsum : Tally.sum es name with
  | none =>
    rw [if_neg (by rw [hmem, hsum]; simp)]
    rfl
  | some e =>
    rw [if_pos (by rw [hmem, hsum]; rfl), ← hcount, hsum]
    rfl

theorem owns_of_empty {st : CartState} (hstart : st.1 = Dict.empty) : Owns detailedTable st := by
  refine Owns.of_empty (fun name => ?_) st.2
  show st.1.get? name = none
  rw [hstart]
  rfl

theorem itemsKept {st : CartState} (hstart : st.1 = Dict.empty) : ItemsKept ctx st := by
  have hown := owns_of_empty hstart
  intro before a count after st₁ st₂ hbefore hline hafter
  have hown' := (hbefore.extends hown).owns
  have hlt : a < st₁.2.length := by
    cases hafter with
    | cons step rest =>
      obtain ⟨b, hstep⟩ := step
      obtain ⟨item, hitem, -⟩ := addItem_adds hown' hstep
      exact (List.getElem?_eq_some_iff.1 hitem).1
  exact (hafter.extends hown').frame hlt hline

variable [DecidableEq ι]

theorem countOf_orders (specs : List Spec) (o : ι) :
    countOf (fun name => resolveCartObject ctx name = some o) (specs.flatMap (Spec.orders ctx)) =
      (specs.map (Spec.demand ctx o)).sum := by
  induction specs with
  | nil => rfl
  | cons spec specs ih =>
    rw [List.flatMap_cons, countOf_append, List.map_cons, List.sum_cons, ih, Spec.orders,
      Spec.demand]
    cases spec.bill ctx with
    | none => rfl
    | some c => rw [countOf_times]

omit [DecidableEq ι] in
theorem mem_orders {specs : List Spec} {name : Str} :
    name ∈ (specs.flatMap (Spec.orders ctx)).map Prod.fst ↔
      ∃ spec ∈ specs, name ∈ spec.names ctx := by
  simp only [List.map_flatMap, map_fst_orders, List.mem_flatMap]

omit [DecidableEq ι] in
/-- What the lines of a filled cart are. -/
theorem isSome_lineCount {specs : List Spec} {st st' : CartState} (hstart : st.1 = Dict.empty)
    (hrun : Runs ctx (specs.map Call.add) st st') (name : Str) :
    (lineCount st' name).isSome ↔ ∃ spec ∈ specs, name ∈ spec.names ctx := by
  rw [lineCount_of_entered hstart (hrun.entered (owns_of_empty hstart)), ← mem_orders]
  split <;> simp_all

theorem oneSpelling_of_filled {specs : List Spec} {st st' : CartState} (hstart : st.1 = Dict.empty)
    (hrun : Runs ctx (specs.map Call.add) st st') (hfilled : Filled ctx specs st') :
    OneSpelling ctx specs := by
  intro spec hspec name hname spec' hspec' name' hname' hsame
  have hline := (isSome_lineCount hstart hrun name).2 ⟨spec, hspec, hname⟩
  have hline' := (isSome_lineCount hstart hrun name').2 ⟨spec', hspec', hname'⟩
  obtain ⟨o, hobject, hasked⟩ := hfilled.only name hline
  obtain ⟨first, hfirst, -⟩ := hfilled.line o hasked
  rw [(hfirst name).1 ⟨hline, hobject⟩, (hfirst name').1 ⟨hline', hsame ▸ hobject⟩]

theorem filled_of_oneSpelling {specs : List Spec} {st st' : CartState} (hstart : st.1 = Dict.empty)
    (hrun : Runs ctx (specs.map Call.add) st st') (hone : OneSpelling ctx specs) :
    Filled ctx specs st' := by
  have hentered := hrun.entered (owns_of_empty hstart)
  have hline := isSome_lineCount hstart hrun
  refine ⟨?_, ?_⟩
  · rintro o ⟨spec, hspec, name, hname, hobject⟩
    -- whatever leads to the object is spelled like this name
    have hspelled : ∀ spec' ∈ specs, ∀ name' ∈ spec'.names ctx,
        resolveCartObject ctx name' = some o → name' = name := by
      intro spec' hspec' name' hname' hobject'
      exact hone spec' hspec' name' hname' spec hspec name hname (hobject'.trans hobject.symm)
    refine ⟨name, fun name' => ⟨?_, ?_⟩, ?_⟩
    · rintro ⟨hsome, hobject'⟩
      obtain ⟨spec', hspec', hname'⟩ := (hline name').1 hsome
      exact hspelled spec' hspec' name' hname' hobject'
    · rintro rfl
      exact ⟨(hline name').2 ⟨spec, hspec, hname⟩, hobject⟩
    · rw [lineCount_of_entered hstart hentered, if_pos (mem_orders.2 ⟨spec, hspec, hname⟩),
        ← countOf_orders]
      refine congrArg some (countOf_congr fun e he => ?_)
      obtain ⟨spec', hspec', hname'⟩ := mem_orders.1 (List.mem_map_of_mem (f := Prod.fst) he)
      refine decide_eq_decide.2 ⟨?_, hspelled spec' hspec' e.1 hname'⟩
      intro heq
      rw [heq, hobject]
  · intro name hname
    obtain ⟨spec, hspec, hmem⟩ := (hline name).1 hname
    obtain ⟨e, he, rfl⟩ := List.mem_map.1 (mem_orders.2 ⟨spec, hspec, hmem⟩)
    obtain ⟨o, hobject⟩ := Option.isSome_iff_exists.1 (hentered.known e he)
    exact ⟨o, hobject, spec, hspec, e.1, hmem, hobject⟩

/-- **The finished cart** has one line for each object that is asked for, with the sum of its
counts, and the items that were passed to it are as they were, if and only if no object is entered
under two names. -/
theorem filled_iff (specs : List Spec) {st st' : CartState} (hstart : st.1 = Dict.empty)
    (hrun : Runs ctx (specs.map Call.add) st st') :
    (Filled ctx specs st' ∧ ItemsKept ctx st) ↔ OneSpelling ctx specs := by
  constructor
  · rintro ⟨hfilled, -⟩
    exact oneSpelling_of_filled hstart hrun hfilled
  · intro hone
    exact ⟨filled_of_oneSpelling hstart hrun hone, itemsKept hstart⟩

end

/-! ## A cube -/

def asciiDecimals : Decimals where
  value c := if c.isDigit then some (c.toNat - 48) else none
  ascii := fun _ _ => rfl

/-- A root package with the part `cube`. -/
def cubePackage : CartContext Unit where
  currentProjectPath := "//".toList
  project path :=
    if path = "//".toList then
      some ⟨fun name => if name = "cube".toList then some () else none, fun _ => none, fun _ => none⟩
    else none
  object _ := ⟨⟨none, none, 1⟩, none, none, none, false, []⟩
  decimals := asciiDecimals

/-- Two spellings for `add_objects`. -/
def twoCubes : List Spec := [.object "cube#2".toList false, .object "//:cube".toList false]

theorem filled_twoCubes :
    ∃ st', Runs cubePackage (twoCubes.map Call.add) (Dict.empty, []) st' ∧
      Filled cubePackage twoCubes st' ∧ ItemsKept cubePackage (Dict.empty, []) := by
  have hboth : ((addItemFromSpec cubePackage (Dict.empty, []) "//:cube".toList 2).bind fun st =>
      addItemFromSpec cubePackage st "//:cube".toList 1).isSome = true := by decide
  obtain ⟨st', hst'⟩ := Option.isSome_iff_exists.1 hboth
  obtain ⟨st₁, hfirst, hsecond⟩ := Option.bind_eq_some_iff.1 hst'
  have hrun : Runs cubePackage (twoCubes.map Call.add) (Dict.empty, []) st' :=
    .cons ⟨2, .whole "//:cube".toList, [⟨"//:cube".toList, 0⟩], rfl, rfl, .alone hfirst⟩
      (.cons ⟨1, .whole "//:cube".toList, [⟨"//:cube".toList, 0⟩], rfl, rfl, .alone hsecond⟩ (.nil st'))
  have hone : OneSpelling cubePackage twoCubes := by
    have hnames : ∀ spec ∈ twoCubes, spec.names cubePackage = ["//:cube".toList] := by
      intro spec hspec
      rcases List.mem_pair.1 hspec with rfl | rfl <;> rfl
    intro spec hspec name hname spec' hspec' name' hname' _
    rw [hnames spec hspec, List.mem_singleton] at hname
    rw [hnames spec' hspec', List.mem_singleton] at hname'
    rw [hname, hname']
  exact ⟨st', hrun, (filled_iff twoCubes rfl hrun).2 hone⟩

/-- One spelling for each of the two ways to fill the cart. -/
def cubeBothWays : List Spec := [.object "cube#2".toList false, .part "cube".toList]

/-- `add_part_specs` enters the cube as `cube`, beside the line `//:cube`. -/
theorem not_filled_cubeBothWays :
    ¬ ∀ (specs : List Spec) (st' : CartState),
      Runs cubePackage (specs.map Call.add) (Dict.empty, []) st' → Filled cubePackage specs st' := by
  intro h
  have hboth : ((addItemFromSpec cubePackage (Dict.empty, []) "//:cube".toList 2).bind fun st =>
      addPartSpec cubePackage st "cube".toList).isSome = true := by decide
  obtain ⟨⟨st', a⟩, hst'⟩ := Option.isSome_iff_exists.1 hboth
  obtain ⟨st₁, hfirst, hsecond⟩ := Option.bind_eq_some_iff.1 hst'
  have hrun : Runs cubePackage (cubeBothWays.map Call.add) (Dict.empty, []) st' :=
    .cons ⟨2, .whole "//:cube".toList, [⟨"//:cube".toList, 0⟩], rfl, rfl, .alone hfirst⟩
      (.cons ⟨a, hsecond⟩ (.nil st'))
  have hone := oneSpelling_of_filled rfl hrun (h cubeBothWays st' hrun)
  have hsame := hone (.object "cube#2".toList false) (by simp [cubeBothWays]) "//:cube".toList
    (by decide) (.part "cube".toList) (by simp [cubeBothWays]) "cube".toList (by decide) (by decide)
  exact absurd hsame (by decide)

end PartCAD.Supply
