import PartCAD.Expression.Evaluate

/-!
# Arithmetic in expressions

Expressions of literals, parameters, named constants, functions, signs and the operators of arithmetic.

* `Arithmetic`, `tree`, `value`, `Defined` : such expressions, how they parse and what they mean;
* `eval_tree` : evaluating one gives what it means;
* `accepted_iff_noConstant` : which of them are let through;
* `evaluates_iff` : **when an expression is accepted and has its value**.
-/

namespace PartCAD.Expr

open PartCAD.Lib

/-! ## Expressions of numbers -/

/-- `+ - * / //` -/
inductive ArithmeticOperator
  | add
  | sub
  | mult
  | div
  | floorDiv
  deriving DecidableEq, Repr

namespace ArithmeticOperator

def operator : ArithmeticOperator → Operator
  | .add => .add
  | .sub => .sub
  | .mult => .mult
  | .div => .div
  | .floorDiv => .floorDiv

noncomputable def value : ArithmeticOperator → ℝ → ℝ → ℝ
  | .add, x, y => x + y
  | .sub, x, y => x - y
  | .mult, x, y => x * y
  | .div, x, y => x / y
  | .floorDiv, x, y => ⌊x / y⌋

/-- A divisor is not zero. -/
def Domain : ArithmeticOperator → ℝ → Prop
  | .div, y => y ≠ 0
  | .floorDiv, y => y ≠ 0
  | _, _ => True

def integral : ArithmeticOperator → Bool → Bool → Bool
  | .div, _, _ => false
  | _, a, b => a && b

end ArithmeticOperator

/-- `+` or `-` -/
def signOperator (negative : Bool) : UnaryOperator := if negative then .uSub else .uAdd

/-- Expressions of numbers. -/
inductive Arithmetic
  | literal (n : Number ℝ)
  | parameter (id : Str)
  | constant (c : NamedConstant)
  | call (f : NumericFunction) (args : List Arithmetic)
  | sign (negative : Bool) (operand : Arithmetic)
  | op (o : ArithmeticOperator) (left right : Arithmetic)

namespace Arithmetic

@[elab_as_elim, induction_eliminator]
theorem induction {P : Arithmetic → Prop} (literal : ∀ n, P (.literal n))
    (parameter : ∀ id, P (.parameter id)) (constant : ∀ c, P (.constant c))
    (call : ∀ f args, (∀ a ∈ args, P a) → P (.call f args))
    (sign : ∀ negative operand, P operand → P (.sign negative operand))
    (op : ∀ o left right, P left → P right → P (.op o left right)) (e : Arithmetic) : P e := by
  refine @Arithmetic.rec P (fun args => ∀ a ∈ args, P a) literal parameter constant call sign op
    ?_ ?_ e
  · intro a ha
    cases ha
  · intro head tail hhead htail a ha
    rcases List.mem_cons.1 ha with rfl | ha
    · exact hhead
    · exact htail a ha

/-- How it parses: parentheses leave nothing behind. -/
def tree : Arithmetic → Ast ℝ
  | .literal n => .constant (.num n)
  | .parameter id => .name id
  | .constant c => .name c.name
  | .call f args => .call (.name f.name) (args.map tree) []
  | .sign negative operand => .unaryOp (signOperator negative) operand.tree
  | .op o left right => .binOp left.tree o.operator right.tree

/-- The parameters in it. -/
def parameters : Arithmetic → List Str
  | .literal _ => []
  | .parameter id => [id]
  | .constant _ => []
  | .call _ args => args.flatMap parameters
  | .sign _ operand => operand.parameters
  | .op _ left right => left.parameters ++ right.parameters

/-- The constants in it that are not in the arguments of a call. -/
def constants : Arithmetic → List NamedConstant
  | .literal _ => []
  | .parameter _ => []
  | .constant c => [c]
  | .call _ _ => []
  | .sign _ operand => operand.constants
  | .op _ left right => left.constants ++ right.constants

/-- The operands of the products in it. -/
def factors : Arithmetic → List Arithmetic
  | .literal _ => []
  | .parameter _ => []
  | .constant _ => []
  | .call _ args => args.flatMap factors
  | .sign _ operand => operand.factors
  | .op .mult left right => left :: right :: (left.factors ++ right.factors)
  | .op _ left right => left.factors ++ right.factors

section

variable (values : Dict Str (Value ℝ))

/-- The number that a parameter stands for. -/
def number (id : Str) : Number ℝ :=
  match values.get? id with
  | some (.num n) => n
  | _ => .int 0

/-- It is an integer for Python. -/
def integral : Arithmetic → Bool
  | .literal n => n.integral
  | .parameter id => (number values id).integral
  | .constant _ => false
  | .call f args => f.integral (args.map integral)
  | .sign _ operand => operand.integral
  | .op o left right => o.integral left.integral right.integral

/-- **The arithmetic value.** -/
noncomputable def value : Arithmetic → ℝ
  | .literal n => n.toReal
  | .parameter id => (number values id).toReal
  | .constant c => c.value
  | .call f args => f.value (args.map value)
  | .sign negative operand => if negative then -operand.value else operand.value
  | .op o left right => o.value left.value right.value

/-- Divisors are not zero, and arguments of functions are in their domains. -/
def Defined : Arithmetic → Prop
  | .literal _ => True
  | .parameter _ => True
  | .constant _ => True
  | .call f args => (∀ a ∈ args, a.Defined) ∧ f.Domain (args.map fun a => (a.value values, a.integral values))
  | .sign _ operand => operand.Defined
  | .op o left right => left.Defined ∧ right.Defined ∧ o.Domain (right.value values)

end

/-! ## The operators -/

theorem intBinary_gives (o : ArithmeticOperator) (m n : ℤ) (h : o.Domain n) :
    ∃ c, Number.intBinary exact o.operator m n = some (.ok c) ∧
      c.toReal = o.value m n ∧ c.integral = o.integral true true := by
  cases o with
  | add => exact ⟨_, rfl, Int.cast_add m n, rfl⟩
  | sub => exact ⟨_, rfl, Int.cast_sub m n, rfl⟩
  | mult => exact ⟨_, rfl, Int.cast_mul m n, rfl⟩
  | div =>
    have hn : n ≠ 0 := fun h0 => h (by rw [h0, Int.cast_zero])
    exact ⟨.float (m / n), congrArg some (if_neg hn), rfl, rfl⟩
  | floorDiv =>
    have hn : n ≠ 0 := fun h0 => h (by rw [h0, Int.cast_zero])
    exact ⟨.int (m.fdiv n), congrArg some (if_neg hn), congrArg Int.cast (floor_div m hn).symm, rfl⟩

theorem floatBinary_gives (o : ArithmeticOperator) (a b : Number ℝ) (h : o.Domain b.toReal) :
    ∃ c, Number.floatBinary exact o.operator (a.toFloat exact) (b.toFloat exact) = some (.ok c) ∧
      c.toReal = o.value a.toReal b.toReal ∧ c.integral = false := by
  have hzero : b.toReal ≠ 0 → ¬ exact.isZero (b.toFloat exact) = true := mt decide_eq_true_iff.1
  cases o with
  | add => exact ⟨_, rfl, rfl, rfl⟩
  | sub => exact ⟨_, rfl, rfl, rfl⟩
  | mult => exact ⟨_, rfl, rfl, rfl⟩
  | div => exact ⟨.float (a.toReal / b.toReal), congrArg some (if_neg (hzero h)), rfl, rfl⟩
  | floorDiv => exact ⟨.float ⌊a.toReal / b.toReal⌋, congrArg some (if_neg (hzero h)), rfl, rfl⟩

theorem integral_false_left (o : ArithmeticOperator) (kind : Bool) : o.integral false kind = false := by
  cases o <;> rfl

theorem integral_false_right (o : ArithmeticOperator) (kind : Bool) : o.integral kind false = false := by
  cases o <;> cases kind <;> rfl

/-- The operators on numbers are those of arithmetic. -/
theorem binary_gives (o : ArithmeticOperator) (a b : Number ℝ) (h : o.Domain b.toReal) :
    ∃ c, Number.binary exact o.operator a b = some (.ok c) ∧
      c.toReal = o.value a.toReal b.toReal ∧ c.integral = o.integral a.integral b.integral := by
  cases ha : a.asInt with
  | some m =>
    cases hb : b.asInt with
    | some n =>
      rw [toReal_of_asInt ha, toReal_of_asInt hb, integral_of_asInt ha, integral_of_asInt hb]
      rw [toReal_of_asInt hb] at h
      simp only [Number.binary, ha, hb]
      exact intBinary_gives o m n h
    | none =>
      rw [integral_of_none hb, integral_false_right]
      simp only [Number.binary, ha, hb]
      exact floatBinary_gives o a b h
  | none =>
    rw [integral_of_none ha, integral_false_left]
    simp only [Number.binary, ha]
    exact floatBinary_gives o a b h

theorem unary_gives (negative : Bool) (a : Number ℝ) :
    ∃ c, Number.unary exact (signOperator negative) a = some c ∧
      c.toReal = (if negative then -a.toReal else a.toReal) ∧ c.integral = a.integral := by
  cases ha : a.asInt with
  | some n =>
    rw [toReal_of_asInt ha, integral_of_asInt ha]
    cases negative with
    | false =>
      refine ⟨.int n, ?_, rfl, rfl⟩
      simp only [Number.unary, signOperator, ha, Bool.false_eq_true, if_false]
    | true =>
      refine ⟨.int (-n), ?_, Int.cast_neg n, rfl⟩
      simp only [Number.unary, signOperator, ha, if_true]
  | none =>
    rw [integral_of_none ha]
    cases negative with
    | false =>
      refine ⟨a, ?_, rfl, integral_of_none ha⟩
      simp only [Number.unary, signOperator, ha, Bool.false_eq_true, if_false]
    | true =>
      refine ⟨.float (-a.toReal), ?_, rfl, rfl⟩
      simp only [Number.unary, signOperator, ha, if_true]
      rfl

theorem applyUnary_sign {others : Others ℝ} (negative : Bool) {a c : Number ℝ}
    (h : Number.unary exact (signOperator negative) a = some c) :
    applyUnary exact others (signOperator negative) (.num a) = .ok (.num c) := by
  cases negative <;> simp only [applyUnary, signOperator, Bool.false_eq_true, if_false, if_true] at h ⊢ <;>
    rw [h]

/-! ## Evaluation -/

section

variable {values : Dict Str (Value ℝ)}

/-- The parameters of an expression have numeric values. -/
def Numeric (values : Dict Str (Value ℝ)) (e : Arithmetic) : Prop :=
  ∀ id ∈ e.parameters, ∃ n, values.get? id = some (.num n)

/-- No parameter has the name of something in scope. -/
def Unshadowed (values : Dict Str (Value ℝ)) : Prop :=
  ∀ entry ∈ scope exact, entry.1 ∉ values.keys

theorem get?_of_scope (h : Unshadowed values) {entry : Str × Value ℝ} (hentry : entry ∈ scope exact) :
    values.get? entry.1 = none :=
  lookupItem_eq_none.2 (h entry hentry)

theorem find_constant (c : NamedConstant) :
    (scope exact).find? (·.1 == c.name) = some (c.name, .num (.float c.value)) := by
  cases c <;> rfl

theorem find_function (f : NumericFunction) :
    (scope exact).find? (·.1 == f.name) = some (f.name, .builtin (.numeric f)) := by
  cases f <;> rfl

theorem lookup_constant (h : Unshadowed values) (c : NamedConstant) :
    lookup exact values c.name = .ok (.num (.float c.value)) := by
  have hnone := get?_of_scope h (List.mem_of_find?_eq_some (find_constant c))
  rw [lookup, hnone, find_constant]

theorem lookup_function (h : Unshadowed values) (f : NumericFunction) :
    lookup exact values f.name = .ok (.builtin (.numeric f)) := by
  have hnone := get?_of_scope h (List.mem_of_find?_eq_some (find_function f))
  rw [lookup, hnone, find_function]

theorem numbers_map (ns : List (Number ℝ)) : numbers (ns.map Value.num) = some ns := by
  induction ns with
  | nil => rfl
  | cons n ns ih =>
    rw [List.map_cons, numbers, ih]
    rfl

/-- Evaluating gives a number with the value. -/
def Evaluates (others : Others ℝ) (values : Dict Str (Value ℝ)) (e : Arithmetic) (n : Number ℝ) : Prop :=
  eval exact others values e.tree = .ok (.num n) ∧ n.toReal = e.value values ∧
    n.integral = e.integral values

variable {others : Others ℝ}

theorem evalAll_trees {args : List Arithmetic} (h : ∀ a ∈ args, ∃ n, Evaluates others values a n) :
    ∃ ns : List (Number ℝ), evalAll exact others values (args.map tree) = .ok (ns.map .num) ∧
      ns.map Number.toReal = args.map (value values) ∧
      ns.map Number.integral = args.map (integral values) := by
  induction args with
  | nil => exact ⟨[], rfl, rfl, rfl⟩
  | cons a args ih =>
    obtain ⟨n, hn, hvalue, hkind⟩ := h a List.mem_cons_self
    obtain ⟨ns, hns, hvalues, hkinds⟩ := ih fun b hb => h b (List.mem_cons_of_mem _ hb)
    refine ⟨n :: ns, ?_, ?_, ?_⟩
    · rw [List.map_cons, evalAll, hn, hns]
      rfl
    · rw [List.map_cons, List.map_cons, hvalue, hvalues]
    · rw [List.map_cons, List.map_cons, hkind, hkinds]

/-- **Evaluating an expression** gives its arithmetic value. -/
theorem eval_tree (hscope : Unshadowed values) {e : Arithmetic} (hnum : Numeric values e)
    (hdef : e.Defined values) : ∃ n, Evaluates others values e n := by
  induction e with
  | literal n =>
    refine ⟨n, ?_, ?_, ?_⟩
    · rw [tree, eval]
    · rw [value]
    · rw [integral]
  | parameter id =>
    obtain ⟨n, hn⟩ := hnum id (by rw [parameters]; exact List.mem_cons_self)
    refine ⟨n, ?_, ?_, ?_⟩
    · simp only [tree, eval, lookup, hn]
    · simp only [value, number, hn]
    · simp only [integral, number, hn]
  | constant c =>
    refine ⟨.float c.value, ?_, ?_, ?_⟩
    · rw [tree, eval, lookup_constant hscope]
    · rw [value]
      rfl
    · rw [integral]
      rfl
  | call f args ih =>
    rw [Defined] at hdef
    obtain ⟨hargs, hdomain⟩ := hdef
    have hall : ∀ a ∈ args, ∃ n, Evaluates others values a n := by
      intro a ha
      refine ih a ha ?_ (hargs a ha)
      intro id hid
      refine hnum id ?_
      rw [parameters]
      exact List.mem_flatMap.2 ⟨a, ha, hid⟩
    obtain ⟨ns, hns, hvalues, hkinds⟩ := evalAll_trees hall
    have hkinded : ns.map Number.kinded = args.map fun a => (a.value values, a.integral values) := by
      have hpairs : ns.map Number.kinded = (ns.map Number.toReal).zip (ns.map Number.integral) := by
        rw [List.zip_map']
        rfl
      rw [hpairs, hvalues, hkinds, List.zip_map']
    rw [← hkinded] at hdomain
    obtain ⟨c, hc, hvalue, hkind⟩ := gives_of_domain hdomain
    refine ⟨c, ?_, ?_, ?_⟩
    · rw [tree, eval, eval, lookup_function hscope, hns]
      show applyCall exact others (.builtin (.numeric f)) (ns.map .num) = _
      simp only [applyCall, numbers_map ns, hc]
      rfl
    · rw [hvalue, hvalues, value]
    · rw [hkind, hkinds, integral]
  | sign negative operand ih =>
    rw [Defined] at hdef
    obtain ⟨n, hn, hvalue, hkind⟩ := ih (by rwa [Numeric, parameters] at hnum) hdef
    obtain ⟨c, hc, hcvalue, hckind⟩ := unary_gives negative n
    refine ⟨c, ?_, ?_, ?_⟩
    · rw [tree, eval, hn]
      exact applyUnary_sign negative hc
    · rw [hcvalue, hvalue, value]
    · rw [hckind, hkind, integral]
  | op o left right hleft hright =>
    rw [Defined] at hdef
    obtain ⟨hdl, hdr, hdomain⟩ := hdef
    rw [Numeric, parameters] at hnum
    obtain ⟨a, ha, havalue, hakind⟩ := hleft (fun id hid => hnum id (List.mem_append_left _ hid)) hdl
    obtain ⟨b, hb, hbvalue, hbkind⟩ := hright (fun id hid => hnum id (List.mem_append_right _ hid)) hdr
    rw [← hbvalue] at hdomain
    obtain ⟨c, hc, hcvalue, hckind⟩ := binary_gives o a b hdomain
    refine ⟨c, ?_, ?_, ?_⟩
    · rw [tree, eval, ha, hb]
      show applyBinary exact others _ (.num a) (.num b) = _
      simp only [applyBinary, hc]
      rfl
    · rw [hcvalue, havalue, hbvalue, value]
    · rw [hckind, hakind, hbkind, integral]

/-! ## The check -/

/-- No operand of a product holds a named constant, except in the arguments of a call. -/
def NoConstant (e : Arithmetic) : Prop := ∀ a ∈ e.factors, a.constants = []

theorem isNumeric_tree (hscope : Unshadowed values) {e : Arithmetic} (hnum : Numeric values e) :
    isNumeric Value.isNumber values e.tree = true ↔ e.constants = [] := by
  induction e with
  | literal n =>
    rw [tree, constants]
    exact iff_of_true rfl rfl
  | parameter id =>
    obtain ⟨n, hn⟩ := hnum id (by rw [parameters]; exact List.mem_cons_self)
    rw [tree, constants, isNumeric, hn]
    exact iff_of_true rfl rfl
  | constant c =>
    have hnone := get?_of_scope hscope (List.mem_of_find?_eq_some (find_constant c))
    rw [tree, constants, isNumeric, hnone]
    exact iff_of_false Bool.false_ne_true (List.cons_ne_nil _ _)
  | call f args ih =>
    have hf : f.name ∈ numericFunctions := by
      cases f <;> decide
    rw [tree, constants, isNumeric]
    exact iff_of_true (decide_eq_true hf) rfl
  | sign negative operand ih =>
    rw [Numeric, parameters] at hnum
    rw [tree, constants, isNumeric, ih hnum]
  | op o left right hleft hright =>
    rw [Numeric, parameters] at hnum
    rw [tree, constants, isNumeric, Bool.and_eq_true, List.append_eq_nil_iff,
      hleft fun id hid => hnum id (List.mem_append_left _ hid),
      hright fun id hid => hnum id (List.mem_append_right _ hid)]

theorem isStarred_tree (e : Arithmetic) : isStarred e.tree = false := by
  cases e <;> rw [tree] <;> rfl

theorem callsWithMore_tree (f : NumericFunction) (args : List Arithmetic) :
    callsWithMore (.call (.name f.name) (args.map tree) []) = false := by
  have hplain : (args.map tree).any isStarred = false := by
    rw [List.any_map, List.any_eq_false]
    intro a _
    exact ne_true_of_eq_false (isStarred_tree a)
  rw [callsWithMore, hplain]
  rfl

theorem accepted_leaf {node : Ast ℝ} (hnode : checkNode Value.isNumber values node = .ok ())
    (hleaf : node.children = []) : Accepted Value.isNumber values node := by
  refine accepted_iff.2 ⟨hnode, ?_⟩
  rw [hleaf]
  exact fun c hc => absurd hc List.not_mem_nil

theorem accepted_binOp {left right : Ast ℝ} {o : ArithmeticOperator} :
    Accepted Value.isNumber values (.binOp left o.operator right) ↔
      checkNode Value.isNumber values (.binOp left o.operator right) = .ok () ∧
        Accepted Value.isNumber values left ∧ Accepted Value.isNumber values right := by
  have hoperator : Accepted Value.isNumber values (.operator o.operator : Ast ℝ) := by
    cases o <;> exact accepted_leaf rfl rfl
  rw [accepted_iff, Ast.children, List.forall_mem_cons, List.forall_mem_cons, List.forall_mem_singleton,
    and_iff_right hoperator]

theorem checkNode_product {left right : Ast ℝ} :
    checkNode Value.isNumber values (.binOp left .mult right) = .ok () ↔
      isNumeric Value.isNumber values left = true ∧ isNumeric Value.isNumber values right = true := by
  rw [checkNode, unsafeProduct, ← Bool.and_eq_true]
  cases isNumeric Value.isNumber values left && isNumeric Value.isNumber values right with
  | true => exact iff_of_true rfl rfl
  | false =>
    refine iff_of_false ?_ Bool.false_ne_true
    intro h
    cases h

/-- **What is accepted**: an expression without named constants in its factors. -/
theorem accepted_iff_noConstant (hscope : Unshadowed values) {e : Arithmetic} (hnum : Numeric values e) :
    Accepted Value.isNumber values e.tree ↔ e.NoConstant := by
  induction e with
  | literal n =>
    rw [tree, NoConstant, factors]
    exact iff_of_true (accepted_leaf rfl rfl) (List.forall_mem_nil _)
  | parameter id =>
    rw [tree, NoConstant, factors]
    exact iff_of_true (accepted_leaf rfl rfl) (List.forall_mem_nil _)
  | constant c =>
    rw [tree, NoConstant, factors]
    exact iff_of_true (accepted_leaf rfl rfl) (List.forall_mem_nil _)
  | call f args ih =>
    have hnode : checkNode Value.isNumber values (.call (.name f.name) (args.map tree) []) = .ok () := by
      simp only [checkNode, unsafeProduct, disallowed, unsafeAttribute, callsValue, callsWithMore_tree,
        Bool.false_eq_true, if_false]
    have harg : ∀ a ∈ args, Numeric values a := by
      intro a ha id hid
      refine hnum id ?_
      rw [parameters]
      exact List.mem_flatMap.2 ⟨a, ha, hid⟩
    rw [tree, accepted_iff, NoConstant, factors]
    constructor
    · rintro ⟨-, h⟩ b hb
      obtain ⟨a, ha, hb⟩ := List.mem_flatMap.1 hb
      refine (ih a ha (harg a ha)).1 (h a.tree ?_) b hb
      exact List.mem_append_left _ (List.mem_cons_of_mem _ (List.mem_map_of_mem ha))
    · intro h
      refine ⟨hnode, ?_⟩
      intro c hc
      rw [Ast.children, List.append_nil] at hc
      rcases List.mem_cons.1 hc with rfl | hc
      · exact accepted_leaf rfl rfl
      · obtain ⟨a, ha, rfl⟩ := List.mem_map.1 hc
        refine (ih a ha (harg a ha)).2 ?_
        intro b hb
        exact h b (List.mem_flatMap.2 ⟨a, ha, hb⟩)
  | sign negative operand ih =>
    rw [Numeric, parameters] at hnum
    have hoperator : Accepted Value.isNumber values (.unaryOperator (signOperator negative)) :=
      accepted_leaf rfl rfl
    rw [tree, accepted_iff, NoConstant, factors]
    constructor
    · rintro ⟨-, h⟩
      exact (ih hnum).1 (h _ (List.mem_cons_of_mem _ List.mem_cons_self))
    · intro h
      refine ⟨rfl, ?_⟩
      rw [Ast.children, List.forall_mem_cons, List.forall_mem_singleton]
      exact ⟨hoperator, (ih hnum).2 h⟩
  | op o left right hleft hright =>
    rw [Numeric, parameters] at hnum
    have hnl : Numeric values left := fun id hid => hnum id (List.mem_append_left _ hid)
    have hnr : Numeric values right := fun id hid => hnum id (List.mem_append_right _ hid)
    rw [tree, accepted_binOp, hleft hnl, hright hnr]
    by_cases ho : o = .mult
    · subst ho
      rw [ArithmeticOperator.operator, checkNode_product, isNumeric_tree hscope hnl,
        isNumeric_tree hscope hnr, NoConstant, NoConstant, NoConstant, factors, List.forall_mem_cons,
        List.forall_mem_cons, List.forall_mem_append, and_assoc]
    · have hnode : checkNode Value.isNumber values (.binOp left.tree o.operator right.tree) = .ok () := by
        cases o <;> first | rfl | exact absurd rfl ho
      have hfactors : (op o left right).factors = left.factors ++ right.factors := by
        rw [factors]
        exact ho
      rw [NoConstant, NoConstant, NoConstant, hfactors, List.forall_mem_append]
      exact and_iff_right hnode

/-! ## Texts -/

/-- A text that is read as the expression.  The names of parameters are names: a text that is one is the
parameter, and none stands before a colon. -/
structure Written (parse : Str → Except Str (Ast ℝ)) (values : Dict Str (Value ℝ)) (text : Str)
    (e : Arithmetic) : Prop where
  parsed : parse text = .ok e.tree
  whole : ∀ id ∈ values.keys, strip text = id → e = .parameter id
  head : ':' ∈ text → strip (Text.partition ':' text).1 ∉ values.keys

/-- The check accepts it, and evaluating it gives its arithmetic value. -/
def Meets (others : Others ℝ) (parse : Str → Except Str (Ast ℝ)) (values : Dict Str (Value ℝ)) (text : Str)
    (e : Arithmetic) : Prop :=
  check Value.isNumber values e.tree text = .ok () ∧
    ∃ n, evaluate exact others values parse text = .ok (.num n) ∧ n.toReal = e.value values

variable {parse : Str → Except Str (Ast ℝ)} {text : Str} {e : Arithmetic}

theorem evaluate_written (hw : Written parse values text e) {n : Number ℝ}
    (hcheck : check Value.isNumber values e.tree text = .ok ())
    (heval : eval exact others values e.tree = .ok (.num n)) :
    evaluate exact others values parse text = .ok (.num n) := by
  have htext : evalText exact others values parse text text = .ok (.num n) := by
    simp only [evalText, hw.parsed, hcheck, heval]
  rw [evaluate]
  cases hname : values.get? (strip text) with
  | some v =>
    have hmem : strip text ∈ values.keys := Dict.mem_keys.2 ⟨v, Dict.get?_eq_some.1 hname⟩
    have he := hw.whole _ hmem rfl
    rw [he, tree, eval, lookup, hname] at heval
    exact congrArg Except.ok (Except.ok.inj heval)
  | none =>
    dsimp only
    by_cases hcolon : ':' ∈ text
    · have hhead : values.get? (strip (Text.partition ':' text).1) = none :=
        lookupItem_eq_none.2 (hw.head hcolon)
      rw [hhead]
      exact htext
    · rw [decide_eq_false hcolon]
      cases values.get? (strip (Text.partition ':' text).1) with
      | some v => exact htext
      | none => exact htext

theorem noConstant_of_meets (hscope : Unshadowed values) (hnum : Numeric values e)
    (h : e.Meets others parse values text) : e.NoConstant :=
  (accepted_iff_noConstant hscope hnum).1 (check_eq_ok_iff.1 h.1)

/-- **An expression of numbers is accepted and has its arithmetic value** exactly when no factor of a
product in it holds a named constant outside a call. -/
theorem evaluates_iff (hscope : Unshadowed values) (hnum : Numeric values e) (hdef : e.Defined values)
    (hw : Written parse values text e) : e.Meets others parse values text ↔ e.NoConstant := by
  constructor
  · exact noConstant_of_meets hscope hnum
  · intro h
    have hcheck : check Value.isNumber values e.tree text = .ok () :=
      check_eq_ok_iff.2 ((accepted_iff_noConstant hscope hnum).2 h)
    obtain ⟨n, hn, hvalue, -⟩ := eval_tree hscope hnum hdef
    exact ⟨hcheck, n, evaluate_written hw hcheck hn, hvalue⟩

end

/-! ## A constant in a call, and one in a product -/

/-- An interpreter that knows numbers only. -/
def numbersOnly : Others ℝ where
  truth _ := false
  unary _ _ := .error "TypeError".toList
  binary _ _ _ := .error "TypeError".toList
  compare _ _ _ := .error "TypeError".toList
  call _ _ := .error "TypeError".toList
  readAttribute _ _ := .error "AttributeError".toList
  subscript _ _ := .error "TypeError".toList

/-- The parameter `width`, which is 3. -/
def width : Dict Str (Value ℝ) := Dict.empty.set "width".toList (.num (.int 3))

/-- `cos(pi)*width` -/
def cosine : Arithmetic := .op .mult (.call .cos [.constant .pi]) (.parameter "width".toList)

theorem unshadowed_width : Unshadowed width := by
  have hnames : ∀ name ∈ (scope exact).map Prod.fst, name ∉ width.keys := by decide
  intro entry hentry
  exact hnames _ (List.mem_map_of_mem hentry)

theorem evaluates_cosine :
    cosine.Meets numbersOnly (fun _ => .ok cosine.tree) width "cos(pi)*width".toList := by
  refine (evaluates_iff unshadowed_width ?_ ?_ ?_).2 ?_
  · intro id hid
    simp only [cosine, parameters, List.flatMap_cons, List.flatMap_nil, List.append_nil, List.nil_append,
      List.mem_singleton] at hid
    exact ⟨.int 3, by rw [hid]; rfl⟩
  · simp [cosine, Defined, NumericFunction.Domain, ArithmeticOperator.Domain]
  · refine ⟨rfl, ?_, ?_⟩
    · intro id hid htext
      obtain rfl : id = "width".toList := List.mem_singleton.1 hid
      exact absurd htext (by decide)
    · exact fun hcolon => absurd hcolon (by decide)
  · simp [NoConstant, cosine, factors, constants]

/-- `2*pi` -/
def twoPi : Arithmetic := .op .mult (.literal (.int 2)) (.constant .pi)

/-- A product with a named constant is refused. -/
theorem not_evaluates_twoPi :
    Unshadowed width ∧ Numeric width twoPi ∧ twoPi.Defined width ∧
      Written (fun _ => .ok twoPi.tree) width "2*pi".toList twoPi ∧
      ¬ twoPi.Meets numbersOnly (fun _ => .ok twoPi.tree) width "2*pi".toList := by
  have hnum : Numeric width twoPi := by
    intro id hid
    simp [twoPi, parameters] at hid
  refine ⟨unshadowed_width, hnum, ?_, ⟨rfl, ?_, ?_⟩, ?_⟩
  · simp [twoPi, Defined, ArithmeticOperator.Domain]
  · intro id hid htext
    obtain rfl : id = "width".toList := List.mem_singleton.1 hid
    exact absurd htext (by decide)
  · exact fun hcolon => absurd hcolon (by decide)
  · intro h
    have hfree := noConstant_of_meets unshadowed_width hnum h
    simp [NoConstant, twoPi, factors, constants] at hfree

end Arithmetic

end PartCAD.Expr
