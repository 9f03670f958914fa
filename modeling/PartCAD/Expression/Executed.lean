import PartCAD.Expression.Operations

/-!
# What an accepted expression executes

* `number_or_method` : what is taken for a number is one, or a method that has not been called;
* `executed_allowed` : **what an accepted expression executes** is on the lists, and its products are those
  of numbers.
-/

namespace PartCAD.Expr

open PartCAD.Lib

variable {F : Type}

/-! ## Numbers -/

section

variable {fl : Floats F} {rt : Runtime F} {values : Dict Str (Value F)}

/-- A function, or a method of a value. -/
def Value.isFunction : Value F → Bool
  | .builtin _ => true
  | .method _ _ => true
  | _ => false

/-- The parameters are data. -/
def NoFunctions (values : Dict Str (Value F)) : Prop :=
  ∀ id v, values.get? id = some v → v.isFunction = false

/-- A number, or a method that has not been called: multiplying by one fails. -/
def Value.isNumberOrMethod : Value F → Bool
  | .num _ => true
  | .method _ _ => true
  | _ => false

theorem isNumberOrMethod_num {v : Value F} (h : ∃ n, v = .num n) : v.isNumberOrMethod = true := by
  obtain ⟨n, rfl⟩ := h
  rfl

/-- `r` is a number, when it is anything. -/
def OnlyNumber (r : Except Str (Value F)) : Prop := ∀ v, r = .ok v → ∃ n, v = .num n

theorem onlyNumber_error (e : Str) : OnlyNumber (F := F) (.error e) := by
  intro v h
  cases h

theorem onlyNumber_ok (n : Number F) : OnlyNumber (F := F) (.ok (.num n)) := by
  intro v h
  cases h
  exact ⟨n, rfl⟩

theorem onlyNumber_map {α : Type} (r : Except Str α) (f : α → Number F) :
    OnlyNumber (r.map fun a => .num (f a)) := by
  cases r with
  | error e => exact onlyNumber_error e
  | ok a => exact onlyNumber_ok (f a)

theorem onlyNumber_bind {α : Type} {r : Except Str α} {f : α → Except Str (Value F)}
    (h : ∀ a, r = .ok a → OnlyNumber (f a)) : OnlyNumber (r >>= f) := by
  cases r with
  | error e => exact onlyNumber_error e
  | ok a => exact h a rfl

/-! ### Operators -/

theorem onlyNumber_applyUnary (op : UnaryOperator) {v : Value F} (hv : v.isNumberOrMethod = true) :
    OnlyNumber (applyUnary fl (others fl rt) op v) := by
  cases v with
  | num a =>
    cases op with
    | not => exact onlyNumber_ok _
    | uAdd =>
      cases ha : a.asInt <;> simp only [applyUnary, Number.unary, ha] <;> exact onlyNumber_ok _
    | uSub =>
      cases ha : a.asInt <;> simp only [applyUnary, Number.unary, ha] <;> exact onlyNumber_ok _
    | invert => exact onlyNumber_map _ _
  | method self attr =>
    cases op with
    | not => exact onlyNumber_ok _
    | _ => exact onlyNumber_error _
  | _ => cases hv

theorem onlyNumber_applyBinary (op : Operator) {v w : Value F} (hv : v.isNumberOrMethod = true)
    (hw : w.isNumberOrMethod = true) : OnlyNumber (applyBinary fl (others fl rt) op v w) := by
  cases v with
  | num a =>
    cases w with
    | num b =>
      rw [applyBinary]
      cases hc : Number.binary fl op a b with
      | some c => exact onlyNumber_map c id
      | none =>
        cases op with
        | mult =>
          exfalso
          cases ha : a.asInt <;> cases hb : b.asInt <;>
            simp [Number.binary, Number.intBinary, Number.floatBinary, ha, hb] at hc
        | _ => exact onlyNumber_error _
    | method self attr =>
      cases op with
      | mult =>
        refine onlyNumber_bind fun i _ => ?_
        exact onlyNumber_error _
      | _ => exact onlyNumber_error _
    | _ => cases hw
  | method self attr =>
    cases w with
    | num b =>
      cases op with
      | mult =>
        refine onlyNumber_bind fun i _ => ?_
        exact onlyNumber_error _
      | _ => exact onlyNumber_error _
    | method self' attr' => cases op <;> exact onlyNumber_error _
    | _ => cases hw
  | _ => cases hv

/-! ### Calls -/

theorem onlyNumber_numeric (f : NumericFunction) (args : List (Value F)) :
    OnlyNumber (applyCall fl (others fl rt) (.builtin (.numeric f)) args) := by
  rw [applyCall.eq_def]
  cases numbers args with
  | some ns => exact onlyNumber_map _ id
  | none => exact onlyNumber_map _ id

/-- What is no function cannot be called. -/
theorem applyCall_of_not_function {func : Value F} (h : func.isFunction = false) (args : List (Value F)) :
    applyCall fl (others fl rt) func args = typeError := by
  cases func with
  | builtin f => cases h
  | method self attr => cases h
  | _ => rfl

theorem applyCall_method (self : Value F) (attr : Str) (args : List (Value F)) :
    applyCall fl (others fl rt) (.method self attr) args = callMethod fl rt self attr args := by
  rw [applyCall.eq_def]
  rfl

theorem TextMethod.name_of_named {isBytes : Bool} {attr : Str} {m : TextMethod}
    (h : TextMethod.named isBytes attr = some m) : m.name = attr := by
  have hm := List.find?_some h
  rw [Bool.and_eq_true, beq_iff_eq] at hm
  exact hm.1

theorem onlyNumber_textMethod {m : TextMethod} (h : m.name ∈ numericAttributes) (isBytes : Bool) (s : Str)
    (args : List (Value F)) : OnlyNumber (textMethod fl rt m isBytes s args) := by
  cases m with
  | count => exact onlyNumber_map _ _
  | find => exact onlyNumber_map _ _
  | index => exact onlyNumber_map _ _
  | rfind => exact onlyNumber_map _ _
  | rindex => exact onlyNumber_map _ _
  | _ => exact absurd h (by decide)

theorem onlyNumber_numberMethod {n : Number F} {attr : Str} (hattr : attr ∈ numericAttributes)
    (hmethod : attr ∈ numberMethods n) (args : List (Value F)) :
    OnlyNumber (numberMethod fl rt n attr args) := by
  have hlength : attr = "bit_length".toList ∧ n.asInt.isSome = true := by
    rw [numberMethods, List.mem_cons, List.mem_cons, List.mem_cons] at hmethod
    rcases hmethod with rfl | rfl | rfl | hmethod
    · exact absurd hattr (by decide)
    · exact absurd hattr (by decide)
    · exact absurd hattr (by decide)
    · split at hmethod
      · rename_i hn
        exact ⟨List.mem_singleton.1 hmethod, hn⟩
      · cases hmethod
  obtain ⟨i, hi⟩ := Option.isSome_iff_exists.1 hlength.2
  rw [numberMethod, hi, hlength.1]
  split
  · exact onlyNumber_ok _
  · exact onlyNumber_error _

/-- A method that `_is_numeric` takes for one that answers with a number does. -/
theorem onlyNumber_callMethod {self : Value F} {attr : Str} (hattr : attr ∈ numericAttributes)
    (hmethod : hasMethod rt attr self = true) (args : List (Value F)) :
    OnlyNumber (callMethod fl rt self attr args) := by
  cases self with
  | str s =>
    rw [callMethod]
    cases hm : TextMethod.named false attr with
    | none => exact onlyNumber_error _
    | some m => exact onlyNumber_textMethod (TextMethod.name_of_named hm ▸ hattr) _ _ _
  | bytes s =>
    rw [callMethod]
    cases hm : TextMethod.named true attr with
    | none => exact onlyNumber_error _
    | some m => exact onlyNumber_textMethod (TextMethod.name_of_named hm ▸ hattr) _ _ _
  | list vs => exact onlyNumber_map _ _
  | tuple vs => exact onlyNumber_map _ _
  | num n => exact onlyNumber_numberMethod hattr (of_decide_eq_true hmethod) args
  | other type =>
    rw [callMethod]
    cases hr : rt.objects.call type attr args with
    | error e => exact onlyNumber_error _
    | ok r =>
      obtain ⟨n, rfl⟩ := rt.objects.call_numeric type attr args r hattr hr
      exact onlyNumber_ok n
  | _ => exact onlyNumber_error _

/-- An attribute is a number, or a method that the value has. -/
theorem readAttribute_cases {v f : Value F} {attr : Str} (h : readAttribute fl rt v attr = .ok f) :
    (∃ n, f = .num n) ∨ (f = .method v attr ∧ hasMethod rt attr v = true) := by
  unfold readAttribute at h
  dsimp only at h
  split at h
  · cases h
    exact .inl ⟨_, rfl⟩
  · split at h
    · rename_i hmethod
      cases h
      exact .inr ⟨rfl, hmethod⟩
    · cases h

theorem onlyNumber_attributeCall {v f : Value F} {attr : Str} (hattr : attr ∈ numericAttributes)
    (h : readAttribute fl rt v attr = .ok f) (args : List (Value F)) :
    OnlyNumber (applyCall fl (others fl rt) f args) := by
  rcases readAttribute_cases h with ⟨n, rfl⟩ | ⟨rfl, hmethod⟩
  · rw [applyCall_of_not_function rfl]
    exact onlyNumber_error _
  · rw [applyCall_method]
    exact onlyNumber_callMethod hattr hmethod args

theorem name_of_mem {id : Str} (h : id ∈ numericFunctions) : ∃ f : NumericFunction, f.name = id := by
  have hall : ∀ name ∈ numericFunctions,
      ∃ f ∈ [NumericFunction.abs, .bool, .float, .int, .len, .round, .pow, .acos, .asin, .atan, .atan2,
        .ceil, .cos, .degrees, .floor, .hypot, .log, .radians, .sin, .sqrt, .tan], f.name = name := by
    decide
  obtain ⟨f, -, hf⟩ := hall id h
  exact ⟨f, hf⟩

theorem find_numericFunction (fl : Floats F) (f : NumericFunction) :
    (scope fl).find? (·.1 == f.name) = some (f.name, .builtin (.numeric f)) := by
  cases f <;> rfl

/-- A name of `NUMERIC_FUNCTIONS` is such a function, or else a parameter, which is none. -/
theorem lookup_numericFunction (hdata : NoFunctions values) {id : Str} (h : id ∈ numericFunctions)
    {f : Value F} (hf : lookup fl values id = .ok f) :
    (∃ g, f = .builtin (.numeric g)) ∨ f.isFunction = false := by
  rw [lookup] at hf
  cases hv : values.get? id with
  | some v =>
    rw [hv] at hf
    cases hf
    exact .inr (hdata id _ hv)
  | none =>
    obtain ⟨g, rfl⟩ := name_of_mem h
    rw [hv, find_numericFunction] at hf
    cases hf
    exact .inl ⟨g, rfl⟩

/-! ### Comparisons -/

theorem onlyNumber_compare (op : CmpOperator) (v w : Value F) :
    OnlyNumber ((others fl rt).compare op v w) :=
  onlyNumber_map _ _

theorem onlyNumber_compareThen (op : CmpOperator) (v w : Value F) {rest : Except Str (Value F)}
    (h : OnlyNumber rest) :
    OnlyNumber ((others fl rt).compare op v w >>= fun r =>
      if (others fl rt).truth r then rest else .ok r) := by
  refine onlyNumber_bind fun r hr => ?_
  split
  · exact h
  · obtain ⟨n, rfl⟩ := onlyNumber_compare op v w r hr
    exact onlyNumber_ok n

theorem onlyNumber_evalCompare : ∀ (v : Value F) (ops : List CmpOperator) (nodes : List (Ast F)),
    OnlyNumber (evalCompare fl (others fl rt) values v ops nodes)
  | v, [], nodes => by
    rw [evalCompare]
    · exact onlyNumber_error _
    · simp
    · simp
  | v, op :: ops, [] => by
    rw [evalCompare]
    · exact onlyNumber_error _
    · simp
    · simp
  | v, [op], [node] => by
    rw [evalCompare]
    exact onlyNumber_bind fun w _ => onlyNumber_compare op v w
  | v, [op], node :: second :: rest => by
    rw [evalCompare]
    · exact onlyNumber_bind fun w _ => onlyNumber_compareThen op v w (onlyNumber_evalCompare w [] _)
    · simp
  | v, op :: op' :: ops, node :: rest => by
    rw [evalCompare]
    · exact onlyNumber_bind fun w _ => onlyNumber_compareThen op v w (onlyNumber_evalCompare w _ rest)
    · simp

/-! ## What is taken for a number -/

theorem ok_of_bind {α β : Type} {r : Except Str α} {f : α → Except Str β} {b : β} (h : r >>= f = .ok b) :
    ∃ a, r = .ok a ∧ f a = .ok b := by
  cases r with
  | error e => cases h
  | ok a => exact ⟨a, rfl, h⟩

/-- **What is taken for a number is one**, or a method that has not been called. -/
theorem number_or_method (hdata : NoFunctions values) : ∀ (node : Ast F) (v : Value F),
    isNumeric Value.isNumber values node = true → eval fl (others fl rt) values node = .ok v →
      v.isNumberOrMethod = true
  | .constant c, v, hnum, hv => by
    cases c with
    | num n =>
      rw [eval] at hv
      cases hv
      rfl
    | _ => cases hnum
  | .name id, v, hnum, hv => by
    rw [isNumeric] at hnum
    rw [eval, lookup] at hv
    cases hget : values.get? id with
    | none =>
      rw [hget] at hnum
      cases hnum
    | some w =>
      rw [hget] at hnum hv
      cases hv
      cases v with
      | num n => rfl
      | _ => cases hnum
  | .unaryOp op operand, v, hnum, hv => by
    rw [isNumeric] at hnum
    rw [eval] at hv
    obtain ⟨w, hw, happly⟩ := ok_of_bind hv
    have hnumber := number_or_method hdata operand w hnum hw
    exact isNumberOrMethod_num (onlyNumber_applyUnary op hnumber v happly)
  | .binOp left op right, v, hnum, hv => by
    rw [isNumeric, Bool.and_eq_true] at hnum
    rw [eval] at hv
    obtain ⟨w, hw, hv⟩ := ok_of_bind hv
    obtain ⟨u, hu, happly⟩ := ok_of_bind hv
    have hleft := number_or_method hdata left w hnum.1 hw
    have hright := number_or_method hdata right u hnum.2 hu
    exact isNumberOrMethod_num (onlyNumber_applyBinary op hleft hright v happly)
  | .ifExp test body orelse, v, hnum, hv => by
    rw [isNumeric, Bool.and_eq_true] at hnum
    rw [eval] at hv
    obtain ⟨w, -, hv⟩ := ok_of_bind hv
    split at hv
    · exact number_or_method hdata body v hnum.1 hv
    · exact number_or_method hdata orelse v hnum.2 hv
  | .compare left ops comparators, v, hnum, hv => by
    rw [eval] at hv
    obtain ⟨w, -, hv⟩ := ok_of_bind hv
    exact isNumberOrMethod_num (onlyNumber_evalCompare w ops comparators v hv)
  | .call func args keywords, v, hnum, hv => by
    rw [eval] at hv
    obtain ⟨f, hf, hv⟩ := ok_of_bind hv
    obtain ⟨vs, -, happly⟩ := ok_of_bind hv
    refine isNumberOrMethod_num ?_
    cases func with
    | name id =>
      rw [isNumeric, decide_eq_true_eq] at hnum
      rw [eval] at hf
      rcases lookup_numericFunction hdata hnum hf with ⟨g, rfl⟩ | hfunction
      · exact onlyNumber_numeric g vs v happly
      · rw [applyCall_of_not_function hfunction] at happly
        cases happly
    | «attribute» value attr =>
      rw [isNumeric, decide_eq_true_eq] at hnum
      rw [eval] at hf
      obtain ⟨self, -, hself⟩ := ok_of_bind hf
      exact onlyNumber_attributeCall hnum hself vs v happly
    | _ => cases hnum
  | .attribute value attr, v, hnum, hv => by
    rw [eval] at hv
    obtain ⟨self, -, hself⟩ := ok_of_bind hv
    rcases readAttribute_cases hself with ⟨n, rfl⟩ | ⟨rfl, -⟩
    · rfl
    · rfl
  | .boolOp op operands, v, hnum, hv => by cases hnum
  | .keyword arg value, v, hnum, hv => by cases hnum
  | .starred value, v, hnum, hv => by cases hnum
  | .subscript value key, v, hnum, hv => by cases hnum
  | .slice lower upper step, v, hnum, hv => by cases hnum
  | .tuple elts, v, hnum, hv => by cases hnum
  | .list elts, v, hnum, hv => by cases hnum
  | .operator op, v, hnum, hv => by cases hnum
  | .unaryOperator op, v, hnum, hv => by cases hnum
  | .boolOperator op, v, hnum, hv => by cases hnum
  | .cmpOperator op, v, hnum, hv => by cases hnum
  | .node type nodes, v, hnum, hv => by cases hnum

/-! ## What an accepted expression executes -/

/-- The operators that are on the list, and products of numbers: a product with a method that has not been
called is refused.  What is called by its name is a function in scope; an attribute that is read, or a method
that is called, is one of `SAFE_ATTRIBUTES`. -/
def Operation.Allowed (fl : Floats F) (rt : Runtime F) : Operation F → Prop
  | .binary op v w =>
    op ∈ [Operator.add, .sub, .mult, .div, .floorDiv, .mod] ∧
      (op = .mult →
        (∃ a b, v = .num a ∧ w = .num b) ∨ (Operation.binary op v w).run fl rt = typeError)
  | .call (.method self attr) _ => attr ∈ safeAttributes ∧ hasMethod rt attr self = true
  | .readAttribute _ attr => attr ∈ safeAttributes
  | _ => True

theorem applyBinary_method {v w : Value F} (hv : v.isNumberOrMethod = true)
    (hw : w.isNumberOrMethod = true) :
    (∃ a b, v = .num a ∧ w = .num b) ∨ applyBinary fl (others fl rt) .mult v w = typeError := by
  have hindex : ∀ (a : Number F) (self : Value F) (attr : Str),
      (asIndex (.num a) >>= repeatValue (.method self attr)) = (typeError : Except Str (Value F)) := by
    intro a self attr
    rw [asIndex]
    cases a.asInt <;> rfl
  cases v with
  | num a =>
    cases w with
    | num b => exact .inl ⟨a, b, rfl, rfl⟩
    | method self attr => exact .inr (hindex a self attr)
    | _ => cases hw
  | method self attr =>
    cases w with
    | num b => exact .inr (hindex b self attr)
    | method self' attr' => exact .inr rfl
    | _ => cases hw
  | _ => cases hv

/-- What lets a node through. -/
theorem checkNode_cases {V : Type} {isNumber : V → Bool} {values : Dict Str V} {node : Ast F}
    (h : checkNode isNumber values node = .ok ()) :
    unsafeProduct isNumber values node = false ∧ disallowed node = none ∧ unsafeAttribute node = none ∧
      callsValue node = false ∧ callsWithMore node = false := by
  rw [checkNode] at h
  split at h
  · cases h
  · rename_i hproduct
    split at h
    · cases h
    · rename_i hnode
      split at h
      · cases h
      · rename_i hattribute
        split at h
        · cases h
        · rename_i hcall
          split at h
          · cases h
          · rename_i hmore
            exact ⟨eq_false_of_ne_true hproduct, hnode, hattribute, eq_false_of_ne_true hcall,
              eq_false_of_ne_true hmore⟩

theorem safe_of_accepted {V : Type} {isNumber : V → Bool} {values : Dict Str V} {value : Ast F} {attr : Str}
    (h : Accepted isNumber values (.attribute value attr)) : attr ∈ safeAttributes := by
  obtain ⟨-, -, hsafe, -, -⟩ := checkNode_cases (accepted_iff.1 h).1
  by_contra hattr
  rw [unsafeAttribute, if_neg hattr] at hsafe
  cases hsafe

theorem operator_of_accepted {V : Type} {isNumber : V → Bool} {values : Dict Str V} {left right : Ast F}
    {op : Operator} (h : Accepted isNumber values (.binOp left op right)) :
    op ∈ [Operator.add, .sub, .mult, .div, .floorDiv, .mod] := by
  have hoperator := (accepted_iff.1 h).2 (.operator op) (by simp [Ast.children])
  obtain ⟨-, hallowed, -⟩ := checkNode_cases (accepted_iff.1 hoperator).1
  cases op with
  | add | sub | mult | div | floorDiv | mod => decide
  | _ => cases hallowed

def Value.isMethod : Value F → Bool
  | .method _ _ => true
  | _ => false

theorem scope_noMethod {entry : Str × Value F} (h : entry ∈ scope fl) : entry.2.isMethod = false := by
  have hall : (scope fl).all (fun entry => !entry.2.isMethod) = true := rfl
  simpa using List.all_eq_true.1 hall entry h

theorem accepted_of_mem {V : Type} {isNumber : V → Bool} {values : Dict Str V} {tree node : Ast F}
    (h : Accepted isNumber values tree) (hnode : node ∈ walk tree) : Accepted isNumber values node := by
  intro x hx
  have htree := (BreadthFirst.mem_walk Ast.size sizes_children).1 hnode
  have hbelow := (BreadthFirst.mem_walk Ast.size sizes_children).1 hx
  exact h x ((BreadthFirst.mem_walk Ast.size sizes_children).2 (htree.trans hbelow))

/-- The factors of a product are taken for numbers. -/
theorem factors_of_accepted {V : Type} {isNumber : V → Bool} {values : Dict Str V} {left right : Ast F}
    (h : Accepted isNumber values (.binOp left .mult right)) :
    isNumeric isNumber values left = true ∧ isNumeric isNumber values right = true := by
  obtain ⟨hproduct, -⟩ := checkNode_cases (accepted_iff.1 h).1
  rw [unsafeProduct, Bool.not_eq_false', Bool.and_eq_true] at hproduct
  exact hproduct

/-- A method that is called was read off its value. -/
theorem method_of_callee (hdata : NoFunctions values) {func : Ast F} {args keywords : List (Ast F)}
    {v : Value F} {attr : Str} (haccepted : Accepted Value.isNumber values (.call func args keywords))
    (hf : eval fl (others fl rt) values func = .ok (.method v attr)) :
    attr ∈ safeAttributes ∧ hasMethod rt attr v = true := by
  have hfunc := (accepted_iff.1 haccepted).2 func (by simp [Ast.children])
  obtain ⟨-, -, -, hcall, -⟩ := checkNode_cases (accepted_iff.1 haccepted).1
  cases func with
  | name id =>
    exfalso
    rw [eval, lookup] at hf
    cases hv : values.get? id with
    | some w =>
      rw [hv] at hf
      cases hf
      exact Bool.noConfusion (hdata id _ hv)
    | none =>
      rw [hv] at hf
      cases hfind : (scope fl).find? (·.1 == id) with
      | none =>
        rw [hfind] at hf
        cases hf
      | some entry =>
        rw [hfind] at hf
        obtain ⟨name, w⟩ := entry
        cases hf
        exact Bool.noConfusion (scope_noMethod (List.mem_of_find?_eq_some hfind))
  | «attribute» value attr' =>
    rw [eval] at hf
    obtain ⟨w, -, hread⟩ := ok_of_bind hf
    rcases readAttribute_cases hread with ⟨n, hn⟩ | ⟨hm, hmethod⟩
    · cases hn
    · cases hm
      exact ⟨safe_of_accepted hfunc, hmethod⟩
  | _ => cases hcall

/-- **What an accepted expression executes**, whatever its parameters are. -/
theorem executed_allowed (hdata : NoFunctions values) {tree : Ast F} {expression : Str}
    (hcheck : check Value.isNumber values tree expression = .ok ()) {o : Operation F}
    (ho : o ∈ operations fl rt values tree) : o.Allowed fl rt := by
  obtain ⟨node, hnode, hexecutes⟩ := executes_of_mem ho
  have haccepted := accepted_of_mem (check_eq_ok_iff.1 hcheck) hnode
  cases hexecutes with
  | unary hv => trivial
  | binary hv hw =>
    refine ⟨operator_of_accepted haccepted, ?_⟩
    rintro rfl
    obtain ⟨hleft, hright⟩ := factors_of_accepted haccepted
    exact applyBinary_method (number_or_method hdata _ _ hleft hv) (number_or_method hdata _ _ hright hw)
  | compare hop => trivial
  | @call func args keywords f vs hf hvs =>
    cases f with
    | method self attr => exact method_of_callee hdata haccepted hf
    | _ => trivial
  | readAttribute hv => exact safe_of_accepted haccepted
  | subscript hv hk => trivial

end

/-! ## An example -/

/-- Texts of ASCII, and numbers that are integers. -/
def asciiRuntime : Runtime ℝ where
  characters := ascii
  floatText _ := []
  readInt _ _ := valueError
  readFloat _ := valueError
  integerRatio _ := valueError
  isInteger _ := false
  decode s _ := .ok s
  length_decode s _ r h := by
    cases h
    omega
  format _ _ _ := typeError
  compare _ _ _ := typeError
  describe _ := []
  objects :=
    { truth := fun _ => true
      unary := fun _ _ => typeError
      binary := fun _ _ _ => typeError
      numeric := fun _ _ => typeError
      readNumber := fun _ _ => none
      hasMethod := fun _ _ => false
      call := fun _ _ _ => typeError
      call_numeric := by
        intro type attr args r _ h
        cases h }

/-- `(size + '-').ljust(3 * 2)`, for a parameter that is a text. -/
def paddedSize : Ast ℝ :=
  .call
    (.attribute (.binOp (.name "size".toList) .add (.constant (.str "-".toList))) "ljust".toList)
    [.binOp (.constant (.num (.int 3))) .mult (.constant (.num (.int 2)))] []

def sizeM4 : Dict Str (Value ℝ) := Dict.empty.set "size".toList (.str "M4".toList)

theorem noFunctions_sizeM4 : NoFunctions sizeM4 := by
  intro id v h
  rw [sizeM4, Dict.get?_set, Dict.get?_empty] at h
  split at h
  · cases h
    rfl
  · cases h

/-- What is executed: the method is read and called, and its width is the product. -/
theorem operations_paddedSize :
    operations exact asciiRuntime sizeM4 paddedSize =
      [.binary .add (.str "M4".toList) (.str "-".toList), .readAttribute (.str "M4-".toList) "ljust".toList,
        .binary .mult (.num (.int 3)) (.num (.int 2)),
        .call (.method (.str "M4-".toList) "ljust".toList) [.num (.int 6)]] :=
  rfl

theorem check_paddedSize : check Value.isNumber sizeM4 paddedSize [] = .ok () := rfl

/-- The product is one of numbers, and `ljust` is a method that a text has. -/
theorem executed_allowed_paddedSize :
    (Operation.binary .mult (.num (.int 3)) (.num (.int 2)) : Operation ℝ).Allowed exact asciiRuntime ∧
      (Operation.call (.method (.str "M4-".toList) "ljust".toList) [.num (.int 6)] :
        Operation ℝ).Allowed exact asciiRuntime := by
  have hmem : ∀ o ∈ [(.binary .mult (.num (.int 3)) (.num (.int 2)) : Operation ℝ),
      .call (.method (.str "M4-".toList) "ljust".toList) [.num (.int 6)]],
      o ∈ operations exact asciiRuntime sizeM4 paddedSize := by
    rw [operations_paddedSize]
    simp
  constructor
  · exact executed_allowed noFunctions_sizeM4 check_paddedSize (hmem _ List.mem_cons_self)
  · exact executed_allowed noFunctions_sizeM4 check_paddedSize
      (hmem _ (List.mem_cons_of_mem _ List.mem_cons_self))

end PartCAD.Expr
