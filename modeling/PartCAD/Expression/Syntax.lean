import PartCAD.Lib.BreadthFirst
import PartCAD.Lib.Dict

/-!
# What an expression may be made of

An expression is parsed, and its syntax tree is checked before anything in it is evaluated.

* `Ast`, `children` : the syntax tree;
* `isNumeric` : which operands are certainly numbers;
* `checkNode`, `check` : the nodes, one after the other;
* `check_eq_ok_iff` : an expression is accepted when every node of it is.
-/

namespace PartCAD.Expr

open PartCAD.Lib

/-! ## The syntax tree -/

inductive Operator
  | add
  | sub
  | mult
  | div
  | floorDiv
  | mod
  | pow
  | lShift
  | rShift
  | bitOr
  | bitXor
  | bitAnd
  | matMult
  deriving DecidableEq, Repr

inductive UnaryOperator
  | invert
  | not
  | uAdd
  | uSub
  deriving DecidableEq, Repr

inductive BoolOperator
  | and
  | or
  deriving DecidableEq, Repr

inductive CmpOperator
  | eq
  | notEq
  | lt
  | ltE
  | gt
  | gtE
  | is
  | isNot
  | mem
  | notMem
  deriving DecidableEq, Repr

/-- A number of Python: `True` and `False` are integers. -/
inductive Number (F : Type)
  | int (n : ℤ)
  | bool (b : Bool)
  | float (x : F)
  deriving DecidableEq, Repr

/-- A literal.  A byte is the character with its number; complex numbers and `...` are known by their type
only. -/
inductive Constant (F : Type)
  | none
  | num (n : Number F)
  | str (s : Str)
  | bytes (s : Str)
  | other (type : Str)
  deriving DecidableEq, Repr

/-- The nodes of `ast`.  Operators are nodes of their own, and every other kind of node (a lambda, a
comprehension, a dictionary, ...) is known by the name of its class and its children. -/
inductive Ast (F : Type)
  | constant (value : Constant F)
  | name (id : Str)
  | unaryOp (op : UnaryOperator) (operand : Ast F)
  | binOp (left : Ast F) (op : Operator) (right : Ast F)
  | boolOp (op : BoolOperator) (values : List (Ast F))
  | ifExp (test body orelse : Ast F)
  | compare (left : Ast F) (ops : List CmpOperator) (comparators : List (Ast F))
  | call (func : Ast F) (args keywords : List (Ast F))
  | keyword (arg : Option Str) (value : Ast F)
  | starred (value : Ast F)
  | attribute (value : Ast F) (attr : Str)
  | subscript (value slice : Ast F)
  | slice (lower upper step : Option (Ast F))
  | tuple (elts : List (Ast F))
  | list (elts : List (Ast F))
  | operator (op : Operator)
  | unaryOperator (op : UnaryOperator)
  | boolOperator (op : BoolOperator)
  | cmpOperator (op : CmpOperator)
  | node (type : Str) (nodes : List (Ast F))

variable {F : Type}

namespace Ast

/-- `ast.iter_child_nodes` -/
def children : Ast F → List (Ast F)
  | .constant _ => []
  | .name _ => []
  | .unaryOp op operand => [.unaryOperator op, operand]
  | .binOp left op right => [left, .operator op, right]
  | .boolOp op values => .boolOperator op :: values
  | .ifExp test body orelse => [test, body, orelse]
  | .compare left ops comparators => left :: ops.map .cmpOperator ++ comparators
  | .call func args keywords => func :: args ++ keywords
  | .keyword _ value => [value]
  | .starred value => [value]
  | .attribute value _ => [value]
  | .subscript value key => [value, key]
  | .slice lower upper step => lower.toList ++ upper.toList ++ step.toList
  | .tuple elts => elts
  | .list elts => elts
  | .operator _ => []
  | .unaryOperator _ => []
  | .boolOperator _ => []
  | .cmpOperator _ => []
  | .node _ nodes => nodes

mutual

/-- The number of nodes. -/
def size : Ast F → ℕ
  | .constant _ => 1
  | .name _ => 1
  | .unaryOp _ operand => 2 + size operand
  | .binOp left _ right => 2 + size left + size right
  | .boolOp _ values => 2 + sizes values
  | .ifExp test body orelse => 1 + size test + size body + size orelse
  | .compare left ops comparators => 1 + size left + ops.length + sizes comparators
  | .call func args keywords => 1 + size func + sizes args + sizes keywords
  | .keyword _ value => 1 + size value
  | .starred value => 1 + size value
  | .attribute value _ => 1 + size value
  | .subscript value key => 1 + size value + size key
  | .slice lower upper step => 1 + sizeIf lower + sizeIf upper + sizeIf step
  | .tuple elts => 1 + sizes elts
  | .list elts => 1 + sizes elts
  | .operator _ => 1
  | .unaryOperator _ => 1
  | .boolOperator _ => 1
  | .cmpOperator _ => 1
  | .node _ nodes => 1 + sizes nodes

def sizes : List (Ast F) → ℕ
  | [] => 0
  | first :: rest => size first + sizes rest

def sizeIf : Option (Ast F) → ℕ
  | none => 0
  | some first => size first

end

/-- `type(node).__name__` of an operator. -/
def operatorType : Operator → Str
  | .add => "Add".toList
  | .sub => "Sub".toList
  | .mult => "Mult".toList
  | .div => "Div".toList
  | .floorDiv => "FloorDiv".toList
  | .mod => "Mod".toList
  | .pow => "Pow".toList
  | .lShift => "LShift".toList
  | .rShift => "RShift".toList
  | .bitOr => "BitOr".toList
  | .bitXor => "BitXor".toList
  | .bitAnd => "BitAnd".toList
  | .matMult => "MatMult".toList

end Ast

/-! ## The lists -/

/-- `SAFE_ATTRIBUTES` -/
def safeAttributes : List Str :=
  ["capitalize".toList, "casefold".toList, "center".toList, "count".toList, "endswith".toList,
    "find".toList, "index".toList, "isalnum".toList, "isalpha".toList, "isascii".toList,
    "isdecimal".toList, "isdigit".toList, "islower".toList, "isnumeric".toList, "isspace".toList,
    "istitle".toList, "isupper".toList, "join".toList, "ljust".toList, "lower".toList,
    "lstrip".toList, "partition".toList, "removeprefix".toList, "removesuffix".toList,
    "replace".toList, "rfind".toList, "rindex".toList, "rjust".toList, "rpartition".toList,
    "rsplit".toList, "rstrip".toList, "split".toList, "splitlines".toList, "startswith".toList,
    "strip".toList, "swapcase".toList, "title".toList, "upper".toList, "zfill".toList,
    "as_integer_ratio".toList, "bit_length".toList, "conjugate".toList, "denominator".toList,
    "imag".toList, "is_integer".toList, "numerator".toList, "real".toList]

/-- `NUMERIC_FUNCTIONS` -/
def numericFunctions : List Str :=
  ["abs".toList, "bool".toList, "float".toList, "int".toList, "len".toList, "round".toList,
    "pow".toList, "acos".toList, "asin".toList, "atan".toList, "atan2".toList, "ceil".toList,
    "cos".toList, "degrees".toList, "floor".toList, "hypot".toList, "log".toList,
    "radians".toList, "sin".toList, "sqrt".toList, "tan".toList]

/-- `NUMERIC_ATTRIBUTES` -/
def numericAttributes : List Str :=
  ["bit_length".toList, "count".toList, "denominator".toList, "find".toList, "imag".toList,
    "index".toList, "numerator".toList, "real".toList, "rfind".toList, "rindex".toList]

/-! ## The check -/

/-- Why an expression could not be evaluated: it does not parse or is not allowed, with the message, or
what evaluating it has raised. -/
inductive Cause
  | syntaxError (message : Str)
  | raised (exception : Str)
  deriving DecidableEq, Repr

/-- `ExpressionError` -/
structure ExpressionError where
  expression : Str
  cause : Cause
  deriving DecidableEq, Repr

section

variable {V : Type} (isNumber : V → Bool) (values : Dict Str V)

/-- `_is_numeric`, where `isNumber` is `isinstance(value, (int, float))`. -/
def isNumeric : Ast F → Bool
  | .constant (.num _) => true
  | .name id =>
    match values.get? id with
    | some v => isNumber v
    | none => false
  | .unaryOp _ operand => isNumeric operand
  | .binOp left _ right => isNumeric left && isNumeric right
  | .ifExp _ body orelse => isNumeric body && isNumeric orelse
  | .compare _ _ _ => true
  | .call (.name id) _ _ => decide (id ∈ numericFunctions)
  | .call (.attribute _ attr) _ _ => decide (attr ∈ numericAttributes)
  | .attribute _ attr => decide (attr ∈ numericAttributes)
  | _ => false

/-- `isinstance(node, _ALLOWED_NODES)`: the name of the class otherwise. -/
def disallowed : Ast F → Option Str
  | .operator .pow => some (Ast.operatorType .pow)
  | .operator .lShift => some (Ast.operatorType .lShift)
  | .operator .rShift => some (Ast.operatorType .rShift)
  | .operator .bitOr => some (Ast.operatorType .bitOr)
  | .operator .bitXor => some (Ast.operatorType .bitXor)
  | .operator .bitAnd => some (Ast.operatorType .bitAnd)
  | .operator .matMult => some (Ast.operatorType .matMult)
  | .keyword _ _ => some "keyword".toList
  | .starred _ => some "Starred".toList
  | .node type _ => some type
  | _ => none

/-- A product of what is not certainly a number. -/
def unsafeProduct : Ast F → Bool
  | .binOp left .mult right => !(isNumeric isNumber values left && isNumeric isNumber values right)
  | _ => false

/-- What is called is neither a name nor an attribute. -/
def callsValue : Ast F → Bool
  | .call (.name _) _ _ => false
  | .call (.attribute _ _) _ _ => false
  | .call _ _ _ => true
  | _ => false

def isStarred : Ast F → Bool
  | .starred _ => true
  | _ => false

/-- A call with keywords or with starred arguments. -/
def callsWithMore : Ast F → Bool
  | .call _ args keywords => !keywords.isEmpty || args.any isStarred
  | _ => false

/-- The attribute that may not be read. -/
def unsafeAttribute : Ast F → Option Str
  | .attribute _ attr => if attr ∈ safeAttributes then none else some attr
  | _ => none

/-- One turn of the loop of `_check`. -/
def checkNode (node : Ast F) : Except Str Unit :=
  if unsafeProduct isNumber values node then
    .error "only numbers may be multiplied, and this is not certainly a number".toList
  else
    match disallowed node with
    | some type => .error (type ++ " is not allowed in an expression".toList)
    | none =>
      match unsafeAttribute node with
      | some attr => .error ("'".toList ++ attr ++ "' is not one of the attributes an expression may read".toList)
      | none =>
        if callsValue node then
          .error "only the built-in functions and the methods of a value may be called".toList
        else if callsWithMore node then .error "an expression calls with plain arguments only".toList
        else .ok ()

/-- The loop of `_check`. -/
def checkAll : List (Ast F) → Except Str Unit
  | [] => .ok ()
  | node :: rest => checkNode isNumber values node >>= fun _ => checkAll rest

/-- `ast.walk` -/
def walk (tree : Ast F) : List (Ast F) := BreadthFirst.walk Ast.children Ast.size tree

/-- `_check` -/
def check (tree : Ast F) (expression : Str) : Except ExpressionError Unit :=
  match checkAll isNumber values (walk tree) with
  | .ok () => .ok ()
  | .error message => .error ⟨expression, .syntaxError message⟩

end

/-! ## Every node is checked -/

theorem sizes_eq (nodes : List (Ast F)) : Ast.sizes nodes = BreadthFirst.total Ast.size nodes := by
  induction nodes with
  | nil => rfl
  | cons node rest ih =>
    rw [Ast.sizes, ih, BreadthFirst.total, BreadthFirst.total, List.map_cons, List.sum_cons]

theorem sizeIf_eq (node : Option (Ast F)) : Ast.sizeIf node = Ast.sizes node.toList := by
  cases node with
  | none => rfl
  | some node =>
    show _ = Ast.size node + 0
    rfl

theorem sizes_append (s t : List (Ast F)) : Ast.sizes (s ++ t) = Ast.sizes s + Ast.sizes t := by
  rw [sizes_eq, sizes_eq, sizes_eq, BreadthFirst.total_append]

theorem sizes_cmpOperators (ops : List CmpOperator) :
    Ast.sizes (ops.map (Ast.cmpOperator (F := F))) = ops.length := by
  induction ops with
  | nil => rfl
  | cons op ops ih =>
    rw [List.map_cons, Ast.sizes, ih, Ast.size, List.length_cons]
    omega

theorem sizes_children (tree : Ast F) :
    BreadthFirst.total Ast.size tree.children < tree.size := by
  rw [← sizes_eq]
  cases tree with
  | compare left ops comparators =>
    simp only [Ast.children, Ast.size, List.cons_append, Ast.sizes, sizes_append, sizes_cmpOperators]
    omega
  | slice lower upper step =>
    simp only [Ast.children, Ast.size, sizes_append, sizeIf_eq]
    omega
  | _ =>
    simp only [Ast.children, Ast.size, List.cons_append, Ast.sizes, sizes_append]
    omega

section

variable {V : Type} {isNumber : V → Bool} {values : Dict Str V}

theorem checkAll_eq_ok_iff {nodes : List (Ast F)} :
    checkAll isNumber values nodes = .ok () ↔ ∀ node ∈ nodes, checkNode isNumber values node = .ok () := by
  induction nodes with
  | nil => simp [checkAll]
  | cons node rest ih =>
    rw [checkAll, List.forall_mem_cons]
    cases hnode : checkNode isNumber values node with
    | error message =>
      constructor
      · intro h
        cases h
      · rintro ⟨h, -⟩
        cases h
    | ok u =>
      rw [← ih]
      exact (and_iff_right rfl).symm

/-- Every node of the tree is let through. -/
def Accepted (isNumber : V → Bool) (values : Dict Str V) (tree : Ast F) : Prop :=
  ∀ node ∈ walk tree, checkNode isNumber values node = .ok ()

/-- **An expression is accepted** when every node of it is. -/
theorem check_eq_ok_iff {tree : Ast F} {expression : Str} :
    check isNumber values tree expression = .ok () ↔ Accepted isNumber values tree := by
  rw [Accepted, ← checkAll_eq_ok_iff, check]
  cases h : checkAll isNumber values (walk tree) with
  | error message =>
    constructor
    · intro h
      cases h
    · intro h
      cases h
  | ok u => exact iff_of_true rfl rfl

theorem accepted_iff {tree : Ast F} :
    Accepted isNumber values tree ↔
      checkNode isNumber values tree = .ok () ∧
        ∀ c ∈ tree.children, Accepted isNumber values c :=
  BreadthFirst.forall_walk Ast.size sizes_children

end

end PartCAD.Expr
