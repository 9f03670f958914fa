import PartCAD.Expression.Numbers
import PartCAD.Lib.Repr

/-!
# How an expression is evaluated

* `Value`, `Others` : the values, and what Python does with those that are no numbers;
* `eval` : the interpreter, on the syntax trees that the check lets through;
* `evaluate` : the value of one `%...%`.
-/

namespace PartCAD.Expr

open PartCAD.Lib

/-! ## Values -/

/-- The functions in `SAFE_NAMES`. -/
inductive Builtin
  | numeric (f : NumericFunction)
  | max
  | min
  | str
  deriving DecidableEq, Repr

/-- A value of Python.  A byte is the character with its number, and an object of another type is known by
that. -/
inductive Value (F : Type)
  | none
  | num (n : Number F)
  | str (s : Str)
  | bytes (s : Str)
  | list (items : List (Value F))
  | tuple (items : List (Value F))
  | dict (items : List (Value F × Value F))
  | slice (lower upper step : Value F)
  | builtin (f : Builtin)
  | method (self : Value F) (attr : Str)
  | other (type : Str)

variable {F : Type}

/-- `isinstance(value, (int, float))` -/
def Value.isNumber : Value F → Bool
  | .num _ => true
  | _ => false

/-- What Python does apart from the arithmetic of numbers: a value, or the name of an exception. -/
structure Others (F : Type) where
  truth : Value F → Bool
  unary : UnaryOperator → Value F → Except Str (Value F)
  binary : Operator → Value F → Value F → Except Str (Value F)
  compare : CmpOperator → Value F → Value F → Except Str (Value F)
  call : Value F → List (Value F) → Except Str (Value F)
  readAttribute : Value F → Str → Except Str (Value F)
  subscript : Value F → Value F → Except Str (Value F)

/-- `SAFE_NAMES` -/
def safeNames (fl : Floats F) : List (Str × Value F) :=
  [("abs".toList, .builtin (.numeric .abs)), ("bool".toList, .builtin (.numeric .bool)),
    ("float".toList, .builtin (.numeric .float)), ("int".toList, .builtin (.numeric .int)),
    ("len".toList, .builtin (.numeric .len)), ("max".toList, .builtin .max),
    ("min".toList, .builtin .min), ("round".toList, .builtin (.numeric .round)),
    ("str".toList, .builtin .str), ("acos".toList, .builtin (.numeric .acos)),
    ("asin".toList, .builtin (.numeric .asin)), ("atan".toList, .builtin (.numeric .atan)),
    ("atan2".toList, .builtin (.numeric .atan2)), ("ceil".toList, .builtin (.numeric .ceil)),
    ("cos".toList, .builtin (.numeric .cos)), ("degrees".toList, .builtin (.numeric .degrees)),
    ("floor".toList, .builtin (.numeric .floor)), ("hypot".toList, .builtin (.numeric .hypot)),
    ("log".toList, .builtin (.numeric .log)), ("pow".toList, .builtin (.numeric .pow)),
    ("radians".toList, .builtin (.numeric .radians)), ("sin".toList, .builtin (.numeric .sin)),
    ("sqrt".toList, .builtin (.numeric .sqrt)), ("tan".toList, .builtin (.numeric .tan)),
    ("e".toList, .num (.float (fl.constant .e))), ("pi".toList, .num (.float (fl.constant .pi))),
    ("PI".toList, .num (.float (fl.constant .upperPi))),
    ("M_PI".toList, .num (.float (fl.constant .mPi))),
    ("INCH".toList, .num (.float (fl.constant .inch))),
    ("INCHES".toList, .num (.float (fl.constant .inches))),
    ("FOOT".toList, .num (.float (fl.constant .foot))),
    ("FEET".toList, .num (.float (fl.constant .feet)))]

/-- What is in scope besides the parameters. -/
def scope (fl : Floats F) : List (Str × Value F) :=
  ("__builtins__".toList, .other "dict".toList) :: safeNames fl

/-! ## The interpreter -/

section

variable (fl : Floats F) (others : Others F) (values : Dict Str (Value F))

/-- A name is a parameter, or else a name in scope. -/
def lookup (id : Str) : Except Str (Value F) :=
  match values.get? id with
  | some v => .ok v
  | none =>
    match (scope fl).find? (·.1 == id) with
    | some entry => .ok entry.2
    | none => .error "NameError".toList

def applyUnary (op : UnaryOperator) (v : Value F) : Except Str (Value F) :=
  match op, v with
  | .not, v => .ok (.num (.bool (!others.truth v)))
  | op, .num a =>
    match a.unary fl op with
    | some b => .ok (.num b)
    | none => others.unary op (.num a)
  | op, v => others.unary op v

def applyBinary (op : Operator) (v w : Value F) : Except Str (Value F) :=
  match v, w with
  | .num a, .num b =>
    match Number.binary fl op a b with
    | some c => c.map .num
    | none => others.binary op (.num a) (.num b)
  | v, w => others.binary op v w

/-- The arguments, when all are numbers. -/
def numbers : List (Value F) → Option (List (Number F))
  | [] => some []
  | .num a :: rest => (numbers rest).map (a :: ·)
  | _ :: _ => none

def applyCall (func : Value F) (args : List (Value F)) : Except Str (Value F) :=
  match func, numbers args with
  | .builtin (.numeric f), some ns => (f.apply fl ns).map .num
  | func, _ => others.call func args

mutual

/-- `eval` of a syntax tree; what the check lets through of operators and lists of operators is no tree
of its own. -/
def eval : Ast F → Except Str (Value F)
  | .constant .none => .ok .none
  | .constant (.num n) => .ok (.num n)
  | .constant (.str s) => .ok (.str s)
  | .constant (.bytes s) => .ok (.bytes s)
  | .constant (.other type) => .ok (.other type)
  | .name id => lookup fl values id
  | .unaryOp op operand => eval operand >>= applyUnary fl others op
  | .binOp left op right => eval left >>= fun v => eval right >>= fun w => applyBinary fl others op v w
  | .boolOp op operands => evalBool op operands
  | .ifExp test body orelse => eval test >>= fun v => if others.truth v then eval body else eval orelse
  | .compare left ops comparators => eval left >>= fun v => evalCompare v ops comparators
  | .call func args _ => eval func >>= fun f => evalAll args >>= fun vs => applyCall fl others f vs
  | .attribute value attr => eval value >>= fun v => others.readAttribute v attr
  | .subscript value key => eval value >>= fun v => eval key >>= fun k => others.subscript v k
  | .slice lower upper step =>
    evalIf lower >>= fun l => evalIf upper >>= fun u => evalIf step >>= fun s => .ok (.slice l u s)
  | .tuple elts => evalAll elts >>= fun vs => .ok (.tuple vs)
  | .list elts => evalAll elts >>= fun vs => .ok (.list vs)
  | _ => .error "SyntaxError".toList

/-- The values of arguments or of the items of a list. -/
def evalAll : List (Ast F) → Except Str (List (Value F))
  | [] => .ok []
  | node :: rest => eval node >>= fun v => evalAll rest >>= fun vs => .ok (v :: vs)

/-- The first operand that settles it, or the last. -/
def evalBool (op : BoolOperator) : List (Ast F) → Except Str (Value F)
  | [] => .error "SyntaxError".toList
  | [node] => eval node
  | node :: rest =>
    eval node >>= fun v =>
      if others.truth v = (op == .and) then evalBool op rest else .ok v

/-- A chain of comparisons, up to the first that does not hold. -/
def evalCompare (v : Value F) : List CmpOperator → List (Ast F) → Except Str (Value F)
  | [op], [node] => eval node >>= fun w => others.compare op v w
  | op :: ops, node :: rest =>
    eval node >>= fun w => others.compare op v w >>= fun r =>
      if others.truth r then evalCompare w ops rest else .ok r
  | _, _ => .error "SyntaxError".toList

def evalIf : Option (Ast F) → Except Str (Value F)
  | none => .ok .none
  | some node => eval node

end

/-! ## Expressions as texts -/

variable (parse : Str → Except Str (Ast F))

/-- `_eval` -/
def evalText (expression reported : Str) : Except ExpressionError (Value F) :=
  match parse expression with
  | .error message => .error ⟨reported, .syntaxError message⟩
  | .ok tree =>
    match check Value.isNumber values tree reported with
    | .error e => .error e
    | .ok () =>
      match eval fl others values tree with
      | .error exception => .error ⟨reported, .raised exception⟩
      | .ok v => .ok v

/-- `evaluate` -/
def evaluate (expression : Str) : Except ExpressionError (Value F) :=
  match values.get? (strip expression) with
  | some v => .ok v
  | none =>
    let (head, tail) := Text.partition ':' expression
    match values.get? (strip head), decide (':' ∈ expression) with
    | some v, true => evalText fl others (values.set "value".toList v) parse tail expression
    | _, _ => evalText fl others values parse expression expression

end

end PartCAD.Expr
