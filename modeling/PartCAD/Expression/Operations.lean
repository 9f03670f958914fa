import PartCAD.Expression.Sizes

/-!
# The operations of an expression

* `operations` : what is executed while an expression is evaluated;
* `Executes`, `executes_of_mem` : it is what the nodes of the tree stand for, with what their operands are
  evaluated to.
-/

namespace PartCAD.Expr

open PartCAD.Lib

variable {F : Type}

/-! ## What is executed -/

/-- An operator, a call, or the reading of an attribute or of an item, with the values that it is about. -/
inductive Operation (F : Type)
  | unary (op : UnaryOperator) (v : Value F)
  | binary (op : Operator) (v w : Value F)
  | compare (op : CmpOperator) (v w : Value F)
  | call (func : Value F) (args : List (Value F))
  | readAttribute (v : Value F) (attr : Str)
  | subscript (v key : Value F)

/-- What is executed behind a value, when there is one. -/
def behind {α β : Type} (r : Except Str α) (f : α → List β) : List β :=
  match r with
  | .ok a => f a
  | .error _ => []

theorem mem_behind {α β : Type} {r : Except Str α} {f : α → List β} {b : β} :
    b ∈ behind r f ↔ ∃ a, r = .ok a ∧ b ∈ f a := by
  cases r with
  | error e => simp [behind]
  | ok a => simp [behind]

section

variable (fl : Floats F) (rt : Runtime F)

namespace Operation

/-- What it is about: the value whose method is called is one of them. -/
def operands : Operation F → List (Value F)
  | .unary _ v => [v]
  | .binary _ v w => [v, w]
  | .compare _ v w => [v, w]
  | .call (.method self _) args => self :: args
  | .call _ args => args
  | .readAttribute v _ => [v]
  | .subscript v key => [v, key]

/-- What it gives. -/
def run : Operation F → Except Str (Value F)
  | .unary op v => applyUnary fl (others fl rt) op v
  | .binary op v w => applyBinary fl (others fl rt) op v w
  | .compare op v w => (others fl rt).compare op v w
  | .call func args => applyCall fl (others fl rt) func args
  | .readAttribute v attr => (others fl rt).readAttribute v attr
  | .subscript v key => (others fl rt).subscript v key

/-- The lengths of the texts and lists that it is about, and the digits of the numbers. -/
def size (op : Operation F) : ℕ := (op.operands.map (Expr.size rt)).sum

end Operation

variable (values : Dict Str (Value F))

mutual

/-- What is executed while a tree is evaluated, the one that fails included. -/
def operations : Ast F → List (Operation F)
  | .unaryOp op operand =>
    operations operand ++ behind (eval fl (others fl rt) values operand) fun v => [.unary op v]
  | .binOp left op right =>
    operations left ++ behind (eval fl (others fl rt) values left) fun v =>
      operations right ++ behind (eval fl (others fl rt) values right) fun w => [.binary op v w]
  | .boolOp op operands => operationsBool op operands
  | .ifExp test body orelse =>
    operations test ++ behind (eval fl (others fl rt) values test) fun v =>
      if truth fl rt v then operations body else operations orelse
  | .compare left ops comparators =>
    operations left ++ behind (eval fl (others fl rt) values left) fun v =>
      operationsCompare v ops comparators
  | .call func args _ =>
    operations func ++ behind (eval fl (others fl rt) values func) fun f =>
      operationsAll args ++ behind (evalAll fl (others fl rt) values args) fun vs => [.call f vs]
  | .attribute value attr =>
    operations value ++ behind (eval fl (others fl rt) values value) fun v => [.readAttribute v attr]
  | .subscript value key =>
    operations value ++ behind (eval fl (others fl rt) values value) fun v =>
      operations key ++ behind (eval fl (others fl rt) values key) fun k => [.subscript v k]
  | .slice lower upper step =>
    operationsIf lower ++ behind (evalIf fl (others fl rt) values lower) fun _ =>
      operationsIf upper ++ behind (evalIf fl (others fl rt) values upper) fun _ => operationsIf step
  | .tuple elts => operationsAll elts
  | .list elts => operationsAll elts
  | _ => []

def operationsAll : List (Ast F) → List (Operation F)
  | [] => []
  | node :: rest =>
    operations node ++ behind (eval fl (others fl rt) values node) fun _ => operationsAll rest

def operationsBool (op : BoolOperator) : List (Ast F) → List (Operation F)
  | [] => []
  | [node] => operations node
  | node :: rest =>
    operations node ++ behind (eval fl (others fl rt) values node) fun v =>
      if truth fl rt v = (op == .and) then operationsBool op rest else []

def operationsCompare (v : Value F) : List CmpOperator → List (Ast F) → List (Operation F)
  | op :: ops, node :: rest =>
    operations node ++ behind (eval fl (others fl rt) values node) fun w =>
      .compare op v w :: behind ((others fl rt).compare op v w) fun r =>
        if truth fl rt r then operationsCompare w ops rest else []
  | _, _ => []

def operationsIf : Option (Ast F) → List (Operation F)
  | none => []
  | some node => operations node

end

end

/-! ## The nodes that it comes from -/

section

variable {fl : Floats F} {rt : Runtime F} {values : Dict Str (Value F)}

/-- What is executed at a node. -/
inductive Executes (fl : Floats F) (rt : Runtime F) (values : Dict Str (Value F)) :
    Ast F → Operation F → Prop
  | unary {op : UnaryOperator} {operand : Ast F} {v : Value F}
      (hv : eval fl (others fl rt) values operand = .ok v) :
      Executes fl rt values (.unaryOp op operand) (.unary op v)
  | binary {left right : Ast F} {op : Operator} {v w : Value F}
      (hv : eval fl (others fl rt) values left = .ok v)
      (hw : eval fl (others fl rt) values right = .ok w) :
      Executes fl rt values (.binOp left op right) (.binary op v w)
  | compare {left : Ast F} {ops : List CmpOperator} {comparators : List (Ast F)} {op : CmpOperator}
      {v w : Value F} (hop : op ∈ ops) :
      Executes fl rt values (.compare left ops comparators) (.compare op v w)
  | call {func : Ast F} {args keywords : List (Ast F)} {f : Value F} {vs : List (Value F)}
      (hf : eval fl (others fl rt) values func = .ok f)
      (hvs : evalAll fl (others fl rt) values args = .ok vs) :
      Executes fl rt values (.call func args keywords) (.call f vs)
  | readAttribute {value : Ast F} {attr : Str} {v : Value F}
      (hv : eval fl (others fl rt) values value = .ok v) :
      Executes fl rt values (.attribute value attr) (.readAttribute v attr)
  | subscript {value key : Ast F} {v k : Value F}
      (hv : eval fl (others fl rt) values value = .ok v)
      (hk : eval fl (others fl rt) values key = .ok k) :
      Executes fl rt values (.subscript value key) (.subscript v k)

/-- Some node under one of these executes it. -/
def ExecutesUnder (fl : Floats F) (rt : Runtime F) (values : Dict Str (Value F)) (nodes : List (Ast F))
    (o : Operation F) : Prop :=
  ∃ node ∈ nodes, ∃ x, BreadthFirst.Under Ast.children x node ∧ Executes fl rt values x o

theorem ExecutesUnder.mono {nodes more : List (Ast F)} {o : Operation F}
    (h : ExecutesUnder fl rt values nodes o) (hsub : ∀ node ∈ nodes, node ∈ more) :
    ExecutesUnder fl rt values more o := by
  obtain ⟨node, hnode, x, hx, ho⟩ := h
  exact ⟨node, hsub node hnode, x, hx, ho⟩

/-- A node under a child of the tree is one under the tree. -/
theorem ExecutesUnder.up {tree : Ast F} {nodes : List (Ast F)} {o : Operation F}
    (h : ExecutesUnder fl rt values nodes o) (hsub : ∀ node ∈ nodes, node ∈ tree.children) :
    ExecutesUnder fl rt values [tree] o := by
  obtain ⟨node, hnode, x, hx, ho⟩ := h
  exact ⟨tree, List.mem_singleton_self tree, x,
    BreadthFirst.under_iff.2 (.inr ⟨node, hsub node hnode, hx⟩), ho⟩

theorem Executes.here {tree : Ast F} {o : Operation F} (h : Executes fl rt values tree o) :
    ExecutesUnder fl rt values [tree] o :=
  ⟨tree, List.mem_singleton_self tree, tree, .refl, h⟩

mutual

theorem executesUnder_of_mem {o : Operation F} : ∀ tree : Ast F,
    o ∈ operations fl rt values tree → ExecutesUnder fl rt values [tree] o
  | .unaryOp op operand, h => by
    rw [operations, List.mem_append, mem_behind] at h
    rcases h with h | ⟨v, hv, ho⟩
    · exact (executesUnder_of_mem operand h).up (by simp [Ast.children])
    · cases List.mem_singleton.1 ho
      exact (Executes.unary hv).here
  | .binOp left op right, h => by
    rw [operations, List.mem_append, mem_behind] at h
    rcases h with h | ⟨v, hv, h⟩
    · exact (executesUnder_of_mem left h).up (by simp [Ast.children])
    · rw [List.mem_append, mem_behind] at h
      rcases h with h | ⟨w, hw, ho⟩
      · exact (executesUnder_of_mem right h).up (by simp [Ast.children])
      · cases List.mem_singleton.1 ho
        exact (Executes.binary hv hw).here
  | .boolOp op operands, h => by
    rw [operations] at h
    exact (executesUnder_of_memBool op operands h).up (by simp +contextual [Ast.children])
  | .ifExp test body orelse, h => by
    rw [operations, List.mem_append, mem_behind] at h
    rcases h with h | ⟨v, -, h⟩
    · exact (executesUnder_of_mem test h).up (by simp [Ast.children])
    · split at h
      · exact (executesUnder_of_mem body h).up (by simp [Ast.children])
      · exact (executesUnder_of_mem orelse h).up (by simp [Ast.children])
  | .compare left ops comparators, h => by
    rw [operations, List.mem_append, mem_behind] at h
    rcases h with h | ⟨v, -, h⟩
    · exact (executesUnder_of_mem left h).up (by simp [Ast.children])
    · rcases executesUnder_of_memCompare v ops comparators h with h | ⟨op, hop, v, w, rfl⟩
      · exact h.up (by simp +contextual [Ast.children])
      · exact (Executes.compare hop).here
  | .call func args keywords, h => by
    rw [operations, List.mem_append, mem_behind] at h
    rcases h with h | ⟨f, hf, h⟩
    · exact (executesUnder_of_mem func h).up (by simp [Ast.children])
    · rw [List.mem_append, mem_behind] at h
      rcases h with h | ⟨vs, hvs, ho⟩
      · exact (executesUnder_of_memAll args h).up (by simp +contextual [Ast.children])
      · cases List.mem_singleton.1 ho
        exact (Executes.call hf hvs).here
  | .attribute value attr, h => by
    rw [operations, List.mem_append, mem_behind] at h
    rcases h with h | ⟨v, hv, ho⟩
    · exact (executesUnder_of_mem value h).up (by simp [Ast.children])
    · cases List.mem_singleton.1 ho
      exact (Executes.readAttribute hv).here
  | .subscript value key, h => by
    rw [operations, List.mem_append, mem_behind] at h
    rcases h with h | ⟨v, hv, h⟩
    · exact (executesUnder_of_mem value h).up (by simp [Ast.children])
    · rw [List.mem_append, mem_behind] at h
      rcases h with h | ⟨k, hk, ho⟩
      · exact (executesUnder_of_mem key h).up (by simp [Ast.children])
      · cases List.mem_singleton.1 ho
        exact (Executes.subscript hv hk).here
  | .slice lower upper step, h => by
    rw [operations, List.mem_append, mem_behind] at h
    rcases h with h | ⟨-, -, h⟩
    · exact (executesUnder_of_memIf lower h).up (by simp +contextual [Ast.children])
    · rw [List.mem_append, mem_behind] at h
      rcases h with h | ⟨-, -, h⟩
      · exact (executesUnder_of_memIf upper h).up (by simp +contextual [Ast.children])
      · exact (executesUnder_of_memIf step h).up (by simp +contextual [Ast.children])
  | .tuple elts, h => by
    rw [operations] at h
    exact (executesUnder_of_memAll elts h).up (by simp [Ast.children])
  | .list elts, h => by
    rw [operations] at h
    exact (executesUnder_of_memAll elts h).up (by simp [Ast.children])
  | .constant value, h => by simp [operations] at h
  | .name id, h => by simp [operations] at h
  | .keyword arg value, h => by simp [operations] at h
  | .starred value, h => by simp [operations] at h
  | .operator op, h => by simp [operations] at h
  | .unaryOperator op, h => by simp [operations] at h
  | .boolOperator op, h => by simp [operations] at h
  | .cmpOperator op, h => by simp [operations] at h
  | .node type nodes, h => by simp [operations] at h

theorem executesUnder_of_memAll {o : Operation F} : ∀ nodes : List (Ast F),
    o ∈ operationsAll fl rt values nodes → ExecutesUnder fl rt values nodes o
  | [], h => by simp [operationsAll] at h
  | node :: rest, h => by
    rw [operationsAll, List.mem_append, mem_behind] at h
    rcases h with h | ⟨-, -, h⟩
    · exact (executesUnder_of_mem node h).mono (by simp)
    · exact (executesUnder_of_memAll rest h).mono fun _ => List.mem_cons_of_mem node

theorem executesUnder_of_memBool {o : Operation F} (op : BoolOperator) : ∀ nodes : List (Ast F),
    o ∈ operationsBool fl rt values op nodes → ExecutesUnder fl rt values nodes o
  | [], h => by simp [operationsBool] at h
  | [node], h => by
    rw [operationsBool] at h
    exact executesUnder_of_mem node h
  | node :: second :: rest, h => by
    rw [operationsBool, List.mem_append, mem_behind] at h
    · rcases h with h | ⟨v, -, h⟩
      · exact (executesUnder_of_mem node h).mono (by simp)
      · split at h
        · exact (executesUnder_of_memBool op (second :: rest) h).mono fun _ => List.mem_cons_of_mem node
        · cases h
    · simp

theorem executesUnder_of_memCompare {o : Operation F} (v : Value F) :
    ∀ (ops : List CmpOperator) (nodes : List (Ast F)),
      o ∈ operationsCompare fl rt values v ops nodes →
        ExecutesUnder fl rt values nodes o ∨ ∃ op ∈ ops, ∃ v w, o = .compare op v w
  | op :: ops, node :: rest, h => by
    rw [operationsCompare, List.mem_append, mem_behind] at h
    rcases h with h | ⟨w, -, h⟩
    · exact .inl ((executesUnder_of_mem node h).mono (by simp))
    · rw [List.mem_cons, mem_behind] at h
      rcases h with rfl | ⟨r, -, h⟩
      · exact .inr ⟨op, List.mem_cons_self, v, w, rfl⟩
      · split at h
        · rcases executesUnder_of_memCompare w ops rest h with h | ⟨op', hop, hv⟩
          · exact .inl (h.mono fun _ => List.mem_cons_of_mem node)
          · exact .inr ⟨op', List.mem_cons_of_mem op hop, hv⟩
        · cases h
  | [], nodes, h => by simp [operationsCompare] at h
  | op :: ops, [], h => by simp [operationsCompare] at h

theorem executesUnder_of_memIf {o : Operation F} : ∀ node : Option (Ast F),
    o ∈ operationsIf fl rt values node → ExecutesUnder fl rt values node.toList o
  | none, h => by simp [operationsIf] at h
  | some node, h => by
    rw [operationsIf] at h
    exact executesUnder_of_mem node h

end

/-- **What is executed** is what a node of the tree stands for. -/
theorem executes_of_mem {tree : Ast F} {o : Operation F} (h : o ∈ operations fl rt values tree) :
    ∃ node ∈ walk tree, Executes fl rt values node o := by
  obtain ⟨node, hnode, x, hx, ho⟩ := executesUnder_of_mem tree h
  cases List.mem_singleton.1 hnode
  exact ⟨x, (BreadthFirst.mem_walk Ast.size sizes_children).2 hx, ho⟩

end

end PartCAD.Expr
