import PartCAD.Expression.Evaluate
import PartCAD.Expression.Texts

/-!
# What Python does in an expression

Besides the arithmetic of numbers: what the functions in scope, the attributes that may be read and the
operators do with texts, bytes, lists, tuples and dictionaries.

* `Runtime` : what is left open (the character tables, how floats read, comparisons, formatting, objects
  of other types);
* `TextMethod`, `textMethod` : the methods of texts and bytes;
* `others` : all of it, for the interpreter.
-/

namespace PartCAD.Expr

open PartCAD.Lib PartCAD.Lib.Substrings

variable {F : Type}

/-! ## What is left open -/

/-- Objects of other types, such as complex numbers.  What one does answers with a number or with another
such object, and an attribute that is taken for a number is one. -/
structure Objects (F : Type) where
  truth : Str → Bool
  unary : UnaryOperator → Str → Except Str (Number F ⊕ Str)
  binary : Operator → Value F → Value F → Except Str (Number F ⊕ Str)
  numeric : NumericFunction → Str → Except Str (Number F)
  readNumber : Str → Str → Option (Number F)
  hasMethod : Str → Str → Bool
  call : Str → Str → List (Value F) → Except Str (Number F ⊕ Str)
  call_numeric : ∀ type attr args r, attr ∈ numericAttributes → call type attr args = .ok r →
    ∃ n, r = .inl n

/-- What Python does that is no matter of lists.  Bytes that are decoded have at most four characters
each, when errors are written out. -/
structure Runtime (F : Type) where
  characters : Characters
  floatText : F → Str
  readInt : Str → Option ℤ → Except Str ℤ
  readFloat : Str → Except Str F
  integerRatio : F → Except Str (ℤ × ℤ)
  isInteger : F → Bool
  decode : Str → List Str → Except Str Str
  length_decode : ∀ s codec r, decode s codec = .ok r → r.length ≤ 4 * s.length
  format : Bool → Str → Value F → Except Str Str
  compare : CmpOperator → Value F → Value F → Except Str Bool
  describe : Value F → Str
  objects : Objects F

def typeError {α : Type} : Except Str α := .error "TypeError".toList

def valueError {α : Type} : Except Str α := .error "ValueError".toList

section

variable (rt : Runtime F)

/-! ## Values as texts -/

/-- `str(n)` -/
def numberText : Number F → Str
  | .int n => intText n
  | .bool true => "True".toList
  | .bool false => "False".toList
  | .float x => rt.floatText x

/-- `repr` of bytes. -/
def bytesRepr (s : Str) : Str := bytesText (s.map fun c => UInt8.ofNat c.toNat)

mutual

/-- `repr(v)` -/
def repr : Value F → Str
  | .none => "None".toList
  | .num n => numberText rt n
  | .str s => quoteText rt.characters.isPrintable s
  | .bytes s => bytesRepr s
  | .list vs => '[' :: List.intercalate ", ".toList (reprs vs) ++ [']']
  | .tuple [v] => '(' :: repr v ++ ",)".toList
  | .tuple vs => '(' :: List.intercalate ", ".toList (reprs vs) ++ [')']
  | .dict items => '{' :: List.intercalate ", ".toList (reprItems items) ++ ['}']
  | v => rt.describe v

def reprs : List (Value F) → List Str
  | [] => []
  | v :: vs => repr v :: reprs vs

def reprItems : List (Value F × Value F) → List Str
  | [] => []
  | (k, v) :: items => (repr k ++ ": ".toList ++ repr v) :: reprItems items

end

/-- `str(v)` -/
def strOf : Value F → Str
  | .str s => s
  | v => repr rt v

/-! ## Values as arguments -/

/-- A text or bytes. -/
def ofText (isBytes : Bool) (s : Str) : Value F := if isBytes then .bytes s else .str s

/-- A text for a text, and bytes for bytes. -/
def asText (isBytes : Bool) : Value F → Except Str Str
  | .str s => if isBytes then typeError else .ok s
  | .bytes s => if isBytes then .ok s else typeError
  | _ => typeError

/-- A number for an index. -/
def asIndex : Value F → Except Str ℤ
  | .num n => match n.asInt with
    | some i => .ok i
    | none => typeError
  | _ => typeError

/-- What is looked for in a text; in bytes, it may be the number of one. -/
def asSub (isBytes : Bool) (v : Value F) : Except Str Str :=
  match isBytes, v with
  | true, .num n =>
    asIndex (.num n) >>= fun i => if 0 ≤ i ∧ i < 256 then .ok [Char.ofNat i.toNat] else valueError
  | isBytes, v => asText isBytes v

/-- What a value has to go through: a text has its characters, bytes their numbers, and a dictionary its
keys. -/
def iterate : Value F → Except Str (List (Value F))
  | .str s => .ok (s.map fun c => .str [c])
  | .bytes s => .ok (s.map fun c => .num (.int c.toNat))
  | .list vs => .ok vs
  | .tuple vs => .ok vs
  | .dict items => .ok (items.map Prod.fst)
  | _ => typeError

/-- One argument after the other. -/
def mapAll {α β : Type} (f : α → Except Str β) : List α → Except Str (List β)
  | [] => .ok []
  | a :: rest => f a >>= fun b => mapAll f rest >>= fun bs => .ok (b :: bs)

/-- No arguments. -/
def plain {α : Type} (args : List (Value F)) (answer : α) : Except Str α :=
  if args.isEmpty then .ok answer else typeError

/-- The ends of the part that is looked at: `None` stands for the end of the text. -/
def boundsOf (s : Str) (args : List (Value F)) : Except Str (ℤ × ℤ) :=
  let bound (missing : ℤ) : Value F → Except Str ℤ
    | .none => .ok missing
    | v => asIndex v
  match args with
  | [] => .ok (0, s.length)
  | [start] => bound 0 start >>= fun i => .ok (i, s.length)
  | [start, stop] => bound 0 start >>= fun i => bound s.length stop >>= fun j => .ok (i, j)
  | _ => typeError

/-- What is looked for, and the part of the text where it is. -/
def locate (isBytes : Bool) (s : Str) : List (Value F) → Except Str (Str × Option (ℕ × Str))
  | sub :: bounds =>
    asSub isBytes sub >>= fun sub => boundsOf s bounds >>= fun (i, j) => .ok (sub, window s i j)
  | [] => typeError

/-- What is looked for is one of several, at an end of the part of the text. -/
def locateEnd (isBytes : Bool) (s : Str) (atEnd : Str → Str → Bool) (args : List (Value F)) :
    Except Str Bool :=
  match args with
  | [] => typeError
  | ends :: bounds =>
    let subs := match ends with
      | .tuple vs => mapAll (asText isBytes) vs
      | v => mapAll (asText isBytes) [v]
    subs >>= fun subs => boundsOf s bounds >>= fun (i, j) =>
      .ok (subs.any fun sub => (window s i j).any fun part => atEnd sub part.2)

/-- How many times, at most; a negative number is no limit. -/
def limitOf (n : ℤ) : Option ℕ := if n < 0 then none else some n.toNat

/-- A separator, which is not empty, or `None`. -/
def separatorOf (isBytes : Bool) : Value F → Except Str (Option Str)
  | .none => .ok none
  | v => asText isBytes v >>= fun sep => if sep = [] then valueError else .ok (some sep)

def splitArgs (isBytes : Bool) : List (Value F) → Except Str (Option Str × Option ℕ)
  | [] => .ok (none, none)
  | [sep] => separatorOf isBytes sep >>= fun sep => .ok (sep, none)
  | [sep, n] => separatorOf isBytes sep >>= fun sep => asIndex n >>= fun n => .ok (sep, limitOf n)
  | _ => typeError

def stripArgs (isBytes : Bool) : List (Value F) → Except Str (Option Str)
  | [] => .ok none
  | [.none] => .ok none
  | [chars] => (asText isBytes chars).map some
  | _ => typeError

def replaceArgs (isBytes : Bool) : List (Value F) → Except Str (Str × Str × Option ℕ)
  | [old, new] => asText isBytes old >>= fun old => asText isBytes new >>= fun new => .ok (old, new, none)
  | [old, new, n] =>
    asText isBytes old >>= fun old => asText isBytes new >>= fun new => asIndex n >>= fun n =>
      .ok (old, new, limitOf n)
  | _ => typeError

def padArgs (isBytes : Bool) : List (Value F) → Except Str (ℤ × Char)
  | [width] => asIndex width >>= fun w => .ok (w, ' ')
  | [width, fill] =>
    asIndex width >>= fun w => asText isBytes fill >>= fun fill =>
      match fill with
      | [c] => .ok (w, c)
      | _ => typeError
  | _ => typeError

/-- The argument of a method that takes one text. -/
def oneText (isBytes : Bool) : List (Value F) → Except Str Str
  | [v] => asText isBytes v
  | _ => typeError

/-- The separator to part a text at. -/
def partitionArgs (isBytes : Bool) (args : List (Value F)) : Except Str Str :=
  oneText isBytes args >>= fun sep => if sep = [] then valueError else .ok sep

end

/-! ## The methods of texts and of bytes -/

/-- The methods in `SAFE_ATTRIBUTES` that a text has. -/
inductive TextMethod
  | capitalize
  | casefold
  | center
  | count
  | endswith
  | find
  | index
  | isalnum
  | isalpha
  | isascii
  | isdecimal
  | isdigit
  | islower
  | isnumeric
  | isspace
  | istitle
  | isupper
  | join
  | ljust
  | lower
  | lstrip
  | partition
  | removePrefix
  | removeSuffix
  | replace
  | rfind
  | rindex
  | rjust
  | rpartition
  | rsplit
  | rstrip
  | split
  | splitlines
  | startswith
  | strip
  | swapcase
  | title
  | upper
  | zfill
  deriving DecidableEq, Repr

namespace TextMethod

def name : TextMethod → Str
  | .capitalize => "capitalize".toList
  | .casefold => "casefold".toList
  | .center => "center".toList
  | .count => "count".toList
  | .endswith => "endswith".toList
  | .find => "find".toList
  | .index => "index".toList
  | .isalnum => "isalnum".toList
  | .isalpha => "isalpha".toList
  | .isascii => "isascii".toList
  | .isdecimal => "isdecimal".toList
  | .isdigit => "isdigit".toList
  | .islower => "islower".toList
  | .isnumeric => "isnumeric".toList
  | .isspace => "isspace".toList
  | .istitle => "istitle".toList
  | .isupper => "isupper".toList
  | .join => "join".toList
  | .ljust => "ljust".toList
  | .lower => "lower".toList
  | .lstrip => "lstrip".toList
  | .partition => "partition".toList
  | .removePrefix => "removeprefix".toList
  | .removeSuffix => "removesuffix".toList
  | .replace => "replace".toList
  | .rfind => "rfind".toList
  | .rindex => "rindex".toList
  | .rjust => "rjust".toList
  | .rpartition => "rpartition".toList
  | .rsplit => "rsplit".toList
  | .rstrip => "rstrip".toList
  | .split => "split".toList
  | .splitlines => "splitlines".toList
  | .startswith => "startswith".toList
  | .strip => "strip".toList
  | .swapcase => "swapcase".toList
  | .title => "title".toList
  | .upper => "upper".toList
  | .zfill => "zfill".toList

def all : List TextMethod :=
  [.capitalize, .casefold, .center, .count, .endswith, .find, .index, .isalnum, .isalpha, .isascii,
    .isdecimal, .isdigit, .islower, .isnumeric, .isspace, .istitle, .isupper, .join, .ljust, .lower,
    .lstrip, .partition, .removePrefix, .removeSuffix, .replace, .rfind, .rindex, .rjust, .rpartition,
    .rsplit, .rstrip, .split, .splitlines, .startswith, .strip, .swapcase, .title, .upper, .zfill]

/-- Bytes have no `casefold`, and their digits are those of ASCII. -/
def ofBytes : TextMethod → Bool
  | .casefold | .isdecimal | .isnumeric => false
  | _ => true

/-- The method of a text or of bytes. -/
def named (isBytes : Bool) (attr : Str) : Option TextMethod :=
  all.find? fun m => m.name == attr && (!isBytes || m.ofBytes)

/-- The answer is as long as a number says. -/
def pads : TextMethod → Bool
  | .center | .ljust | .rjust | .zfill => true
  | _ => false

end TextMethod

section

variable (fl : Floats F) (rt : Runtime F)

/-- `bool(v)` -/
def truth : Value F → Bool
  | .none => false
  | .num (.int n) => n ≠ 0
  | .num (.bool b) => b
  | .num (.float x) => !fl.isZero x
  | .str s => s ≠ []
  | .bytes s => s ≠ []
  | .list vs => !vs.isEmpty
  | .tuple vs => !vs.isEmpty
  | .dict items => !items.isEmpty
  | .other type => rt.objects.truth type
  | _ => true

/-- `len(v)` -/
def lenOf : Value F → Except Str ℕ
  | .str s => .ok s.length
  | .bytes s => .ok s.length
  | .list vs => .ok vs.length
  | .tuple vs => .ok vs.length
  | .dict items => .ok items.length
  | _ => typeError

/-! The kinds of answers -/

def intAnswer (r : Except Str ℤ) : Except Str (Value F) := r.map fun n => .num (.int n)

def boolAnswer (r : Except Str Bool) : Except Str (Value F) := r.map fun b => .num (.bool b)

def textAnswer (isBytes : Bool) (r : Except Str Str) : Except Str (Value F) := r.map (ofText isBytes)

def textsAnswer (isBytes : Bool) (r : Except Str (List Str)) : Except Str (Value F) :=
  r.map fun ps => .list (ps.map (ofText isBytes))

def partsAnswer (isBytes : Bool) (r : Except Str (Str × Str × Str)) : Except Str (Value F) :=
  r.map fun (p, q, r) => .tuple [ofText isBytes p, ofText isBytes q, ofText isBytes r]

/-- Where it was found, or -1. -/
def foundOr (found : Str → Str → Option ℕ) (at_ : Str × Option (ℕ × Str)) : ℤ :=
  match at_.2.bind fun (i, part) => (found at_.1 part).map (i + ·) with
  | some i => i
  | none => -1

/-- Where it was found. -/
def foundIn (found : Str → Str → Option ℕ) (at_ : Str × Option (ℕ × Str)) : Except Str ℤ :=
  match at_.2.bind fun (i, part) => (found at_.1 part).map (i + ·) with
  | some i => .ok i
  | none => valueError

/-- A method of a text, or of bytes. -/
def textMethod (m : TextMethod) (isBytes : Bool) (s : Str) (args : List (Value F)) : Except Str (Value F) :=
  let t := if isBytes then ascii else rt.characters
  match m with
  | .capitalize => textAnswer isBytes (plain args (capitalize t s))
  | .casefold => textAnswer isBytes (plain args (casefold t s))
  | .center => textAnswer isBytes ((padArgs isBytes args).map fun (w, fill) => center w fill s)
  | .count => intAnswer ((locate isBytes s args).map fun (sub, at_) => (at_.map (countIn sub ·.2)).getD 0)
  | .endswith => boolAnswer (locateEnd isBytes s (fun sub part => sub.isSuffixOf part) args)
  | .find => intAnswer ((locate isBytes s args).map (foundOr findIn))
  | .index => intAnswer (locate isBytes s args >>= foundIn findIn)
  | .isalnum => boolAnswer (plain args (isalnum t s))
  | .isalpha => boolAnswer (plain args (isalpha t s))
  | .isascii => boolAnswer (plain args (isascii s))
  | .isdecimal => boolAnswer (plain args (isdecimal t s))
  | .isdigit => boolAnswer (plain args (isdigit t s))
  | .islower => boolAnswer (plain args (islower t s))
  | .isnumeric => boolAnswer (plain args (isnumeric t s))
  | .isspace => boolAnswer (plain args (isspace t s))
  | .istitle => boolAnswer (plain args (istitle t s))
  | .isupper => boolAnswer (plain args (isupper t s))
  | .join =>
    textAnswer isBytes <| match args with
      | [v] => iterate v >>= fun vs => (mapAll (asText isBytes) vs).map (joined s)
      | _ => typeError
  | .ljust => textAnswer isBytes ((padArgs isBytes args).map fun (w, fill) => ljust w fill s)
  | .lower => textAnswer isBytes (plain args (lower t s))
  | .lstrip => textAnswer isBytes ((stripArgs isBytes args).map fun chars => lstrip t chars s)
  | .partition => partsAnswer isBytes ((partitionArgs isBytes args).map fun sep => partitionText sep s)
  | .removePrefix => textAnswer isBytes ((oneText isBytes args).map fun first => removePrefix first s)
  | .removeSuffix => textAnswer isBytes ((oneText isBytes args).map fun last => removeSuffix last s)
  | .replace =>
    textAnswer isBytes ((replaceArgs isBytes args).map fun (old, new, limit) => replaceIn old new limit s)
  | .rfind => intAnswer ((locate isBytes s args).map (foundOr rfindIn))
  | .rindex => intAnswer (locate isBytes s args >>= foundIn rfindIn)
  | .rjust => textAnswer isBytes ((padArgs isBytes args).map fun (w, fill) => rjust w fill s)
  | .rpartition => partsAnswer isBytes ((partitionArgs isBytes args).map fun sep => rpartitionText sep s)
  | .rsplit => textsAnswer isBytes ((splitArgs isBytes args).map fun (sep, limit) => rsplitText t sep limit s)
  | .rstrip => textAnswer isBytes ((stripArgs isBytes args).map fun chars => rstrip t chars s)
  | .split => textsAnswer isBytes ((splitArgs isBytes args).map fun (sep, limit) => splitText t sep limit s)
  | .splitlines =>
    textsAnswer isBytes <| match args with
      | [] => .ok (splitlines t false s)
      | [keep] => .ok (splitlines t (truth fl rt keep) s)
      | _ => typeError
  | .startswith => boolAnswer (locateEnd isBytes s (fun sub part => sub.isPrefixOf part) args)
  | .strip => textAnswer isBytes ((stripArgs isBytes args).map fun chars => stripText t chars s)
  | .swapcase => textAnswer isBytes (plain args (swapcase t s))
  | .title => textAnswer isBytes (plain args (title t s))
  | .upper => textAnswer isBytes (plain args (upper t s))
  | .zfill =>
    textAnswer isBytes <| match args with
      | [width] => (asIndex width).map fun w => zfill w s
      | _ => typeError

/-! ## The other methods -/

/-- The items of a list that are the value, by where they stand. -/
def equalTo (v : Value F) (vs : List (Value F)) : Except Str (List Bool) := mapAll (rt.compare .eq v) vs

/-- The ends of the part of a list that is looked at. -/
def listBounds (n : ℕ) (args : List (Value F)) : Except Str (ℕ × ℕ) :=
  mapAll asIndex args >>= fun
    | [] => .ok (0, n)
    | [start] => .ok (place n start, n)
    | [start, stop] => .ok (place n start, place n stop)
    | _ => typeError

/-- `count` and `index` of a list or of a tuple. -/
def sequenceMethod (attr : Str) (vs args : List (Value F)) : Except Str (Value F) :=
  intAnswer <|
    if attr = "count".toList then
      match args with
      | [v] => (equalTo rt v vs).map fun found => found.count true
      | _ => typeError
    else
      match args with
      | v :: bounds =>
        listBounds vs.length bounds >>= fun (first, last) =>
          equalTo rt v ((vs.take last).drop first) >>= fun found =>
            match found.idxOf? true with
            | some k => .ok (first + k : ℕ)
            | none => valueError
      | [] => typeError

/-- The methods that a number has. -/
def numberMethods (n : Number F) : List Str :=
  "as_integer_ratio".toList :: "conjugate".toList :: "is_integer".toList ::
    (if n.asInt.isSome then ["bit_length".toList] else [])

def numberMethod (n : Number F) (attr : Str) (args : List (Value F)) : Except Str (Value F) :=
  if args.isEmpty then
    match n.asInt with
    | some i =>
      if attr = "bit_length".toList then .ok (.num (.int (Nat.size i.natAbs)))
      else if attr = "conjugate".toList then .ok (.num (.int i))
      else if attr = "is_integer".toList then .ok (.num (.bool true))
      else .ok (.tuple [.num (.int i), .num (.int 1)])
    | none =>
      if attr = "conjugate".toList then .ok (.num n)
      else if attr = "is_integer".toList then .ok (.num (.bool (rt.isInteger (n.toFloat fl))))
      else (rt.integerRatio (n.toFloat fl)).map fun (p, q) => .tuple [.num (.int p), .num (.int q)]
  else typeError

/-- A number, or another object. -/
def ofObject (r : Except Str (Number F ⊕ Str)) : Except Str (Value F) :=
  r.map fun
    | .inl n => .num n
    | .inr type => .other type

/-- `self.attr(*args)`, where `self` has such a method. -/
def callMethod (self : Value F) (attr : Str) (args : List (Value F)) : Except Str (Value F) :=
  match self with
  | .str s =>
    match TextMethod.named false attr with
    | some m => textMethod fl rt m false s args
    | none => typeError
  | .bytes s =>
    match TextMethod.named true attr with
    | some m => textMethod fl rt m true s args
    | none => typeError
  | .list vs => sequenceMethod rt attr vs args
  | .tuple vs => sequenceMethod rt attr vs args
  | .num n => numberMethod fl rt n attr args
  | .other type => ofObject (rt.objects.call type attr args)
  | _ => typeError

/-- The numbers that are attributes of a number. -/
def numberAttribute (n : Number F) (attr : Str) : Option (Number F) :=
  match n.asInt with
  | some i =>
    if attr = "real".toList ∨ attr = "numerator".toList then some (.int i)
    else if attr = "imag".toList then some (.int 0)
    else if attr = "denominator".toList then some (.int 1)
    else none
  | none =>
    if attr = "real".toList then some n
    else if attr = "imag".toList then some (.float (fl.ofInt 0))
    else none

/-- What has such a method. -/
def hasMethod (attr : Str) : Value F → Bool
  | .str _ => (TextMethod.named false attr).isSome
  | .bytes _ => (TextMethod.named true attr).isSome
  | .list _ => decide (attr ∈ ["count".toList, "index".toList])
  | .tuple _ => decide (attr ∈ ["count".toList, "index".toList])
  | .num n => decide (attr ∈ numberMethods n)
  | .other type => rt.objects.hasMethod type attr
  | _ => false

/-- `self.attr`, for the attributes in `SAFE_ATTRIBUTES`. -/
def readAttribute (self : Value F) (attr : Str) : Except Str (Value F) :=
  let number := match self with
    | .num n => numberAttribute fl n attr
    | .other type => rt.objects.readNumber type attr
    | _ => none
  match number with
  | some n => .ok (.num n)
  | none => if hasMethod rt attr self then .ok (.method self attr) else .error "AttributeError".toList

/-! ## The functions -/

/-- A function in `NUMERIC_FUNCTIONS`, with arguments that are not all numbers. -/
def callNumeric (f : NumericFunction) (args : List (Value F)) : Except Str (Number F) :=
  match f, args with
  | .len, [v] => (lenOf v).map fun n => .int n
  | .bool, [v] => .ok (.bool (truth fl rt v))
  | .int, [.str s] => (rt.readInt s none).map .int
  | .int, [.bytes s] => (rt.readInt s none).map .int
  | .int, [.str s, base] => asIndex base >>= fun b => (rt.readInt s (some b)).map .int
  | .int, [.bytes s, base] => asIndex base >>= fun b => (rt.readInt s (some b)).map .int
  | .float, [.str s] => (rt.readFloat s).map .float
  | .float, [.bytes s] => (rt.readFloat s).map .float
  | .round, [.num n, .none] => roundNumber fl [n]
  | f, [.other type] => rt.objects.numeric f type
  | _, _ => typeError

/-- `max` or `min`: the first value that no other is better than. -/
def best (op : CmpOperator) : Value F → List (Value F) → Except Str (Value F)
  | v, [] => .ok v
  | v, w :: rest => rt.compare op w v >>= fun better => best op (if better then w else v) rest

def bestOf (op : CmpOperator) (args : List (Value F)) : Except Str (Value F) :=
  match args with
  | [] => typeError
  | [v] =>
    iterate v >>= fun
      | [] => valueError
      | first :: rest => best rt op first rest
  | first :: rest => best rt op first rest

/-- `str` of bytes in some encoding, or of any value. -/
def callStr (args : List (Value F)) : Except Str Str :=
  match args with
  | [] => .ok []
  | [v] => .ok (strOf rt v)
  | .bytes s :: codec =>
    if codec.length ≤ 2 then mapAll (asText false) codec >>= rt.decode s else typeError
  | _ => typeError

def call (func : Value F) (args : List (Value F)) : Except Str (Value F) :=
  match func with
  | .builtin (.numeric f) => (callNumeric fl rt f args).map .num
  | .builtin .max => bestOf rt .gt args
  | .builtin .min => bestOf rt .lt args
  | .builtin .str => (callStr rt args).map .str
  | .method self attr => callMethod fl rt self attr args
  | _ => typeError

/-! ## Operators and subscripts -/

/-- So many copies. -/
def repeated {α : Type} (s : List α) (n : ℤ) : List α := (List.replicate n.toNat s).flatten

/-- A text, bytes, a list or a tuple, over and over. -/
def repeatValue (v : Value F) (n : ℤ) : Except Str (Value F) :=
  match v with
  | .str s => .ok (.str (repeated s n))
  | .bytes s => .ok (.bytes (repeated s n))
  | .list vs => .ok (.list (repeated vs n))
  | .tuple vs => .ok (.tuple (repeated vs n))
  | _ => typeError

/-- An object of another type is asked what to do. -/
def binaryOther (op : Operator) (v w : Value F) : Except Str (Value F) :=
  match v, w with
  | .other _, _ => ofObject (rt.objects.binary op v w)
  | _, .other _ => ofObject (rt.objects.binary op v w)
  | _, _ => typeError

/-- An operator on values that are not both numbers. -/
def binary (op : Operator) (v w : Value F) : Except Str (Value F) :=
  match op, v, w with
  | .add, .str s, .str s' => .ok (.str (s ++ s'))
  | .add, .bytes s, .bytes s' => .ok (.bytes (s ++ s'))
  | .add, .list vs, .list ws => .ok (.list (vs ++ ws))
  | .add, .tuple vs, .tuple ws => .ok (.tuple (vs ++ ws))
  | .mod, .str s, w => (rt.format false s w).map .str
  | .mod, .bytes s, w => (rt.format true s w).map .bytes
  | .mult, .num n, .other type => binaryOther rt .mult (.num n) (.other type)
  | .mult, .other type, .num n => binaryOther rt .mult (.other type) (.num n)
  | .mult, .num n, w => asIndex (.num n) >>= repeatValue w
  | .mult, v, .num n => asIndex (.num n) >>= repeatValue v
  | op, v, w => binaryOther rt op v w

def unary (op : UnaryOperator) (v : Value F) : Except Str (Value F) :=
  match op, v with
  | .invert, .num n => (asIndex (.num n)).map fun i => .num (.int (-i - 1))
  | op, .other type => ofObject (rt.objects.unary op type)
  | _, _ => typeError

/-- The items between two places. -/
def sliceOf {α : Type} (lower upper step : Value F) (s : List α) : Except Str (List α) :=
  let bound (missing least most : ℤ) : Value F → Except Str ℤ
    | .none => .ok missing
    | v => (asIndex v).map fun i => max least (min (if i < 0 then i + s.length else i) most)
  let stepOf : Value F → Except Str ℤ
    | .none => .ok 1
    | v => asIndex v
  stepOf step >>= fun k =>
    if k = 0 then valueError
    else if 0 < k then
      bound 0 0 s.length lower >>= fun i => bound s.length 0 s.length upper >>= fun j =>
        .ok (slice i j k s)
    else
      bound (s.length - 1) (-1) (s.length - 1) lower >>= fun i =>
        bound (-1) (-1) (s.length - 1) upper >>= fun j => .ok (slice i j k s)

/-- The item at an index. -/
def itemOf {α : Type} (i : ℤ) (s : List α) : Except Str α :=
  let i := if i < 0 then i + s.length else i
  if i < 0 then .error "IndexError".toList
  else
    match s[i.toNat]? with
    | some a => .ok a
    | none => .error "IndexError".toList

/-- The value of a key. -/
def lookupKey (key : Value F) : List (Value F × Value F) → Except Str (Value F)
  | [] => .error "KeyError".toList
  | (k, v) :: items => rt.compare .eq k key >>= fun same => if same then .ok v else lookupKey key items

/-- `v[key]` -/
def subscript (v key : Value F) : Except Str (Value F) :=
  match v, key with
  | .str s, .slice l u k => (sliceOf l u k s).map .str
  | .bytes s, .slice l u k => (sliceOf l u k s).map .bytes
  | .list vs, .slice l u k => (sliceOf l u k vs).map .list
  | .tuple vs, .slice l u k => (sliceOf l u k vs).map .tuple
  | .str s, key => asIndex key >>= fun i => (itemOf i s).map fun c => .str [c]
  | .bytes s, key => asIndex key >>= fun i => (itemOf i s).map fun c => .num (.int c.toNat)
  | .list vs, key => asIndex key >>= fun i => itemOf i vs
  | .tuple vs, key => asIndex key >>= fun i => itemOf i vs
  | .dict items, key => lookupKey rt key items
  | _, _ => typeError

/-- All of it, for the interpreter. -/
def others : Others F where
  truth := truth fl rt
  unary := unary rt
  binary := binary rt
  compare op v w := (rt.compare op v w).map fun b => .num (.bool b)
  call := call fl rt
  readAttribute := readAttribute fl rt
  subscript := subscript rt

end

end PartCAD.Expr
