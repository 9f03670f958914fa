import Mathlib.Tactic.Common
import PartCAD.Lib.Dict
import PartCAD.Lib.Repr

/-!
# JSON

The text of a value as `json.dumps` writes it, in ASCII or not, and the value of a text as
`json.loads` reads it.

* `exists_dumpsWith` : a value without bytes, in which no dictionary has a key twice, can be
  written, however characters are escaped;
* `loads_dumpsWith` : what was written is read back, when the escapes are;
* `decodeUtf8_encode` : so are the bytes of a string.
-/

namespace PartCAD.Lib.Json

open PartCAD.Lib.Text

/-! ## Writing -/

/-- A character inside quotes; above `0xFFFF` as two surrogates. -/
def escapeChar (c : Char) : Str :=
  let n := c.toNat
  if c = '"' then ['\\', '"']
  else if c = '\\' then ['\\', '\\']
  else if n = 8 then ['\\', 'b']
  else if n = 9 then ['\\', 't']
  else if n = 10 then ['\\', 'n']
  else if n = 12 then ['\\', 'f']
  else if n = 13 then ['\\', 'r']
  else if 32 ≤ n ∧ n ≤ 126 then [c]
  else if n < 65536 then '\\' :: 'u' :: hexText 4 n
  else '\\' :: 'u' :: hexText 4 (55296 + (n - 65536) / 1024) ++
    '\\' :: 'u' :: hexText 4 (56320 + (n - 65536) % 1024)

/-- A string in quotes. -/
def dumpsStr (s : Str) : Str := '"' :: s.flatMap escapeChar ++ ['"']

/-- A character inside quotes, with `ensure_ascii=False`. -/
def escapeRaw (c : Char) : Str :=
  let n := c.toNat
  if c = '"' then ['\\', '"']
  else if c = '\\' then ['\\', '\\']
  else if n = 8 then ['\\', 'b']
  else if n = 9 then ['\\', 't']
  else if n = 10 then ['\\', 'n']
  else if n = 12 then ['\\', 'f']
  else if n = 13 then ['\\', 'r']
  else if n < 32 then '\\' :: 'u' :: hexText 4 n
  else [c]

/-- A string in quotes, with its characters escaped. -/
def quoted (escape : Char → Str) (s : Str) : Str := '"' :: s.flatMap escape ++ ['"']

section

variable {F : Type} [PyFloat F]

mutual

/-- `json.dumps(v)`; `none` where it raises, on bytes. -/
def dumps : Value F → Option Str
  | .none => some "null".toList
  | .bool true => some "true".toList
  | .bool false => some "false".toList
  | .int n => some (intText n)
  | .float x => some (PyFloat.repr x)
  | .str s => some (dumpsStr s)
  | .bytes _ => none
  | .list vs => (dumpsList vs).map fun ts => '[' :: List.intercalate ", ".toList ts ++ [']']
  | .dict items => (dumpsItems items).map fun ts => '{' :: List.intercalate ", ".toList ts ++ ['}']

@[grind =]
def dumpsList : List (Value F) → Option (List Str)
  | [] => some []
  | v :: vs => (dumps v).bind fun t => (dumpsList vs).map (t :: ·)

@[grind =]
def dumpsItems : List (Str × Value F) → Option (List Str)
  | [] => some []
  | (key, v) :: items =>
    (dumps v).bind fun t => (dumpsItems items).map ((dumpsStr key ++ ": ".toList ++ t) :: ·)

end

mutual

/-- `json.dumps(v)` with any way to escape characters. -/
def dumpsWith (escape : Char → Str) : Value F → Option Str
  | .none => some "null".toList
  | .bool true => some "true".toList
  | .bool false => some "false".toList
  | .int n => some (intText n)
  | .float x => some (PyFloat.repr x)
  | .str s => some (quoted escape s)
  | .bytes _ => none
  | .list vs =>
    (dumpsWithList escape vs).map fun ts => '[' :: List.intercalate ", ".toList ts ++ [']']
  | .dict items =>
    (dumpsWithItems escape items).map fun ts => '{' :: List.intercalate ", ".toList ts ++ ['}']

@[grind =]
def dumpsWithList (escape : Char → Str) : List (Value F) → Option (List Str)
  | [] => some []
  | v :: vs => (dumpsWith escape v).bind fun t => (dumpsWithList escape vs).map (t :: ·)

@[grind =]
def dumpsWithItems (escape : Char → Str) : List (Str × Value F) → Option (List Str)
  | [] => some []
  | (key, v) :: items =>
    (dumpsWith escape v).bind fun t =>
      (dumpsWithItems escape items).map ((quoted escape key ++ ": ".toList ++ t) :: ·)

end

mutual

theorem dumps_eq (v : Value F) : dumps v = dumpsWith escapeChar v := by
  cases v with
  | list vs => rw [dumps, dumpsWith, dumpsList_eq]
  | dict items => rw [dumps, dumpsWith, dumpsItems_eq]
  | bool b =>
    cases b with
    | _ => rw [dumps, dumpsWith]
  | str s =>
    rw [dumps, dumpsWith]
    rfl
  | _ => rw [dumps, dumpsWith]

theorem dumpsList_eq (vs : List (Value F)) : dumpsList vs = dumpsWithList escapeChar vs := by
  cases vs with
  | nil => rw [dumpsList, dumpsWithList]
  | cons v vs => rw [dumpsList, dumpsWithList, dumps_eq v, dumpsList_eq vs]

theorem dumpsItems_eq (items : List (Str × Value F)) :
    dumpsItems items = dumpsWithItems escapeChar items := by
  cases items with
  | nil => rw [dumpsItems, dumpsWithItems]
  | cons p items =>
    rw [dumpsItems, dumpsWithItems, dumps_eq p.2, dumpsItems_eq items]
    rfl

end

/-- `json.dumps(v, ensure_ascii=False)` -/
def dumpsRaw (v : Value F) : Option Str := dumpsWith escapeRaw v

end

/-! ## Reading -/

def isWs (c : Char) : Bool := c = ' ' ∨ c = '\t' ∨ c = '\n' ∨ c = '\r'

def skipWs (s : Str) : Str := s.dropWhile isWs

/-- The value of a hexadecimal digit. -/
def hexDigit (c : Char) : Option ℕ :=
  let n := c.toNat
  if 48 ≤ n ∧ n ≤ 57 then some (n - 48)
  else if 97 ≤ n ∧ n ≤ 102 then some (n - 87)
  else if 65 ≤ n ∧ n ≤ 70 then some (n - 55)
  else none

/-- The value of four hexadecimal digits. -/
def hexFour (a b c d : Char) : Option ℕ :=
  (hexDigit a).bind fun a => (hexDigit b).bind fun b => (hexDigit c).bind fun c =>
    (hexDigit d).map fun d => ((a * 16 + b) * 16 + c) * 16 + d

/-- The code of the character that a letter after a backslash stands for. -/
def unescape (c : Char) : Option ℕ :=
  if c = '"' ∨ c = '\\' ∨ c = '/' then some c.toNat
  else if c = 'b' then some 8
  else if c = 't' then some 9
  else if c = 'n' then some 10
  else if c = 'f' then some 12
  else if c = 'r' then some 13
  else none

/-- The codes of the characters up to the closing quote, and what stands after it. -/
@[grind =]
def scanCodes : Str → Option (List ℕ × Str)
  | [] => none
  | '"' :: s => some ([], s)
  | '\\' :: 'u' :: a :: b :: c :: d :: s =>
    (hexFour a b c d).bind fun n => (scanCodes s).map fun p => (n :: p.1, p.2)
  | '\\' :: c :: s => (unescape c).bind fun n => (scanCodes s).map fun p => (n :: p.1, p.2)
  | c :: s => if c.toNat < 32 then none else (scanCodes s).map fun p => (c.toNat :: p.1, p.2)

/-- The characters of some codes, two surrogates making one of them.  A surrogate on its own is
refused here: it is no `Char`. -/
@[grind =]
def joinCodes : List ℕ → Option Str
  | [] => some []
  | n :: ns =>
    if 55296 ≤ n ∧ n ≤ 56319 then
      match ns with
      | m :: ns =>
        if 56320 ≤ m ∧ m ≤ 57343 then
          (joinCodes ns).map (Char.ofNat (65536 + (n - 55296) * 1024 + (m - 56320)) :: ·)
        else none
      | [] => none
    else if 56320 ≤ n ∧ n ≤ 57343 then none
    else (joinCodes ns).map (Char.ofNat n :: ·)

/-- A string, after the opening quote. -/
def scanString (s : Str) : Option (Str × Str) :=
  (scanCodes s).bind fun p => (joinCodes p.1).map (·, p.2)

/-- `-?` -/
def takeMinus : Str → Str × Str
  | '-' :: s => (['-'], s)
  | s => ([], s)

def takeDigits (s : Str) : Str × Str := (s.takeWhile (·.isDigit), s.dropWhile (·.isDigit))

/-- `0|[1-9][0-9]*` -/
def takeInt : Str → Str × Str
  | '0' :: s => (['0'], s)
  | s => takeDigits s

/-- `(\.[0-9]+)?` -/
def takeFrac : Str → Str × Str
  | '.' :: s =>
    let ds := takeDigits s
    if ds.1 = [] then ([], '.' :: s) else ('.' :: ds.1, ds.2)
  | s => ([], s)

/-- `[-+]?` -/
def takePlusMinus : Str → Str × Str
  | '+' :: s => (['+'], s)
  | '-' :: s => (['-'], s)
  | s => ([], s)

/-- `([eE][-+]?[0-9]+)?` -/
def takeExp : Str → Str × Str
  | [] => ([], [])
  | e :: s =>
    let sign := takePlusMinus s
    let ds := takeDigits sign.2
    if (e = 'e' ∨ e = 'E') ∧ ds.1 ≠ [] then (e :: sign.1 ++ ds.1, ds.2) else ([], e :: s)

/-- `int(s)` of digits that may have a minus in front. -/
def intOf (neg int : Str) : ℤ := if neg = [] then digitsValue int else -digitsValue int

section

variable {F : Type} [PyFloat F]

def scanNumber (s : Str) : Option (Value F × Str) :=
  let neg := takeMinus s
  let int := takeInt neg.2
  let frac := takeFrac int.2
  let exp := takeExp frac.2
  if int.1 = [] then none
  else if frac.1 = [] ∧ exp.1 = [] then some (.int (intOf neg.1 int.1), int.2)
  else (PyFloat.ofText (neg.1 ++ int.1 ++ frac.1 ++ exp.1)).map fun x => (.float x, exp.2)

mutual

/-- A value that begins right here.  The number bounds the nesting and the lengths. -/
def scanValue : ℕ → Str → Option (Value F × Str)
  | 0, _ => none
  | _, [] => none
  | fuel + 1, c :: s =>
    if c = '"' then (scanString s).map fun p => (.str p.1, p.2)
    else if c = '{' then
      match skipWs s with
      | '}' :: s => some (.dict [], s)
      | s => (scanMembers fuel s).map fun p => (.dict (Dict.ofPairs p.1).items, p.2)
    else if c = '[' then
      match skipWs s with
      | ']' :: s => some (.list [], s)
      | s => (scanElements fuel s).map fun p => (.list p.1, p.2)
    else if startswith (c :: s) "null".toList then some (.none, s.drop 3)
    else if startswith (c :: s) "true".toList then some (.bool true, s.drop 3)
    else if startswith (c :: s) "false".toList then some (.bool false, s.drop 4)
    else scanNumber (c :: s)

/-- One element or more, up to the closing bracket. -/
@[grind =]
def scanElements : ℕ → Str → Option (List (Value F) × Str)
  | 0, _ => none
  | fuel + 1, s => (scanValue fuel s).bind fun p =>
    match skipWs p.2 with
    | ',' :: s => (scanElements fuel (skipWs s)).map fun q => (p.1 :: q.1, q.2)
    | ']' :: s => some ([p.1], s)
    | _ => none

/-- One item or more, up to the closing brace. -/
@[grind =]
def scanMembers : ℕ → Str → Option (List (Str × Value F) × Str)
  | 0, _ => none
  | _, [] => none
  | fuel + 1, c :: s =>
    if c = '"' then
      (scanString s).bind fun key =>
        match skipWs key.2 with
        | ':' :: s => (scanValue fuel (skipWs s)).bind fun p =>
          match skipWs p.2 with
          | ',' :: s => (scanMembers fuel (skipWs s)).map fun q => ((key.1, p.1) :: q.1, q.2)
          | '}' :: s => some ([(key.1, p.1)], s)
          | _ => none
        | _ => none
    else none

end

/-- `json.loads(s)`; `none` where it raises. -/
def loads (s : Str) : Option (Value F) :=
  (scanValue (2 * s.length + 1) (skipWs s)).bind fun p =>
    if skipWs p.2 = [] then some p.1 else none

end

/-! ## Strings -/

theorem hexDigit_digitChar {d : ℕ} (h : d < 16) : hexDigit (Nat.digitChar d) = some d := by
  revert d
  decide

theorem hexText_four (n : ℕ) :
    hexText 4 n = [Nat.digitChar (n / 4096 % 16), Nat.digitChar (n / 256 % 16),
      Nat.digitChar (n / 16 % 16), Nat.digitChar (n % 16)] := by
  simp only [hexText, Nat.div_div_eq_div_mul, List.nil_append, List.cons_append]

theorem scanCodes_hexText {n : ℕ} (h : n < 65536) (s : Str) :
    scanCodes ('\\' :: 'u' :: hexText 4 n ++ s) = (scanCodes s).map fun p => (n :: p.1, p.2) := by
  have hfour : hexFour (Nat.digitChar (n / 4096 % 16)) (Nat.digitChar (n / 256 % 16))
      (Nat.digitChar (n / 16 % 16)) (Nat.digitChar (n % 16)) = some n := by
    rw [hexFour, hexDigit_digitChar (by omega), hexDigit_digitChar (by omega),
      hexDigit_digitChar (by omega), hexDigit_digitChar (by omega)]
    simp only [Option.bind_some, Option.map_some, Option.some.injEq]
    omega
  rw [hexText_four]
  simp only [List.cons_append, List.nil_append]
  rw [scanCodes, hfour]
  rfl

theorem scanCodes_backslash {c : Char} {n : ℕ} (hc : c ≠ 'u') (h : unescape c = some n) (s : Str) :
    scanCodes ('\\' :: c :: s) = (scanCodes s).map fun p => (n :: p.1, p.2) := by
  rw [scanCodes]
  · rw [h]
    rfl
  · rintro _ _ _ _ _ rfl
    exact absurd rfl hc

theorem scanCodes_plain {c : Char} (hquote : c ≠ '"') (hslash : c ≠ '\\') (h : 32 ≤ c.toNat)
    (s : Str) : scanCodes (c :: s) = (scanCodes s).map fun p => (c.toNat :: p.1, p.2) := by
  rw [scanCodes]
  · rw [if_neg (by omega)]
  · exact fun h => hquote h
  · rintro _ _ _ _ _ rfl
    exact absurd rfl hslash
  · rintro _ _ rfl
    exact absurd rfl hslash

/-- The codes that a character is written with. -/
def codesOf (c : Char) : List ℕ :=
  if c.toNat < 65536 then [c.toNat]
  else [55296 + (c.toNat - 65536) / 1024, 56320 + (c.toNat - 65536) % 1024]

theorem toNat_lt (c : Char) : c.toNat < 55296 ∨ 57343 < c.toNat ∧ c.toNat < 1114112 := by
  exact c.valid

theorem scanCodes_escapeChar (c : Char) (s : Str) :
    scanCodes (escapeChar c ++ s) = (scanCodes s).map fun p => (codesOf c ++ p.1, p.2) := by
  have hsmall : c.toNat < 65536 → codesOf c = [c.toNat] := fun h => if_pos h
  rw [escapeChar]
  by_cases h1 : c = '"'
  · subst h1
    rw [if_pos rfl]
    exact scanCodes_backslash (by decide) rfl s
  rw [if_neg h1]
  by_cases h2 : c = '\\'
  · subst h2
    rw [if_pos rfl]
    exact scanCodes_backslash (by decide) rfl s
  rw [if_neg h2]
  by_cases h3 : c.toNat = 8
  · rw [if_pos h3, hsmall (by omega), h3]
    exact scanCodes_backslash (by decide) rfl s
  rw [if_neg h3]
  by_cases h4 : c.toNat = 9
  · rw [if_pos h4, hsmall (by omega), h4]
    exact scanCodes_backslash (by decide) rfl s
  rw [if_neg h4]
  by_cases h5 : c.toNat = 10
  · rw [if_pos h5, hsmall (by omega), h5]
    exact scanCodes_backslash (by decide) rfl s
  rw [if_neg h5]
  by_cases h6 : c.toNat = 12
  · rw [if_pos h6, hsmall (by omega), h6]
    exact scanCodes_backslash (by decide) rfl s
  rw [if_neg h6]
  by_cases h7 : c.toNat = 13
  · rw [if_pos h7, hsmall (by omega), h7]
    exact scanCodes_backslash (by decide) rfl s
  rw [if_neg h7]
  by_cases h8 : 32 ≤ c.toNat ∧ c.toNat ≤ 126
  · rw [if_pos h8, hsmall (by omega)]
    exact scanCodes_plain h1 h2 h8.1 s
  rw [if_neg h8]
  by_cases h9 : c.toNat < 65536
  · rw [if_pos h9, hsmall h9]
    exact scanCodes_hexText h9 s
  · have hcodes : codesOf c =
        [55296 + (c.toNat - 65536) / 1024, 56320 + (c.toNat - 65536) % 1024] := if_neg h9
    have hlt := toNat_lt c
    rw [if_neg h9, hcodes, List.append_assoc, scanCodes_hexText (by omega),
      scanCodes_hexText (by omega), Option.map_map]
    rfl

/-- A surrogate in front of its other half. -/
theorem joinCodes_pair {n m : ℕ} (hn : n < 1024) (hm : m < 1024) (ns : List ℕ) :
    joinCodes ((55296 + n) :: (56320 + m) :: ns) =
      (joinCodes ns).map (Char.ofNat (65536 + n * 1024 + m) :: ·) := by
  have hn' : 55296 + n - 55296 = n := Nat.add_sub_cancel_left ..
  have hm' : 56320 + m - 56320 = m := Nat.add_sub_cancel_left ..
  have hfirst : 55296 ≤ 55296 + n ∧ 55296 + n ≤ 56319 := by omega
  have hsecond : 56320 ≤ 56320 + m ∧ 56320 + m ≤ 57343 := by omega
  rw [joinCodes.eq_def]
  simp only [hfirst, hsecond, hn', hm', and_self, if_true]

theorem joinCodes_single {n : ℕ} (h : n < 55296 ∨ 57343 < n) (ns : List ℕ) :
    joinCodes (n :: ns) = (joinCodes ns).map (Char.ofNat n :: ·) := by
  rw [joinCodes.eq_def]
  dsimp only
  rw [if_neg (by omega), if_neg (by omega)]

theorem joinCodes_codesOf (c : Char) (ns : List ℕ) :
    joinCodes (codesOf c ++ ns) = (joinCodes ns).map (c :: ·) := by
  have hlt := toNat_lt c
  unfold codesOf
  by_cases h : c.toNat < 65536
  · rw [if_pos h, List.singleton_append, joinCodes_single (by omega), Char.ofNat_toNat]
  · have heq : 65536 + (c.toNat - 65536) / 1024 * 1024 + (c.toNat - 65536) % 1024 = c.toNat := by
      omega
    rw [if_neg h, List.cons_append, List.singleton_append,
      joinCodes_pair (by omega) (by omega), heq, Char.ofNat_toNat]

/-- The characters are read back from how they are written. -/
def Escapes (escape : Char → Str) : Prop :=
  ∀ c, ∃ ns, (∀ s, scanCodes (escape c ++ s) = (scanCodes s).map fun p => (ns ++ p.1, p.2)) ∧
    ∀ ms, joinCodes (ns ++ ms) = (joinCodes ms).map (c :: ·)

theorem escapes_escapeChar : Escapes escapeChar :=
  fun c => ⟨codesOf c, scanCodes_escapeChar c, joinCodes_codesOf c⟩

theorem scanCodes_escapeRaw (c : Char) (s : Str) :
    scanCodes (escapeRaw c ++ s) = (scanCodes s).map fun p => ([c.toNat] ++ p.1, p.2) := by
  rw [escapeRaw]
  by_cases hquote : c = '"'
  · subst hquote
    rw [if_pos rfl]
    exact scanCodes_backslash (by decide) rfl s
  rw [if_neg hquote]
  by_cases hslash : c = '\\'
  · subst hslash
    rw [if_pos rfl]
    exact scanCodes_backslash (by decide) rfl s
  rw [if_neg hslash]
  by_cases h8 : c.toNat = 8
  · rw [if_pos h8, h8]
    exact scanCodes_backslash (by decide) rfl s
  rw [if_neg h8]
  by_cases h9 : c.toNat = 9
  · rw [if_pos h9, h9]
    exact scanCodes_backslash (by decide) rfl s
  rw [if_neg h9]
  by_cases h10 : c.toNat = 10
  · rw [if_pos h10, h10]
    exact scanCodes_backslash (by decide) rfl s
  rw [if_neg h10]
  by_cases h12 : c.toNat = 12
  · rw [if_pos h12, h12]
    exact scanCodes_backslash (by decide) rfl s
  rw [if_neg h12]
  by_cases h13 : c.toNat = 13
  · rw [if_pos h13, h13]
    exact scanCodes_backslash (by decide) rfl s
  rw [if_neg h13]
  by_cases hcontrol : c.toNat < 32
  · rw [if_pos hcontrol]
    exact scanCodes_hexText (by omega) s
  · rw [if_neg hcontrol]
    exact scanCodes_plain hquote hslash (by omega) s

theorem escapes_escapeRaw : Escapes escapeRaw := by
  intro c
  refine ⟨[c.toNat], scanCodes_escapeRaw c, fun ms => ?_⟩
  have hlt := toNat_lt c
  rw [List.singleton_append, joinCodes_single (by omega), Char.ofNat_toNat]

theorem scanString_flatMap {escape : Char → Str} (h : Escapes escape) (s rest : Str) :
    scanString (s.flatMap escape ++ '"' :: rest) = some (s, rest) := by
  have hcodes : ∃ ns, scanCodes (s.flatMap escape ++ '"' :: rest) = some (ns, rest) ∧
      joinCodes ns = some s := by
    induction s with
    | nil => exact ⟨[], rfl, rfl⟩
    | cons c s ih =>
      obtain ⟨ms, hscan, hjoin⟩ := ih
      obtain ⟨ns, hscan', hjoin'⟩ := h c
      refine ⟨ns ++ ms, ?_, ?_⟩
      · rw [List.flatMap_cons, List.append_assoc, hscan', hscan]
        rfl
      · rw [hjoin', hjoin]
        rfl
  obtain ⟨ns, hscan, hjoin⟩ := hcodes
  rw [scanString, hscan, Option.bind_some, hjoin]
  rfl

/-! ## Numbers -/

/-- No number goes on here. -/
def EndsNumber (rest : Str) : Prop :=
  ∀ c ∈ rest.head?, c.isDigit = false ∧ c ≠ '.' ∧ c ≠ 'e' ∧ c ≠ 'E'

theorem takeDigits_append {ds rest : Str} (hds : ∀ c ∈ ds, c.isDigit)
    (hrest : ∀ c ∈ rest.head?, c.isDigit = false) : takeDigits (ds ++ rest) = (ds, rest) := by
  have hstop : rest.takeWhile (·.isDigit) = [] ∧ rest.dropWhile (·.isDigit) = rest := by
    cases rest with
    | nil => exact ⟨rfl, rfl⟩
    | cons c rest =>
      have hc : ¬ c.isDigit = true := by simpa using hrest c rfl
      exact ⟨List.takeWhile_cons_of_neg hc, List.dropWhile_cons_of_neg hc⟩
  rw [takeDigits, List.takeWhile_append_of_pos hds, List.dropWhile_append_of_pos hds, hstop.1,
    hstop.2, List.append_nil]

theorem takeMinus_append {neg int : Str} (hneg : neg = [] ∨ neg = ['-']) (hint : IsDigits int)
    (rest : Str) : takeMinus (neg ++ (int ++ rest)) = (neg, int ++ rest) := by
  obtain ⟨d, ds, rfl⟩ := List.exists_cons_of_ne_nil hint.1
  have hd : d.isDigit = true := hint.2 d (List.mem_cons_self ..)
  rcases hneg with rfl | rfl
  · rw [List.nil_append, List.cons_append, takeMinus]
    intro s hs
    exact ne_of_isDigit hd rfl (List.cons.inj hs).1
  · rfl

theorem takeInt_append {int rest : Str} (hint : IsDigits int)
    (hzero : int = ['0'] ∨ int.head? ≠ some '0') (hrest : ∀ c ∈ rest.head?, c.isDigit = false) :
    takeInt (int ++ rest) = (int, rest) := by
  rcases hzero with rfl | hzero
  · rfl
  · obtain ⟨d, ds, rfl⟩ := List.exists_cons_of_ne_nil hint.1
    rw [List.cons_append, takeInt]
    · exact takeDigits_append hint.2 hrest
    · intro s hs
      exact hzero (congrArg some (List.cons.inj hs).1)

theorem takeFrac_append {frac rest : Str}
    (hfrac : frac = [] ∨ ∃ ds, IsDigits ds ∧ frac = '.' :: ds)
    (hrest : ∀ c ∈ rest.head?, c.isDigit = false ∧ c ≠ '.') :
    takeFrac (frac ++ rest) = (frac, rest) := by
  rcases hfrac with rfl | ⟨ds, hds, rfl⟩
  · cases rest with
    | nil => rfl
    | cons c rest =>
      rw [List.nil_append, takeFrac]
      intro s hs
      exact (hrest c rfl).2 (List.cons.inj hs).1
  · have htake := takeDigits_append hds.2 fun c hc => (hrest c hc).1
    rw [List.cons_append, takeFrac, htake, if_neg hds.1]

theorem takeExp_append {exp rest : Str}
    (hexp : exp = [] ∨
      ∃ sign ds, (sign = '+' ∨ sign = '-') ∧ IsDigits ds ∧ exp = 'e' :: sign :: ds)
    (hrest : ∀ c ∈ rest.head?, c.isDigit = false ∧ c ≠ 'e' ∧ c ≠ 'E') :
    takeExp (exp ++ rest) = (exp, rest) := by
  rcases hexp with rfl | ⟨sign, ds, hsign, hds, rfl⟩
  · cases rest with
    | nil => rfl
    | cons c rest =>
      obtain ⟨-, he, hE⟩ := hrest c rfl
      rw [List.nil_append, takeExp, if_neg fun h => h.1.elim he hE]
  · have htake := takeDigits_append hds.2 fun c hc => (hrest c hc).1
    have hpm : takePlusMinus (sign :: (ds ++ rest)) = ([sign], ds ++ rest) := by
      rcases hsign with rfl | rfl <;> rfl
    simp only [List.cons_append, takeExp, hpm, htake]
    rw [if_pos ⟨Or.inl trivial, hds.1⟩]
    rfl

/-- What stands after the digits of a number. -/
theorem head?_frac_exp {frac exp rest : Str}
    (hfrac : frac = [] ∨ ∃ ds, IsDigits ds ∧ frac = '.' :: ds)
    (hexp : exp = [] ∨
      ∃ sign ds, (sign = '+' ∨ sign = '-') ∧ IsDigits ds ∧ exp = 'e' :: sign :: ds)
    (hrest : EndsNumber rest) :
    (∀ c ∈ (exp ++ rest).head?, c.isDigit = false ∧ c ≠ '.') ∧
      ∀ c ∈ (frac ++ (exp ++ rest)).head?, c.isDigit = false := by
  have hexp' : ∀ c ∈ (exp ++ rest).head?, c.isDigit = false ∧ c ≠ '.' := by
    rcases hexp with rfl | ⟨sign, ds, -, -, rfl⟩
    · exact fun c hc => ⟨(hrest c hc).1, (hrest c hc).2.1⟩
    · intro c hc
      obtain rfl : 'e' = c := Option.some.inj hc
      decide
  refine ⟨hexp', ?_⟩
  rcases hfrac with rfl | ⟨ds, -, rfl⟩
  · exact fun c hc => (hexp' c hc).1
  · intro c hc
    obtain rfl : '.' = c := Option.some.inj hc
    decide

section

variable {F : Type} [PyFloat F]

theorem scanNumber_repr (x : F) {rest : Str} (hrest : EndsNumber rest) :
    scanNumber (PyFloat.repr x ++ rest) = some (.float x, rest) := by
  obtain ⟨neg, int, frac, exp, htext, hneg, ⟨hint, hzero⟩, hfrac, hexp, hfloat⟩ :=
    PyFloat.isFloatText_repr x
  obtain ⟨hafter, hafter'⟩ := head?_frac_exp hfrac hexp hrest
  have hminus := takeMinus_append hneg hint (frac ++ (exp ++ rest))
  have htakeInt := takeInt_append hint hzero hafter'
  have htakeFrac := takeFrac_append hfrac hafter
  have htakeExp := takeExp_append hexp fun c hc => ⟨(hrest c hc).1, (hrest c hc).2.2⟩
  have hnot : ¬ (frac = [] ∧ exp = []) := fun h => hfloat.elim (· h.1) (· h.2)
  have hassoc : PyFloat.repr x ++ rest = neg ++ (int ++ (frac ++ (exp ++ rest))) := by
    rw [htext]
    simp only [List.append_assoc]
  rw [hassoc]
  simp only [scanNumber, hminus, htakeInt, htakeFrac, htakeExp]
  rw [if_neg hint.1, if_neg hnot, ← htext, PyFloat.ofText_repr]
  rfl

theorem head?_toDigits (n : ℕ) :
    Nat.toDigits 10 n = ['0'] ∨ (Nat.toDigits 10 n).head? ≠ some '0' := by
  induction n using Nat.strongRecOn with
  | ind n ih =>
    by_cases hn : n < 10
    · rw [Nat.toDigits_of_lt_base hn]
      have hdigit : ∀ d < 10, [Nat.digitChar d] = ['0'] ∨ [Nat.digitChar d].head? ≠ some '0' := by
        decide
      exact hdigit n hn
    · rw [Nat.toDigits_of_base_le (by omega) (by omega)]
      refine Or.inr ?_
      rw [List.head?_append_of_ne_nil _ Nat.toDigits_ne_nil]
      rcases ih (n / 10) (by omega) with h | h
      · have hvalue := Nat.ofDigitChars_ten_toDigits (n := n / 10)
        rw [h] at hvalue
        have hone : n / 10 = 0 := hvalue.symm
        omega
      · exact h

theorem scanNumber_sign (neg : Str) (hneg : neg = [] ∨ neg = ['-']) (n : ℕ) {rest : Str}
    (hrest : EndsNumber rest) :
    scanNumber (neg ++ (Nat.toDigits 10 n ++ rest)) =
      some ((.int (if neg = [] then n else -n) : Value F), rest) := by
  have hint := isDigits_toDigits n
  have hafter : ∀ c ∈ rest.head?, c.isDigit = false := fun c hc => (hrest c hc).1
  have hminus := takeMinus_append hneg hint rest
  have htakeInt := takeInt_append hint (head?_toDigits n) hafter
  have htakeFrac := takeFrac_append (Or.inl rfl) fun c hc => ⟨hafter c hc, (hrest c hc).2.1⟩
  have htakeExp := takeExp_append (Or.inl rfl) fun c hc => ⟨hafter c hc, (hrest c hc).2.2⟩
  rw [List.nil_append] at htakeFrac htakeExp
  simp only [scanNumber, hminus, htakeInt, htakeFrac, htakeExp]
  rw [if_neg hint.1, if_pos ⟨trivial, trivial⟩, intOf, digitsValue, Nat.ofDigitChars_ten_toDigits]

theorem scanNumber_intText (n : ℤ) {rest : Str} (hrest : EndsNumber rest) :
    scanNumber (intText n ++ rest) = some ((.int n : Value F), rest) := by
  cases n with
  | ofNat n => exact scanNumber_sign [] (Or.inl rfl) n hrest
  | negSucc n => exact scanNumber_sign ['-'] (Or.inr rfl) (n + 1) hrest

end

/-! ## Values -/

section

variable {F : Type}

mutual

/-- What JSON can carry: there are no bytes, and no dictionary has a key twice. -/
def IsJson : Value F → Prop
  | .bytes _ => False
  | .list vs => IsJsonList vs
  | .dict items => (items.map Prod.fst).Nodup ∧ IsJsonItems items
  | _ => True

@[grind =]
def IsJsonList : List (Value F) → Prop
  | [] => True
  | v :: vs => IsJson v ∧ IsJsonList vs

@[grind =]
def IsJsonItems : List (Str × Value F) → Prop
  | [] => True
  | (_, v) :: items => IsJson v ∧ IsJsonItems items

end

theorem isJsonList_iff {vs : List (Value F)} : IsJsonList vs ↔ ∀ v ∈ vs, IsJson v := by
  induction vs with
  | nil => simp [IsJsonList]
  | cons v vs ih => rw [IsJsonList, ih, List.forall_mem_cons]

theorem isJsonItems_iff {items : List (Str × Value F)} :
    IsJsonItems items ↔ ∀ p ∈ items, IsJson p.2 := by
  induction items with
  | nil => simp [IsJsonItems]
  | cons p items ih => rw [IsJsonItems, ih, List.forall_mem_cons]

end

/-- A value may begin like this: not with white space, and not with a closing bracket. -/
def Opens (s : Str) : Prop := ∃ c t, s = c :: t ∧ isWs c = false ∧ c ≠ ']' ∧ c ≠ '}'

theorem skipWs_of_opens {s : Str} (h : Opens s) (rest : Str) : skipWs (s ++ rest) = s ++ rest := by
  obtain ⟨c, t, rfl, hc, -⟩ := h
  rw [skipWs, List.cons_append, List.dropWhile_cons_of_neg (by simp [hc])]

theorem ne_of_number {c : Char} (hc : c = '-' ∨ c.isDigit = true) {d : Char}
    (hd : d ≠ '-' ∧ d.isDigit = false) : c ≠ d := by
  rcases hc with rfl | hc
  · exact hd.1.symm
  · exact ne_of_isDigit hc hd.2

theorem isWs_of_number {c : Char} (h : c = '-' ∨ c.isDigit = true) :
    isWs c = false ∧ c ≠ ']' ∧ c ≠ '}' := by
  have hblank : c ≠ ' ' := ne_of_number h (by decide)
  have htab : c ≠ '\t' := ne_of_number h (by decide)
  have hline : c ≠ '\n' := ne_of_number h (by decide)
  have hreturn : c ≠ '\r' := ne_of_number h (by decide)
  refine ⟨?_, ne_of_number h (by decide), ne_of_number h (by decide)⟩
  simp [isWs, hblank, htab, hline, hreturn]

/-- A number begins with a digit or a minus. -/
theorem head_intText (n : ℤ) : ∃ c t, intText n = c :: t ∧ (c = '-' ∨ c.isDigit = true) := by
  cases n with
  | ofNat n =>
    obtain ⟨d, ds, h⟩ := List.exists_cons_of_ne_nil (isDigits_toDigits n).1
    exact ⟨d, ds, h, Or.inr ((isDigits_toDigits n).2 d (by rw [h]; exact List.mem_cons_self ..))⟩
  | negSucc n => exact ⟨'-', _, rfl, Or.inl rfl⟩

theorem head_of_isFloatText {s : Str} (h : IsFloatText s) :
    ∃ c t, s = c :: t ∧ (c = '-' ∨ c.isDigit = true) := by
  obtain ⟨neg, int, frac, exp, rfl, hneg, ⟨hint, -⟩, -⟩ := h
  rcases hneg with rfl | rfl
  · obtain ⟨d, ds, rfl⟩ := List.exists_cons_of_ne_nil hint.1
    exact ⟨d, _, rfl, Or.inr (hint.2 d (List.mem_cons_self ..))⟩
  · exact ⟨'-', _, rfl, Or.inl rfl⟩

section

variable {F : Type} [PyFloat F]

theorem exists_dumpsWith (escape : Char → Str) (v : Value F) (hv : IsJson v) :
    ∃ s, dumpsWith escape v = some s := by
  induction v using Value.induction with
  | none => exact ⟨_, rfl⟩
  | bool b => cases b <;> exact ⟨_, rfl⟩
  | int n => exact ⟨_, rfl⟩
  | float x => exact ⟨_, rfl⟩
  | str s => exact ⟨_, rfl⟩
  | bytes b => exact hv.elim
  | list vs ih =>
    have hvs : ∃ ts, dumpsWithList escape vs = some ts := by
      induction vs with
      | nil => exact ⟨[], rfl⟩
      | cons v vs ihvs =>
        obtain ⟨hv, hvs⟩ := hv
        obtain ⟨t, ht⟩ := ih v (List.mem_cons_self ..) hv
        obtain ⟨ts, hts⟩ := ihvs (fun w hw => ih w (List.mem_cons_of_mem _ hw)) hvs
        exact ⟨t :: ts, by rw [dumpsWithList, ht, hts]; rfl⟩
    obtain ⟨ts, hts⟩ := hvs
    exact ⟨_, by rw [dumpsWith, hts]; rfl⟩
  | dict items ih =>
    obtain ⟨-, hitems⟩ := hv
    have hus : ∃ us, dumpsWithItems escape items = some us := by
      induction items with
      | nil => exact ⟨[], rfl⟩
      | cons p items ihitems =>
        obtain ⟨hp, hitems⟩ := hitems
        obtain ⟨t, ht⟩ := ih p (List.mem_cons_self ..) hp
        obtain ⟨us, hus⟩ := ihitems (fun q hq => ih q (List.mem_cons_of_mem _ hq)) hitems
        exact ⟨_, by rw [dumpsWithItems, ht, hus]; rfl⟩
    obtain ⟨us, hus⟩ := hus
    exact ⟨_, by rw [dumpsWith, hus]; rfl⟩

variable {escape : Char → Str}

theorem opens_dumpsWith {v : Value F} {s : Str} (h : dumpsWith escape v = some s) : Opens s := by
  have hnumber : ∀ {s : Str}, (∃ c t, s = c :: t ∧ (c = '-' ∨ c.isDigit = true)) → Opens s := by
    rintro _ ⟨c, t, rfl, hc⟩
    exact ⟨c, t, rfl, isWs_of_number hc⟩
  cases v with
  | none =>
    cases h
    exact ⟨'n', _, rfl, by decide⟩
  | bool b =>
    cases b <;> cases h
    · exact ⟨'f', _, rfl, by decide⟩
    · exact ⟨'t', _, rfl, by decide⟩
  | int n =>
    cases h
    exact hnumber (head_intText n)
  | float x =>
    cases h
    exact hnumber (head_of_isFloatText (PyFloat.isFloatText_repr x))
  | str s =>
    cases h
    exact ⟨'"', _, rfl, by decide⟩
  | bytes b => cases h
  | list vs =>
    obtain ⟨ts, -, rfl⟩ := Option.map_eq_some_iff.1 h
    exact ⟨'[', _, rfl, by decide⟩
  | dict items =>
    obtain ⟨ts, -, rfl⟩ := Option.map_eq_some_iff.1 h
    exact ⟨'{', _, rfl, by decide⟩

/-- The value is read from the text, whatever follows that does not prolong a number. -/
def Reads (v : Value F) (s : Str) : Prop :=
  ∀ fuel rest, 2 * s.length ≤ fuel → EndsNumber rest → scanValue fuel (s ++ rest) = some (v, rest)

theorem endsNumber_cons {c : Char} (hd : c.isDigit = false) (hc : c ∉ ".eE".toList) (rest : Str) :
    EndsNumber (c :: rest) := by
  intro d h
  obtain rfl : c = d := Option.some.inj h
  simpa [hd] using hc

theorem not_startswith_of_head {c : Char} {s : Str} {d : Char} (h : c ≠ d) (word : Str) :
    ¬ startswith (c :: s) (d :: word) = true :=
  fun hstart => h (List.cons_prefix_cons.1 (startswith_iff.1 hstart)).1.symm

theorem scanValue_number {c : Char} (hc : c = '-' ∨ c.isDigit = true) (fuel : ℕ) (s : Str) :
    scanValue (F := F) (fuel + 1) (c :: s) = scanNumber (c :: s) := by
  have hquote : c ≠ '"' := ne_of_number hc (by decide)
  have hbrace : c ≠ '{' := ne_of_number hc (by decide)
  have hbracket : c ≠ '[' := ne_of_number hc (by decide)
  have hnull : ¬ startswith (c :: s) "null".toList = true :=
    not_startswith_of_head (ne_of_number hc (d := 'n') (by decide)) _
  have htrue : ¬ startswith (c :: s) "true".toList = true :=
    not_startswith_of_head (ne_of_number hc (d := 't') (by decide)) _
  have hfalse : ¬ startswith (c :: s) "false".toList = true :=
    not_startswith_of_head (ne_of_number hc (d := 'f') (by decide)) _
  rw [scanValue, if_neg hquote, if_neg hbrace, if_neg hbracket, if_neg hnull, if_neg htrue,
    if_neg hfalse]

theorem reads_number {v : Value F} {s : Str}
    (hhead : ∃ c t, s = c :: t ∧ (c = '-' ∨ c.isDigit = true))
    (h : ∀ rest, EndsNumber rest → scanNumber (s ++ rest) = some (v, rest)) : Reads v s := by
  intro fuel rest hfuel hrest
  obtain ⟨c, t, rfl, hc⟩ := hhead
  obtain ⟨fuel, rfl⟩ : ∃ k, fuel = k + 1 := ⟨fuel - 1, by rw [List.length_cons] at hfuel; omega⟩
  rw [List.cons_append, scanValue_number hc, ← List.cons_append]
  exact h rest hrest

theorem reads_str (h : Escapes escape) (s : Str) : Reads (.str s : Value F) (quoted escape s) := by
  intro fuel rest hfuel _
  obtain ⟨fuel, rfl⟩ : ∃ k, fuel = k + 1 :=
    ⟨fuel - 1, by rw [quoted, List.cons_append, List.length_cons] at hfuel; omega⟩
  rw [quoted, List.cons_append, List.cons_append, List.append_assoc, List.singleton_append,
    scanValue, if_pos rfl, scanString_flatMap h]
  rfl

theorem opens_append {s : Str} (h : Opens s) (t : Str) : Opens (s ++ t) := by
  obtain ⟨c, s, rfl, hc⟩ := h
  exact ⟨c, s ++ t, rfl, hc⟩

theorem opens_intercalate {t : Str} (h : Opens t) (ts : List Str) :
    Opens (List.intercalate ", ".toList (t :: ts)) := by
  cases ts with
  | nil => rwa [List.intercalate_singleton]
  | cons u us =>
    rw [List.intercalate_cons_cons]
    exact opens_append (opens_append h _) _

theorem endsNumber_comma (s : Str) : EndsNumber (", ".toList ++ s) :=
  endsNumber_cons (by decide) (by decide) _

/-- The comma and the blank between two texts. -/
theorem skipWs_comma {s : Str} (h : Opens s) (rest : Str) :
    skipWs (", ".toList ++ (s ++ rest)) = ',' :: ' ' :: (s ++ rest) ∧
      skipWs (' ' :: (s ++ rest)) = s ++ rest :=
  ⟨rfl, skipWs_of_opens h rest⟩

/-- One element or more are read from their texts. -/
theorem scanElements_intercalate {vs : List (Value F)} {ts : List Str}
    (h : List.Forall₂ (fun v t => Reads v t ∧ Opens t) vs ts) (hne : vs ≠ []) (fuel : ℕ)
    (hfuel : 2 * (List.intercalate ", ".toList ts).length + 2 ≤ fuel) (rest : Str) :
    scanElements fuel (List.intercalate ", ".toList ts ++ ']' :: rest) = some (vs, rest) := by
  induction h generalizing fuel with
  | nil => exact absurd rfl hne
  | @cons v t vs ts hvt hrest ih =>
    obtain ⟨fuel, rfl⟩ := Nat.exists_eq_add_one_of_ne_zero (show fuel ≠ 0 by omega)
    cases hrest with
    | nil =>
      have hend : EndsNumber (']' :: rest) := endsNumber_cons (by decide) (by decide) rest
      rw [List.intercalate_singleton] at hfuel ⊢
      rw [scanElements, hvt.1 fuel _ (by omega) hend]
      rfl
    | @cons w u ws us hwu hrest =>
      have hlen : (", ".toList).length = 2 := rfl
      rw [List.intercalate_cons_cons] at hfuel ⊢
      simp only [List.length_append] at hfuel
      have hmore := ih (by simp) fuel (by omega)
      obtain ⟨hcomma, hblank⟩ := skipWs_comma (opens_intercalate hwu.2 us) (']' :: rest)
      rw [scanElements, List.append_assoc, List.append_assoc,
        hvt.1 fuel _ (by omega) (endsNumber_comma _), Option.bind_some]
      simp only [hcomma, hblank, hmore]
      rfl

/-- The text of an item. -/
def ReadsItem (escape : Char → Str) (p : Str × Value F) (u : Str) : Prop :=
  ∃ t, u = quoted escape p.1 ++ ": ".toList ++ t ∧ Reads p.2 t ∧ Opens t

theorem opens_item {p : Str × Value F} {u : Str} (h : ReadsItem escape p u) : Opens u := by
  obtain ⟨t, rfl, -⟩ := h
  exact ⟨'"', _, rfl, by decide⟩

/-- The first item of several: its key, its value and what comes after it. -/
theorem scanMembers_item (hescape : Escapes escape) {p : Str × Value F} {u : Str}
    (h : ReadsItem escape p u) {fuel : ℕ} (hfuel : 2 * u.length ≤ fuel) {rest : Str} (hrest : EndsNumber rest) :
    scanMembers (fuel + 1) (u ++ rest) =
      match skipWs rest with
      | ',' :: s => (scanMembers fuel (skipWs s)).map fun q => (p :: q.1, q.2)
      | '}' :: s => some ([p], s)
      | _ => none := by
  obtain ⟨t, rfl, hreads, hopens⟩ := h
  have hcolon : skipWs (": ".toList ++ (t ++ rest)) = ':' :: ' ' :: (t ++ rest) := rfl
  have hblank : skipWs (' ' :: (t ++ rest)) = t ++ rest := skipWs_of_opens hopens rest
  simp only [List.length_append] at hfuel
  have hassoc : quoted escape p.1 ++ ": ".toList ++ t ++ rest =
      '"' :: (p.1.flatMap escape ++ '"' :: (": ".toList ++ (t ++ rest))) := by
    simp only [quoted, List.cons_append, List.append_assoc, List.nil_append]
  rw [hassoc, scanMembers, if_pos rfl]
  simp only [scanString_flatMap hescape, Option.bind_some, hcolon, hblank,
    hreads fuel rest (by omega) hrest]

/-- One item or more are read from their texts. -/
theorem scanMembers_intercalate (hescape : Escapes escape) {items : List (Str × Value F)}
    {us : List Str} (h : List.Forall₂ (ReadsItem escape) items us) (hne : items ≠ []) (fuel : ℕ)
    (hfuel : 2 * (List.intercalate ", ".toList us).length + 2 ≤ fuel) (rest : Str) :
    scanMembers fuel (List.intercalate ", ".toList us ++ '}' :: rest) = some (items, rest) := by
  induction h generalizing fuel with
  | nil => exact absurd rfl hne
  | @cons p u items us hpu hrest ih =>
    obtain ⟨fuel, rfl⟩ := Nat.exists_eq_add_one_of_ne_zero (show fuel ≠ 0 by omega)
    cases hrest with
    | nil =>
      have hend : EndsNumber ('}' :: rest) := endsNumber_cons (by decide) (by decide) rest
      rw [List.intercalate_singleton] at hfuel ⊢
      rw [scanMembers_item hescape hpu (by omega) hend]
      rfl
    | @cons q w qs ws hqw hrest =>
      have hlen : (", ".toList).length = 2 := rfl
      rw [List.intercalate_cons_cons] at hfuel ⊢
      simp only [List.length_append] at hfuel
      have hmore := ih (by simp) fuel (by omega)
      obtain ⟨hcomma, hblank⟩ :=
        skipWs_comma (opens_intercalate (opens_item hqw) ws) ('}' :: rest)
      rw [List.append_assoc, List.append_assoc,
        scanMembers_item hescape hpu (by omega) (endsNumber_comma _)]
      simp only [hcomma, hblank, hmore]
      rfl

theorem forall₂_dumpsWithList {vs : List (Value F)} {ts : List Str} (h : dumpsWithList escape vs = some ts) :
    List.Forall₂ (fun v t => dumpsWith escape v = some t) vs ts := by
  induction vs generalizing ts with
  | nil =>
    cases h
    exact List.Forall₂.nil
  | cons v vs ih =>
    obtain ⟨t, ht, h⟩ := Option.bind_eq_some_iff.1 h
    obtain ⟨ts, hts, rfl⟩ := Option.map_eq_some_iff.1 h
    exact List.Forall₂.cons ht (ih hts)

theorem forall₂_dumpsWithItems {items : List (Str × Value F)} {us : List Str}
    (h : dumpsWithItems escape items = some us) :
    List.Forall₂ (fun p u => ∃ t, u = quoted escape p.1 ++ ": ".toList ++ t ∧ dumpsWith escape p.2 = some t)
      items us := by
  induction items generalizing us with
  | nil =>
    cases h
    exact List.Forall₂.nil
  | cons p items ih =>
    obtain ⟨t, ht, h⟩ := Option.bind_eq_some_iff.1 h
    obtain ⟨us, hus, rfl⟩ := Option.map_eq_some_iff.1 h
    exact List.Forall₂.cons ⟨t, rfl, ht⟩ (ih hus)

theorem reads_list {vs : List (Value F)} {ts : List Str}
    (h : List.Forall₂ (fun v t => Reads v t ∧ Opens t) vs ts) :
    Reads (.list vs) ('[' :: List.intercalate ", ".toList ts ++ [']']) := by
  intro fuel rest hfuel _
  rw [List.cons_append, List.length_cons, List.length_append, List.length_singleton] at hfuel
  obtain ⟨fuel, rfl⟩ := Nat.exists_eq_add_one_of_ne_zero (show fuel ≠ 0 by omega)
  rw [List.cons_append, List.cons_append, List.append_assoc, List.singleton_append, scanValue,
    if_neg (by decide), if_neg (by decide), if_pos rfl]
  cases h with
  | nil => rfl
  | @cons v t vs ts hvt hrest =>
    have hopens := opens_intercalate hvt.2 ts
    have hmore := scanElements_intercalate (List.Forall₂.cons hvt hrest) (by simp) fuel
      (by omega) rest
    rw [skipWs_of_opens hopens]
    obtain ⟨c, s, hs, -, hc, -⟩ := hopens
    split
    · rename_i s' hclose
      rw [hs] at hclose
      exact absurd (List.cons.inj hclose).1 hc
    · rw [hmore]
      rfl

theorem reads_dict (hescape : Escapes escape) {items : List (Str × Value F)} {us : List Str}
    (h : List.Forall₂ (ReadsItem escape) items us) (hnodup : (items.map Prod.fst).Nodup) :
    Reads (.dict items) ('{' :: List.intercalate ", ".toList us ++ ['}']) := by
  intro fuel rest hfuel _
  rw [List.cons_append, List.length_cons, List.length_append, List.length_singleton] at hfuel
  obtain ⟨fuel, rfl⟩ := Nat.exists_eq_add_one_of_ne_zero (show fuel ≠ 0 by omega)
  rw [List.cons_append, List.cons_append, List.append_assoc, List.singleton_append, scanValue,
    if_neg (by decide), if_pos rfl]
  cases h with
  | nil => rfl
  | @cons p u items us hpu hrest =>
    have hopens := opens_intercalate (opens_item hpu) us
    have hmore := scanMembers_intercalate hescape (List.Forall₂.cons hpu hrest) (by simp) fuel
      (by omega) rest
    rw [skipWs_of_opens hopens]
    obtain ⟨c, s, hs, -, -, hc⟩ := hopens
    split
    · rename_i s' hclose
      rw [hs] at hclose
      exact absurd (List.cons.inj hclose).1 hc
    · rw [hmore, Option.map_some, Dict.items_ofPairs hnodup]

theorem forall₂_imp {α β : Type} {R S : α → β → Prop} {xs : List α} {ys : List β}
    (h : List.Forall₂ R xs ys) (hRS : ∀ x ∈ xs, ∀ y, R x y → S x y) : List.Forall₂ S xs ys := by
  have hand := (List.forall₂_and_left xs ys).2 ⟨fun _ hx => hx, h⟩
  exact hand.imp fun x y hxy => hRS x hxy.1 y hxy.2

/-- Every value is read from the text that was written of it. -/
theorem reads_dumpsWith (hescape : Escapes escape) (v : Value F) {s : Str} (hv : IsJson v) (h : dumpsWith escape v = some s) :
    Reads v s := by
  induction v using Value.induction generalizing s with
  | none =>
    cases h
    intro fuel rest hfuel _
    obtain ⟨fuel, rfl⟩ : ∃ k, fuel = k + 1 := ⟨fuel - 1, by change 8 ≤ fuel at hfuel; omega⟩
    rfl
  | bool b =>
    cases b <;> cases h <;> intro fuel rest hfuel _
    · obtain ⟨fuel, rfl⟩ : ∃ k, fuel = k + 1 := ⟨fuel - 1, by change 10 ≤ fuel at hfuel; omega⟩
      rfl
    · obtain ⟨fuel, rfl⟩ : ∃ k, fuel = k + 1 := ⟨fuel - 1, by change 8 ≤ fuel at hfuel; omega⟩
      rfl
  | int n =>
    cases h
    exact reads_number (head_intText n) fun rest hrest => scanNumber_intText n hrest
  | float x =>
    cases h
    exact reads_number (head_of_isFloatText (PyFloat.isFloatText_repr x)) fun rest hrest =>
      scanNumber_repr x hrest
  | str s =>
    cases h
    exact reads_str hescape s
  | bytes b => cases h
  | list vs ih =>
    obtain ⟨ts, hts, rfl⟩ := Option.map_eq_some_iff.1 h
    have hvs := isJsonList_iff.1 hv
    exact reads_list (forall₂_imp (forall₂_dumpsWithList hts) fun v hmem t ht =>
      ⟨ih v hmem (hvs v hmem) ht, opens_dumpsWith ht⟩)
  | dict items ih =>
    obtain ⟨us, hus, rfl⟩ := Option.map_eq_some_iff.1 h
    obtain ⟨hnodup, hitems⟩ := hv
    have hitems := isJsonItems_iff.1 hitems
    refine reads_dict hescape (forall₂_imp (forall₂_dumpsWithItems hus) fun p hmem u hu => ?_) hnodup
    obtain ⟨t, rfl, ht⟩ := hu
    exact ⟨t, rfl, ih p hmem (hitems p hmem) ht, opens_dumpsWith ht⟩

/-- **What was written is read back.** -/
theorem loads_dumpsWith (hescape : Escapes escape) {v : Value F} {s : Str} (hv : IsJson v) (h : dumpsWith escape v = some s) :
    loads s = some v := by
  have hreads := reads_dumpsWith hescape v hv h (2 * s.length + 1) [] (by omega) (by simp [EndsNumber])
  have hskip := skipWs_of_opens (opens_dumpsWith h) []
  rw [List.append_nil] at hreads hskip
  rw [loads, hskip, hreads]
  rfl

theorem exists_dumps (v : Value F) (hv : IsJson v) : ∃ s, dumps v = some s := by
  rw [dumps_eq]
  exact exists_dumpsWith escapeChar v hv

theorem loads_dumps {v : Value F} {s : Str} (hv : IsJson v) (h : dumps v = some s) :
    loads s = some v := by
  rw [dumps_eq] at h
  exact loads_dumpsWith escapes_escapeChar hv h

end

/-! ## Bytes -/

/-- `data.decode("utf-8")`; `none` where it raises. -/
def decodeUtf8 (data : Bytes) : Option Str := data.toByteArray.utf8Decode?.map Array.toList

theorem decodeUtf8_encode (s : Str) : decodeUtf8 (encode s) = some s := by
  have hdecode : (encode s).toByteArray.utf8Decode? = some s.toArray := List.utf8Decode?_utf8Encode
  rw [decodeUtf8, hdecode, Option.map_some, List.toList_toArray]

end PartCAD.Lib.Json
