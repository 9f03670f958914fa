import Mathlib.Data.Rat.Lemmas
import Mathlib.Algebra.Order.Field.Rat
import Mathlib.Tactic.Linarith
import Mathlib.Tactic.NormNum
import PartCAD.Lib.Decimal
import PartCAD.Package.Names

/-!
# The spelling of parameter values in names

The name of an instance is its identity, so two spellings of a value have to give one name.
`canonicalParameterValues` reads every value as the type its parameter is declared with and writes
it again.

* `strOf` : `str` writes no integer of more than 4300 digits;
* `canonicalParameterValues_iff` : **spellings of equal values, and no others, become one text**, as
  long as no integer is longer than that.
-/

namespace PartCAD.Package

open PartCAD.Lib PartCAD.Lib.Text

/-! ## Numbers -/

/-- No finite float has more digits before its point. -/
def maxFloatDigits : ℕ := 309

/-- Finite floats with the numbers that they are: only zero is there more than once, and the digits
of a whole float are read as a float of the same value. -/
class ValuedFloat (F : Type) extends PyFloat F where
  value : F → ℚ
  value_inj : ∀ x y, value x = value y → value x ≠ 0 → x = y
  value_lt : ∀ x, |value x| < 10 ^ maxFloatDigits
  ofText_whole : ∀ (x : F) (n : ℤ), value x = n → ∃ y, ofText (intText n) = some y ∧ value y = n

/-- `sys.get_int_max_str_digits()` -/
def maxStrDigits : ℕ := 4300

/-- `str` can write the integer. -/
def Writable (n : ℤ) : Prop := n.natAbs < 10 ^ maxStrDigits

instance (n : ℤ) : Decidable (Writable n) := inferInstanceAs (Decidable (_ < _))

/-- The digits of every script as those from `0` to `9`. -/
def asciiOf (t : Digits) (c : Char) : Char :=
  match t.value c with
  | some d => Nat.digitChar d
  | none => c

section

variable {F : Type}

mutual

/-- `str` can write all the integers in a value. -/
def allWritable : Value F → Bool
  | .int n => Writable n
  | .list vs => allWritableList vs
  | .dict items => allWritableItems items
  | _ => true

def allWritableList : List (Value F) → Bool
  | [] => true
  | v :: vs => allWritable v && allWritableList vs

def allWritableItems : List (Str × Value F) → Bool
  | [] => true
  | p :: items => allWritable p.2 && allWritableItems items

end

end

/-! ## The functions -/

section

variable {F : Type} [ValuedFloat F] (t : Digits) (printable : Char → Bool)

/-- `str(value)`, when it does not raise. -/
def strOf (v : Value F) : Option Str := if allWritable v then some (strText printable v) else none

/-- What `coerce_parameter_value` gives, when it does not raise. -/
def coerced (paramType : Option ParamType) (paramValue : Value F) (paramName objectName : Str) :
    Option (Value F) :=
  match paramType with
  | some .string => (strOf printable paramValue).map .str
  | some .int =>
    (strOf printable paramValue).bind fun s =>
      -- digits of every script are read
      (coerceParameterValue printable (some .int) (.str (s.map (asciiOf t)) : Value F) paramName objectName).toOption
  | type => (coerceParameterValue printable type paramValue paramName objectName).toOption

/-- The types by their names. -/
def typeNamed : Value F → Option ParamType
  | .str s =>
    if s = "string".toList then some .string
    else if s = "int".toList then some .int
    else if s = "float".toList then some .float
    else if s = "bool".toList then some .bool
    else if s = "array".toList then some .array
    else none
  | _ => none

def declaredParameterType : Value F → Option ParamType
  | .dict items => typeNamed ((lookupItem "type".toList items).getD (.str "float".toList))
  | .bool _ => some .bool
  | .str _ => some .string
  | .float _ => some .float
  | .int _ => some .int
  | .list _ => some .array
  | .none | .bytes _ => none

/-- `none` stands for a `ValueError`. -/
def formatValue : Value F → Option Str
  | .bool b => some (if b then "true".toList else "false".toList)
  | .float x =>
    if (ValuedFloat.value x).den = 1 then strOf printable (.int (ValuedFloat.value x).num : Value F)
    else some (PyFloat.repr x)
  | v => strOf printable v

/-- One value for `canonicalParameterValues`. -/
def canonicalParameterValue (parameters : Dict Str (Value F)) (objectName paramName : Str)
    (paramValue : Value F) : Option (Value F) :=
  match parameters.get? paramName with
  | none | some .none => some paramValue
  | some declaration =>
    match coerced t printable (declaredParameterType declaration) paramValue paramName objectName with
    | none => some paramValue
    -- out of reach of the `except`
    | some value => (formatValue printable value).map .str

def canonicalParameterValues (parameters values : Dict Str (Value F)) (objectName : Str) :
    Option (Dict Str (Value F)) :=
  values.items.foldlM (fun canonical p =>
    (canonicalParameterValue t printable parameters objectName p.1 p.2).map (canonical.set p.1)) Dict.empty

end

/-! ## Equal values -/

section

variable {F : Type} [ValuedFloat F]

/-- Python's `==`, between values of one type: floats are compared as numbers. -/
def Equal : Value F → Value F → Prop
  | .float x, .float y => ValuedFloat.value x = ValuedFloat.value y
  | v, w => v = w

theorem equal_iff {v w : Value F} : Equal v w ↔
    v = w ∨ ∃ x y, v = .float x ∧ w = .float y ∧ ValuedFloat.value x = ValuedFloat.value y := by
  unfold Equal
  split
  · rename_i x y
    constructor
    · exact fun h => Or.inr ⟨x, y, rfl, rfl, h⟩
    · rintro (h | ⟨_, _, ⟨⟩, ⟨⟩, h⟩)
      · rw [Value.float.inj h]
      · exact h
  · rename_i hfloats
    constructor
    · exact Or.inl
    · rintro (h | ⟨x, y, hv, hw, -⟩)
      · exact h
      · exact absurd hw (hfloats x y hv)

theorem Equal.refl (v : Value F) : Equal v v := equal_iff.2 (Or.inl rfl)

theorem Equal.symm {v w : Value F} (h : Equal v w) : Equal w v := by
  rcases equal_iff.1 h with rfl | ⟨x, y, rfl, rfl, hxy⟩
  · exact Equal.refl v
  · exact equal_iff.2 (Or.inr ⟨y, x, rfl, rfl, hxy.symm⟩)

theorem Equal.trans {u v w : Value F} (h : Equal u v) (h' : Equal v w) : Equal u w := by
  rcases equal_iff.1 h with rfl | ⟨x, y, rfl, rfl, hxy⟩
  · exact h'
  · rcases equal_iff.1 h' with rfl | ⟨y', z, hy, rfl, hyz⟩
    · exact h
    · obtain rfl := Value.float.inj hy
      exact equal_iff.2 (Or.inr ⟨x, z, rfl, rfl, hxy.trans hyz⟩)

end

/-! ## Writing a value and reading it again -/

section

variable {F : Type} [ValuedFloat F] {t : Digits} {printable : Char → Bool}

/-- A type that every value has one text of. -/
def Plain (type : Option ParamType) : Prop :=
  type = some .string ∨ type = some .int ∨ type = some .float ∨ type = some .bool

theorem asciiOf_of_isDigit {c : Char} (h : c.isDigit) : asciiOf t c = c := by
  unfold asciiOf
  rw [t.ascii c h]
  obtain ⟨h48, h57⟩ : 48 ≤ c.toNat ∧ c.toNat ≤ 57 := by
    simpa [Char.isDigit, UInt32.le_iff_toNat_le] using h
  apply Char.toNat_inj.1
  rw [Nat.toNat_digitChar_of_lt_ten (by omega)]
  omega

theorem map_asciiOf_intText (n : ℤ) : (intText n).map (asciiOf t) = intText n := by
  have hdigits : ∀ k : ℕ, (Nat.toDigits 10 k).map (asciiOf t) = Nat.toDigits 10 k := by
    intro k
    refine (List.map_congr_left fun c hc => ?_).trans (List.map_id _)
    exact asciiOf_of_isDigit (isDigit_of_mem_toDigits hc)
  have hminus : asciiOf t '-' = '-' := by
    unfold asciiOf
    rw [t.latin '-' (by decide) (by decide)]
  cases n with
  | ofNat k => exact hdigits k
  | negSucc k =>
    rw [intText, List.map_cons, hminus, hdigits]

/-- What is read has the declared type. -/
theorem hasType_of_coerced {type : Option ParamType} (htype : Plain type) {v x : Value F} {n o : Str}
    (h : coerced t printable type v n o = some x) : HasType type x := by
  rcases htype with rfl | rfl | rfl | rfl
  · obtain ⟨s, -, rfl⟩ := Option.map_eq_some_iff.1 h
    trivial
  · obtain ⟨s, -, h⟩ := Option.bind_eq_some_iff.1 h
    unfold coerceParameterValue at h
    dsimp only at h
    split at h
    · cases h
    · split at h
      · cases h
      · cases h
        trivial
  · unfold coerced coerceParameterValue at h
    dsimp only at h
    split at h
    · cases h
    · cases h
      trivial
  · unfold coerced coerceParameterValue at h
    dsimp only at h
    split at h
    · cases h
      trivial
    · cases h
      trivial

theorem strOf_int (n : ℤ) :
    strOf printable (.int n : Value F) = if Writable n then some (intText n) else none := by
  simp [strOf, allWritable, strText_int]

/-- No float has an integer that is too long to write. -/
theorem writable_num (x : F) (h : (ValuedFloat.value x).den = 1) : Writable (ValuedFloat.value x).num := by
  have hlt := ValuedFloat.value_lt x
  rw [← Rat.coe_int_num_of_den_eq_one h, ← Int.cast_abs, Int.abs_eq_natAbs] at hlt
  have hnum : (ValuedFloat.value x).num.natAbs < 10 ^ maxFloatDigits := by exact_mod_cast hlt
  exact lt_of_lt_of_le hnum (Nat.pow_le_pow_right (by decide) (by decide))

/-- **Only an integer can be too long to write.** -/
theorem formatValue_isSome {type : Option ParamType} (htype : Plain type) {x : Value F}
    (hx : HasType type x) : (formatValue printable x).isSome ↔ ∀ k, x = .int k → Writable k := by
  cases x with
  | int k =>
    simp only [formatValue, strOf_int]
    split
    · rename_i hk
      simpa using hk
    · rename_i hk
      simpa using hk
  | float x =>
    simp only [formatValue, strOf_int]
    split
    · rename_i hint
      simp [writable_num x hint]
    · simp
  | bool b => simp [formatValue]
  | str s => simp [formatValue, strOf, allWritable]
  | list vs => rcases htype with rfl | rfl | rfl | rfl <;> exact absurd hx id
  | none => rcases htype with rfl | rfl | rfl | rfl <;> exact absurd hx id
  | bytes b => rcases htype with rfl | rfl | rfl | rfl <;> exact absurd hx id
  | dict items => rcases htype with rfl | rfl | rfl | rfl <;> exact absurd hx id

/-- Equal values are written alike. -/
theorem formatValue_congr {v w : Value F} (h : Equal v w) : formatValue printable v = formatValue printable w := by
  rcases equal_iff.1 h with rfl | ⟨x, y, rfl, rfl, hxy⟩
  · rfl
  by_cases hint : (ValuedFloat.value x).den = 1
  · simp only [formatValue, ← hxy, hint, if_true]
  · -- only zero is there more than once, and it is whole
    have hne : ValuedFloat.value x ≠ 0 := by
      intro hzero
      rw [hzero] at hint
      exact hint rfl
    rw [ValuedFloat.value_inj x y hxy hne]

/-- **The text of a value is read as an equal value.** -/
theorem coerced_formatValue {type : Option ParamType} (htype : Plain type) {x : Value F}
    (hx : HasType type x) {a : Str} (ha : formatValue printable x = some a) (n o : Str) :
    ∃ z, coerced t printable type (.str a : Value F) n o = some z ∧ Equal z x := by
  unfold HasType at hx
  split at hx
  · rename_i s
    obtain rfl : s = a := Option.some.inj ha
    exact ⟨.str s, rfl, Equal.refl _⟩
  · rename_i k
    simp only [formatValue, strOf_int] at ha
    split at ha
    · cases ha
      refine ⟨.int k, ?_, Equal.refl _⟩
      have hread := coerceParameterValue_strText printable (show HasType (some .int) (.int k : Value F) from trivial)
        (by simp) n o
      rw [strText_int] at hread
      simp only [coerced, strOf, allWritable, if_true, Option.bind_some, strText_str, map_asciiOf_intText, hread]
      rfl
    · cases ha
  · rename_i x
    simp only [formatValue, strOf_int] at ha
    split at ha
    · rename_i hint
      rw [if_pos (writable_num x hint)] at ha
      cases ha
      obtain ⟨y, hy, hvalue⟩ := ValuedFloat.ofText_whole x _ (Rat.coe_int_num_of_den_eq_one hint).symm
      refine ⟨.float y, ?_, ?_⟩
      · simp [coerced, coerceParameterValue, floatOf, hy, Except.toOption]
      · exact hvalue.trans (Rat.coe_int_num_of_den_eq_one hint)
    · cases ha
      refine ⟨.float x, ?_, Equal.refl _⟩
      simp [coerced, coerceParameterValue, floatOf, PyFloat.ofText_repr, Except.toOption]
  · rename_i b
    refine ⟨.bool b, ?_, Equal.refl _⟩
    cases b with
    | false =>
      cases ha
      rfl
    | true =>
      cases ha
      rfl
  · rcases htype with h | h | h | h <;> cases h
  · exact absurd hx id

end

/-! ## Canonical values -/

section

variable {F : Type} [ValuedFloat F] (t : Digits) (printable : Char → Bool)

/-- The value of a parameter, one of a plain type, is read as `x`. -/
def Reads (parameters values : Dict Str (Value F)) (objectName n : Str) (x : Value F) : Prop :=
  ∃ declaration v, parameters.get? n = some declaration ∧ Plain (declaredParameterType declaration) ∧
    values.get? n = some v ∧
    coerced t printable (declaredParameterType declaration) v n objectName = some x

/-- Both are written, spellings of equal values alike and others not; the texts are read as the
values that they stand for, and they are canonical. -/
def Agree (parameters values values' : Dict Str (Value F)) (objectName : Str) : Prop :=
  ∃ texts texts', canonicalParameterValues t printable parameters values objectName = some texts ∧
    canonicalParameterValues t printable parameters values' objectName = some texts' ∧
    (∀ n x y, Reads t printable parameters values objectName n x →
      Reads t printable parameters values' objectName n y →
      ∃ a b, texts.get? n = some (.str a) ∧ texts'.get? n = some (.str b) ∧ (a = b ↔ Equal x y)) ∧
    (∀ n x, Reads t printable parameters values objectName n x →
      ∃ z, Reads t printable parameters texts objectName n z ∧ Equal z x) ∧
    canonicalParameterValues t printable parameters texts objectName = some texts

variable {t} {printable} {parameters values values' texts : Dict Str (Value F)} {objectName n : Str} {x : Value F}

/-- What is read is written. -/
theorem canonicalParameterValue_of_reads (hx : Reads t printable parameters values objectName n x) {v : Value F}
    (hv : values.get? n = some v) :
    canonicalParameterValue t printable parameters objectName n v = (formatValue printable x).map .str := by
  obtain ⟨declaration, w, hdecl, hplain, hw, hread⟩ := hx
  obtain rfl : w = v := Option.some.inj (hw.symm.trans hv)
  unfold canonicalParameterValue
  rw [hdecl]
  cases declaration with
  | none => rcases hplain with h | h | h | h <;> cases h
  | _ => simp only [hread]

theorem canonicalParameterValues_isSome
    (hvalues : ∀ n ∈ values.keys, ∃ x, Reads t printable parameters values objectName n x) :
    (canonicalParameterValues t printable parameters values objectName).isSome ↔
      ∀ n x, Reads t printable parameters values objectName n x → ∀ k, x = .int k → Writable k := by
  have hone : ∀ n x, Reads t printable parameters values objectName n x → ∀ v, values.get? n = some v →
      ((canonicalParameterValue t printable parameters objectName n v).isSome ↔ ∀ k, x = .int k → Writable k) := by
    intro n x hx v hv
    rw [canonicalParameterValue_of_reads hx hv, Option.isSome_map]
    obtain ⟨declaration, w, -, hplain, -, hread⟩ := hx
    exact formatValue_isSome hplain (hasType_of_coerced hplain hread)
  unfold canonicalParameterValues
  rw [Dict.isSome_foldlM_set]
  constructor
  · intro h n x hx
    obtain ⟨declaration, v, -, -, hv, -⟩ := id hx
    exact (hone n x hx v hv).1 (h (n, v) (Dict.get?_eq_some.1 hv))
  · rintro h ⟨n, v⟩ hmem
    obtain ⟨x, hx⟩ := hvalues n (Dict.mem_keys.2 ⟨v, hmem⟩)
    exact (hone n x hx v (Dict.get?_eq_some.2 hmem)).2 (h n x hx)

/-- The text of a parameter is that of the value it is read as, and it is read as an equal one. -/
theorem reads_text (htexts : canonicalParameterValues t printable parameters values objectName = some texts)
    (hx : Reads t printable parameters values objectName n x) :
    ∃ a, formatValue printable x = some a ∧ texts.get? n = some (.str a) ∧
      ∃ z, Reads t printable parameters texts objectName n z ∧ Equal z x := by
  obtain ⟨declaration, v, hdecl, hplain, hv, hread⟩ := id hx
  have hsome := (Dict.isSome_foldlM_set values.items Dict.empty).1 (Option.isSome_iff_exists.2 ⟨texts, htexts⟩)
    (n, v) (Dict.get?_eq_some.1 hv)
  have hget := Dict.get?_of_foldlM_set htexts n
  rw [hv, Option.bind_some, canonicalParameterValue_of_reads hx hv] at hget
  rw [canonicalParameterValue_of_reads hx hv, Option.isSome_map] at hsome
  obtain ⟨a, ha⟩ := Option.isSome_iff_exists.1 hsome
  rw [ha] at hget
  obtain ⟨z, hz, heq⟩ := coerced_formatValue (t := t) hplain (hasType_of_coerced hplain hread) ha n objectName
  exact ⟨a, ha, hget, z, ⟨declaration, .str a, hdecl, hplain, hget, hz⟩, heq⟩

/-- **Texts are canonical.** -/
theorem canonicalParameterValues_again
    (hvalues : ∀ n ∈ values.keys, ∃ x, Reads t printable parameters values objectName n x)
    (htexts : canonicalParameterValues t printable parameters values objectName = some texts) :
    canonicalParameterValues t printable parameters texts objectName = some texts := by
  refine Dict.foldlM_set_iff.2 (List.forall₂_same.2 ?_)
  rintro ⟨n, w⟩ hmem
  have hw := Dict.get?_eq_some.2 hmem
  have hget := Dict.get?_of_foldlM_set htexts n
  obtain ⟨v, hv, -⟩ := Option.bind_eq_some_iff.1 (hget.symm.trans hw)
  obtain ⟨x, hx⟩ := hvalues n (Dict.mem_keys.2 ⟨v, Dict.get?_eq_some.1 hv⟩)
  obtain ⟨a, ha, htext, z, hz, heq⟩ := reads_text htexts hx
  obtain rfl : w = .str a := Option.some.inj (hw.symm.trans htext)
  refine ⟨rfl, ?_⟩
  rw [canonicalParameterValue_of_reads hz hw, formatValue_congr heq, ha]
  rfl

/-- **Spellings of equal values, and no others, become one text**, which is read as that value and
is canonical, as long as `str` can write every integer that is read. -/
theorem canonicalParameterValues_iff
    (hvalues : ∀ n ∈ values.keys, ∃ x, Reads t printable parameters values objectName n x)
    (hvalues' : ∀ n ∈ values'.keys, ∃ x, Reads t printable parameters values' objectName n x) :
    Agree t printable parameters values values' objectName ↔
      ∀ n x, Reads t printable parameters values objectName n x ∨
        Reads t printable parameters values' objectName n x → ∀ k, x = .int k → Writable k := by
  constructor
  · rintro ⟨texts, texts', htexts, htexts', -⟩ n x hx
    rcases hx with hx | hx
    · exact (canonicalParameterValues_isSome hvalues).1 (Option.isSome_iff_exists.2 ⟨texts, htexts⟩) n x hx
    · exact (canonicalParameterValues_isSome hvalues').1 (Option.isSome_iff_exists.2 ⟨texts', htexts'⟩) n x hx
  · intro h
    obtain ⟨texts, htexts⟩ := Option.isSome_iff_exists.1
      ((canonicalParameterValues_isSome hvalues).2 fun n x hx => h n x (Or.inl hx))
    obtain ⟨texts', htexts'⟩ := Option.isSome_iff_exists.1
      ((canonicalParameterValues_isSome hvalues').2 fun n x hx => h n x (Or.inr hx))
    refine ⟨texts, texts', htexts, htexts', ?_, ?_, canonicalParameterValues_again hvalues htexts⟩
    · intro n x y hx hy
      obtain ⟨a, ha, htext, z, hz, hzx⟩ := reads_text htexts hx
      obtain ⟨b, hb, htext', z', hz', hzy⟩ := reads_text htexts' hy
      refine ⟨a, b, htext, htext', ?_, ?_⟩
      · -- one text is read as one value
        rintro rfl
        obtain ⟨declaration, v, hdecl, -, hv, hread⟩ := hz
        obtain ⟨declaration', v', hdecl', -, hv', hread'⟩ := hz'
        obtain rfl : declaration = declaration' := Option.some.inj (hdecl.symm.trans hdecl')
        rw [← Option.some.inj (htext.symm.trans hv)] at hread
        rw [← Option.some.inj (htext'.symm.trans hv')] at hread'
        rw [← Option.some.inj (hread.symm.trans hread')] at hzy
        exact hzx.symm.trans hzy
      · intro heq
        rw [formatValue_congr heq, hb] at ha
        exact (Option.some.inj ha).symm
    · intro n x hx
      obtain ⟨-, -, -, z, hz, heq⟩ := reads_text htexts hx
      exact ⟨z, hz, heq⟩

end

/-! ## Two sets of parameters -/

/-- The floats 0.5 and 1.0. -/
inductive HalfFloat where
  | half
  | one

def HalfFloat.toRat : HalfFloat → ℚ
  | .half => 1 / 2
  | .one => 1

instance : ValuedFloat HalfFloat where
  repr
    | .half => "0.5".toList
    | .one => "1.0".toList
  ofText s :=
    if s = "0.5".toList then some .half
    else if s = "1.0".toList ∨ s = "1".toList then some .one
    else none
  ofInt n := if n = 1 then some .one else none
  isZero _ := false
  ofText_repr x := by cases x <;> rfl
  isFloatText_repr x := by
    have hdigit : ∀ c : Char, c.isDigit → IsDigits [c] := fun c hc => ⟨by simp, by simpa using hc⟩
    cases x with
    | half =>
      exact ⟨[], ['0'], ".5".toList, [], rfl, Or.inl rfl, ⟨hdigit '0' rfl, Or.inl rfl⟩,
        Or.inr ⟨['5'], hdigit '5' rfl, rfl⟩, Or.inl rfl, Or.inl (by simp)⟩
    | one =>
      exact ⟨[], ['1'], ".0".toList, [], rfl, Or.inl rfl, ⟨hdigit '1' rfl, Or.inr (by decide)⟩,
        Or.inr ⟨['0'], hdigit '0' rfl, rfl⟩, Or.inl rfl, Or.inl (by simp)⟩
  value := HalfFloat.toRat
  value_inj x y h _ := by
    cases x <;> cases y <;> first | rfl | norm_num [HalfFloat.toRat] at h
  value_lt x := by
    have hpow : (1 : ℚ) < 10 ^ maxFloatDigits := one_lt_pow₀ (by norm_num) (by decide)
    refine lt_of_le_of_lt (abs_le.2 ?_) hpow
    cases x <;> norm_num [HalfFloat.toRat]
  ofText_whole x n h := by
    cases x with
    | half =>
      have hq : (1 : ℚ) = 2 * n := by
        rw [← h, HalfFloat.toRat]
        norm_num
      have hn : (1 : ℤ) = 2 * n := by exact_mod_cast hq
      omega
    | one =>
      obtain rfl : n = 1 := by
        rw [HalfFloat.toRat] at h
        exact_mod_cast h.symm
      exact ⟨.one, rfl, rfl⟩

/-- An integer in its short form, a float written out, and a flag. -/
def screwParameters : Dict Str (Value HalfFloat) :=
  Dict.ofPairs [("count".toList, .int 4), ("size".toList, .dict [("type".toList, .str "float".toList)]),
    ("left".toList, .bool false)]

def spellings (count size left : Str) : Dict Str (Value HalfFloat) :=
  Dict.ofPairs [("count".toList, .str count), ("size".toList, .str size), ("left".toList, .str left)]

section

variable {count size left : Str} {k : ℤ} {x : HalfFloat} {b : Bool}
  (hcount : coerced asciiDigits (fun _ => true) (some .int) (.str count) "count".toList "screw".toList =
    some (.int k : Value HalfFloat))
  (hsize : coerced asciiDigits (fun _ => true) (some .float) (.str size) "size".toList "screw".toList =
    some (.float x : Value HalfFloat))
  (hleft : coerced asciiDigits (fun _ => true) (some .bool) (.str left) "left".toList "screw".toList =
    some (.bool b : Value HalfFloat))

include hcount hsize hleft

theorem reads_spellings : ∀ n ∈ (spellings count size left).keys,
    ∃ y, Reads asciiDigits (fun _ => true) screwParameters (spellings count size left) "screw".toList n y := by
  intro n hn
  have hn : n ∈ ["count".toList, "size".toList, "left".toList] := hn
  simp only [List.mem_cons, List.not_mem_nil, or_false] at hn
  rcases hn with rfl | rfl | rfl
  · exact ⟨.int k, .int 4, .str count, rfl, Or.inr (Or.inl rfl), rfl, hcount⟩
  · exact ⟨.float x, .dict [("type".toList, .str "float".toList)], .str size, rfl,
      Or.inr (Or.inr (Or.inl rfl)), rfl, hsize⟩
  · exact ⟨.bool b, .bool false, .str left, rfl, Or.inr (Or.inr (Or.inr rfl)), rfl, hleft⟩

theorem eq_of_reads_spellings {n : Str} {y : Value HalfFloat}
    (hy : Reads asciiDigits (fun _ => true) screwParameters (spellings count size left) "screw".toList n y) :
    y = .int k ∨ y = .float x ∨ y = .bool b := by
  obtain ⟨declaration, v, hdecl, -, hv, hread⟩ := hy
  have hn : n ∈ ["count".toList, "size".toList, "left".toList] :=
    Dict.mem_keys.2 ⟨v, Dict.get?_eq_some.1 hv⟩
  simp only [List.mem_cons, List.not_mem_nil, or_false] at hn
  rcases hn with rfl | rfl | rfl
  · cases hdecl
    cases hv
    exact Or.inl (Option.some.inj (hread.symm.trans hcount))
  · cases hdecl
    cases hv
    exact Or.inr (Or.inl (Option.some.inj (hread.symm.trans hsize)))
  · cases hdecl
    cases hv
    exact Or.inr (Or.inr (Option.some.inj (hread.symm.trans hleft)))

end

/-- `4` and `4.0`, `1` and `1.0`, `true` and `True`. -/
theorem spellings_agree : Agree asciiDigits (fun _ => true) screwParameters
    (spellings "4".toList "1".toList "true".toList) (spellings "4.0".toList "1.0".toList "True".toList)
    "screw".toList := by
  refine (canonicalParameterValues_iff
    (@reads_spellings _ _ _ 4 .one true (by rfl) (by rfl) (by rfl))
    (@reads_spellings _ _ _ 4 .one true (by rfl) (by rfl) (by rfl))).2 ?_
  rintro n y hy m rfl
  have hfour : (Value.int m : Value HalfFloat) = Value.int 4 ∨ Value.int m = Value.float HalfFloat.one ∨
      (Value.int m : Value HalfFloat) = Value.bool true := by
    rcases hy with hy | hy
    · exact @eq_of_reads_spellings _ _ _ 4 .one true (by rfl) (by rfl) (by rfl) n _ hy
    · exact @eq_of_reads_spellings _ _ _ 4 .one true (by rfl) (by rfl) (by rfl) n _ hy
  rcases hfour with h | h | h
  · cases h
    exact lt_of_lt_of_le (by decide : (4 : ℤ).natAbs < 10 ^ 1) (Nat.pow_le_pow_right (by decide) (by decide))
  · cases h
  · cases h

theorem coerced_long : coerced asciiDigits (fun _ => true) (some .int) (.str "1e4300".toList : Value HalfFloat)
    "count".toList "screw".toList = some (.int ((1 * 10 ^ maxStrDigits : ℕ) : ℤ)) := by
  have hread : decimalOf "1e4300".toList = some (false, 1, .ofNat maxStrDigits) := by decide
  have hascii : "1e4300".toList.map (asciiOf asciiDigits) = "1e4300".toList := by decide
  -- the exponent is kept a variable: the power is never worked out
  generalize maxStrDigits = e at hread ⊢
  simp only [coerced, strOf, allWritable, if_true, Option.bind_some, strText_str, hascii, coerceParameterValue,
    hread, toIntegral]
  rfl

theorem not_writable : ¬ Writable ((1 * 10 ^ maxStrDigits : ℕ) : ℤ) := by
  unfold Writable
  generalize maxStrDigits = e
  simp

/-- The integer `1e4300` is read, and cannot be written. -/
theorem spellings_raise :
    (∀ n ∈ (spellings "1e4300".toList "1".toList "true".toList).keys, ∃ y, Reads asciiDigits (fun _ => true)
      screwParameters (spellings "1e4300".toList "1".toList "true".toList) "screw".toList n y) ∧
    ¬ Agree asciiDigits (fun _ => true) screwParameters (spellings "1e4300".toList "1".toList "true".toList)
      (spellings "1e4300".toList "1".toList "true".toList) "screw".toList := by
  have hreads := @reads_spellings _ "1".toList "true".toList _ .one true coerced_long (by rfl) (by rfl)
  refine ⟨hreads, ?_⟩
  rintro ⟨texts, -, htexts, -⟩
  have hwritable := (canonicalParameterValues_isSome hreads).1 (Option.isSome_iff_exists.2 ⟨texts, htexts⟩)
    "count".toList _ ⟨.int 4, .str "1e4300".toList, rfl, Or.inr (Or.inl rfl), rfl, coerced_long⟩ _ rfl
  exact not_writable hwritable

end PartCAD.Package
