import Mathlib.Data.Finset.Card
import PartCAD.Lib.Bytes
import PartCAD.Lib.Dict

/-!
# What a BREP payload is made of

The topology section of a payload in ASCII lists the records of a shape.  It is read line by line; of a
record, only its kind and the line that it ends with are looked at.

* `topology` : what is reported of a payload;
* `references` : the records that a line refers to.
-/

namespace PartCAD.Brep

open PartCAD.Lib PartCAD.Lib.Text

/-! ## Lines -/

/-- White space, in bytes. -/
def white (c : Char) : Bool := c = ' ' ∨ (9 ≤ c.toNat ∧ c.toNat ≤ 13)

/-- `b.strip()` -/
def strip (b : Str) : Str := (b.dropWhile white).rdropWhile white

/-- `_line`: the line, stripped, and what comes behind it. -/
def line (data : Str) : Option (Str × Str) :=
  if data = [] then none
  else some (strip (data.takeWhile (· ≠ '\n')), (data.dropWhile (· ≠ '\n')).drop 1)

theorem length_of_line {data l rest : Str} (h : line data = some (l, rest)) : rest.length < data.length := by
  rw [line] at h
  split at h
  · cases h
  · next hne =>
    obtain ⟨-, rfl⟩ := Prod.mk.inj (Option.some.inj h)
    have hpos := List.length_pos_iff.mpr hne
    have hle := (List.dropWhile_sublist (l := data) (· ≠ '\n')).length_le
    rw [List.length_drop]
    omega

/-- The lines that `_line` gives, one after the other. -/
def lines (data : Str) : List Str :=
  match _hline : line data with
  | none => []
  | some (l, rest) => l :: lines rest
termination_by data.length
decreasing_by exact length_of_line _hline

/-! ## Records -/

/-- `SHAPE_TYPES` -/
inductive Kind
  | vertex
  | edge
  | wire
  | face
  | shell
  | solid
  | compsolid
  | compound
  deriving DecidableEq, Repr

namespace Kind

def all : List Kind := [vertex, edge, wire, face, shell, solid, compsolid, compound]

def code : Kind → Str
  | vertex => "Ve".toList
  | edge => "Ed".toList
  | wire => "Wi".toList
  | face => "Fa".toList
  | shell => "Sh".toList
  | solid => "So".toList
  | compsolid => "CS".toList
  | compound => "Co".toList

/-- The kind that a line names. -/
def ofCode (l : Str) : Option Kind := all.find? fun kind => kind.code = l

end Kind

/-- `line.endswith(b"*")` -/
def Closes (l : Str) : Prop := l.getLast? = some '*'

instance (l : Str) : Decidable (Closes l) := inferInstanceAs (Decidable (_ = _))

/-- The line on which the sub-shapes of a record end, and the lines behind it. -/
def closing : List Str → Option (Str × List Str)
  | [] => none
  | l :: ls => if Closes l then some (l, ls) else closing ls

/-- The records, each with its kind and the line that it ends with; `none` where an error is raised. -/
def records : ℕ → List Str → Option (List (Kind × Str))
  | 0, _ => some []
  | n + 1, ls =>
    match ls.dropWhile (· = []) with
    | [] => none
    | l :: ls =>
      (Kind.ofCode l).bind fun kind =>
        (closing ls).bind fun (references, ls) =>
          (records n ls).map ((kind, references) :: ·)

/-- `_TSHAPES` -/
def tshapes : Str := "TShapes ".toList

/-- `_section_start`: the payload from there on.  The flag says that a line starts here. -/
def sectionStart : Bool → Str → Option Str
  | _, [] => none
  | starts, c :: data =>
    if starts && startswith (c :: data) tshapes then some (c :: data)
    else sectionStart (c = '\n') data

/-! ## References -/

/-- `_REFERENCE.findall(references)` -/
def findReferences : Str → List Str
  | [] => []
  | c :: s =>
    if (c = '+' ∨ c = '-') ∧ s.takeWhile Char.isDigit ≠ [] then
      (c :: s.takeWhile Char.isDigit) :: findReferences (s.dropWhile Char.isDigit)
    else findReferences s
termination_by s => s.length
decreasing_by
  · have hle := (List.dropWhile_sublist (l := s) Char.isDigit).length_le
    simp only [List.length_cons]
    omega
  · simp

/-- `abs(int(token))` of each of them. -/
def references (l : Str) : List ℕ := (findReferences l).map fun token => ((Bytes.parseInt token).getD 0).natAbs

/-! ## The topology -/

structure Topology where
  counts : Dict Kind ℕ
  root : Option Kind
  freeShells : ℕ

namespace Topology

/-- `count` -/
def count (t : Topology) (kind : Kind) : ℕ := (t.counts.get? kind).getD 0

end Topology

/-- What is known after some of the records: the counts, the last kind, and what bounds a solid. -/
structure Seen where
  counts : Dict Kind ℕ
  root : Option Kind
  bounding : Finset ℕ

def Seen.record (seen : Seen) (record : Kind × Str) : Seen where
  counts := seen.counts.set record.1 ((seen.counts.get? record.1).getD 0 + 1)
  root := some record.1
  bounding := if record.1 = .solid then seen.bounding ∪ (references record.2).toFinset else seen.bounding

/-- `_MAGIC`, within the first bytes. -/
def looksLikeBrep (data : Str) : Bool :=
  ["CASCADE Topology".toList, "DBRep_DrawableShape".toList].any fun marker =>
    (data.take 128).tails.any fun s => startswith s marker

/-- `_records` -/
def readRecords (data : Str) : Option (List (Kind × Str)) :=
  (sectionStart true data).bind fun data =>
    match lines data with
    | [] => none
    | header :: ls => (Bytes.parseInt (header.drop tshapes.length)).bind fun count => records count.toNat ls

/-- `topology`, from the plain bytes on. -/
def topology (data : Str) : Option Topology :=
  if looksLikeBrep data then
    (readRecords data).map fun rs =>
      let seen := rs.foldl Seen.record ⟨Dict.empty, none, ∅⟩
      { counts := seen.counts
        root := seen.root
        freeShells := (seen.counts.get? .shell).getD 0 - seen.bounding.card }
  else none

end PartCAD.Brep
