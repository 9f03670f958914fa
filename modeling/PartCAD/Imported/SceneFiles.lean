import PartCAD.Imported.Registry
import PartCAD.Lib.Copies

/-!
# Converting a scene to ASSY

Each shape that the file of a scene places is copied next to the package and declared as a part, under a
file name that is made of the name of its node.  A file that several shapes are read from is copied once,
for the first of them.

* `fileToAssy` : the conversion;
* `entered`, `copies` : the nodes that are declared, and those whose files are copied;
* `fileToAssy_spec` : what is declared and copied.
-/

namespace PartCAD.Imported

open PartCAD.Lib PartCAD.Lib.Text

section

variable {F : Type}

/-! ## Names of files -/

/-- `_safe_stem` -/
def safeStem (name : Str) : Str :=
  let stem := name.map fun c => if c = '/' ∨ c = '\\' then '_' else c
  if stem = [] then "shape".toList else stem

/-- `Path(path).suffix`: from the last dot of the name of the file, where there is something on either
side of it. -/
def suffix (path : Str) : Str :=
  let name := (split '/' path).getLast (split_ne_nil '/' path)
  let extension := name.reverse.takeWhile fun c => c ≠ '.'
  let stem := (name.reverse.dropWhile fun c => c ≠ '.').tail
  if extension = [] ∨ stem = [] then [] else '.' :: extension.reverse

variable (sceneName : Str)

/-- `relative` in `part_entry`. -/
def relativeFile (node : ShapeNode F) : Str :=
  sceneName ++ '/' :: (safeStem node.name ++ suffix node.partFile)

/-! ## The conversion -/

/-- A node of the arrangement that is written: a part by its name, or a group. -/
inductive Placed where
  | part (name : Str)
  | assembly (links : List Placed)

/-- The parts that are declared, the files that are copied, by where they are and what they are copied
to, and what stands in the files. -/
structure Conversion (F P B : Type) where
  parts : Dict Str (PartConfig F)
  copied : Dict P Str
  contents : P → Option B

variable {P B : Type} [DecidableEq P]

/-- Where a path leads: that of a file, and one within the folder that is written to. -/
structure Disk (P : Type) where
  source : Str → P
  target : Str → P

variable (disk : Disk P)

/-- The entry of a part in the package. -/
def entryFor (node : ShapeNode F) (relative : Str) : PartConfig F where
  type := node.partType
  path := relative
  scale := declaredScale node
  properties := (nodeProperties node).section

/-- `part_entry` -/
def partEntry (node : ShapeNode F) (c : Conversion F P B) : Option (Str × Conversion F P B) :=
  let name := partName sceneName node.name
  if (c.parts.get? name).isSome then some (name, c)
  else
    let source := disk.source node.partFile
    let relative := relativeFile sceneName node
    match c.copied.get? source with
    | some already => some (name, { c with parts := c.parts.set name (entryFor node already) })
    | none =>
      (copy (source, disk.target relative) c.contents).map fun contents =>
        (name,
          { parts := c.parts.set name (entryFor node relative)
            copied := c.copied.set source relative
            contents := contents })

mutual

/-- `build` -/
def build : TreeNode F → Conversion F P B → Option (Placed × Conversion F P B)
  | .part node, c => (partEntry sceneName disk node c).map fun (name, c) => (.part name, c)
  | .assembly _ links, c => (buildAll links c).map fun (links, c) => (.assembly links, c)

def buildAll : List (TreeNode F) → Conversion F P B → Option (List Placed × Conversion F P B)
  | [], c => some ([], c)
  | node :: nodes, c =>
    (build node c).bind fun (placed, c) =>
      (buildAll nodes c).map fun (rest, c) => (placed :: rest, c)

end

/-- The entries for nodes, one after the other. -/
def entries (nodes : List (ShapeNode F)) (c : Conversion F P B) : Option (Conversion F P B) :=
  nodes.foldlM (fun c node => (partEntry sceneName disk node c).map Prod.snd) c

/-- `file_to_assy`, with what stands in the files before it. -/
def fileToAssy (tree : Tree F) (contents : P → Option B) :
    Option (List Placed × Conversion F P B) :=
  (buildAll sceneName disk tree.links ⟨Dict.empty, Dict.empty, contents⟩).bind fun (links, c) =>
    (entries sceneName disk tree.parts c).bind fun c =>
      if c.parts.items.isEmpty then none else some (links, c)

/-! ## What is declared and copied -/

omit [DecidableEq P] in
/-- The nodes that are declared: the first of each name. -/
def entered (nodes : List (ShapeNode F)) : List (ShapeNode F) := firstBy ShapeNode.name nodes

/-- Where the file of a node is. -/
def Disk.file (node : ShapeNode F) : P := disk.source node.partFile

/-- The nodes whose files are copied: the first of each file. -/
def copiers (nodes : List (ShapeNode F)) : List (ShapeNode F) :=
  firstBy disk.file (entered nodes)

/-- From where to where the file of a node is copied. -/
def copyOf (node : ShapeNode F) : P × P :=
  (disk.file node, disk.target (relativeFile sceneName node))

def copies (nodes : List (ShapeNode F)) : List (P × P) :=
  (copiers disk nodes).map (copyOf sceneName disk)

/-- The copy that stands for a file. -/
def fileFor (nodes : List (ShapeNode F)) (p : P) : Option Str :=
  ((entered nodes).find? fun node => disk.file node = p).map (relativeFile sceneName)

/-- What there is after some nodes. -/
structure Converted (contents : P → Option B) (nodes : List (ShapeNode F)) (c : Conversion F P B) :
    Prop where
  parts : ∀ name, c.parts.get? (partName sceneName name) =
    (nodes.find? fun node => node.name = name).bind fun first =>
      (fileFor sceneName disk nodes (disk.file first)).map (entryFor first)
  copied : ∀ p, c.copied.get? p = fileFor sceneName disk nodes p
  contents : copyAll (copies sceneName disk nodes) contents = some c.contents

variable {disk sceneName}

theorem find?_entered (nodes : List (ShapeNode F)) (name : Str) :
    (entered nodes).find? (fun node => node.name = name) = nodes.find? fun node => node.name = name :=
  find?_firstBy ShapeNode.name nodes name

theorem partEntry_old {c : Conversion F P B} {node : ShapeNode F} {entry : PartConfig F}
    (h : c.parts.get? (partName sceneName node.name) = some entry) :
    partEntry sceneName disk node c = some (partName sceneName node.name, c) := by
  simp only [partEntry, h, Option.isSome_some, if_true]

theorem partEntry_already {c : Conversion F P B} {node : ShapeNode F} {already : Str}
    (h : c.parts.get? (partName sceneName node.name) = none)
    (hcopied : c.copied.get? (disk.file node) = some already) :
    partEntry sceneName disk node c =
      some (partName sceneName node.name,
        { c with parts := c.parts.set (partName sceneName node.name) (entryFor node already) }) := by
  rw [Disk.file] at hcopied
  simp only [partEntry, h, hcopied, Option.isSome_none, Bool.false_eq_true, if_false]

theorem partEntry_copy {c : Conversion F P B} {node : ShapeNode F}
    (h : c.parts.get? (partName sceneName node.name) = none)
    (hcopied : c.copied.get? (disk.file node) = none) :
    partEntry sceneName disk node c =
      (copy (copyOf sceneName disk node) c.contents).map fun contents =>
        (partName sceneName node.name,
          { parts := c.parts.set (partName sceneName node.name)
              (entryFor node (relativeFile sceneName node))
            copied := c.copied.set (disk.file node) (relativeFile sceneName node)
            contents := contents }) := by
  rw [Disk.file] at hcopied
  simp only [partEntry, h, hcopied, Option.isSome_none, Bool.false_eq_true, if_false]
  rfl

/-- The file of a node that is declared has a copy. -/
theorem fileFor_isSome {nodes : List (ShapeNode F)} {first : ShapeNode F} {name : Str}
    (h : nodes.find? (fun node => node.name = name) = some first) :
    (fileFor sceneName disk nodes (disk.file first)).isSome := by
  rw [← find?_entered] at h
  obtain ⟨other, hother, -⟩ := find?_of_mem disk.file (List.mem_of_find?_eq_some h)
  rw [fileFor, hother]
  rfl

/-- One more node whose name is there. -/
theorem converted_old {contents : P → Option B} {nodes : List (ShapeNode F)} {c : Conversion F P B}
    (h : Converted sceneName disk contents nodes c) {node first : ShapeNode F}
    (hfirst : nodes.find? (fun n => n.name = node.name) = some first) :
    Converted sceneName disk contents (nodes ++ [node]) c := by
  have hentered : entered (nodes ++ [node]) = entered nodes :=
    firstBy_concat_of_some ShapeNode.name hfirst
  have hfile : fileFor sceneName disk (nodes ++ [node]) = fileFor sceneName disk nodes := by
    funext p
    rw [fileFor, hentered, fileFor]
  refine ⟨fun name => ?_, fun p => ?_, ?_⟩
  · rw [find?_concat_of_some ShapeNode.name hfirst, hfile, h.parts]
  · rw [hfile, h.copied]
  · rw [copies, copiers, hentered]
    exact h.contents

/-- One more node of a new name. -/
theorem partEntry_new {contents : P → Option B} {nodes : List (ShapeNode F)} {c : Conversion F P B}
    (h : Converted sceneName disk contents nodes c) {node : ShapeNode F}
    (hnew : nodes.find? (fun n => n.name = node.name) = none) :
    (∃ c', partEntry sceneName disk node c = some (partName sceneName node.name, c') ∧
      Converted sceneName disk contents (nodes ++ [node]) c') ∨
    (partEntry sceneName disk node c = none ∧
      copyAll (copies sceneName disk (nodes ++ [node])) contents = none) := by
  have hparts := h.parts node.name
  rw [hnew, Option.bind_none] at hparts
  have hentered : entered (nodes ++ [node]) = entered nodes ++ [node] :=
    firstBy_concat_of_none ShapeNode.name hnew
  have hfind := find?_concat_of_none ShapeNode.name hnew
  have hcopied := h.copied (disk.file node)
  cases hfile : (entered nodes).find? fun n => disk.file n = disk.file node with
  | some other =>
    rw [fileFor, hfile, Option.map_some] at hcopied
    have hsame : fileFor sceneName disk (nodes ++ [node]) = fileFor sceneName disk nodes := by
      funext p
      rw [fileFor, hentered, find?_concat_of_some disk.file hfile, fileFor]
    refine Or.inl ⟨_, partEntry_already hparts hcopied, fun name => ?_, fun p => ?_, ?_⟩
    · rw [hfind, hsame, Dict.get?_set, h.parts]
      by_cases hname : node.name = name
      · rw [if_pos (congrArg _ hname), if_pos hname, Option.bind_some, fileFor, hfile]
        rfl
      · rw [if_neg fun heq => hname (partName_injective heq), if_neg hname]
    · rw [hsame]
      exact h.copied p
    · rw [copies, copiers, hentered, firstBy_concat_of_some disk.file hfile]
      exact h.contents
  | none =>
    rw [fileFor, hfile, Option.map_none] at hcopied
    have hcopies : copies sceneName disk (nodes ++ [node]) =
        copies sceneName disk nodes ++ [copyOf sceneName disk node] := by
      rw [copies, copiers, hentered, firstBy_concat_of_none disk.file hfile, List.map_append]
      rfl
    have hfiles : ∀ p, fileFor sceneName disk (nodes ++ [node]) p =
        if disk.file node = p then some (relativeFile sceneName node)
        else fileFor sceneName disk nodes p := by
      intro p
      rw [fileFor, hentered, find?_concat_of_none disk.file hfile, fileFor]
      split <;> rfl
    rw [partEntry_copy hparts hcopied, hcopies, copyAll_concat, h.contents, Option.bind_some]
    cases hcopy : copy (copyOf sceneName disk node) c.contents with
    | none => exact Or.inr ⟨rfl, rfl⟩
    | some contents' =>
      refine Or.inl ⟨_, rfl, fun name => ?_, fun p => ?_, ?_⟩
      · rw [hfind, Dict.get?_set, h.parts]
        by_cases hname : node.name = name
        · rw [if_pos (congrArg _ hname), if_pos hname, Option.bind_some, hfiles, if_pos rfl]
          rfl
        · rw [if_neg fun heq => hname (partName_injective heq), if_neg hname]
          cases hfirst : nodes.find? fun n => n.name = name with
          | none => rfl
          | some first =>
            -- The file of a node that is declared has a copy, and that of the new node has none.
            have hother : disk.file node ≠ disk.file first := by
              intro heq
              have hsome : (fileFor sceneName disk nodes (disk.file first)).isSome :=
                fileFor_isSome hfirst
              rw [← heq, fileFor, hfile] at hsome
              cases hsome
            rw [Option.bind_some, Option.bind_some, hfiles, if_neg hother]
      · rw [hfiles, Dict.get?_set, h.copied]
      · rw [hcopies, copyAll_concat, h.contents]
        exact hcopy

/-- One more node. -/
theorem partEntry_step {contents : P → Option B} {nodes : List (ShapeNode F)} {c : Conversion F P B}
    (h : Converted sceneName disk contents nodes c) (node : ShapeNode F) :
    (∃ c', partEntry sceneName disk node c = some (partName sceneName node.name, c') ∧
      Converted sceneName disk contents (nodes ++ [node]) c') ∨
    (partEntry sceneName disk node c = none ∧
      copyAll (copies sceneName disk (nodes ++ [node])) contents = none) := by
  cases hfind : nodes.find? fun n => n.name = node.name with
  | none => exact partEntry_new h hfind
  | some first =>
    have hparts := h.parts node.name
    have hsome : (fileFor sceneName disk nodes (disk.file first)).isSome := fileFor_isSome hfind
    obtain ⟨relative, hfile⟩ := Option.isSome_iff_exists.1 hsome
    rw [hfind, Option.bind_some, hfile, Option.map_some] at hparts
    exact Or.inl ⟨c, partEntry_old hparts, converted_old h hfind⟩

/-- When a copy fails, so do the copies with one more. -/
theorem copies_fail {contents : P → Option B} {nodes : List (ShapeNode F)}
    (h : copyAll (copies sceneName disk nodes) contents = none) (node : ShapeNode F) :
    copyAll (copies sceneName disk (nodes ++ [node])) contents = none := by
  have hmore : copies sceneName disk (nodes ++ [node]) = copies sceneName disk nodes ∨
      copies sceneName disk (nodes ++ [node]) =
        copies sceneName disk nodes ++ [copyOf sceneName disk node] := by
    rw [copies, copiers, entered, firstBy_concat]
    split
    · exact Or.inl rfl
    · rw [firstBy_concat]
      split
      · exact Or.inl rfl
      · exact Or.inr (by rw [List.map_append]; rfl)
  rcases hmore with hmore | hmore
  · rw [hmore, h]
  · rw [hmore, copyAll_concat, h]
    rfl

variable (sceneName disk) in
/-- **What is declared and copied** for nodes, one after the other. -/
theorem entries_spec (contents : P → Option B) (nodes : List (ShapeNode F)) :
    (∃ c, entries sceneName disk nodes ⟨Dict.empty, Dict.empty, contents⟩ = some c ∧
      Converted sceneName disk contents nodes c) ∨
    (entries sceneName disk nodes ⟨Dict.empty, Dict.empty, contents⟩ = none ∧
      copyAll (copies sceneName disk nodes) contents = none) := by
  induction nodes using List.reverseRecOn with
  | nil => exact Or.inl ⟨_, rfl, fun _ => rfl, fun _ => rfl, rfl⟩
  | append_singleton nodes node ih =>
    rw [entries, foldlM_concat, ← entries]
    rcases ih with ⟨c, hc, hconverted⟩ | ⟨hnone, hfail⟩
    · rw [hc, Option.bind_some]
      rcases partEntry_step hconverted node with ⟨c', hentry, hnext⟩ | ⟨hentry, hfail⟩
      · exact Or.inl ⟨c', by rw [hentry]; rfl, hnext⟩
      · exact Or.inr ⟨by rw [hentry]; rfl, hfail⟩
    · rw [hnone]
      exact Or.inr ⟨rfl, copies_fail hfail node⟩

variable (sceneName)

mutual

/-- The arrangement of a node, in which each shape is the part of its name. -/
def arrange : TreeNode F → Placed
  | .part node => .part (partName sceneName node.name)
  | .assembly _ links => .assembly (arrangeAll links)

def arrangeAll : List (TreeNode F) → List Placed
  | [] => []
  | node :: nodes => arrange node :: arrangeAll nodes

end

variable {sceneName}

theorem partEntry_name (node : ShapeNode F) (c : Conversion F P B) :
    partEntry sceneName disk node c =
      (entries sceneName disk [node] c).map fun c => (partName sceneName node.name, c) := by
  have hone : entries sceneName disk [node] c = (partEntry sceneName disk node c).map Prod.snd :=
    foldlM_concat _ [] node c
  have hname : ∀ name c', partEntry sceneName disk node c = some (name, c') →
      name = partName sceneName node.name := by
    intro name c' h
    simp only [partEntry] at h
    split at h
    · cases h
      rfl
    · split at h
      · cases h
        rfl
      · obtain ⟨_, -, heq⟩ := Option.map_eq_some_iff.1 h
        exact (Prod.mk.inj heq).1.symm
  rw [hone, Option.map_map]
  cases hentry : partEntry sceneName disk node c with
  | none => rfl
  | some p =>
    obtain ⟨name, c'⟩ := p
    rw [hname name c' hentry]
    rfl

theorem entries_append (nodes nodes' : List (ShapeNode F)) (c : Conversion F P B) :
    entries sceneName disk (nodes ++ nodes') c =
      (entries sceneName disk nodes c).bind (entries sceneName disk nodes') :=
  List.foldlM_append

mutual

/-- A tree is converted like the list of its shapes. -/
theorem build_eq (node : TreeNode F) (c : Conversion F P B) :
    build sceneName disk node c =
      (entries sceneName disk node.shapes c).map fun c => (arrange sceneName node, c) := by
  match node with
  | .part node =>
    rw [build, partEntry_name, Option.map_map]
    rfl
  | .assembly name links =>
    rw [build, buildAll_eq links c, Option.map_map]
    rfl

theorem buildAll_eq (nodes : List (TreeNode F)) (c : Conversion F P B) :
    buildAll sceneName disk nodes c =
      (entries sceneName disk (shapesOf nodes) c).map fun c => (arrangeAll sceneName nodes, c) := by
  match nodes with
  | [] => rfl
  | node :: nodes =>
    rw [buildAll, build_eq node c, shapesOf, entries_append]
    cases entries sceneName disk node.shapes c with
    | none => rfl
    | some c' =>
      rw [Option.map_some, Option.bind_some, Option.bind_some]
      dsimp only
      rw [buildAll_eq nodes c', Option.map_map]
      rfl

end

/-- Where there are shapes, parts are declared. -/
theorem Converted.declares {contents : P → Option B} {nodes : List (ShapeNode F)}
    {c : Conversion F P B} (h : Converted sceneName disk contents nodes c) (hne : nodes ≠ []) :
    c.parts.items.isEmpty = false := by
  obtain ⟨node, rest, rfl⟩ := List.exists_cons_of_ne_nil hne
  obtain ⟨first, hfirst, -⟩ := find?_of_mem ShapeNode.name (l := node :: rest) List.mem_cons_self
  have hsome : (fileFor sceneName disk (node :: rest) (disk.file first)).isSome :=
    fileFor_isSome hfirst
  obtain ⟨relative, hfile⟩ := Option.isSome_iff_exists.1 hsome
  have hpart := h.parts node.name
  rw [hfirst, Option.bind_some, hfile, Option.map_some] at hpart
  have hmem := Dict.get?_eq_some.1 hpart
  exact List.isEmpty_eq_false_iff.2 (List.ne_nil_of_mem hmem)

/-- A scene without shapes is not converted. -/
theorem fileToAssy_of_nil {tree : Tree F} (h : tree.shapes = []) {contents : P → Option B} :
    fileToAssy sceneName disk tree contents = none := by
  obtain ⟨hlinks, hparts⟩ := List.append_eq_nil_iff.1 h
  rw [fileToAssy, buildAll_eq, hlinks, hparts]
  rfl

variable (sceneName disk) in
/-- **The conversion of a scene**: it declares and copies what its shapes say, or fails with a copy. -/
theorem fileToAssy_spec (tree : Tree F) (contents : P → Option B) (hshapes : tree.shapes ≠ []) :
    (∃ c, fileToAssy sceneName disk tree contents = some (arrangeAll sceneName tree.links, c) ∧
      Converted sceneName disk contents tree.shapes c) ∨
    (fileToAssy sceneName disk tree contents = none ∧
      copyAll (copies sceneName disk tree.shapes) contents = none) := by
  have hall : entries sceneName disk (shapesOf tree.links ++ tree.parts)
      ⟨Dict.empty, Dict.empty, contents⟩ = _ := entries_append ..
  have hspec := entries_spec sceneName disk contents tree.shapes
  rw [Tree.shapes, hall] at hspec
  rw [fileToAssy, buildAll_eq]
  cases hlinks : entries sceneName disk (shapesOf tree.links) ⟨Dict.empty, Dict.empty, contents⟩ with
  | none =>
    rw [hlinks] at hspec
    rcases hspec with ⟨_, h, -⟩ | ⟨-, hnone⟩
    · cases h
    · exact Or.inr ⟨rfl, hnone⟩
  | some c =>
    rw [hlinks, Option.bind_some] at hspec
    rw [Option.map_some, Option.bind_some]
    dsimp only
    rcases hspec with ⟨c', hc', hconverted⟩ | ⟨hnone, hfail⟩
    · refine Or.inl ⟨c', ?_, hconverted⟩
      rw [hc', Option.bind_some, hconverted.declares hshapes]
      rfl
    · exact Or.inr ⟨by rw [hnone]; rfl, hfail⟩

end

end PartCAD.Imported
