import PartCAD.Lib.Concurrent
import PartCAD.Lib.Repr

/-!
# Files that are fetched

The file of an object is fetched unless something is at its path, and only then is it compared with the
hash that it is declared to have.  It is written at its path, byte by byte for those who look.

* `downloadFileAsync`, `download`, `fileHashFailure` : a run;
* `Inv` : the file is the declared one, unless a run has opened it and has not found it right since;
* `downloadFileAsync_guarantees` : what a run does, whatever the others do meanwhile;
* `prepares_run` : **a run that returns leaves the declared file**, where no run looks for the file or
  opens it while another one has it open, or has left it so;
* `not_prepares_run` : a run that is killed, and the next one.
-/

namespace PartCAD.File

open PartCAD.Lib PartCAD.Lib.Text

/-! ## Hashes -/

inductive Algorithm where
  | md5
  | sha1
  | sha256
  | sha512
  deriving DecidableEq

def Algorithm.name : Algorithm → Str
  | .md5 => "md5".toList
  | .sha1 => "sha1".toList
  | .sha256 => "sha256".toList
  | .sha512 => "sha512".toList

/-- `HASH_ALGORITHMS` -/
def hashAlgorithms : List (Algorithm × ℕ) :=
  [(.md5, 32), (.sha1, 40), (.sha256, 64), (.sha512, 128)]

/-- `HASH_CHUNK_SIZE` -/
def hashChunkSize : ℕ := 1024 * 1024

/-- `declared_hash`, of `str` of the value -/
def declaredHash (fileHash : Option Str) : Option Str :=
  fileHash.bind fun value => if strip value = [] then none else some (strip value)

section

-- `str.lower`
variable (lower : Str → Str)

/-- The digest is one of the algorithm. -/
def checkDigest (algorithm : Algorithm) (length : ℕ) (digest : Str) : Except Str (Algorithm × Str) :=
  if digest.length ≠ length ∨ digest.any (fun c => ! "0123456789abcdef".toList.contains c) then
    .error ("'".toList ++ digest ++ "' is not a ".toList ++ algorithm.name ++ " digest".toList)
  else .ok (algorithm, digest)

/-- `parse_hash` -/
def parseHash (value : Str) : Except Str (Algorithm × Str) :=
  let value := strip value
  if ':' ∈ value then
    let algorithm := replace ['-'] [] (lower (strip (partition ':' value).1))
    let digest := lower (strip (partition ':' value).2)
    match hashAlgorithms.find? fun entry => entry.1.name = algorithm with
    | none =>
      .error ("unknown hash algorithm '".toList ++ algorithm ++
        "' (expected one of md5, sha1, sha256, sha512)".toList)
    | some (algorithm, length) => checkDigest algorithm length digest
  else
    let digest := lower value
    match hashAlgorithms.find? fun entry => entry.2 = digest.length with
    | none =>
      .error ("cannot tell which algorithm '".toList ++ value ++
        "' is a digest of; write it as '<algorithm>:<digest>'".toList)
    | some (algorithm, length) => checkDigest algorithm length digest

end

/-! ## Runs -/

/-- What a `fileFrom` names. -/
inductive Source where
  | url
  /-- whether the package is served by a plugin, and the path of the object there -/
  | plugin (served : Bool) (pluginPath : Option Str)

inductive Error where
  | osError
  | fileHashError (message : Str)
  | exception (message : Str)
  /-- anything else that is raised at a call -/
  | other
  deriving DecidableEq

/-- The calls of a run, which is given by its number where it writes or reads. -/
inductive Call where
  | pathExists
  | dirsExist
  | makedirs
  /-- `session.get` with `raise_for_status` and `read` -/
  | get
  /-- `get_data_async` with `b64decode` -/
  | getData
  /-- `open(path, "wb")` -/
  | openWrite (run : ℕ)
  /-- a byte at a place in a file -/
  | write (file offset : ℕ) (byte : UInt8)
  | close
  /-- `open(path, "rb")` -/
  | openRead
  /-- `f.read(HASH_CHUNK_SIZE)` at a place in a file -/
  | read (run file offset : ℕ)
  | remove

abbrev Call.Answer : Call → Type
  | .pathExists | .dirsExist => Bool
  | .get => Bytes
  | .getData => Option Bytes
  | .openWrite _ | .openRead => ℕ
  | .read _ _ _ => Bytes
  | _ => Unit

inductive Fate where
  | done
  | raises (e : Error)
  | there (b : Bool)
  | content (b : Bytes)
  | nothing

/-- The files that have been made, and the one that is at the path. -/
structure World where
  contents : ℕ → Bytes
  path : Option ℕ
  fresh : ℕ
  /-- the run that has opened the file at the path and has not found it to be the declared one since -/
  mark : Option ℕ

/-- What is at an offset in a file is replaced, and there are zeros up to there. -/
def writeAt (b : Bytes) (offset : ℕ) (byte : UInt8) : Bytes :=
  b.take offset ++ List.replicate (offset - b.length) 0 ++ byte :: b.drop (offset + 1)

def World.write (w : World) (file : ℕ) (b : Bytes) : World :=
  { w with contents := Function.update w.contents file b }

section

variable (lower : Str → Str) (hexdigest : Algorithm → Bytes → Str) (declared : Option Str)
  (path : Str) (chunks : ℕ)

/-- A file has the declared hash. -/
def hasHash (b : Bytes) : Bool :=
  match declared with
  | none => true
  | some declared =>
    match parseHash lower declared with
    | .error _ => false
    | .ok (algorithm, digest) => hexdigest algorithm b = digest

@[grind =]
def effect : (c : Call) → World → Fate → Option (Except Error c.Answer × World)
  -- `os.path.exists` does not raise, but for what is no `Exception`
  | .pathExists, w, .raises e => if e = .other then some (.error e, w) else none
  | _, w, .raises e => some (.error e, w)
  | .pathExists, w, .done => some (.ok w.path.isSome, w)
  | .dirsExist, w, .there b => some (.ok b, w)
  | .makedirs, w, .done => some (.ok (), w)
  | .get, w, .content b => some (.ok b, w)
  | .getData, w, .content b => some (.ok (some b), w)
  | .getData, w, .nothing => some (.ok none, w)
  | .openWrite run, w, .done =>
    match w.path with
    | some file => some (.ok file, { w.write file [] with mark := some run })
    | none =>
      some (.ok w.fresh,
        { w.write w.fresh [] with path := some w.fresh, fresh := w.fresh + 1, mark := some run })
  | .write file offset byte, w, .done =>
    some (.ok (), w.write file (writeAt (w.contents file) offset byte))
  | .close, w, .done => some (.ok (), w)
  | .openRead, w, .done => w.path.map fun file => (.ok file, w)
  | .read run file offset, w, .done =>
    let chunk := ((w.contents file).drop offset).take hashChunkSize
    -- at the end of the file it has been compared as a whole
    if chunk = [] ∧ w.mark = some run ∧ w.path = some file ∧
        hasHash lower hexdigest declared (w.contents file) = true then
      some (.ok chunk, { w with mark := none })
    else some (.ok chunk, w)
  | .remove, w, .done => w.path.map fun _ => (.ok (), { w with path := none, mark := none })
  | _, _, _ => none

abbrev Task := Program Call Call.Answer Error

abbrev perform (c : Call) : Task c.Answer := Program.perform c

/-- `f.write(content)` -/
def writeAll (file : ℕ) : ℕ → Bytes → Task Unit
  | _, [] => pure ()
  | offset, byte :: rest => do
    perform (.write file offset byte)
    writeAll file (offset + 1) rest

/-- `if dirs != "" and not os.path.exists(dirs)`, of a path that has been joined to a directory -/
def ensureDirs : Task Unit := do
  let there ← perform .dirsExist
  if there then pure () else perform .makedirs

/-- `async with aiofiles.open(path, "wb") as f` -/
def writeFile (run : ℕ) (content : Bytes) : Task Unit := do
  let file ← perform (.openWrite run)
  writeAll file 0 content
  perform .close

/-- `FileFactoryUrl._download` and `FileFactoryPlugin._download` -/
def fetch (run : ℕ) : Source → Task Unit
  | .url => do
    ensureDirs
    let content ← perform .get
    writeFile run content
  | .plugin true (some pluginPath) => do
    let data ← perform .getData
    match data with
    | none => .raised (.exception ("The plugin did not provide the file: ".toList ++ pluginPath))
    | some content => do
      ensureDirs
      writeFile run content
  | .plugin _ _ =>
    .raised (.exception ("Cannot materialize '".toList ++ path ++
      "': the package is not plugin-backed".toList))

/-- The loop of `file_digest_async`, of a run that gets to read so many chunks. -/
def readAll (run file : ℕ) : ℕ → Bytes → Task Bytes
  | 0, _ => .raised .other
  | chunks + 1, b => do
    let chunk ← perform (.read run file b.length)
    if chunk = [] then pure b else readAll run file chunks (b ++ chunk)

/-- `file_digest_async` -/
def fileDigestAsync (run : ℕ) (algorithm : Algorithm) : Task Str := do
  let file ← perform .openRead
  let b ← readAll run file chunks []
  pure (hexdigest algorithm b)

/-- `file_hash_failure` -/
def fileHashFailure (run : ℕ) : Task (Option Str) :=
  match declared with
  | none => pure none
  | some declared =>
    match parseHash lower declared with
    | .error error => pure (some ("the declared 'fileHash' is unusable: ".toList ++ error))
    | .ok (algorithm, digest) => do
      let there ← perform .pathExists
      if there then do
        let actual ← fileDigestAsync hexdigest chunks run algorithm
        if actual = digest then pure none
        else
          pure (some (algorithm.name ++ ":".toList ++ digest ++ " was declared, ".toList ++
            algorithm.name ++ ":".toList ++ actual ++ " is what the file is (".toList ++ path ++
            ")".toList))
      else pure (some ("the file is missing: ".toList ++ path))

/-- `FileFactory.download` -/
def download (run : ℕ) (source : Source) : Task Unit := do
  fetch path run source
  let failure ← fileHashFailure lower hexdigest declared path chunks run
  match failure with
  | none => pure ()
  | some failure => do
    Program.tryCatch (perform .remove) fun e => if e = .osError then pure () else .raised e
    .raised (.fileHashError
      ("The downloaded file does not match the declared 'fileHash': ".toList ++ failure))

/-- `PartFactoryFile.download_file_async` -/
def downloadFileAsync (run : ℕ) : Option Source → Task Unit
  | none => pure ()
  | some source => do
    let there ← perform .pathExists
    if there then pure () else download lower hexdigest declared path chunks run source

/-- `PartFactoryFile.prepare_async` -/
def prepareAsync (run : ℕ) (source : Option Source) : Task Unit :=
  downloadFileAsync lower hexdigest declared path chunks run source

/-- `PartFactoryFile.instantiate` -/
def instantiate (run : ℕ) (source : Option Source) : Task Unit :=
  downloadFileAsync lower hexdigest declared path chunks run source

/-- `SoftwareFactoryFile.prepare_async` -/
def softwarePrepareAsync (run : ℕ) : Option Source → Task Unit
  | none => pure ()
  | some source => do
    let there ← perform .pathExists
    if there then pure () else download lower hexdigest declared path chunks run source

/-- What is run on an object. -/
inductive Entry where
  | prepare
  | instantiate
  | softwarePrepare

def Entry.run (run : ℕ) (source : Option Source) : Entry → Task Unit
  | .prepare => prepareAsync lower hexdigest declared path chunks run source
  | .instantiate => File.instantiate lower hexdigest declared path chunks run source
  | .softwarePrepare => softwarePrepareAsync lower hexdigest declared path chunks run source

/-- All of them are the one function. -/
theorem Entry.run_eq (run : ℕ) (source : Option Source) (entry : Entry) :
    entry.run lower hexdigest declared path chunks run source =
      downloadFileAsync lower hexdigest declared path chunks run source := by
  cases entry with
  | prepare => rfl
  | instantiate => rfl
  | softwarePrepare => cases source <;> rfl

/-- No other run has the file open, or has left it so, when a run looks for it or opens it. -/
def Apart (run : ℕ) : Call → World → Fate → Prop
  | .pathExists, w, _ => w.path.isSome = true → ∀ other, w.mark = some other → other = run
  | .openWrite _, w, _ => ∀ other, w.mark = some other → other = run
  | _, _, _ => True

/-- The file is the declared one, unless a run has opened it and has not found it right since. -/
def Inv (w : World) : Prop :=
  w.mark = none → ∀ file, w.path = some file →
    hasHash lower hexdigest declared (w.contents file) = true

/-- What a run relies on: the file that it has opened is left to it. -/
def Relies (run : ℕ) (w w' : World) : Prop :=
  (Inv lower hexdigest declared w → Inv lower hexdigest declared w') ∧
    (w.mark = some run → w' = w) ∧ (w'.mark = some run → w.mark = some run)

/-- What a run does: it leaves alone what another one has opened. -/
def Grants (run : ℕ) (w w' : World) : Prop :=
  (Inv lower hexdigest declared w → Inv lower hexdigest declared w') ∧
    ∀ other, other ≠ run →
      (w.mark = some other → w' = w) ∧ (w'.mark = some other → w.mark = some other)

/-- A run that has nothing open. -/
def Outside (run : ℕ) (w : World) : Prop :=
  Inv lower hexdigest declared w ∧ w.mark ≠ some run

/-- A run that has the file open. -/
def Inside (run file : ℕ) (b : Bytes) (w : World) : Prop :=
  w.mark = some run ∧ w.path = some file ∧ w.contents file = b

/-- The file is there, as a whole, and is the declared one. -/
def Ready (w : World) : Prop :=
  w.mark = none ∧
    ∃ file, w.path = some file ∧ hasHash lower hexdigest declared (w.contents file) = true

end

/-! ## What a run does -/

section

variable {lower : Str → Str} {hexdigest : Algorithm → Bytes → Str} {declared : Option Str}
  {path : Str} {chunks run : ℕ}

theorem outside_stable {w w' : World} (h : Outside lower hexdigest declared run w)
    (hR : Relies lower hexdigest declared run w w') : Outside lower hexdigest declared run w' :=
  ⟨hR.1 h.1, fun hmark => h.2 (hR.2.2 hmark)⟩

theorem inside_stable {file : ℕ} {b : Bytes} {w w' : World} (h : Inside run file b w)
    (hR : Relies lower hexdigest declared run w w') : Inside run file b w' :=
  (hR.2.1 h.1).symm ▸ h

theorem grants_refl (w : World) : Grants lower hexdigest declared run w w :=
  ⟨id, fun _ _ => ⟨fun _ => rfl, id⟩⟩

/-- A run may do what it likes to the file that it has open. -/
theorem grants_of_mark {w w' : World} (h : w.mark = some run)
    (hinv : Inv lower hexdigest declared w') (hmark : ∀ other, w'.mark = some other → other = run) :
    Grants lower hexdigest declared run w w' := by
  refine ⟨fun _ => hinv, fun other hother => ⟨fun h' => ?_, fun h' => ?_⟩⟩
  · exact absurd (Option.some.inj (h'.symm.trans h)) hother
  · exact absurd (hmark other h') hother

theorem inv_of_mark {w : World} (h : w.mark = some run) : Inv lower hexdigest declared w :=
  fun hmark => absurd (h.symm.trans hmark) (by simp)

theorem relies_of_grants {other : ℕ} (hne : run ≠ other) {w w' : World}
    (h : Grants lower hexdigest declared other w w') : Relies lower hexdigest declared run w w' :=
  ⟨h.1, (h.2 run hne).1, (h.2 run hne).2⟩

@[simp] theorem World.write_contents (w : World) (file : ℕ) (b : Bytes) :
    (w.write file b).contents file = b := by
  simp [World.write]

theorem writeAt_length (b : Bytes) (byte : UInt8) : writeAt b b.length byte = b ++ [byte] := by
  simp [writeAt]

/-- A call that raises changes nothing. -/
theorem effect_raises {c : Call} {w u : World} {e : Error} {r : Except Error c.Answer}
    (h : effect lower hexdigest declared c w (.raises e) = some (r, u)) : r = .error e ∧ w = u := by
  cases c with
  | pathExists =>
    obtain ⟨-, heq⟩ := Option.ite_none_right_eq_some.1 h
    exact ⟨(Prod.mk.inj (Option.some.inj heq)).1.symm, (Prod.mk.inj (Option.some.inj heq)).2⟩
  | _ => exact ⟨(Prod.mk.inj (Option.some.inj h)).1.symm, (Prod.mk.inj (Option.some.inj h)).2⟩

/-- What a run does, and how it ends, where the others do what it relies on. -/
abbrev Does (lower : Str → Str) (hexdigest : Algorithm → Bytes → Str) (declared : Option Str)
    (run : ℕ) {α : Type} (Q : α → World → Prop) (X : Error → World → Prop) (p : Task α) (w : World) :
    Prop :=
  p.Guarantees (effect lower hexdigest declared) (Apart run) (Relies lower hexdigest declared run)
    (Grants lower hexdigest declared run) Q X w

theorem does_bind {α β : Type} {Q : β → World → Prop} {X : Error → World → Prop} {p : Task α}
    {f : α → Task β} {w : World} :
    Does lower hexdigest declared run Q X (p >>= f) w ↔
      Does lower hexdigest declared run (fun a => Does lower hexdigest declared run Q X (f a)) X p w :=
  Program.guarantees_bind

/-- A call that only looks. -/
theorem look_does {c : Call}
    (hc : ∀ w f r u, effect lower hexdigest declared c w f = some (r, u) → w = u) {P : World → Prop}
    (hstable : ∀ w w', P w → Relies lower hexdigest declared run w w' → P w') {w : World} (h : P w) :
    Does lower hexdigest declared run (fun _ => P) (fun _ => P) (perform c) w := by
  refine Program.guarantees_perform hstable h ?_
  rintro t f r u hP - heffect
  obtain rfl := hc t f r u heffect
  refine ⟨grants_refl t, ?_⟩
  cases r with
  | ok a => exact hP
  | error e => exact hP

theorem ensureDirs_does {P : World → Prop}
    (hstable : ∀ w w', P w → Relies lower hexdigest declared run w w' → P w') {w : World} (h : P w) :
    Does lower hexdigest declared run (fun _ => P) (fun _ => P) ensureDirs w := by
  rw [ensureDirs, does_bind]
  refine (look_does ?_ hstable h).mono (fun there u hu => ?_) fun _ _ => id
  · intro w f r u heffect
    cases f with
    | there b => exact (Prod.mk.inj (Option.some.inj heffect)).2
    | raises e => exact (effect_raises heffect).2
    | _ => cases heffect
  · split
    · exact hu
    · refine look_does ?_ hstable hu
      intro w f r u heffect
      cases f with
      | done => exact (Prod.mk.inj (Option.some.inj heffect)).2
      | raises e => exact (effect_raises heffect).2
      | _ => cases heffect

/-- **Writing**, with some of it written. -/
theorem writeAll_does {file : ℕ} (content : Bytes) : ∀ {b : Bytes} {w : World}, Inside run file b w →
    Does lower hexdigest declared run (fun _ => Inside run file (b ++ content)) (fun _ _ => True)
      (writeAll file b.length content) w := by
  induction content with
  | nil =>
    intro b w h
    rw [List.append_nil]
    exact h
  | cons byte content ih =>
    intro b w h
    rw [writeAll, does_bind]
    refine Program.guarantees_perform (fun _ _ hs hR => inside_stable hs hR) h ?_
    rintro t f r u ⟨hmark, hpath, hcontents⟩ - heffect
    cases f with
    | raises e =>
      obtain ⟨rfl, rfl⟩ := effect_raises heffect
      exact ⟨grants_refl t, trivial⟩
    | done =>
      obtain ⟨rfl, rfl⟩ := Prod.mk.inj (Option.some.inj heffect)
      have hinside : Inside run file (b ++ [byte])
          (t.write file (writeAt (t.contents file) b.length byte)) := by
        refine ⟨hmark, hpath, ?_⟩
        rw [World.write_contents, hcontents, writeAt_length]
      refine ⟨grants_of_mark hmark (inv_of_mark hinside.1) fun other hother => ?_, ?_⟩
      · exact Option.some.inj (hother.symm.trans hmark)
      · have hrest := ih hinside
        rw [List.length_append, List.length_singleton, List.append_assoc] at hrest
        exact hrest
    | _ => cases heffect

theorem writeFile_does {content : Bytes} {w : World} (h : Outside lower hexdigest declared run w) :
    Does lower hexdigest declared run (fun _ u => ∃ file, Inside run file content u) (fun _ _ => True)
      (writeFile run content) w := by
  rw [writeFile, does_bind]
  refine Program.guarantees_perform (fun _ _ hs hR => outside_stable hs hR) h ?_
  rintro t f r u ⟨hinv, hmark⟩ hapart heffect
  have hfree : t.mark = none := by
    cases hother : t.mark with
    | none => rfl
    | some other =>
      obtain rfl := hapart other hother
      exact absurd hother hmark
  -- the file is there and empty
  have hopened : ∀ file, r = .ok file → Inside run file [] u →
      Grants lower hexdigest declared run t u ∧ Program.Reply
        (fun file => Does lower hexdigest declared run (fun _ u => ∃ file, Inside run file content u)
          (fun _ _ => True) (do writeAll file 0 content; perform .close)) (fun _ _ => True) r u := by
    rintro file rfl hinside
    refine ⟨⟨fun _ => inv_of_mark hinside.1, fun other hother => ⟨fun h' => ?_, fun h' => ?_⟩⟩, ?_⟩
    · rw [hfree] at h'
      cases h'
    · exact absurd (Option.some.inj (h'.symm.trans hinside.1)) hother
    · change Does _ _ _ _ _ _ _ _
      rw [does_bind]
      refine (writeAll_does content hinside).mono (fun _ v hv => ?_) fun _ _ => id
      refine (look_does ?_ (fun _ _ hs hR => inside_stable hs hR) hv).mono
        (fun _ v hv => ⟨file, hv⟩) fun _ _ _ => trivial
      intro w f r u heffect
      cases f with
      | done => exact (Prod.mk.inj (Option.some.inj heffect)).2
      | raises e => exact (effect_raises heffect).2
      | _ => cases heffect
  cases f with
  | raises e =>
    obtain ⟨rfl, rfl⟩ := effect_raises heffect
    exact ⟨grants_refl t, trivial⟩
  | done =>
    rw [effect] at heffect
    split at heffect
    · rename_i file hfile
      obtain ⟨rfl, rfl⟩ := Prod.mk.inj (Option.some.inj heffect)
      exact hopened file rfl ⟨rfl, hfile, World.write_contents t file []⟩
    · obtain ⟨rfl, rfl⟩ := Prod.mk.inj (Option.some.inj heffect)
      exact hopened t.fresh rfl ⟨rfl, rfl, World.write_contents t t.fresh []⟩
  | _ => cases heffect

/-- **A file is fetched**, and is at its path as a whole. -/
theorem fetch_does (source : Source) {w : World} (h : Outside lower hexdigest declared run w) :
    Does lower hexdigest declared run (fun _ u => ∃ file b, Inside run file b u) (fun _ _ => True)
      (fetch path run source) w := by
  have hwrite : ∀ (content : Bytes) (u : World), Outside lower hexdigest declared run u →
      Does lower hexdigest declared run (fun _ u => ∃ file b, Inside run file b u) (fun _ _ => True)
        (writeFile run content) u :=
    fun content u hu => (writeFile_does hu).mono (fun _ _ ⟨file, hv⟩ => ⟨file, content, hv⟩)
      fun _ _ => id
  have hstable : ∀ w w', Outside lower hexdigest declared run w →
      Relies lower hexdigest declared run w w' → Outside lower hexdigest declared run w' :=
    fun _ _ hs hR => outside_stable hs hR
  unfold fetch
  split
  · rw [does_bind]
    refine (ensureDirs_does hstable h).mono (fun _ u hu => ?_) fun _ _ _ => trivial
    rw [does_bind]
    refine (look_does ?_ hstable hu).mono (fun content v hv => hwrite content v hv) fun _ _ _ => trivial
    intro w f r u heffect
    cases f with
    | content b => exact (Prod.mk.inj (Option.some.inj heffect)).2
    | raises e => exact (effect_raises heffect).2
    | _ => cases heffect
  · rw [does_bind]
    refine (look_does ?_ hstable h).mono (fun data v hv => ?_) fun _ _ _ => trivial
    · intro w f r u heffect
      cases f with
      | content b => exact (Prod.mk.inj (Option.some.inj heffect)).2
      | nothing => exact (Prod.mk.inj (Option.some.inj heffect)).2
      | raises e => exact (effect_raises heffect).2
      | _ => cases heffect
    · cases data with
      | none => trivial
      | some content =>
        dsimp only
        rw [does_bind]
        exact (ensureDirs_does hstable hv).mono (fun _ u hu => hwrite content u hu)
          fun _ _ _ => trivial
  · trivial

/-- **Reading**, with some of it read: the file is compared at its end. -/
theorem readAll_does {file : ℕ} {content : Bytes} : ∀ (chunks : ℕ) {b : Bytes} {w : World},
    b <+: content → Inside run file content w →
      Does lower hexdigest declared run
        (fun result u => result = content ∧
          if hasHash lower hexdigest declared content = true then Ready lower hexdigest declared u
          else Inside run file content u)
        (fun _ _ => True) (readAll run file chunks b) w := by
  intro chunks
  induction chunks with
  | zero =>
    intro b w _ _
    trivial
  | succ chunks ih =>
    intro b w hbegin h
    rw [readAll, does_bind]
    refine Program.guarantees_perform (fun _ _ hs hR => inside_stable hs hR) h ?_
    rintro t f r u hinside - heffect
    obtain ⟨rest, rfl⟩ := hbegin
    cases f with
    | raises e =>
      obtain ⟨rfl, rfl⟩ := effect_raises heffect
      exact ⟨grants_refl t, trivial⟩
    | done =>
      obtain ⟨hmark, hpath, hcontents⟩ := hinside
      simp only [effect, hcontents, List.drop_left] at heffect
      have hempty : List.take hashChunkSize rest = [] ↔ rest = [] := by
        rw [List.take_eq_nil_iff]
        exact or_iff_right (by decide)
      split at heffect
      · rename_i hend
        obtain ⟨hchunk, -, -, hhash⟩ := hend
        obtain ⟨rfl, rfl⟩ := Prod.mk.inj (Option.some.inj heffect)
        refine ⟨grants_of_mark hmark (fun _ file' hfile' => ?_) nofun, ?_⟩
        · obtain rfl := Option.some.inj (hpath.symm.trans hfile')
          exact hcontents.symm ▸ hhash
        · change Does _ _ _ _ _ _ _ _
          rw [if_pos hchunk]
          have hrest := hempty.1 hchunk
          refine ⟨by rw [hrest, List.append_nil], ?_⟩
          rw [if_pos hhash]
          exact ⟨rfl, file, hpath, hcontents.symm ▸ hhash⟩
      · rename_i hend
        obtain ⟨rfl, rfl⟩ := Prod.mk.inj (Option.some.inj heffect)
        refine ⟨grants_refl t, ?_⟩
        change Does _ _ _ _ _ _ _ _
        by_cases hchunk : List.take hashChunkSize rest = []
        · have hrest := hempty.1 hchunk
          rw [if_pos hchunk]
          have hhash : ¬ hasHash lower hexdigest declared (b ++ rest) = true :=
            fun hhash => hend ⟨hchunk, hmark, hpath, hhash⟩
          refine ⟨by rw [hrest, List.append_nil], ?_⟩
          rw [if_neg hhash]
          exact ⟨hmark, hpath, hcontents⟩
        · rw [if_neg hchunk]
          refine ih ?_ ⟨hmark, hpath, hcontents⟩
          exact (List.prefix_append_right_inj b).2 (List.take_prefix hashChunkSize rest)
    | _ => cases heffect

end

section

variable {lower : Str → Str} {hexdigest : Algorithm → Bytes → Str} {declared path : Str}
  {chunks run : ℕ}

/-- **The file is compared with the declared hash.** -/
theorem fileHashFailure_does {file : ℕ} {content : Bytes} {w : World} (h : Inside run file content w) :
    Does lower hexdigest (some declared) run
      (fun failure u => if failure = none then Ready lower hexdigest (some declared) u
        else Inside run file content u)
      (fun _ _ => True) (fileHashFailure lower hexdigest (some declared) path chunks run) w := by
  unfold fileHashFailure
  dsimp only
  split
  · exact h
  · rename_i algorithm digest hparse
    have hhash : hasHash lower hexdigest (some declared) content = true ↔
        hexdigest algorithm content = digest := by
      rw [hasHash, hparse]
      exact decide_eq_true_iff
    rw [does_bind]
    refine (look_does ?_ (fun _ _ hs hR => inside_stable hs hR) h).mono (fun there u hu => ?_)
      fun _ _ _ => trivial
    · intro w f r u heffect
      cases f with
      | done => exact (Prod.mk.inj (Option.some.inj heffect)).2
      | raises e => exact (effect_raises heffect).2
      | _ => cases heffect
    · split
      · rw [does_bind, fileDigestAsync, does_bind]
        refine Program.guarantees_perform (fun _ _ hs hR => inside_stable hs hR) hu ?_
        rintro t f r v hinside - heffect
        cases f with
        | raises e =>
          obtain ⟨rfl, rfl⟩ := effect_raises heffect
          exact ⟨grants_refl t, trivial⟩
        | done =>
          simp only [effect, hinside.2.1, Option.map_some, Option.some.injEq, Prod.mk.injEq] at heffect
          obtain ⟨rfl, rfl⟩ := heffect
          refine ⟨grants_refl t, ?_⟩
          change Does _ _ _ _ _ _ _ _
          rw [does_bind]
          refine (readAll_does chunks (List.nil_prefix) hinside).mono ?_ fun _ _ => id
          rintro b v ⟨rfl, hend⟩
          refine Program.guarantees_pure.2 ?_
          split
          · rename_i hdigest
            rw [if_pos (hhash.2 hdigest)] at hend
            exact hend
          · rename_i hdigest
            rw [if_neg fun hb => hdigest (hhash.1 hb)] at hend
            exact hend
        | _ => cases heffect
      · exact hu

/-- A file that is not the declared one is removed, or is left as one that has not been found right. -/
theorem remove_does {file : ℕ} {content : Bytes} {w : World} (h : Inside run file content w)
    {Q : Unit → World → Prop} (failure : Str) :
    Does lower hexdigest (some declared) run Q (fun _ _ => True)
      (do
        Program.tryCatch (perform .remove) fun e => if e = .osError then pure () else .raised e
        .raised (.fileHashError failure)) w := by
  rw [does_bind]
  refine Program.guarantees_tryCatch.2 (Program.guarantees_perform
    (fun _ _ hs hR => inside_stable hs hR) h ?_)
  rintro t f r u ⟨hmark, hpath, -⟩ - heffect
  cases f with
  | raises e =>
    obtain ⟨rfl, rfl⟩ := effect_raises heffect
    refine ⟨grants_refl t, ?_⟩
    change Does _ _ _ _ _ _ _ _
    split
    · trivial
    · trivial
  | done =>
    simp only [effect, hpath, Option.map_some, Option.some.injEq, Prod.mk.injEq] at heffect
    obtain ⟨rfl, rfl⟩ := heffect
    exact ⟨grants_of_mark hmark (fun _ _ hfile => nomatch hfile) nofun, trivial⟩
  | _ => cases heffect

theorem download_does (source : Source) {w : World}
    (h : Outside lower hexdigest (some declared) run w) :
    Does lower hexdigest (some declared) run (fun _ => Ready lower hexdigest (some declared))
      (fun _ _ => True) (download lower hexdigest (some declared) path chunks run source) w := by
  rw [download, does_bind]
  refine (fetch_does source h).mono ?_ fun _ _ => id
  rintro - u ⟨file, content, hinside⟩
  rw [does_bind]
  refine (fileHashFailure_does hinside).mono (fun failure v hv => ?_) fun _ _ => id
  cases failure with
  | none => exact hv
  | some failure => exact remove_does hv _

/-- **A run, whatever the others do meanwhile.** -/
theorem downloadFileAsync_does (source : Source) {w : World}
    (h : Outside lower hexdigest (some declared) run w) :
    Does lower hexdigest (some declared) run (fun _ => Ready lower hexdigest (some declared))
      (fun _ _ => True)
      (downloadFileAsync lower hexdigest (some declared) path chunks run (some source)) w := by
  unfold downloadFileAsync
  dsimp only
  rw [does_bind]
  refine Program.guarantees_perform (fun _ _ hs hR => outside_stable hs hR) h ?_
  rintro t f r u ⟨hinv, hmark⟩ hapart heffect
  cases f with
  | raises e =>
    obtain ⟨rfl, rfl⟩ := effect_raises heffect
    exact ⟨grants_refl t, trivial⟩
  | done =>
    obtain ⟨rfl, rfl⟩ := Prod.mk.inj (Option.some.inj heffect)
    refine ⟨grants_refl t, ?_⟩
    change Does _ _ _ _ _ _ _ _
    split
    · rename_i hthere
      have hfree : t.mark = none := by
        cases hother : t.mark with
        | none => rfl
        | some other =>
          obtain rfl := hapart hthere other hother
          exact absurd hother hmark
      obtain ⟨file, hfile⟩ := Option.isSome_iff_exists.1 hthere
      exact ⟨hfree, file, hfile, hinv hfree file hfile⟩
    · exact download_does source ⟨hinv, hmark⟩
  | _ => cases heffect

end

/-! ## Runs side by side -/

section

variable (lower : Str → Str) (hexdigest : Algorithm → Bytes → Str) (declared : Option Str) (path : Str)
  (chunks : ℕ)

/-- What is at the path before any run. -/
def start (file : Option Bytes) : World :=
  ⟨fun _ => file.getD [], file.map fun _ => 0, 1, none⟩

/-- The runs on an object. -/
def prepares (source : Option Source) (entries : List Entry) (file : Option Bytes) :
    System (List (Task Unit) × World) (ℕ × Fate) :=
  pool (effect lower hexdigest declared)
    (entries.mapIdx fun run entry => entry.run lower hexdigest declared path chunks run source)
    (start file)

end

section

variable {lower : Str → Str} {hexdigest : Algorithm → Bytes → Str} {declared path : Str} {chunks : ℕ}

theorem outside_start {file : Option Bytes}
    (hfile : ∀ b ∈ file, hasHash lower hexdigest (some declared) b = true) (run : ℕ) :
    Outside lower hexdigest (some declared) run (start file) := by
  refine ⟨fun _ inode hinode => ?_, nofun⟩
  cases file with
  | none => cases hinode
  | some b => exact hfile b rfl

/-- **The runs are kept to what they do.** -/
theorem compatible (source : Source) (entries : List Entry) {file : Option Bytes}
    (hfile : ∀ b ∈ file, hasHash lower hexdigest (some declared) b = true) :
    Compatible (effect lower hexdigest (some declared)) Apart
      (fun run => Relies lower hexdigest (some declared) run)
      (fun run => Grants lower hexdigest (some declared) run)
      (fun _ _ => Ready lower hexdigest (some declared)) (fun _ _ _ => True)
      (entries.mapIdx fun run entry =>
        entry.run lower hexdigest (some declared) path chunks run (some source)) (start file) := by
  constructor
  · intro run p hp
    rw [List.getElem?_mapIdx] at hp
    obtain ⟨entry, -, rfl⟩ := Option.map_eq_some_iff.1 hp
    rw [Entry.run_eq]
    exact downloadFileAsync_does source (outside_start hfile run)
  · intro run other _ _ hne w w' h
    exact relies_of_grants hne h

/-- **After any runs and beside any runs**, each of them at any point of it, a run that returns leaves
the declared file at the path, and no other run has it open or has left it so. -/
theorem prepares_run (source : Source) (entries : List Entry) {file : Option Bytes}
    (hfile : ∀ b ∈ file, hasHash lower hexdigest (some declared) b = true)
    {st : List (Task Unit) × World}
    (h : Run (prepares lower hexdigest (some declared) path chunks (some source) entries file)
      (Allowed Apart) st) :
    Inv lower hexdigest (some declared) st.2 ∧
      ∀ run f st', Allowed Apart st (run, f) →
        (prepares lower hexdigest (some declared) path chunks (some source) entries file).step st
          (run, f) = some st' →
        st'.1[run]? = some (.done ()) → Ready lower hexdigest (some declared) st'.2 := by
  have hcompatible := @compatible lower hexdigest declared path chunks source entries file hfile
  constructor
  · refine pool_invariant hcompatible (I := Inv lower hexdigest (some declared)) ?_
      (outside_start hfile 0).1 h
    exact fun run w w' hG => hG.1
  · intro run f st' hok hstep hresult
    exact (step_guarantees hcompatible h hok hstep).2 _ hresult

end

/-! ## Two runs -/

/-- A hash that only counts. -/
def countingHash (_ : Algorithm) (b : Bytes) : Str :=
  List.replicate (64 - b.length) '0' ++ List.replicate b.length '1'

/-- The hash of a file of two bytes. -/
def twoBytes : Str := "sha256:".toList ++ countingHash .sha256 [1, 2]

/-- No other run has the file open, or has left it so. -/
def leftAlone (st : List (Task Unit) × World) (e : ℕ × Fate) : Bool :=
  st.2.mark.all fun other => other = e.1

theorem allowed_of_leftAlone {st : List (Task Unit) × World} {e : ℕ × Fate}
    (h : leftAlone st e = true) : Allowed Apart st e := by
  have hother : ∀ other, st.2.mark = some other → other = e.1 := by
    intro other hmark
    rw [leftAlone, hmark] at h
    exact of_decide_eq_true h
  intro p c _ _
  cases c with
  | pathExists => exact fun _ => hother
  | openWrite run => exact hother
  | _ => trivial

/-- A run gets on, has been left alone, and returns. -/
def returns (sys : System (List (Task Unit) × World) (ℕ × Fate)) (e : ℕ × Fate)
    (st : List (Task Unit) × World) : Bool :=
  leftAlone st e && (sys.step st e).any fun st' =>
    match st'.1[e.1]? with
    | some (.done ()) => true
    | _ => false

theorem exists_of_returns {sys : System (List (Task Unit) × World) (ℕ × Fate)} {e : ℕ × Fate}
    {st : List (Task Unit) × World} (h : returns sys e st = true) :
    leftAlone st e = true ∧ ∃ st', sys.step st e = some st' ∧ st'.1[e.1]? = some (.done ()) := by
  obtain ⟨hleft, h⟩ := Bool.and_eq_true_iff.1 h
  obtain ⟨st', hstep, h⟩ := (Option.any_eq_true _ _).1 h
  refine ⟨hleft, st', hstep, ?_⟩
  split at h
  · assumption
  · cases h

/-- A run looks for the file, fetches it, writes it and reads it again. -/
theorem prepares_run_first :
    ∃ st st', Run (prepares id countingHash (some twoBytes) "p/a.step".toList 2 (some .url)
        [.prepare, .instantiate] none) (Allowed Apart) st ∧
      (prepares id countingHash (some twoBytes) "p/a.step".toList 2 (some .url)
        [.prepare, .instantiate] none).step st (0, .done) = some st' ∧
      Ready id countingHash (some twoBytes) st'.2 := by
  let sys := prepares id countingHash (some twoBytes) "p/a.step".toList 2 (some .url)
    [.prepare, .instantiate] none
  have hevents : (sys.after (fun st e => leftAlone st e = true)
      ([(0, .done), (0, .there true), (0, .content [1, 2])] ++ List.replicate 7 (0, .done))).any
        (returns sys (0, .done)) = true := by
    decide
  obtain ⟨st, hst, hlast⟩ := (Option.any_eq_true _ _).1 hevents
  obtain ⟨hlast, st', hstep, hresult⟩ := exists_of_returns hlast
  have hrun : Run sys (Allowed Apart) st := (run_after hst).mono fun _ _ h => allowed_of_leftAlone h
  have hnone : ∀ b ∈ (none : Option Bytes), hasHash id countingHash (some twoBytes) b = true := nofun
  exact ⟨st, st', hrun, hstep,
    (prepares_run .url [.prepare, .instantiate] hnone hrun).2 0 .done st' (allowed_of_leftAlone hlast)
      hstep hresult⟩

/-- A run is killed when it has written the first byte, and the next one takes what is there. -/
theorem not_prepares_run :
    ¬ ∀ (lower : Str → Str) (hexdigest : Algorithm → Bytes → Str) (declared path : Str) (chunks : ℕ)
      (source : Source) (entries : List Entry) (file : Option Bytes),
      (∀ b ∈ file, hasHash lower hexdigest (some declared) b = true) →
        ∀ st, Run (prepares lower hexdigest (some declared) path chunks (some source) entries file)
          (fun _ _ => True) st →
          ∀ run f st',
            (prepares lower hexdigest (some declared) path chunks (some source) entries file).step st
              (run, f) = some st' →
            st'.1[run]? = some (.done ()) → ∃ file, st'.2.path = some file ∧
              hasHash lower hexdigest (some declared) (st'.2.contents file) = true := by
  intro h
  let sys := prepares id countingHash (some twoBytes) "p/a.step".toList 2 (some .url)
    [.prepare, .instantiate] none
  obtain ⟨st, st', hst, hstep, hresult, hpath, hcontents⟩ : ∃ st st',
      sys.after (fun _ _ => True)
          [(0, .done), (0, .there true), (0, .content [1, 2]), (0, .done), (0, .done)] = some st ∧
        sys.step st (1, .done) = some st' ∧ st'.1[1]? = some (.done ()) ∧
        st'.2.path = some 1 ∧ st'.2.contents 1 = [1] :=
    ⟨_, _, rfl, rfl, rfl, rfl, rfl⟩
  obtain ⟨file, hfile, hhash⟩ := h id countingHash twoBytes "p/a.step".toList 2 .url
    [.prepare, .instantiate] none nofun st (run_after hst) 1 .done st' hstep hresult
  obtain rfl := Option.some.inj (hpath.symm.trans hfile)
  rw [hcontents] at hhash
  exact absurd hhash (by decide)

end PartCAD.File
