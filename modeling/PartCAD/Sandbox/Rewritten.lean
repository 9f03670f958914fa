import PartCAD.Sandbox.Mounts

/-!
# What is rewritten

* `Rewrites` : what is asked of an argument;
* `rewrite_cases`, `exists_rewrite` : it is rewritten for the longest host directory that it begins with;
* `rewrites_iff` : **where an argument is rewritten as it is asked**.
-/

namespace PartCAD.Sandbox.HostPaths

open PartCAD.Lib PartCAD.Lib.Text

/-! ## What is asked -/

/-- What stands between the separators of an argument. -/
def pieces (argument : Str) : List Str := split '/' (slashes argument)

/-- An argument that is a directory or lies beneath it. -/
def Under (lower : Str → Str) (directory argument : Str) : Prop :=
  key lower true directory <+: (pieces argument).map lower

/-- What the directory is in the container. -/
def place (lower : Str → Str) (directory : Str) : Str :=
  '/' :: (lower (directory.take 1) ++ (names true directory).tail.flatMap ('/' :: ·))

/-- What an argument goes on with, beneath a directory. -/
def below (directory argument : Str) : List Str := (pieces argument).drop (names true directory).length

/-- **What is asked of an argument**: if it is or lies beneath a directory, this is replaced, and the result
is one for all of them; and otherwise it stays as it is. -/
def Rewrites (lower : Str → Str) (hosts : List Str) (argument : Str) : Prop :=
  ∀ tidied, Order hosts tidied →
    (∀ d ∈ hosts, Under lower d argument →
      rewrite lower true argument tidied = .ok (place lower d ++ (below d argument).flatMap ('/' :: ·))) ∧
    ((∀ d ∈ hosts, ¬ Under lower d argument) → rewrite lower true argument tidied = .ok argument)

/-! ## What is looked at -/

/-- An argument begins with a tidied path, as they are compared. -/
def Begins (lower : Str → Str) (argument t : Str) : Prop :=
  comparable lower true t <+: comparable lower true argument

/-- The longest tidied path that the argument begins with: one of them. -/
structure Longest (lower : Str → Str) (hosts : List Str) (argument t : Str) : Prop where
  mem : t ∈ hosts.map tidy
  begins : Begins lower argument t
  longest : ∀ o ∈ hosts.map tidy, Begins lower argument o → o.length ≤ t.length

section

variable {lower : Str → Str} {hosts : List Str} {argument : Str}

/-- An argument is rewritten for a longest path that it begins with, and stays if there is none. -/
theorem rewrite_cases {tidied : List Str} (horder : Order hosts tidied) :
    (∀ o ∈ hosts.map tidy, ¬ Begins lower argument o) ∧ rewrite lower true argument tidied = .ok argument ∨
      ∃ t, Longest lower hosts argument t ∧ rewrite lower true argument tidied =
        (translate lower true t).map (· ++ slashes (argument.drop t.length)) := by
  rw [rewrite, if_pos rfl]
  cases hfind : (sortBy (fun path => OrderDual.toDual path.length) tidied).find? fun host =>
      startswith (comparable lower true argument) (comparable lower true host) with
  | none =>
    refine Or.inl ⟨fun o ho hbegins => ?_, rfl⟩
    exact List.find?_eq_none.mp hfind o (mem_sortBy.mpr ((horder.mem o).mpr ho)) (startswith_iff.mpr hbegins)
  | some t =>
    obtain ⟨hbegins, front, back, hsorted, hfront⟩ := List.find?_eq_some_iff_append.mp hfind
    have hmem : t ∈ sortBy (fun path : Str => OrderDual.toDual path.length) tidied :=
      hsorted ▸ List.mem_append_right _ List.mem_cons_self
    refine Or.inr ⟨t, ⟨(horder.mem t).mp (mem_sortBy.mp hmem), startswith_iff.mp hbegins, fun o ho hbegins => ?_⟩,
      rfl⟩
    have hpairs := pairwise_sortBy (fun path : Str => OrderDual.toDual path.length) tidied
    have ho' := mem_sortBy (f := fun path : Str => OrderDual.toDual path.length).mpr ((horder.mem o).mpr ho)
    rw [hsorted] at hpairs ho'
    rcases List.mem_append.mp ho' with hin | hin
    · have hnot := hfront o hin
      rw [startswith_iff.mpr hbegins] at hnot
      cases hnot
    · rcases List.mem_cons.mp hin with rfl | hin
      · exact le_refl _
      · exact (List.pairwise_cons.mp (List.pairwise_append.mp hpairs).2.1).1 o hin

/-- Each of the longest ones may come first. -/
theorem exists_rewrite {t : Str} (h : Longest lower hosts argument t) :
    ∃ tidied, Order hosts tidied ∧ rewrite lower true argument tidied =
      (translate lower true t).map (· ++ slashes (argument.drop t.length)) := by
  have hperm := List.perm_cons_erase (List.mem_dedup.mpr h.mem)
  have horder : Order hosts (t :: (hosts.map tidy).dedup.erase t) :=
    ⟨hperm.nodup_iff.mp (List.nodup_dedup _), fun o => hperm.mem_iff.symm.trans List.mem_dedup⟩
  obtain ⟨front, back, hsorted, -, hfront⟩ := exists_sortBy_cons (fun path : Str => OrderDual.toDual path.length) t
    ((hosts.map tidy).dedup.erase t)
  have hfind : (front ++ t :: back).find? (fun host =>
      startswith (comparable lower true argument) (comparable lower true host)) = some t := by
    refine List.find?_eq_some_iff_append.mpr ⟨startswith_iff.mpr h.begins, front, back, rfl, fun o ho => ?_⟩
    rw [Bool.not_eq_true', Bool.eq_false_iff]
    intro hbegins
    have ho' : o ∈ hosts.map tidy := by
      rw [← horder.mem, ← mem_sortBy (f := fun path : Str => OrderDual.toDual path.length), hsorted]
      exact List.mem_append_left _ ho
    exact absurd (h.longest o ho' (startswith_iff.mp hbegins)) (not_le_of_gt (hfront o ho))
  refine ⟨_, horder, ?_⟩
  rw [rewrite, if_pos rfl, hsorted, hfind]

end

/-! ## Places -/

/-- What else is known of `str.lower`: a colon is no letter. -/
structure LowersDrives (lower : Str → Str) : Prop extends Lowers lower where
  nil : lower [] = []
  colon : ∀ c, lower [c, ':'] = lower [c] ++ [':']

theorem lowersDrives_map : LowersDrives (List.map Char.toLower) where
  toLowers := lowers_map
  nil := rfl
  colon _ := rfl

theorem flatMap_split (s : Str) : (split '/' s).flatMap ('/' :: ·) = '/' :: s := by
  have hjoin : ∀ ps : List Str, ps ≠ [] → ps.flatMap ('/' :: ·) = '/' :: join '/' ps := by
    intro ps hps
    induction ps with
    | nil => exact absurd rfl hps
    | cons p ps ih =>
      cases ps with
      | nil => exact congrArg (List.cons '/') (List.append_nil p)
      | cons q qs =>
        rw [List.flatMap_cons, ih (List.cons_ne_nil _ _)]
        rfl
  rw [hjoin _ (split_ne_nil '/' s), join_split]

/-- Names that are joined can be told apart. -/
theorem split_flatMap {ps : List Str} (h : ∀ p ∈ ps, '/' ∉ p) : split '/' (ps.flatMap ('/' :: ·)) = [] :: ps := by
  induction ps with
  | nil => rfl
  | cons p ps ih =>
    have hnil : split '/' ('/' :: (p ++ ps.flatMap ('/' :: ·))) = [] :: split '/' (p ++ ps.flatMap ('/' :: ·)) :=
      split_append_cons '/' [] _
    rw [List.flatMap_cons, List.cons_append, hnil]
    have htail := ih fun q hq => h q (List.mem_cons_of_mem p hq)
    have hp := split_of_notMem (h p List.mem_cons_self)
    cases hps : ps.flatMap ('/' :: ·) with
    | nil =>
      obtain rfl : ps = [] := by
        cases ps with
        | nil => rfl
        | cons q qs => cases hps
      rw [List.append_nil, hp]
    | cons c t =>
      obtain rfl : c = '/' := by
        cases ps with
        | nil => cases hps
        | cons q qs => exact (List.cons.inj hps).1.symm
      rw [hps] at htail
      have hcut : split '/' ('/' :: t) = [] :: split '/' t := split_append_cons '/' [] t
      rw [split_append_cons, hp, ← (List.cons.inj (hcut.symm.trans htail)).2]
      rfl

section

variable {lower : Str → Str} {hosts : List Str} {argument : Str}

theorem under_iff_contains (hlower : Lowers lower) {d : Str} (hd : Absolute true d) :
    Under lower d argument ↔ Contains lower true (tidy d) argument := by
  have hkey : key lower true d = split '/' (lower (slashes (tidy d))) := by
    rw [key, names_eq_split hd, split_lower hlower]
    rfl
  rw [Under, hkey, pieces, ← split_lower hlower, split_prefix_iff]
  simp [Contains, comparable]

theorem begins_of_under (hlower : Lowers lower) {d : Str} (hd : Absolute true d) (h : Under lower d argument) :
    Begins lower argument (tidy d) := by
  rcases (under_iff_contains hlower hd).mp h with heq | hslash | ⟨hposix, -⟩
  · exact ⟨[], (List.append_nil _).trans heq⟩
  · exact (List.prefix_append _ _).trans hslash
  · cases hposix

/-- The text of a host path: a drive, and perhaps names. -/
inductive Tidied : Str → Prop
  | drive (letter : Char) : letter.isAlpha = true → Tidied [letter, ':']
  | path (letter s : Char) (more : Str) : letter.isAlpha = true → isSeparator s = true → more ≠ [] →
      Tidied (letter :: ':' :: s :: more)

theorem tidied_of_absolute {d : Str} (hd : Absolute true d) : Tidied (tidy d) := by
  obtain ⟨letter, rest, hletter, htidy, hstrip, rfl | ⟨s, more, rfl, hs⟩⟩ := tidy_windows hd
  · exact htidy ▸ .drive letter hletter
  · rw [htidy]
    refine .path letter s more hletter hs ?_
    rintro rfl
    have hlast := List.rdropWhile_last_not isSeparator d
    rw [← hstrip, htidy] at hlast
    exact hlast (List.cons_ne_nil _ _) hs

theorem take_tidy {d : Str} (hd : Absolute true d) : d.take 1 = (tidy d).take 1 := by
  obtain ⟨letter, rest, -, htidy, hstrip, -⟩ := tidy_windows hd
  have hpre := List.rdropWhile_prefix isSeparator d
  rw [← hstrip, htidy] at hpre
  obtain ⟨more, rfl⟩ := hpre
  rw [htidy]
  rfl

theorem slashes_cons_separator {s : Char} (hs : isSeparator s = true) (t : Str) :
    slashes (s :: t) = '/' :: slashes t := by
  rcases of_decide_eq_true hs with rfl | rfl <;> rfl

theorem slashes_letter {letter : Char} (h : letter.isAlpha = true) : slashes [letter, ':'] = [letter, ':'] := by
  have hne : letter ≠ '\\' := by
    rintro rfl
    revert h
    decide
  show [if letter = '\\' then '/' else letter, ':'] = _
  rw [if_neg hne]

theorem pieces_letter {letter : Char} (h : letter.isAlpha = true) : pieces [letter, ':'] = [[letter, ':']] := by
  rw [pieces, slashes_letter h]
  refine split_of_notMem fun hmem => ?_
  rcases List.mem_cons.mp hmem with heq | hmem
  · rw [← heq] at h
    revert h
    decide
  · rcases List.mem_cons.mp hmem with heq | hmem
    · revert heq
      decide
    · cases hmem

/-- The pieces of a text that begins with a drive. -/
theorem pieces_path {letter s : Char} (h : letter.isAlpha = true) (hs : isSeparator s = true) (more : Str) :
    pieces (letter :: ':' :: s :: more) = [letter, ':'] :: pieces more := by
  have hcut : slashes (letter :: ':' :: s :: more) = slashes [letter, ':'] ++ '/' :: slashes more := by
    rw [← slashes_cons_separator hs, ← slashes_append]
    rfl
  have hone : split '/' (slashes [letter, ':']) = [[letter, ':']] := pieces_letter h
  rw [pieces, hcut, split_append_cons, hone]
  rfl

/-- The text of the container, with anything behind it. -/
theorem translate_of_tidied (lower : Str → Str) {t : Str} (ht : Tidied t) (hlength : t.length ≠ 2) :
    ∃ bind, translate lower true t = .ok bind ∧
      ∀ x, bind ++ slashes x = '/' :: (lower (t.take 1) ++ (pieces (t ++ x)).tail.flatMap ('/' :: ·)) := by
  cases ht with
  | drive letter => exact absurd rfl hlength
  | path letter s more hletter hs hmore =>
    have hnetwork : (startswith (letter :: ':' :: s :: more) ['\\', '\\'] ||
        startswith (letter :: ':' :: s :: more) ['/', '/']) = false := by
      rw [Bool.or_eq_false_iff]
      constructor <;> refine Bool.eq_false_iff.mpr fun h => ?_ <;>
        obtain ⟨-, h⟩ := List.cons_prefix_cons.mp (startswith_iff.mp h) <;>
        exact absurd (List.cons_prefix_cons.mp h).1 (by decide)
    have hdrive : drive (letter :: ':' :: s :: more) = some (letter, more) := if_pos ⟨hletter, hs⟩
    have hnil : slashes more ≠ [] := fun h => hmore (List.map_eq_nil_iff.mp h)
    refine ⟨'/' :: (lower [letter] ++ '/' :: slashes more), ?_, fun x => ?_⟩
    · show translateWindows lower _ = _
      rw [translateWindows, if_neg (by rw [hnetwork]; exact Bool.false_ne_true), hdrive]
      exact congrArg Except.ok (if_neg hnil)
    · have hpieces : pieces (letter :: ':' :: s :: more ++ x) = [letter, ':'] :: pieces (more ++ x) :=
        pieces_path hletter hs (more ++ x)
      rw [hpieces, List.tail_cons, pieces, flatMap_split, slashes_append]
      simp

theorem names_eq_pieces {d : Str} (hd : Absolute true d) : names true d = pieces (tidy d) := names_eq_split hd

/-- The first name of a path is its drive. -/
theorem head_pieces {t : Str} (ht : Tidied t) :
    ∃ letter, letter.isAlpha = true ∧ t.take 1 = [letter] ∧ ∃ ps, pieces t = [letter, ':'] :: ps := by
  cases ht with
  | drive letter h => exact ⟨letter, h, rfl, [], pieces_letter h⟩
  | path letter s more h hs => exact ⟨letter, h, rfl, pieces more, pieces_path h hs more⟩

/-- What stands in the container for an argument beneath a directory. -/
theorem place_below {d : Str} (hd : Absolute true d) :
    place lower d ++ (below d argument).flatMap ('/' :: ·) =
      '/' :: (lower ((tidy d).take 1) ++ (names true d ++ below d argument).tail.flatMap ('/' :: ·)) := by
  obtain ⟨letter, -, -, ps, hps⟩ := head_pieces (tidied_of_absolute hd)
  rw [place, names_eq_pieces hd, hps, take_tidy hd]
  simp

/-- The drive of an argument that begins with a path. -/
theorem head_of_begins (hlower : LowersDrives lower) {t : Str} (ht : Tidied t) (hlength : t.length ≠ 2)
    (h : Begins lower argument t) : ((pieces argument).map lower).head? = some (lower (t.take 1) ++ [':']) := by
  cases ht with
  | drive letter => exact absurd rfl hlength
  | path letter s more hletter hs =>
    obtain ⟨x, hx⟩ := h
    have hcut : comparable lower true (letter :: ':' :: s :: more) = lower [letter, ':'] ++ '/' :: lower (slashes more) := by
      show lower (slashes ([letter, ':'] ++ s :: more)) = _
      rw [slashes_append, slashes_cons_separator hs, slashes_letter hletter, hlower.slash]
    have hfree : '/' ∉ lower [letter, ':'] := by
      refine hlower.free _ fun hmem => ?_
      rw [← slashes_letter hletter] at hmem
      exact notMem_of_mem_split (c := '/') (s := slashes [letter, ':'])
        (by rw [← pieces, pieces_letter hletter, slashes_letter hletter]; exact List.mem_singleton_self _) hmem
    have hargument : lower (slashes argument) = comparable lower true argument := rfl
    rw [pieces, ← split_lower hlower.toLowers, hargument, ← hx, hcut, List.append_assoc, List.cons_append,
      split_append_cons, split_of_notMem hfree]
    exact congrArg some (hlower.colon letter)

theorem head_of_under (hlower : LowersDrives lower) {d : Str} (hd : Absolute true d) (h : Under lower d argument) :
    ((pieces argument).map lower).head? = some (lower ((tidy d).take 1) ++ [':']) := by
  obtain ⟨letter, -, htake, ps, hps⟩ := head_pieces (tidied_of_absolute hd)
  obtain ⟨more, hmore⟩ := h
  have hkey : key lower true d = (names true d).map lower := rfl
  rw [← hmore, hkey, names_eq_pieces hd, hps, htake]
  exact congrArg some (hlower.colon letter)

end

/-! ## Where it is as it is asked -/

/-- A longest path that the argument begins with is no whole drive; some directory is the argument or holds
it; and with the text of the path over the start of the argument, its pieces are the names of each such
directory and what goes on beneath it, but for the drive. -/
def Fits (lower : Str → Str) (hosts : List Str) (argument : Str) : Prop :=
  ∀ t, Longest lower hosts argument t → t.length ≠ 2 ∧ (∃ d ∈ hosts, Under lower d argument) ∧
    ∀ d ∈ hosts, Under lower d argument →
      (pieces (t ++ argument.drop t.length)).tail = (names true d ++ below d argument).tail

section

variable {lower : Str → Str} {hosts : List Str} {argument : Str}

/-- Names that are joined can be told apart, whatever stands before them. -/
theorem flatMap_inj {ps qs : List Str} (hps : ∀ p ∈ ps, '/' ∉ p) (hqs : ∀ q ∈ qs, '/' ∉ q)
    (h : ps.flatMap ('/' :: ·) = qs.flatMap ('/' :: ·)) : ps = qs := by
  have hsplit := congrArg (split '/') h
  rw [split_flatMap hps, split_flatMap hqs] at hsplit
  exact (List.cons.inj hsplit).2

/-- For a longest path, what is written is what is asked where the pieces are. -/
theorem rewritten_iff (hlower : LowersDrives lower) {t d : Str} (ht : Tidied t) (hbegins : Begins lower argument t)
    (hlength : t.length ≠ 2) (hd : Absolute true d) (hunder : Under lower d argument) :
    (translate lower true t).map (· ++ slashes (argument.drop t.length)) =
        .ok (place lower d ++ (below d argument).flatMap ('/' :: ·)) ↔
      (pieces (t ++ argument.drop t.length)).tail = (names true d ++ below d argument).tail := by
  obtain ⟨bind, hbind, hrest⟩ := translate_of_tidied lower ht hlength
  have hletters : lower (t.take 1) = lower ((tidy d).take 1) := by
    have hboth := (head_of_begins hlower ht hlength hbegins).symm.trans (head_of_under hlower hd hunder)
    exact List.append_cancel_right (Option.some.inj hboth)
  have hmap : (Except.ok bind : Except Str Str).map (· ++ slashes (argument.drop t.length)) =
      .ok (bind ++ slashes (argument.drop t.length)) := rfl
  rw [hbind, hmap, hrest, place_below hd, hletters]
  constructor
  · intro h
    have hflat := List.append_cancel_left (List.cons.inj (Except.ok.inj h)).2
    refine flatMap_inj (fun p hp => ?_) (fun p hp => ?_) hflat
    · exact notMem_of_mem_split (List.mem_of_mem_tail hp)
    · rcases List.mem_append.mp (List.mem_of_mem_tail hp) with hp | hp
      · exact notMem_of_mem_split hp
      · exact notMem_of_mem_split (List.mem_of_mem_drop hp)
  · intro h
    rw [h]

/-- Nothing is written for a whole drive. -/
theorem length_of_rewritten {t out : Str} (ht : Tidied t) {f : Str → Str}
    (h : (translate lower true t).map f = .ok out) : t.length ≠ 2 := by
  intro hlength
  cases ht with
  | drive letter =>
    have hnone : ∃ e, translateWindows lower [letter, ':'] = .error e := by
      rw [translateWindows]
      split
      · exact ⟨_, rfl⟩
      · exact ⟨_, rfl⟩
    obtain ⟨e, he⟩ := hnone
    have htranslate : translate lower true [letter, ':'] = .error e := he
    rw [htranslate] at h
    cases h
  | path letter s more => simp at hlength

/-- An argument that a path was put into is not the argument. -/
theorem rewritten_ne (hlower : LowersDrives lower) {t : Str} (ht : Tidied t) (hbegins : Begins lower argument t) :
    (translate lower true t).map (· ++ slashes (argument.drop t.length)) ≠ .ok argument := by
  intro h
  by_cases hlength : t.length = 2
  · exact length_of_rewritten ht h hlength
  · obtain ⟨bind, hbind, hrest⟩ := translate_of_tidied lower ht hlength
    rw [hbind] at h
    have hargument : bind ++ slashes (argument.drop t.length) = argument := Except.ok.inj h
    rw [hrest] at hargument
    have hhead := head_of_begins hlower ht hlength hbegins
    rw [← hargument, pieces, slashes_cons_separator (by decide)] at hhead
    have hcut : ∀ s, split '/' ('/' :: s) = [] :: split '/' s := fun s => split_append_cons '/' [] s
    rw [hcut, List.map_cons, List.head?_cons, hlower.nil] at hhead
    exact absurd (Option.some.inj hhead).symm (List.append_ne_nil_of_right_ne_nil _ (List.cons_ne_nil _ _))

/-- **Where an argument is rewritten as it is asked.** -/
theorem rewrites_iff (hlower : LowersDrives lower) (hhosts : ∀ d ∈ hosts, Absolute true d) (argument : Str) :
    Rewrites lower hosts argument ↔ Fits lower hosts argument := by
  have htidied : ∀ t ∈ hosts.map tidy, Tidied t := by
    intro t ht
    obtain ⟨d, hd, rfl⟩ := List.mem_map.mp ht
    exact tidied_of_absolute (hhosts d hd)
  constructor
  · intro h t ht
    obtain ⟨tidied, horder, hrewrite⟩ := exists_rewrite ht
    obtain ⟨hheld, hfree⟩ := h tidied horder
    rw [hrewrite] at hheld hfree
    have hsome : ∃ d ∈ hosts, Under lower d argument := by
      by_contra hnone
      exact rewritten_ne hlower (htidied t ht.mem) ht.begins (hfree fun d hd hu => hnone ⟨d, hd, hu⟩)
    have hlength : t.length ≠ 2 := by
      obtain ⟨d, hd, hu⟩ := hsome
      exact length_of_rewritten (htidied t ht.mem) (hheld d hd hu)
    exact ⟨hlength, hsome, fun d hd hu =>
      (rewritten_iff hlower (htidied t ht.mem) ht.begins hlength (hhosts d hd) hu).mp (hheld d hd hu)⟩
  · intro h tidied horder
    rcases rewrite_cases horder with ⟨hnone, hrewrite⟩ | ⟨t, ht, hrewrite⟩
    · refine ⟨fun d hd hu => ?_, fun _ => hrewrite⟩
      exact absurd (begins_of_under hlower.toLowers (hhosts d hd) hu) (hnone _ (List.mem_map_of_mem hd))
    · obtain ⟨hlength, ⟨d, hd, hu⟩, hspelled⟩ := h t ht
      refine ⟨fun d hd hu => ?_, fun hnone => absurd hu (hnone d hd)⟩
      rw [hrewrite]
      exact (rewritten_iff hlower (htidied t ht.mem) ht.begins hlength (hhosts d hd) hu).mpr (hspelled d hd hu)

end

theorem rewrites_iff_srv : Rewrites (List.map Char.toLower) ["C:\\srv\\".toList] "c:/SRV/x".toList ↔
    Fits (List.map Char.toLower) ["C:\\srv\\".toList] "c:/SRV/x".toList :=
  rewrites_iff lowersDrives_map (by decide) _

/-- A file beside a directory, with a name that goes on. -/
theorem not_rewrites_sibling : ¬ ∀ (hosts : List Str) (argument : Str), (∀ d ∈ hosts, Absolute true d) →
    Rewrites (List.map Char.toLower) hosts argument := by
  intro h
  have hlongest : Longest (List.map Char.toLower) ["C:\\srv".toList] "C:\\srv-other".toList "C:\\srv".toList := by
    refine ⟨by decide, ?_, fun o ho _ => ?_⟩
    · unfold Begins
      decide
    · rw [List.mem_singleton.mp ho]
      decide
  obtain ⟨tidied, horder, hrewrite⟩ := exists_rewrite hlongest
  have hnone : ∀ d ∈ ["C:\\srv".toList], ¬ Under (List.map Char.toLower) d "C:\\srv-other".toList := by
    intro d hd
    rw [List.mem_singleton.mp hd, under_iff_contains lowers_map (by decide)]
    decide
  have hsame := (h _ "C:\\srv-other".toList (by decide) tidied horder).2 hnone
  rw [hrewrite] at hsame
  exact rewritten_ne lowersDrives_map (.path 'C' '\\' "srv".toList (by decide) (by decide) (by decide))
    hlongest.begins hsame

end PartCAD.Sandbox.HostPaths
