import PartCAD.Document.Html

/-!
# The tags of a document do not depend on its texts

* `Kept` : no text of the document opens, closes or breaks out of anything;
* `blockTags`, `documentTags` : the tags of a document, from its shape;
* `SameDocument` : documents that differ in their texts and addresses only;
* `same_tags_iff` : **when the tags are the same, and every text is kept**.
-/

namespace PartCAD.Documents

open PartCAD.Lib PartCAD.Lib.Html

/-! ## Texts that are kept -/

/-- The text of some pieces. -/
def written (ps : List Piece) : Str := ps.flatMap Piece.text

/-- What is inserted brings no tag, and leaves the tokenizer where it is: between tags, in the value of
an attribute, or in the script. -/
def Kept : State → List Piece → Prop
  | _, [] => True
  | q, .fixed s :: ps => Kept (run q s).1 ps
  | q, .inserted s :: ps => run q s = (q, []) ∧ Kept q ps

/-- The pieces keep their texts, and these are their tags. -/
structure Writes (q : State) (ps : List Piece) (q' : State) (ts : List Tag) : Prop where
  kept : Kept q ps
  reads : run q (written ps) = (q', ts)

theorem kept_append {q : State} {ps ps' : List Piece} :
    Kept q (ps ++ ps') ↔ Kept q ps ∧ Kept (run q (written ps)).1 ps' := by
  induction ps generalizing q with
  | nil => exact (and_iff_right trivial).symm
  | cons p ps ih =>
    have hwritten : written (p :: ps) = p.text ++ written ps := List.flatMap_cons
    rw [hwritten, run_append]
    cases p with
    | fixed s => exact ih
    | inserted s =>
      rw [List.cons_append, Kept, Kept, ih, and_assoc]
      refine and_congr_right fun hs => ?_
      rw [Piece.text, hs]

namespace Writes

variable {q q' q'' : State} {ps ps' : List Piece} {ts ts' : List Tag} {s : Str}

theorem nil : Writes q [] q [] := ⟨trivial, rfl⟩

theorem append (h : Writes q ps q' ts) (h' : Writes q' ps' q'' ts') :
    Writes q (ps ++ ps') q'' (ts ++ ts') := by
  constructor
  · refine kept_append.2 ⟨h.kept, ?_⟩
    rw [h.reads]
    exact h'.kept
  · have hwritten : written (ps ++ ps') = written ps ++ written ps' := List.flatMap_append
    rw [hwritten, run_append, h.reads, h'.reads]

theorem fixed (h : run q s = (q', ts)) : Writes q [.fixed s] q' ts := by
  refine ⟨trivial, ?_⟩
  rw [written, List.flatMap_singleton]
  exact h

theorem inserted (h : run q s = (q, [])) : Writes q [.inserted s] q [] := by
  refine ⟨⟨h, trivial⟩, ?_⟩
  rw [written, List.flatMap_singleton]
  exact h

theorem cons {p : Piece} (h : Writes q [p] q' ts) (h' : Writes q' ps q'' ts') :
    Writes q (p :: ps) q'' (ts ++ ts') :=
  h.append h'

theorem flatMap {α : Type} {f : α → List Piece} {t : α → List Tag} {l : List α}
    (h : ∀ x ∈ l, Writes q (f x) q (t x)) : Writes q (l.flatMap f) q (l.flatMap t) := by
  induction l with
  | nil => exact nil
  | cons x l ih =>
    rw [List.flatMap_cons, List.flatMap_cons]
    exact (h x List.mem_cons_self).append (ih fun y hy => h y (List.mem_cons_of_mem _ hy))

end Writes

/-! ## Escaped texts -/

theorem notMem_escape {c : Char} (hc : c = '<' ∨ c = '"') (s : Str) : c ∉ escape s := by
  intro h
  obtain ⟨d, -, hd⟩ := List.mem_flatMap.1 h
  unfold escapeChar at hd
  split_ifs at hd with hamp hless hmore hquote hsingle
  case neg =>
    obtain rfl := List.mem_singleton.1 hd
    rcases hc with rfl | rfl
    · exact hless rfl
    · exact hquote rfl
  all_goals rcases hc with rfl | rfl <;> exact absurd hd (by decide)

theorem run_content_escape (s : Str) : run .content (escape s) = (.content, []) :=
  run_content (notMem_escape (.inl rfl) s)

theorem run_value_escape (tag : Tag) (s : Str) :
    run (.doubleQuoted tag) (escape s) = (.doubleQuoted tag, []) :=
  run_value (notMem_escape (.inr rfl) s)

theorem writes_content (s : Str) : Writes .content [insert s] .content [] :=
  .inserted (run_content_escape s)

theorem writes_value (tag : Tag) (s : Str) :
    Writes (.doubleQuoted tag) [insert s] (.doubleQuoted tag) [] :=
  .inserted (run_value_escape tag s)

/-! ## Numbers -/

theorem notMem_intText {c : Char} (hc : c.isDigit = false) (hminus : c ≠ '-') (n : ℤ) : c ∉ intText n := by
  intro h
  cases n with
  | ofNat n => exact Bool.false_ne_true (hc.symm.trans (isDigit_of_mem_toDigits h))
  | negSucc n =>
    rcases List.mem_cons.1 h with h | h
    · exact hminus h
    · exact Bool.false_ne_true (hc.symm.trans (isDigit_of_mem_toDigits h))

theorem run_value_intText (tag : Tag) (n : ℤ) :
    run (.doubleQuoted tag) (intText n) = (.doubleQuoted tag, []) :=
  run_value (notMem_intText rfl (by decide) n)

/-! ## The tags of a block -/

def start (name : String) (attributes : List String) : Tag :=
  ⟨false, name.toList, attributes.map String.toList⟩

def stop (name : String) : Tag := ⟨true, name.toList, []⟩

/-- A tag, a text and the end of it. -/
def around (name : String) (attributes : List String) : List Tag := [start name attributes, stop name]

/-- The anchor around a text, if there is an address. -/
def linkTags (url : Option Str) : List Tag :=
  match given url with
  | none => []
  | some _ => around "a" ["href"]

/-- `h1` to `h6` -/
def headingName (level : ℤ) : Str := 'h' :: intText (headingLevel level)

def segmentTags : Segment → List Tag
  | .plain _ => []
  | .link _ _ => around "a" ["href"]

def cellTags (name : String) : List Tag := around name ["style"]

def rowTags (as : List Align) (row : List (Option Str)) : List Tag :=
  start "tr" [] ::
    (row.zip (as ++ List.replicate (row.length - as.length) .left)).flatMap (fun _ => cellTags "td") ++
    [stop "tr"]

def captionTags (caption : Option Str) : List Tag :=
  match given caption with
  | none => []
  | some _ => around "figcaption" []

variable {H : Type} (m : Machine H)

def figureTags (image : Image) : List Tag :=
  match imageSource m image with
  | none => []
  | some _ => [start "figure" [], start "img" ["src", "alt"]] ++ captionTags image.caption ++ [stop "figure"]

/-- The tags of a block. -/
def blockTags : Block H → List Tag
  | .heading _ level url =>
    ⟨false, headingName level, []⟩ :: linkTags url ++ [⟨true, headingName level, []⟩]
  | .paragraph text =>
    start "p" [] :: [start "br" []].intercalate ((Text.split '\n' text).map fun _ => []) ++ [stop "p"]
  | .properties items =>
    start "dl" ["class"] :: items.flatMap (fun _ => around "dt" [] ++ around "dd" []) ++ [stop "dl"]
  | .imageRow images _ =>
    let figures := images.filter fun i => (imageSource m i).isSome
    if figures = [] then []
    else start "div" ["class", "style"] :: figures.flatMap (figureTags m) ++ [stop "div"]
  | .table columns rows as =>
    let as := aligns columns as
    [start "table" [], start "thead" [], start "tr" []] ++
      (columns.zip as).flatMap (fun _ => cellTags "th") ++
      [stop "tr", stop "thead", start "tbody" []] ++ rows.flatMap (rowTags as) ++
      [stop "tbody", stop "table"]
  | .linkList items =>
    start "ul" ["class"] :: items.flatMap (fun _ => start "li" [] :: around "a" ["href"] ++ [stop "li"]) ++
      [stop "ul"]

/-! ## Blocks keep their texts -/

theorem writes_joined {q : State} {s : Str} {ts : List Tag} (hs : run q s = (q, ts))
    {parts : List (List Piece)} {tags : List (List Tag)}
    (h : List.Forall₂ (fun ps ts => Writes q ps q ts) parts tags) :
    Writes q (joined (.fixed s) parts) q (ts.intercalate tags) := by
  induction h with
  | nil => exact .nil
  | cons hfirst hrest ih =>
    cases hrest with
    | nil =>
      rw [joined, List.intercalate_singleton, List.intercalate_singleton]
      exact hfirst
    | cons hsecond hrest =>
      rw [joined, List.intercalate_cons_cons, List.intercalate_cons_cons]
      exact (hfirst.append (.fixed hs)).append ih

theorem writes_link {s url : Str} :
    Writes .content [markup "<a href=\"", insert url, markup "\">", insert s, markup "</a>"] .content
      (around "a" ["href"]) := by
  have hopen : run .content "<a href=\"".toList = (.doubleQuoted (start "a" ["href"]), []) := rfl
  have hclose : run (.doubleQuoted (start "a" ["href"])) "\">".toList =
      (.content, [start "a" ["href"]]) := rfl
  have hend : run .content "</a>".toList = (.content, [stop "a"]) := rfl
  exact (Writes.fixed hopen).cons ((writes_value _ url).cons ((Writes.fixed hclose).cons
    ((writes_content s).cons (Writes.fixed hend))))

theorem writes_segment (segment : Segment) : Writes .content (htmlSegment segment) .content (segmentTags segment) := by
  cases segment with
  | plain s => exact writes_content s
  | link label url => exact writes_link

theorem writes_inline (text : Str) :
    Writes .content (htmlInline text) .content ((segments text).flatMap segmentTags) :=
  .flatMap fun segment _ => writes_segment segment

theorem writes_cell {tag : String} (htag : tag = "th" ∨ tag = "td") (align : Align) (s : Str) :
    Writes .content (htmlCell tag align s) .content (cellTags tag) := by
  have hopen : run .content
      ('<' :: tag.toList ++ " style=\"text-align: ".toList ++ align.text.toList ++ "\">".toList) =
      (.content, [start tag ["style"]]) := by
    rcases htag with rfl | rfl <;> cases align <;> rfl
  have hend : run .content ("</".toList ++ tag.toList ++ ">".toList) = (.content, [stop tag]) := by
    rcases htag with rfl | rfl <;> rfl
  exact (Writes.fixed hopen).cons ((writes_content s).cons (Writes.fixed hend))

theorem writes_row (as : List Align) (row : List (Option Str)) :
    Writes .content (htmlRow as row) .content (rowTags as row) := by
  have hopen : run .content "<tr>".toList = (.content, [start "tr" []]) := rfl
  have hend : run .content "</tr>".toList = (.content, [stop "tr"]) := rfl
  have hcells := Writes.flatMap (q := .content) (l := row.zip (as ++ List.replicate (row.length - as.length) .left))
    (f := fun c => htmlCell "td" c.2 (c.1.getD [])) (t := fun _ => cellTags "td")
    fun c _ => writes_cell (.inr rfl) c.2 _
  exact ((Writes.fixed hopen).cons hcells).append (.fixed hend)

theorem writes_caption (caption : Option Str) :
    Writes .content
      (match given caption with
      | none => []
      | some s => [markup "<figcaption>", insert s, markup "</figcaption>"])
      .content (captionTags caption) := by
  have hopen : run .content "<figcaption>".toList = (.content, [start "figcaption" []]) := rfl
  have hend : run .content "</figcaption>".toList = (.content, [stop "figcaption"]) := rfl
  unfold captionTags
  cases given caption with
  | none => exact .nil
  | some s => exact (Writes.fixed hopen).cons ((writes_content s).cons (.fixed hend))

theorem writes_figure (image : Image) :
    Writes .content (htmlFigure m image) .content (figureTags m image) := by
  unfold htmlFigure figureTags
  cases imageSource m image with
  | none => exact .nil
  | some source =>
    have hopen : run .content "<figure><img src=\"".toList =
        (.doubleQuoted (start "img" ["src"]), [start "figure" []]) := rfl
    have halt : run (.doubleQuoted (start "img" ["src"])) "\" alt=\"".toList =
        (.doubleQuoted (start "img" ["src", "alt"]), []) := rfl
    have hclose : run (.doubleQuoted (start "img" ["src", "alt"])) "\"/>".toList =
        (.content, [start "img" ["src", "alt"]]) := rfl
    have hend : run .content "</figure>".toList = (.content, [stop "figure"]) := rfl
    have himage := (Writes.fixed hopen).cons ((writes_value _ source).cons ((Writes.fixed halt).cons
      ((writes_value _ image.alt).cons (Writes.fixed hclose))))
    exact (himage.append (writes_caption image.caption)).append (.fixed hend)

theorem writes_heading (text : Str) (level : ℤ) (url : Option Str) :
    Writes .content (htmlBlock m (.heading text level url)) .content
      (blockTags m (.heading text level url)) := by
  have hopen : run .content ('<' :: headingName level ++ ['>']) =
        (.content, [⟨false, headingName level, []⟩]) ∧
      run .content ("</".toList ++ headingName level ++ ['>']) =
        (.content, [⟨true, headingName level, []⟩]) := by
    have hlevel : headingLevel level = 1 ∨ headingLevel level = 2 ∨ headingLevel level = 3 ∨
        headingLevel level = 4 ∨ headingLevel level = 5 ∨ headingLevel level = 6 := by
      unfold headingLevel
      omega
    unfold headingName
    rcases hlevel with h | h | h | h | h | h <;> rw [h] <;> exact ⟨rfl, rfl⟩
  have hlink : Writes .content
      (match given url with
      | none => [insert text]
      | some u => [markup "<a href=\"", insert u, markup "\">", insert text, markup "</a>"])
      .content (linkTags url) := by
    unfold linkTags
    cases given url with
    | none => exact writes_content text
    | some u => exact writes_link
  exact ((Writes.fixed hopen.1).cons hlink).append (.fixed hopen.2)

theorem writes_paragraph (text : Str) :
    Writes .content (htmlBlock m (.paragraph text)) .content (blockTags m (.paragraph text)) := by
  have hopen : run .content "<p>".toList = (.content, [start "p" []]) := rfl
  have hbreak : run .content "<br/>".toList = (.content, [start "br" []]) := rfl
  have hend : run .content "</p>".toList = (.content, [stop "p"]) := rfl
  have hlines : List.Forall₂ (fun ps ts => Writes .content ps .content ts)
      ((Text.split '\n' text).map fun s => [insert s]) ((Text.split '\n' text).map fun _ => []) := by
    rw [List.forall₂_map_left_iff, List.forall₂_map_right_iff, List.forall₂_same]
    exact fun s _ => writes_content s
  exact ((Writes.fixed hopen).cons (writes_joined hbreak hlines)).append (.fixed hend)

theorem writes_properties (items : List (Str × Str)) :
    Writes .content (htmlBlock m (.properties items)) .content (blockTags m (.properties items)) := by
  have hopen : run .content "<dl class=\"properties\">".toList = (.content, [start "dl" ["class"]]) := rfl
  have hterm : run .content "<dt>".toList = (.content, [start "dt" []]) := rfl
  have hmiddle : run .content "</dt><dd>".toList = (.content, [stop "dt", start "dd" []]) := rfl
  have hdefinition : run .content "</dd>".toList = (.content, [stop "dd"]) := rfl
  have hend : run .content "</dl>".toList = (.content, [stop "dl"]) := rfl
  have hitems := Writes.flatMap (q := .content) (l := items) (t := fun _ => around "dt" [] ++ around "dd" [])
    fun item _ => (Writes.fixed hterm).cons ((writes_content item.1).cons ((Writes.fixed hmiddle).cons
      ((writes_content item.2).cons (Writes.fixed hdefinition))))
  exact ((Writes.fixed hopen).cons hitems).append (.fixed hend)

theorem writes_imageRow (images : List Image) (height : H) :
    Writes .content (htmlBlock m (.imageRow images height)) .content
      (blockTags m (.imageRow images height)) := by
  rw [htmlBlock, blockTags]
  split_ifs with hnone
  · exact .nil
  · have hopen : run .content ("<div class=\"images\" style=\"flex-basis: ".toList ++
          intText (m.percent height) ++ "%\">".toList) = (.content, [start "div" ["class", "style"]]) := by
      have hfront : run .content "<div class=\"images\" style=\"flex-basis: ".toList =
          (.doubleQuoted (start "div" ["class", "style"]), []) := rfl
      rw [run_append, run_append, hfront]
      simp only [run_value_intText]
      rfl
    have hend : run .content "</div>".toList = (.content, [stop "div"]) := rfl
    have hfigures := Writes.flatMap (q := .content) (f := htmlFigure m) (t := figureTags m)
      (l := images.filter fun i => (imageSource m i).isSome) fun image _ => writes_figure m image
    exact ((Writes.fixed hopen).cons hfigures).append (.fixed hend)

theorem writes_table (columns : List Str) (rows : List (List (Option Str))) (as : Option (List Align)) :
    Writes .content (htmlBlock m (.table columns rows as)) .content
      (blockTags m (.table columns rows as)) := by
  have hopen : run .content "<table><thead><tr>".toList =
      (.content, [start "table" [], start "thead" [], start "tr" []]) := rfl
  have hmiddle : run .content "</tr></thead><tbody>".toList =
      (.content, [stop "tr", stop "thead", start "tbody" []]) := rfl
  have hend : run .content "</tbody></table>".toList = (.content, [stop "tbody", stop "table"]) := rfl
  have hhead := Writes.flatMap (q := .content) (l := columns.zip (aligns columns as))
    (t := fun _ => cellTags "th") fun c _ => writes_cell (.inl rfl) c.2 c.1
  have hbody := Writes.flatMap (q := .content) (l := rows) (t := rowTags (aligns columns as))
    fun row _ => writes_row (aligns columns as) row
  have htop := ((Writes.fixed hopen).cons hhead).append ((Writes.fixed hmiddle).cons hbody)
  have hall := htop.append (Writes.fixed hend)
  simp only [htmlBlock, blockTags, markup, List.cons_append, List.nil_append, List.append_assoc] at hall ⊢
  exact hall

theorem writes_linkList (items : List (Str × Str)) :
    Writes .content (htmlBlock m (.linkList items)) .content (blockTags m (.linkList items)) := by
  have hopen : run .content "<ul class=\"links\">".toList = (.content, [start "ul" ["class"]]) := rfl
  have hitem : run .content "<li><a href=\"".toList =
      (.doubleQuoted (start "a" ["href"]), [start "li" []]) := rfl
  have hclose : run (.doubleQuoted (start "a" ["href"])) "\">".toList =
      (.content, [start "a" ["href"]]) := rfl
  have hlast : run .content "</a></li>".toList = (.content, [stop "a", stop "li"]) := rfl
  have hend : run .content "</ul>".toList = (.content, [stop "ul"]) := rfl
  have hitems := Writes.flatMap (q := .content) (l := items)
    (t := fun _ => start "li" [] :: around "a" ["href"] ++ [stop "li"])
    fun item _ => (Writes.fixed hitem).cons ((writes_value _ item.2).cons ((Writes.fixed hclose).cons
      ((writes_content item.1).cons (Writes.fixed hlast))))
  exact ((Writes.fixed hopen).cons hitems).append (.fixed hend)

/-- **A block keeps its texts**, and its tags are those of its shape. -/
theorem writes_block (block : Block H) : Writes .content (htmlBlock m block) .content (blockTags m block) := by
  cases block with
  | heading text level url => exact writes_heading m text level url
  | paragraph text => exact writes_paragraph m text
  | properties items => exact writes_properties m items
  | imageRow images height => exact writes_imageRow m images height
  | table columns rows as => exact writes_table m columns rows as
  | linkList items => exact writes_linkList m items

/-! ## Pages -/

def footerTags (footer : Option Str) : List Tag :=
  match given footer with
  | none => []
  | some s => start "div" ["class"] :: (segments s).flatMap segmentTags ++ [stop "div"]

def pageTags (footer : Option Str) (page : Page H) : List Tag :=
  start "section" ["class", "id", "data-title"] :: page.blocks.flatMap (blockTags m) ++ footerTags footer ++
    [stop "section"]

theorem intercalate_nil_left {α : Type} (ls : List (List α)) : ([] : List α).intercalate ls = ls.flatten := by
  induction ls with
  | nil => rfl
  | cons l ls ih =>
    cases ls with
    | nil => rw [List.intercalate_singleton, List.flatten_singleton]
    | cons l' ls => rw [List.intercalate_cons_cons, ih, List.append_nil, ← List.flatten_cons]

/-- Pieces that are joined by a line break. -/
theorem writes_lines {parts : List (List Piece)} {ts : List (List Tag)}
    (h : List.Forall₂ (fun ps ts => Writes .content ps .content ts) parts ts) :
    Writes .content (joined (markup "\n") parts) .content ts.flatten := by
  have hbreak : run .content "\n".toList = (.content, []) := rfl
  rw [← intercalate_nil_left]
  exact writes_joined hbreak h

theorem writes_footer (footer : Option Str) :
    Writes .content (htmlFooter footer) .content (footerTags footer) := by
  unfold htmlFooter footerTags
  cases given footer with
  | none => exact .nil
  | some s =>
    have hopen : run .content "\n<div class=\"footer\">".toList = (.content, [start "div" ["class"]]) := rfl
    have hend : run .content "</div>".toList = (.content, [stop "div"]) := rfl
    exact ((Writes.fixed hopen).cons (writes_inline s)).append (.fixed hend)

theorem writes_page (footer : Option Str) (page : Page H) (number : ℕ) :
    Writes .content (htmlPage m (htmlFooter footer) page number) .content (pageTags m footer page) := by
  have hopen : run .content ("<section class=\"page\" id=\"page-".toList ++ intText number ++
      "\" data-title=\"".toList) =
      (.doubleQuoted (start "section" ["class", "id", "data-title"]), []) := by
    have hfront : run .content "<section class=\"page\" id=\"page-".toList =
        (.doubleQuoted (start "section" ["class", "id"]), []) := rfl
    rw [run_append, run_append, hfront]
    simp only [run_value_intText]
    rfl
  have hclose : run (.doubleQuoted (start "section" ["class", "id", "data-title"])) "\">\n".toList =
      (.content, [start "section" ["class", "id", "data-title"]]) := rfl
  have hend : run .content "\n</section>".toList = (.content, [stop "section"]) := rfl
  have hblocks : Writes .content (joined (markup "\n") (page.blocks.map (htmlBlock m))) .content
      (page.blocks.flatMap (blockTags m)) := by
    rw [List.flatMap_def]
    refine writes_lines ?_
    rw [List.forall₂_map_left_iff, List.forall₂_map_right_iff, List.forall₂_same]
    exact fun block _ => writes_block m block
  have htop := (Writes.fixed hopen).cons ((writes_value _ (page.title.getD [])).cons (Writes.fixed hclose))
  exact ((htop.append hblocks).append (writes_footer footer)).append (.fixed hend)

theorem writes_pages (footer : Option Str) (pages : List (Page H)) :
    Writes .content
      (joined (markup "\n") (pages.mapIdx fun i page => htmlPage m (htmlFooter footer) page (i + 1)))
      .content (pages.flatMap (pageTags m footer)) := by
  rw [List.flatMap_def]
  refine writes_lines ?_
  have hall : ∀ number : ℕ → ℕ, List.Forall₂ (fun ps ts => Writes .content ps .content ts)
      (pages.mapIdx fun i page => htmlPage m (htmlFooter footer) page (number i))
      (pages.map (pageTags m footer)) := by
    induction pages with
    | nil => exact fun _ => .nil
    | cons page pages ih =>
      intro number
      rw [List.mapIdx_cons, List.map_cons]
      exact .cons (writes_page m footer page (number 0)) (ih fun i => number (i + 1))
  exact hall fun i => i + 1

/-! ## The script -/

/-- What ends the script is not in the title of a page, in whatever case. -/
def Clean (d : Document H) : Prop :=
  ∀ page ∈ d.pages, ¬ ending "script".toList <:+: (page.title.getD []).map lower

/-- In the script. -/
def inScript : State := .raw "script".toList 0

/-- The titles as they stand in the script. -/
def titles (d : Document H) : List Piece := joined (markup ", ") (d.pages.map fun page => [titleLiteral page])

/-! ### Literals of JavaScript -/

theorem notMem_hexText (w n : ℕ) : '<' ∉ hexText w n := by
  induction w generalizing n with
  | zero => exact List.not_mem_nil
  | succ w ih =>
    rw [hexText, List.mem_append, List.mem_singleton, not_or]
    refine ⟨ih _, ?_⟩
    have hdigit : ∀ k < 16, '<' ≠ Nat.digitChar k := by decide
    exact hdigit _ (Nat.mod_lt _ (by omega))

/-- A character stays as it is, or is written with a backslash. -/
theorem escapeChar_cases (c : Char) :
    Json.escapeChar c = [c] ∨
      (c = '"' ∨ c = '\\' ∨ c.toNat < 32 ∨ 126 < c.toNat) ∧
        ∃ rest, Json.escapeChar c = '\\' :: rest ∧ '<' ∉ rest := by
  by_cases hplain : c ≠ '"' ∧ c ≠ '\\' ∧ 32 ≤ c.toNat ∧ c.toNat ≤ 126
  · obtain ⟨hquote, hslash, hlow, hhigh⟩ := hplain
    left
    simp only [Json.escapeChar]
    rw [if_neg hquote, if_neg hslash, if_neg (by omega), if_neg (by omega), if_neg (by omega),
      if_neg (by omega), if_neg (by omega), if_pos ⟨hlow, hhigh⟩]
  · right
    refine ⟨by grind, ?_⟩
    simp only [Json.escapeChar]
    split_ifs with h1 h2 h3 h4 h5 h6 h7 h8 h9
    · exact ⟨_, rfl, by decide⟩
    · exact ⟨_, rfl, by decide⟩
    · exact ⟨_, rfl, by decide⟩
    · exact ⟨_, rfl, by decide⟩
    · exact ⟨_, rfl, by decide⟩
    · exact ⟨_, rfl, by decide⟩
    · exact ⟨_, rfl, by decide⟩
    · exact absurd ⟨h1, h2, h8⟩ hplain
    · refine ⟨_, rfl, ?_⟩
      rw [List.mem_cons, not_or]
      exact ⟨by decide, notMem_hexText _ _⟩
    · refine ⟨'u' :: hexText 4 _ ++ '\\' :: 'u' :: hexText 4 _, rfl, ?_⟩
      simp only [List.mem_cons, List.mem_append, notMem_hexText, or_false, not_or]
      exact ⟨by decide, by decide, by decide⟩

theorem advance_escaped {c : Char} (hc : c = '"' ∨ c = '\\' ∨ c.toNat < 32 ∨ 126 < c.toNat) (k : ℕ) :
    advance "script".toList k c = some 0 := by
  have hletters : (ending "script".toList).all
      (fun d => d ≠ '"' ∧ d ≠ '\\' ∧ 32 ≤ d.toNat ∧ d.toNat ≤ 126) = true := by decide
  refine advance_zero fun hmem => ?_
  obtain ⟨hquote, hslash, hlow, hhigh⟩ := of_decide_eq_true (List.all_eq_true.1 hletters _ hmem)
  rcases lower_cases c with heq | ⟨hupper, hlast, -⟩
  · rw [heq] at hquote hslash hlow hhigh
    rcases hc with h | h | h | h
    · exact hquote h
    · exact hslash h
    · omega
    · omega
  · have hq : ('"' : Char).toNat = 34 := rfl
    have hs : ('\\' : Char).toNat = 92 := rfl
    rcases hc with rfl | rfl | h | h
    · omega
    · omega
    · omega
    · omega

theorem feed_escapeChar (k : ℕ) (c : Char) :
    feed "script".toList k (Json.escapeChar c) = advance "script".toList k c := by
  rcases escapeChar_cases c with h | ⟨hc, rest, h, hrest⟩
  · rw [h, feed]
    cases advance "script".toList k c with
    | none => rfl
    | some j => rfl
  · have hslash : advance "script".toList k '\\' = some 0 := advance_escaped (.inr (.inl rfl)) k
    rw [h, feed, hslash, advance_escaped hc]
    exact feed_content hrest

/-- The escapes of a literal end nothing that its text does not end. -/
theorem feed_escaped (k : ℕ) (s : Str) :
    feed "script".toList k (s.flatMap Json.escapeChar) = feed "script".toList k s := by
  induction s generalizing k with
  | nil => rfl
  | cons c s ih =>
    rw [List.flatMap_cons, feed_append, feed_escapeChar, feed]
    cases advance "script".toList k c with
    | none => rfl
    | some j => exact ih j

theorem feed_dumpsStr (s : Str) :
    feed "script".toList 0 (Json.dumpsStr s) = (feed "script".toList 0 s).map fun _ => 0 := by
  have hquote : ∀ k, advance "script".toList k '"' = some 0 := fun k => advance_escaped (.inl rfl) k
  rw [Json.dumpsStr, List.cons_append, feed, hquote]
  show feed "script".toList 0 (s.flatMap Json.escapeChar ++ ['"']) = _
  rw [feed_append, feed_escaped]
  cases feed "script".toList 0 s with
  | none => rfl
  | some k =>
    show feed "script".toList k ['"'] = some 0
    rw [feed, hquote]
    rfl

/-- **A title stays in the script** when it does not hold what ends it. -/
theorem run_title_iff (s : Str) :
    run inScript (Json.dumpsStr s) = (inScript, []) ↔ ¬ ending "script".toList <:+: s.map lower := by
  have hinfix := @feed_eq_none_iff "script".toList (by decide) s 0 (by decide)
  rw [List.take_zero, List.nil_append] at hinfix
  rw [← hinfix]
  have hliteral := feed_dumpsStr s
  cases hs : feed "script".toList 0 s with
  | none =>
    rw [hs] at hliteral
    exact iff_of_false (run_raw_left hliteral 0) (not_not_intro rfl)
  | some k =>
    rw [hs] at hliteral
    exact iff_of_true (run_raw hliteral) (Option.some_ne_none k)

/-! ## The file -/

theorem run_raw_content {name s : Str} (h : '<' ∉ s) : run (.raw name 0) s = (.raw name 0, []) :=
  run_raw (feed_content h)

theorem notMem_lines {ls : List String} (h : ∀ l ∈ ls, '<' ∉ l.toList) : '<' ∉ lines ls := by
  intro hmem
  obtain ⟨l, hl, hc⟩ := List.mem_flatMap.1 hmem
  rcases List.mem_append.1 hc with hc | hc
  · exact h l hl hc
  · exact absurd hc (by decide)

/-- A literal text is known by its characters. -/
theorem notMem_literal {c : Char} {l : List Char} {s : String} (h : String.ofList l = s) (hc : c ∉ l) :
    c ∉ s.toList := by
  rw [← h, String.toList_ofList]
  exact hc

theorem notMem_styleLines : '<' ∉ lines styleLines := by
  refine notMem_lines ?_
  unfold styleLines
  repeat refine List.forall_mem_cons.2 ⟨notMem_literal rfl (by decide +kernel), ?_⟩
  exact List.forall_mem_nil _

theorem notMem_scriptLines : '<' ∉ lines scriptLines := by
  refine notMem_lines ?_
  unfold scriptLines
  repeat refine List.forall_mem_cons.2 ⟨notMem_literal rfl (by decide +kernel), ?_⟩
  exact List.forall_mem_nil _

/-- The tags before the pages, and after them up to the script. -/
def headTags : List Tag :=
  [start "html" ["lang"], start "head" [], start "meta" ["charset"], start "meta" ["name", "content"],
    start "meta" ["name", "content"], start "title" [], stop "title", start "style" [], stop "style",
    stop "head", start "body" [], start "button" ["class", "id", "title"], stop "button", start "main" []]

def navigationTags : List Tag :=
  [stop "main", start "button" ["class", "id", "title"], stop "button", start "div" ["id"], stop "div",
    start "script" []]

/-- The tags up to the script. -/
def frontTags (d : Document H) : List Tag :=
  headTags ++ d.pages.flatMap (pageTags m d.footer) ++ navigationTags

def endTags : List Tag := [stop "script", stop "body", stop "html"]

/-- The file up to the titles in the script. -/
def front (d : Document H) : List Piece :=
  [.fixed (lines headLines ++ "<title>".toList), insert d.title,
    .fixed ("</title>\n<style>\n".toList), .fixed (lines styleLines),
    .fixed ("</style>\n".toList ++ lines bodyLines)] ++
  joined (markup "\n") (d.pages.mapIdx fun i page => htmlPage m (htmlFooter d.footer) page (i + 1)) ++
  [.fixed ('\n' :: lines navigationLines ++ "<script>".toList), .fixed scriptFront]

/-- The file after the titles. -/
def back : List Piece :=
  [.fixed ("];\n".toList ++ lines scriptLines), markup "</script>\n</body>\n</html>\n"]

theorem pieces_eq (d : Document H) : pieces m d = front m d ++ titles d ++ back := rfl

set_option maxRecDepth 2000 in
theorem writes_front (d : Document H) : Writes .content (front m d) inScript (frontTags m d) := by
  have hhead : run .content (lines headLines ++ "<title>".toList) =
      (.raw "title".toList 0, [start "html" ["lang"], start "head" [], start "meta" ["charset"],
        start "meta" ["name", "content"], start "meta" ["name", "content"], start "title" []]) := rfl
  have htitle : run (.raw "title".toList 0) (escape d.title) = (.raw "title".toList 0, []) :=
    run_raw_content (notMem_escape (.inl rfl) _)
  have hstyle : run (.raw "title".toList 0) "</title>\n<style>\n".toList =
      (.raw "style".toList 0, [stop "title", start "style" []]) := rfl
  have hlines : run (.raw "style".toList 0) (lines styleLines) = (.raw "style".toList 0, []) :=
    run_raw_content notMem_styleLines
  have hbody : run (.raw "style".toList 0) ("</style>\n".toList ++ lines bodyLines) =
      (.content, [stop "style", stop "head", start "body" [], start "button" ["class", "id", "title"],
        stop "button", start "main" []]) := rfl
  have hnavigation : run .content ('\n' :: lines navigationLines ++ "<script>".toList) =
      (inScript, navigationTags) := rfl
  have hscript : run inScript scriptFront = (inScript, []) := by
    refine run_raw_content ?_
    rw [scriptFront, List.mem_append, not_or]
    refine ⟨notMem_lines ?_, by decide⟩
    repeat refine List.forall_mem_cons.2 ⟨notMem_literal rfl (by decide +kernel), ?_⟩
    exact List.forall_mem_nil _
  have htop := (Writes.fixed hhead).cons ((Writes.inserted htitle).cons ((Writes.fixed hstyle).cons
    ((Writes.fixed hlines).cons (Writes.fixed hbody))))
  exact (htop.append (writes_pages m d.footer d.pages)).append
    ((Writes.fixed hnavigation).cons (Writes.fixed hscript))

theorem run_back : run inScript (written back) = (.content, endTags) := by
  have hrest : run inScript ("];\n".toList ++ lines scriptLines) = (inScript, []) := by
    refine run_raw_content ?_
    rw [List.mem_append, not_or]
    exact ⟨by decide, notMem_scriptLines⟩
  have hend : run inScript "</script>\n</body>\n</html>\n".toList = (.content, endTags) := rfl
  exact ((Writes.fixed hrest).cons (Writes.fixed hend)).reads

/-- The titles are kept when none of them ends the script. -/
theorem kept_literals (pages : List (Page H)) :
    Kept inScript (joined (markup ", ") (pages.map fun page => [titleLiteral page])) ↔
      ∀ page ∈ pages, ¬ ending "script".toList <:+: (page.title.getD []).map lower := by
  have hcomma : run inScript ", ".toList = (inScript, []) := rfl
  induction pages with
  | nil => exact iff_of_true trivial (List.forall_mem_nil _)
  | cons page pages ih =>
    rw [List.forall_mem_cons, ← run_title_iff, List.map_cons]
    refine Iff.trans ?_ (and_congr_right fun _ => ih)
    cases pages with
    | nil =>
      rw [List.map_nil, joined, List.intercalate_singleton]
      exact and_congr_right fun _ => Iff.rfl
    | cons next pages =>
      rw [List.map_cons, joined, List.intercalate_cons_cons, List.append_assoc]
      show _ ∧ Kept (run inScript ", ".toList).1 _ ↔ _
      rw [hcomma]
      exact Iff.rfl

theorem kept_titles {d : Document H} : Kept inScript (titles d) ↔ Clean d := kept_literals d.pages

theorem reads_titles {d : Document H} (h : Clean d) : run inScript (written (titles d)) = (inScript, []) := by
  have hcomma : run inScript ", ".toList = (inScript, []) := rfl
  have hall : List.Forall₂ (fun ps ts => Writes inScript ps inScript ts)
      (d.pages.map fun page => [titleLiteral page]) (d.pages.map fun _ => []) := by
    rw [List.forall₂_map_left_iff, List.forall₂_map_right_iff, List.forall₂_same]
    exact fun page hpage => .inserted ((run_title_iff _).2 (h page hpage))
  have hempty : ∀ pages : List (Page H), ([] : List Tag).intercalate (pages.map fun _ => []) = [] := by
    intro pages
    rw [intercalate_nil_left]
    exact List.flatten_eq_nil_iff.2 fun l hl => (List.mem_map.1 hl).choose_spec.2.symm
  have hreads := (writes_joined hcomma hall).reads
  rwa [hempty] at hreads

/-- No text of the document opens, closes or breaks out of an element, an attribute or the script. -/
def Contained (d : Document H) : Prop := Kept .content (pieces m d)

theorem kept_back {q : State} : Kept q back := trivial

theorem contained_iff {d : Document H} : Contained m d ↔ Clean d := by
  have hfront := writes_front m d
  rw [Contained, pieces_eq, kept_append, kept_append, hfront.reads, kept_titles]
  constructor
  · exact fun h => h.1.2
  · exact fun h => ⟨⟨hfront.kept, h⟩, kept_back⟩

/-- The tags of a document. -/
theorem tags_renderHtml (d : Document H) :
    tags (renderHtml m d) = frontTags m d ++ (run inScript (written (titles d ++ back))).2 := by
  have hwritten : renderHtml m d = written (front m d) ++ written (titles d ++ back) := by
    show written (pieces m d) = _
    rw [pieces_eq, List.append_assoc]
    exact List.flatMap_append
  rw [tags, hwritten, run_append, (writes_front m d).reads]

/-- **The tags of a document** are those of its shape. -/
theorem tags_of_clean {d : Document H} (h : Clean d) :
    tags (renderHtml m d) = frontTags m d ++ endTags := by
  have hwritten : written (titles d ++ back) = written (titles d) ++ written back := List.flatMap_append
  rw [tags_renderHtml, hwritten, run_append, reads_titles h, run_back]
  rfl

/-! ## Documents of one shape -/

/-- Both are there, or neither is. -/
def SameGiven (s t : Option Str) : Prop := (given s).isSome = (given t).isSome

/-- Images that are shown with a caption, or without, or not at all. -/
def SameImage (i j : Image) : Prop :=
  (imageSource m i).isSome = (imageSource m j).isSome ∧ SameGiven i.caption j.caption

/-- Blocks that differ in their texts and addresses. -/
def SameBlock : Block H → Block H → Prop
  | .heading _ level url, .heading _ level' url' => level = level' ∧ SameGiven url url'
  | .paragraph text, .paragraph text' => (Text.split '\n' text).length = (Text.split '\n' text').length
  | .properties items, .properties items' => items.length = items'.length
  | .imageRow images _, .imageRow images' _ => List.Forall₂ (SameImage m) images images'
  | .table columns rows as, .table columns' rows' as' =>
    columns.length = columns'.length ∧ List.Forall₂ (fun r r' => r.length = r'.length) rows rows' ∧ as = as'
  | .linkList items, .linkList items' => items.length = items'.length
  | _, _ => False

/-- A segment is a link. -/
def Segment.isLink : Segment → Bool
  | .plain _ => false
  | .link _ _ => true

/-- The number of links in a text. -/
def linkCount (text : Str) : ℕ := (segments text).countP Segment.isLink

/-- Both have a footer with as many links, or none has a footer. -/
def SameFooter (s t : Option Str) : Prop := (given s).map linkCount = (given t).map linkCount

/-- Pages that differ in the texts of their blocks and in their titles. -/
def SamePage (p p' : Page H) : Prop := List.Forall₂ (SameBlock m) p.blocks p'.blocks

/-- Documents that differ in their texts and addresses. -/
structure SameDocument (d d' : Document H) : Prop where
  pages : List.Forall₂ (SamePage m) d.pages d'.pages
  footer : SameFooter d.footer d'.footer

theorem segmentTags_eq (l : List Segment) :
    l.flatMap segmentTags = (List.replicate (l.countP Segment.isLink) (around "a" ["href"])).flatten := by
  induction l with
  | nil => rfl
  | cons segment l ih =>
    cases segment with
    | plain s => exact ih
    | link label url =>
      rw [List.flatMap_cons, ih, List.countP_cons_of_pos rfl, List.replicate_succ, List.flatten_cons]
      rfl

theorem footerTags_congr {s t : Option Str} (h : SameFooter s t) : footerTags s = footerTags t := by
  unfold SameFooter at h
  unfold footerTags
  cases hs : given s with
  | none =>
    rw [hs, Option.map_none, eq_comm, Option.map_eq_none_iff] at h
    rw [h]
  | some u =>
    rw [hs, Option.map_some, eq_comm, Option.map_eq_some_iff] at h
    obtain ⟨v, hv, hcount⟩ := h
    have hlinks : (segments u).flatMap segmentTags = (segments v).flatMap segmentTags := by
      rw [segmentTags_eq, segmentTags_eq]
      exact congrArg (fun n => (List.replicate n (around "a" ["href"])).flatten) hcount.symm
    rw [hv]
    simp only [hlinks]

/-- What does not depend on the elements depends on their number. -/
theorem flatMap_const_congr {α β γ : Type} {l : List α} {l' : List β} (h : l.length = l'.length)
    (ts : List γ) : (l.flatMap fun _ => ts) = l'.flatMap fun _ => ts := by
  rw [List.flatMap_def, List.flatMap_def, List.map_const', List.map_const', h]

theorem linkTags_congr {url url' : Option Str} (h : SameGiven url url') : linkTags url = linkTags url' := by
  unfold SameGiven at h
  unfold linkTags
  cases hs : given url <;> cases ht : given url' <;> rw [hs, ht] at h <;> first | rfl | cases h

theorem figureTags_congr {i j : Image} (h : SameImage m i j) : figureTags m i = figureTags m j := by
  obtain ⟨hsource, hcaption⟩ := h
  have hc : captionTags i.caption = captionTags j.caption := by
    unfold SameGiven at hcaption
    unfold captionTags
    cases hs : given i.caption <;> cases ht : given j.caption <;> rw [hs, ht] at hcaption <;>
      first | rfl | cases hcaption
  unfold figureTags
  rw [hc]
  cases hs : imageSource m i <;> cases ht : imageSource m j <;> rw [hs, ht] at hsource <;>
    first | rfl | cases hsource

theorem figures_congr {images images' : List Image} (h : List.Forall₂ (SameImage m) images images') :
    List.Forall₂ (SameImage m) (images.filter fun i => (imageSource m i).isSome)
      (images'.filter fun i => (imageSource m i).isSome) := by
  induction h with
  | nil => exact .nil
  | cons hij _ ih =>
    rw [List.filter_cons, List.filter_cons, ← hij.1]
    split_ifs
    · exact .cons hij ih
    · exact ih

theorem flatMap_congr_of_forall₂ {α β γ : Type} {R : α → β → Prop} {l : List α} {l' : List β}
    (h : List.Forall₂ R l l') {f : α → List γ} {g : β → List γ} (hfg : ∀ a b, R a b → f a = g b) :
    l.flatMap f = l'.flatMap g := by
  induction h with
  | nil => rfl
  | cons hab _ ih => rw [List.flatMap_cons, List.flatMap_cons, hfg _ _ hab, ih]

theorem rowTags_congr (as : List Align) {r r' : List (Option Str)} (h : r.length = r'.length) :
    rowTags as r = rowTags as r' := by
  have hzip : (r.zip (as ++ List.replicate (r.length - as.length) .left)).length =
      (r'.zip (as ++ List.replicate (r'.length - as.length) .left)).length := by
    rw [List.length_zip, List.length_zip, h]
  unfold rowTags
  rw [flatMap_const_congr hzip]

theorem breaks_congr {l l' : List Str} (h : l.length = l'.length) :
    (l.map fun _ => ([] : List Tag)) = l'.map fun _ => [] := by
  rw [List.map_const', List.map_const', h]

/-- Blocks of one shape have the same tags. -/
theorem blockTags_congr {b b' : Block H} (h : SameBlock m b b') : blockTags m b = blockTags m b' := by
  cases b <;> cases b' <;> first | exact h.elim | skip
  case heading.heading =>
    obtain ⟨rfl, hurl⟩ := h
    rw [blockTags, blockTags, linkTags_congr hurl]
  case paragraph.paragraph => rw [blockTags, blockTags, breaks_congr h]
  case properties.properties => rw [blockTags, blockTags, flatMap_const_congr h]
  case imageRow.imageRow =>
    have hfigures := figures_congr m h
    rename_i images _ images' _
    have hnone : images.filter (fun i => (imageSource m i).isSome) = [] ↔
        images'.filter (fun i => (imageSource m i).isSome) = [] := by
      rw [← List.length_eq_zero_iff, ← List.length_eq_zero_iff, hfigures.length_eq]
    have htags := flatMap_congr_of_forall₂ hfigures fun _ _ => figureTags_congr m
    simp only [blockTags, hnone, htags]
  case table.table =>
    obtain ⟨hcolumns, hrows, rfl⟩ := h
    rename_i columns rows as columns' rows'
    have haligns : aligns columns as = aligns columns' as := by
      unfold aligns
      cases as with
      | none => rw [List.map_const', List.map_const', hcolumns]
      | some as =>
        cases as with
        | nil => rw [List.map_const', List.map_const', hcolumns]
        | cons a as => rfl
    have hzip : (columns.zip (aligns columns' as)).length = (columns'.zip (aligns columns' as)).length := by
      rw [List.length_zip, List.length_zip, hcolumns]
    rw [blockTags, blockTags, haligns, flatMap_const_congr hzip, flatMap_congr_of_forall₂ hrows fun _ _ => rowTags_congr _]
  case linkList.linkList => rw [blockTags, blockTags, flatMap_const_congr h]

theorem frontTags_congr {d d' : Document H} (h : SameDocument m d d') : frontTags m d = frontTags m d' := by
  have hpages : d.pages.flatMap (pageTags m d.footer) = d'.pages.flatMap (pageTags m d'.footer) := by
    refine flatMap_congr_of_forall₂ h.pages fun page page' hpage => ?_
    rw [pageTags, pageTags, footerTags_congr h.footer,
      flatMap_congr_of_forall₂ hpage fun _ _ => blockTags_congr m]
  rw [frontTags, frontTags, hpages]

/-- **Documents of one shape have the same tags, and keep their texts**, exactly when no title of a page
holds what ends the script. -/
theorem same_tags_iff {d d' : Document H} (h : SameDocument m d d') :
    (tags (renderHtml m d) = tags (renderHtml m d') ∧ Contained m d ∧ Contained m d') ↔
      Clean d ∧ Clean d' := by
  rw [contained_iff, contained_iff]
  constructor
  · exact fun h => h.2
  · rintro ⟨hd, hd'⟩
    refine ⟨?_, hd, hd'⟩
    rw [tags_of_clean m hd, tags_of_clean m hd', frontTags_congr m h]

/-! ## A title that ends the script -/

/-- A machine without files. -/
def bare : Machine Unit where
  read _ := none
  guessType _ := none
  percent _ := 40

/-- A document of one page, with a heading that is its title. -/
def titled (title : String) : Document Unit where
  title := title.toList
  pages := [⟨[.heading title.toList 1 none], some title.toList⟩]
  footer := none

theorem same_titled (s t : String) : SameDocument bare (titled s) (titled t) :=
  ⟨.cons (.cons ⟨rfl, rfl⟩ .nil) .nil, rfl⟩

/-- Markup in a title is kept. -/
theorem same_tags_markup :
    tags (renderHtml bare (titled "<b>")) = tags (renderHtml bare (titled "b")) ∧
      Contained bare (titled "<b>") ∧ Contained bare (titled "b") := by
  refine (same_tags_iff bare (same_titled "<b>" "b")).2 ⟨?_, ?_⟩
  · exact List.forall_mem_singleton.2 (by decide)
  · exact List.forall_mem_singleton.2 (by decide)

/-- The script is left in the middle. -/
theorem not_same_tags_script :
    SameDocument bare (titled "</script>") (titled "b") ∧
      tags (renderHtml bare (titled "</script>")) ≠ tags (renderHtml bare (titled "b")) := by
  refine ⟨same_titled _ _, ?_⟩
  have hclean : Clean (titled "b") := List.forall_mem_singleton.2 (by decide)
  have htitle : run inScript (written (titles (titled "</script>"))) = (.content, [stop "script"]) := rfl
  have hscript : run .content ("];\n".toList ++ lines scriptLines) = (.content, []) := by
    refine run_content ?_
    rw [List.mem_append, not_or]
    exact ⟨by decide, notMem_scriptLines⟩
  have hend : run .content "</script>\n</body>\n</html>\n".toList = (.content, endTags) := rfl
  have hback : run .content (written back) = (.content, endTags) :=
    ((Writes.fixed hscript).cons (Writes.fixed hend)).reads
  have hwritten : written (titles (titled "</script>") ++ back) =
      written (titles (titled "</script>")) ++ written back := List.flatMap_append
  rw [tags_of_clean bare hclean, tags_renderHtml, hwritten, run_append, htitle, hback,
    frontTags_congr bare (same_titled "</script>" "b")]
  intro h
  have hlength := congrArg List.length (List.append_cancel_left h)
  exact absurd hlength (by decide)

end PartCAD.Documents
