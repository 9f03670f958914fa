import PartCAD.Lib.Base64
import PartCAD.Lib.HtmlTokens
import PartCAD.Lib.Json

/-!
# Documents as HTML

A document is written as one HTML file: the guide of an assembly, which is passed around.

* `Document` : pages of blocks;
* `Piece` : what is written, with the texts of the document told apart from the rest;
* `pieces`, `renderHtml` : the file.
-/

namespace PartCAD.Documents

open PartCAD.Lib

/-! ## Documents -/

structure Image where
  file : Option Str
  src : Option Str
  alt : Str
  caption : Option Str

/-- How a column is aligned. -/
inductive Align
  | left
  | right
  deriving DecidableEq, Repr

/-- A block; the heights of rows of images are floats, `H`. -/
inductive Block (H : Type)
  | heading (text : Str) (level : ℤ) (url : Option Str)
  | paragraph (text : Str)
  | properties (items : List (Str × Str))
  | imageRow (images : List Image) (height : H)
  | table (columns : List Str) (rows : List (List (Option Str))) (aligns : Option (List Align))
  | linkList (items : List (Str × Str))

structure Page (H : Type) where
  blocks : List (Block H)
  title : Option Str

structure Document (H : Type) where
  title : Str
  pages : List (Page H)
  footer : Option Str

/-- What the machine has, and what the libraries answer. -/
structure Machine (H : Type) where
  read : Str → Option Bytes
  guessType : Str → Option Str
  percent : H → ℤ

/-! ## Pieces -/

/-- A part of the file. -/
inductive Piece
  | fixed (s : Str)
  | inserted (s : Str)

def Piece.text : Piece → Str
  | .fixed s => s
  | .inserted s => s

/-- A part that is the same in every document. -/
def markup (s : String) : Piece := .fixed s.toList

/-- `html.escape`, one character -/
def escapeChar (c : Char) : Str :=
  if c = '&' then "&amp;".toList
  else if c = '<' then "&lt;".toList
  else if c = '>' then "&gt;".toList
  else if c = '"' then "&quot;".toList
  else if c = '\'' then "&#x27;".toList
  else [c]

/-- `html.escape` -/
def escape (s : Str) : Str := s.flatMap escapeChar

/-- A text, escaped. -/
def insert (s : Str) : Piece := .inserted (escape s)

/-- A value that counts as there: `None` and the empty text do not. -/
def given : Option Str → Option Str
  | some [] => none
  | s => s

/-- `sep.join` -/
def joined (sep : Piece) (parts : List (List Piece)) : List Piece := [sep].intercalate parts

/-! ## The footer -/

/-- A part of a text with markdown links. -/
inductive Segment
  | plain (s : Str)
  | link (label url : Str)

/-- `[label](url)` at the front of a text, and the rest. -/
def linkAt : Str → Option (Str × Str × Str)
  | '[' :: s =>
    match s.dropWhile (· != ']') with
    | ']' :: '(' :: t =>
      match t.dropWhile (· != ')') with
      | ')' :: rest => some (s.takeWhile (· != ']'), t.takeWhile (· != ')'), rest)
      | _ => none
    | _ => none
  | _ => none

/-- `_MARKDOWN_LINK.finditer`, with the text between the matches.  The number bounds the length. -/
def segmentsFrom : ℕ → Str → Str → List Segment
  | 0, before, s => [.plain (before ++ s)]
  | _ + 1, before, [] => [.plain before]
  | n + 1, before, c :: s =>
    match linkAt (c :: s) with
    | some (label, url, rest) => .plain before :: .link label url :: segmentsFrom n [] rest
    | none => segmentsFrom n (before ++ [c]) s

def segments (text : Str) : List Segment := segmentsFrom text.length [] text

/-- One segment as HTML. -/
def htmlSegment : Segment → List Piece
  | .plain s => [insert s]
  | .link label url => [markup "<a href=\"", insert url, markup "\">", insert label, markup "</a>"]

/-- `_html_inline` -/
def htmlInline (text : Str) : List Piece := (segments text).flatMap htmlSegment

/-! ## Blocks -/

variable {H : Type} (m : Machine H)

/-- `_image_source` -/
def imageSource (image : Image) : Option Str :=
  match given image.file with
  | none => image.src
  | some file =>
    match m.read file with
    | none => image.src
    | some data =>
      let mime := (m.guessType file |> given).getD "application/octet-stream".toList
      some ("data:".toList ++ mime ++ ";base64,".toList ++ Base64.b64encode data)

def Align.text : Align → String
  | .left => "left"
  | .right => "right"

/-- `_aligns` -/
def aligns (columns : List Str) : Option (List Align) → List Align
  | none => columns.map fun _ => .left
  | some [] => columns.map fun _ => .left
  | some as => as

/-- `<tag style="text-align: ...">...</tag>` -/
def htmlCell (tag : String) (align : Align) (s : Str) : List Piece :=
  [.fixed ('<' :: tag.toList ++ " style=\"text-align: ".toList ++ align.text.toList ++ "\">".toList), insert s,
    .fixed ("</".toList ++ tag.toList ++ ">".toList)]

/-- One row of a table; more cells than columns are kept. -/
def htmlRow (as : List Align) (row : List (Option Str)) : List Piece :=
  let rowAligns := as ++ List.replicate (row.length - as.length) .left
  markup "<tr>" :: (row.zip rowAligns).flatMap (fun c => htmlCell "td" c.2 (c.1.getD [])) ++ [markup "</tr>"]

/-- The figure of an image that has a source. -/
def htmlFigure (image : Image) : List Piece :=
  match imageSource m image with
  | none => []
  | some source =>
    let caption :=
      match given image.caption with
      | none => []
      | some s => [markup "<figcaption>", insert s, markup "</figcaption>"]
    [markup "<figure><img src=\"", insert source, markup "\" alt=\"", insert image.alt, markup "\"/>"] ++
      caption ++ [markup "</figure>"]

/-- The level of a heading that HTML has. -/
def headingLevel (level : ℤ) : ℤ := min (max level 1) 6

/-- `_html_block` -/
def htmlBlock : Block H → List Piece
  | .heading text level url =>
    let tag := 'h' :: intText (headingLevel level)
    let content :=
      match given url with
      | none => [insert text]
      | some u => [markup "<a href=\"", insert u, markup "\">", insert text, markup "</a>"]
    .fixed ('<' :: tag ++ ['>']) :: content ++ [.fixed ("</".toList ++ tag ++ ['>'])]
  | .paragraph text =>
    markup "<p>" :: joined (markup "<br/>") ((Text.split '\n' text).map fun s => [insert s]) ++
      [markup "</p>"]
  | .properties items =>
    markup "<dl class=\"properties\">" ::
      items.flatMap (fun item =>
        [markup "<dt>", insert item.1, markup "</dt><dd>", insert item.2, markup "</dd>"]) ++
      [markup "</dl>"]
  | .imageRow images height =>
    let figures := images.filter fun i => (imageSource m i).isSome
    if figures = [] then []
    else
      .fixed ("<div class=\"images\" style=\"flex-basis: ".toList ++ intText (m.percent height) ++
          "%\">".toList) :: figures.flatMap (htmlFigure m) ++ [markup "</div>"]
  | .table columns rows as =>
    let as := aligns columns as
    markup "<table><thead><tr>" :: (columns.zip as).flatMap (fun c => htmlCell "th" c.2 c.1) ++
      markup "</tr></thead><tbody>" :: rows.flatMap (htmlRow as) ++ [markup "</tbody></table>"]
  | .linkList items =>
    markup "<ul class=\"links\">" ::
      items.flatMap (fun item =>
        [markup "<li><a href=\"", insert item.2, markup "\">", insert item.1, markup "</a></li>"]) ++
      [markup "</ul>"]

/-! ## The file -/

/-- The style of the page, line by line. -/
def styleLines : List String :=
  [":root \x7b color-scheme: light dark; --fg: #1c1c1c; --bg: #f2f2f2; --paper: #ffffff; --muted: #666666; --line: #dddddd; \x7d",
    "@media (prefers-color-scheme: dark) \x7b",
    "  :root \x7b --fg: #e6e6e6; --bg: #16181a; --paper: #202325; --muted: #a0a0a0; --line: #3a3d40; \x7d",
    "\x7d",
    "* \x7b box-sizing: border-box; \x7d",
    "body \x7b margin: 0; padding: 0; background: var(--bg); color: var(--fg);",
    "       font-family: -apple-system, BlinkMacSystemFont, \"Segoe UI\", Roboto, Helvetica, Arial, sans-serif; \x7d",
    "main \x7b display: flex; align-items: center; justify-content: center; min-height: 100vh; padding: 24px 64px; \x7d",
    ".page \x7b display: none; flex-direction: column; background: var(--paper); color: var(--fg);",
    "        width: 100%; max-width: 210mm; min-height: 297mm; padding: 16mm; box-shadow: 0 1px 8px rgba(0,0,0,.2); \x7d",
    ".page.current \x7b display: flex; \x7d",
    "h1 \x7b font-size: 2rem; margin: 0 0 .6em 0; \x7d",
    "h2 \x7b font-size: 1.4rem; margin: 1em 0 .4em 0; \x7d",
    "h3 \x7b font-size: 1.1rem; margin: 1em 0 .4em 0; \x7d",
    "p \x7b line-height: 1.5; \x7d",
    "a \x7b color: inherit; \x7d",
    ".properties \x7b display: grid; grid-template-columns: max-content 1fr; gap: 2px 12px; margin: 1em 0; color: var(--muted); \x7d",
    ".properties dt \x7b font-weight: 600; \x7d",
    ".properties dd \x7b margin: 0; \x7d",
    ".images \x7b display: flex; gap: 16px; align-items: center; justify-content: center; margin: 12px 0; \x7d",
    ".images figure \x7b margin: 0; flex: 1 1 0; text-align: center; min-width: 0; \x7d",
    ".images img \x7b max-width: 100%; max-height: 60vh; height: auto; \x7d",
    "figcaption \x7b color: var(--muted); font-size: .85rem; margin-top: 6px; \x7d",
    "table \x7b border-collapse: collapse; width: 100%; margin: 8px 0 16px 0; font-size: .9rem; \x7d",
    "th, td \x7b border-bottom: 1px solid var(--line); padding: 4px 8px; \x7d",
    "ul.links \x7b line-height: 1.8; \x7d",
    ".footer \x7b margin-top: auto; padding-top: 16px; color: var(--muted); font-size: .8rem; text-align: center; \x7d",
    ".nav \x7b position: fixed; top: 0; height: 100%; width: 56px; border: none; background: transparent;",
    "       color: var(--muted); font-size: 2rem; cursor: pointer; \x7d",
    ".nav:hover \x7b color: var(--fg); background: rgba(127,127,127,.08); \x7d",
    ".nav[disabled] \x7b opacity: .2; cursor: default; \x7d",
    "#prev \x7b left: 0; \x7d",
    "#next \x7b right: 0; \x7d",
    "#counter \x7b position: fixed; bottom: 12px; left: 50%; transform: translateX(-50%);",
    "           color: var(--muted); font-size: .8rem; \x7d",
    "@media print \x7b",
    "  .nav, #counter \x7b display: none; \x7d",
    "  .page \x7b display: flex; box-shadow: none; break-after: page; min-height: auto; \x7d",
    "\x7d"]

/-- The script after the titles, line by line. -/
def scriptLines : List String :=
  ["  var prev = document.getElementById(\"prev\");",
    "  var next = document.getElementById(\"next\");",
    "  var counter = document.getElementById(\"counter\");",
    "  var current = 0;",
    "",
    "  function show(index, updateHash) \x7b",
    "    current = Math.min(Math.max(index, 0), pages.length - 1);",
    "    pages.forEach(function (page, i) \x7b page.classList.toggle(\"current\", i === current); \x7d);",
    "    prev.disabled = current === 0;",
    "    next.disabled = current === pages.length - 1;",
    "    counter.textContent = (current + 1) + \" / \" + pages.length + (titles[current] ? \" \\u2014 \" + titles[current] : \"\");",
    "    if (updateHash !== false) \x7b history.replaceState(null, \"\", \"#page-\" + (current + 1)); \x7d",
    "    window.scrollTo(0, 0);",
    "  \x7d",
    "",
    "  function fromHash() \x7b",
    "    var match = /^#page-(\\d+)$/.exec(window.location.hash);",
    "    show(match ? parseInt(match[1], 10) - 1 : 0, false);",
    "  \x7d",
    "",
    "  prev.addEventListener(\"click\", function () \x7b show(current - 1); \x7d);",
    "  next.addEventListener(\"click\", function () \x7b show(current + 1); \x7d);",
    "  window.addEventListener(\"keydown\", function (event) \x7b",
    "    if (event.key === \"ArrowLeft\" || event.key === \"PageUp\") \x7b show(current - 1); \x7d",
    "    if (event.key === \"ArrowRight\" || event.key === \"PageDown\" || event.key === \" \") \x7b show(current + 1); \x7d",
    "    if (event.key === \"Home\") \x7b show(0); \x7d",
    "    if (event.key === \"End\") \x7b show(pages.length - 1); \x7d",
    "  \x7d);",
    "  window.addEventListener(\"hashchange\", fromHash);",
    "  fromHash();",
    "\x7d)();"]

/-- Lines as a text. -/
def lines (ls : List String) : Str := ls.flatMap fun l => l.toList ++ ['\n']

/-- The footer of every page. -/
def htmlFooter (footer : Option Str) : List Piece :=
  match given footer with
  | none => []
  | some s => markup "\n<div class=\"footer\">" :: htmlInline s ++ [markup "</div>"]

/-- One page, with its number. -/
def htmlPage (footer : List Piece) (page : Page H) (number : ℕ) : List Piece :=
  .fixed ("<section class=\"page\" id=\"page-".toList ++ intText number ++ "\" data-title=\"".toList) ::
    insert (page.title.getD []) :: markup "\">\n" ::
    joined (markup "\n") (page.blocks.map (htmlBlock m)) ++ footer ++ [markup "\n</section>"]

/-- The title of a page as a literal of JavaScript. -/
def titleLiteral (page : Page H) : Piece := .inserted (Json.dumpsStr (page.title.getD []))

/-- `_HTML_TEMPLATE`, up to the title. -/
def headLines : List String :=
  ["<!DOCTYPE html>",
    "<html lang=\"en\">",
    "<head>",
    "<meta charset=\"utf-8\"/>",
    "<meta name=\"viewport\" content=\"width=device-width, initial-scale=1\"/>",
    "<meta name=\"generator\" content=\"PartCAD\"/>"]

/-- From the style to the pages. -/
def bodyLines : List String :=
  ["</head>",
    "<body>",
    "<button class=\"nav\" id=\"prev\" title=\"Previous page (left arrow)\">&#8249;</button>",
    "<main>"]

/-- From the pages to the script. -/
def navigationLines : List String :=
  ["</main>",
    "<button class=\"nav\" id=\"next\" title=\"Next page (right arrow)\">&#8250;</button>",
    "<div id=\"counter\"></div>"]

/-- The script before the titles. -/
def scriptFront : Str :=
  lines
      ["",
        "(function () \x7b",
        "  var pages = Array.prototype.slice.call(document.querySelectorAll(\".page\"));"] ++
    "  var titles = [".toList

/-- `render_html`, piece by piece. -/
def pieces (d : Document H) : List Piece :=
  [.fixed (lines headLines ++ "<title>".toList), insert d.title,
    .fixed ("</title>\n<style>\n".toList), .fixed (lines styleLines),
    .fixed ("</style>\n".toList ++ lines bodyLines)] ++
  joined (markup "\n") (d.pages.mapIdx fun i page => htmlPage m (htmlFooter d.footer) page (i + 1)) ++
  [.fixed ('\n' :: lines navigationLines ++ "<script>".toList), .fixed scriptFront] ++
  joined (markup ", ") (d.pages.map fun page => [titleLiteral page]) ++
  [.fixed ("];\n".toList ++ lines scriptLines), markup "</script>\n</body>\n</html>\n"]

/-- `render_html` -/
def renderHtml (d : Document H) : Str := (pieces m d).flatMap Piece.text

end PartCAD.Documents
