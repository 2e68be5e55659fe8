import ModuleSystem.Coverage.Summary
import ModuleSystem.Text.Blank

/-! Reports as files: a page to read and a document for programs. Sources that can be read are shown
line by line; whatever comes from outside is escaped. -/

namespace ModuleSystem.Coverage.Page

open Summary (percentText ratioText)

/-- Writes a text in each place where a character stands. -/
def replaceChar (old : Char) (new : String) (chars : List Char) : List Char :=
  chars.flatMap fun c => if c = old then new.toList else [c]

/-- The characters that mean something in a page, and what is written for them. The ampersand comes
first: the others are written with one. -/
def references : List (Char × String) :=
  [('&', "&amp;"), ('<', "&lt;"), ('>', "&gt;"), ('\x22', "&quot;"), ('\x27', "&#39;")]

/-- One character is replaced after the other. -/
def escapeChars (chars : List Char) : List Char :=
  references.foldl (fun chars r => replaceChar r.1 r.2 chars) chars

def escape (text : String) : String := String.ofList (escapeChars text.toList)

/-- The name of the section of a unit. -/
def anchor (unit : String) : String :=
  String.ofList ("unit".toList ++ unit.toList.map fun c => if c.isAlphanum then c else '-')

def style : String :=
  "body\x7bfont-family:system-ui,Segoe UI,Helvetica,Arial,sans-serif;margin:24px;"
    ++ "line-height:1.45\x7dcode,pre\x7bbackground:#f6f8fa;padding:2px 4px;border-radius:4px\x7d"
    ++ "table\x7bborder-collapse:collapse\x7d"
    ++ "td,th\x7bpadding:4px 8px;border:1px solid #ddd;text-align:left\x7d"
    ++ "h2\x7bmargin-top:28px\x7d.hit\x7bbackground:#e6ffed\x7d.miss\x7bbackground:#ffeef0\x7d"

def head : String :=
  "<!doctype html>\n<html><head><meta charset=\"utf-8\"><title>loam coverage</title><style>"
    ++ style ++ "</style></head><body><h1>loam coverage</h1>"

def summaryRow (u : UnitHits) : String :=
  "<tr><td><a href=\"#" ++ anchor u.unit ++ "\"><code>" ++ escape u.unit
    ++ "</code></a></td><td>" ++ u.kind.text ++ "</td><td>"
    ++ ratioText u.hitCount u.instrumented ++ "</td><td>" ++ percentText u.percent
    ++ "</td></tr>"

def summaryTable (r : Report) : String :=
  "<h2>Summary</h2><table>"
    ++ "<tr><th>unit</th><th>kind</th><th>spans hit</th><th>coverage</th></tr>"
    ++ String.join (r.units.map summaryRow)
    ++ "<tr><th>total</th><th></th><th>" ++ ratioText r.hitCount r.instrumented ++ "</th><th>"
    ++ percentText r.percent ++ "</th></tr></table>"

/-- The line on which a span begins, without blanks at its end. -/
def sourceLine (lines : List (List Char)) (line : Nat) : String :=
  match line, lines[line - 1]? with
  | 0, _ | _, none => ""
  | _, some chars => String.ofList (escapeChars (Text.dropBlanksEnd chars))

def spanRow (lines : List (List Char)) (s : SpanHits) : String :=
  (if 0 < s.hits then "<tr class=\"hit\"><td>" else "<tr class=\"miss\"><td>")
    ++ s.span.text ++ "</td><td>" ++ toString s.hits.toNat ++ "</td><td><code>"
    ++ sourceLine lines s.span.line.toNat ++ "</code></td></tr>"

def unitSection (source : Option String) (u : UnitHits) : String :=
  let lines := (source.map Text.lines).getD []
  "<h2 id=\"" ++ anchor u.unit ++ "\"><code>" ++ escape u.unit ++ "</code></h2><p>source: <code>"
    ++ escape u.source ++ "</code></p>"
    ++ "<table><tr><th>span</th><th>hits</th><th>source</th></tr>"
    ++ String.join (u.spans.map (spanRow lines)) ++ "</table>"

def skippedList (skipped : List SkippedFile) : String :=
  if skipped.isEmpty then ""
  else
    "<h2>Skipped data files</h2><ul>"
      ++ String.join (skipped.map fun s =>
        "<li><code>" ++ escape s.path ++ "</code>: " ++ escape s.reason ++ "</li>")
      ++ "</ul>"

/-- The page. `sourceText` gives the sources that can be read. -/
def text (r : Report) (sourceText : String → Option String) : String :=
  head ++ summaryTable r
    ++ String.join (r.units.map fun u => unitSection (sourceText u.source) u)
    ++ skippedList r.skipped ++ "</body></html>\n"

def pagePath (out : String) : String := Path.join out "index.html"

def documentPath (out : String) : String := Path.join out "coverage.json"

def writeText (path text : String) : Filing CoverageError Unit :=
  Filing.edit (.output path) (·.write path (Utf8.encode text))

/-- Writes the page and the document into a directory, which is made if need be. -/
def save (r : Report) (out : String) : Filing CoverageError Unit := do
  Filing.edit (.output out) (·.makeDirs out)
  let tree ← get
  writeText (pagePath out) (text r fun source => (tree.readText source).toOption)
  writeText (documentPath out) r.toJson.pretty

end ModuleSystem.Coverage.Page
