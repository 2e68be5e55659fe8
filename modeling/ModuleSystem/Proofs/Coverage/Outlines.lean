import ModuleSystem.Proofs.Coverage.Markup

namespace ModuleSystem.Coverage.Page

open Summary (percentText ratioText)

/-- What the tags of a unit depend on: its anchor, and which of its spans were hit. -/
structure UnitOutline where
  anchor : String
  hit : List Bool

/-- What the tags of a page depend on: its units, and how many files were skipped. -/
structure Outline where
  units : List UnitOutline
  skipped : Nat

def UnitOutline.of (u : UnitHits) : UnitOutline := ⟨Page.anchor u.unit, u.spans.map (0 < ·.hits)⟩

def Outline.of (r : Report) : Outline := ⟨r.units.map UnitOutline.of, r.skipped.length⟩

def headTags : List String :=
  ["!doctype html", "html", "head", "meta charset=\"utf-8\"", "title", "/title", "style", "/style",
    "/head", "body", "h1", "/h1"]

namespace UnitOutline

def rowTags (u : UnitOutline) : List String :=
  ["tr", "td", "a href=\"#" ++ u.anchor ++ "\"", "code", "/code", "/a", "/td", "td", "/td", "td",
    "/td", "td", "/td", "/tr"]

def spanTags (hit : Bool) : List String :=
  [if hit then "tr class=\"hit\"" else "tr class=\"miss\"", "td", "/td", "td", "/td", "td", "code",
    "/code", "/td", "/tr"]

def sectionTags (u : UnitOutline) : List String :=
  ["h2 id=\"" ++ u.anchor ++ "\"", "code", "/code", "/h2", "p", "code", "/code", "/p", "table", "tr",
    "th", "/th", "th", "/th", "th", "/th", "/tr"] ++ u.hit.flatMap spanTags ++ ["/table"]

end UnitOutline

namespace Outline

def summaryTags (o : Outline) : List String :=
  ["h2", "/h2", "table", "tr", "th", "/th", "th", "/th", "th", "/th", "th", "/th", "/tr"]
    ++ o.units.flatMap UnitOutline.rowTags
    ++ ["tr", "th", "/th", "th", "/th", "th", "/th", "th", "/th", "/tr", "/table"]

def skippedTags (o : Outline) : List String :=
  if o.skipped = 0 then []
  else
    ["h2", "/h2", "ul"] ++ (List.replicate o.skipped ["li", "code", "/code", "/li"]).flatten
      ++ ["/ul"]

def tags (o : Outline) : List String :=
  headTags ++ o.summaryTags ++ o.units.flatMap UnitOutline.sectionTags ++ o.skippedTags
    ++ ["/body", "/html"]

end Outline

/-- No mark passes a test of letters and digits. -/
theorem plain_of_isAlphanum {chars : List Char} (h : ∀ c ∈ chars, c.isAlphanum ∨ c = '-') :
    Plain chars := by
  intro c mem
  rw [Bool.eq_false_iff, ne_eq, isMark_iff]
  rintro (rfl | rfl | rfl | rfl) <;> exact absurd (h _ mem) (by decide)

theorem toList_anchor (unit : String) : (anchor unit).toList =
    "unit".toList ++ unit.toList.map fun c => if c.isAlphanum then c else '-' :=
  String.toList_ofList

theorem anchor_plain (unit : String) : Plain (anchor unit).toList := by
  rw [toList_anchor]
  apply Plain.append
  · decide
  · apply plain_of_isAlphanum
    intro c mem
    obtain ⟨d, _, rfl⟩ := List.mem_map.mp mem
    by_cases letter : d.isAlphanum = true
    · simp [letter]
    · simp [letter]

theorem digits_plain (n : Nat) : Plain (Nat.toDigits 10 n) := by
  apply plain_of_isAlphanum
  intro c mem
  have digit := Nat.isDigit_of_mem_toDigits (by decide) (by decide) mem
  exact .inl (by simp [Char.isAlphanum, digit])

theorem number_whole (n : Nat) : Whole (toString n) [] :=
  .plain (by simpa using digits_plain n)

theorem ratioText_whole (hit instrumented : Nat) : Whole (ratioText hit instrumented) [] :=
  ((number_whole hit).append (.plain (by decide) : Whole "/" [])).append (number_whole instrumented)

theorem percentText_whole (x : Float) : Whole (percentText x) [] := by
  have digits : Plain (Decimal.tenths x) := by
    unfold Decimal.tenths
    exact (digits_plain _).append (Plain.append (by decide : Plain ['.']) (digits_plain _))
  have number : Whole (String.ofList (Decimal.tenths x)) [] :=
    .plain (by rwa [String.toList_ofList])
  exact number.append (.plain (by decide) : Whole "%" [])

theorem span_whole (s : Span) : Whole s.text [] :=
  ((number_whole s.line.toNat).append (.plain (by decide) : Whole ":" [])).append
    (number_whole s.column.toNat)

theorem kind_whole (kind : UnitKind) : Whole kind.text [] := by
  cases kind <;> exact .plain (by decide)

theorem escape_whole (text : String) : Whole (escape text) [] := .plain (escape_plain text)

theorem sourceLine_whole (lines : List (List Char)) (line : Nat) :
    Whole (sourceLine lines line) [] := by
  apply Whole.plain
  unfold sourceLine
  split
  · decide
  · decide
  · rw [String.toList_ofList]
    exact escapeChars_plain _

theorem style_whole : Whole style [] := by
  have page : Whole "body\x7bfont-family:system-ui,Segoe UI,Helvetica,Arial,sans-serif;margin:24px;"
      [] := .ofList (by decide +kernel) (by decide +kernel)
  have code : Whole
      "line-height:1.45\x7dcode,pre\x7bbackground:#f6f8fa;padding:2px 4px;border-radius:4px\x7d"
      [] := .ofList (by decide +kernel) (by decide +kernel)
  have table : Whole "table\x7bborder-collapse:collapse\x7d" [] := .ofList rfl rfl
  have cells : Whole "td,th\x7bpadding:4px 8px;border:1px solid #ddd;text-align:left\x7d" [] :=
    .ofList rfl rfl
  have rows : Whole
      "h2\x7bmargin-top:28px\x7d.hit\x7bbackground:#e6ffed\x7d.miss\x7bbackground:#ffeef0\x7d" [] :=
    .ofList rfl rfl
  exact (((page.append code).append table).append cells).append rows

theorem head_whole : Whole head headTags := by
  have opening : Whole
      "<!doctype html>\n<html><head><meta charset=\"utf-8\"><title>loam coverage</title><style>"
      ["!doctype html", "html", "head", "meta charset=\"utf-8\"", "title", "/title", "style"] :=
    .ofList (by decide +kernel) (by decide +kernel)
  exact (opening.append style_whole).append (.ofList rfl rfl)

theorem cell_whole : Whole "</td><td>" ["/td", "td"] := .ofList rfl rfl

theorem summaryRow_whole (u : UnitHits) : Whole (summaryRow u) (UnitOutline.of u).rowTags := by
  have opening : Reads .between "<tr><td><a href=\"#" ["tr", "td"]
      (.value '\x22' "a href=\"#".toList.reverse) := .ofList rfl rfl
  have unit := (opening.splice (anchor_plain u.unit)).append (escape_whole u.unit)
  have toKind : Whole "</code></a></td><td>" ["/code", "/a", "/td", "td"] := .ofList rfl rfl
  have kind := (unit.append toKind).append (kind_whole u.kind)
  have ratio := (kind.append cell_whole).append (ratioText_whole u.hitCount u.instrumented)
  have percent := (ratio.append cell_whole).append (percentText_whole u.percent)
  exact percent.append (.ofList rfl rfl)

theorem summaryTable_whole (r : Report) : Whole (summaryTable r) (Outline.of r).summaryTags := by
  have title : Whole "<h2>Summary</h2><table>" ["h2", "/h2", "table"] := .ofList rfl rfl
  have names : Whole "<tr><th>unit</th><th>kind</th><th>spans hit</th><th>coverage</th></tr>"
      ["tr", "th", "/th", "th", "/th", "th", "/th", "th", "/th", "/tr"] :=
    .ofList (by decide +kernel) (by decide +kernel)
  have rows : Whole (String.join (r.units.map summaryRow))
      ((Outline.of r).units.flatMap UnitOutline.rowTags) := by
    rw [Outline.of, List.flatMap_map]
    exact .join fun u _ => summaryRow_whole u
  have toRatio : Whole "<tr><th>total</th><th></th><th>" ["tr", "th", "/th", "th", "/th", "th"] :=
    .ofList rfl rfl
  have ratio := (((title.append names).append rows).append toRatio).append
    (ratioText_whole r.hitCount r.instrumented)
  have toPercent : Whole "</th><th>" ["/th", "th"] := .ofList rfl rfl
  have percent := (ratio.append toPercent).append (percentText_whole r.percent)
  have closing : Whole "</th></tr></table>" ["/th", "/tr", "/table"] := .ofList rfl rfl
  exact (percent.append closing).of_eq (by simp [Outline.summaryTags])

theorem spanRow_whole (lines : List (List Char)) (s : SpanHits) :
    Whole (spanRow lines s) (UnitOutline.spanTags (0 < s.hits)) := by
  have opening : Whole (if 0 < s.hits then "<tr class=\"hit\"><td>" else "<tr class=\"miss\"><td>")
      [if decide (0 < s.hits) = true then "tr class=\"hit\"" else "tr class=\"miss\"", "td"] := by
    by_cases hit : 0 < s.hits
    · simp only [hit, if_pos, decide_true]
      exact .ofList rfl rfl
    · simp only [hit, if_neg, decide_false, not_false_eq_true, Bool.false_eq_true]
      exact .ofList rfl rfl
  have span := opening.append (span_whole s.span)
  have hits := (span.append cell_whole).append (number_whole s.hits.toNat)
  have toSource : Whole "</td><td><code>" ["/td", "td", "code"] := .ofList rfl rfl
  have source := (hits.append toSource).append (sourceLine_whole lines s.span.line.toNat)
  exact source.append (.ofList rfl rfl)

theorem unitSection_whole (source : Option String) (u : UnitHits) :
    Whole (unitSection source u) (UnitOutline.of u).sectionTags := by
  have opening : Reads .between "<h2 id=\"" [] (.value '\x22' "h2 id=\"".toList.reverse) :=
    .ofList rfl rfl
  have unit := (opening.splice (anchor_plain u.unit)).append (escape_whole u.unit)
  have toSource : Whole "</code></h2><p>source: <code>" ["/code", "/h2", "p", "code"] :=
    .ofList rfl rfl
  have file := (unit.append toSource).append (escape_whole u.source)
  have toTable : Whole "</code></p>" ["/code", "/p"] := .ofList rfl rfl
  have names : Whole "<table><tr><th>span</th><th>hits</th><th>source</th></tr>"
      ["table", "tr", "th", "/th", "th", "/th", "th", "/th", "/tr"] := .ofList rfl rfl
  have rows (lines : List (List Char)) : Whole (String.join (u.spans.map (spanRow lines)))
      ((UnitOutline.of u).hit.flatMap UnitOutline.spanTags) := by
    rw [UnitOutline.of, List.flatMap_map]
    exact .join fun s _ => spanRow_whole lines s
  have table := ((file.append toTable).append names).append (rows ((source.map Text.lines).getD []))
  exact table.append (.ofList rfl rfl)

theorem skippedItem_whole (s : SkippedFile) :
    Whole ("<li><code>" ++ escape s.path ++ "</code>: " ++ escape s.reason ++ "</li>")
      ["li", "code", "/code", "/li"] := by
  have opening : Whole "<li><code>" ["li", "code"] := .ofList rfl rfl
  have path := opening.append (escape_whole s.path)
  have toReason : Whole "</code>: " ["/code"] := .ofList rfl rfl
  have reason := (path.append toReason).append (escape_whole s.reason)
  exact reason.append (.ofList rfl rfl)

theorem skippedList_whole (r : Report) :
    Whole (skippedList r.skipped) (Outline.of r).skippedTags := by
  unfold skippedList Outline.skippedTags Outline.of
  by_cases none : r.skipped = []
  · simp only [none, List.isEmpty_nil, List.length_nil, if_true]
    exact .plain (by decide)
  · have items : Whole (String.join (r.skipped.map fun s =>
        "<li><code>" ++ escape s.path ++ "</code>: " ++ escape s.reason ++ "</li>"))
        (List.replicate r.skipped.length ["li", "code", "/code", "/li"]).flatten := by
      rw [← List.map_const', ← List.flatMap_def]
      exact .join fun s _ => skippedItem_whole s
    have title : Whole "<h2>Skipped data files</h2><ul>" ["h2", "/h2", "ul"] := .ofList rfl rfl
    simp only [List.isEmpty_iff, none, List.length_eq_zero_iff, if_false]
    exact (title.append items).append (.ofList rfl rfl)

theorem text_whole (r : Report) (sources : String → Option String) :
    Whole (text r sources) (Outline.of r).tags := by
  have sections : Whole
      (String.join (r.units.map fun u => unitSection (sources u.source) u))
      ((Outline.of r).units.flatMap UnitOutline.sectionTags) := by
    rw [Outline.of, List.flatMap_map]
    exact .join fun u _ => unitSection_whole (sources u.source) u
  have units := (head_whole.append (summaryTable_whole r)).append sections
  exact (units.append (skippedList_whole r)).append (.ofList rfl rfl)

/-- An outline without anything from the names of units. -/
def Outline.nameless (o : Outline) : Outline := ⟨o.units.map fun u => ⟨"", u.hit⟩, o.skipped⟩

theorem tagMarks_cons (tag : String) (more : List String) :
    tagMarks (tag :: more) = '<' :: marks tag.toList ++ ['>'] ++ tagMarks more :=
  List.flatMap_cons

theorem UnitOutline.rowTags_marks {anchor : String} (h : Plain anchor.toList) (hit : List Bool) :
    tagMarks (rowTags ⟨anchor, hit⟩) = tagMarks (rowTags ⟨"", hit⟩) := by
  simp only [rowTags, tagMarks_cons, String.toList_append, marks_append, h.marks,
    String.toList_empty]
  rfl

theorem UnitOutline.sectionTags_marks {anchor : String} (h : Plain anchor.toList)
    (hit : List Bool) : tagMarks (sectionTags ⟨anchor, hit⟩) = tagMarks (sectionTags ⟨"", hit⟩) := by
  simp only [sectionTags, List.cons_append, tagMarks_cons, String.toList_append, marks_append,
    h.marks, String.toList_empty]
  rfl

theorem units_marks {write : UnitOutline → List String}
    (same : ∀ {anchor}, Plain anchor.toList →
      ∀ hit, tagMarks (write ⟨anchor, hit⟩) = tagMarks (write ⟨"", hit⟩)) (units : List UnitHits) :
    tagMarks ((units.map UnitOutline.of).flatMap write) =
      tagMarks (((units.map UnitOutline.of).map fun u => ⟨"", u.hit⟩).flatMap write) := by
  induction units with
  | nil => rfl
  | cons u units ih =>
    simp only [List.map_cons, List.flatMap_cons, tagMarks_append, ih]
    rw [UnitOutline.of, same (anchor_plain u.unit)]

theorem nameless_marks (r : Report) :
    tagMarks (Outline.of r).tags = tagMarks (Outline.of r).nameless.tags := by
  have rows := units_marks UnitOutline.rowTags_marks r.units
  have sections := units_marks UnitOutline.sectionTags_marks r.units
  simp only [Outline.tags, Outline.summaryTags, tagMarks_append]
  rw [Outline.of, rows, sections]
  rfl

/-- The tags of a page are told by the outline of the report, and the angles and quotes by the
outline without names: texts of a report and of sources have no part in them. Escaping is one
substitution, and can be undone. -/
theorem no_injection (r : Report) (sources : String → Option String) :
    tags (text r sources) = (Outline.of r).tags ∧
      marks (text r sources).toList = tagMarks (Outline.of r).nameless.tags ∧
      (∀ chars, escapeChars chars = chars.flatMap (substitute references)) ∧
      Function.Injective escape ∧
      ∀ value, unescape (escape value).toList = value.toList := by
  have page := text_whole r sources
  have read : tags (text r sources) = (Outline.of r).tags := congrArg Prod.fst page.scan
  have marked : marks (text r sources).toList = tagMarks (Outline.of r).tags := by
    have all := page.marks
    simp only [Reader.pending, List.nil_append, List.append_nil] at all
    exact all
  exact ⟨read, marked.trans (nameless_marks r), escapeChars_eq_flatMap, escape_injective,
    unescape_escape⟩

end ModuleSystem.Coverage.Page
