import ModuleSystem.Proofs.Coverage.Escaping

/-! A reader goes through a page once, with an eye on quoted values in tags. Each part of a page
takes the reader from where it stands to where it stands behind the part, so a page is read part by
part. -/

namespace ModuleSystem.Coverage.Page

/-- Where a reader of a page stands: between tags, in a tag, or in a quoted value of a tag. What it
has read of the tag is kept, the last character first. -/
inductive Reader where
  | between
  | tag (read : List Char)
  | value (quote : Char) (read : List Char)
  deriving DecidableEq

/-- Reads a character. The angle at the end of a tag yields the tag. -/
def Reader.step : Reader → Char → List String × Reader
  | .between, c => if c = '<' then ([], .tag []) else ([], .between)
  | .tag read, c =>
    if c = '>' then ([String.ofList read.reverse], .between)
    else if c = '\x22' ∨ c = '\x27' then ([], .value c (c :: read))
    else ([], .tag (c :: read))
  | .value quote read, c =>
    if c = quote then ([], .tag (c :: read)) else ([], .value quote (c :: read))

/-- Reads characters: the tags that end among them, and where the reader stands then. -/
def Reader.scan (reader : Reader) : List Char → List String × Reader
  | [] => ([], reader)
  | c :: rest =>
    let (found, next) := reader.step c
    let (more, last) := next.scan rest
    (found ++ more, last)

/-- The tags of a page, without their angles. -/
def tags (page : String) : List String := (Reader.between.scan page.toList).1

example : tags "<p title=\"a > b\">1 &lt; 2</p>" = ["p title=\"a > b\"", "/p"] := by decide

/-- The angles and quotes among characters. -/
def marks (chars : List Char) : List Char := chars.filter isMark

/-- The angles and quotes of tags. -/
def tagMarks (tags : List String) : List Char :=
  tags.flatMap fun tag => '<' :: marks tag.toList ++ ['>']

/-- The angles and quotes that a reader has read of a tag. -/
def Reader.pending : Reader → List Char
  | .between => []
  | .tag read | .value _ read => '<' :: marks read.reverse

theorem Reader.scan_append (reader : Reader) (xs ys : List Char) :
    reader.scan (xs ++ ys) = ((reader.scan xs).1 ++ ((reader.scan xs).2.scan ys).1,
      ((reader.scan xs).2.scan ys).2) := by
  induction xs generalizing reader with
  | nil => rfl
  | cons c xs ih => simp only [List.cons_append, scan, ih, List.append_assoc]

theorem marks_append (xs ys : List Char) : marks (xs ++ ys) = marks xs ++ marks ys :=
  List.filter_append xs ys

theorem Plain.marks {chars : List Char} (h : Plain chars) : marks chars = [] := by
  rw [Page.marks, List.filter_eq_nil_iff]
  intro c mem
  rw [h c mem]
  exact Bool.false_ne_true

theorem tagMarks_append (found later : List String) :
    tagMarks (found ++ later) = tagMarks found ++ tagMarks later :=
  List.flatMap_append

/-- A part of a page takes a reader further. It has the angles and quotes of the tags that are found
and no others. -/
structure Reads (before : Reader) (part : String) (found : List String) (after : Reader) : Prop where
  scan : before.scan part.toList = (found, after)
  marks : before.pending ++ marks part.toList = tagMarks found ++ after.pending

/-- A part that begins and ends between tags. -/
abbrev Whole (part : String) (found : List String) : Prop := Reads .between part found .between

variable {before middle after : Reader} {part more : String} {found later : List String}

theorem Reads.append (h : Reads before part found middle) (h' : Reads middle more later after) :
    Reads before (part ++ more) (found ++ later) after where
  scan := by rw [String.toList_append, Reader.scan_append, h.scan, h'.scan]
  marks := by
    rw [String.toList_append, marks_append, ← List.append_assoc, h.marks, List.append_assoc, h'.marks,
      ← List.append_assoc, tagMarks_append]

theorem Reads.of_eq (h : Reads before part found after) (same : found = later) :
    Reads before part later after :=
  same ▸ h

theorem Reads.ofList {chars : List Char} (scan : before.scan chars = (found, after))
    (marks : before.pending ++ Page.marks chars = tagMarks found ++ after.pending) :
    Reads before (String.ofList chars) found after :=
  ⟨by rw [String.toList_ofList, scan], by rw [String.toList_ofList, marks]⟩

theorem Whole.join {α : Type} {write : α → String} {found : α → List String} {items : List α}
    (each : ∀ item ∈ items, Whole (write item) (found item)) :
    Whole (String.join (items.map write)) (items.flatMap found) := by
  induction items with
  | nil => exact ⟨rfl, rfl⟩
  | cons item items ih =>
    rw [List.forall_mem_cons] at each
    rw [List.map_cons, String.join_cons, List.flatMap_cons]
    exact each.1.append (ih each.2)

theorem Reader.scan_between {chars : List Char} (h : Plain chars) :
    Reader.between.scan chars = ([], .between) := by
  induction chars with
  | nil => rfl
  | cons c chars ih =>
    have other : c ≠ '<' := by
      rintro rfl
      exact absurd (h '<' List.mem_cons_self) (by decide)
    have rest := ih fun d mem => h d (List.mem_cons_of_mem c mem)
    simp only [scan, step, if_neg other, rest, List.append_nil]

theorem Reader.scan_value {quote : Char} {chars : List Char} (quotes : isMark quote = true)
    (h : Plain chars) (read : List Char) :
    (Reader.value quote read).scan chars = ([], .value quote (chars.reverse ++ read)) := by
  induction chars generalizing read with
  | nil => rfl
  | cons c chars ih =>
    have other : c ≠ quote := by
      rintro rfl
      simp [h c List.mem_cons_self] at quotes
    have rest := ih (fun d mem => h d (List.mem_cons_of_mem c mem)) (c :: read)
    simp only [scan, step, if_neg other, rest, List.append_nil, List.reverse_cons, List.append_assoc,
      List.singleton_append]

/-- Text between tags. -/
theorem Whole.plain (h : Plain part.toList) : Whole part [] where
  scan := Reader.scan_between h
  marks := h.marks

/-- A quoted value is part of its tag. -/
theorem Reads.value (name : String) (h : Plain part.toList) :
    Reads (.value '\x22' name.toList.reverse) part []
      (.value '\x22' (name ++ part).toList.reverse) where
  scan := by rw [Reader.scan_value (by decide) h, String.toList_append, List.reverse_append]
  marks := by simp [Reader.pending, marks_append, h.marks, tagMarks]

/-- The quote and the angle behind a value end the tag. -/
theorem Reads.valueEnd (name : String) :
    Reads (.value '\x22' name.toList.reverse) "\"><code>" [name ++ "\"", "code"] .between := by
  have tag : name ++ "\"" = String.ofList ('\x22' :: name.toList.reverse).reverse := by simp
  rw [tag]
  apply Reads.ofList
  · rfl
  · simp [Reader.pending, tagMarks, marks_append]
    rfl

/-- A value that is put into a tag reads as part of this tag. -/
theorem Reads.splice {opening value name : String}
    (h : Reads .between opening found (.value '\x22' name.toList.reverse))
    (plain : Plain value.toList) :
    Whole (opening ++ value ++ "\"><code>") (found ++ [name ++ value ++ "\"", "code"]) := by
  have inside := h.append (Reads.value name plain)
  rw [List.append_nil] at inside
  exact inside.append (Reads.valueEnd (name ++ value))

end ModuleSystem.Coverage.Page
