import Mathlib.Data.List.Nodup
import ModuleSystem.Proofs.Coverage.Outlines

/-! A row of the summary has a link, and a section an id. Both are the anchor of a unit, which keeps
the letters and digits of a name and writes one sign for everything else, so two units can share
it. -/

namespace ModuleSystem.Coverage.Page

/-- What stands behind an opening, up to the next quote, where the opening is first found. -/
def quoted? (opening : List Char) : List Char → Option (List Char)
  | [] => none
  | c :: rest =>
    if opening.isPrefixOf (c :: rest) then
      some (((c :: rest).drop opening.length).takeWhile (· ≠ '\x22'))
    else quoted? opening rest

/-- The value of an attribute of a tag. -/
def attribute? (name tag : String) : Option String :=
  (quoted? (" " ++ name ++ "=\"").toList tag.toList).map String.ofList

example : attribute? "href" "a class=\"far\" href=\"#top\"" = some "#top" := by decide

/-- The ids of a page, in order. -/
def ids (page : String) : List String := (tags page).filterMap (attribute? "id")

/-- The links of a page, in order. -/
def links (page : String) : List String := (tags page).filterMap (attribute? "href")

/-- The place among the ids to which a link within the page leads: the first with its name. -/
def target? (page link : String) : Option Nat :=
  match link.toList with
  | '#' :: name => (ids page).idxOf? (String.ofList name)
  | _ => none

theorem quoted?_of_not_mem {first : Char} {chars : List Char} (opening : List Char)
    (h : first ∉ chars) (rest : List Char) :
    quoted? (first :: opening) (chars ++ rest) = quoted? (first :: opening) rest := by
  induction chars with
  | nil => rfl
  | cons c chars ih =>
    rw [List.mem_cons, not_or] at h
    have other : (first == c) = false := beq_false_of_ne h.1
    simp only [List.cons_append, quoted?, List.isPrefixOf, other, Bool.false_and,
      Bool.false_eq_true, if_false]
    exact ih h.2

theorem takeWhile_upTo {stop : Char} {chars : List Char} (h : stop ∉ chars) (rest : List Char) :
    (chars ++ stop :: rest).takeWhile (· ≠ stop) = chars := by
  rw [List.takeWhile_append_of_pos]
  · simp
  · intro c mem
    rw [decide_eq_true_eq]
    rintro rfl
    exact h mem

/-- The tag of an element with one attribute. -/
def oneAttribute (element key value : String) : String :=
  element ++ " " ++ key ++ "=\"" ++ value ++ "\""

theorem opening_toList (name : String) :
    (" " ++ name ++ "=\"").toList = ' ' :: (name.toList ++ ['=', '\x22']) := by
  simp

/-- Tags that are only names have no attributes. -/
theorem attributes_of_bare (name : String) {tags : List String}
    (bare : ∀ tag ∈ tags, ' ' ∉ tag.toList) : tags.filterMap (attribute? name) = [] := by
  rw [List.filterMap_eq_nil_iff]
  intro tag mem
  have none := quoted?_of_not_mem (name.toList ++ ['=', '\x22']) (bare tag mem) []
  rw [List.append_nil] at none
  rw [attribute?, opening_toList, none]
  rfl

theorem attribute?_oneAttribute {element key value : String} (name : String)
    (element_blank : ' ' ∉ element.toList) (key_blank : ' ' ∉ key.toList)
    (value_blank : ' ' ∉ value.toList) (value_quote : '\x22' ∉ value.toList)
    (key_equals : '=' ∉ key.toList) (name_equals : '=' ∉ name.toList) :
    attribute? name (oneAttribute element key value) = if name = key then some value else none := by
  have tag : (oneAttribute element key value).toList =
      element.toList ++ ' ' :: (key.toList ++ '=' :: '\x22' :: (value.toList ++ ['\x22'])) := by
    simp [oneAttribute]
  rw [attribute?, opening_toList, tag, quoted?_of_not_mem _ element_blank, quoted?]
  by_cases same : name = key
  · subst same
    have found : (' ' :: (name.toList ++ ['=', '\x22'])).isPrefixOf
        (' ' :: (name.toList ++ '=' :: '\x22' :: (value.toList ++ ['\x22']))) = true := by
      rw [List.isPrefixOf_iff_prefix]
      exact ⟨value.toList ++ ['\x22'], by simp⟩
    have behind : (' ' :: (name.toList ++ '=' :: '\x22' :: (value.toList ++ ['\x22']))).drop
        (' ' :: (name.toList ++ ['=', '\x22'])).length = value.toList ++ ['\x22'] := by simp
    rw [if_pos found, if_pos rfl, behind, takeWhile_upTo value_quote, Option.map_some,
      String.ofList_toList]
  · have missed : ¬(' ' :: (name.toList ++ ['=', '\x22'])).isPrefixOf
        (' ' :: (key.toList ++ '=' :: '\x22' :: (value.toList ++ ['\x22']))) = true := by
      rw [List.isPrefixOf_iff_prefix]
      rintro ⟨rest, split⟩
      have names : name.toList ++ '=' :: '\x22' :: rest =
          key.toList ++ '=' :: '\x22' :: (value.toList ++ ['\x22']) := by simpa using split
      have keys := congrArg (List.takeWhile (· ≠ '=')) names
      rw [takeWhile_upTo name_equals, takeWhile_upTo key_equals] at keys
      exact same (String.toList_inj.mp keys)
    have later : ' ' ∉ key.toList ++ '=' :: '\x22' :: (value.toList ++ ['\x22']) := by
      simp [key_blank, value_blank]
    have none := quoted?_of_not_mem (name.toList ++ ['=', '\x22']) later []
    rw [List.append_nil] at none
    rw [if_neg missed, if_neg same, none]
    rfl

theorem not_mem_anchor {c : Char} (other : ¬(c.isAlphanum ∨ c = '-')) (unit : String) :
    c ∉ (anchor unit).toList := by
  intro mem
  rw [toList_anchor, List.mem_append] at mem
  rcases mem with fixed | slug
  · have letters : "unit".toList.all Char.isAlphanum = true := by decide
    exact other (.inl (List.all_eq_true.mp letters c fixed))
  · obtain ⟨d, -, rfl⟩ := List.mem_map.mp slug
    by_cases letter : d.isAlphanum
    · exact other (.inl (by rwa [if_pos letter]))
    · exact other (.inr (if_neg letter))

theorem attribute?_row (name unit : String) (name_equals : '=' ∉ name.toList) :
    attribute? name ("a href=\"#" ++ anchor unit ++ "\"") =
      if name = "href" then some ("#" ++ anchor unit) else none := by
  have tag : "a href=\"#" ++ anchor unit ++ "\"" =
      oneAttribute "a" "href" ("#" ++ anchor unit) := by
    simp [oneAttribute, String.ext_iff]
  rw [tag, attribute?_oneAttribute name (by decide) (by decide) _ _ (by decide) name_equals]
  · simp [not_mem_anchor (c := ' ') (by decide) unit]
  · simp [not_mem_anchor (c := '\x22') (by decide) unit]

theorem attribute?_section (name unit : String) (name_equals : '=' ∉ name.toList) :
    attribute? name ("h2 id=\"" ++ anchor unit ++ "\"") =
      if name = "id" then some (anchor unit) else none := by
  have tag : "h2 id=\"" ++ anchor unit ++ "\"" = oneAttribute "h2" "id" (anchor unit) := by
    simp [oneAttribute]
  rw [tag, attribute?_oneAttribute name (by decide) (by decide) _ _ (by decide) name_equals]
  · exact not_mem_anchor (by decide) unit
  · exact not_mem_anchor (by decide) unit

section

variable (u : UnitHits)

theorem rowTags_ids : (UnitOutline.of u).rowTags.filterMap (attribute? "id") = [] := by
  have link := attribute?_row "id" u.unit (by decide)
  simp only [UnitOutline.rowTags, UnitOutline.of, List.filterMap_cons, link]
  rfl

theorem rowTags_links :
    (UnitOutline.of u).rowTags.filterMap (attribute? "href") = ["#" ++ anchor u.unit] := by
  have link := attribute?_row "href" u.unit (by decide)
  simp only [UnitOutline.rowTags, UnitOutline.of, List.filterMap_cons, link]
  rfl

theorem spanTags_attributes {name : String} (h : name = "id" ∨ name = "href") (hit : List Bool) :
    (hit.flatMap UnitOutline.spanTags).filterMap (attribute? name) = [] := by
  induction hit with
  | nil => rfl
  | cons first hit ih =>
    rw [List.flatMap_cons, List.filterMap_append, ih]
    rcases h with rfl | rfl <;> cases first <;> rfl

theorem sectionTags_ids :
    (UnitOutline.of u).sectionTags.filterMap (attribute? "id") = [anchor u.unit] := by
  have id := attribute?_section "id" u.unit (by decide)
  have rows := spanTags_attributes (.inl rfl) (UnitOutline.of u).hit
  simp only [UnitOutline.sectionTags, List.filterMap_append, rows]
  simp only [UnitOutline.of, List.filterMap_cons, id]
  rfl

theorem sectionTags_links : (UnitOutline.of u).sectionTags.filterMap (attribute? "href") = [] := by
  have id := attribute?_section "href" u.unit (by decide)
  have rows := spanTags_attributes (.inr rfl) (UnitOutline.of u).hit
  simp only [UnitOutline.sectionTags, List.filterMap_append, rows]
  simp only [UnitOutline.of, List.filterMap_cons, id]
  rfl

end

theorem skippedTags_attributes (name : String) (o : Outline) :
    o.skippedTags.filterMap (attribute? name) = [] := by
  have items (n : Nat) : ((List.replicate n ["li", "code", "/code", "/li"]).flatten).filterMap
      (attribute? name) = [] := by
    have bare : ∀ tag ∈ ["li", "code", "/code", "/li"], ' ' ∉ tag.toList := by decide
    apply attributes_of_bare
    intro tag mem
    obtain ⟨item, inside, here⟩ := List.mem_flatten.mp mem
    obtain rfl := (List.mem_replicate.mp inside).2
    exact bare tag here
  have first : ["h2", "/h2", "ul"].filterMap (attribute? name) = [] :=
    attributes_of_bare name (by decide)
  have last : ["/ul"].filterMap (attribute? name) = [] := attributes_of_bare name (by decide)
  unfold Outline.skippedTags
  split
  · rfl
  · rw [List.filterMap_append, List.filterMap_append, items, first, last]
    rfl

variable (r : Report) (sources : String → Option String)

theorem tags_text : tags (text r sources) = (Outline.of r).tags :=
  congrArg Prod.fst (text_whole r sources).scan

/-- All attributes of these names are in rows and sections of units. -/
theorem attributes_text {name : String} (h : name = "id" ∨ name = "href") :
    (tags (text r sources)).filterMap (attribute? name) =
      (r.units.flatMap fun u => (UnitOutline.of u).rowTags.filterMap (attribute? name)) ++
        r.units.flatMap fun u => (UnitOutline.of u).sectionTags.filterMap (attribute? name) := by
  have head : headTags.filterMap (attribute? name) = [] := by
    rcases h with rfl | rfl <;> rfl
  have columns : ["h2", "/h2", "table", "tr", "th", "/th", "th", "/th", "th", "/th", "th", "/th",
      "/tr"].filterMap (attribute? name) = [] := attributes_of_bare name (by decide)
  have total : ["tr", "th", "/th", "th", "/th", "th", "/th", "th", "/th", "/tr",
      "/table"].filterMap (attribute? name) = [] := attributes_of_bare name (by decide)
  have last : ["/body", "/html"].filterMap (attribute? name) = [] :=
    attributes_of_bare name (by decide)
  have skipped := skippedTags_attributes name (Outline.of r)
  simp only [tags_text, Outline.tags, Outline.summaryTags, List.filterMap_append, head, columns,
    total, last, skipped, List.nil_append, List.append_nil]
  simp only [Outline.of, List.flatMap_map, List.filterMap_flatMap]

theorem ids_text : ids (text r sources) = r.units.map (anchor ·.unit) := by
  have rows : (r.units.flatMap fun u =>
      (UnitOutline.of u).rowTags.filterMap (attribute? "id")) = [] :=
    List.flatMap_eq_nil_iff.mpr fun u _ => rowTags_ids u
  rw [ids, attributes_text r sources (.inl rfl), rows, List.nil_append]
  simp only [sectionTags_ids, ← List.map_eq_flatMap]

theorem links_text : links (text r sources) = r.units.map ("#" ++ anchor ·.unit) := by
  have sections : (r.units.flatMap fun u =>
      (UnitOutline.of u).sectionTags.filterMap (attribute? "href")) = [] :=
    List.flatMap_eq_nil_iff.mpr fun u _ => sectionTags_links u
  rw [links, attributes_text r sources (.inr rfl), sections, List.append_nil]
  simp only [rowTags_links, ← List.map_eq_flatMap]

theorem target?_link (page name : String) :
    target? page ("#" ++ name) = (ids page).idxOf? name := by
  have chars : ("#" ++ name).toList = '#' :: name.toList := by simp
  rw [target?, chars]
  simp only [String.ofList_toList]

theorem targets_text : (links (text r sources)).map (target? (text r sources)) =
    (ids (text r sources)).map (ids (text r sources)).idxOf? := by
  rw [links_text, List.map_map]
  conv_rhs => arg 2; rw [ids_text]
  rw [List.map_map]
  apply List.map_congr_left
  intro u _
  simp only [Function.comp_apply, target?_link]

/-- The same letters and digits at the same places. -/
def SameSlug (a b : String) : Prop :=
  List.Forall₂ (fun c d => c = d ∨ c.isAlphanum = false ∧ d.isAlphanum = false) a.toList b.toList

instance (a b : String) : Decidable (SameSlug a b) :=
  inferInstanceAs (Decidable (List.Forall₂ _ a.toList b.toList))

theorem slugChar_eq_iff (c d : Char) :
    ((if c.isAlphanum then c else '-') = if d.isAlphanum then d else '-') ↔
      c = d ∨ c.isAlphanum = false ∧ d.isAlphanum = false := by
  have dash : '-'.isAlphanum = false := by decide
  cases hc : c.isAlphanum <;> cases hd : d.isAlphanum
  · simp
  · have other : c ≠ d := fun h => by rw [h, hd] at hc; cases hc
    have stays : '-' ≠ d := fun h => by rw [← h, dash] at hd; cases hd
    simp [other, stays]
  · have other : c ≠ d := fun h => by rw [h, hd] at hc; cases hc
    have stays : c ≠ '-' := fun h => by rw [h, dash] at hc; cases hc
    simp [other, stays]
  · simp

theorem anchor_eq_iff (a b : String) : anchor a = anchor b ↔ SameSlug a b := by
  rw [← String.toList_inj, toList_anchor, toList_anchor, List.append_cancel_left_eq,
    ← List.forall₂_eq_eq_eq, List.forall₂_map_left_iff, List.forall₂_map_right_iff]
  simp only [slugChar_eq_iff]
  rfl

/-- Each of some names is first found at its own place. -/
theorem map_idxOf?_eq_range_iff (names : List String) :
    names.map names.idxOf? = (List.range names.length).map some ↔ names.Nodup := by
  constructor
  · intro own
    rw [List.nodup_iff_injective_getElem]
    intro i j same
    have first (k : Fin names.length) : names.idxOf? names[k] = some k.val := by
      have at_k := congrArg (·[k.val]?) own
      simpa using at_k
    have places : some i.val = some j.val := by
      rw [← first i, ← first j]
      exact congrArg names.idxOf? same
    exact Fin.ext (Option.some.inj places)
  · intro nodup
    apply List.ext_getElem (by simp)
    intro i bound _
    rw [List.length_map] at bound
    simp only [List.getElem_map, List.getElem_range, List.idxOf?]
    rw [List.findIdx?_eq_some_iff_getElem]
    refine ⟨bound, beq_self_eq_true _, fun j before => ?_⟩
    rw [beq_iff_eq, nodup.getElem_inj_iff]
    omega

theorem ids_nodup_iff : (ids (text r sources)).Nodup ↔
    r.units.Pairwise fun u v => ¬SameSlug u.unit v.unit := by
  rw [ids_text, List.Nodup, List.pairwise_map]
  simp only [ne_eq, anchor_eq_iff]

theorem targets_eq_findIdx? : (links (text r sources)).map (target? (text r sources)) =
    r.units.map fun u => r.units.findIdx? fun v => SameSlug v.unit u.unit := by
  rw [targets_text, ids_text, List.map_map]
  apply List.map_congr_left
  intro u _
  have same (v : UnitHits) :
      (anchor v.unit == anchor u.unit) = decide (SameSlug v.unit u.unit) := by
    rw [Bool.eq_iff_iff, beq_iff_eq, decide_eq_true_eq, anchor_eq_iff]
  simp only [Function.comp_apply, List.idxOf?, List.findIdx?_map]
  exact congrArg (List.findIdx? · r.units) (funext same)

/-- There is an id for each unit, and a link to the first id with the slug of the unit. Each row
leads to its own section exactly when no two units have the same slug. -/
theorem links_lead :
    ids (text r sources) = r.units.map (anchor ·.unit) ∧
      (links (text r sources)).map (target? (text r sources)) =
        r.units.map (fun u => r.units.findIdx? fun v => SameSlug v.unit u.unit) ∧
      ((ids (text r sources)).Nodup ↔ r.units.Pairwise fun u v => ¬SameSlug u.unit v.unit) ∧
      ((links (text r sources)).map (target? (text r sources)) =
          (List.range r.units.length).map some ↔
        r.units.Pairwise fun u v => ¬SameSlug u.unit v.unit) := by
  refine ⟨ids_text r sources, targets_eq_findIdx? r sources, ids_nodup_iff r sources, ?_⟩
  rw [← ids_nodup_iff r sources, targets_text, ← map_idxOf?_eq_range_iff, ids_text, List.length_map]

/-- Two units with one slug. -/
def namesakes : Report where
  units := [⟨"/a/b", .module, "", []⟩, ⟨"/a_b", .module, "", []⟩]
  filesMerged := 1
  skipped := []

/-- Distinct names do not make distinct ids: the second row leads to the first section. -/
theorem namesakes_share : (namesakes.units.map (·.unit)).Nodup ∧
    ids (text namesakes fun _ => none) = ["unit-a-b", "unit-a-b"] ∧
    (links (text namesakes fun _ => none)).map (target? (text namesakes fun _ => none)) =
      [some 0, some 0] := by
  refine ⟨by decide, ?_, ?_⟩
  · rw [ids_text]
    decide
  · rw [targets_eq_findIdx?]
    decide

end ModuleSystem.Coverage.Page
