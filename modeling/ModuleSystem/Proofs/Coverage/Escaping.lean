import ModuleSystem.Coverage.Page

/-! A later replacement also goes over what an earlier one wrote. In the order of the table it finds
nothing there, so that all of them together write each character once. -/

namespace ModuleSystem.Coverage.Page

variable {table : List (Char × String)}

/-- Writes the texts of a table, one character after the other. -/
def replaceAll (table : List (Char × String)) (chars : List Char) : List Char :=
  table.foldl (fun chars r => replaceChar r.1 r.2 chars) chars

/-- What a table writes for a character. -/
def substitute (table : List (Char × String)) (c : Char) : List Char :=
  ((table.lookup c).map String.toList).getD [c]

/-- No text of a table has a character in it that is replaced later on. -/
def Settled (table : List (Char × String)) : Prop :=
  table.Pairwise fun earlier later => later.1 ∉ earlier.2.toList

instance : Decidable (Settled table) := inferInstanceAs (Decidable (List.Pairwise _ table))

theorem references_settled : Settled references := by decide

/-- With the ampersand in the second place, what is written for an angle would be escaped again. -/
example : ¬Settled [('<', "&lt;"), ('&', "&amp;")] := by decide

theorem replaceChar_of_not_mem {old : Char} {new : String} {chars : List Char} (h : old ∉ chars) :
    replaceChar old new chars = chars := by
  have same : ∀ c ∈ chars, (if c = old then new.toList else [c]) = [c] := by
    intro c mem
    apply if_neg
    rintro rfl
    exact h mem
  rw [replaceChar, List.flatMap_def, List.map_congr_left same, ← List.flatMap_def,
    List.flatMap_singleton']

theorem replaceAll_of_not_mem {chars : List Char} (h : ∀ r ∈ table, r.1 ∉ chars) :
    replaceAll table chars = chars := by
  induction table with
  | nil => rfl
  | cons r table ih =>
    rw [List.forall_mem_cons] at h
    change replaceAll table (replaceChar r.1 r.2 chars) = chars
    rw [replaceChar_of_not_mem h.1, ih h.2]

theorem replaceAll_append (xs ys : List Char) :
    replaceAll table (xs ++ ys) = replaceAll table xs ++ replaceAll table ys := by
  induction table generalizing xs ys with
  | nil => rfl
  | cons r table ih =>
    change replaceAll table (replaceChar r.1 r.2 (xs ++ ys)) = _
    rw [replaceChar, List.flatMap_append]
    exact ih _ _

theorem replaceAll_singleton (settled : Settled table) (c : Char) :
    replaceAll table [c] = substitute table c := by
  induction table with
  | nil => rfl
  | cons r table ih =>
    obtain ⟨old, new⟩ := r
    obtain ⟨later, settled⟩ := List.pairwise_cons.mp settled
    change replaceAll table (replaceChar old new [c]) = _
    by_cases eq : c = old
    · have written : replaceChar old new [c] = new.toList := by simp [replaceChar, eq]
      rw [written, replaceAll_of_not_mem later, substitute, eq, List.lookup_cons_self]
      rfl
    · have kept : replaceChar old new [c] = [c] := by simp [replaceChar, eq]
      rw [kept, ih settled, substitute, substitute, List.lookup_cons, beq_false_of_ne eq]

theorem replaceAll_eq_flatMap (settled : Settled table) (chars : List Char) :
    replaceAll table chars = chars.flatMap (substitute table) := by
  induction chars with
  | nil => exact replaceAll_of_not_mem fun _ _ => List.not_mem_nil
  | cons c chars ih =>
    rw [← List.singleton_append, replaceAll_append, replaceAll_singleton settled, ih,
      List.singleton_append, List.flatMap_cons]

/-- A character is in the table, or it stays as it is. -/
theorem substitute_cases (table : List (Char × String)) (c : Char) :
    (∃ r ∈ table, c = r.1) ∨ (∀ r ∈ table, c ≠ r.1) ∧ substitute table c = [c] := by
  by_cases listed : ∃ r ∈ table, c = r.1
  · exact .inl listed
  · have other : ∀ r ∈ table, c ≠ r.1 := fun r mem same => listed ⟨r, mem, same⟩
    have absent : table.lookup c = none := by
      rw [List.lookup_eq_none_iff]
      intro r mem
      exact bne_iff_ne.mpr (other r mem)
    refine .inr ⟨other, ?_⟩
    rw [substitute, absent]
    rfl

theorem escapeChars_eq_flatMap (chars : List Char) :
    escapeChars chars = chars.flatMap (substitute references) :=
  replaceAll_eq_flatMap references_settled chars

/-- Reads an escaped text. -/
def unescape : List Char → List Char
  | '&' :: 'a' :: 'm' :: 'p' :: ';' :: rest => '&' :: unescape rest
  | '&' :: 'l' :: 't' :: ';' :: rest => '<' :: unescape rest
  | '&' :: 'g' :: 't' :: ';' :: rest => '>' :: unescape rest
  | '&' :: 'q' :: 'u' :: 'o' :: 't' :: ';' :: rest => '\x22' :: unescape rest
  | '&' :: '#' :: '3' :: '9' :: ';' :: rest => '\x27' :: unescape rest
  | c :: rest => c :: unescape rest
  | [] => []

theorem unescape_cons {c : Char} (h : c ≠ '&') (rest : List Char) :
    unescape (c :: rest) = c :: unescape rest := by
  rw [unescape.eq_def]
  grind

theorem unescape_substitute (c : Char) (rest : List Char) :
    unescape (substitute references c ++ rest) = c :: unescape rest := by
  obtain ⟨r, mem, rfl⟩ | ⟨other, kept⟩ := substitute_cases references c
  · simp only [references, List.mem_cons, List.not_mem_nil, or_false] at mem
    obtain rfl | rfl | rfl | rfl | rfl := mem <;> rfl
  · rw [kept, List.singleton_append]
    exact unescape_cons (other ('&', "&amp;") List.mem_cons_self) rest

theorem unescape_escapeChars (chars : List Char) : unescape (escapeChars chars) = chars := by
  rw [escapeChars_eq_flatMap]
  induction chars with
  | nil => rfl
  | cons c chars ih => rw [List.flatMap_cons, unescape_substitute, ih]

theorem unescape_escape (text : String) : unescape (escape text).toList = text.toList := by
  rw [escape, String.toList_ofList, unescape_escapeChars]

theorem escape_injective : Function.Injective escape := by
  intro a b eq
  rw [← String.toList_inj, ← unescape_escape a, eq, unescape_escape]

/-- Characters that begin, end or quote something in a page. -/
def isMark (c : Char) : Bool := c = '<' || c = '>' || c = '\x22' || c = '\x27'

/-- A list of characters without marks. -/
def Plain (chars : List Char) : Prop := ∀ c ∈ chars, isMark c = false

instance (chars : List Char) : Decidable (Plain chars) :=
  List.decidableBAll (fun c => isMark c = false) chars

theorem Plain.append {xs ys : List Char} (h : Plain xs) (h' : Plain ys) : Plain (xs ++ ys) := by
  intro c mem
  obtain mem | mem := List.mem_append.mp mem
  · exact h c mem
  · exact h' c mem

theorem isMark_iff {c : Char} : isMark c = true ↔ c = '<' ∨ c = '>' ∨ c = '\x22' ∨ c = '\x27' := by
  simp only [isMark, Bool.or_eq_true, decide_eq_true_eq, or_assoc]

theorem substitute_plain (c : Char) : Plain (substitute references c) := by
  obtain ⟨r, mem, rfl⟩ | ⟨other, kept⟩ := substitute_cases references c
  · revert r
    decide
  · rw [kept]
    intro d only
    rw [List.mem_singleton.mp only, Bool.eq_false_iff, ne_eq, isMark_iff]
    simp only [references, List.forall_mem_cons] at other
    grind

theorem escapeChars_plain (chars : List Char) : Plain (escapeChars chars) := by
  intro d mem
  rw [escapeChars_eq_flatMap, List.mem_flatMap] at mem
  obtain ⟨c, _, mem⟩ := mem
  exact substitute_plain c d mem

theorem escape_plain (text : String) : Plain (escape text).toList := by
  rw [escape, String.toList_ofList]
  exact escapeChars_plain text.toList

end ModuleSystem.Coverage.Page
