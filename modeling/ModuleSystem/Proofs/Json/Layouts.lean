import ModuleSystem.Json.Printer
import ModuleSystem.Json.Reader
import ModuleSystem.Proofs.Text.Encoding

namespace ModuleSystem.Json

open Utf8 (encodeChars encodeChars_cons_append)

/-- White space as the printer and the readers know it. -/
def Spaces (bytes : List UInt8) : Prop := ∀ b ∈ bytes, Cursor.isSpace b = true

theorem spaces_nil : Spaces [] := by
  intro b mem
  cases mem

/-- What stands before each item and before the end of a list that is not empty, and what stands
after a colon. -/
structure Layout where
  line : Nat → List Char
  gap : List Char
  spaces_line : ∀ level, Spaces (encodeChars (line level))
  spaces_gap : Spaces (encodeChars gap)

/-- A comma stands before all items but the first. -/
def comma (first : Bool) : List Char := if first then [] else [',']

namespace Layout

/-- The line before a closing bracket, unless nothing stands between the brackets. -/
def lastLine {β : Type} (l : Layout) (level : Nat) (items : List β) : List Char :=
  if items.isEmpty then [] else l.line level

theorem spaces_lastLine {β : Type} (l : Layout) (level : Nat) (items : List β) :
    Spaces (encodeChars (l.lastLine level items)) := by
  unfold lastLine
  split
  · exact spaces_nil
  · exact l.spaces_line level

mutual
def chars (l : Layout) (level : Nat) : Json → List Char
  | .null => compactChars .null
  | .bool b => compactChars (.bool b)
  | .int n => compactChars (.int n)
  | .float x => compactChars (.float x)
  | .string s => compactChars (.string s)
  | .array items => '[' :: (itemsChars l (level + 1) true items ++ (l.lastLine level items ++ [']']))
  | .object fields =>
    '\x7b' :: (fieldsChars l (level + 1) true fields ++ (l.lastLine level fields ++ ['\x7d']))

def itemsChars (l : Layout) (level : Nat) : Bool → List Json → List Char
  | _, [] => []
  | first, j :: rest =>
    comma first ++ (l.line level ++ (chars l level j ++ itemsChars l level false rest))

def fieldsChars (l : Layout) (level : Nat) : Bool → List (String × Json) → List Char
  | _, [] => []
  | first, (name, j) :: rest =>
    comma first ++ (l.line level ++ (stringText name ++
      (':' :: (l.gap ++ (chars l level j ++ fieldsChars l level false rest)))))
end

theorem spaces_newline (level : Nat) : Spaces (encodeChars (newline level)) := by
  have indent : ∀ n, encodeChars (List.replicate n ' ') = List.replicate n ' '.toUInt8 := by
    intro n
    induction n with
    | zero => rfl
    | succ n ih =>
      rw [List.replicate_succ, encodeChars_cons_append, ih]
      rfl
  intro b mem
  rw [newline, encodeChars_cons_append, indent, List.mem_append, List.mem_replicate] at mem
  obtain line | ⟨_, rfl⟩ := mem
  · rw [List.mem_singleton.mp line]
    rfl
  · rfl

def pretty : Layout where
  line := newline
  gap := [' ']
  spaces_line := spaces_newline
  spaces_gap := by
    intro b mem
    rw [List.mem_singleton.mp mem]
    rfl

def compact : Layout where
  line _ := []
  gap := []
  spaces_line _ := spaces_nil
  spaces_gap := spaces_nil

@[simp] theorem pretty_line (level : Nat) : pretty.line level = newline level := rfl

@[simp] theorem pretty_gap : pretty.gap = [' '] := rfl

@[simp] theorem compact_line (level : Nat) : compact.line level = [] := rfl

@[simp] theorem compact_gap : compact.gap = [] := rfl

end Layout

open Layout

mutual
theorem prettyChars_eq (level : Nat) : ∀ j, prettyChars level j = Layout.pretty.chars level j
  | .null | .bool true | .bool false | .int _ | .float _ | .string _ => by
    simp only [prettyChars, chars, compactChars]
  | .array [] => by simp [prettyChars, chars, itemsChars, lastLine]
  | .array (item :: rest) => by
    rw [prettyChars, chars, prettyItems_eq (level + 1) (item :: rest)]
    simp [lastLine]
  | .object [] => by simp [prettyChars, chars, fieldsChars, lastLine]
  | .object (field :: rest) => by
    rw [prettyChars, chars, prettyFields_eq (level + 1) (field :: rest)]
    simp [lastLine]

theorem prettyItems_eq (level : Nat) : ∀ items,
    prettyItems level items = Layout.pretty.itemsChars level true items
  | [] => by rw [prettyItems, itemsChars]
  | [item] => by simp [prettyItems, itemsChars, comma, prettyChars_eq level item]
  | item :: next :: rest => by
    rw [prettyItems, prettyChars_eq level item, prettyItems_eq level (next :: rest)]
    · simp [itemsChars, comma]
    · simp

theorem prettyFields_eq (level : Nat) : ∀ fields,
    prettyFields level fields = Layout.pretty.fieldsChars level true fields
  | [] => by rw [prettyFields, fieldsChars]
  | [(name, item)] => by
    simp [prettyFields, fieldsChars, comma, prettyChars_eq level item]
  | (name, item) :: next :: rest => by
    rw [prettyFields, prettyChars_eq level item, prettyFields_eq level (next :: rest)]
    · simp [fieldsChars, comma]
    · simp
end

mutual
theorem compactChars_eq (level : Nat) : ∀ j, compactChars j = Layout.compact.chars level j
  | .null | .bool true | .bool false | .int _ | .float _ | .string _ => by
    simp only [chars]
  | .array items => by
    rw [compactChars, chars, compactItems_eq (level + 1) items]
    simp [lastLine]
  | .object fields => by
    rw [compactChars, chars, compactFields_eq (level + 1) fields]
    simp [lastLine]

theorem compactItems_eq (level : Nat) : ∀ items,
    compactItems items = Layout.compact.itemsChars level true items
  | [] => by rw [compactItems, itemsChars]
  | [item] => by simp [compactItems, itemsChars, comma, compactChars_eq level item]
  | item :: next :: rest => by
    rw [compactItems, compactChars_eq level item, compactItems_eq level (next :: rest)]
    · simp [itemsChars, comma]
    · simp

theorem compactFields_eq (level : Nat) : ∀ fields,
    compactFields fields = Layout.compact.fieldsChars level true fields
  | [] => by rw [compactFields, fieldsChars]
  | [(name, item)] => by
    simp [compactFields, fieldsChars, comma, compactChars_eq level item]
  | (name, item) :: next :: rest => by
    rw [compactFields, compactChars_eq level item, compactFields_eq level (next :: rest)]
    · simp [fieldsChars, comma]
    · simp
end

end ModuleSystem.Json
