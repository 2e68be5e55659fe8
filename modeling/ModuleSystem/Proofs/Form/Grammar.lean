import ModuleSystem.Proofs.Form.Spans
import ModuleSystem.Proofs.Value.Interchange

namespace ModuleSystem.Form

/-- Each item has a partner just when all of them have. -/
theorem exists_forall₂_iff {α β : Type} {R : α → β → Prop} {l : List α} :
    (∃ l', List.Forall₂ R l l') ↔ ∀ a ∈ l, ∃ b, R a b := by
  constructor
  · rintro ⟨l', pairs⟩
    induction pairs with
    | nil => exact nofun
    | cons first _ ih => exact List.forall_mem_cons.mpr ⟨⟨_, first⟩, ih⟩
  · intro each
    induction l with
    | nil => exact ⟨[], .nil⟩
    | cons a rest ih =>
      obtain ⟨⟨b, first⟩, later⟩ := List.forall_mem_cons.mp each
      obtain ⟨l', pairs⟩ := ih later
      exact ⟨b :: l', .cons first pairs⟩

/-! ### Expressions -/

def expressionOperators : List String := ["quote", "ref", "list", "+", "struct_put", "struct_get"]

/-- Forms that are expressions. All but arrays stand for themselves. -/
inductive Expression : Json → Prop
  | datum {j : Json} (noArray : ∀ items, j ≠ .array items) : Expression j
  | quote (j : Json) : Expression (.array [.string "quote", j])
  | ref (name : String) : Expression (.array [.string "ref", .string name])
  | list {args : List Json} (each : ∀ j ∈ args, Expression j) :
      Expression (.array (.string "list" :: args))
  | add {args : List Json} (each : ∀ j ∈ args, Expression j) :
      Expression (.array (.string "+" :: args))
  | structPut {target key value : Json} (first : Expression target) (second : Expression key)
      (third : Expression value) : Expression (.array [.string "struct_put", target, key, value])
  | structGet {target key : Json} (first : Expression target) (second : Expression key) :
      Expression (.array [.string "struct_get", target, key])

theorem ofJson_datum {j : Json} (noArray : ∀ items, j ≠ .array items) :
    Expr.ofJson j = .ok (.literal (.ofJson j)) := by
  cases j with
  | array items => exact absurd rfl (noArray items)
  | _ => rw [Expr.ofJson] <;> simp

section Operators

variable (args : List Json) (target key value : Json)

theorem ofJson_quote (j : Json) :
    Expr.ofJson (.array [.string "quote", j]) = .ok (.literal (.ofJson j)) := by
  simp only [Expr.ofJson, if_true]

theorem ofJson_ref (name : String) :
    Expr.ofJson (.array [.string "ref", .string name]) = .ok (.ref name) := by
  rw [Expr.ofJson, if_neg (by decide), if_pos rfl]

theorem ofJson_list : Expr.ofJson (.array (.string "list" :: args)) =
    (Expr.listOfJson args).bind fun es => .ok (.list es) := by
  conv_lhs => unfold Expr.ofJson
  rw [if_neg (by decide), if_neg (by decide), if_pos rfl]
  rfl

theorem ofJson_add : Expr.ofJson (.array (.string "+" :: args)) =
    (Expr.listOfJson args).bind fun es => .ok (.add es) := by
  conv_lhs => unfold Expr.ofJson
  rw [if_neg (by decide), if_neg (by decide), if_neg (by decide), if_pos rfl]
  rfl

theorem ofJson_structPut : Expr.ofJson (.array [.string "struct_put", target, key, value]) =
    (Expr.ofJson target).bind fun e₁ => (Expr.ofJson key).bind fun e₂ =>
      (Expr.ofJson value).bind fun e₃ => .ok (.structPut e₁ e₂ e₃) := by
  conv_lhs => unfold Expr.ofJson
  rw [if_neg (by decide), if_neg (by decide), if_neg (by decide), if_neg (by decide), if_pos rfl]
  rfl

theorem ofJson_structGet : Expr.ofJson (.array [.string "struct_get", target, key]) =
    (Expr.ofJson target).bind fun e₁ => (Expr.ofJson key).bind fun e₂ =>
      .ok (.structGet e₁ e₂) := by
  conv_lhs => unfold Expr.ofJson
  rw [if_neg (by decide), if_neg (by decide), if_neg (by decide), if_neg (by decide),
    if_neg (by decide), if_pos rfl]
  rfl

end Operators

/-- A list of operands is compiled one by one. -/
theorem listOfJson_ok {js : List Json} {es : List Expr} (h : Expr.listOfJson js = .ok es) :
    List.Forall₂ (fun j e => Expr.ofJson j = .ok e) js es := by
  induction js generalizing es with
  | nil =>
    cases h
    exact .nil
  | cons j rest ih =>
    rw [Expr.listOfJson] at h
    obtain ⟨e, first, h⟩ := Except.of_bind_ok h
    obtain ⟨more, onward, h⟩ := Except.of_bind_ok h
    cases h
    exact .cons first (ih onward)

theorem listOfJson_of_forall₂ {js : List Json} {es : List Expr}
    (h : List.Forall₂ (fun j e => Expr.ofJson j = .ok e) js es) : Expr.listOfJson js = .ok es := by
  induction h with
  | nil => rfl
  | cons first _ ih =>
    rw [Expr.listOfJson, first, ih]
    rfl

theorem Expression.compiles {j : Json} (h : Expression j) : ∃ e, Expr.ofJson j = .ok e := by
  have all : ∀ {args : List Json}, (∀ j ∈ args, ∃ e, Expr.ofJson j = .ok e) →
      ∃ es, Expr.listOfJson args = .ok es := by
    intro args each
    obtain ⟨es, pairs⟩ := exists_forall₂_iff.mpr each
    exact ⟨es, listOfJson_of_forall₂ pairs⟩
  induction h with
  | datum noArray => exact ⟨_, ofJson_datum noArray⟩
  | quote j => exact ⟨_, ofJson_quote j⟩
  | ref name => exact ⟨_, ofJson_ref name⟩
  | list _ ih =>
    obtain ⟨es, compiled⟩ := all ih
    exact ⟨.list es, by rw [ofJson_list, compiled]; rfl⟩
  | add _ ih =>
    obtain ⟨es, compiled⟩ := all ih
    exact ⟨.add es, by rw [ofJson_add, compiled]; rfl⟩
  | structPut _ _ _ ih₁ ih₂ ih₃ =>
    obtain ⟨e₁, first⟩ := ih₁
    obtain ⟨e₂, second⟩ := ih₂
    obtain ⟨e₃, third⟩ := ih₃
    exact ⟨.structPut e₁ e₂ e₃, by rw [ofJson_structPut, first, second, third]; rfl⟩
  | structGet _ _ ih₁ ih₂ =>
    obtain ⟨e₁, first⟩ := ih₁
    obtain ⟨e₂, second⟩ := ih₂
    exact ⟨.structGet e₁ e₂, by rw [ofJson_structGet, first, second]; rfl⟩

/-- One level of an expression that compiled, given that its operands belong to the grammar. -/
theorem expression_step {j : Json} {e : Expr} (h : Expr.ofJson j = .ok e)
    (operands : ∀ a e, sizeOf a < sizeOf j → Expr.ofJson a = .ok e → Expression a) :
    Expression j := by
  unfold Expr.ofJson at h
  split at h
  · cases h
  · next operator args =>
    have inside : ∀ a ∈ args, ∀ e, Expr.ofJson a = .ok e → Expression a := by
      intro a mem e compiled
      have less := List.sizeOf_lt_of_mem mem
      apply operands a e _ compiled
      simp only [Json.array.sizeOf_spec, List.cons.sizeOf_spec]
      omega
    have all : ∀ {es : List Expr}, Expr.listOfJson args = .ok es → ∀ a ∈ args, Expression a := by
      intro es compiled a mem
      obtain ⟨e, made⟩ := exists_forall₂_iff.mp ⟨es, listOfJson_ok compiled⟩ a mem
      exact inside a mem e made
    split at h
    · next same =>
      subst same
      split at h
      · exact .quote _
      · cases h
    split at h
    · next same =>
      subst same
      split at h
      · exact .ref _
      · cases h
      · cases h
    split at h
    · next same =>
      subst same
      obtain ⟨es, compiled, _⟩ := Except.of_bind_ok h
      exact .list (all compiled)
    split at h
    · next same =>
      subst same
      obtain ⟨es, compiled, _⟩ := Except.of_bind_ok h
      exact .add (all compiled)
    split at h
    · next same =>
      subst same
      split at h
      · next target key value =>
        obtain ⟨e₁, first, h⟩ := Except.of_bind_ok h
        obtain ⟨e₂, second, h⟩ := Except.of_bind_ok h
        obtain ⟨e₃, third, _⟩ := Except.of_bind_ok h
        exact .structPut (inside _ (by simp) _ first) (inside _ (by simp) _ second)
          (inside _ (by simp) _ third)
      · cases h
    split at h
    · next same =>
      subst same
      split at h
      · next target key =>
        obtain ⟨e₁, first, h⟩ := Except.of_bind_ok h
        obtain ⟨e₂, second, _⟩ := Except.of_bind_ok h
        exact .structGet (inside _ (by simp) _ first) (inside _ (by simp) _ second)
      · cases h
    split at h <;> cases h
  · cases h
  · next noItems noOperator noForm =>
    apply Expression.datum
    rintro (_ | ⟨j, rest⟩) rfl
    · exact noItems rfl
    · exact noForm j rest rfl

theorem expression_of_ofJson {j : Json} {e : Expr} (h : Expr.ofJson j = .ok e) : Expression j := by
  induction size : sizeOf j using Nat.strong_induction_on generalizing j e with
  | _ n ih =>
    subst size
    exact expression_step h fun a e less compiled => ih _ less compiled rfl

/-! ### Statements -/

/-- Forms that are statements of a module. -/
inductive TopLevel : Json → Prop
  | require {texts : List String} (some : texts ≠ [])
      (valid : ∀ text ∈ texts, ∃ id, ModuleId.parse text = .ok id) :
      TopLevel (.array (.string "require" :: texts.map .string))
  | define {name : String} {value : Json} (named : name ≠ "") (expression : Expression value) :
      TopLevel (.array [.string "define", .string name, value])
  | provide {names : List String} (some : names ≠ []) :
      TopLevel (.array (.string "provide" :: names.map .string))
  | doc (text : String) : TopLevel (.array [.string "doc", .string text])
  | raise {message : Json} (expression : Expression message) :
      TopLevel (.array [.string "raise", message])
  | expr {j : Json} (expression : Expression j) : TopLevel j

/-- Scripts have no such statements. -/
def Statement.ModulesOnly : Statement → Prop
  | .provide _ | .doc _ => True
  | _ => False

section Strings

variable {args : List Json} {operator : String}

theorem expectString_ok {j : Json} {s : String} (h : expectString operator j = .ok s) :
    j = .string s := by
  cases j <;> cases h
  rfl

theorem strings_of_mapM {names : List String} (h : args.mapM (expectString operator) = .ok names) :
    args = names.map .string := by
  have pairs := Except.mapM_ok h
  clear h
  induction pairs with
  | nil => rfl
  | cons first _ ih => rw [expectString_ok first, ih, List.map_cons]

theorem mapM_strings (names : List String) :
    (names.map Json.string).mapM (expectString operator) = .ok names := by
  apply Except.mapM_of_forall₂
  rw [List.forall₂_map_left_iff, List.forall₂_same]
  intro name _
  rfl

theorem paths_of_mapM {ids : List ModuleId} (h : args.mapM pathOf = .ok ids) :
    ∃ texts, args = texts.map .string ∧
      List.Forall₂ (fun text id => ModuleId.parse text = .ok id) texts ids := by
  have pairs := Except.mapM_ok h
  clear h
  induction pairs with
  | nil => exact ⟨[], rfl, .nil⟩
  | @cons j id _ _ first _ ih =>
    obtain ⟨texts, rfl, valid⟩ := ih
    obtain ⟨text, read, first⟩ := Except.of_bind_ok first
    refine ⟨text :: texts, by rw [expectString_ok read, List.map_cons], .cons ?_ valid⟩
    split at first
    · next parsed =>
      cases first
      exact parsed
    · cases first

theorem mapM_paths {texts : List String} {ids : List ModuleId}
    (valid : List.Forall₂ (fun text id => ModuleId.parse text = .ok id) texts ids) :
    (texts.map Json.string).mapM pathOf = .ok ids := by
  apply Except.mapM_of_forall₂
  rw [List.forall₂_map_left_iff]
  refine valid.imp ?_
  intro text id parsed
  simp only [pathOf, expectString, bind, Except.bind, parsed]
  rfl

end Strings

section Compile

variable {inModule : Bool} {j : Json} {s : Statement}

/-- An expression is a statement as it is. -/
theorem ofJson_expression (h : Expression j) :
    Statement.ofJson inModule j = (Expr.ofJson j).bind fun e => .ok (.expr e) := by
  have operator : ∀ {op : String} (args : List Json), op ∈ expressionOperators →
      Statement.ofJson inModule (.array (.string op :: args)) =
        (Expr.ofJson (.array (.string op :: args))).bind fun e => .ok (.expr e) := by
    intro op args mem
    simp only [expressionOperators, List.mem_cons, List.not_mem_nil, or_false] at mem
    obtain rfl | rfl | rfl | rfl | rfl | rfl := mem <;> cases inModule <;> rfl
  cases h with
  | datum noArray =>
    cases j with
    | array items => exact absurd rfl (noArray items)
    | _ => rfl
  | quote | ref | list | add | structPut | structGet => exact operator _ (by decide)

/-- The form that a statement comes from, in a module or in a script. -/
def Statement.From (inModule : Bool) (j : Json) : Statement → Prop
  | .require ids => ∃ texts, texts ≠ [] ∧ j = .array (.string "require" :: texts.map .string) ∧
    List.Forall₂ (fun text id => ModuleId.parse text = .ok id) texts ids
  | .define name e => name ≠ "" ∧ ∃ value, j = .array [.string "define", .string name, value] ∧
    Expr.ofJson value = .ok e
  | .provide names => inModule = true ∧ names ≠ [] ∧
    j = .array (.string "provide" :: names.map .string)
  | .doc text => inModule = true ∧ j = .array [.string "doc", .string text]
  | .raise e => ∃ message, j = .array [.string "raise", message] ∧ Expr.ofJson message = .ok e
  | .expr e => Expr.ofJson j = .ok e

theorem from_of_ofJson (h : Statement.ofJson inModule j = .ok s) : s.From inModule j := by
  unfold Statement.ofJson at h
  split at h
  · next operator args =>
    split at h
    · next same =>
      subst same
      split at h
      · cases h
      · next some =>
        obtain ⟨ids, read, h⟩ := Except.of_bind_ok h
        cases h
        obtain ⟨texts, rfl, valid⟩ := paths_of_mapM read
        exact ⟨texts, by rintro rfl; exact some rfl, rfl, valid⟩
    split at h
    · next same =>
      subst same
      split at h
      · next name value =>
        obtain ⟨text, read, rest⟩ := Except.of_bind_ok h
        clear h
        obtain rfl := expectString_ok read
        split at rest
        · cases rest
        · next named =>
          obtain ⟨e, compiled, rest⟩ := Except.of_bind_ok rest
          cases rest
          exact ⟨by rintro rfl; exact named rfl, value, rfl, compiled⟩
      · cases h
    split at h
    · cases h
    next allowed =>
    split at h
    · next same =>
      subst same
      split at h
      · cases h
      · next some =>
        obtain ⟨names, read, h⟩ := Except.of_bind_ok h
        cases h
        obtain rfl := strings_of_mapM read
        exact ⟨by simpa using allowed, by rintro rfl; exact some rfl, rfl⟩
    split at h
    · next same =>
      subst same
      split at h
      · next text =>
        obtain ⟨text, read, h⟩ := Except.of_bind_ok h
        cases h
        obtain rfl := expectString_ok read
        exact ⟨by simpa using allowed, rfl⟩
      · cases h
    split at h
    · next same =>
      subst same
      split at h
      · next message =>
        obtain ⟨e, compiled, h⟩ := Except.of_bind_ok h
        cases h
        exact ⟨message, rfl, compiled⟩
      · cases h
    · obtain ⟨e, compiled, h⟩ := Except.of_bind_ok h
      cases h
      exact compiled
  · obtain ⟨e, compiled, h⟩ := Except.of_bind_ok h
    cases h
    exact compiled

theorem ofJson_of_from (h : s.From inModule j) : Statement.ofJson inModule j = .ok s := by
  cases s with
  | require ids =>
    obtain ⟨texts, some, rfl, valid⟩ := h
    simp [Statement.ofJson, some, mapM_paths valid, bind, Except.bind, pure, Except.pure]
  | define name e =>
    obtain ⟨named, value, rfl, compiled⟩ := h
    simp [Statement.ofJson, expectString, bind, Except.bind, named, compiled, pure, Except.pure]
  | provide names =>
    obtain ⟨rfl, some, rfl⟩ := h
    have read : (names.map Json.string).mapM (expectString "provide") = .ok names := mapM_strings names
    simp [Statement.ofJson, some, read, bind, Except.bind, pure, Except.pure]
  | doc text =>
    obtain ⟨rfl, rfl⟩ := h
    rfl
  | raise e =>
    obtain ⟨message, rfl, compiled⟩ := h
    simp [Statement.ofJson, compiled, bind, Except.bind, pure, Except.pure]
  | expr e =>
    rw [ofJson_expression (expression_of_ofJson h), h]
    rfl

theorem ofJson_iff : Statement.ofJson inModule j = .ok s ↔ s.From inModule j :=
  ⟨from_of_ofJson, ofJson_of_from⟩

/-- The forms of modules are those of the grammar. -/
theorem topLevel_iff : TopLevel j ↔ ∃ s, Statement.ofJson true j = .ok s := by
  simp only [ofJson_iff]
  constructor
  · intro h
    cases h with
    | @require texts some valid =>
      obtain ⟨ids, parsed⟩ := exists_forall₂_iff.mpr valid
      exact ⟨.require ids, texts, some, rfl, parsed⟩
    | @define name value named expression =>
      obtain ⟨e, compiled⟩ := expression.compiles
      exact ⟨.define name e, named, value, rfl, compiled⟩
    | @provide names some => exact ⟨.provide names, rfl, some, rfl⟩
    | doc text => exact ⟨.doc text, rfl, rfl⟩
    | @raise message expression =>
      obtain ⟨e, compiled⟩ := expression.compiles
      exact ⟨.raise e, message, rfl, compiled⟩
    | expr expression =>
      obtain ⟨e, compiled⟩ := expression.compiles
      exact ⟨.expr e, compiled⟩
  · rintro ⟨s, h⟩
    cases s with
    | require ids =>
      obtain ⟨texts, some, rfl, parsed⟩ := h
      exact .require some (exists_forall₂_iff.mp ⟨ids, parsed⟩)
    | define name e =>
      obtain ⟨named, value, rfl, compiled⟩ := h
      exact .define named (expression_of_ofJson compiled)
    | provide names =>
      obtain ⟨_, some, rfl⟩ := h
      exact .provide some
    | doc text =>
      obtain ⟨_, rfl⟩ := h
      exact .doc text
    | raise e =>
      obtain ⟨message, rfl, compiled⟩ := h
      exact .raise (expression_of_ofJson compiled)
    | expr e => exact .expr (expression_of_ofJson h)

/-- A text compiles in a module just when all its values belong to the grammar. -/
theorem compile_iff {text : String} {forms : List (Json.Position × Json)}
    (h : Json.stream text = .ok forms) :
    (∃ p, compile true text = .ok p) ↔ ∀ form ∈ forms, TopLevel form.2 := by
  have each : ∀ form : Json.Position × Json,
      (∃ located, Located.ofForm true form = .ok located) ↔ TopLevel form.2 := by
    intro form
    rw [topLevel_iff, Located.ofForm]
    cases compiled : Statement.ofJson true form.2 with
    | ok s => exact iff_of_true ⟨_, rfl⟩ ⟨s, rfl⟩
    | error fault =>
      apply iff_of_false
      · rintro ⟨_, ⟨⟩⟩
      · rintro ⟨_, ⟨⟩⟩
  rw [compile_of_stream h]
  constructor
  · rintro ⟨p, made⟩ form mem
    exact (each form).mp (exists_forall₂_iff.mp ⟨p, Except.mapM_ok made⟩ form mem)
  · intro grammar
    obtain ⟨p, pairs⟩ := exists_forall₂_iff.mpr fun form mem => (each form).mpr (grammar form mem)
    exact ⟨p, Except.mapM_of_forall₂ pairs⟩

/-- A script has the statements of modules, but for those that only modules have. -/
theorem script_iff :
    Statement.ofJson false j = .ok s ↔ Statement.ofJson true j = .ok s ∧ ¬s.ModulesOnly := by
  rw [ofJson_iff, ofJson_iff]
  cases s with
  | require | define | raise | expr => exact (and_iff_left not_false).symm
  | provide | doc =>
    constructor
    · rintro ⟨script, _⟩
      cases script
    · rintro ⟨_, only⟩
      exact absurd trivial only

end Compile

/-- `Part k j`: among the items of `j`, at any depth, and not in quoted data, stands `k`. -/
inductive Part (k : Json) : Json → Prop
  | item {items : List Json} (form : items.head? ≠ some (.string "quote")) (mem : k ∈ items) :
      Part k (.array items)
  | inside {items : List Json} {i : Json} (form : items.head? ≠ some (.string "quote"))
      (mem : i ∈ items) (more : Part k i) : Part k (.array items)

theorem expression_string (text : String) : Expression (.string text) := .datum nofun

/-- An array that is an expression begins with the name of an operator of expressions. -/
theorem Expression.operator {items : List Json} (h : Expression (.array items)) :
    ∃ op args, items = .string op :: args ∧ op ∈ expressionOperators := by
  cases h with
  | datum noArray => exact absurd rfl (noArray items)
  | quote | ref | list | add | structPut | structGet => exact ⟨_, _, rfl, by decide⟩

theorem Expression.items {items : List Json} (h : Expression (.array items))
    (form : items.head? ≠ some (.string "quote")) : ∀ j ∈ items, Expression j := by
  cases h with
  | datum noArray => exact absurd rfl (noArray items)
  | quote => exact absurd rfl form
  | ref name => simp [expression_string]
  | list each => exact List.forall_mem_cons.mpr ⟨expression_string _, each⟩
  | add each => exact List.forall_mem_cons.mpr ⟨expression_string _, each⟩
  | structPut first second third => simp [expression_string, first, second, third]
  | structGet first second => simp [expression_string, first, second]

theorem TopLevel.items {items : List Json} (h : TopLevel (.array items))
    (form : items.head? ≠ some (.string "quote")) : ∀ j ∈ items, Expression j := by
  have strings : ∀ (op : String) (texts : List String),
      ∀ j ∈ Json.string op :: texts.map Json.string, Expression j := by
    intro op texts
    have each := List.forall_mem_map.mpr fun text (_ : text ∈ texts) => expression_string text
    exact List.forall_mem_cons.mpr ⟨expression_string op, each⟩
  cases h with
  | require => exact strings _ _
  | define _ expression => simp [expression_string, expression]
  | provide => exact strings _ _
  | doc text => simp [expression_string]
  | raise expression => simp [expression_string, expression]
  | expr expression => exact expression.items form

theorem Expression.part {j k : Json} (h : Expression j) (part : Part k j) : Expression k := by
  induction part with
  | item form mem => exact h.items form k mem
  | inside form mem _ ih => exact ih (h.items form _ mem)

/-- Below the top level there are expressions only. -/
theorem TopLevel.part {j k : Json} (h : TopLevel j) (part : Part k j) : Expression k := by
  cases part with
  | item form mem => exact h.items form k mem
  | inside form mem more => exact (h.items form _ mem).part more

theorem TopLevel.operator {items : List Json} (h : TopLevel (.array items)) :
    ∃ op args, items = .string op :: args := by
  cases h with
  | require | define | provide | doc | raise => exact ⟨_, _, rfl⟩
  | expr expression =>
    obtain ⟨op, args, rfl, _⟩ := expression.operator
    exact ⟨op, args, rfl⟩

mutual
/-- The form of an expression. A literal list is quoted. -/
def Expr.encode : Expr → Json
  | .literal (.list items) => .array [.string "quote", Value.toJson (.list items)]
  | .literal v => v.toJson
  | .ref name => .array [.string "ref", .string name]
  | .list items => .array (.string "list" :: Expr.encodeAll items)
  | .add items => .array (.string "+" :: Expr.encodeAll items)
  | .structPut target key value =>
    .array [.string "struct_put", target.encode, key.encode, value.encode]
  | .structGet target key => .array [.string "struct_get", target.encode, key.encode]

def Expr.encodeAll : List Expr → List Json
  | [] => []
  | e :: rest => e.encode :: Expr.encodeAll rest
end

mutual
/-- The same expression, its literals without marks. -/
def Expr.unmarked : Expr → Expr
  | .literal v => .literal v.unmarked
  | .ref name => .ref name
  | .list items => .list (Expr.unmarkedAll items)
  | .add items => .add (Expr.unmarkedAll items)
  | .structPut target key value => .structPut target.unmarked key.unmarked value.unmarked
  | .structGet target key => .structGet target.unmarked key.unmarked

def Expr.unmarkedAll : List Expr → List Expr
  | [] => []
  | e :: rest => e.unmarked :: Expr.unmarkedAll rest
end

/-- The floats of its literals are finite. -/
inductive Expr.Finite : Expr → Prop
  | literal {v : Value} (finite : v.Finite) : Finite (.literal v)
  | ref (name : String) : Finite (.ref name)
  | list {items : List Expr} (each : ∀ e ∈ items, Finite e) : Finite (.list items)
  | add {items : List Expr} (each : ∀ e ∈ items, Finite e) : Finite (.add items)
  | structPut {target key value : Expr} (first : Finite target) (second : Finite key)
      (third : Finite value) : Finite (.structPut target key value)
  | structGet {target key : Expr} (first : Finite target) (second : Finite key) :
      Finite (.structGet target key)

namespace Statement

def encode : Statement → Json
  | .require paths => .array (.string "require" :: paths.map fun id => .string id.text)
  | .define name value => .array [.string "define", .string name, value.encode]
  | .provide names => .array (.string "provide" :: names.map .string)
  | .doc text => .array [.string "doc", .string text]
  | .raise message => .array [.string "raise", message.encode]
  | .expr e => e.encode

def unmarked : Statement → Statement
  | .define name value => .define name value.unmarked
  | .raise message => .raise message.unmarked
  | .expr e => .expr e.unmarked
  | other => other

/-- A statement that has a form. -/
def Encodable : Statement → Prop
  | .require paths => paths ≠ []
  | .define name value => name ≠ "" ∧ value.Finite
  | .provide names => names ≠ []
  | .doc _ => True
  | .raise message => message.Finite
  | .expr e => e.Finite

end Statement

theorem listOfJson_encodeAll {items : List Expr}
    (each : ∀ e ∈ items, Expr.ofJson e.encode = .ok e.unmarked) :
    Expr.listOfJson (Expr.encodeAll items) = .ok (Expr.unmarkedAll items) := by
  induction items with
  | nil => rfl
  | cons e rest ih =>
    obtain ⟨first, later⟩ := List.forall_mem_cons.mp each
    rw [Expr.encodeAll, Expr.listOfJson, first, ih later]
    rfl

theorem ofJson_encode_literal {v : Value} (finite : v.Finite) :
    Expr.ofJson (Expr.literal v).encode = .ok (.literal v.unmarked) := by
  rw [← Value.ofJson_toJson finite]
  cases finite with
  | list => exact ofJson_quote _
  | null | bool | int | string => exact ofJson_datum nofun
  | float finite =>
    apply ofJson_datum
    intro items array
    simp [Expr.encode, Value.toJson, finite] at array
  | struct =>
    apply ofJson_datum
    intro items array
    simp [Expr.encode] at array

theorem Expr.Finite.ofJson_encode {e : Expr} (finite : e.Finite) :
    Expr.ofJson e.encode = .ok e.unmarked := by
  induction finite with
  | literal finite => exact ofJson_encode_literal finite
  | ref name => exact ofJson_ref name
  | list _ ih =>
    rw [Expr.encode, ofJson_list, listOfJson_encodeAll ih]
    rfl
  | add _ ih =>
    rw [Expr.encode, ofJson_add, listOfJson_encodeAll ih]
    rfl
  | structPut _ _ _ ih₁ ih₂ ih₃ =>
    rw [Expr.encode, ofJson_structPut, ih₁, ih₂, ih₃]
    rfl
  | structGet _ _ ih₁ ih₂ =>
    rw [Expr.encode, ofJson_structGet, ih₁, ih₂]
    rfl

/-- A module path is read as itself. -/
theorem parse_text (id : ModuleId) : ModuleId.parse id.text = .ok id := by
  obtain ⟨text, absolute⟩ := id
  have parsed : ModuleId.parseAbsolute text = .ok ⟨text, absolute⟩ := by
    unfold ModuleId.parseAbsolute
    split
    · rfl
    · next fault found =>
      rw [found] at absolute
      cases absolute
  have slash : ∃ rest, text.toList = '/' :: rest := by
    unfold absoluteFault? at absolute
    split at absolute
    · cases absolute
    · next rest _ here => exact ⟨rest, here⟩
    · cases absolute
  obtain ⟨rest, slash⟩ := slash
  unfold ModuleId.parse
  rw [slash]
  exact parsed

/-- A statement compiles from its form to itself. -/
theorem Statement.Encodable.ofJson_encode {s : Statement} (h : s.Encodable) :
    Statement.ofJson true s.encode = .ok s.unmarked := by
  rw [ofJson_iff]
  cases s with
  | require paths =>
    have some : paths.map (·.text) ≠ [] := fun none => h (List.map_eq_nil_iff.mp none)
    refine ⟨paths.map (·.text), some, by rw [encode, List.map_map]; rfl, ?_⟩
    rw [List.forall₂_map_left_iff, List.forall₂_same]
    exact fun id _ => parse_text id
  | define name value => exact ⟨h.1, _, rfl, h.2.ofJson_encode⟩
  | provide names => exact ⟨rfl, h, rfl⟩
  | doc text => exact ⟨rfl, rfl⟩
  | raise message => exact ⟨_, rfl, Expr.Finite.ofJson_encode h⟩
  | expr e => exact Expr.Finite.ofJson_encode h

mutual
theorem unmarked_ofJson : ∀ j : Json, (Value.ofJson j).unmarked = Value.ofJson j
  | .null | .bool _ | .float _ | .string _ => by rw [Value.ofJson, Value.unmarked] <;> simp
  | .int n => by
    rw [Value.ofJson, Value.ofJsonInt]
    split <;> rfl
  | .array items => by rw [Value.ofJson, Value.unmarked, unmarked_ofJsonItems items]
  | .object fields => by rw [Value.ofJson, Value.unmarked, unmarked_ofJsonFields fields]

theorem unmarked_ofJsonItems : ∀ items : List Json,
    Value.unmarkedItems (Value.ofJsonItems items) = Value.ofJsonItems items
  | [] => rfl
  | item :: rest => by
    rw [Value.ofJsonItems, Value.unmarkedItems, unmarked_ofJson item, unmarked_ofJsonItems rest]

theorem unmarked_ofJsonFields : ∀ fields : List (String × Json),
    Value.unmarkedFields (Value.ofJsonFields fields) = Value.ofJsonFields fields
  | [] => rfl
  | (name, item) :: rest => by
    rw [Value.ofJsonFields, Value.unmarkedFields, unmarked_ofJson item, unmarked_ofJsonFields rest]
end

theorem unmarkedAll_of_forall₂ {js : List Json} {es : List Expr}
    (each : ∀ j ∈ js, ∀ e, Expr.ofJson j = .ok e → e.unmarked = e)
    (h : Expr.listOfJson js = .ok es) : Expr.unmarkedAll es = es := by
  have pairs := listOfJson_ok h
  clear h
  induction pairs with
  | nil => rfl
  | cons first _ ih =>
    obtain ⟨here, later⟩ := List.forall_mem_cons.mp each
    rw [Expr.unmarkedAll, here _ first, ih later]

theorem Expression.unmarked {j : Json} (h : Expression j) :
    ∀ e, Expr.ofJson j = .ok e → e.unmarked = e := by
  induction h with
  | datum noArray =>
    intro e compiled
    rw [ofJson_datum noArray] at compiled
    cases compiled
    rw [Expr.unmarked, unmarked_ofJson]
  | quote j =>
    intro e compiled
    rw [ofJson_quote] at compiled
    cases compiled
    rw [Expr.unmarked, unmarked_ofJson]
  | ref name =>
    intro e compiled
    rw [ofJson_ref] at compiled
    cases compiled
    rfl
  | list _ ih =>
    intro e compiled
    rw [ofJson_list] at compiled
    obtain ⟨es, made, done⟩ := Except.of_bind_ok compiled
    cases done
    rw [Expr.unmarked, unmarkedAll_of_forall₂ ih made]
  | add _ ih =>
    intro e compiled
    rw [ofJson_add] at compiled
    obtain ⟨es, made, done⟩ := Except.of_bind_ok compiled
    cases done
    rw [Expr.unmarked, unmarkedAll_of_forall₂ ih made]
  | structPut _ _ _ ih₁ ih₂ ih₃ =>
    intro e compiled
    rw [ofJson_structPut] at compiled
    obtain ⟨e₁, first, compiled⟩ := Except.of_bind_ok compiled
    obtain ⟨e₂, second, compiled⟩ := Except.of_bind_ok compiled
    obtain ⟨e₃, third, done⟩ := Except.of_bind_ok compiled
    cases done
    rw [Expr.unmarked, ih₁ e₁ first, ih₂ e₂ second, ih₃ e₃ third]
  | structGet _ _ ih₁ ih₂ =>
    intro e compiled
    rw [ofJson_structGet] at compiled
    obtain ⟨e₁, first, compiled⟩ := Except.of_bind_ok compiled
    obtain ⟨e₂, second, done⟩ := Except.of_bind_ok compiled
    cases done
    rw [Expr.unmarked, ih₁ e₁ first, ih₂ e₂ second]

theorem unmarked_of_ofJson {e : Expr} {j : Json} (h : Expr.ofJson j = .ok e) : e.unmarked = e :=
  (expression_of_ofJson h).unmarked e h

theorem Statement.unmarked_of_ofJson {inModule : Bool} {j : Json} {s : Statement}
    (h : Statement.ofJson inModule j = .ok s) : s.unmarked = s := by
  rw [ofJson_iff] at h
  cases s with
  | require | provide | doc => rfl
  | define name e =>
    obtain ⟨_, value, _, compiled⟩ := h
    rw [unmarked, Form.unmarked_of_ofJson compiled]
  | raise e =>
    obtain ⟨message, _, compiled⟩ := h
    rw [unmarked, Form.unmarked_of_ofJson compiled]
  | expr e => rw [unmarked, Form.unmarked_of_ofJson h]

/-! ### The grammar of programs -/

/-- A statement compiles from its form to itself; compiled statements have no marks. In a module just
the forms of the grammar compile, alone or in a text, and inside them, but for data, every array is an
expression that begins with an operator of its own. In a script the same forms compile, but for those
that only modules have. -/
theorem exact_grammar :
    (∀ s : Statement, s.Encodable → Statement.ofJson true s.encode = .ok s.unmarked) ∧
    (∀ j s, Statement.ofJson true j = .ok s → s.unmarked = s) ∧
    (∀ j, (∃ s, Statement.ofJson true j = .ok s) ↔ TopLevel j) ∧
    (∀ text forms, Json.stream text = .ok forms →
      ((∃ p, compile true text = .ok p) ↔ ∀ form ∈ forms, TopLevel form.2)) ∧
    (∀ j, (∃ s, Statement.ofJson true j = .ok s) →
      (∀ items, j = .array items → ∃ op args, items = .string op :: args) ∧
      ∀ items, Part (.array items) j →
        ∃ op args, items = .string op :: args ∧ op ∉ statementOperators) ∧
    ∀ j s, Statement.ofJson false j = .ok s ↔ Statement.ofJson true j = .ok s ∧ ¬s.ModulesOnly := by
  refine ⟨fun s h => h.ofJson_encode, fun j s => Statement.unmarked_of_ofJson, ?_, ?_, ?_, ?_⟩
  · intro j
    exact topLevel_iff.symm
  · intro text forms streamed
    exact compile_iff streamed
  · intro j accepted
    have top := topLevel_iff.mpr accepted
    constructor
    · rintro items rfl
      exact top.operator
    · intro items part
      obtain ⟨op, args, rfl, mem⟩ := (top.part part).operator
      refine ⟨op, args, rfl, ?_⟩
      simp only [expressionOperators, List.mem_cons, List.not_mem_nil, or_false] at mem
      obtain rfl | rfl | rfl | rfl | rfl | rfl := mem <;> decide
  · intro j s
    exact script_iff

/-- A definition that adds a quoted list and a reference. -/
theorem exact_grammar_define : ∃ s : Statement, s.Encodable ∧
    s.encode = .array [.string "define", .string "a",
      .array [.string "+", .array [.string "quote", .array [.int 1]], .array [.string "ref", .string "b"]]] ∧
    Statement.ofJson true s.encode = .ok s ∧ TopLevel s.encode ∧
    Statement.ofJson false s.encode = .ok s := by
  obtain ⟨encoded, _, grammar, _, _, script⟩ := exact_grammar
  have finite : (Expr.add [.literal (.list [.int 1]), .ref "b"]).Finite := by
    apply Expr.Finite.add
    simp only [List.forall_mem_cons, List.not_mem_nil, false_imp_iff, implies_true, and_true]
    refine ⟨.literal (.list ?_), .ref "b"⟩
    simp only [List.forall_mem_cons, List.not_mem_nil, false_imp_iff, implies_true, and_true]
    exact .int 1
  have encodable : (Statement.define "a" (.add [.literal (.list [.int 1]), .ref "b"])).Encodable :=
    ⟨by decide, finite⟩
  have compiled := encoded _ encodable
  exact ⟨_, encodable, rfl, compiled, (grammar _).mp ⟨_, compiled⟩,
    (script _ _).mpr ⟨compiled, not_false⟩⟩

end ModuleSystem.Form
