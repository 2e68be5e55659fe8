import ModuleSystem.Form.Basic

/-! From source texts to programs. All forms of a source are read before the first one is compiled,
and the first form that does not compile decides the error. -/

namespace ModuleSystem.Form

open Coverage (Span)

/-- Why a form is not a statement, or not an expression. -/
inductive FormFault where
  | requireNothing
  | provideNothing
  | notString (operator : String) (found : Json)
  | badPath (e : PathError)
  | emptyName
  | modulesOnly (operator : String)
  | arity (operator : String) (expected found : Nat)
  | emptyForm
  | noOperator
  | topLevelOnly (operator : String)
  | unknownOperator (operator : String)

def FormFault.message : FormFault → String
  | .requireNothing => "`require` needs at least one module path"
  | .provideNothing => "`provide` needs at least one name"
  | .notString operator found => s!"`{operator}` expects a string, got {found.compact}"
  | .badPath e => e.message
  | .emptyName => "`define` needs a non-empty name"
  | .modulesOnly operator => s!"`{operator}` is only allowed in modules"
  | .arity operator expected found =>
    let plural := if expected = 1 then "" else "s"
    s!"`{operator}` takes {expected} argument{plural}, got {found}"
  | .emptyForm => "empty form"
  | .noOperator => "a form must start with an operator name"
  | .topLevelOnly operator => s!"`{operator}` is only allowed at top level"
  | .unknownOperator operator => s!"unknown operator `{operator}`"

def statementOperators : List String := ["require", "define", "provide", "doc", "raise"]

mutual
def Expr.ofJson : Json → Except FormFault Expr
  | .array [] => .error .emptyForm
  | .array (.string operator :: args) =>
    if operator = "quote" then
      match args with
      | [datum] => .ok (.literal (.ofJson datum))
      | _ => .error (.arity operator 1 args.length)
    else if operator = "ref" then
      match args with
      | [.string name] => .ok (.ref name)
      | [other] => .error (.notString operator other)
      | _ => .error (.arity operator 1 args.length)
    else if operator = "list" then do return .list (← Expr.listOfJson args)
    else if operator = "+" then do return .add (← Expr.listOfJson args)
    else if operator = "struct_put" then
      match args with
      | [target, key, value] => do
        return .structPut (← Expr.ofJson target) (← Expr.ofJson key) (← Expr.ofJson value)
      | _ => .error (.arity operator 3 args.length)
    else if operator = "struct_get" then
      match args with
      | [target, key] => do return .structGet (← Expr.ofJson target) (← Expr.ofJson key)
      | _ => .error (.arity operator 2 args.length)
    else if statementOperators.contains operator then .error (.topLevelOnly operator)
    else .error (.unknownOperator operator)
  | .array (_ :: _) => .error .noOperator
  | datum => .ok (.literal (.ofJson datum))

def Expr.listOfJson : List Json → Except FormFault (List Expr)
  | [] => .ok []
  | item :: rest => do
    let e ← Expr.ofJson item
    return e :: (← Expr.listOfJson rest)
end

def expectString (operator : String) : Json → Except FormFault String
  | .string s => .ok s
  | other => .error (.notString operator other)

def pathOf (arg : Json) : Except FormFault ModuleId := do
  let text ← expectString "require" arg
  match ModuleId.parse text with
  | .ok id => return id
  | .error e => .error (.badPath e)

/-- Compiles a top-level form, of a module or of a script. -/
def Statement.ofJson (inModule : Bool) (form : Json) : Except FormFault Statement :=
  match form with
  | .array (.string operator :: args) =>
    if operator = "require" then
      if args.isEmpty then .error .requireNothing
      else do return .require (← args.mapM pathOf)
    else if operator = "define" then
      match args with
      | [name, value] => do
        let name ← expectString operator name
        if name.isEmpty then .error .emptyName else return .define name (← Expr.ofJson value)
      | _ => .error (.arity operator 2 args.length)
    else if !inModule && (operator = "provide" || operator = "doc") then
      .error (.modulesOnly operator)
    else if operator = "provide" then
      if args.isEmpty then .error .provideNothing
      else do return .provide (← args.mapM (expectString operator))
    else if operator = "doc" then
      match args with
      | [text] => do return .doc (← expectString operator text)
      | _ => .error (.arity operator 1 args.length)
    else if operator = "raise" then
      match args with
      | [message] => do return .raise (← Expr.ofJson message)
      | _ => .error (.arity operator 1 args.length)
    else do return .expr (← Expr.ofJson form)
  | _ => do return .expr (← Expr.ofJson form)

structure CompileError where
  span : Option Span
  message : String
  deriving DecidableEq

def spanOf (p : Json.Position) : Span := ⟨p.line.toUInt32, p.column.toUInt32⟩

def Located.ofForm (inModule : Bool) (form : Json.Position × Json) : Except CompileError Located :=
  match Statement.ofJson inModule form.2 with
  | .ok statement => .ok ⟨spanOf form.1, statement⟩
  | .error fault => .error ⟨some (spanOf form.1), fault.message⟩

/-- A text that is no stream of values is reported where its reading failed. -/
def formsOf (text : String) : Except CompileError (List (Json.Position × Json)) :=
  match Json.stream text with
  | .ok forms => .ok forms
  | .error e =>
    .error ⟨some ⟨e.line.toUInt32, e.column.toUInt32⟩, s!"malformed form: {e.message}"⟩

def compile (inModule : Bool) (text : String) : Except CompileError Program := do
  let forms ← formsOf text
  forms.mapM (Located.ofForm inModule)

end ModuleSystem.Form
