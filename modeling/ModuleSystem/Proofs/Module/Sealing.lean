import ModuleSystem.Module.Namespace
import ModuleSystem.Proofs.Value.FieldMaps
import ModuleSystem.Proofs.Value.Interchange

namespace ModuleSystem

namespace Value

variable {maps : Nat → Fields Value}

/-- No floats, and the fields of every struct in order: equality compares all but the marks. -/
def Plain (maps : Nat → Fields Value) (v : Value) : Prop := v.Formed maps ∧ ∃ n, v.Exact n

theorem Plain.unmarked_of_beq {v w : Value} (h : v.Plain maps) (h' : w.Plain maps)
    (equal : (v == w) = true) : v.unmarked = w.unmarked := by
  obtain ⟨formed, n, exact_⟩ := h
  exact Value.unmarked_of_beq exact_ formed h'.1 equal

/-- Field maps of such values. -/
def PlainFields (maps : Nat → Fields Value) (fields : Fields Value) : Prop :=
  fields.Sorted ∧ ∀ field ∈ fields, field.2.Plain maps

section Assign

variable {fields entries : Fields Value} {name key : String} {v : Value}

theorem assign_plain (plain : PlainFields maps fields) (new : v.Plain maps) :
    PlainFields maps (assign fields name v) := by
  unfold assign
  split
  · exact plain
  · constructor
    · exact Fields.sorted_insert plain.1
    · intro field mem
      obtain rfl | old := Fields.mem_insert mem
      · exact new
      · exact plain.2 field old

theorem assign_unmarked (plain : PlainFields maps fields) (new : v.Plain maps) :
    (Fields.get? (assign fields name v) name).map unmarked = some v.unmarked := by
  rw [get?_assign_self]
  split
  · next bound =>
    obtain ⟨old, found, equal⟩ := Option.any_eq_true _ _ |>.mp bound
    have old_plain := plain.2 _ (Fields.mem_of_get? found)
    rw [found, Option.map_some, old_plain.unmarked_of_beq new equal]
  · rfl

/-- Entries for different names are bound each for itself. -/
theorem get?_assignAll (distinct : entries.names.Nodup) (name : String) :
    Fields.get? (assignAll fields entries) name =
      match entries.get? name with
      | some v => Fields.get? (assign fields name v) name
      | none => fields.get? name := by
  induction entries generalizing fields with
  | nil => rfl
  | cons entry rest ih =>
    obtain ⟨key, v⟩ := entry
    rw [Fields.names, List.map_cons, List.nodup_cons] at distinct
    rw [assignAll, List.foldl_cons, ← assignAll, ih distinct.2]
    by_cases same : key = name
    · subst same
      have absent : Fields.get? rest key = none := by
        rw [← Option.not_isSome_iff_eq_none, ← Fields.mem_names_iff]
        exact distinct.1
      rw [absent, Fields.get?, if_pos rfl]
    · rw [Fields.get?_cons_of_ne same]
      split
      · rw [get?_assign_self, get?_assign_self, isBound, isBound, get?_assign_of_ne same]
      · exact get?_assign_of_ne same

theorem sorted_assignAll (sorted : fields.Sorted) (entries : Fields Value) :
    (assignAll fields entries).Sorted := by
  induction entries generalizing fields with
  | nil => exact sorted
  | cons entry rest ih =>
    apply ih
    change (assign fields entry.1 entry.2).Sorted
    unfold assign
    split
    · exact sorted
    · exact Fields.sorted_insert sorted

/-- In whatever order they come. -/
theorem assignAll_perm {entries' : Fields Value} (sorted : fields.Sorted)
    (distinct : entries.names.Nodup) (perm : entries.Perm entries') :
    assignAll fields entries = assignAll fields entries' := by
  have distinct' : entries'.names.Nodup := (perm.map _).nodup_iff.mp distinct
  have same : ∀ name, entries.get? name = entries'.get? name := by
    intro name
    apply Option.ext
    intro v
    rw [Fields.get?_eq_some_iff distinct, Fields.get?_eq_some_iff distinct', perm.mem_iff]
  apply (sorted_assignAll sorted entries).ext (sorted_assignAll sorted entries')
  intro name
  rw [get?_assignAll distinct, get?_assignAll distinct', same]

theorem assignAll_plain (plain : PlainFields maps fields) (new : PlainFields maps entries) :
    PlainFields maps (assignAll fields entries) := by
  have each := new.2
  clear new
  induction entries generalizing fields with
  | nil => exact plain
  | cons entry rest ih =>
    obtain ⟨first, later⟩ := List.forall_mem_cons.mp each
    exact ih (assign_plain plain first) later

theorem assignAll_unmarked (plain : PlainFields maps fields) (new : PlainFields maps entries)
    (name : String) : (Fields.get? (assignAll fields entries) name).map unmarked =
      ((entries.get? name).or (fields.get? name)).map unmarked := by
  rw [get?_assignAll new.1.nodup]
  split
  · next v found =>
    rw [found, assign_unmarked plain (new.2 _ (Fields.mem_of_get? found))]
    rfl
  · next absent =>
    rw [absent]
    rfl

theorem select_plain (plain : PlainFields maps fields) (chosen : List String) :
    PlainFields maps (fields.select chosen) := by
  constructor
  · exact plain.1.select chosen
  · intro field mem
    exact plain.2 field (List.mem_of_mem_filter mem)

end Assign
end Value

/-- What a body does to its namespace. -/
inductive NamespaceOp where
  | define (name : String) (value : Value)
  | provide (name : String)
  | setDocs (text : String)
  | importModule (m : ModuleInstance)

namespace NamespaceOp

variable {maps : Nat → Fields Value}

def apply (ns : Namespace) : NamespaceOp → Namespace
  | .define name value => ns.define name value
  | .provide name => ns.provide name
  | .setDocs text => ns.setDocs text
  | .importModule m => ns.importModule m

/-- What it binds the name to, if it does. -/
def binds? (name : String) : NamespaceOp → Option Value
  | .define key value => if key = name then some value else none
  | .importModule m => m.exports.get? name
  | _ => none

def defined? : NamespaceOp → Option String
  | .define name _ => some name
  | _ => none

def provided? : NamespaceOp → Option String
  | .provide name => some name
  | _ => none

def imported? : NamespaceOp → Option ModuleId
  | .importModule m => some m.id
  | _ => none

/-- All values that it brings are plain. -/
def Plain (maps : Nat → Fields Value) : NamespaceOp → Prop
  | .define _ value => value.Plain maps
  | .importModule m => Value.PlainFields maps m.bindings
  | _ => True

theorem apply_plain {ns : Namespace} {op : NamespaceOp} (plain : Value.PlainFields maps ns.bindings)
    (new : op.Plain maps) : Value.PlainFields maps (op.apply ns).bindings := by
  cases op with
  | define name value => exact Value.assign_plain plain new
  | importModule m => exact Value.assignAll_plain plain (Value.select_plain new _)
  | provide | setDocs => exact plain

theorem apply_lookup {ns : Namespace} {op : NamespaceOp}
    (plain : Value.PlainFields maps ns.bindings) (new : op.Plain maps) (name : String) :
    ((op.apply ns).lookup name).map Value.unmarked =
      ((op.binds? name).or (ns.lookup name)).map Value.unmarked := by
  cases op with
  | define key value =>
    rw [binds?]
    split
    · next same =>
      subst same
      exact Value.assign_unmarked plain new
    · next other =>
      change Option.map _ (Fields.get? (Value.assign _ _ _) _) = _
      rw [Value.get?_assign_of_ne other]
      rfl
  | importModule m => exact Value.assignAll_unmarked plain (Value.select_plain new _) name
  | provide | setDocs => rfl

end NamespaceOp

namespace Namespace

variable {maps : Nat → Fields Value} {seed : Fields Value} {ops : List NamespaceOp}

def run (ns : Namespace) (ops : List NamespaceOp) : Namespace := ops.foldl NamespaceOp.apply ns

/-- What the last operation that binds the name binds it to. -/
def written (ops : List NamespaceOp) (name : String) : Option Value :=
  ops.reverse.findSome? (·.binds? name)

/-- The same, else the seed. -/
def final (seed : Fields Value) (ops : List NamespaceOp) (name : String) : Option Value :=
  (written ops name).or (seed.get? name)

def defines (ops : List NamespaceOp) : List String := ops.filterMap (·.defined?)

def provides (ops : List NamespaceOp) : List String := ops.filterMap (·.provided?)

def imports (ops : List NamespaceOp) : List ModuleId := ops.filterMap (·.imported?)

/-- The names that the module is to offer. -/
def offers (ops : List NamespaceOp) : List String :=
  if provides ops = [] then defines ops else provides ops

theorem run_plain {ns : Namespace} (plain : Value.PlainFields maps ns.bindings)
    (new : ∀ op ∈ ops, op.Plain maps) : Value.PlainFields maps (ns.run ops).bindings := by
  induction ops generalizing ns with
  | nil => exact plain
  | cons op rest ih =>
    obtain ⟨first, later⟩ := List.forall_mem_cons.mp new
    exact ih (NamespaceOp.apply_plain plain first) later

theorem run_lookup {ns : Namespace} (plain : Value.PlainFields maps ns.bindings)
    (new : ∀ op ∈ ops, op.Plain maps) (name : String) :
    ((ns.run ops).lookup name).map Value.unmarked =
      ((written ops name).or (ns.lookup name)).map Value.unmarked := by
  induction ops generalizing ns with
  | nil => rfl
  | cons op rest ih =>
    obtain ⟨first, later⟩ := List.forall_mem_cons.mp new
    have last : written (op :: rest) name = (written rest name).or (op.binds? name) := by
      rw [written, List.reverse_cons, List.findSome?_append, written]
      simp
    change ((run (op.apply ns) rest).lookup name).map _ = _
    rw [ih (NamespaceOp.apply_plain plain first) later, last, Option.or_assoc]
    cases written rest name with
    | some v => rfl
    | none => exact NamespaceOp.apply_lookup plain first name

/-- A list to which each item is added unless it is there already. -/
theorem eraseDups_concat {α : Type} [BEq α] [LawfulBEq α] (as : List α) (a : α) :
    (as ++ [a]).eraseDups = if as.eraseDups.contains a then as.eraseDups else as.eraseDups ++ [a] := by
  rw [List.eraseDups_append, List.removeAll]
  by_cases mem : a ∈ as
  · rw [if_pos (List.contains_iff_mem.mpr (List.mem_eraseDups.mpr mem))]
    simp [mem]
  · rw [if_neg (fun h => mem (List.mem_eraseDups.mp (List.contains_iff_mem.mp h)))]
    simp [mem, List.eraseDups_cons]

theorem nodup_eraseDups {α : Type} [BEq α] [LawfulBEq α] (as : List α) : as.eraseDups.Nodup := by
  induction as using List.reverseRecOn with
  | nil => exact List.nodup_nil
  | append_singleton as a ih =>
    rw [eraseDups_concat]
    split
    · exact ih
    · next new =>
      rw [List.nodup_append]
      refine ⟨ih, List.nodup_singleton a, ?_⟩
      rintro b mem _ (_ | ⟨_, ⟨⟩⟩) rfl
      exact new (List.contains_iff_mem.mpr mem)

theorem find?_eraseDups {α : Type} [BEq α] [LawfulBEq α] (p : α → Bool) (as : List α) :
    as.eraseDups.find? p = as.find? p := by
  induction as using List.reverseRecOn with
  | nil => rfl
  | append_singleton as a ih =>
    rw [eraseDups_concat, List.find?_append, ← ih]
    split
    · next old =>
      cases found : as.eraseDups.find? p with
      | some b => rfl
      | none =>
        have no := List.find?_eq_none.mp found a (List.contains_iff_mem.mp old)
        rw [List.find?_singleton, if_neg no]
        rfl
    · rw [List.find?_append]

theorem run_concat (ns : Namespace) (ops : List NamespaceOp) (op : NamespaceOp) :
    ns.run (ops ++ [op]) = op.apply (ns.run ops) := by
  rw [run, List.foldl_append]
  rfl

theorem run_defined (seed : Fields Value) (ops : List NamespaceOp) :
    ((ofBindings seed).run ops).defined = (defines ops).eraseDups := by
  induction ops using List.reverseRecOn with
  | nil => rfl
  | append_singleton ops op ih =>
    rw [run_concat, defines, List.filterMap_append, ← defines]
    cases op with
    | define name value =>
      change (if _ then _ else _) = (defines ops ++ [name]).eraseDups
      rw [eraseDups_concat, ← ih]
    | provide | setDocs | importModule =>
      rw [← List.append_nil (defines ops)] at ih
      exact ih

theorem run_provided (seed : Fields Value) (ops : List NamespaceOp) :
    ((ofBindings seed).run ops).provided = (provides ops).eraseDups := by
  induction ops using List.reverseRecOn with
  | nil => rfl
  | append_singleton ops op ih =>
    rw [run_concat, provides, List.filterMap_append, ← provides]
    cases op with
    | provide name =>
      change (if _ then _ else _) = (provides ops ++ [name]).eraseDups
      rw [eraseDups_concat, ← ih]
    | define | setDocs | importModule =>
      rw [← List.append_nil (provides ops)] at ih
      exact ih

theorem run_dependencies (seed : Fields Value) (ops : List NamespaceOp) :
    ((ofBindings seed).run ops).dependencies = (imports ops).eraseDups := by
  induction ops using List.reverseRecOn with
  | nil => rfl
  | append_singleton ops op ih =>
    rw [run_concat, imports, List.filterMap_append, ← imports]
    cases op with
    | importModule m =>
      change (if _ then _ else _) = (imports ops ++ [m.id]).eraseDups
      rw [eraseDups_concat, ← ih]
    | define | provide | setDocs =>
      rw [← List.append_nil (imports ops)] at ih
      exact ih

section Seal

variable {ns : Namespace} {id : ModuleId} {source : String} {m : ModuleInstance}

theorem sealAs_error_iff {e : SealError} : ns.sealAs id source = .error e ↔
    ns.provided.find? (fun name => !ns.bindings.contains name) = some e.name := by
  unfold sealAs
  split
  · next none => simp [none]
  · split
    · next name found =>
      rw [found, Except.error.injEq, Option.some.injEq]
      constructor
      · rintro rfl
        rfl
      · intro same
        rw [same]
    · next none => simp [none]

theorem sealAs_ok (h : ns.sealAs id source = .ok m) :
    m.bindings = ns.bindings ∧ m.dependencies = ns.dependencies ∧
      m.provided = sortedNames (if ns.provided = [] then ns.defined else ns.provided) := by
  unfold sealAs at h
  split at h
  · next none =>
    cases h
    simp [none]
  · next some =>
    split at h <;> cases h
    simp [some]

end Seal

theorem run_final (plain : Value.PlainFields maps seed) (new : ∀ op ∈ ops, op.Plain maps)
    (name : String) : (((ofBindings seed).run ops).lookup name).map Value.unmarked =
      (final seed ops name).map Value.unmarked := run_lookup plain new name

/-- A name is bound after the operations just when one of them or the seed binds it. -/
theorem run_contains (plain : Value.PlainFields maps seed) (new : ∀ op ∈ ops, op.Plain maps)
    (name : String) :
    ((ofBindings seed).run ops).bindings.contains name = (final seed ops name).isSome := by
  have same := congrArg Option.isSome (run_final plain new name)
  rw [Option.isSome_map, Option.isSome_map] at same
  exact same

/-- The first provided name that is missing. -/
theorem run_missing (plain : Value.PlainFields maps seed) (new : ∀ op ∈ ops, op.Plain maps) :
    (((ofBindings seed).run ops).provided.find? fun name =>
      !((ofBindings seed).run ops).bindings.contains name) =
        (provides ops).find? fun name => (final seed ops name).isNone := by
  rw [run_provided, find?_eraseDups]
  congr 1
  funext name
  rw [run_contains plain new, Option.not_isSome]

theorem mem_offers {name : String} :
    (name ∈ if ((ofBindings seed).run ops).provided = [] then ((ofBindings seed).run ops).defined
      else ((ofBindings seed).run ops).provided) ↔ name ∈ offers ops := by
  rw [run_provided, run_defined, offers]
  by_cases nothing : provides ops = []
  · rw [if_pos nothing, nothing, List.eraseDups_nil, if_pos rfl, List.mem_eraseDups]
  · have something : (provides ops).eraseDups ≠ [] := by
      obtain ⟨first, mem⟩ := List.exists_mem_of_ne_nil _ nothing
      exact List.ne_nil_of_mem (List.mem_eraseDups.mpr mem)
    rw [if_neg nothing, if_neg something, List.mem_eraseDups]

/-- A definition is never undone. -/
theorem final_of_defines {name : String} (mem : name ∈ defines ops) :
    (final seed ops name).isSome = true := by
  obtain ⟨op, inside, defined⟩ := List.mem_filterMap.mp mem
  have bound : (op.binds? name).isSome = true := by
    cases op <;> cases defined
    simp [NamespaceOp.binds?]
  have some : (written ops name).isSome = true := by
    rw [written, List.findSome?_isSome_iff]
    exact ⟨op, List.mem_reverse.mpr inside, bound⟩
  rw [final, Option.isSome_or, some]
  rfl

/-- Exports may come in any order. -/
theorem importModule_perm {ns : Namespace} {m : ModuleInstance} {entries : Fields Value}
    (sorted : ns.bindings.Sorted) (sorted' : m.bindings.Sorted) (perm : entries.Perm m.exports) :
    Value.assignAll ns.bindings entries = (ns.importModule m).bindings := by
  have distinct : entries.names.Nodup :=
    (perm.map _).nodup_iff.mpr (sorted'.select m.provided).nodup
  exact Value.assignAll_perm sorted distinct perm

/-- On tries, an import merges the selected entries of the module in, where what comes in wins. -/
theorem stands_importModule {ns : Namespace} {m : ModuleInstance} {t u : Trie String Value}
    (h : Value.Stands t ns.bindings) (h' : Value.Stands u m.bindings) {keys : List String}
    (same : ∀ name, name ∈ keys ↔ name ∈ m.provided) :
    Value.Stands (t.mergeWith (u.selectKeys keys).toList fun _ value => value)
      (ns.importModule m).bindings := by
  have exported : Value.Stands (u.selectKeys keys) m.exports := h'.selectKeys same
  rw [← Trie.insertAll_eq_mergeWith,
    ← importModule_perm h.sorted h'.sorted exported.represents.entries]
  exact h.assignAll _

/-- Sealing fails just when a name was provided that nothing binds. -/
theorem sealAs_fails_iff (id : ModuleId) (source : String) (plain : Value.PlainFields maps seed)
    (new : ∀ op ∈ ops, op.Plain maps) :
    (∃ e, ((ofBindings seed).run ops).sealAs id source = .error e) ↔
      ∃ name ∈ provides ops, final seed ops name = none := by
  have missing := run_missing plain new
  constructor
  · rintro ⟨e, failed⟩
    rw [sealAs_error_iff, missing] at failed
    have none := List.find?_some failed
    exact ⟨e.name, List.mem_of_find?_eq_some failed, Option.isNone_iff_eq_none.mp none⟩
  · rintro ⟨name, mem, none⟩
    have found : ((provides ops).find? fun name => (final seed ops name).isNone).isSome := by
      rw [List.find?_isSome]
      exact ⟨name, mem, Option.isNone_iff_eq_none.mpr none⟩
    obtain ⟨first, found⟩ := Option.isSome_iff_exists.mp found
    exact ⟨⟨first⟩, by rw [sealAs_error_iff, missing, found]⟩

/-- The first such name is told. -/
theorem sealAs_tells_first {id : ModuleId} {source : String} {e : SealError}
    (plain : Value.PlainFields maps seed) (new : ∀ op ∈ ops, op.Plain maps)
    (failed : ((ofBindings seed).run ops).sealAs id source = .error e) :
    ∃ before after, provides ops = before ++ e.name :: after ∧ final seed ops e.name = none ∧
      ∀ name ∈ before, (final seed ops name).isSome = true := by
  rw [sealAs_error_iff, run_missing plain new, List.find?_eq_some_iff_append] at failed
  obtain ⟨none, before, after, split, bound⟩ := failed
  refine ⟨before, after, split, Option.isNone_iff_eq_none.mp none, fun name mem => ?_⟩
  have := bound name mem
  rwa [Option.not_isNone] at this

section

variable {id : ModuleId} {source : String} {m : ModuleInstance}

/-- Whatever a sealed module offers is bound. -/
theorem offers_bound (plain : Value.PlainFields maps seed) (new : ∀ op ∈ ops, op.Plain maps)
    (done : ((ofBindings seed).run ops).sealAs id source = .ok m) :
    ∀ name ∈ offers ops, (final seed ops name).isSome = true := by
  intro name mem
  by_cases nothing : provides ops = []
  · rw [offers, if_pos nothing] at mem
    exact final_of_defines mem
  · rw [offers, if_neg nothing] at mem
    by_contra unbound
    obtain ⟨e, failed⟩ := (sealAs_fails_iff id source plain new).mpr
      ⟨name, mem, Option.not_isSome_iff_eq_none.mp unbound⟩
    cases failed.symm.trans done

/-- A sealed module exports the last values of what it offers. -/
theorem exports_get? (plain : Value.PlainFields maps seed) (new : ∀ op ∈ ops, op.Plain maps)
    (done : ((ofBindings seed).run ops).sealAs id source = .ok m) (name : String) :
    (m.exports.get? name).map Value.unmarked =
      if name ∈ offers ops then (final seed ops name).map Value.unmarked else none := by
  obtain ⟨bindings, _, provided⟩ := sealAs_ok done
  have offered : name ∈ m.provided ↔ name ∈ offers ops := by
    rw [provided, mem_sortedNames, mem_offers]
  rw [ModuleInstance.exports, bindings, Fields.get?_select]
  by_cases mem : name ∈ offers ops
  · rw [if_pos mem, if_pos (offered.mpr mem)]
    exact run_final plain new name
  · rw [if_neg mem, if_neg fun h => mem (offered.mp h)]
    rfl

end

/-- Operations on a namespace with seeds, and sealing it then. The last operation that binds a name
decides its value, else the seed does. Sealing fails just when a provided name is not bound, and tells
the first one. Else the module offers what was provided, or all that was defined where nothing was,
with the last values; it depends on what was imported, in order of the first imports; and who imports
it gets just what it offers. -/
theorem sealing (id : ModuleId) (source : String) (plain : Value.PlainFields maps seed)
    (new : ∀ op ∈ ops, op.Plain maps) :
    (∀ name, (((ofBindings seed).run ops).lookup name).map Value.unmarked =
      (final seed ops name).map Value.unmarked) ∧
    ((∃ e, ((ofBindings seed).run ops).sealAs id source = .error e) ↔
      ∃ name ∈ provides ops, final seed ops name = none) ∧
    (∀ e, ((ofBindings seed).run ops).sealAs id source = .error e →
      ∃ before after, provides ops = before ++ e.name :: after ∧ final seed ops e.name = none ∧
        ∀ name ∈ before, (final seed ops name).isSome = true) ∧
    ∀ m, ((ofBindings seed).run ops).sealAs id source = .ok m →
      Value.PlainFields maps m.exports ∧
      (∀ name, (m.exports.get? name).map Value.unmarked =
        if name ∈ offers ops then (final seed ops name).map Value.unmarked else none) ∧
      (∀ name ∈ offers ops, (final seed ops name).isSome = true) ∧
      m.dependencies = (imports ops).eraseDups ∧ m.dependencies.Nodup ∧
      (empty.importModule m).bindings = m.exports := by
  refine ⟨run_final plain new, sealAs_fails_iff id source plain new,
    fun e failed => sealAs_tells_first plain new failed, fun m done => ?_⟩
  obtain ⟨bindings, dependencies, _⟩ := sealAs_ok done
  have whole : Value.PlainFields maps ((ofBindings seed).run ops).bindings := run_plain plain new
  have exports_plain : Value.PlainFields maps m.exports := by
    rw [ModuleInstance.exports, bindings]
    exact Value.select_plain whole _
  rw [run_dependencies] at dependencies
  refine ⟨exports_plain, exports_get? plain new done, offers_bound plain new done, dependencies, ?_,
    Value.assignAll_append exports_plain.1⟩
  rw [dependencies]
  exact nodup_eraseDups _

/-- A module with a binding that it does not provide. -/
def twoNames : ModuleInstance :=
  ⟨⟨"/lib", by decide⟩, "lib", [("a", .int 1), ("b", .bool true), ("c", .null)], ["a", "b"], [], none⟩

/-- Operations that shadow an import twice and pass on another. -/
def shadowing : List NamespaceOp :=
  [.define "a" (.int 7), .importModule twoNames, .provide "b", .define "d" (.string "x"),
    .provide "a", .setDocs "", .importModule twoNames, .define "a" (.int 2)]

theorem shadowing_plain : ∀ op ∈ shadowing, op.Plain fun _ => [] := by
  have bindings : Value.PlainFields (fun _ => []) twoNames.bindings := by
    constructor
    · decide
    · simp only [twoNames, List.forall_mem_cons, List.not_mem_nil, false_imp_iff, implies_true,
        and_true]
      exact ⟨⟨.int 1, 0, .int 1⟩, ⟨.bool true, 0, .bool true⟩, ⟨.null, 0, .null⟩⟩
  simp only [shadowing, List.forall_mem_cons, List.not_mem_nil, false_imp_iff, implies_true,
    and_true]
  exact ⟨⟨.int 7, 0, .int 7⟩, bindings, trivial, ⟨.string "x", 0, .string "x"⟩, trivial, trivial,
    bindings, .int 2, 0, .int 2⟩

theorem sealing_shadowing : ∃ m,
    ((ofBindings [("s", .null)]).run shadowing).sealAs ⟨"/m", by decide⟩ "m" = .ok m ∧
      m.dependencies = [⟨"/lib", by decide⟩] ∧ (m.exports.get? "a").map Value.unmarked = some (.int 2) ∧
      (m.exports.get? "b").map Value.unmarked = some (.bool true) ∧
      (m.exports.get? "d").map Value.unmarked = none ∧ (empty.importModule m).bindings = m.exports := by
  have seed : Value.PlainFields (fun _ => []) [("s", .null)] := by
    constructor
    · decide
    · rintro field (_ | ⟨_, ⟨⟩⟩)
      exact ⟨.null, 0, .null⟩
  obtain ⟨_, fails, _, told⟩ := sealing ⟨"/m", by decide⟩ "m" seed shadowing_plain
  cases sealed : ((ofBindings [("s", .null)]).run shadowing).sealAs ⟨"/m", by decide⟩ "m" with
  | error e =>
    obtain ⟨name, mem, none⟩ := fails.mp ⟨e, sealed⟩
    have names : name ∈ ["b", "a"] := mem
    have listed : name = "b" ∨ name = "a" := by simpa using names
    obtain rfl | rfl := listed <;> cases none
  | ok m =>
    obtain ⟨_, exports, _, dependencies, _, again⟩ := told m sealed
    refine ⟨m, rfl, dependencies, ?_, ?_, ?_, again⟩
    · exact exports "a"
    · exact exports "b"
    · exact exports "d"

end Namespace
end ModuleSystem
