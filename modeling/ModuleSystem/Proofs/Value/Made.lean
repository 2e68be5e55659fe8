import ModuleSystem.Proofs.Json.Ordered
import ModuleSystem.Proofs.Value.Interchange

/-! Values are data, floats, lists of values, and structs that an update gave another field. Whoever
makes them may mark a struct that an update made, with a mark that nothing had before. -/

namespace ModuleSystem.Value

/-- Nothing in the value has the mark. -/
inductive Lacks (n : Nat) : Value → Prop
  | null : Lacks n .null
  | bool (b : Bool) : Lacks n (.bool b)
  | int (k : Int64) : Lacks n (.int k)
  | float (x : Float) : Lacks n (.float x)
  | string (s : String) : Lacks n (.string s)
  | list {items : List Value} (inner : ∀ v ∈ items, Lacks n v) : Lacks n (.list items)
  | struct {mark : Option Nat} {fields : Fields Value} (other : mark ≠ some n)
      (inner : ∀ field ∈ fields, Lacks n field.2) : Lacks n (.struct mark fields)

/-- All values that have been made so far, the last one first. -/
inductive Made : List Value → Prop
  | start : Made []
  | data {vs : List Value} {j : Json} (made : Made vs) (ordered : j.Ordered) : Made (ofJson j :: vs)
  | float {vs : List Value} (made : Made vs) (x : Float) : Made (.float x :: vs)
  | list {vs items : List Value} (made : Made vs) (known : ∀ v ∈ items, v ∈ vs) :
      Made (.list items :: vs)
  | put {vs : List Value} {target key value w : Value} {fresh : Option Nat} (made : Made vs)
      (known : target ∈ vs) (known' : value ∈ vs) (new : ∀ n, fresh = some n → ∀ v ∈ vs, v.Lacks n)
      (put : structPut target key value fresh = .ok w) : Made (w :: vs)
  | get {vs : List Value} {target key w : Value} (made : Made vs) (known : target ∈ vs)
      (get : structGet target key = .ok w) : Made (w :: vs)

/-- What is read from a text is data. -/
theorem Made.text {vs : List Value} {text : String} {j : Json} (made : Made vs)
    (read : Json.ofText text = .ok j) : Made (ofJson j :: vs) :=
  .data made (Json.ofText_ordered read)

section Formed

variable {maps : Nat → Fields Value} {v w target key value : Value} {fields : Fields Value}
  {name : String} {fresh : Option Nat}

/-- A mark that nothing has may stand for any map. -/
theorem Formed.update (formed : v.Formed maps) {n : Nat} (lacks : v.Lacks n) :
    v.Formed (Function.update maps n fields) := by
  induction formed with
  | null => exact .null
  | bool b => exact .bool b
  | int k => exact .int k
  | float x => exact .float x
  | string s => exact .string s
  | list _ ih =>
    cases lacks with
    | list inner => exact .list fun v mem => ih v mem (inner v mem)
  | struct sorted marked _ ih =>
    cases lacks with
    | struct other inner =>
      apply Formed.struct sorted
      · intro m here
        have ne : m ≠ n := by
          rintro rfl
          exact other here
        rw [Function.update_of_ne ne, marked m here]
      · intro field mem
        exact ih field mem (inner field mem)

theorem ofJson_formed {j : Json} (ordered : j.Ordered) : (ofJson j).Formed maps := by
  induction ordered with
  | null => exact .null
  | bool b => exact .bool b
  | int n =>
    rw [ofJson, ofJsonInt]
    split
    · exact .int _
    · exact .float _
  | float x => exact .float x
  | string s => exact .string s
  | array _ ih =>
    rw [ofJson_array]
    exact .list (List.forall_mem_map.mpr ih)
  | object sorted _ ih =>
    rw [ofJson_object]
    exact .struct (sorted_onFields.mpr sorted) (by simp) (List.forall_mem_map.mpr ih)

/-- An update gives back its argument, or a struct with another value in a field. -/
theorem structPut_cases (put : structPut target key value fresh = .ok w) :
    ∃ mark fields name, target = .struct mark fields ∧
      (w = target ∨ w = .struct fresh (Fields.insert fields name value)) := by
  cases target with
  | struct mark fields =>
    obtain ⟨name, _, done⟩ := Except.of_bind_ok put
    cases done
    refine ⟨mark, fields, name, rfl, ?_⟩
    by_cases bound : isBound fields name value = true
    · exact .inl (by rw [assign, if_pos bound, if_pos bound])
    · exact .inr (by rw [assign, if_neg bound, if_neg bound])
  | _ => cases put

theorem Formed.insert {mark : Option Nat} (formed : Formed maps (.struct mark fields))
    (formed' : value.Formed maps)
    (marked : ∀ n, fresh = some n → maps n = fields.insert name value) :
    Formed maps (.struct fresh (fields.insert name value)) := by
  cases formed with
  | struct sorted _ inner =>
    apply Formed.struct (Fields.sorted_insert sorted) marked
    intro field mem
    obtain rfl | old := Fields.mem_insert mem
    · exact formed'
    · exact inner field old

theorem structGet_formed (formed : target.Formed maps) (get : structGet target key = .ok w) :
    w.Formed maps := by
  cases formed with
  | @struct mark fields _ _ inner =>
    obtain ⟨name, _, done⟩ := Except.of_bind_ok get
    cases done
    cases found : Fields.get? fields name with
    | none => exact .null
    | some value => exact inner (name, value) (Fields.mem_of_get? found)
  | _ => cases get

end Formed

theorem Made.formed {vs : List Value} (made : Made vs) : ∃ maps, ∀ v ∈ vs, v.Formed maps := by
  induction made with
  | start => exact ⟨fun _ => [], nofun⟩
  | data _ ordered ih =>
    obtain ⟨maps, formed⟩ := ih
    exact ⟨maps, List.forall_mem_cons.mpr ⟨ofJson_formed ordered, formed⟩⟩
  | float _ x ih =>
    obtain ⟨maps, formed⟩ := ih
    exact ⟨maps, List.forall_mem_cons.mpr ⟨.float x, formed⟩⟩
  | list _ known ih =>
    obtain ⟨maps, formed⟩ := ih
    have inner := fun v mem => formed v (known v mem)
    exact ⟨maps, List.forall_mem_cons.mpr ⟨.list inner, formed⟩⟩
  | get _ known get ih =>
    obtain ⟨maps, formed⟩ := ih
    have found := structGet_formed (formed _ known) get
    exact ⟨maps, List.forall_mem_cons.mpr ⟨found, formed⟩⟩
  | @put vs target key value w fresh _ known known' new put ih =>
    obtain ⟨maps, formed⟩ := ih
    obtain ⟨mark, fields, name, shape, same | changed⟩ := structPut_cases put
    · exact ⟨maps, List.forall_mem_cons.mpr ⟨same ▸ formed target known, formed⟩⟩
    · -- A new mark stands for the new map; what was made before does not have it.
      obtain ⟨maps', formed', marked⟩ : ∃ maps', (∀ v ∈ vs, v.Formed maps') ∧
          ∀ n, fresh = some n → maps' n = Fields.insert fields name value := by
        cases fresh with
        | none => exact ⟨maps, formed, nofun⟩
        | some n =>
          refine ⟨Function.update maps n (Fields.insert fields name value), ?_, ?_⟩
          · intro v mem
            exact (formed v mem).update (new n rfl v mem)
          · rintro m ⟨⟩
            exact Function.update_self ..
      have target_formed := formed' target known
      rw [shape] at target_formed
      have whole := target_formed.insert (formed' value known') marked
      exact ⟨maps', List.forall_mem_cons.mpr ⟨changed ▸ whole, formed'⟩⟩

end ModuleSystem.Value
