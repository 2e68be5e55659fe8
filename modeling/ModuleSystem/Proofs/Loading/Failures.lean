import ModuleSystem.Proofs.Loading.Transition

namespace ModuleSystem

/-- The failure that a thread ends with. -/
def Ending.error? : Ending → Option LoadError
  | .loaded (.error e) | .ran _ (.error e) => some e
  | _ => none

theorem LoadError.rootCause_inUnit (unit : String) (e : LoadError) :
    (e.inUnit unit).rootCause = e.rootCause := by
  unfold inUnit
  split <;> rfl

/-- Where a required module failed, there is no execution error of the unit itself. -/
theorem LoadError.inUnit_ne_execution (e : LoadError) (unit unit' : String)
    (span : Option Coverage.Span) (message : String) :
    e.inUnit unit ≠ .execution unit' span message := by
  by_cases cycle : e.isCycle
  · rw [inUnit, if_pos cycle]
    rintro rfl
    cases cycle
  · rw [inUnit, if_neg cycle]
    nofun

theorem Surroundings.find_error {s : Surroundings} {id : ModuleId} {e : LoadError}
    (h : s.find id = .error e) :
    (∃ fault, e = .repository fault) ∨ e = .notFound id s.chain.describe := by
  unfold find at h
  cases resolved : s.chain.resolve s.files id with
  | error fault =>
    rw [resolved] at h
    cases h
    exact .inl ⟨fault, rfl⟩
  | ok found =>
    rw [resolved] at h
    cases found with
    | none =>
      cases h
      exact .inr rfl
    | some location =>
      cases read : location.read s.files with
      | error fault =>
        simp only [read] at h
        cases h
        exact .inl ⟨fault, rfl⟩
      | ok material =>
        simp only [read] at h
        cases material <;> cases h

theorem Surroundings.prepare_error {s : Surroundings} {id : ModuleId} {e : LoadError}
    (h : s.prepare id = .outcome (.error e)) :
    (∃ fault, e = .repository fault) ∨ e = .notFound id s.chain.describe ∨
      ∃ span message, e = .compile id.text span message := by
  unfold prepare at h
  cases found : s.find id with
  | error e' =>
    rw [found] at h
    cases h
    obtain repository | missing := find_error found
    · exact .inl repository
    · exact .inr (.inl missing)
  | ok f =>
    rw [found] at h
    cases f with
    | complete m => cases h
    | source name text =>
      cases compiled : Form.compile true text with
      | error fault =>
        simp only [compiled] at h
        cases h
        exact .inr (.inr ⟨_, _, rfl⟩)
      | ok p =>
        simp only [compiled] at h
        cases h

namespace Body

theorem eval_error {b : Body} {span : Coverage.Span} {e : Form.Expr} {err : LoadError}
    (h : b.eval span e = .error err) :
    ∃ message, err = .execution b.unit.text (some span) message := by
  unfold eval at h
  split at h <;> cases h
  exact ⟨_, rfl⟩

theorem perform_error {b : Body} {form : Form.Located} {e : LoadError}
    (h : b.perform form = .error e) :
    ∃ message, e = .execution b.unit.text (some form.span) message := by
  unfold perform at h
  cases kind : form.statement with
  | require | provide | doc =>
    simp only [kind] at h
    cases h
  | define _ expr | expr expr =>
    simp only [kind] at h
    cases value : b.eval form.span expr with
    | error err =>
      simp only [value, bind, Except.bind] at h
      cases h
      exact eval_error value
    | ok v =>
      simp only [value, bind, Except.bind] at h
      cases h
  | raise expr =>
    simp only [kind] at h
    cases value : b.eval form.span expr with
    | error err =>
      simp only [value, bind, Except.bind] at h
      cases h
      exact eval_error value
    | ok v =>
      simp only [value, bind, Except.bind] at h
      cases h
      exact ⟨_, rfl⟩

theorem sealed_error {b : Body} {id : ModuleId} {e : LoadError} (h : b.sealed id = .error e) :
    ∃ message, e = .execution b.unit.text none message := by
  unfold sealed at h
  split at h <;> cases h
  exact ⟨_, rfl⟩

end Body
end ModuleSystem
