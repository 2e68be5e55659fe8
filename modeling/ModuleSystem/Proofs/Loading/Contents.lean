import ModuleSystem.Proofs.Fields
import ModuleSystem.Proofs.Form.Size
import ModuleSystem.Proofs.Text.Decoding

namespace ModuleSystem

open Form (Program)

def FileTree.contents (tree : FileTree) : List (List UInt8) :=
  tree.entries.filterMap fun e => match e.2 with
    | .file bytes => some bytes
    | _ => none

def Repository.contents : Repository → List (List UInt8)
  | .directory _ => []
  | .resources r | .bootstrap r => r.resources.map (·.2)

namespace Surroundings

def contents (s : Surroundings) : List (List UInt8) :=
  s.chain.flatMap Repository.contents ++ s.files.contents

/-- The modules that the text of some bytes requires, if it is a program. -/
def mentioned (bytes : List UInt8) : List ModuleId :=
  match Utf8.decode bytes with
  | .error _ => []
  | .ok text =>
    match Form.compile true text with
    | .error _ => []
    | .ok p => p.required

/-- All modules that any source could require. -/
def mentions (s : Surroundings) : List ModuleId := s.contents.flatMap mentioned

end Surroundings

theorem FileTree.byteCount_eq (tree : FileTree) :
    tree.byteCount = (tree.contents.map List.length).sum := by
  unfold byteCount contents
  induction tree.entries with
  | nil => rfl
  | cons e rest ih =>
    rw [List.foldr_cons, ih]
    obtain ⟨place, node⟩ := e
    cases node <;> simp

theorem Repository.byteCount_eq (repository : Repository) :
    repository.byteCount = (repository.contents.map List.length).sum := by
  cases repository with
  | directory => rfl
  | resources r | bootstrap r =>
    simp only [byteCount, contents]
    induction r.resources with
    | nil => rfl
    | cons e rest ih => simp [ih]

theorem Surroundings.byteCount_eq (s : Surroundings) :
    s.byteCount = (s.contents.map List.length).sum := by
  unfold byteCount contents
  induction s.chain with
  | nil => exact s.files.byteCount_eq
  | cons first rest ih =>
    rw [List.foldr_cons, ih, first.byteCount_eq, List.flatMap_cons, List.append_assoc]
    simp only [List.map_append, List.sum_append]

theorem Surroundings.length_le_byteCount {s : Surroundings} {bytes : List UInt8}
    (mem : bytes ∈ s.contents) : bytes.length ≤ s.byteCount := by
  rw [byteCount_eq]
  exact List.le_sum_of_mem (List.mem_map_of_mem mem)

theorem Surroundings.mentioned_length (bytes : List UInt8) :
    (mentioned bytes).length ≤ bytes.length := by
  unfold mentioned
  split
  · exact Nat.zero_le _
  · next text decoded =>
    split
    · exact Nat.zero_le _
    · next p compiled =>
      exact Nat.le_trans p.required_length_le
        (Nat.le_trans (Form.compile_size compiled) (Utf8.encode_length_of_decode decoded))

theorem Surroundings.mentions_length (s : Surroundings) : s.mentions.length ≤ s.byteCount := by
  rw [mentions, byteCount_eq]
  induction s.contents with
  | nil => exact Nat.le_refl _
  | cons bytes rest ih =>
    have := mentioned_length bytes
    rw [List.flatMap_cons, List.length_append, List.map_cons, List.sum_cons]
    omega

theorem FileTree.mem_contents_of_read {tree : FileTree} {path : String} {bytes : List UInt8}
    (h : tree.read path = .ok bytes) : bytes ∈ tree.contents := by
  obtain ⟨⟨place, node⟩, found, h⟩ := Except.of_bind_ok h
  obtain ⟨_, _, found⟩ := Except.of_bind_ok found
  split at found
  · next there =>
    cases found
    cases node with
    | dir | link => cases h
    | file content =>
      cases h
      cases place with
      | nil => cases there
      | cons name names =>
        obtain ⟨before, after, entries, _⟩ := List.lookup_eq_some_iff.mp there
        refine List.mem_filterMap.mpr ⟨(name :: names, .file bytes), ?_, rfl⟩
        rw [entries]
        simp
  · cases found

/-- Where a repository says that a module is, there are bindings, a file or one of its own
resources. -/
def Location.Within (contents : List (List UInt8)) (l : Location) : Prop :=
  match l.content with
  | .bytes bytes => bytes ∈ contents
  | _ => True

theorem ResourceRepository.locate_within {r : ResourceRepository} {id : ModuleId} {l : Location}
    (h : r.locate id = .ok (some l)) : l.Within (r.resources.map (·.2)) := by
  unfold locate at h
  split at h
  · simp only at h
    split at h
    · next bytes found =>
      cases h
      exact List.mem_map_of_mem (Fields.mem_of_get? found)
    · cases h
  · cases h

theorem Repository.locate_within {repository : Repository} {tree : FileTree} {id : ModuleId}
    {l : Location} (h : repository.locate tree id = .ok (some l)) :
    l.Within repository.contents := by
  cases repository with
  | directory root =>
    simp only [locate, Directory.locate, Except.ok.injEq] at h
    split at h
    · cases h
      trivial
    · cases h
  | resources r => exact ResourceRepository.locate_within h
  | bootstrap library =>
    simp only [locate, Bootstrap.locate] at h
    split at h
    · cases h
      trivial
    · exact ResourceRepository.locate_within h

theorem Chain.resolve_within {chain : Chain} {tree : FileTree} {id : ModuleId} {l : Location}
    (h : chain.resolve tree id = .ok (some l)) : l.Within (chain.flatMap Repository.contents) := by
  induction chain with
  | nil => cases h
  | cons first rest ih =>
    rw [resolve] at h
    unfold Location.Within
    split at h
    · cases h
    · next found located =>
      cases h
      have within := Repository.locate_within located
      unfold Location.Within at within
      split
      · next bytes content =>
        rw [content] at within
        exact List.mem_append_left _ within
      · trivial
    · have within := ih h
      unfold Location.Within at within
      split
      · next bytes content =>
        rw [content] at within
        exact List.mem_append_right _ within
      · trivial

namespace Surroundings

variable {s : Surroundings} {id : ModuleId} {source : String} {p : Program}

theorem decode_of_read {l : Location} {text : String}
    (within : l.Within (s.chain.flatMap Repository.contents))
    (h : l.read s.files = .ok (.text text)) :
    ∃ bytes ∈ s.contents, Utf8.decode bytes = .ok text := by
  have decoded : ∀ {bytes : List UInt8}, l.decode bytes = .ok text →
      Utf8.decode bytes = .ok text := by
    intro bytes h
    unfold Location.decode at h
    split at h <;> cases h
    assumption
  unfold Location.read at h
  unfold Location.Within at within
  split at h
  · cases h
  · next bytes content =>
    obtain ⟨text', done, h⟩ := Except.of_bind_ok h
    cases h
    rw [content] at within
    exact ⟨bytes, List.mem_append_left _ within, decoded done⟩
  · split at h
    · next bytes read =>
      obtain ⟨text', done, h⟩ := Except.of_bind_ok h
      cases h
      exact ⟨bytes, List.mem_append_right _ (FileTree.mem_contents_of_read read), decoded done⟩
    · cases h

theorem read_of_find {name text : String} (h : s.find id = .ok (.source name text)) :
    ∃ l, s.chain.resolve s.files id = .ok (some l) ∧ l.read s.files = .ok (.text text) := by
  unfold find at h
  split at h
  · cases h
  · cases h
  · next l resolved =>
    split at h
    · cases h
    · cases h
    · next text' read =>
      cases h
      exact ⟨l, resolved, read⟩

theorem mem_contents_of_find {name text : String} (h : s.find id = .ok (.source name text)) :
    ∃ bytes ∈ s.contents, Utf8.decode bytes = .ok text := by
  obtain ⟨l, resolved, read⟩ := read_of_find h
  exact decode_of_read (Chain.resolve_within resolved) read

/-- A source that is found is not longer than all sources have bytes. -/
theorem length_le_of_find {name text : String} (h : s.find id = .ok (.source name text)) :
    text.length ≤ s.byteCount := by
  obtain ⟨bytes, mem, decoded⟩ := mem_contents_of_find h
  exact Nat.le_trans (Utf8.length_le_encode text)
    (Nat.le_trans (Utf8.encode_length_of_decode decoded) (length_le_byteCount mem))

theorem mem_contents_of_prepare (h : s.prepare id = .program source p) :
    ∃ bytes text, bytes ∈ s.contents ∧ Utf8.decode bytes = .ok text ∧
      Form.compile true text = .ok p := by
  obtain ⟨text, found, compiled⟩ := find_of_program h
  obtain ⟨bytes, mem, decoded⟩ := mem_contents_of_find found
  exact ⟨bytes, text, mem, decoded, compiled⟩

/-- A program that is found is not larger than the bytes of all sources. -/
theorem size_le_of_prepare (h : s.prepare id = .program source p) : p.size ≤ s.byteCount := by
  obtain ⟨bytes, text, mem, decoded, compiled⟩ := mem_contents_of_prepare h
  exact Nat.le_trans (Form.compile_size compiled)
    (Nat.le_trans (Utf8.encode_length_of_decode decoded) (length_le_byteCount mem))

theorem required_subset_of_prepare (h : s.prepare id = .program source p) :
    p.required ⊆ s.mentions := by
  obtain ⟨bytes, text, mem, decoded, compiled⟩ := mem_contents_of_prepare h
  intro q hq
  refine List.mem_flatMap.mpr ⟨bytes, mem, ?_⟩
  simpa only [mentioned, decoded, compiled] using hq

end Surroundings
end ModuleSystem
