import ModuleSystem.Coverage.HitFile
import ModuleSystem.Proofs.Json.Documents

namespace ModuleSystem.Coverage

open Json (Reads Fills)
open Utf8 (encodeChars)

theorem SpanHits.reads (s : SpanHits) : Reads SpanHits.shape.decode s.toJson s := by
  have line := s.span.line.toNat_lt
  have column := s.span.column.toNat_lt
  have hits := s.hits.toNat_lt
  have word : Json.largestWord = 2 ^ 64 - 1 := rfl
  refine Reads.record ⟨some s.span.line.toNat, some s.span.column.toNat, some s.hits.toNat⟩ ?_ ?_
  · refine .field rfl rfl ((Reads.natural "u32" line (by omega)).map
      fun n => (⟨some n, none, none⟩ : Partial)) ?_
    refine .field rfl rfl ((Reads.natural "u32" column (by omega)).map
      fun n => (⟨some s.span.line.toNat, some n, none⟩ : Partial)) ?_
    exact .field rfl rfl ((Reads.natural "u64" hits (by omega)).map
      fun n => (⟨some s.span.line.toNat, some s.span.column.toNat, some n⟩ : Partial)) (.done _)
  · simp only [SpanHits.shape, Json.required, bind, Except.bind, UInt32.ofNat_toNat,
      UInt64.ofNat_toNat]
    rfl

theorem UnitHits.reads (u : UnitHits) : Reads UnitHits.shape.decode u.toJson u := by
  have kind : kindChoices.lookup u.kind.text = some u.kind := by cases u.kind <;> rfl
  refine Reads.record ⟨some u.unit, some u.kind, some u.source, some u.spans⟩ ?_ rfl
  refine .field rfl rfl ((Reads.text u.unit).map
    fun t => (⟨some t, none, none, none⟩ : Partial)) ?_
  refine .field rfl rfl ((Reads.choice kind).map
    fun k => (⟨some u.unit, some k, none, none⟩ : Partial)) ?_
  refine .field rfl rfl ((Reads.text u.source).map
    fun t => (⟨some u.unit, some u.kind, some t, none⟩ : Partial)) ?_
  exact .field rfl rfl ((Reads.sequence fun s _ => s.reads).map
    fun l => (⟨some u.unit, some u.kind, some u.source, some l⟩ : Partial)) (.done _)

namespace HitFile

theorem reads (file : HitFile) : Reads shape.decode file.toJson file := by
  have version := file.version.toNat_lt
  have word : Json.largestWord = 2 ^ 64 - 1 := rfl
  refine Reads.record ⟨some file.version.toNat, some file.runId, some file.digest,
    some file.units⟩ ?_ ?_
  · refine .field rfl rfl ((Reads.natural "u32" version (by omega)).map
      fun n => (⟨some n, none, none, none⟩ : Partial)) ?_
    refine .field rfl rfl ((Reads.text file.runId).map
      fun t => (⟨some file.version.toNat, some t, none, none⟩ : Partial)) ?_
    refine .field rfl rfl ((Reads.text file.digest).map
      fun t => (⟨some file.version.toNat, some file.runId, some t, none⟩ : Partial)) ?_
    exact .field rfl rfl ((Reads.sequence fun u _ => u.reads).map
      fun l => (⟨some file.version.toNat, some file.runId, some file.digest, some l⟩ : Partial))
      (.done _)
  · simp only [shape, Json.required, bind, Except.bind, UInt32.ofNat_toNat]
    rfl

/-- A file is trusted if its version and its digest are right. -/
theorem parse_eq_ok_iff {bytes : List UInt8} {file : HitFile} :
    parse bytes = .ok file ↔ Json.decodeDocument shape.decode bytes = .ok file ∧
      file.version = hitsVersion ∧ file.digest = digestOf file.units := by
  unfold parse
  cases Json.decodeDocument shape.decode bytes with
  | error e => simp
  | ok out =>
    simp only [Except.ok.injEq]
    split
    · next other =>
      constructor
      · intro refused
        cases refused
      · rintro ⟨rfl, version, _⟩
        exact absurd version other
    · next version =>
      split
      · next other =>
        constructor
        · intro refused
          cases refused
        · rintro ⟨rfl, _, digest⟩
          exact absurd digest.symm other
      · next digest =>
        constructor
        · intro same
          cases same
          exact ⟨rfl, not_not.mp version, (not_not.mp digest).symm⟩
        · rintro ⟨rfl, _⟩
          rfl

/-- So it is trusted again in whatever layout it is written. -/
theorem parse_chars {file : HitFile} (version : file.version = hitsVersion)
    (digest : file.digest = digestOf file.units) (l : Json.Layout) :
    parse (encodeChars (l.chars 0 file.toJson)) = .ok file :=
  parse_eq_ok_iff.mpr ⟨(reads file).document l, version, digest⟩

theorem bytes_eq (file : HitFile) :
    file.bytes = encodeChars (Json.Layout.pretty.chars 0 file.toJson) := by
  rw [bytes, Json.prettyChars_eq]

/-- What a session wrote is trusted, and it says what the session counted. -/
theorem parse_bytes (runId : String) (units : List UnitHits) :
    parse (ofUnits runId units).bytes = .ok (ofUnits runId units) := by
  rw [bytes_eq]
  exact parse_chars rfl rfl .pretty

/-- What a session wrote is not trusted once it is cut short. -/
theorem parse_cut (runId : String) (units : List UnitHits) {part : List UInt8}
    (cut : Json.Cut part (ofUnits runId units).bytes) : ∃ reason, parse part = .error reason := by
  rw [bytes_eq] at cut
  have record : ∀ n, (ofUnits runId units).toJson ≠ .int n := by
    intro n same
    cases same
  obtain ⟨e, refused⟩ := (reads (ofUnits runId units)).document_cut record .pretty cut
  refine ⟨e.message, ?_⟩
  rw [parse, refused]

/-- The bytes that the digest is computed over. -/
def hashedBytes (units : List UnitHits) : List UInt8 := encodeChars (unitsJson units).compactChars

/-- Two texts that the digest does not tell apart. -/
def Collide (first second : List UInt8) : Prop :=
  first ≠ second ∧ Sha256.digest first = Sha256.digest second

theorem hashedBytes_injective : Function.Injective hashedBytes := by
  intro units units' same
  have read : ∀ units, Json.decodeDocument (Json.sequence UnitHits.shape.decode) (hashedBytes units) =
      .ok units := by
    intro units
    rw [hashedBytes, Json.compactChars_eq 0]
    exact (Reads.sequence fun u _ => u.reads).document .compact
  exact Except.ok.inj ((read units).symm.trans (same ▸ read units'))

/-- Only the units that a digest was computed for have it, as far as the digest tells texts apart. -/
theorem digestOf_pins {units units' : List UnitHits} (same : digestOf units = digestOf units') :
    units = units' ∨ Collide (hashedBytes units) (hashedBytes units') := by
  by_cases equal : units = units'
  · exact .inl equal
  · exact .inr ⟨fun bytes => equal (hashedBytes_injective bytes), same⟩

/-- Every hit file comes back from its pretty and from its compact text, whatever it counts. What the
digest is computed over tells all lists of units apart. A file that is trusted has the right version
and the digest of its own units: of no other ones unless two texts collide. It is trusted again when
it is written anew. -/
theorem round_trip :
    (∀ runId units, parse (ofUnits runId units).bytes = .ok (ofUnits runId units) ∧
      parse (encodeChars (ofUnits runId units).toJson.compactChars) = .ok (ofUnits runId units)) ∧
    Function.Injective hashedBytes ∧
    ∀ bytes file, parse bytes = .ok file →
      file.version = 1 ∧ file.digest = digestOf file.units ∧
      (∀ units, file.digest = digestOf units →
        file.units = units ∨ Collide (hashedBytes file.units) (hashedBytes units)) ∧
      parse file.bytes = .ok file ∧ parse (encodeChars file.toJson.compactChars) = .ok file := by
  have again : ∀ file : HitFile, file.version = hitsVersion → file.digest = digestOf file.units →
      parse file.bytes = .ok file ∧ parse (encodeChars file.toJson.compactChars) = .ok file := by
    intro file version digest
    rw [bytes_eq, Json.compactChars_eq 0]
    exact ⟨parse_chars version digest .pretty, parse_chars version digest .compact⟩
  refine ⟨fun runId units => again _ rfl rfl, hashedBytes_injective, ?_⟩
  intro bytes file trusted
  obtain ⟨_, version, digest⟩ := parse_eq_ok_iff.mp trusted
  exact ⟨version, digest, fun units same => digestOf_pins (digest.symm.trans same),
    again file version digest⟩

/-- Escapes, a character of two bytes, and the largest position and count. -/
theorem round_trip_escapes :
    let units : List UnitHits := [⟨"demo/\x22\x01", .module, "é\n",
      [⟨⟨1, 4294967295⟩, 18446744073709551615⟩]⟩]
    let file := ofUnits "a" units
    parse file.bytes = .ok file ∧ file.version = 1 ∧ file.digest = digestOf units ∧
      parse (encodeChars file.toJson.compactChars) = .ok file := by
  intro units file
  have trusted : parse file.bytes = .ok file := (round_trip.1 "a" units).1
  obtain ⟨version, digest, _, _, compact⟩ := round_trip.2.2 file.bytes file trusted
  exact ⟨trusted, version, digest, compact⟩

end HitFile
end ModuleSystem.Coverage
