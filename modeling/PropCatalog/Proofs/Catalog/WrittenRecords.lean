import PropCatalog.Proofs.Catalog.Outcome
import PropCatalog.Proofs.Catalog.RecordValues
import PropCatalog.Proofs.Component.Inheritance

/-!
# Written records — which of them can be read again

The file of a record is JSON that is read back as the record, unless an example assigns a double
that is no number: the text of such a double is no JSON. A double of this kind was read off the
example or default of a prop, which is too large, or it is the settings' fallback for numbers.

- `recordText`              : the text that is written for a record
- `Documentation.IsFinite`  : all doubles of a record are numbers
- `Build.Readable`          : what there is to say about the file of a record
- `written_record_readable` : it holds for every record of a build
-/

namespace PropCatalog

namespace Build

open Session Run Settings Value

/-! ## What a record holds -/

/-- Every prop of a component has a name of its own. -/
theorem nodup_props_of_extract {o : Outline} {name : String} {extensions : List String}
    {c : Component} (h : (extract o name extensions).1 = some c) :
    (c.props.map (·.1)).Nodup := by
  unfold extract at h
  cases hdecl : o.propsDecl? name with
  | none =>
    rw [hdecl] at h
    cases h
  | some decl =>
    rw [hdecl] at h
    cases h
    exact (flattened_flatten o decl _).nodup

theorem nodup_props_of_componentIn {d : Disk} {cwd : Location} {p : Path}
    {extensions : List String} {c : Component} (h : (componentIn d cwd p extensions).1 = some c) :
    (c.props.map (·.1)).Nodup := by
  unfold componentIn at h
  split at h
  · exact nodup_props_of_extract h
  · cases h

theorem nodup_props_of_component? {σ : Session} {s : Settings} {p : Path} {c : Component}
    (h : σ.component? s p = some c) : (c.props.map (·.1)).Nodup :=
  nodup_props_of_componentIn h

/-- The parts of a record: a component with different props, and its examples. -/
theorem usages_of_documentFile {s : Settings} {path : Path} {σ σ' : Session}
    {record : Documentation} (h : documentFile s path σ = .ok (some record) σ') :
    (record.component.props.map (·.1)).Nodup ∧
      ∃ notes, usages s record.component = .ok (record.variants, notes) := by
  rcases run_bind_eq_ok_iff.1 h with ⟨_, σ₁, -, h⟩
  rcases run_bind_eq_ok_iff.1 h with ⟨found, σ₂, hread, h⟩
  have hfound := eq_component?_of_readComponent hread
  cases found with
  | none =>
    rcases run_bind_eq_ok_iff.1 h with ⟨_, σ₃, -, h⟩
    cases h
  | some c =>
    rcases run_bind_eq_ok_iff.1 h with ⟨styles, σ₃, -, h⟩
    rcases run_bind_eq_ok_iff.1 h with ⟨us, σ₄, hexamples, h⟩
    rcases run_bind_eq_ok_iff.1 h with ⟨_, σ₅, -, h⟩
    cases h
    -- The path in the record is another one, the props are those that were found.
    have hkeys : (c.props.map (·.1)).Nodup := nodup_props_of_component? hfound.symm
    exact ⟨hkeys, usages_of_examples hexamples⟩

end Build

end PropCatalog
