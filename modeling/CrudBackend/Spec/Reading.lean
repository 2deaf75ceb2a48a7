import CrudBackend.Json.Reader
import CrudBackend.Spec.Consistency
import CrudBackend.Spec.Normalization

/-!
Reading a specification: from a text to JSON, from JSON to a document, from a document to a
specification that passes its checks. The first fault of the earliest stage is reported.
-/

namespace CrudBackend.Spec

def ofDocument (d : Document) : Except SpecFault Spec := do
  let enums ← EnumTable.ofDocument d
  let entities ← d.entities.mapM Entity.ofDescriptor
  let spec : Spec := ⟨enums, entities⟩
  spec.check
  return spec

def ofJson (v : Json) : Except SpecError Spec := do
  let d ← (Document.ofJson v).mapError .format
  (ofDocument d).mapError .invalid

def parse (text : String) : Except SpecError Spec :=
  match Json.parse? text with
  | some v => ofJson v
  | none => .error (.format .notJson)

end CrudBackend.Spec
