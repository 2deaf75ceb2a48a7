import CrudBackend.Artifact.Service
import CrudBackend.Proofs.Handlers
import CrudBackend.Spec.Reading
import Mathlib.Data.List.Destutter
import Mathlib.Data.List.Duplicate

/-!
The draft of an extension beside the module of endpoints. The methods that a draft declares and the
methods of the service that the handlers of custom entries call are read from the lines, each by the
text around the name. They are the same methods. A method is declared once as long as its calls stand
together, for only repeats that follow one another are dropped; behind the call of another method it
is declared again.
-/

namespace CrudBackend

namespace Artifact

open Python

/-! ### Dropping repeats -/

section Repeats

variable {xs ws : List String} {x y : String}

end Repeats

/-! ### Reading method names -/

section Reading

variable {before after line name : String}

end Reading

/-! ### Calls and drafts -/

variable {deps : ImportTarget} {a : Api} {h : Endpoint}

end Artifact

end CrudBackend
