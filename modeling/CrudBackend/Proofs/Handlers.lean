import CrudBackend.Proofs.Protection
import Mathlib.Data.List.TakeWhile

/-!
The handlers in a module of endpoints, as its lines give them. Each API entry has a handler of its
own, in order, with its path and its summary. Only an entry that takes an entity and has an unknown
name goes without. The handlers are different functions, and no function is called like a keyword or
the built-in list.
-/

namespace CrudBackend

/-- The entry takes no entity, or it has one of the names that are known for that. -/
def Api.isServed (a : Api) : Bool :=
  match a.mode with
  | .entity => ["save", "update", "list"].contains a.name
  | _ => true

namespace Artifact

/-- A handler as two lines give it: the route above a function, and the name of the function. -/
structure Handler where
  route : String
  function : String
  deriving DecidableEq, Repr

def isDecorator (line : String) : Bool := line.toList.head? == some '@'

def defined? (line : String) : Option String :=
  match line.toList with
  | 'd' :: 'e' :: 'f' :: ' ' :: rest =>
    some (String.ofList (rest.takeWhile Python.continuesIdentifier))
  | _ => none

def handlers : List String → List Handler
  | route :: next :: rest =>
    match isDecorator route, defined? next with
    | true, some function => ⟨route, function⟩ :: handlers (next :: rest)
    | _, _ => handlers (next :: rest)
  | _ => []

variable {deps : ImportTarget} {a : Api} {action : Action} {h : Endpoint}

/-! ### Reading handlers -/

theorem isSome_actionOf? (className : String) (a : Api) :
    (actionOf? className a).isSome = a.isServed := by
  unfold actionOf? Api.isServed
  cases a.mode with
  | entity => split_ifs <;> simp_all
  | query => rfl
  | ids => rfl
  | custom request params => rfl

theorem map_fst_actions (e : Entity) : (actions e).map Prod.fst = e.apis.filter Api.isServed := by
  rw [actions, List.map_filterMap, ← List.filterMap_eq_filter]
  refine List.filterMap_congr fun a _ => ?_
  rw [Option.map_map, Option.guard, ← isSome_actionOf? e.className a]
  cases actionOf? e.className a <;> rfl

end Artifact

end CrudBackend
