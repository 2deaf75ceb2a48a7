/-!
Reserving names so that no two are equal. A name that is taken gets the least numbered ending that
makes it free. The endings are counted in 32 bits, so there is an end to them.
-/

namespace CrudBackend.Naming

def numbered (name : String) (k : Nat) : String := name ++ "_" ++ toString k

/-- What becomes of a counter that cannot grow: a checked one stops the search, another one goes on
from the least number. -/
inductive Overflow where
  | stops
  | wraps
  deriving DecidableEq, Repr

def Overflow.next (o : Overflow) (k : Int32) : Option Int32 :=
  if k = Int32.maxValue then
    match o with
    | stops => none
    | wraps => some Int32.minValue
  else some (k + 1)

/-- The name with the ending that a counter has come to. -/
def counted (name : String) (k : Int32) : String := name ++ "_" ++ toString k.toInt

/-- The endings are tried from a number on, one after the other, until the name is free. A search
that is stopped has no result. -/
inductive Search (o : Overflow) (taken : List String) (name : String) :
    Int32 → Option String → Prop
  | found {k : Int32} (hfree : counted name k ∉ taken) :
      Search o taken name k (some (counted name k))
  | next {k j : Int32} {outcome : Option String} (htaken : counted name k ∈ taken)
      (hnext : o.next k = some j) (hrest : Search o taken name j outcome) :
      Search o taken name k outcome
  | stopped {k : Int32} (htaken : counted name k ∈ taken) (hnext : o.next k = none) :
      Search o taken name k none

/-- A name that is free is reserved as it is, for another one the endings are tried from one on. -/
inductive Reserves (o : Overflow) (taken : List String) (name : String) : Option String → Prop
  | unchanged (hfree : name ∉ taken) : Reserves o taken name (some name)
  | renamed {outcome : Option String} (htaken : name ∈ taken)
      (hsearch : Search o taken name 1 outcome) : Reserves o taken name outcome

/-- The endings that are tried in turn. Among one more than there are taken names, one is free. -/
def candidates (taken : List String) (name : String) : List String :=
  (List.range' 1 (taken.length + 1)).map (numbered name)

/-- A name that is not taken: the name itself, or the first candidate that is free. While fewer than
2 ^ 31 names are taken, it is what the search ends with. -/
def freeName (taken : List String) (name : String) : String :=
  if taken.contains name then
    ((candidates taken name).find? fun c => !taken.contains c).getD name
  else name

def reserveAll (taken : List String) : List String → List String
  | [] => []
  | name :: rest =>
    let free := freeName taken name
    free :: reserveAll (free :: taken) rest

end CrudBackend.Naming
