/-!
Sets of characters given as ranges of code points.
-/

namespace CrudBackend.Text

def inRanges (ranges : List (Nat × Nat)) (n : Nat) : Bool :=
  ranges.any fun (first, last) => first ≤ n && n ≤ last

end CrudBackend.Text
