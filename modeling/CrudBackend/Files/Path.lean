import CrudBackend.Text.Utf8

/-!
Path texts. Joining never normalizes: a path is kept, and shown, as it was put together. Two paths
count as the same directory name if their components agree, however many separators they spell. The
system knows paths as bytes, and a path that is only written down need not be a text.
-/

namespace CrudBackend

structure Path where
  text : String
  deriving DecidableEq, Repr, Inhabited

namespace Path

def isAbsolute (p : Path) : Bool := p.text.toList.head? == some '/'

/-- A path continued by another one. An absolute continuation replaces the path, and one separator
is put between the two unless there is one. -/
def join (p : Path) (rest : String) : Path :=
  if (Path.mk rest).isAbsolute then ⟨rest⟩
  else if p.text.toList.getLast?.any (· != '/') then ⟨p.text ++ "/" ++ rest⟩
  else ⟨p.text ++ rest⟩

def pieces (p : Path) : List (List Char) := p.text.toList.splitOn '/'

inductive Component where
  | root
  | here
  | up
  | name (s : String)
  deriving DecidableEq, Repr

/-- The component of a piece behind the first: empty pieces and single dots do not count. -/
def component? (piece : List Char) : Option Component :=
  if piece = [] ∨ piece = ['.'] then none
  else if piece = ['.', '.'] then some .up
  else some (.name (String.ofList piece))

/-- The components of a path. A single dot counts at the beginning only. -/
def components (p : Path) : List Component :=
  let lead := if p.isAbsolute then [Component.root]
    else if p.pieces.head? == some ['.'] then [.here] else []
  lead ++ p.pieces.filterMap component?

/-- Drops pieces that do not count from the end; the pieces come last first. -/
def droppingBlank (pieces : List (List Char)) : List (List Char) :=
  pieces.dropWhile fun piece => piece.isEmpty || piece == ['.']

/-- The text before the pieces that can be dropped, and those pieces. An absolute path keeps its
separator, and a leading dot is kept too. -/
def lead (p : Path) : List Char × List (List Char) :=
  match p.text.toList with
  | '/' :: rest => (['/'], rest.splitOn '/')
  | ['.'] => (['.'], [])
  | '.' :: '/' :: rest => (['.'], [] :: rest.splitOn '/')
  | cs => ([], cs.splitOn '/')

/-- The path without its last component, as text; none if it has no component but the root. -/
def parent? (p : Path) : Option Path :=
  let (start, body) := p.lead
  match droppingBlank body.reverse with
  | _ :: more => some ⟨String.ofList (start ++ ['/'].intercalate (droppingBlank more).reverse)⟩
  | [] => if start = ['.'] then some ⟨""⟩ else none

/-- A path and the paths that are left when its components are dropped one by one. At most as many
steps are needed as the text has characters. -/
def ancestorsWithin : Nat → Path → List Path
  | 0, p => [p]
  | n + 1, p =>
    match p.parent? with
    | some q => p :: ancestorsWithin n q
    | none => [p]

def ancestors (p : Path) : List Path := ancestorsWithin (p.text.length + 1) p

end Path

/-- A path as the system knows it: bytes, which need not be the encoding of a text. -/
structure RawPath where
  bytes : List UInt8
  deriving DecidableEq, Repr, Inhabited

def RawPath.ofText (s : String) : RawPath := ⟨Text.encode s⟩

instance : Coe Path RawPath := ⟨fun p => .ofText p.text⟩

end CrudBackend
