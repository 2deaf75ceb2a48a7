import CrudBackend.Files.Path
import CrudBackend.Text.Utf8

/-!
A file system as a value: directories and files by location, and the directory that relative paths
start from. Paths are followed piece by piece, as an operating system without links does it, so
that every way in which a path can fail to lead somewhere is told apart.
-/

namespace CrudBackend

/-- The names on the way from the root of the file system. -/
abbrev Location := List String

inductive Entry where
  | directory
  | file (bytes : List UInt8)
  deriving DecidableEq, Repr

inductive FileFault where
  | notFound
  | alreadyExists
  | notDirectory
  | isDirectory
  | invalidArgument
  | nameTooLong
  | notUtf8
  | nulInPath
  deriving DecidableEq, Repr

def FileFault.message : FileFault → String
  | .notFound => "No such file or directory (os error 2)"
  | .alreadyExists => "File exists (os error 17)"
  | .notDirectory => "Not a directory (os error 20)"
  | .isDirectory => "Is a directory (os error 21)"
  | .invalidArgument => "Invalid argument (os error 22)"
  | .nameTooLong => "File name too long (os error 36)"
  | .notUtf8 => "stream did not contain valid UTF-8"
  | .nulInPath => "file name contained an unexpected NUL byte"

/-- The entries of a file system by location, the root excepted, and the directory that relative
paths start from. -/
structure FileTree where
  entries : List (Location × Entry)
  home : Location
  deriving DecidableEq, Repr

namespace FileTree

/-- What stands at a location. The root is always a directory. -/
def get? (t : FileTree) (l : Location) : Option Entry :=
  if l = [] then some .directory else t.entries.lookup l

def put (t : FileTree) (l : Location) (e : Entry) : FileTree :=
  { t with entries := (l, e) :: t.entries.filter fun x => x.1 ≠ l }

def erase (t : FileTree) (l : Location) : FileTree :=
  { t with entries := t.entries.filter fun x => x.1 ≠ l }

/-- Looking up a key other than those that are filtered out. -/
theorem lookup_filter_ne {entries : List (Location × Entry)} {l k : Location} (h : k ≠ l) :
    (entries.filter fun x => x.1 ≠ l).lookup k = entries.lookup k := by
  induction entries with
  | nil => rfl
  | cons x rest ih =>
    obtain ⟨m, e⟩ := x
    by_cases hm : m = l
    · subst hm
      simp only [ne_eq, decide_not] at ih
      simp [List.lookup_cons, beq_eq_false_iff_ne.mpr h, ih]
    · simp only [ne_eq, decide_not] at ih
      simp [hm, List.lookup_cons, ih]

/-- Looking up a key that is filtered out. -/
theorem lookup_filter_self (entries : List (Location × Entry)) (l : Location) :
    (entries.filter fun x => x.1 ≠ l).lookup l = none := by
  rw [List.lookup_eq_none_iff]
  intro x hx
  have hne : x.1 ≠ l := of_decide_eq_true (List.mem_filter.1 hx).2
  exact bne_iff_ne.mpr hne.symm

theorem get?_put (t : FileTree) (l k : Location) (e : Entry) :
    (t.put l e).get? k =
      if k = [] then some .directory else if k = l then some e else t.get? k := by
  by_cases hk : k = []
  · simp [get?, hk]
  · by_cases hl : k = l
    · subst hl
      simp [get?, put]
    · simp only [get?, put, if_neg hk, if_neg hl, List.lookup_cons,
        beq_eq_false_iff_ne.mpr hl]
      exact lookup_filter_ne hl

theorem get?_erase (t : FileTree) (l k : Location) :
    (t.erase l).get? k =
      if k = [] then some .directory else if k = l then none else t.get? k := by
  by_cases hk : k = []
  · simp [get?, hk]
  · by_cases hl : k = l
    · subst hl
      simp only [get?, erase, if_neg hk, if_pos]
      exact lookup_filter_self t.entries k
    · simp only [get?, erase, if_neg hk, if_neg hl]
      exact lookup_filter_ne hl

/-- The ways down from a location to the entries below it. -/
def below (t : FileTree) (l : Location) : List (List String × Entry) :=
  t.entries.filterMap fun (k, e) =>
    if l.isPrefixOf k && l.length < k.length then some (k.drop l.length, e) else none

def namesIn (t : FileTree) (l : Location) : List String :=
  (t.below l).filterMap fun (way, _) =>
    match way with
    | [name] => some name
    | _ => none

def maxNameBytes : Nat := 255

def maxPathBytes : Nat := 4095

def child (t : FileTree) (dir : Location) (name : String) : Except FileFault (Location × Entry) :=
  if maxNameBytes < name.utf8ByteSize then .error .nameTooLong
  else match t.get? (dir ++ [name]) with
    | some e => .ok (dir ++ [name], e)
    | none => .error .notFound

def enter (t : FileTree) (dir : Location) (piece : String) : Except FileFault Location :=
  if piece = "." then .ok dir
  else if piece = ".." then .ok dir.dropLast
  else match t.child dir piece with
    | .ok (l, .directory) => .ok l
    | .ok (_, .file _) => .error .notDirectory
    | .error fault => .error fault

def steps (p : Path) : List String :=
  (p.pieces.filter fun piece => !piece.isEmpty).map String.ofList

def start (t : FileTree) (p : Path) : Location := if p.isAbsolute then [] else t.home

def textFault? (p : Path) : Option FileFault :=
  if p.text.toList.any fun c => c.toNat == 0 then some .nulInPath
  else if p.text = "" then some .notFound
  else none

/-- The directory that a path leads to but for its last piece, and that piece, which only the root
lacks. -/
def approach (t : FileTree) (p : Path) : Except FileFault (Location × Option String) :=
  match textFault? p with
  | some fault => .error fault
  | none =>
    if maxPathBytes < p.text.utf8ByteSize then .error .nameTooLong
    else match (steps p).getLast? with
      | none => .ok (t.start p, none)
      | some last => ((steps p).dropLast.foldlM t.enter (t.start p)).map fun dir => (dir, some last)

/-- The path ends with a separator and so can only mean a directory. -/
def endsOpen (p : Path) : Bool := p.text.toList.getLast? == some '/'

def find (t : FileTree) (p : Path) : Except FileFault (Location × Entry) :=
  match t.approach p with
  | .error fault => .error fault
  | .ok (dir, none) => .ok (dir, .directory)
  | .ok (dir, some last) =>
    if last = "." then .ok (dir, .directory)
    else if last = ".." then .ok (dir.dropLast, .directory)
    else match t.child dir last with
      | .ok (l, .file bytes) => if endsOpen p then .error .notDirectory else .ok (l, .file bytes)
      | r => r

def pathExists (t : FileTree) (p : Path) : Bool := (t.find p).isOk

def isDirectory (t : FileTree) (p : Path) : Bool :=
  match t.find p with
  | .ok (_, .directory) => true
  | _ => false

def readBytes (t : FileTree) (p : Path) : Except FileFault (List UInt8) :=
  match t.find p with
  | .ok (_, .file bytes) => .ok bytes
  | .ok (_, .directory) => .error .isDirectory
  | .error fault => .error fault

def readText (t : FileTree) (p : Path) : Except FileFault String :=
  match t.readBytes p with
  | .ok bytes =>
    match Text.decode? bytes with
    | some s => .ok s
    | none => .error .notUtf8
  | .error fault => .error fault

def list (t : FileTree) (p : Path) : Except FileFault (List String) :=
  match t.find p with
  | .ok (l, .directory) => .ok (t.namesIn l)
  | .ok (_, .file _) => .error .notDirectory
  | .error fault => .error fault

/-- Puts a new entry into a directory. The directory that relative paths start from may be gone, and
nothing can be put into it then. -/
def add (t : FileTree) (dir : Location) (name : String) (e : Entry) : Except FileFault FileTree :=
  if t.get? dir = some .directory then .ok (t.put (dir ++ [name]) e) else .error .notFound

def writeBytes (t : FileTree) (p : Path) (bytes : List UInt8) : Except FileFault FileTree :=
  match t.approach p with
  | .error fault => .error fault
  | .ok (_, none) => .error .isDirectory
  | .ok (dir, some last) =>
    if last = "." ∨ last = ".." ∨ endsOpen p then .error .isDirectory
    else match t.child dir last with
      | .ok (_, .directory) => .error .isDirectory
      | .ok (l, .file _) => .ok (t.put l (.file bytes))
      | .error .notFound => t.add dir last (.file bytes)
      | .error fault => .error fault

def makeDirectory (t : FileTree) (p : Path) : Except FileFault FileTree :=
  match t.approach p with
  | .error fault => .error fault
  | .ok (_, none) => .error .alreadyExists
  | .ok (dir, some last) =>
    if last = "." ∨ last = ".." then .error .alreadyExists
    else match t.child dir last with
      | .ok _ => .error .alreadyExists
      | .error .notFound => t.add dir last .directory
      | .error fault => .error fault

/-- Makes the first of a list of directories, each of which lies in the next one, and those after it
as far as they are missing. The tree is handed back in any case, for directories that were made
stay when a later one cannot be. -/
def makeAll (t : FileTree) : List Path → FileTree × Option FileFault
  | [] => (t, none)
  | p :: above =>
    if p.text = "" then (t, none)
    else match t.makeDirectory p with
      | .ok made => (made, none)
      | .error .notFound =>
        match t.makeAll above with
        | (t, some fault) => (t, some fault)
        | (t, none) =>
          match t.makeDirectory p with
          | .ok made => (made, none)
          | .error fault => (t, if t.isDirectory p then none else some fault)
      | .error fault => (t, if t.isDirectory p then none else some fault)

def makeDirectories (t : FileTree) (p : Path) : FileTree × Option FileFault :=
  t.makeAll p.ancestors

def removeFile (t : FileTree) (p : Path) : Except FileFault FileTree :=
  match t.approach p with
  | .error fault => .error fault
  | .ok (_, none) => .error .isDirectory
  | .ok (dir, some last) =>
    if last = "." ∨ last = ".." then .error .isDirectory
    else match t.child dir last with
      | .ok (_, .directory) => .error .isDirectory
      | .ok (l, .file _) => if endsOpen p then .error .notDirectory else .ok (t.erase l)
      | .error fault => .error fault

def isEmptyDirectory (t : FileTree) (p : Path) : Bool :=
  match t.list p with
  | .ok names => names.isEmpty
  | .error _ => false

def removeDirectory (t : FileTree) (p : Path) : Except FileFault FileTree :=
  match t.approach p with
  | .error fault => .error fault
  | .ok (_, none) => .error .invalidArgument
  | .ok (dir, some last) =>
    if last = "." ∨ last = ".." then .error .invalidArgument
    else match t.child dir last with
      | .ok (l, .directory) => .ok (t.erase l)
      | .ok (_, .file _) => .error .notDirectory
      | .error fault => .error fault

def absolutePath (l : Location) : Path := ⟨"/" ++ String.intercalate "/" l⟩

/-- The location that one piece of a path leads to. What stands at the location before the piece, or
at the one that the piece names, is looked up by its path from the root. -/
def resolve (t : FileTree) (l : Location) (piece : String) : Except FileFault Location :=
  if piece = "." then (t.find ((absolutePath l).join "")).map fun (dir, _) => dir
  else if piece = ".." then (t.find ((absolutePath l).join "")).map fun (dir, _) => dir.dropLast
  else (t.find ((absolutePath l).join piece)).map fun (found, _) => found

/-- The path from the root to what a path leads to. It is found piece by piece, so that only the
paths from the root to the locations on the way have to be short enough, and not the path itself. -/
def canonical (t : FileTree) (p : Path) : Except FileFault Path :=
  match textFault? p with
  | some fault => .error fault
  | none =>
    ((steps p ++ if endsOpen p then ["."] else []).foldlM t.resolve (t.start p)).map absolutePath

end FileTree

/-- The order of two ways down: by the first names in which they differ, and a directory before what
lies in it. -/
def wayLe : List String → List String → Bool
  | [], _ => true
  | _ :: _, [] => false
  | a :: as, b :: bs => if a = b then wayLe as bs else decide (a < b)

/-- The order of two ways down: by the first names in which they differ, and a directory after what
lies in it. -/
def contentsFirstLe : List String → List String → Bool
  | _, [] => true
  | [], _ :: _ => false
  | a :: as, b :: bs => if a = b then contentsFirstLe as bs else decide (a < b)

end CrudBackend
