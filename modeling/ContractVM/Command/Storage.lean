/-! # File storage

    Commands reach files only through a storage, which may be that of the system
    or a directory tree in memory. -/

namespace ContractVM.Command

/-- Why the system refuses to work on a file: its number and its words. -/
structure StorageError where
  code : Nat
  text : String
  deriving DecidableEq, Repr

namespace StorageError

def notFound : StorageError := ⟨2, "No such file or directory"⟩

def notDirectory : StorageError := ⟨20, "Not a directory"⟩

def isDirectory : StorageError := ⟨21, "Is a directory"⟩

def nameTooLong : StorageError := ⟨36, "File name too long"⟩

/-- The text shown for a storage error. -/
def message (e : StorageError) : String :=
  s!"{e.text} (os error {e.code})"

end StorageError

/-- The file operations that commands need, in a monad that performs them. -/
structure Storage (m : Type → Type) where
  /-- Is there a file or a directory at this path? -/
  isPresent : String → m Bool
  read : String → m (Except StorageError (Array UInt8))
  write : String → Array UInt8 → m (Except StorageError Unit)

/-! ## Directory trees in memory -/

/-- A file with its content, or a directory. -/
inductive Node where
  | file (content : Array UInt8)
  | directory
  deriving DecidableEq, Repr

/-- The names that lead to a node from the working directory.  Those in front may be
    `..`, for the directories above it, or one `/`, for the root of the system. -/
abbrev Route := List String

/-- The route to the directory above; the root is above itself. -/
def Route.above (route : Route) : Route :=
  if route = ["/"] then route
  else if route.all (· = "..") then route ++ [".."]
  else route.dropLast

/-- Does a route stay below the working directory? -/
def Route.isInner (route : Route) : Bool :=
  route.head? ≠ some ".." ∧ route.head? ≠ some "/"

/-- Nodes with the routes that lead to them. -/
structure Tree where
  nodes : List (Route × Node)
  deriving DecidableEq, Repr

namespace Tree

/-- The node that a route leads to.  The working directory, those above it and the
    root are there without being listed. -/
def find? (t : Tree) (route : Route) : Option Node :=
  if route.all (· = "..") ∨ route = ["/"] then some .directory else t.nodes.lookup route

/-- Sets the node at a route. -/
def assign (t : Tree) (route : Route) (node : Node) : Tree :=
  if (t.find? route).isSome then
    ⟨t.nodes.map fun entry => if entry.1 == route then (route, node) else entry⟩
  else ⟨t.nodes ++ [(route, node)]⟩

/-- Adds a node with the directories that lead to it. -/
def add (t : Tree) (path : String) (node : Node) : Tree :=
  let route := (path.splitOn "/").filter fun name => name ≠ "" ∧ name ≠ "."
  let parents := (List.range route.length).map fun count => route.take count
  let ready := parents.foldl (fun t parent =>
    if (t.find? parent).isSome then t else t.assign parent .directory) t
  ready.assign route node

/-- The files below the working directory with their paths and contents. -/
def files (t : Tree) : List (String × Array UInt8) :=
  t.nodes.filterMap fun (route, node) =>
    match node with
    | .file content =>
      if route.isInner then some (String.intercalate "/" route, content) else none
    | .directory => none

/-! ### Following paths -/

/-- What a path is followed for. -/
inductive Purpose where
  | inspect
  | create
  deriving DecidableEq, Repr

/-- Where a path leads. -/
inductive Place where
  | node (route : Route) (node : Node)
  /-- Nothing is there, but the directory that would hold it is. -/
  | absent (route : Route)

/-- The most bytes that a name may have. -/
def nameLimit : Nat := 255

/-- The most bytes that a path may have. -/
def pathLimit : Nat := 4095

/-- Follows names from the directory `here` on.  If slashes end the path, its last
    name stands for a directory, which must be there and is never created. -/
def walk (t : Tree) (purpose : Purpose) (slashed : Bool) (here : Route) :
    List String → Except StorageError Place
  | [] => .ok (.node here .directory)
  | name :: rest =>
    if name = "." then walk t purpose slashed here rest
    else if name = ".." then walk t purpose slashed here.above rest
    else if rest = [] ∧ slashed ∧ purpose = .create then .error .isDirectory
    else if nameLimit < name.utf8ByteSize then .error .nameTooLong
    else
      let there := here ++ [name]
      let final := rest = [] ∧ !slashed
      match t.find? there with
      | some .directory => walk t purpose slashed there rest
      | some (.file content) =>
        if final then .ok (.node there (.file content)) else .error .notDirectory
      | none => if final then .ok (.absent there) else .error .notFound

/-- Where a path leads from the working directory. -/
def place (t : Tree) (purpose : Purpose) (path : String) : Except StorageError Place :=
  if path = "" then .error .notFound
  else if pathLimit < path.utf8ByteSize then .error .nameTooLong
  else
    let start := if path.startsWith "/" then ["/"] else []
    t.walk purpose (path.endsWith "/") start ((path.splitOn "/").filter (· ≠ ""))

/-- The content of the file at a path. -/
def read (t : Tree) (path : String) : Except StorageError (Array UInt8) :=
  match t.place .inspect path with
  | .ok (.node _ (.file content)) => .ok content
  | .ok (.node _ .directory) => .error .isDirectory
  | .ok (.absent _) => .error .notFound
  | .error e => .error e

/-- Is there a node at this path? -/
def isPresent (t : Tree) (path : String) : Bool :=
  match t.place .inspect path with
  | .ok (.node _ _) => true
  | _ => false

/-- Writes a file, which replaces the one that was there. -/
def write (t : Tree) (path : String) (content : Array UInt8) : Except StorageError Tree :=
  match t.place .create path with
  | .ok (.node route (.file _)) | .ok (.absent route) => .ok (t.assign route (.file content))
  | .ok (.node _ .directory) => .error .isDirectory
  | .error e => .error e

/-- A tree as a storage. -/
def storage : Storage (StateM Tree) where
  isPresent path := return (← get).isPresent path
  read path := return (← get).read path
  write path content := do
    match (← get).write path content with
    | .ok t =>
      set t
      return .ok ()
    | .error e => return .error e

end Tree

end ContractVM.Command
