/-! # Paths

    A path is a text whose parts are separated by slashes.  Empty parts and parts
    that are a single dot do not count, except for a dot at the very start. -/

namespace ContractVM.Command.Path

/-- The parts of a path, from the last to the first, without those at the end that
    do not count. -/
def partsFromEnd (path : String) : List String :=
  dropIdle (path.splitOn "/").reverse
where
  /-- Drops the parts in front that do not count; the last element of the list is
      the start of the path. -/
  dropIdle : List String → List String
    | [] => []
    | [first] => [first]
    | part :: before => if part = "" ∨ part = "." then dropIdle before else part :: before

/-- The last part, if it names something: it is neither the root nor made of dots
    that lead elsewhere. -/
def fileName? (path : String) : Option String :=
  match partsFromEnd path with
  | [] => none
  | part :: _ => if part = "" ∨ part = "." ∨ part = ".." then none else some part

/-- Splits a name at its last dot, unless the name starts with that dot. -/
def splitName (name : String) : String × Option String :=
  match (name.splitOn ".").reverse with
  | ending :: part :: parts =>
    let stem := String.intercalate "." (part :: parts).reverse
    if stem = "" then (name, none) else (stem, some ending)
  | _ => (name, none)

/-- The last part without its ending. -/
def fileStem? (path : String) : Option String :=
  (fileName? path).map fun name => (splitName name).1

/-- What follows the last dot of the last part. -/
def extension? (path : String) : Option String :=
  (fileName? path).bind fun name => (splitName name).2

/-- The path without its last part; nothing for the root and the empty path. -/
def parent? (path : String) : Option String :=
  match partsFromEnd path with
  | [] => none
  | [part] => if part = "" then none else some ""
  | _ :: before =>
    match partsFromEnd (String.intercalate "/" before.reverse) with
    | [""] => some "/"
    | parts => some (String.intercalate "/" parts.reverse)

/-- A path followed by the name of something in it. -/
def join (path name : String) : String :=
  if path = "" ∨ path.endsWith "/" then path ++ name else path ++ "/" ++ name

end ContractVM.Command.Path
