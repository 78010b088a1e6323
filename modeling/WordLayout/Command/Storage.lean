import WordLayout.Text.Bytes

namespace WordLayout.Command

inductive AccessFault
  | notFound
  | isDirectory
  | notDirectory
  | nameTooLong
  | invalidPath
  | denied
  | other (text : String)
  deriving DecidableEq, Inhabited

def AccessFault.text : AccessFault → String
  | .notFound => "no such file or directory"
  | .isDirectory => "is a directory"
  | .notDirectory => "not a directory"
  | .nameTooLong => "file name too long"
  | .invalidPath => "invalid argument"
  | .denied => "permission denied"
  | .other text => text

inductive AccessStep
  | opening
  | reading
  deriving DecidableEq, Inhabited

def AccessStep.name : AccessStep → String
  | .opening => "open"
  | .reading => "read"

structure AccessError where
  fault : AccessFault
  step : AccessStep := .opening
  deriving DecidableEq, Inhabited

def AccessError.message (e : AccessError) (path : String) : String :=
  e.step.name ++ " " ++ path ++ ": " ++ e.fault.text

structure Storage (m : Type → Type) where
  read : String → m (Except AccessError (List UInt8))
  write : String → List UInt8 → m (Except AccessError Unit)

/-- A directory without directories inside: files by name. A file in a directory around it has a
name that starts with the way there. -/
structure Directory where
  files : List (String × List UInt8)
  deriving DecidableEq, Inhabited

namespace Directory

def components (path : String) : List String :=
  (path.splitOn "/").filter fun part => part != "" && part != "."

def outward : String := ".."

def emptyFile : List String := ["dev", "null"]

inductive Place
  | around
  | file (name : String)
  | directory (name : String)
  | empty
  | nowhere (fault : AccessFault)
  deriving DecidableEq, Inhabited

def contains (d : Directory) (name : String) : Bool := (d.files.lookup name).isSome

def placeOf (d : Directory) (way : String) (closed : Bool) : List String → Place
  | [] => .around
  | name :: rest =>
    if 255 < Text.byteLength name then .nowhere .nameTooLong
    else
      let name := way ++ name
      if !rest.isEmpty then .nowhere (if d.contains name then .notDirectory else .notFound)
      else if closed then .directory name
      else .file name

def place (d : Directory) (path : String) : Place :=
  let parts := components path
  let closed := path.endsWith "/" || path.endsWith "/."
  let way := parts.takeWhile (· == outward)
  let names := parts.dropWhile (· == outward)
  if path.contains '\x00' then .nowhere .invalidPath
  else if path.isEmpty then .nowhere .notFound
  else if 4095 < Text.byteLength path then .nowhere .nameTooLong
  else if path.startsWith "/" then
    if names.isEmpty then .around
    else if names = emptyFile then (if closed then .nowhere .notDirectory else .empty)
    else .nowhere .notFound
  else d.placeOf (String.join (way.map (· ++ "/"))) closed names

def read (d : Directory) (path : String) : Except AccessError (List UInt8) :=
  match d.place path with
  | .around => .error ⟨.isDirectory, .reading⟩
  | .empty => .ok []
  | .nowhere fault => .error { fault }
  | .directory name => .error { fault := if d.contains name then .notDirectory else .notFound }
  | .file name =>
    match d.files.lookup name with
    | some bytes => .ok bytes
    | none => .error { fault := .notFound }

def put (d : Directory) (name : String) (bytes : List UInt8) : Directory :=
  ⟨(name, bytes) :: d.files.filter (·.1 != name)⟩

def write (d : Directory) (path : String) (bytes : List UInt8) : Except AccessError Directory :=
  match d.place path with
  | .around => .error { fault := .isDirectory }
  | .empty => .ok d
  | .nowhere fault => .error { fault }
  | .directory name => .error { fault := if d.contains name then .notDirectory else .isDirectory }
  | .file name => .ok (d.put name bytes)

def changesSince (before after : Directory) : List (String × List UInt8) :=
  (after.files.filter fun (name, bytes) =>
    !name.contains '/' && before.files.lookup name != some bytes).mergeSort
      fun a b => decide (a.1 ≤ b.1)

def storage : Storage (StateM Directory) where
  read path := do pure ((← get).read path)
  write path bytes := do
    match (← get).write path bytes with
    | .ok d => set d; pure (.ok ())
    | .error e => pure (.error e)

end Directory

end WordLayout.Command
