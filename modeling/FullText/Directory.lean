import FullText.Fault

/-!
# Files by path

A working directory as what it holds. Looking a path up fails at its first component that is not
there, that lies below a file, or whose name is too long. Nothing is known of the directories above
the working directory but that they are there.
-/

namespace FullText

/-- The pieces between slashes. -/
def slashPieces : List Char → List (List Char)
  | [] => [[]]
  | c :: cs =>
    if c = '/' then [] :: slashPieces cs
    else
      match slashPieces cs with
      | [] => [[c]]
      | p :: ps => (c :: p) :: ps

/-- A path as its components. -/
structure Path where
  /-- The slashes of an absolute path. -/
  root : String
  parts : List String
  deriving DecidableEq, Repr

namespace Path

/-- Empty components and dots say nothing and are left out. -/
def ofString (s : String) : Path :=
  let slashes := (s.toList.takeWhile (· == '/')).length
  { root := if slashes = 0 then "" else if slashes = 2 then "//" else "/"
    parts := ((slashPieces s.toList).map String.ofList).filter fun p => p != "" && p != "." }

def toString (p : Path) : String :=
  if p.root = "" && p.parts.isEmpty then "." else p.root ++ "/".intercalate p.parts

/-- The components of the directory that a path starts from. -/
def start (p : Path) : List String := if p.root = "" then [] else ["/"]

end Path

inductive Entry where
  | file (bytes : List UInt8)
  | directory
  deriving DecidableEq, Repr

/-- A working directory, and what can be seen elsewhere: by absolute paths, as components behind a
slash, and by way of the directories above, as components behind two dots each. -/
structure Directory where
  entries : List (List String × Entry) := []
  deriving DecidableEq, Repr

namespace Directory

/-- What the components lead to. What has something below it is a directory. -/
def entry? (d : Directory) (parts : List String) : Option Entry :=
  if parts = ["/"] ∨ parts.all (· == "..") then some .directory
  else
    match d.entries.lookup parts with
    | some e => some e
    | none =>
      if d.entries.any fun e => parts.isPrefixOf e.1 then some .directory else none

/-- The components of the directory above. -/
def above : List String → List String
  | ["/"] => ["/"]
  | parts => if parts.all (· == "..") then parts ++ [".."] else parts.dropLast

/-- Where a component leads to from the directory `here`. -/
def enter (here : List String) (part : String) : List String :=
  if part = ".." then above here else here ++ [part]

/-- The most bytes that a component may have. -/
def maxNameSize : Nat := 255

/-- The most bytes that a path may have. -/
def maxPathSize : Nat := 4095

/-- Follows `rest` from `here` up to the last component, which need not be there. -/
def follow (d : Directory) (path : String) (here : List String) :
    List String → Except Fault (List String)
  | [] => .ok here
  | part :: rest =>
    match d.entry? here with
    | none => .error (.noSuchFile path)
    | some (.file _) => .error (.notDirectory path)
    | some .directory =>
      if maxNameSize < part.utf8ByteSize then .error (.nameTooLong path)
      else d.follow path (enter here part) rest

/-- The components that a path leads to from the working directory. -/
def locate (d : Directory) (p : Path) : Except Fault (List String) :=
  let path := p.toString
  if path.contains '\x00' then .error .nulInPath
  else if maxPathSize < path.utf8ByteSize then .error (.nameTooLong path)
  else d.follow path p.start p.parts

def read (d : Directory) (p : Path) : Except Fault (List UInt8) :=
  match d.locate p with
  | .error f => .error f
  | .ok parts =>
    match d.entry? parts with
    | none => .error (.noSuchFile p.toString)
    | some .directory => .error (.isDirectory p.toString)
    | some (.file bytes) => .ok bytes

/-- The directory with the components leading to an entry. -/
def put (d : Directory) (parts : List String) (e : Entry) : Directory :=
  ⟨(parts, e) :: d.entries.filter fun f => f.1 != parts⟩

def write (d : Directory) (p : Path) (bytes : List UInt8) : Except Fault Directory :=
  match d.locate p with
  | .error f => .error f
  | .ok parts =>
    match d.entry? parts with
    | some .directory => .error (.isDirectory p.toString)
    | _ => .ok (d.put parts (.file bytes))

end Directory

end FullText
