import Lox.Files.Node
import Lox.Files.Trouble

/-!
# Files

A file system is a tree of files and folders and the place of the working folder in it. A path is
walked part by part; every part but the last has to be a folder, and a part that follows a file is
trouble even if it is empty, so a trailing slash asks for a folder. A name has at most 255 bytes and
a path less than 4096.

Making a folder and writing a file look at the folder before the last part only, so `.` and `..` at
the end name nothing new.
-/
namespace Lox

structure Files where
  root : Node
  here : Place
  deriving Repr

namespace Files

/-! ## Walking -/

/-- Follows steps from a node, `trail` being the names that lead there, the last one first.
Gives the place and the node that are reached. -/
def walk (root : Node) : (trail : Place) → Node → List Path.Step → Except Trouble (Place × Node)
  | trail, node, [] => .ok (trail.reverse, node)
  | trail, node, step :: steps =>
    match node with
    | .file _ => .error .notFolder
    | .folder entries =>
      match step with
      | .stay => walk root trail node steps
      | .up =>
        match root.at? trail.tail.reverse with
        | none => .error .missing
        | some above => walk root trail.tail above steps
      | .down n =>
        if 255 < n.length then .error .nameTooLong
        else
          match entries.lookup n with
          | none => .error .missing
          | some child => walk root (n :: trail) child steps

def start (f : Files) (p : Path) : Place := if p.isAbsolute then [] else f.here

/-- The place and the node that the parts of a path lead to, `p` saying where they start. -/
def follow (f : Files) (p : Path) (steps : List Path.Step) : Except Trouble (Place × Node) :=
  match f.root.at? (f.start p) with
  | none => .error .missing
  | some node => walk f.root (f.start p).reverse node steps

/-- What makes a path unusable, whatever the files are. -/
def check (p : Path) : Option Trouble :=
  if (0 : UInt8) ∈ p then some .nulInName
  else if p = [] then some .missing
  else if 4096 ≤ p.length then some .nameTooLong
  else none

/-- What a path names. -/
def resolve (f : Files) (p : Path) : Except Trouble Node :=
  match check p with
  | some t => .error t
  | none =>
    match f.follow p p.steps with
    | .error t => .error t
    | .ok (_, node) => .ok node

/-- The folder before the last part of a path, and that part. -/
def target (f : Files) (p : Path) : Except Trouble (Place × Path.Step) :=
  match check p with
  | some t => .error t
  | none =>
    match f.follow p p.splitLast.1.steps with
    | .error t => .error t
    | .ok (place, _) => .ok (place, .ofPart p.splitLast.2)

/-! ## Looking -/

def exists? (f : Files) (p : Path) : Bool :=
  match f.resolve p with
  | .ok _ => true
  | .error _ => false

def isFolder (f : Files) (p : Path) : Bool :=
  match f.resolve p with
  | .ok node => node.isFolder
  | .error _ => false

def read (f : Files) (p : Path) : Except Trouble Bytes :=
  match f.resolve p with
  | .error t => .error t
  | .ok (.folder _) => .error .isFolder
  | .ok (.file content) => .ok content

/-! ## Changing -/

def put (f : Files) (place : Place) (node : Node) : Files :=
  { f with root := Node.put node f.root place }

/-- Makes one new folder. -/
def makeFolder (f : Files) (p : Path) : Except Trouble Files :=
  match f.target p with
  | .error t => .error t
  | .ok (place, .down n) =>
    if 255 < n.length then .error .nameTooLong
    else if (f.root.at? (place ++ [n])).isSome then .error .occupied
    else .ok (f.put (place ++ [n]) (.folder []))
  | .ok _ => .error .occupied

/-- Writes a file, new or in the place of an old one. -/
def write (f : Files) (p : Path) (content : Bytes) : Except Trouble Files :=
  match f.target p with
  | .error t => .error t
  | .ok (place, .down n) =>
    if p.getLast? = some Path.slash then .error .isFolder
    else if 255 < n.length then .error .nameTooLong
    else
      match f.root.at? (place ++ [n]) with
      | some (.folder _) => .error .isFolder
      | _ => .ok (f.put (place ++ [n]) (.file content))
  | .ok _ => .error .isFolder

/-- Makes a folder and, where they are missing, those above it. A folder that is already there is
fine. What was made before a trouble stays. -/
def makeFolders (f : Files) (p : Path) : Files × Option Trouble :=
  if p = [] then (f, none)
  else
    match f.makeFolder p with
    | .ok made => (made, none)
    | .error .missing =>
      match _h : p.parent? with
      | none => (f, some (.other "failed to create whole tree".toList))
      | some above =>
        match makeFolders f above with
        | (f, some t) => (f, some t)
        | (f, none) =>
          match f.makeFolder p with
          | .ok made => (made, none)
          | .error t => (f, if f.isFolder p then none else some t)
    | .error t => (f, if f.isFolder p then none else some t)
termination_by p.length
decreasing_by exact Path.parent?_length _h

/-- Takes away what a path names. -/
def remove (f : Files) (p : Path) : Files :=
  match f.follow p p.steps with
  | .error _ => f
  | .ok (place, _) => { f with root := f.root.erase place }

/-- The files below the working folder, with the paths from there. -/
def contents (f : Files) : List (Path × Bytes) :=
  match f.root.at? f.here with
  | none => []
  | some node =>
    node.files.map fun (place, content) => (List.intercalate [Path.slash] place, content)

end Files
end Lox
