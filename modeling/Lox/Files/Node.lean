import Lox.Files.Path

/-!
# File trees

A tree is a file or a folder of named trees. A place in a tree is the list of names that leads
there. Putting a tree at a place replaces what is there, or adds it if the folder above exists.

* `at?_append`: a place is followed name by name.
* `lookup_setEntry_self`, `lookup_setEntry_other`: setting an entry changes that entry alone.
-/
namespace Lox

/-- A place in a tree, from the root. -/
abbrev Place := List Name

inductive Node
  | file (content : Bytes)
  | folder (entries : List (Name × Node))
  deriving Repr

namespace Node

def isFolder : Node → Bool
  | folder _ => true
  | file _ => false

def child? : Node → Name → Option Node
  | folder entries, n => entries.lookup n
  | file _, _ => none

def at? (node : Node) : Place → Option Node
  | [] => some node
  | n :: ns => (node.child? n).bind (at? · ns)

/-- Sets the entry of a name, a new one at the end. -/
def setEntry (n : Name) (node : Node) : List (Name × Node) → List (Name × Node)
  | [] => [(n, node)]
  | (m, old) :: rest => if n = m then (m, node) :: rest else (m, old) :: setEntry n node rest

def put (new : Node) : Node → Place → Node
  | _, [] => new
  | file content, _ :: _ => file content
  | folder entries, n :: ns =>
    match entries.lookup n with
    | some old => folder (setEntry n (put new old ns) entries)
    | none => if ns = [] then folder (setEntry n new entries) else folder entries

/-- Takes away what is at a place. -/
def erase : Node → Place → Node
  | node, [] => node
  | file content, _ :: _ => file content
  | folder entries, [n] => folder (entries.filter (·.1 != n))
  | folder entries, n :: ns =>
    match entries.lookup n with
    | some old => folder (setEntry n (erase old ns) entries)
    | none => folder entries

mutual

/-- All files, with their places. -/
def files : Node → List (Place × Bytes)
  | file content => [([], content)]
  | folder entries => filesIn entries

def filesIn : List (Name × Node) → List (Place × Bytes)
  | [] => []
  | (n, node) :: rest => node.files.map (fun (place, content) => (n :: place, content)) ++ filesIn rest

end

/-! ## Looking up what was put -/

theorem at?_append (node : Node) (p q : Place) :
    node.at? (p ++ q) = (node.at? p).bind (·.at? q) := by
  induction p generalizing node with
  | nil => rfl
  | cons n p ih =>
    simp only [List.cons_append, at?]
    cases node.child? n with
    | none => rfl
    | some c => simp [ih]

theorem lookup_setEntry_self (n : Name) (node : Node) (es : List (Name × Node)) :
    (setEntry n node es).lookup n = some node := by
  induction es with
  | nil => simp [setEntry]
  | cons e es ih =>
    obtain ⟨m, old⟩ := e
    by_cases h : n = m
    · subst h; simp [setEntry]
    · have hb : (n == m) = false := by simpa using h
      simp [setEntry, h, List.lookup_cons, hb, ih]

theorem lookup_setEntry_other {m n : Name} (h : m ≠ n) (node : Node) (es : List (Name × Node)) :
    (setEntry n node es).lookup m = es.lookup m := by
  have hb : (m == n) = false := by simpa using h
  induction es with
  | nil => simp [setEntry, List.lookup_cons, hb]
  | cons e es ih =>
    obtain ⟨k, old⟩ := e
    by_cases hk : n = k
    · subst hk; simp [setEntry, List.lookup_cons, hb]
    · simp [setEntry, hk, List.lookup_cons, ih]

end Node
end Lox
