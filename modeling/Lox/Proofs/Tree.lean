import Lox.Files.Node

/-!
# What stands where in a tree

A tree as what can be seen of it at each place: nothing, a folder, or a file with its content. Two
trees that look the same at every place are the same to every look-up, and one change to a tree is
told by what it does to the places.

Results:
* `item?_above`: what has something below it is a folder.
* `item?_put`: putting a file or an empty folder where no folder stands changes that place alone.
-/
namespace Lox

/-- What stands at a place. -/
inductive Item
  | folder
  | file (content : Bytes)
  deriving DecidableEq, Repr

namespace Node

def item : Node → Item
  | folder _ => .folder
  | file content => .file content

def item? (root : Node) (place : Place) : Option Item := (root.at? place).map item

theorem item?_of_at? {root node : Node} {place : Place} (h : root.at? place = some node) :
    root.item? place = some node.item := by
  rw [item?, h, Option.map_some]

theorem item?_eq_none {root : Node} {place : Place} :
    root.item? place = none ↔ root.at? place = none := by
  rw [item?, Option.map_eq_none_iff]

theorem item?_eq_folder {root : Node} {place : Place} :
    root.item? place = some .folder ↔ ∃ entries, root.at? place = some (folder entries) := by
  rw [item?, Option.map_eq_some_iff]
  constructor
  · intro h
    obtain ⟨node, hn, hi⟩ := h
    cases node with
    | folder entries => exact ⟨entries, hn⟩
    | file content => cases hi
  · intro h
    obtain ⟨entries, he⟩ := h
    exact ⟨folder entries, he, rfl⟩

theorem item?_eq_file {root : Node} {place : Place} {content : Bytes} :
    root.item? place = some (.file content) ↔ root.at? place = some (file content) := by
  rw [item?, Option.map_eq_some_iff]
  constructor
  · intro h
    obtain ⟨node, hn, hi⟩ := h
    cases node with
    | folder entries => cases hi
    | file c => rw [hn, Item.file.inj hi]
  · intro h
    exact ⟨file content, h, rfl⟩

theorem isFolder_iff {node : Node} : node.isFolder = true ↔ node.item = .folder := by
  cases node <;> simp [isFolder, item]

/-! ## Folders and what is below them -/

theorem item?_cons (root : Node) (n : Name) (place : Place) :
    root.item? (n :: place) = (root.child? n).bind (·.item? place) := by
  rw [item?, at?, Option.map_bind]
  rfl

theorem item?_below (root : Node) (p q : Place) :
    root.item? (p ++ q) = (root.at? p).bind (·.item? q) := by
  rw [item?, at?_append, Option.map_bind]
  rfl

/-- **Closed upwards.** -/
theorem item?_above {root : Node} {p q : Place} {n : Name}
    (h : root.item? (p ++ n :: q) ≠ none) : root.item? p = some .folder := by
  rw [item?_below] at h
  cases hp : root.at? p with
  | none => rw [hp] at h; exact absurd rfl h
  | some node =>
    cases node with
    | folder entries => exact item?_eq_folder.2 ⟨entries, hp⟩
    | file content => rw [hp] at h; exact absurd rfl h

/-- What has nothing below it. -/
def Bare (node : Node) : Prop := ∀ n, node.child? n = none

theorem bare_file (content : Bytes) : Bare (file content) := fun _ => rfl

theorem bare_empty : Bare (folder []) := fun _ => rfl

theorem Bare.item?_cons {node : Node} (h : node.Bare) (n : Name) (place : Place) :
    node.item? (n :: place) = none := by
  rw [Node.item?_cons, h n, Option.bind_none]

/-! ## Putting -/

/-- Sets what the names of a folder lead to, one of them anew. -/
theorem item?_setEntry (entries : List (Name × Node)) (n : Name) (node : Node) (q : Place) :
    (folder (setEntry n node entries)).item? q =
      if q.head? = some n then node.item? q.tail else (folder entries).item? q := by
  cases q with
  | nil => rfl
  | cons m q =>
    rw [Node.item?_cons, Node.item?_cons]
    by_cases h : m = n
    · subst h
      simp [child?, lookup_setEntry_self]
    · simp [child?, lookup_setEntry_other h, h]

/-- The folder above is there, and so the new entry is set in it. -/
theorem item?_put_child {new root : Node} {n : Name} (hnew : new.Bare)
    (hroot : root.item? [] = some .folder) (hn : root.item? [n] ≠ some .folder) (q : Place) :
    (put new root [n]).item? q = if q = [n] then some new.item else root.item? q := by
  obtain ⟨entries, rfl⟩ : ∃ entries, root = folder entries := by
    obtain ⟨entries, h⟩ := item?_eq_folder.1 hroot
    exact ⟨entries, Option.some.inj h⟩
  have hput : put new (folder entries) [n] = folder (setEntry n new entries) := by
    unfold put
    cases entries.lookup n with
    | none => rfl
    | some old => cases new <;> rfl
  rw [hput, item?_setEntry]
  cases q with
  | nil => rfl
  | cons m q =>
    by_cases h : m = n
    · subst h
      cases q with
      | nil => simp [item?, at?]
      | cons k q =>
        -- nothing was below the place, as no folder stood there
        have hold : (folder entries).item? (m :: k :: q) = none :=
          Classical.byContradiction fun hsome => hn (item?_above hsome)
        simp [hnew.item?_cons, hold]
    · simp [h]

/-- **One place alone.** -/
theorem item?_put {new : Node} {n : Name} (hnew : new.Bare) (p : Place) :
    ∀ {root : Node}, root.item? p = some .folder → root.item? (p ++ [n]) ≠ some .folder →
      ∀ q, (put new root (p ++ [n])).item? q = if q = p ++ [n] then some new.item else root.item? q := by
  induction p with
  | nil => exact fun hroot hn => item?_put_child hnew hroot hn
  | cons m p ih =>
    intro root hp hn q
    obtain ⟨entries, rfl⟩ : ∃ entries, root = folder entries := by
      cases root with
      | folder entries => exact ⟨entries, rfl⟩
      | file content => cases hp
    rw [Node.item?_cons] at hp
    rw [List.cons_append, Node.item?_cons] at hn
    cases hc : entries.lookup m with
    | none => rw [child?, hc] at hp; cases hp
    | some old =>
      rw [child?, hc, Option.bind_some] at hp hn
      have hput : put new (folder entries) (m :: (p ++ [n])) =
          folder (setEntry m (put new old (p ++ [n])) entries) := by
        simp only [put, hc]
      rw [List.cons_append, hput, item?_setEntry]
      cases q with
      | nil => rfl
      | cons k q =>
        by_cases h : k = m
        · subst h
          simp [ih hp hn q, Node.item?_cons, child?, hc]
        · simp [h]

end Node
end Lox
