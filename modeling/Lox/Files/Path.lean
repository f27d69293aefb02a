import Lox.Text.Utf8

/-!
# Paths

A path is a sequence of bytes, cut into parts by slashes. It is never normalised. An empty part and
`.` stay where they are, `..` goes up, and every other part is a name to go down to; a path that
starts with a slash starts at the root.

* `parent?_length`: the parent of a path is shorter than the path.
-/
namespace Lox

abbrev Path := Bytes

/-- A name inside a folder. -/
abbrev Name := Bytes

namespace Path

def slash : UInt8 := Utf8.ascii '/'

def dot : UInt8 := Utf8.ascii '.'

/-- How a path is shown: ill-formed UTF-8 turns into U+FFFD. -/
def display (p : Path) : List Char := Utf8.decode p

def isAbsolute (p : Path) : Bool := p.head? == some slash

/-- The path `q` as seen from `p`. An absolute one stands alone. -/
def join (p q : Path) : Path :=
  if isAbsolute q then q
  else if p = [] ∨ p.getLast? = some slash then p ++ q
  else p ++ slash :: q

/-! ## Steps -/

/-- What a part of a path does. -/
inductive Step
  | stay
  | up
  | down (name : Name)
  deriving DecidableEq, Repr

def Step.ofPart (part : Bytes) : Step :=
  if part = [] ∨ part = [dot] then .stay else if part = [dot, dot] then .up else .down part

/-- The parts between the slashes, empty ones included. -/
def parts : Path → List Bytes
  | [] => [[]]
  | b :: bs =>
    if b = slash then [] :: parts bs
    else
      match parts bs with
      | [] => [[b]]
      | part :: rest => (b :: part) :: rest

def steps (p : Path) : List Step := (parts p).map Step.ofPart

/-- The last part that is not empty, and the path before it. -/
def splitLast (p : Path) : Path × Bytes :=
  let body := p.reverse.dropWhile (· == slash)
  ((body.dropWhile (· != slash)).reverse, (body.takeWhile (· != slash)).reverse)

/-! ## Parents -/

/-- A reversed path without the slashes and `.` parts at its end. A path of one slash, or of one
`.`, stays. -/
def trimReversed : Bytes → Bytes
  | [] => []
  | b :: bs =>
    if b = slash ∧ bs ≠ [] then trimReversed bs
    else if b = dot ∧ bs.head? = some slash then trimReversed bs
    else b :: bs

/-- The path without its last part. The empty path and the root have no parent; a single name has
the empty path. -/
def parent? (p : Path) : Option Path :=
  let body := trimReversed p.reverse
  if body = [] ∨ body = [slash] then none
  else some (trimReversed (body.dropWhile (· != slash))).reverse

theorem trimReversed_length (bs : Bytes) : (trimReversed bs).length ≤ bs.length := by
  induction bs with
  | nil => exact Nat.le_refl _
  | cons b bs ih =>
    unfold trimReversed
    split
    · exact Nat.le_trans ih (Nat.le_succ _)
    split
    · exact Nat.le_trans ih (Nat.le_succ _)
    · exact Nat.le_refl _

theorem head_trimReversed {bs rest : Bytes} {b : UInt8} (h : trimReversed bs = b :: rest) :
    b ≠ slash ∨ rest = [] := by
  induction bs with
  | nil => simp [trimReversed] at h
  | cons c bs ih =>
    unfold trimReversed at h
    split at h
    · exact ih h
    split at h
    · exact ih h
    · rename_i h1 h2
      obtain ⟨rfl, rfl⟩ := List.cons.inj h
      by_cases hb : c = slash
      · exact .inr (by simpa [hb] using h1)
      · exact .inl hb

theorem parent?_length {p q : Path} (h : parent? p = some q) : q.length < p.length := by
  have htrim := trimReversed_length p.reverse
  unfold parent? at h
  dsimp only at h
  split at h
  · simp at h
  rename_i hne
  cases hb : trimReversed p.reverse with
  | nil => simp [hb] at hne
  | cons b rest =>
    rw [hb] at h htrim hne
    have hq := Option.some.inj h
    have hd : (b :: rest).dropWhile (· != slash) = rest.dropWhile (· != slash) := by
      rcases head_trimReversed hb with hs | rfl
      · simp [hs]
      · by_cases hs : b = slash
        · simp [hs] at hne
        · simp [hs]
    rw [hd] at hq
    have h1 := trimReversed_length (rest.dropWhile (· != slash))
    have h2 := (List.dropWhile_sublist (· != slash) (l := rest)).length_le
    rw [← hq]
    simp at htrim ⊢
    omega

end Path
end Lox
