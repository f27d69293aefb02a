import Lox.Proofs.ExprText
import Lox.Proofs.TextEcho

/-!
# The text of an expression determines it

Without strings, two expressions with the same text are alike. Reading from the left, a value goes
up to the next space or closing parenthesis, and a compound expression starts with a parenthesis and
its operator; how many operands follow is seen at the parenthesis that closes it. So the texts of
two expressions are compared with whatever stands behind them.

Results:
* `value_injective`: the texts of values tell them apart.
* `cancels_write`: of two texts that start with expressions and are the same, the expressions are
  alike and the rests are the same; one lemma for each form of expression.
* `write_eq_iff`: the texts are the same exactly if the expressions are alike.
-/
namespace Lox

/-- The spellings of operators. -/
def operatorSpellings : List (List Char) := Expr.operators.map Symbol.spelling

/-- No string, and no not-a-number, whose bits are not to be seen in its text. -/
def Value.Legible : Value → Prop
  | number x => x.isNaN = false
  | string _ => False
  | _ => True

instance : DecidablePred Value.Legible
  | .nil => .isTrue trivial
  | .bool _ => .isTrue trivial
  | .number x => inferInstanceAs (Decidable (x.isNaN = false))
  | .string _ => .isFalse id

/-- Same shape, same operator texts, and same values down to the bits of the numbers. -/
def Expr.Alike : Expr → Expr → Prop
  | literal v, literal w => v = w
  | grouping e, grouping f => e.Alike f
  | unary operator right, unary operator' right' =>
    operator.lexeme = operator'.lexeme ∧ right.Alike right'
  | binary left operator right, binary left' operator' right' =>
    left.Alike left' ∧ operator.lexeme = operator'.lexeme ∧ right.Alike right'
  | _, _ => False

/-! ## Values -/

theorem isInner_of_isDigit {c : Char} (h : c.isDigit = true) : isInner c = true := by
  have hne (d : Char) (hd : d.isDigit = false) : c ≠ d := ne_of_test h hd
  simp [isInner, hne ' ' rfl, hne '(' rfl, hne ')' rfl]

theorem inner_number {whole : List Char} {fraction : Option (List Char)}
    (h : (Piece.number whole fraction).WellFormed) :
    ∀ c ∈ (Piece.number whole fraction).text, isInner c = true := by
  intro c hc
  cases fraction with
  | none => exact isInner_of_isDigit (h.1.2 c hc)
  | some places =>
    rcases List.mem_append.1 hc with hc | hc
    · exact isInner_of_isDigit (h.1.2 c hc)
    rcases List.mem_cons.1 hc with rfl | hc
    · rfl
    · exact isInner_of_isDigit ((h.2 places rfl).2 c hc)

namespace Value

theorem inner_unsigned {m : Nat} (h : m ≤ Binary64.infinity) :
    ∀ c ∈ unsigned m, isInner c = true := by
  unfold unsigned
  split
  · obtain ⟨whole, fraction, htext, hformed, -⟩ := magnitude_piece h
    rw [htext]
    exact inner_number hformed
  · exact List.all_eq_true.1 rfl

theorem inner_write {v : Value} (h : v.Legible) : ∀ c ∈ v.write, isInner c = true := by
  cases v with
  | nil => exact List.all_eq_true.1 rfl
  | bool b => cases b <;> exact List.all_eq_true.1 rfl
  | number x =>
    have hx : x.isNaN = false := h
    rw [write, write_eq hx, List.forall_mem_append]
    refine ⟨?_, inner_unsigned (Nat.le_of_not_lt (of_decide_eq_false hx))⟩
    split <;> exact List.all_eq_true.1 rfl
  | string s => exact h.elim

theorem write_ne_nil {v : Value} (h : v.Legible) : v.write ≠ [] := by
  cases v with
  | nil => decide
  | bool b => cases b <;> decide
  | number x =>
    obtain ⟨c, cs, hc, -⟩ := head_write (x := x) h
    rw [write, hc]
    exact List.cons_ne_nil c cs
  | string s => exact h.elim

/-- No word starts like a number. -/
theorem number_of_write {v : Value} {x : Binary64} (hv : v.Legible) (hx : x.isNaN = false)
    (h : v.write = style.write x) : ∃ y, v = number y := by
  obtain ⟨c, cs, hc, -, hfirst⟩ := head_write hx
  rw [hc] at h
  cases v with
  | nil =>
    obtain rfl : 'n' = c := (List.cons.inj h).1
    exact absurd hfirst (by decide)
  | bool b =>
    cases b with
    | false =>
      obtain rfl : 'f' = c := (List.cons.inj h).1
      exact absurd hfirst (by decide)
    | true =>
      obtain rfl : 't' = c := (List.cons.inj h).1
      exact absurd hfirst (by decide)
  | number y => exact ⟨y, rfl⟩
  | string s => exact hv.elim

theorem value_injective {v w : Value} (hv : v.Legible) (hw : w.Legible)
    (h : v.write = w.write) : v = w := by
  cases v with
  | number x =>
    obtain ⟨y, rfl⟩ := number_of_write hw hv h.symm
    rw [write_injective hv hw h]
  | string s => exact hv.elim
  | nil =>
    cases w with
    | nil => rfl
    | bool b => cases b <;> exact absurd h (by decide)
    | number y => exact absurd (number_of_write hv hw h) (by simp)
    | string s => exact hw.elim
  | bool a =>
    cases w with
    | nil => cases a <;> exact absurd h (by decide)
    | bool b => cases a <;> cases b <;> first | rfl | exact absurd h (by decide)
    | number y => exact absurd (number_of_write hv hw h) (by simp)
    | string s => exact hw.elim

end Value

/-! ## Expressions with something behind them -/

namespace Expr

theorem grouping_append (e : Expr) (rest : List Char) : (grouping e).write ++ rest =
    '(' :: ("group".toList ++ ' ' :: (e.write ++ ')' :: rest)) := by
  simp [write_grouping]

theorem unary_append (operator : Token) (right : Expr) (rest : List Char) :
    (unary operator right).write ++ rest =
      '(' :: (operator.lexeme ++ ' ' :: (right.write ++ ')' :: rest)) := by
  simp [write_unary]

theorem binary_append (left : Expr) (operator : Token) (right : Expr) (rest : List Char) :
    (binary left operator right).write ++ rest =
      '(' :: (operator.lexeme ++ ' ' :: (left.write ++ ' ' :: (right.write ++ ')' :: rest))) := by
  simp [write_binary]

end Expr

theorem space_notMem_operator : ∀ t ∈ operatorSpellings, ' ' ∉ t := by decide

theorem space_notMem_group : ' ' ∉ "group".toList := by decide

section
variable {as bs rest rest' cs : List Char}

/-- Up to a character that cannot stand inside, the text is determined. -/
theorem inner_cancel (ha : ∀ c ∈ as, isInner c = true) (hb : ∀ c ∈ bs, isInner c = true)
    (hrest : Closing rest) (hrest' : Closing rest') (h : as ++ rest = bs ++ rest') :
    as = bs ∧ rest = rest' := by
  have hfirst := congrArg (List.takeWhile isInner) h
  have hsecond := congrArg (List.dropWhile isInner) h
  rw [takeWhile_of_breaks ha hrest, takeWhile_of_breaks hb hrest'] at hfirst
  rw [dropWhile_of_breaks ha hrest, dropWhile_of_breaks hb hrest'] at hsecond
  exact ⟨hfirst, hsecond⟩

theorem value_ne_compound {v : Value} (hv : v.Legible) : v.write ++ rest ≠ '(' :: cs := by
  intro h
  obtain ⟨c, ds, hc⟩ := List.exists_cons_of_ne_nil (Value.write_ne_nil hv)
  have hinner := Value.inner_write hv c (by simp [hc])
  rw [hc] at h
  obtain rfl : c = '(' := (List.cons.inj h).1
  exact absurd hinner (by decide)

/-- Of two compound expressions the heads are the same, and what stands behind them. -/
theorem head_cancel (ha : ' ' ∉ as) (hb : ' ' ∉ bs)
    (h : '(' :: (as ++ ' ' :: rest) = '(' :: (bs ++ ' ' :: rest')) : as = bs ∧ rest = rest' :=
  split_unique ha hb (List.cons.inj h).2

/-- A grouping has a head of its own. -/
theorem group_ne_operator (ha : as ∈ operatorSpellings) :
    '(' :: ("group".toList ++ ' ' :: rest) ≠ '(' :: (as ++ ' ' :: rest') := by
  intro h
  obtain ⟨rfl, -⟩ := head_cancel space_notMem_group (space_notMem_operator as ha) h
  exact absurd ha (by decide)

end

/-- An expression of the texts that are compared: no strings, no not-a-number, and the operators of
the scanner. -/
def Expr.Readable (e : Expr) : Prop := e.All Value.Legible (·.lexeme ∈ operatorSpellings)

instance (e : Expr) : Decidable e.Readable := inferInstanceAs (Decidable (e.All _ _))

/-- Where a text starts with the expression and with another one, the two are alike, and the same
stands behind them. -/
def Cancels (e : Expr) : Prop := ∀ f : Expr, f.Readable → ∀ rest rest', Closing rest →
  Closing rest' → e.write ++ rest = f.write ++ rest' → e.Alike f ∧ rest = rest'

section
variable {e left right : Expr} {operator : Token}

theorem cancels_literal {v : Value} (hv : v.Legible) : Cancels (.literal v) := by
  intro f hf rest rest' hrest hrest' h
  cases f with
  | literal w =>
    obtain ⟨htext, hsame⟩ :=
      inner_cancel (Value.inner_write hv) (Value.inner_write hf) hrest hrest' h
    exact ⟨Value.value_injective hv hf htext, hsame⟩
  | grouping f => exact absurd (h.trans (f.grouping_append _)) (value_ne_compound hv)
  | unary operator' right' =>
    exact absurd (h.trans (right'.unary_append _ _)) (value_ne_compound hv)
  | binary left' operator' right' =>
    exact absurd (h.trans (left'.binary_append _ _ _)) (value_ne_compound hv)

theorem cancels_grouping (ih : Cancels e) : Cancels (.grouping e) := by
  intro f hf rest rest' hrest hrest' h
  rw [Expr.grouping_append] at h
  cases f with
  | literal w => exact absurd h.symm (value_ne_compound hf)
  | grouping f =>
    rw [Expr.grouping_append] at h
    obtain ⟨-, hbody⟩ := head_cancel space_notMem_group space_notMem_group h
    obtain ⟨halike, htail⟩ :=
      ih f hf _ _ (closing_parenthesis _) (closing_parenthesis _) hbody
    exact ⟨halike, (List.cons.inj htail).2⟩
  | unary operator' right' =>
    rw [Expr.unary_append] at h
    exact absurd h (group_ne_operator hf.1)
  | binary left' operator' right' =>
    rw [Expr.binary_append] at h
    exact absurd h (group_ne_operator hf.1)

theorem cancels_unary (hoperator : operator.lexeme ∈ operatorSpellings) (ih : Cancels right) :
    Cancels (.unary operator right) := by
  intro f hf rest rest' hrest hrest' h
  have hspace := space_notMem_operator _ hoperator
  rw [Expr.unary_append] at h
  cases f with
  | literal w => exact absurd h.symm (value_ne_compound hf)
  | grouping f =>
    rw [Expr.grouping_append] at h
    exact absurd h.symm (group_ne_operator hoperator)
  | unary operator' right' =>
    rw [Expr.unary_append] at h
    obtain ⟨hhead, hbody⟩ := head_cancel hspace (space_notMem_operator _ hf.1) h
    obtain ⟨halike, htail⟩ :=
      ih right' hf.2 _ _ (closing_parenthesis _) (closing_parenthesis _) hbody
    exact ⟨⟨hhead, halike⟩, (List.cons.inj htail).2⟩
  | binary left' operator' right' =>
    -- Behind the one operand the parenthesis is closed, behind the other a space follows.
    rw [Expr.binary_append] at h
    obtain ⟨-, hbody⟩ := head_cancel hspace (space_notMem_operator _ hf.1) h
    obtain ⟨-, htail⟩ := ih left' hf.2.1 _ _ (closing_parenthesis _) (closing_space _) hbody
    exact absurd (List.cons.inj htail).1 (by decide)

theorem cancels_binary (hoperator : operator.lexeme ∈ operatorSpellings) (ihl : Cancels left)
    (ihr : Cancels right) : Cancels (.binary left operator right) := by
  intro f hf rest rest' hrest hrest' h
  have hspace := space_notMem_operator _ hoperator
  rw [Expr.binary_append] at h
  cases f with
  | literal w => exact absurd h.symm (value_ne_compound hf)
  | grouping f =>
    rw [Expr.grouping_append] at h
    exact absurd h.symm (group_ne_operator hoperator)
  | unary operator' right' =>
    rw [Expr.unary_append] at h
    obtain ⟨-, hbody⟩ := head_cancel hspace (space_notMem_operator _ hf.1) h
    obtain ⟨-, htail⟩ := ihl right' hf.2 _ _ (closing_space _) (closing_parenthesis _) hbody
    exact absurd (List.cons.inj htail).1 (by decide)
  | binary left' operator' right' =>
    rw [Expr.binary_append] at h
    obtain ⟨hhead, hbody⟩ := head_cancel hspace (space_notMem_operator _ hf.1) h
    obtain ⟨hleft, hnext⟩ := ihl left' hf.2.1 _ _ (closing_space _) (closing_space _) hbody
    obtain ⟨hright, htail⟩ := ihr right' hf.2.2 _ _ (closing_parenthesis _)
      (closing_parenthesis _) (List.cons.inj hnext).2
    exact ⟨⟨hleft, hhead, hright⟩, (List.cons.inj htail).2⟩

end

theorem cancels_write {e : Expr} (he : e.Readable) : Cancels e := by
  induction e with
  | literal v => exact cancels_literal he
  | grouping e ih => exact cancels_grouping (ih he)
  | unary operator right ih => exact cancels_unary he.1 (ih he.2)
  | binary left operator right ihl ihr =>
    exact cancels_binary he.1 (ihl he.2.1) (ihr he.2.2)

theorem write_of_alike {e f : Expr} (h : e.Alike f) : e.write = f.write := by
  induction e generalizing f with
  | literal v => cases f <;> first | exact congrArg Value.write h | exact h.elim
  | grouping e ih =>
    cases f with
    | grouping f => rw [Expr.write_grouping, Expr.write_grouping, ih h]
    | _ => exact h.elim
  | unary operator right ih =>
    cases f with
    | unary operator' right' => rw [Expr.write_unary, Expr.write_unary, h.1, ih h.2]
    | _ => exact h.elim
  | binary left operator right ihl ihr =>
    cases f with
    | binary left' operator' right' =>
      rw [Expr.write_binary, Expr.write_binary, ihl h.1, h.2.1, ihr h.2.2]
    | _ => exact h.elim

/-- **Unique readability.** Two expressions without strings and not-a-numbers, with operators of the
scanner, have the same text exactly if they have the same shape, the same operator texts and the
same values, numbers being compared by their bits. -/
theorem write_eq_iff {e f : Expr} (he : e.Readable) (hf : f.Readable) :
    e.write = f.write ↔ e.Alike f := by
  constructor
  · intro h
    have hsame : e.write ++ [] = f.write ++ [] := by rw [h]
    exact (cancels_write he f hf [] [] closing_nil closing_nil hsame).1
  · exact write_of_alike

/-- The two zeros, in one order and in the other. -/
theorem write_eq_iff_zeros :
    let zero : Expr := .literal (.number ⟨0⟩)
    let negative : Expr := .literal (.number ⟨0x8000000000000000⟩)
    let minus : Token := { kind := .symbol .minus, lexeme := ['-'] }
    let e : Expr := .binary zero minus (.unary minus negative)
    let f : Expr := .binary negative minus (.unary minus zero)
    e.Readable ∧ f.Readable ∧ (e.write = f.write ↔ e.Alike f) ∧ ¬ e.Alike f := by
  intro zero negative minus e f
  have he : e.Readable := by decide
  have hf : f.Readable := by decide
  refine ⟨he, hf, write_eq_iff he hf, ?_⟩
  intro h
  have hsame : Value.number ⟨0⟩ = Value.number ⟨0x8000000000000000⟩ := h.1
  exact absurd hsame (by decide)

end Lox
