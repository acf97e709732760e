import ScriptFront.Proofs.Expr.Nesting

/-! # The height of expressions

A level of nesting lets a tree grow by three: an assignment and a conditional add a node each
without a level of their own. -/

namespace ScriptFront.Expr

mutual

/-- The number of edges on the longest path down through the parts. -/
def height : Expr → Nat
  | literal _ => 0
  | unary _ operand => operand.height + 1
  | binary _ left right => max left.height right.height + 1
  | assign _ target value => max target.height value.height + 1
  | conditional condition yes no => max condition.height (max yes.height no.height) + 1
  | call callee arguments => max (callee.height + 1) (heightAbove arguments)
  | element collection index => max collection.height index.height + 1
  | member object _ => object.height + 1
  | array items => heightAbove items

/-- The height above a list of parts. -/
def heightAbove : List Expr → Nat
  | [] => 0
  | e :: es => max (e.height + 1) (heightAbove es)

end

theorem height_eq (e : Expr) : e.height = heightAbove e.children := by
  cases e <;> simp only [height, children, heightAbove] <;> omega

mutual

theorem Phrase.height_le {s : Symbol} {w : List Terminal} {e : Expr} :
    (d : Phrase s w e) → e.height ≤ 3 * d.need + slack s
  | .literal _ => Nat.zero_le _
  | .group d => by
    have := d.height_le
    simp only [Phrase.need, Phrase.base, Phrase.links, slack] at this ⊢
    omega
  | .array ds => by
    have := ds.heightAbove_le
    simp only [Phrase.need, Phrase.base, Phrase.links, slack, height]
    omega
  | .increment d | .decrement d | .member d _ | .leading _ _ d => by
    have := d.height_le
    simp only [Phrase.need, Phrase.base, Phrase.links, slack, height] at this ⊢
    omega
  | .operand d => by
    have := d.height_le
    rw [slack_operand] at this
    exact this
  | .primary d | .trailing d | .simple d | .conditional d => by
    have := d.height_le
    simp only [Phrase.need, Phrase.base, Phrase.links, slack] at this ⊢
    omega
  | .call d ds => by
    have := d.height_le
    have := ds.heightAbove_le
    simp only [Phrase.need, Phrase.base, Phrase.links, slack, height] at *
    omega
  | .element d di => by
    have := d.height_le
    have := di.height_le
    simp only [Phrase.need, Phrase.base, Phrase.links, slack, height] at *
    omega
  | .binary l _ _ r => by
    have := l.height_le
    have := r.height_le
    rw [slack_operand] at this
    simp only [Phrase.need, Phrase.base, Phrase.links, slack, height] at *
    omega
  | .assign l _ _ r => by
    have := l.height_le
    have := r.height_le
    simp only [Phrase.need, Phrase.base, Phrase.links, slack, height] at *
    omega
  | .choice dc dy dn => by
    have := dc.height_le
    have := dy.height_le
    have := dn.height_le
    simp only [Phrase.need, Phrase.base, Phrase.links, slack, height] at *
    omega

theorem Items.heightAbove_le {w : List Terminal} {es : List Expr} :
    (ds : Items w es) → heightAbove es ≤ 3 * ds.need
  | .nil => Nat.le_refl _
  | .single d => by
    have := d.height_le
    simp only [Items.need, Phrase.need, slack, heightAbove] at *
    omega
  | .cons d ds => by
    have := d.height_le
    have := ds.heightAbove_le
    rw [heightAbove]
    simp only [Items.need, Phrase.need, slack] at *
    omega

end

end ScriptFront.Expr
