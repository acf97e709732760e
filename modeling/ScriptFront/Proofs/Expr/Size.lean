import ScriptFront.Proofs.Expr.Grammar

/-! # The size of expressions

Each node of an expression has a token of its own. -/

namespace ScriptFront.Expr

mutual

/-- The number of nodes. -/
def size : Expr → Nat
  | literal _ => 1
  | unary _ operand => operand.size + 1
  | binary _ left right => left.size + right.size + 1
  | assign _ target value => target.size + value.size + 1
  | conditional condition yes no => condition.size + yes.size + no.size + 1
  | call callee arguments => callee.size + sizes arguments + 1
  | element collection index => collection.size + index.size + 1
  | member object _ => object.size + 1
  | array items => sizes items + 1

def sizes : List Expr → Nat
  | [] => 0
  | e :: es => e.size + sizes es

end

theorem size_eq (e : Expr) : e.size = sizes e.children + 1 := by
  cases e <;> simp only [size, children, sizes] <;> omega

mutual

theorem Phrase.size_le {s : Symbol} {w : List Terminal} {e : Expr} :
    Phrase s w e → e.size ≤ w.length
  | .literal _ => Nat.le_refl _
  | .primary d | .trailing d | .operand d | .simple d | .conditional d => d.size_le
  | .group d => by
    have := d.size_le
    simp only [List.length_cons, List.length_append, List.length_nil]
    omega
  | .array ds => by
    have := ds.sizes_le
    simp only [size, List.length_cons, List.length_append, List.length_nil]
    omega
  | .increment d | .decrement d | .member d _ | .leading _ _ d => by
    have := d.size_le
    simp only [size, List.length_cons, List.length_append, List.length_nil]
    omega
  | .call d ds => by
    have := d.size_le
    have := ds.sizes_le
    simp only [size, List.length_cons, List.length_append, List.length_nil]
    omega
  | .element d di => by
    have := d.size_le
    have := di.size_le
    simp only [size, List.length_cons, List.length_append, List.length_nil]
    omega
  | .binary l _ _ r | .assign l _ _ r => by
    have := l.size_le
    have := r.size_le
    simp only [size, List.length_cons, List.length_append]
    omega
  | .choice dc dy dn => by
    have := dc.size_le
    have := dy.size_le
    have := dn.size_le
    simp only [size, List.length_cons, List.length_append]
    omega

theorem Items.sizes_le {w : List Terminal} {es : List Expr} : Items w es → sizes es ≤ w.length
  | .nil => Nat.le_refl _
  | .single d => d.size_le
  | .cons d ds => by
    have := d.size_le
    have := ds.sizes_le
    simp only [sizes, List.length_cons, List.length_append] at *
    omega

end

end ScriptFront.Expr
