import ScriptFront.Proofs.Expr.Grammar

/-! # The nesting levels that expressions take

Each link of a chain of operators counts as one level on top of the deepest operand of the chain.
A phrase of terminals takes fewer levels than it has terminals. -/

namespace ScriptFront.Expr

/-- The links of the chain that a phrase continues. -/
def Phrase.links {s : Symbol} {w : List Terminal} {e : Expr} : Phrase s w e → Nat
  | .increment d | .decrement d | .call d _ | .element d _ | .member d _ => d.links + 1
  | .operand d => d.links
  | .binary l _ _ _ => l.links + 1
  | _ => 0

mutual

/-- The deepest nesting inside the operands of the chain that a phrase continues. -/
def Phrase.base {s : Symbol} {w : List Terminal} {e : Expr} : Phrase s w e → Nat
  | .literal _ => 0
  | .group d | .leading _ _ d => d.base + d.links + 1
  | .array ds => ds.need
  | .increment d | .decrement d | .member d _ | .operand d => d.base
  | .call d ds => max d.base ds.need
  | .element d di => max d.base (di.base + di.links + 1)
  | .binary l _ _ r => max l.base (r.base + r.links)
  | .primary d | .trailing d | .simple d | .conditional d => d.base + d.links
  | .choice dc dy dn =>
    max (dc.base + dc.links) (max (dy.base + dy.links + 1) (dn.base + dn.links + 1))
  | .assign d _ _ r => max (d.base + d.links) (r.base + r.links)

/-- An expression in a list stands one level deeper. -/
def Items.need {w : List Terminal} {es : List Expr} : Items w es → Nat
  | .nil => 0
  | .single d => d.base + d.links + 1
  | .cons d ds => max (d.base + d.links + 1) ds.need

end

/-- The nesting levels a phrase takes. -/
def Phrase.need {s : Symbol} {w : List Terminal} {e : Expr} (d : Phrase s w e) : Nat :=
  d.base + d.links

/-- The nodes of a phrase that take no level of their own: an assignment and a conditional. -/
def slack : Symbol → Nat
  | .assignment => 2
  | .conditional => 1
  | _ => 0

theorem slack_operand (t : Tier) : slack t.operand = 0 := by
  cases t <;> rfl

mutual

theorem Phrase.need_lt {s : Symbol} {w : List Terminal} {e : Expr} :
    (d : Phrase s w e) → d.need < w.length
  | .literal _ => Nat.zero_lt_succ _
  | .group d | .leading _ _ d => by
    have : d.base + d.links < _ := d.need_lt
    simp only [Phrase.need, Phrase.base, Phrase.links, List.length_cons, List.length_append]
    omega
  | .increment d | .decrement d | .member d _ => by
    have : d.base + d.links < _ := d.need_lt
    simp only [Phrase.need, Phrase.base, Phrase.links, List.length_cons, List.length_append]
    omega
  | .primary d | .trailing d | .operand d | .simple d | .conditional d => d.need_lt
  | .array ds => by
    have := ds.need_le
    simp only [Phrase.need, Phrase.base, Phrase.links, List.length_cons, List.length_append]
    omega
  | .call d ds => by
    have : d.base + d.links < _ := d.need_lt
    have := ds.need_le
    simp only [Phrase.need, Phrase.base, Phrase.links, List.length_cons, List.length_append]
    omega
  | .element d di => by
    have : d.base + d.links < _ := d.need_lt
    have : di.base + di.links < _ := di.need_lt
    simp only [Phrase.need, Phrase.base, Phrase.links, List.length_cons, List.length_append]
    omega
  | .binary l _ _ r | .assign l _ _ r => by
    have : l.base + l.links < _ := l.need_lt
    have : r.base + r.links < _ := r.need_lt
    simp only [Phrase.need, Phrase.base, Phrase.links, List.length_cons, List.length_append]
    omega
  | .choice dc dy dn => by
    have : dc.base + dc.links < _ := dc.need_lt
    have : dy.base + dy.links < _ := dy.need_lt
    have : dn.base + dn.links < _ := dn.need_lt
    simp only [Phrase.need, Phrase.base, Phrase.links, List.length_cons, List.length_append]
    omega

theorem Items.need_le {w : List Terminal} {es : List Expr} :
    (ds : Items w es) → ds.need ≤ w.length
  | .nil => Nat.zero_le _
  | .single d => d.need_lt
  | .cons d ds => by
    have : d.base + d.links < _ := d.need_lt
    have := ds.need_le
    simp only [Items.need, List.length_cons, List.length_append]
    omega

end

end ScriptFront.Expr
