import ScriptFront.Proofs.Expr.Grammar
import ScriptFront.Proofs.Expr.WellFormed
import ScriptFront.Proofs.Number.Nearest
import ScriptFront.Proofs.Token.Legible

/-! # Expressions that are read can be written -/

namespace ScriptFront

open Terminal

/-- Terminals that can be read from a text. -/
def Legible (w : List Terminal) : Prop := ∀ x ∈ w, x.isLegible = true

@[simp] theorem legible_append {v w : List Terminal} :
    Legible (v ++ w) ↔ Legible v ∧ Legible w :=
  List.forall_mem_append

@[simp] theorem legible_cons {x : Terminal} {w : List Terminal} :
    Legible (x :: w) ↔ x.isLegible = true ∧ Legible w :=
  List.forall_mem_cons

namespace Binary32

theorem wellFormed_of_ofDecimal? {d : Decimal} {x : Binary32} (h : ofDecimal? d = some x) :
    x.isFinite = true ∧ x.isNegative = false := by
  simp only [ofDecimal?] at h
  split at h
  · rename_i hlt
    cases h
    exact (ofNat_of_lt_infinite hlt).2
  · cases h

end Binary32

theorem Literal.Denoted.isWellFormed {x : Terminal} {v : Literal} (h : v.Denoted x)
    (hx : x.isLegible = true) : v.isWellFormed = true := by
  cases h with
  | integer h => exact decide_eq_true (Int32.zero_le_ofNat_of_lt h)
  | float h =>
    obtain ⟨hfinite, hsign⟩ := Binary32.wellFormed_of_ofDecimal? h
    simp [Literal.isWellFormed, hfinite, hsign]
  | string | identifier => exact hx
  | kwTrue | kwFalse | kwNull => rfl

namespace Expr

mutual

/-- What legible terminals derive is well-formed. -/
theorem Phrase.isWellFormed {s : Symbol} {w : List Terminal} {e : Expr} :
    Phrase s w e → Legible w → e.isWellFormed = true
  | .literal h, hw => h.isWellFormed (hw _ List.mem_cons_self)
  | .primary d, hw | .trailing d, hw | .operand d, hw | .simple d, hw | .conditional d, hw =>
    d.isWellFormed hw
  | .group d, hw => by
    simp only [legible_cons, legible_append] at hw
    exact d.isWellFormed hw.2.1
  | .array ds, hw => by
    simp only [legible_cons, legible_append] at hw
    exact ds.allWellFormed hw.2.1
  | .increment d, hw | .decrement d, hw => by
    simp only [legible_append] at hw
    exact d.isWellFormed hw.1
  | .call d ds, hw => by
    simp only [legible_cons, legible_append] at hw
    rw [Expr.isWellFormed, d.isWellFormed hw.1, ds.allWellFormed hw.2.2.1]
    rfl
  | .element d di, hw => by
    simp only [legible_cons, legible_append] at hw
    rw [Expr.isWellFormed, d.isWellFormed hw.1, di.isWellFormed hw.2.2.1]
    rfl
  | .member d name, hw => by
    simp only [legible_cons, legible_append] at hw
    have hname : isName name = true := hw.2.2.1
    rw [Expr.isWellFormed, d.isWellFormed hw.1, hname]
    rfl
  | .leading op h d, hw => by
    simp only [legible_cons] at hw
    exact d.isWellFormed hw.2
  | .binary l op h r, hw => by
    simp only [legible_cons, legible_append] at hw
    rw [Expr.isWellFormed, l.isWellFormed hw.1, r.isWellFormed hw.2.2]
    rfl
  | .choice dc dy dn, hw => by
    simp only [legible_cons, legible_append] at hw
    rw [Expr.isWellFormed, dc.isWellFormed hw.1, dy.isWellFormed hw.2.2.1,
      dn.isWellFormed hw.2.2.2.2]
    rfl
  | .assign d op h r, hw => by
    simp only [legible_cons, legible_append] at hw
    rw [Expr.isWellFormed, h, d.isWellFormed hw.1, r.isWellFormed hw.2.2]
    rfl

theorem Items.allWellFormed {w : List Terminal} {es : List Expr} :
    Items w es → Legible w → Expr.allWellFormed es = true
  | .nil, _ => rfl
  | .single d, hw => by
    rw [Expr.allWellFormed, d.isWellFormed hw]
    rfl
  | .cons d ds, hw => by
    simp only [legible_cons, legible_append] at hw
    rw [Expr.allWellFormed, d.isWellFormed hw.1, ds.allWellFormed hw.2.2]
    rfl

end

end Expr

end ScriptFront
