import Mathlib.Data.Nat.Find
import ScriptFront.Proofs.Rule.Coupling
import ScriptFront.Proofs.Rule.Room
import ScriptFront.Proofs.Rule.Tokens

/-! # The limit decides only whether a text nests too deep

With more levels a reader goes on as with fewer, up to where the nesting is too deep for the fewer.
With a level for each token it is too deep nowhere. -/

namespace ScriptFront

variable {text : String} {limit limit' : Nat}

/-- One text read with two limits. -/
def Coupling.limits (limit limit' : Nat) : Coupling where
  limit := limit
  limit' := limit'
  Place _ := Eq
  Stands c t c' t' := c = c' ∧ t = t'
  Left _ _ _ _ := True
  Levels m n := n ≤ m
  Alike := Eq
  Stops e := ∃ l, e = .grammatical (.nestingTooDeep limit') l
  terminal_eq := Token.terminal_of_same
  place := Token.location_of_same
  left _ := trivial
  next {c _ _ _} h _ := by
    obtain ⟨rfl, rfl⟩ := h
    obtain ⟨e | t, d⟩ := c.next
    · exact .error rfl trivial
    · exact .ok ⟨rfl, rfl⟩
  le h := h
  descend h := Nat.le_of_succ_le_succ h
  fault := @ParseError.fault_eq
  tooDeep _ _ := .inl ⟨_, rfl⟩

/-- A text nests too deep for a limit. -/
def NestsTooDeep (text : String) (limit : Nat) : Prop :=
  ∃ l, parse text limit = .error (.grammatical (.nestingTooDeep limit) l)

theorem parse_eq_of_le (h : limit' ≤ limit) (hdeep : ¬ NestsTooDeep text limit') :
    parse text limit = parse text limit' := by
  cases hnext : (Cursor.ofText text).next with
  | mk r d =>
    cases r with
    | error e => rw [State.parse_of_next_error hnext, State.parse_of_next_error hnext]
    | ok t =>
      have hstart : (Coupling.limits limit limit').Coupled false limit limit' ⟨d, t, limit, 0, 0⟩
          ⟨d, t, limit', 0, 0⟩ := by
        apply Coupling.Coupled.start
        · exact ⟨rfl, rfl⟩
        · exact h
      rw [State.parse_of_next hnext, State.parse_of_next hnext]
      rcases Coupling.readProgram _ hstart with
        ⟨p, _, _, hp, hp', -⟩ | ⟨e, _, _, _, he, he', rfl, -⟩ | ⟨_, he, l, rfl⟩
      · rw [hp, hp']
      · rw [he, he']
      · rw [← State.parse_of_next hnext] at he
        exact absurd ⟨l, he⟩ hdeep

/-- With one level more than a text has characters, no nesting is too deep. -/
theorem isShallow_of_parse (h : text.length + 1 ≤ limit) {e : ParseError}
    (he : parse text limit = .error e) : e.IsShallow := by
  cases hnext : (Cursor.ofText text).next with
  | mk r d =>
    cases r with
    | error e' =>
      rw [State.parse_of_next_error hnext] at he
      cases he
      exact ParseError.isShallow_lexical e'
    | ok t =>
      have hremaining := State.remaining_of_next hnext limit
      have hprogram := Rule.Congruence.program (R := Rule.roomy) limit limit t.terminal rfl
        ⟨d, t, limit, 0, 0⟩ rfl (Nat.zero_add _).symm (by omega)
      rw [State.parse_of_next hnext, State.readProgram] at he
      split at he
      · cases he
      · rename_i hs
        rw [hs] at hprogram
        cases he
        exact hprogram

open Classical in
/-- From some limit on a text is read in one way, and below it nests too deep. -/
theorem exists_threshold (text : String) :
    ∃ (threshold : Nat) (outcome : Except ParseError Program), threshold ≤ text.length + 1 ∧
      (∀ limit l, outcome ≠ .error (.grammatical (.nestingTooDeep limit) l)) ∧
      (∀ limit, threshold ≤ limit → parse text limit = outcome) ∧
      ∀ limit, limit < threshold → NestsTooDeep text limit := by
  have hlast : ¬ NestsTooDeep text (text.length + 1) := by
    rintro ⟨l, hl⟩
    exact isShallow_of_parse (Nat.le_refl _) hl _ l rfl
  have hex : ∃ limit, ¬ NestsTooDeep text limit := ⟨_, hlast⟩
  have hle : Nat.find hex ≤ text.length + 1 := Nat.find_min' hex hlast
  have hfrom (limit : Nat) (h : Nat.find hex ≤ limit) :
      parse text limit = parse text (Nat.find hex) :=
    parse_eq_of_le h (Nat.find_spec hex)
  refine ⟨Nat.find hex, parse text (Nat.find hex), hle, ?_, hfrom, ?_⟩
  · intro limit l hl
    rw [← hfrom _ hle] at hl
    exact isShallow_of_parse (Nat.le_refl _) hl limit l rfl
  · intro limit h
    exact Classical.not_not.mp (Nat.find_min hex h)

end ScriptFront
