import ScriptFront.Proofs.Rule.Coupling
import ScriptFront.Proofs.Token.Ahead

/-! # Texts with the same tokens ahead

All that reading a program sees of a text are the tokens ahead, one for each number. Where those of
two texts differ in nothing but their places, so do the errors, and an error stands at tokens that
have the same number. -/

namespace ScriptFront

namespace Cursor

/-- The same token but for its place, or an error each. -/
inductive Likened : Except LexError Token → Except LexError Token → Prop where
  | ok {t t' : Token} (h : t.terminal = t'.terminal) : Likened (.ok t) (.ok t')
  | error (e e' : LexError) : Likened (.error e) (.error e')

theorem Likened.refl (r : Except LexError Token) : Likened r r := by
  cases r with
  | error e => exact .error e e
  | ok t => exact .ok rfl

/-- Every two tokens ahead that have the same number are likened. -/
def Resembles (c c' : Cursor) : Prop := ∀ n, Likened (c.nth n) (c'.nth n)

theorem Resembles.refl (c : Cursor) : c.Resembles c := fun _ => .refl _

variable {c c' d d' : Cursor} {t t' : Token} {i : Nat}

/-- Behind likened tokens there are likened tokens. -/
theorem Resembles.next (h : c.Resembles c') (hd : c.Reaches i t d) (hd' : c'.Reaches i t' d') :
    Likened d.next.1 d'.next.1 := by
  have hnext := h (i + 1)
  rw [hd.nth_succ, hd'.nth_succ] at hnext
  exact hnext

end Cursor

open Cursor

/-- Errors that come from the tokens, or the lexical errors, of the same number. -/
inductive ParseError.Alike (c c' : Cursor) (limit : Nat) : ParseError → ParseError → Prop where
  | lexical {i : Nat} {e e' : LexError} (h : c.nth i = .error e) (h' : c'.nth i = .error e') :
    Alike c c' limit (.lexical e) (.lexical e')
  | grammatical {i : Nat} {t t' : Token} {fault : SyntaxFault} (h : c.nth i = .ok t)
    (h' : c'.nth i = .ok t') (hfault : fault = .nestingTooDeep limit ∨ fault.StandsAt t.terminal) :
    Alike c c' limit (.grammatical fault t.location) (.grammatical fault t'.location)

/-- Two readers that have come to tokens of the same number. -/
def Coupling.sequence {c c' : Cursor} (h : c.Resembles c') (limit : Nat) : Coupling where
  limit := limit
  limit' := limit
  Place x l l' := ∃ i t t', c.nth i = .ok t ∧ c'.nth i = .ok t' ∧ t.terminal = x ∧
    t.location = l ∧ t'.location = l'
  Stands d t d' t' := t.terminal = t'.terminal ∧ ∃ i, c.Reaches i t d ∧ c'.Reaches i t' d'
  Left _ _ _ _ := True
  Levels m n := n = m
  Alike := ParseError.Alike c c' limit
  Stops _ := False
  terminal_eq hs := hs.1
  place hs := by
    obtain ⟨-, i, hd, hd'⟩ := hs
    exact ⟨i, _, _, hd.nth_eq, hd'.nth_eq, rfl, rfl, rfl⟩
  left _ := trivial
  next {d d' _ _} hs _ := by
    obtain ⟨-, i, hd, hd'⟩ := hs
    have hlikened := h.next hd hd'
    cases hy : d.next with
    | mk y e =>
      cases hz : d'.next with
      | mk z e' =>
        rw [hy, hz] at hlikened
        cases hlikened with
        | ok hterminal => exact .ok ⟨hterminal, i + 1, hd.next hy, hd'.next hz⟩
        | error =>
          refine .error (.lexical (i := i + 1) ?_ ?_) trivial
          · rw [hd.nth_succ, hy]
          · rw [hd'.nth_succ, hz]
  le := Nat.le_of_eq
  descend h := Nat.succ.inj h
  fault := by
    rintro _ _ _ _ ⟨i, t, t', ht, ht', rfl, rfl, rfl⟩ hfault
    exact .grammatical ht ht' (.inr hfault)
  tooDeep := by
    rintro m n _ _ _ hmn ⟨i, t, t', ht, ht', -, rfl, rfl⟩
    exact .inr ⟨hmn.symm, .grammatical ht ht' (.inl rfl)⟩

/-- Texts with likened tokens ahead are read alike. -/
theorem parse_of_resembles {text text' : String} (h : (ofText text).Resembles (ofText text'))
    (limit : Nat) : (∃ p, parse text limit = .ok p ∧ parse text' limit = .ok p) ∨
      ∃ e e', parse text limit = .error e ∧ parse text' limit = .error e' ∧
        ParseError.Alike (ofText text) (ofText text') limit e e' := by
  have hfirst := h 0
  cases hy : (ofText text).next with
  | mk y d =>
    cases hz : (ofText text').next with
    | mk z d' =>
      rw [nth, nth, hy, hz] at hfirst
      cases hfirst with
      | error e e' =>
        refine .inr ⟨_, _, State.parse_of_next_error hy limit, State.parse_of_next_error hz limit,
          .lexical (i := 0) ?_ ?_⟩
        · exact congrArg Prod.fst hy
        · exact congrArg Prod.fst hz
      | @ok t t' hterminal =>
        have hstart : (Coupling.sequence h limit).Coupled false limit limit ⟨d, t, limit, 0, 0⟩
            ⟨d', t', limit, 0, 0⟩ := by
          apply Coupling.Coupled.start
          · exact ⟨hterminal, 0, .first hy, .first hz⟩
          · rfl
        rw [State.parse_of_next hy, State.parse_of_next hz]
        rcases Coupling.readProgram _ hstart with
          ⟨p, _, _, hp, hp', -⟩ | ⟨e, e', _, _, he, he', halike, -⟩ | ⟨_, -, hstops⟩
        · rw [hp, hp']
          exact .inl ⟨p, rfl, rfl⟩
        · rw [he, he']
          exact .inr ⟨e, e', rfl, rfl, halike⟩
        · exact hstops.elim

/-- Where a text cannot be read, a lexical error is ahead or a token is at fault. -/
theorem exists_nth_of_parse_error {text : String} {limit : Nat} {e : ParseError}
    (h : parse text limit = .error e) :
    (∃ i e', e = .lexical e' ∧ (ofText text).nth i = .error e') ∨
      ∃ i t fault, e = .grammatical fault t.location ∧ (ofText text).nth i = .ok t ∧
        (fault = .nestingTooDeep limit ∨ fault.StandsAt t.terminal) := by
  rcases parse_of_resembles (.refl (ofText text)) limit with ⟨p, hp, -⟩ | ⟨e₁, e₂, he, -, halike⟩
  · rw [h] at hp
    cases hp
  · rw [h] at he
    cases halike with
    | lexical hi =>
      cases he
      exact .inl ⟨_, _, rfl, hi⟩
    | grammatical hi _ hfault =>
      cases he
      exact .inr ⟨_, _, _, rfl, hi, hfault⟩

end ScriptFront
