import ScriptFront.Proofs.Rule.Sequence
import ScriptFront.Proofs.Statement.Correct

/-! # Reading a program does not see the layout

Blanks and comments, the quotes and escapes of a string, and the way a token is spelled leave no
trace: only the kinds of the tokens and what they carry are read. -/

namespace ScriptFront

open Cursor

variable {text text' : String} {ts ts' : List Token}

theorem Token.terminal_congr {t t' : Token} (hk : t.kind = t'.kind) (hl : t.lexeme = t'.lexeme) :
    t.terminal = t'.terminal := by
  rw [terminal, terminal, content, content, hk, hl]

/-- In lists that have the same kinds and lexemes, so have the tokens at one place. -/
theorem same_of_getElem? (h : ts.map (fun t => (t.kind, t.lexeme)) =
      ts'.map fun t => (t.kind, t.lexeme)) {i : Nat} {t t' : Token} (ht : ts[i]? = some t)
    (ht' : ts'[i]? = some t') : t.kind = t'.kind ∧ t.lexeme = t'.lexeme := by
  have hmap := congrArg (·[i]?) h
  simp only [List.getElem?_map, ht, ht', Option.map_some, Option.some.injEq, Prod.mk.injEq] at hmap
  exact hmap

/-- Texts with the same kinds and lexemes hold the same program, or are both wrong in the same way
at the same token. -/
theorem parse_of_same_tokens (h : tokenize text = .ok ts) (h' : tokenize text' = .ok ts')
    (hsame : ts.map (fun t => (t.kind, t.lexeme)) = ts'.map fun t => (t.kind, t.lexeme))
    (limit : Nat) : (∃ p, parse text limit = .ok p ∧ parse text' limit = .ok p) ∨
      ∃ (fault : SyntaxFault) (i : Nat) (t t' : Token), ts[i]? = some t ∧ ts'[i]? = some t' ∧
        parse text limit = .error (.grammatical fault t.location) ∧
        parse text' limit = .error (.grammatical fault t'.location) := by
  have hlength : ts.length = ts'.length := by simpa using congrArg List.length hsame
  have hresembles : (ofText text).Resembles (ofText text') := by
    intro n
    obtain ⟨t, hn, ht⟩ := nth_of_tokenize h n
    obtain ⟨t', hn', ht'⟩ := nth_of_tokenize h' n
    rw [← hlength] at ht'
    obtain ⟨hkind, hlexeme⟩ := same_of_getElem? hsame ht ht'
    rw [hn, hn']
    exact .ok (Token.terminal_congr hkind hlexeme)
  rcases parse_of_resembles hresembles limit with hp | ⟨e, e', he, he', halike⟩
  · exact .inl hp
  · right
    cases halike with
    | @lexical n _ _ hn =>
      obtain ⟨t, hn', -⟩ := nth_of_tokenize h n
      rw [hn] at hn'
      cases hn'
    | @grammatical n t t' fault hn hn' =>
      obtain ⟨u, hu, ht⟩ := nth_of_tokenize h n
      obtain ⟨u', hu', ht'⟩ := nth_of_tokenize h' n
      rw [hn] at hu
      rw [hn'] at hu'
      cases hu
      cases hu'
      rw [← hlength] at ht'
      exact ⟨fault, _, t, t', ht, ht', he, he'⟩

/-- A comment, another quote and the two spellings of operators. -/
theorem parse_of_same_tokens_at_operators : ∃ ts ts' : List Token,
    tokenize "x = 'a' and # b\n not" = .ok ts ∧ tokenize "x=\"a\"&&!" = .ok ts' ∧
    ts.map (fun t => (t.kind, t.lexeme)) = ts'.map (fun t => (t.kind, t.lexeme)) ∧
    parse "x = 'a' and # b\n not" 4 = .error (.grammatical (.expectedExpression .eof) ⟨2, 5⟩) ∧
    ((∃ p, parse "x = 'a' and # b\n not" 4 = .ok p ∧ parse "x=\"a\"&&!" 4 = .ok p) ∨
      ∃ (fault : SyntaxFault) (i : Nat) (t t' : Token), ts[i]? = some t ∧ ts'[i]? = some t' ∧
        parse "x = 'a' and # b\n not" 4 = .error (.grammatical fault t.location) ∧
        parse "x=\"a\"&&!" 4 = .error (.grammatical fault t'.location)) := by
  have h : tokenize "x = 'a' and # b\n not" = .ok [
      ⟨.identifier, some "x", ⟨1, 1⟩⟩, ⟨.assign, none, ⟨1, 3⟩⟩, ⟨.string, some "a", ⟨1, 5⟩⟩,
      ⟨.logAnd, none, ⟨1, 9⟩⟩, ⟨.logNot, none, ⟨2, 2⟩⟩, ⟨.eof, none, ⟨2, 5⟩⟩] := by
    rw [tokenize, Cursor.tokenize]
    iterate 5 rw [tokensFrom_of_ne_eof rfl (by decide)]
    rw [tokensFrom_of_eof rfl rfl]
    exact congrArg Except.ok (by decide +kernel)
  have h' : tokenize "x=\"a\"&&!" = .ok [
      ⟨.identifier, some "x", ⟨1, 1⟩⟩, ⟨.assign, none, ⟨1, 2⟩⟩, ⟨.string, some "a", ⟨1, 3⟩⟩,
      ⟨.logAnd, none, ⟨1, 6⟩⟩, ⟨.logNot, none, ⟨1, 8⟩⟩, ⟨.eof, none, ⟨1, 9⟩⟩] := by
    rw [tokenize, Cursor.tokenize]
    iterate 5 rw [tokensFrom_of_ne_eof rfl (by decide)]
    rw [tokensFrom_of_eof rfl rfl]
    exact congrArg Except.ok (by decide +kernel)
  exact ⟨_, _, h, h', rfl, by decide +kernel, parse_of_same_tokens h h' rfl 4⟩

end ScriptFront
