import ScriptFront.Proofs.Rule.Sequence
import ScriptFront.Proofs.Statement.Correct

/-! # Where reading a program fails

It fails at a token of the text, or with the error that ends the tokens. -/

namespace ScriptFront

open Cursor

variable {text : String} {limit : Nat}

theorem tokenize_error_iff {e : LexError} :
    tokenize text = .error e ↔ ∃ n, (ofText text).nth n = .error e :=
  tokensFrom_error_iff

/-- A program that is read is read up to the end. -/
theorem exists_tokens_of_parse {p : Program} (h : parse text limit = .ok p) :
    ∃ ts, tokenize text = .ok ts := by
  obtain ⟨t, d, w, u, hnext, hw, heof, -⟩ := exists_takes_of_parse h
  exact tokensFrom_of_takes hw heof hnext

theorem nth_of_parse_lexical {e : LexError} (h : parse text limit = .error (.lexical e)) :
    ∃ n, (ofText text).nth n = .error e := by
  rcases exists_nth_of_parse_error h with ⟨n, _, he, hn⟩ | ⟨_, _, _, he, -⟩
  · cases he
    exact ⟨n, hn⟩
  · cases he

/-- Reading a program meets the lexical error that reading its tokens meets, or fails before. -/
theorem parse_meets_tokenize_error (text : String) (limit : Nat) :
    (∀ p, parse text limit = .ok p → ∃ ts, tokenize text = .ok ts) ∧
    (∀ e, parse text limit = .error (.lexical e) →
      tokenize text = .error e ∧ e.fault ≠ .lookaheadTooShort) ∧
    ∀ e, tokenize text = .error e → parse text limit = .error (.lexical e) ∨
      ∃ fault t i j, parse text limit = .error (.grammatical fault t.location) ∧ i < j ∧
        (ofText text).nth i = .ok t ∧ (ofText text).nth j = .error e := by
  refine ⟨fun p => exists_tokens_of_parse, ?_, ?_⟩
  · intro e h
    obtain ⟨n, hn⟩ := nth_of_parse_lexical h
    obtain ⟨d, hd⟩ := exists_nth_eq (ofText text) n
    refine ⟨tokenize_error_iff.mpr ⟨n, hn⟩, ?_⟩
    rw [hd] at hn
    exact fault_of_next hn
  · intro e h
    obtain ⟨j, hj⟩ := tokenize_error_iff.mp h
    cases hparse : parse text limit with
    | ok p =>
      obtain ⟨ts, hts⟩ := exists_tokens_of_parse hparse
      rw [h] at hts
      cases hts
    | error e' =>
      rcases exists_nth_of_parse_error hparse with ⟨i, e', rfl, hi⟩ | ⟨i, t, fault, rfl, hi, -⟩
      · have he' := tokenize_error_iff.mpr ⟨i, hi⟩
        rw [h] at he'
        cases he'
        exact .inl rfl
      · refine .inr ⟨fault, t, i, j, rfl, Nat.lt_of_not_le fun hji => ?_, hi, hj⟩
        -- behind an error there is no token any more
        rw [nth_error_of_le hj hji] at hi
        cases hi

/-- An open quotation behind a program, in one that is read so far, and behind a fault. -/
theorem parse_meets_tokenize_error_at_quotation :
    (∃ ts, tokenize "x;" = .ok ts) ∧
    (tokenize "x = 'a" = .error ⟨.unclosedString "a", ⟨1, 7⟩⟩ ∧
      LexFault.unclosedString "a" ≠ .lookaheadTooShort) ∧
    (tokenize "x y 'a" = .error ⟨.unclosedString "a", ⟨1, 7⟩⟩ ∧
      parse "x y 'a" 2 ≠ .error (.lexical ⟨.unclosedString "a", ⟨1, 7⟩⟩) ∧
      ∃ fault t i j, parse "x y 'a" 2 = .error (.grammatical fault t.location) ∧ i < j ∧
        (ofText "x y 'a").nth i = .ok t ∧
        (ofText "x y 'a").nth j = .error ⟨.unclosedString "a", ⟨1, 7⟩⟩) := by
  have hread : ∃ p, parse "x;" 2 = .ok p ∧ p.length = 1 := by decide +kernel
  have hopen : parse "x = 'a" 2 = .error (.lexical ⟨.unclosedString "a", ⟨1, 7⟩⟩) := by
    decide +kernel
  have hother : parse "x y 'a" 2 ≠ .error (.lexical ⟨.unclosedString "a", ⟨1, 7⟩⟩) := by
    decide +kernel
  have htokens : tokenize "x y 'a" = .error ⟨.unclosedString "a", ⟨1, 7⟩⟩ := by
    rw [tokenize, Cursor.tokenize, tokensFrom_of_ne_eof rfl (by decide),
      tokensFrom_of_ne_eof rfl (by decide), tokensFrom_of_error rfl]
    rfl
  obtain ⟨p, hp, -⟩ := hread
  obtain ⟨hok, -, -⟩ := parse_meets_tokenize_error "x;" 2
  obtain ⟨-, hlexical, -⟩ := parse_meets_tokenize_error "x = 'a" 2
  obtain ⟨-, -, hbefore⟩ := parse_meets_tokenize_error "x y 'a" 2
  exact ⟨hok p hp, hlexical _ hopen, htokens, hother, (hbefore _ htokens).resolve_left hother⟩

/-- A fault stands at a token, and tells what that token is. -/
theorem fault_standsAt_of_parse {fault : SyntaxFault} {l : Location}
    (h : parse text limit = .error (.grammatical fault l)) :
    ∃ i t, (ofText text).nth i = .ok t ∧ t.location = l ∧
      (fault = .nestingTooDeep limit ∨ fault.StandsAt ⟨t.kind, t.lexeme⟩) := by
  rcases exists_nth_of_parse_error h with ⟨_, _, he, -⟩ | ⟨i, t, _, he, ht, hfault⟩
  · cases he
  · cases he
    obtain ⟨d, hd⟩ := exists_nth_eq (ofText text) i
    rw [ht] at hd
    rw [terminal_of_next hd.symm] at hfault
    exact ⟨i, t, ht, rfl, hfault⟩

theorem fault_standsAt_of_parse_at_parameter :
    parse "function f(a = 1, b) { }" 2 = .error (.grammatical (.missingDefault "b") ⟨1, 19⟩) ∧
    ∃ i t, (ofText "function f(a = 1, b) { }").nth i = .ok t ∧ t.location = ⟨1, 19⟩ ∧
      (SyntaxFault.missingDefault "b" = .nestingTooDeep 2 ∨
        SyntaxFault.StandsAt (.missingDefault "b") ⟨t.kind, t.lexeme⟩) := by
  have h : parse "function f(a = 1, b) { }" 2 =
      .error (.grammatical (.missingDefault "b") ⟨1, 19⟩) := by
    decide +kernel
  exact ⟨h, fault_standsAt_of_parse h⟩

end ScriptFront
