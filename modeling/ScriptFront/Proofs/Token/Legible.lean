import ScriptFront.Proofs.Token.Munch

/-! # What tokens carry

A name that is read is not reserved, and no string that is read has a line feed. -/

namespace ScriptFront

/-- Whether a terminal carries what a token of its kind can carry. -/
def Terminal.isLegible (x : Terminal) : Bool :=
  match x.kind with
  | .identifier => isName x.content
  | .string => !x.content.toList.contains '\n'
  | _ => true

theorem Terminal.isLegible_of_kind {x : Terminal} (hi : x.kind ≠ .identifier)
    (hs : x.kind ≠ .string) : x.isLegible = true := by
  unfold isLegible
  split <;> first | rfl | contradiction

theorem Writing.isLegible {x : Terminal} {a : List Char} (h : Writing x a) :
    x.isLegible = true := by
  have symbols : ∀ k ∈ TokenKind.symbols, k ≠ .identifier ∧ k ≠ .string := by decide
  have keywords : ∀ p ∈ TokenKind.keywords, p.2 ≠ .identifier ∧ p.2 ≠ .string := by decide
  have plain {s : String} (hs : '\n' ∉ s.toList) :
      (Terminal.carrying .string s).isLegible = true := by
    rw [Terminal.isLegible, Terminal.content_carrying]
    simpa using hs
  cases h with
  | quotation _ ha => exact plain ha.lineFeed_not_mem
  | spelling h =>
    cases h with
    | symbol hk =>
      obtain ⟨hi, hs⟩ := symbols _ hk
      exact Terminal.isLegible_of_kind hi hs
    | keyword hk =>
      obtain ⟨hi, hs⟩ := keywords _ (TokenKind.mem_keywords_of_ofKeyword? hk)
      exact Terminal.isLegible_of_kind hi hs
    | name hs => exact hs
    | integer | float => rfl
    | string hs => exact plain hs

/-- A token that is read carries what its kind can carry. -/
theorem Cursor.legible_of_next {c d : Cursor} {t : Token} (h : c.next = (.ok t, d)) :
    t.terminal.isLegible = true := by
  rcases next_cases h with ⟨-, rfl, -⟩ | ⟨x, a, hx, rfl, -⟩
  · rfl
  · rw [hx.terminal_eq]
    exact hx.isLegible

/-- So do all tokens that are taken. -/
theorem Takes.legible {s u : State} {w : List Terminal} (h : Takes s w u)
    (hs : s.current.terminal.isLegible = true) : ∀ x ∈ w, x.isLegible = true := by
  induction h with
  | nil => simp
  | cons hk hn _ ih =>
    intro x hx
    rcases List.mem_cons.mp hx with rfl | hx
    · exact hs
    · exact ih (Cursor.legible_of_next hn) x hx

end ScriptFront
