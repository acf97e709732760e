import ScriptFront.Token.Cursor

/-! # Reading makes progress

A token other than the end takes at least one character, so the unread text gets shorter. -/

namespace ScriptFront

theorem Scan.symbol?_width_pos {cs : List Char} {kind : TokenKind} {width : Nat}
    (h : Scan.symbol? cs = some (kind, width)) : 0 < width := by
  have table : ∀ k ∈ TokenKind.symbols, 0 < (k.spelling.getD "").toList.length := by decide
  unfold Scan.symbol? at h
  split at h
  · split at h
    · cases h; decide
    · cases h
  · obtain ⟨k, hk, hf⟩ := List.exists_of_findSome?_eq_some h
    simp only at hf
    split at hf
    · cases hf; exact table _ hk
    · cases hf

theorem length_takeWhile_cons_pos {α : Type} {p : α → Bool} {a : α} {as : List α} (h : p a = true) :
    0 < ((a :: as).takeWhile p).length := by
  simp [h]

theorem scan_width_pos {c : Char} {cs : List Char} {found : TokenKind × Option String}
    (h : (scan (c :: cs)).outcome = .ok found) : 0 < (scan (c :: cs)).width := by
  simp only [scan] at h ⊢
  split
  · simp [Scan.quotation]
  · rename_i hq
    rw [if_neg hq] at h
    split
    · rename_i hd
      exact length_takeWhile_cons_pos (by simp [isNumeralChar, hd])
    · rename_i hd
      rw [if_neg hd] at h
      split
      · rename_i hw
        refine length_takeWhile_cons_pos ?_
        simp only [isWordStart, isWordRest, Bool.or_eq_true, Char.isAlphanum] at hw ⊢
        exact hw.imp_left Or.inl
      · rename_i hw
        rw [if_neg hw] at h
        cases hs : Scan.symbol? (c :: cs) with
        | none => rw [hs] at h; cases h
        | some found => exact Scan.symbol?_width_pos hs

namespace Cursor

theorem length_skipFrom_le (comment : Bool) (cs : List Char) (l : Location) :
    (skipFrom comment cs l).rest.length ≤ cs.length := by
  induction cs generalizing comment l with
  | nil => simp [skipFrom]
  | cons c cs ih =>
    unfold skipFrom
    split
    · exact Nat.le_succ_of_le (ih _ _)
    · split
      · exact Nat.le_succ_of_le (ih _ _)
      · split
        · exact Nat.le_succ_of_le (ih _ _)
        · exact Nat.le_refl _

theorem length_skip_le (c : Cursor) : c.skip.rest.length ≤ c.rest.length :=
  length_skipFrom_le _ _ _

theorem length_next_le (c : Cursor) : c.next.2.rest.length ≤ c.rest.length := by
  have := c.length_skip_le
  simp only [next, move, List.length_drop]
  omega

theorem length_next_lt {c d : Cursor} {t : Token} (h : c.next = (.ok t, d)) (ht : t.kind ≠ .eof) :
    d.rest.length < c.rest.length := by
  have hskip := c.length_skip_le
  simp only [next, Prod.mk.injEq] at h
  obtain ⟨hout, rfl⟩ := h
  simp only [move, List.length_drop]
  cases hrest : c.skip.rest with
  | nil =>
    rw [hrest] at hout
    simp only [scan, Except.ok.injEq] at hout
    subst hout
    exact absurd rfl ht
  | cons x xs =>
    have hpos : 0 < (scan (x :: xs)).width := by
      rw [hrest] at hout
      cases hf : (scan (x :: xs)).outcome with
      | error e => rw [hf] at hout; cases hout
      | ok found => exact scan_width_pos hf
    rw [hrest] at hskip
    simp only [List.length_cons] at hskip ⊢
    omega

end Cursor

end ScriptFront
