import ScriptFront.Program
import ScriptFront.Proofs.Rule.Takes
import ScriptFront.Token.Stream

/-! # The tokens of a text, taken one by one -/

namespace ScriptFront

namespace Cursor

variable {c d : Cursor} {t : Token} {read ts : List Token}

theorem tokensFrom_of_eof (h : c.next = (.ok t, d)) (ht : t.kind = .eof) :
    c.tokensFrom read = (.ok (t :: read).reverse, d) := by
  rw [tokensFrom]
  split
  · rename_i h'
    rw [h] at h'
    cases h'
  · rename_i h'
    rw [h] at h'
    cases h'
    rw [dif_pos ht]

theorem tokensFrom_of_ne_eof (h : c.next = (.ok t, d)) (ht : t.kind ≠ .eof) :
    c.tokensFrom read = d.tokensFrom (t :: read) := by
  rw [tokensFrom]
  split
  · rename_i h'
    rw [h] at h'
    cases h'
  · rename_i h'
    rw [h] at h'
    cases h'
    rw [dif_neg ht]

theorem tokensFrom_of_error {e : LexError} (h : c.next = (.error e, d)) :
    c.tokensFrom read = (.error e, d) := by
  rw [tokensFrom]
  split
  · rename_i h'
    rw [h] at h'
    cases h'
    rfl
  · rename_i h'
    rw [h] at h'
    cases h'

/-- All tokens up to the end are read one behind the other. -/
theorem takes_of_tokensFrom (h : (c.tokensFrom read).1 = .ok ts) (limit : Nat) :
    ∃ t d vs u, c.next = (.ok t, d) ∧ Takes ⟨d, t, limit, 0, 0⟩ (vs.map Token.terminal) u ∧
      u.current.kind = .eof ∧ ts = read.reverse ++ vs ++ [u.current] := by
  induction hn : c.rest.length using Nat.strongRecOn generalizing c read with
  | ind _ ih =>
    subst hn
    cases hnext : c.next with
    | mk result d =>
      cases result with
      | error e =>
        rw [tokensFrom] at h
        split at h
        · cases h
        · rename_i h'
          rw [hnext] at h'
          cases h'
      | ok t =>
        by_cases ht : t.kind = .eof
        · rw [tokensFrom_of_eof hnext ht] at h
          cases h
          exact ⟨t, d, [], _, rfl, .nil _, ht, by simp⟩
        · rw [tokensFrom_of_ne_eof hnext ht] at h
          obtain ⟨t', d', vs, u, hnext', hu, heof, rfl⟩ := ih _ (length_next_lt hnext ht) h rfl
          exact ⟨t, d, t :: vs, u, rfl, .cons ht hnext' hu, heof, by simp⟩

/-- A reader that comes to the end has met no fault. -/
theorem tokensFrom_of_takes {s u : State} {w : List Terminal} (h : Takes s w u)
    (heof : u.current.kind = .eof) (hnext : c.next = (.ok s.current, s.cursor)) :
    ∃ ts, (c.tokensFrom read).1 = .ok ts := by
  induction h generalizing c read with
  | nil =>
    rw [tokensFrom_of_eof hnext heof]
    exact ⟨_, rfl⟩
  | cons hk hn _ ih =>
    rw [tokensFrom_of_ne_eof hnext hk]
    exact ih heof hn

end Cursor

theorem Takes.eq_of_eof {s u r : State} {v w : List Terminal} (hu : Takes s v u)
    (hr : Takes s w r) (heof : u.current.kind = .eof) (heof' : r.current.kind = .eof) : v = w := by
  induction hu generalizing w with
  | nil =>
    cases hr with
    | nil => rfl
    | cons hk => exact absurd heof hk
  | cons hk hn _ ih =>
    cases hr with
    | nil => exact absurd heof' hk
    | cons _ hm hw =>
      rw [hn] at hm
      cases hm
      rw [ih hw heof]

namespace State

variable {text : String} {t : Token} {d : Cursor}

theorem start?_of_next (h : (Cursor.ofText text).next = (.ok t, d)) {limit : Nat} :
    start? text limit = .ok ⟨d, t, limit, 0, 0⟩ := by
  unfold start?
  rw [h]

theorem parse_of_next (h : (Cursor.ofText text).next = (.ok t, d)) (limit : Nat) :
    parse text limit = (readProgram ⟨d, t, limit, 0, 0⟩).1 := by
  rw [parse, start?_of_next h]
  rfl

theorem parse_of_next_error {e : LexError} (h : (Cursor.ofText text).next = (.error e, d))
    (limit : Nat) : parse text limit = .error (.lexical e) := by
  rw [parse, start?, h]
  rfl

theorem remaining_of_next (h : (Cursor.ofText text).next = (.ok t, d)) (limit : Nat) :
    remaining ⟨d, t, limit, 0, 0⟩ ≤ text.length := by
  have hlength : (Cursor.ofText text).rest.length = text.length := text.length_toList
  rw [← hlength]
  unfold remaining
  split
  · have := (Cursor.ofText text).length_next_le
    rw [h] at this
    exact this
  · rename_i ht
    exact Cursor.length_next_lt h ht

end State

/-- Where a text has tokens up to its end, a reader that starts at it can take them. -/
theorem start_of_tokenize {text : String} {ts : List Token} (h : tokenize text = .ok ts)
    (limit : Nat) : ∃ s u, State.start? text limit = .ok s ∧
      Takes s (ts.dropLast.map Token.terminal) u ∧ u.current.kind = .eof ∧
      s.limit = limit ∧ s.depth = 0 ∧ s.peak = 0 ∧ s.remaining ≤ text.length := by
  obtain ⟨t, d, vs, u, hnext, hu, heof, rfl⟩ := Cursor.takes_of_tokensFrom h limit
  exact ⟨_, u, State.start?_of_next hnext, by simpa using hu, heof, rfl, rfl, rfl,
    State.remaining_of_next hnext limit⟩

end ScriptFront
