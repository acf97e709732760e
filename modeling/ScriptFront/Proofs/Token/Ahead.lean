import ScriptFront.Proofs.Rule.Tokens
import ScriptFront.Proofs.Token.Lines

/-! # The tokens ahead

Ahead of a cursor there is one token for each number, up to the first error. At the end the same
token is found again and again, and so is an error. -/

namespace ScriptFront

namespace Scan

/-- A token carries a text where its kind asks for one, and no fault is about looking ahead. -/
def IsRegular (found : Scan) : Prop :=
  match found.outcome with
  | .ok (kind, lexeme) => lexeme.isSome = kind.hasLexeme
  | .error fault => fault ≠ .lookaheadTooShort

end Scan

theorem scan_isRegular (cs : List Char) : (scan cs).IsRegular := by
  cases cs with
  | nil => rfl
  | cons c cs =>
    unfold Scan.IsRegular
    split
    · rename_i hok
      exact (writing_of_scan hok).isSome_lexeme
    · rename_i herror
      have hstarts := scan_starts c cs
      generalize scan (c :: cs) = found at herror hstarts
      cases hstarts with
      | quotation | numeral | word =>
        rintro rfl
        simp only [Scan.quotation, Scan.numeral, Scan.word] at herror
        split at herror <;> cases herror
      | symbol => cases herror
      | nothing =>
        cases herror
        exact LexFault.noConfusion

namespace Cursor

/-- The token ahead that has this number, and the cursor behind it. -/
inductive Reaches (c : Cursor) : Nat → Token → Cursor → Prop where
  | first {t : Token} {d : Cursor} (h : c.next = (.ok t, d)) : Reaches c 0 t d
  | next {i : Nat} {t u : Token} {d d' : Cursor} (h : Reaches c i t d)
    (hnext : d.next = (.ok u, d')) : Reaches c (i + 1) u d'

variable {c d : Cursor} {t : Token} {e : LexError} {i j : Nat} {read ts : List Token}

/-- A token that is read has nothing besides its place that its terminal lacks. -/
theorem terminal_of_next (h : c.next.1 = .ok t) : t.terminal = ⟨t.kind, t.lexeme⟩ := by
  have hregular := scan_isRegular c.skip.rest
  unfold next at h
  unfold Scan.IsRegular at hregular
  dsimp only at h
  split at h
  · rename_i k o hscan
    rw [hscan] at hregular
    cases h
    cases o with
    | none => exact Token.terminal_eq_fixed hregular.symm
    | some => exact Token.terminal_eq_carrying hregular.symm
  · cases h

theorem fault_of_next (h : c.next.1 = .error e) : e.fault ≠ .lookaheadTooShort := by
  have hregular := scan_isRegular c.skip.rest
  unfold next at h
  unfold Scan.IsRegular at hregular
  dsimp only at h
  split at h
  · cases h
  · rename_i fault hscan
    rw [hscan] at hregular
    cases h
    exact hregular

/-- At the end nothing more is read. -/
theorem next_of_eof (h : c.next = (.ok t, d)) (ht : t.kind = .eof) : d.next = (.ok t, d) := by
  have hrest := rest_skip_eq_nil h ht
  simp only [next, hrest, scan, Prod.mk.injEq, Except.ok.injEq] at h
  obtain ⟨rfl, rfl⟩ := h
  rw [move, hrest]
  rfl

theorem nth_succ (h : c.next = (.ok t, d)) (n : Nat) : c.nth (n + 1) = d.nth n := by
  rw [nth, h]

theorem nth_of_eof (h : c.next = (.ok t, d)) (ht : t.kind = .eof) (n : Nat) : c.nth n = .ok t := by
  induction n generalizing c with
  | zero => exact congrArg Prod.fst h
  | succ n ih => rw [nth_succ h, ih (next_of_eof h ht)]

theorem nth_of_error (h : c.next = (.error e, d)) (n : Nat) : c.nth n = .error e := by
  cases n with
  | zero => exact congrArg Prod.fst h
  | succ => rw [nth, h]

theorem nth_error_of_le (h : c.nth i = .error e) (hij : i ≤ j) : c.nth j = .error e := by
  induction i generalizing c j with
  | zero => exact nth_of_error (d := c.next.2) (Prod.ext h rfl) j
  | succ i ih =>
    obtain ⟨j, rfl⟩ : ∃ k, j = k + 1 := ⟨j - 1, by omega⟩
    cases hnext : c.next with
    | mk r d =>
      cases r with
      | error e' =>
        rw [nth_of_error hnext] at h ⊢
        exact h
      | ok t =>
        rw [nth_succ hnext] at h ⊢
        exact ih h (Nat.le_of_succ_le_succ hij)

/-- Each token ahead, and so the error, is the next one of some cursor. -/
theorem exists_nth_eq (c : Cursor) (n : Nat) : ∃ d : Cursor, c.nth n = d.next.1 := by
  induction n generalizing c with
  | zero => exact ⟨c, rfl⟩
  | succ n ih =>
    cases hnext : c.next with
    | mk r d =>
      cases r with
      | error e => exact ⟨c, by rw [nth_of_error hnext, hnext]⟩
      | ok t =>
        rw [nth_succ hnext]
        exact ih d

theorem Reaches.nth_add (h : c.Reaches i t d) (n : Nat) : c.nth (i + 1 + n) = d.nth n := by
  induction h generalizing n with
  | first h => rw [Nat.zero_add, Nat.add_comm, nth_succ h]
  | next _ hnext ih => rw [Nat.add_assoc, Nat.add_comm 1 n, ih, nth_succ hnext]

theorem Reaches.nth_eq (h : c.Reaches i t d) : c.nth i = .ok t := by
  cases h with
  | first h => exact congrArg Prod.fst h
  | next h hnext =>
    rw [← Nat.add_zero (_ + 1), h.nth_add]
    exact congrArg Prod.fst hnext

theorem Reaches.nth_succ (h : c.Reaches i t d) : c.nth (i + 1) = d.next.1 := by
  rw [← Nat.add_zero (i + 1), h.nth_add, nth]

/-- The tokens of a text are those ahead of its beginning, the last one again and again. -/
theorem nth_of_tokensFrom (h : (c.tokensFrom read).1 = .ok ts) :
    ∃ us u, ts = read.reverse ++ us ++ [u] ∧ ∀ n, c.nth n = .ok (us.getD n u) := by
  fun_induction tokensFrom c read with
  | case1 => cases h
  | case2 c read t d hnext ht =>
    cases h
    exact ⟨[], t, by simp, nth_of_eof hnext ht⟩
  | case3 c read t d hnext _ _ ih =>
    obtain ⟨us, u, rfl, hnth⟩ := ih h
    refine ⟨t :: us, u, by simp, fun n => ?_⟩
    cases n with
    | zero => exact congrArg Prod.fst hnext
    | succ n => rw [nth_succ hnext, hnth, List.getD_cons_succ]

/-- The last token of a text stands for all behind it. -/
theorem nth_of_tokenize (h : c.tokenize.1 = .ok ts) (n : Nat) :
    ∃ t, c.nth n = .ok t ∧ ts[min n (ts.length - 1)]? = some t := by
  obtain ⟨us, u, rfl, hnth⟩ := nth_of_tokensFrom h
  refine ⟨_, hnth n, ?_⟩
  rw [List.reverse_nil, List.nil_append, List.length_append, List.length_singleton,
    Nat.add_sub_cancel]
  by_cases hn : n < us.length
  · rw [Nat.min_eq_left (Nat.le_of_lt hn), List.getElem?_append_left hn,
      List.getD_eq_getElem?_getD, List.getElem?_eq_getElem hn, Option.getD_some]
  · have hn := Nat.le_of_not_lt hn
    rw [Nat.min_eq_right hn, List.getElem?_concat_length, List.getD_eq_getElem?_getD,
      List.getElem?_eq_none hn, Option.getD_none]

/-- The tokens of a text cannot be had where an error is ahead. -/
theorem tokensFrom_error_iff :
    (c.tokensFrom read).1 = .error e ↔ ∃ n, c.nth n = .error e := by
  constructor
  · intro h
    fun_induction tokensFrom c read with
    | case1 c read e d hnext =>
      cases h
      exact ⟨0, congrArg Prod.fst hnext⟩
    | case2 => cases h
    | case3 c read t d hnext _ _ ih =>
      obtain ⟨n, hn⟩ := ih h
      exact ⟨n + 1, by rw [nth_succ hnext, hn]⟩
  · rintro ⟨n, hn⟩
    fun_induction tokensFrom c read generalizing n with
    | case1 c read e' d hnext =>
      rw [nth_of_error hnext] at hn
      cases hn
      rfl
    | case2 c read t d hnext ht =>
      rw [nth_of_eof hnext ht] at hn
      cases hn
    | case3 c read t d hnext _ _ ih =>
      cases n with
      | zero =>
        rw [nth, hnext] at hn
        cases hn
      | succ n =>
        rw [nth_succ hnext] at hn
        exact ih n hn

end Cursor

end ScriptFront
