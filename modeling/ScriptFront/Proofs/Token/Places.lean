import ScriptFront.Proofs.Token.Lookahead

/-! # The place of a reader

Whatever a reader is asked, its line and column are those of the next character, it never goes back
from one answer to the next, and behind each token but the end it is further on. The end and a
character that begins no token hold it where it is. -/

namespace ScriptFront

theorem scan_unknownCharacter {cs : List Char} {x : Char}
    (h : (scan cs).outcome = .error (.unknownCharacter x)) :
    (scan cs).width = 0 ∧ cs.head? = some x := by
  cases cs with
  | nil => cases h
  | cons c cs =>
    have hstarts := scan_starts c cs
    generalize scan (c :: cs) = found at h hstarts
    cases hstarts with
    | quotation | numeral | word =>
      simp only [Scan.quotation, Scan.numeral, Scan.word] at h
      split at h <;> cases h
    | symbol => cases h
    | nothing =>
      cases h
      exact ⟨rfl, rfl⟩

namespace Cursor

variable {c d : Cursor} {x : Char} {l : Location} {e : LexError} {read : List Token}

theorem skip_skipFrom (comment : Bool) (cs : List Char) (l : Location) :
    (skipFrom comment cs l).skip = skipFrom comment cs l := by
  induction cs generalizing comment l with
  | nil => rfl
  | cons c cs ih =>
    rw [skipFrom]
    by_cases hn : c = '\n'
    · rw [if_pos hn, ih]
    rw [if_neg hn]
    by_cases hc : (comment || c = '#') = true
    · rw [if_pos hc, ih]
    rw [if_neg hc]
    by_cases hb : isBlank c = true
    · rw [if_pos hb, ih]
    rw [if_neg hb]
    apply skipFrom_of_ne _ hb
    rintro rfl
    exact hc (Bool.or_true _)

/-- In front of a character that begins no token reading stays, and so finds it again. -/
theorem next_of_unknownCharacter (h : c.next = (.error ⟨.unknownCharacter x, l⟩, d)) :
    d.rest.head? = some x ∧ d.location = l ∧ d.next = (.error ⟨.unknownCharacter x, l⟩, d) := by
  have hskip : c.skip.skip = c.skip := skip_skipFrom _ _ _
  rw [next] at h
  split at h
  · cases h
  · rename_i hscan
    cases h
    obtain ⟨hwidth, hhead⟩ := scan_unknownCharacter hscan
    have hstay : c.skip.move (scan c.skip.rest).width = c.skip := by rw [hwidth]; rfl
    rw [hstay]
    refine ⟨hhead, rfl, ?_⟩
    rw [next, hskip, hscan, hstay]

/-- The error that ends the tokens of a text is met where reading them ends. -/
theorem exists_next_of_tokensFrom (h : c.tokensFrom read = (.error e, d)) :
    ∃ last : Cursor, last.next = (.error e, d) := by
  fun_induction tokensFrom c read with
  | case1 c read e' d' hnext =>
    cases h
    exact ⟨c, hnext⟩
  | case2 => cases h
  | case3 c read t d' hnext ht _ ih => exact ih h

end Cursor

namespace Reader

variable {r s : Reader} {result : Except LexError Token} {qs : List Request}

/-- The reader after it has answered requests in order. -/
def afterAll (r : Reader) : List Request → Option Reader
  | [] => some r
  | q :: qs => (r.answer q).bind fun step => step.2.afterAll qs

/-- The line and the column are counted from the text behind the reader. -/
structure Placed (r : Reader) : Prop where
  within : r.position ≤ r.text.size
  line_eq : r.line = 1 + (r.text.toList.take r.position).count '\n'
  column_eq : r.column =
    1 + ((r.text.toList.take r.position).reverse.takeWhile fun c => c ≠ '\n').length

/-- The next token is found to be `result`, and whatever is asked leaves the reader where it is. -/
def Holds (r : Reader) (result : Except LexError Token) : Prop :=
  r.next = some (result, r) ∧ ∀ qs, r.afterAll qs = some r

theorem placed_ofText (text : String) : (ofText text).Placed := by
  constructor
  · exact Nat.zero_le _
  · rfl
  · rfl

theorem Placed.advance (h : r.Placed) : r.advance.Placed := by
  cases hrest : r.toCursor.rest with
  | nil => rwa [advance_of_rest_nil hrest]
  | cons c cs =>
    obtain ⟨hwithin, hline, hcolumn⟩ := h
    have hget : r.text.toList[r.position]? = some c := by
      rw [← List.head?_drop]
      exact congrArg List.head? hrest
    have htake : r.text.toList.take (r.position + 1) = r.text.toList.take r.position ++ [c] := by
      rw [List.take_add_one, hget]
      rfl
    have hlt : r.position < r.text.size := by
      have := (List.getElem?_eq_some_iff.mp hget).1
      rwa [Array.length_toList] at this
    rw [advance_of_rest hrest, Location.next]
    by_cases hc : c = '\n'
    · rw [if_pos hc]
      constructor
      · exact hlt
      · dsimp only [location]
        rw [htake, hc, List.count_append, hline]
        rfl
      · dsimp only
        rw [htake, hc, List.reverse_append]
        rfl
    · rw [if_neg hc]
      constructor
      · exact hlt
      · dsimp only [location]
        rw [htake, List.count_append, List.count_singleton, hline]
        simp [hc]
      · dsimp only [location]
        rw [htake, List.reverse_append, hcolumn]
        simp [hc]
        omega

theorem Placed.ahead (h : r.Placed) (n : Nat) : (r.ahead n).Placed := by
  induction n generalizing r with
  | zero => exact h
  | succ n ih => exact ih h.advance

theorem position_le_advance (r : Reader) : r.position ≤ r.advance.position := by
  cases h : r.toCursor.rest with
  | nil =>
    apply Nat.le_of_eq
    rw [advance_of_rest_nil h]
  | cons =>
    rw [advance_of_rest h]
    exact Nat.le_succ _

theorem position_le_ahead (r : Reader) (n : Nat) : r.position ≤ (r.ahead n).position := by
  induction n generalizing r with
  | zero => exact Nat.le_refl _
  | succ n ih => exact Nat.le_trans r.position_le_advance (ih r.advance)

theorem ahead_of_rest_nil (h : r.toCursor.rest = []) (n : Nat) : r.ahead n = r := by
  induction n with
  | zero => rfl
  | succ n ih => rw [ahead_succ, advance_of_rest_nil h, ih]

/-- Where as much of the text is left as before, the reader has not moved. -/
theorem ahead_eq_of_toCursor {n : Nat} (h : (r.ahead n).toCursor = r.toCursor) :
    r.ahead n = r := by
  by_cases hrest : r.toCursor.rest = []
  · exact ahead_of_rest_nil hrest n
  · have hlength := congrArg (List.length ∘ Cursor.rest) h
    simp only [Function.comp_apply, rest_ahead, List.length_drop] at hlength
    have hpos := List.length_pos_iff.mpr hrest
    obtain rfl : n = 0 := by omega
    rfl

theorem next_of_toCursor (h : r.toCursor.next = (result, r.toCursor)) :
    r.next = some (result, r) := by
  obtain ⟨n, hnext, hlast⟩ := r.next_eq
  rw [h] at hnext hlast
  rwa [ahead_eq_of_toCursor hlast] at hnext

/-- A reader that the next token does not move is not moved by anything, be the token the end or an
error. -/
theorem holds_of_next (h : r.next = some (result, r))
    (hresult : ∀ t, result = .ok t → t.kind = .eof) : r.Holds result := by
  have hanswer (q : Request) : ∃ reply, r.answer q = some (reply, r) := by
    cases q with
    | next => exact ⟨_, by rw [answer, h]; rfl⟩
    | look n => exact ⟨_, by rw [answer, look_eq]; rfl⟩
    | tokenize =>
      rw [answer, tokenize, tokensFrom, h]
      cases result with
      | error e => exact ⟨_, rfl⟩
      | ok t =>
        dsimp only
        rw [if_pos (hresult t rfl)]
        exact ⟨_, rfl⟩
  refine ⟨h, ?_⟩
  intro qs
  induction qs with
  | nil => rfl
  | cons q qs ih =>
    obtain ⟨reply, hreply⟩ := hanswer q
    rw [afterAll, hreply]
    exact ih

/-- Any requests have answers, and leave a reader some characters further on. -/
theorem exists_afterAll (r : Reader) (qs : List Request) :
    ∃ n, r.afterAll qs = some (r.ahead n) := by
  induction qs generalizing r with
  | nil => exact ⟨0, rfl⟩
  | cons q qs ih =>
    obtain ⟨m, hanswer, -⟩ := r.answer_eq q
    obtain ⟨n, hn⟩ := ih (r.ahead m)
    refine ⟨m + n, ?_⟩
    rw [afterAll, hanswer, ahead_add]
    exact hn

theorem eq_error_of_map {α β ε : Type} {f : α → β} {result : Except ε α} {e : ε}
    (h : result.map f = .error e) : result = .error e := by
  cases result with
  | error =>
    cases h
    rfl
  | ok => cases h

theorem eq_ok_of_map {result : Except LexError Token} {t : Token}
    (h : result.map Reply.token = .ok (.token t)) : result = .ok t := by
  cases result with
  | error => cases h
  | ok =>
    cases h
    rfl

/-- A reader of a text never goes back over more than it has read, and so answers all that it is
asked. It keeps its place, is never behind where it was, and gets on with every token but the end.
The end and a character that begins no token hold it. -/
theorem placed_afterAll (text : String) (qs : List Request) : ∃ r,
    (ofText text).afterAll qs = some r ∧ r.text.toList = text.toList ∧ r.Placed ∧
    ∀ q, ∃ reply s, r.answer q = some (reply, s) ∧ r.position ≤ s.position ∧
      (∀ t, q = .next → reply = .ok (.token t) →
        if t.kind = .eof then s.Holds (.ok t) else r.position < s.position) ∧
      ∀ c l, q = .next ∨ q = .tokenize → reply = .error ⟨.unknownCharacter c, l⟩ →
        s.peek = some c ∧ s.location = l ∧ s.Holds (.error ⟨.unknownCharacter c, l⟩) := by
  obtain ⟨n, hr⟩ := (ofText text).exists_afterAll qs
  refine ⟨_, hr, ?_, (placed_ofText text).ahead n, ?_⟩
  · rw [text_ahead, ofText]
  generalize (ofText text).ahead n = r
  intro q
  obtain ⟨m, hanswer, hlast⟩ := r.answer_eq q
  refine ⟨_, _, hanswer, r.position_le_ahead m, ?_, ?_⟩
  · rintro t rfl hreply
    have hnext : r.toCursor.next = (.ok t, (r.ahead m).toCursor) :=
      Prod.ext (eq_ok_of_map hreply) hlast.symm
    by_cases ht : t.kind = .eof
    · rw [if_pos ht]
      apply holds_of_next (next_of_toCursor (Cursor.next_of_eof hnext ht))
      rintro u ⟨⟩
      exact ht
    · rw [if_neg ht]
      have hlt := Cursor.length_next_lt hnext ht
      rw [length_rest, length_rest, unread, unread, text_ahead] at hlt
      omega
  · intro c l hq hreply
    obtain ⟨last, hlast'⟩ : ∃ last : Cursor,
        last.next = (.error ⟨.unknownCharacter c, l⟩, (r.ahead m).toCursor) := by
      rcases hq with rfl | rfl
      · exact ⟨r.toCursor, Prod.ext (eq_error_of_map hreply) hlast.symm⟩
      · exact Cursor.exists_next_of_tokensFrom (Prod.ext (eq_error_of_map hreply) hlast.symm)
    obtain ⟨hhead, hl, hnext⟩ := Cursor.next_of_unknownCharacter hlast'
    refine ⟨?_, hl, ?_⟩
    · rw [peek_eq_head?]
      exact hhead
    · apply holds_of_next (next_of_toCursor hnext)
      intro t ht
      cases ht

end Reader

end ScriptFront
