import ScriptFront.Proofs.Token.Munch

/-! # Tokens end with their line

No token and no comment goes past a line feed, and no token begins with one. So what is read above a
line feed does not depend on what stands below it, and below it reading begins afresh, so many lines
further down. -/

namespace ScriptFront

variable {cs below : List Char}

namespace Quoted

theorem readFrom_append_lineFeed (q : Char) (cs below before : List Char) (width : Nat) :
    readFrom q (cs ++ '\n' :: below) before width = readFrom q cs before width := by
  induction hn : cs.length using Nat.strongRecOn generalizing cs before width with
  | ind _ ih =>
    subst hn
    match cs with
    | [] =>
      rw [List.nil_append, readFrom_of_ne (by decide), if_pos rfl]
      rfl
    | c :: cs =>
      by_cases hc : c = '\\'
      · subst hc
        cases cs with
        | nil => rw [List.cons_append, List.nil_append, readFrom, readFrom, if_pos rfl]
        | cons d cs =>
          rw [List.cons_append, List.cons_append, readFrom, readFrom,
            ih cs.length (by simp only [List.length_cons]; omega) cs _ _ rfl]
      · rw [List.cons_append, readFrom_of_ne hc, readFrom_of_ne hc,
          ih cs.length (Nat.lt_succ_self _) cs _ _ rfl]

end Quoted

theorem takeWhile_append_cons_of_neg {p : Char → Bool} {c : Char} (hc : p c = false) :
    (cs ++ c :: below).takeWhile p = cs.takeWhile p := by
  induction cs with
  | nil => simp [hc]
  | cons d cs ih => simp only [List.cons_append, List.takeWhile_cons, ih]

namespace Scan

theorem isPrefixOf_letters_append_lineFeed (k : TokenKind) (cs below : List Char) :
    k.letters.isPrefixOf (cs ++ '\n' :: below) = k.letters.isPrefixOf cs := by
  have plain (ds : List Char) (hds : '\n' ∉ ds) :
      ds.isPrefixOf (cs ++ '\n' :: below) = ds.isPrefixOf cs := by
    induction ds generalizing cs with
    | nil => simp
    | cons d ds ih =>
      rw [List.mem_cons, not_or] at hds
      cases cs with
      | nil => simp [List.isPrefixOf, Ne.symm hds.1]
      | cons c cs => simp only [List.cons_append, List.isPrefixOf, ih cs hds.2]
  exact plain k.letters (by cases k <;> decide)

theorem symbol?_append_lineFeed (cs below : List Char) :
    symbol? (cs ++ '\n' :: below) = symbol? cs := by
  by_cases h : ∃ ds, cs = '.' :: '.' :: ds
  · obtain ⟨ds, rfl⟩ := h
    cases ds <;> rfl
  · rw [not_exists] at h
    have h' (ds : List Char) : cs ++ '\n' :: below ≠ '.' :: '.' :: ds := by
      intro heq
      rcases cs with _ | ⟨c, _ | ⟨d, cs⟩⟩
      · cases heq
      · cases heq
      · cases heq
        exact h _ rfl
    simp only [symbol?_of_ne h, symbol?_of_ne h', isPrefixOf_letters_append_lineFeed]

end Scan

theorem scan_append_lineFeed (hcs : cs ≠ []) : scan (cs ++ '\n' :: below) = scan cs := by
  cases cs with
  | nil => exact absurd rfl hcs
  | cons c cs =>
    rw [List.cons_append, scan, scan, ← List.cons_append]
    have hnumeral : Scan.numeral (c :: cs ++ '\n' :: below) = Scan.numeral (c :: cs) := by
      unfold Scan.numeral
      rw [takeWhile_append_cons_of_neg (by decide)]
    have hword : Scan.word (c :: cs ++ '\n' :: below) = Scan.word (c :: cs) := by
      unfold Scan.word
      rw [takeWhile_append_cons_of_neg (by decide)]
    have hquotation : Scan.quotation c (cs ++ '\n' :: below) = Scan.quotation c cs := by
      unfold Scan.quotation Quoted.read
      rw [Quoted.readFrom_append_lineFeed]
    rw [hquotation, hnumeral, hword, Scan.symbol?_append_lineFeed]

namespace Location

/-- So many lines further down. -/
def down (n : Nat) (l : Location) : Location := ⟨l.line + n, l.column⟩

theorem next_down (n : Nat) (l : Location) (c : Char) : (l.down n).next c = (l.next c).down n := by
  unfold next down
  split
  · rw [Nat.add_right_comm]
  · rfl

theorem after_down (n : Nat) (l : Location) (cs : List Char) :
    (l.down n).after cs = (l.after cs).down n := by
  induction cs generalizing l with
  | nil => rfl
  | cons c cs ih => rw [after_cons, after_cons, next_down, ih]

theorem line_after (l : Location) (cs : List Char) :
    (l.after cs).line = l.line + cs.count '\n' := by
  induction cs generalizing l with
  | nil => rfl
  | cons c cs ih =>
    rw [after_cons, ih, next, List.count_cons]
    split
    · rename_i hc
      simp only [hc, beq_self_eq_true, if_true]
      omega
    · rename_i hc
      simp [hc]

end Location

def Token.down (n : Nat) (t : Token) : Token := { t with location := t.location.down n }

def LexError.down (n : Nat) (e : LexError) : LexError := { e with location := e.location.down n }

namespace Cursor

variable {c d : Cursor} {t : Token}

def down (n : Nat) (c : Cursor) : Cursor := ⟨c.rest, c.location.down n⟩

/-- With one more line feed and more text behind it. -/
def above (c : Cursor) (below : List Char) : Cursor := ⟨c.rest ++ '\n' :: below, c.location⟩

/-- Behind the whole text. -/
def ending (c : Cursor) : Location := c.location.after c.rest

/-- In front of text that stands below. -/
def under (c : Cursor) (below : List Char) : Cursor := ⟨below, c.ending.next '\n'⟩

theorem ending_skipFrom (comment : Bool) (cs : List Char) (l : Location) :
    (skipFrom comment cs l).ending = l.after cs := by
  induction cs generalizing comment l with
  | nil => rfl
  | cons c cs ih =>
    unfold skipFrom
    split
    · exact ih _ _
    · split
      · exact ih _ _
      · split
        · exact ih _ _
        · rfl

theorem ending_move (c : Cursor) (n : Nat) : (c.move n).ending = c.ending := by
  rw [ending, move, ← Location.after_append, List.take_append_drop, ending]

theorem ending_of_next {r : Except LexError Token} (h : c.next = (r, d)) :
    d.ending = c.ending := by
  have hd : c.next.2 = d := congrArg Prod.snd h
  rw [← hd]
  exact (ending_move _ _).trans (ending_skipFrom _ _ _)

theorem skipFrom_above (comment : Bool) (cs below : List Char) (l : Location) :
    skipFrom comment (cs ++ '\n' :: below) l =
      if (skipFrom comment cs l).rest = [] then skipFrom false below ((l.after cs).next '\n')
      else (skipFrom comment cs l).above below := by
  induction cs generalizing comment l with
  | nil => rfl
  | cons c cs ih =>
    rw [List.cons_append, skipFrom, skipFrom, Location.after_cons]
    split
    · exact ih _ _
    · split
      · exact ih _ _
      · split
        · exact ih _ _
        · rfl

/-- Above a line feed nothing is read differently. -/
theorem next_above (h : c.skip.rest ≠ []) (below : List Char) :
    (c.above below).next = (c.next.1, c.next.2.above below) := by
  have hskip : (c.above below).skip = c.skip.above below :=
    (skipFrom_above _ _ _ _).trans (if_neg h)
  have hwidth := width_scan_le c.skip.rest
  rw [next, hskip]
  simp only [above, scan_append_lineFeed h, move, next, List.take_append_of_le_length hwidth,
    List.drop_append_of_le_length hwidth]

/-- Where nothing is left above, the first token below is read. -/
theorem next_above_of_eq_nil (h : c.skip.rest = []) (below : List Char) :
    (c.above below).next = (c.under below).next := by
  have hskip : (c.above below).skip = (c.under below).skip :=
    (skipFrom_above _ _ _ _).trans (if_pos h)
  rw [next, next, hskip]

theorem skipFrom_down (n : Nat) (comment : Bool) (cs : List Char) (l : Location) :
    skipFrom comment cs (l.down n) = (skipFrom comment cs l).down n := by
  induction cs generalizing comment l with
  | nil => rfl
  | cons c cs ih =>
    rw [skipFrom, skipFrom, Location.next_down]
    split
    · exact ih _ _
    · split
      · exact ih _ _
      · split
        · exact ih _ _
        · rfl

/-- Further down the same tokens are read. -/
theorem next_down (n : Nat) (c : Cursor) : (c.down n).next =
    match c.next with
    | (.ok t, d) => (.ok (t.down n), d.down n)
    | (.error e, d) => (.error (e.down n), d.down n) := by
  have hskip : (c.down n).skip = c.skip.down n := skipFrom_down _ _ _ _
  rw [next, hskip, next]
  simp only [down, move, Location.after_down]
  cases (scan c.skip.rest).outcome <;> rfl

end Cursor

end ScriptFront
