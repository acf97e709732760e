import ScriptFront.Proofs.Token.Counting

/-! # Reading a quotation

What is read behind a quote is the longest sequence of units there. What stands behind the sequence
decides between a string, a quotation that does not close and a backslash with nothing to escape. -/

namespace ScriptFront

namespace Quoted

/-- `a` is the longest sequence of units that `cs` begins with; it says `s`, and `rest` is left. -/
structure Longest (q : Char) (cs a s rest : List Char) : Prop where
  split : cs = a ++ rest
  units : Units q a s
  length_le : ∀ b t, Units q b t → b <+: cs → b.length ≤ a.length

/-- Reading takes the longest sequence of units, and ends as the text behind it says. -/
theorem exists_longest (q : Char) (cs : List Char) : ∃ a s rest ending,
    Longest q cs a s rest ∧ Stops q ending rest ∧
      read q cs = ⟨s, a.length + ending.width, ending⟩ := by
  obtain ⟨a, s, rest, ending, hsplit, ha, hstops, hread⟩ := exists_units q cs [] 0
  rw [Nat.zero_add] at hread
  refine ⟨a, s, rest, ending, ⟨hsplit, ha, ?_⟩, hstops, hread⟩
  rintro b t hb ⟨behind, rfl⟩
  -- behind `b` reading goes on, to the same end
  obtain ⟨a', s', rest', ending', -, -, -, hread'⟩ :=
    exists_units q behind (t.reverse ++ []) (0 + b.length)
  rw [← readFrom_units hb, hread, Reading.mk.injEq] at hread'
  obtain ⟨-, hwidth, rfl⟩ := hread'
  omega

end Quoted

/-- In front of a quote the scan is one of the three outcomes of a quotation. -/
theorem scan_quote {q : Char} (hq : q = '"' ∨ q = '\'') (cs : List Char) :
    ∃ a s rest, Quoted.Longest q cs a s rest ∧
      (rest.head? = some q ∧ scan (q :: cs) =
          ⟨.ok (.string, some (String.ofList s)), a.length + 2⟩ ∨
        (∀ c ∈ rest.head?, c = '\n') ∧ scan (q :: cs) =
          ⟨.error (.unclosedString (String.ofList s)), a.length + 1⟩ ∨
        (∃ behind, rest = '\\' :: behind ∧ ∀ c ∈ behind.head?, c = '\n') ∧
          scan (q :: cs) = ⟨.error .danglingEscape, a.length + 2⟩) := by
  obtain ⟨a, s, rest, ending, hlongest, hstops, hread⟩ := Quoted.exists_longest q cs
  refine ⟨a, s, rest, hlongest, ?_⟩
  rw [scan_of_quote hq, Scan.quotation, hread]
  cases hstops with
  | closed behind => exact .inl ⟨rfl, rfl⟩
  | unclosed h => exact .inr (.inl ⟨h, rfl⟩)
  | @danglingEscape behind h => exact .inr (.inr ⟨⟨behind, rfl, h⟩, rfl⟩)

namespace Reader

variable {r : Reader} {c : Char} {cs : List Char}

/-- Reading gives `result` and ends `n` characters further on, as it does for a cursor at the same
place. -/
def Gives (r : Reader) (result : Except LexError Token) (n : Nat) : Prop :=
  r.next = some (result, r.ahead n) ∧ r.toCursor.next = (result, (r.ahead n).toCursor)

theorem gives_of_next {result : Except LexError Token} {n : Nat}
    (h : r.next = some (result, r.ahead n)) : r.Gives result n := by
  obtain ⟨m, hnext, hlast⟩ := r.next_eq
  rw [h, Option.some.injEq, Prod.mk.injEq] at hnext
  obtain ⟨hresult, hahead⟩ := hnext
  refine ⟨h, ?_⟩
  rw [hresult, hahead]
  exact Prod.ext rfl hlast.symm

/-- A character that is neither a blank nor begins a comment begins the next token. -/
theorem next_of_rest (h : r.toCursor.rest = c :: cs) (hb : isBlank c = false) (hc : c ≠ '#') :
    r.next = some (r.found (scan (c :: cs))) := by
  rw [next]
  split
  · rename_i h'
    rw [peek_of_rest h] at h'
    cases h'
  · rename_i h'
    rw [peek_of_rest h] at h'
    cases h'
    rw [if_neg (by rw [hb]; decide), dif_neg hc, classify_eq h]

theorem rest_ofText (text : String) : (ofText text).toCursor.rest = text.toList := rfl

theorem next_of_quote {q : Char} (hq : q = '"' ∨ q = '\'') (h : r.toCursor.rest = q :: cs) :
    r.next = some (r.found (scan (q :: cs))) := by
  apply next_of_rest h
  · rcases hq with rfl | rfl <;> decide
  · rcases hq with rfl | rfl <;> decide

/-- A reader in front of a quote reads the longest sequence of units behind it: a string where the
quote follows, else the fault that stops it, with what it read so far. What is written between
quotes is read back. -/
theorem next_quotation :
    (∀ (r : Reader) (q : Char) (cs : List Char), q = '"' ∨ q = '\'' →
      r.toCursor.rest = q :: cs → ∃ a s rest, Quoted.Longest q cs a s rest ∧
        (rest.head? = some q ∧
            r.Gives (.ok ⟨.string, some (String.ofList s), r.location⟩) (a.length + 2) ∨
          (∀ c ∈ rest.head?, c = '\n') ∧
            r.Gives (.error ⟨.unclosedString (String.ofList s), (r.ahead (a.length + 1)).location⟩)
              (a.length + 1) ∨
          (∃ behind, rest = '\\' :: behind ∧ ∀ c ∈ behind.head?, c = '\n') ∧
            r.Gives (.error ⟨.danglingEscape, (r.ahead (a.length + 2)).location⟩)
              (a.length + 2))) ∧
    ∀ text : String, '\n' ∉ text.toList →
      (ofText (Quoted.encode text)).Gives (.ok ⟨.string, some text, .start⟩)
        (Quoted.encode text).length ∧
      ((ofText (Quoted.encode text)).ahead (Quoted.encode text).length).peek = none := by
  constructor
  · intro r q cs hq h
    have hnext := next_of_quote hq h
    obtain ⟨a, s, rest, hlongest, hscan⟩ := scan_quote hq cs
    refine ⟨a, s, rest, hlongest, ?_⟩
    rcases hscan with ⟨hrest, hscan⟩ | ⟨hrest, hscan⟩ | ⟨hrest, hscan⟩
    · rw [hscan] at hnext
      exact .inl ⟨hrest, gives_of_next hnext⟩
    · rw [hscan] at hnext
      exact .inr (.inl ⟨hrest, gives_of_next hnext⟩)
    · rw [hscan] at hnext
      exact .inr (.inr ⟨hrest, gives_of_next hnext⟩)
  · intro text htext
    have hrest := rest_ofText (Quoted.encode text)
    have hscan := (Spelling.string htext).scan_eq (show Apart _ [] from nofun)
    rw [List.append_nil] at hscan
    constructor
    · apply gives_of_next
      rw [Quoted.toList_encode] at hrest
      rw [next_of_quote (.inl rfl) hrest, ← Quoted.toList_encode, hscan, ← String.length_toList]
      rfl
    · rw [peek_eq_head?, rest_ahead, hrest, ← String.length_toList, List.drop_length]
      rfl

/-- The second of two backslashes is what the first one escapes, so the quote behind them closes. -/
theorem next_quotation_at_backslashes :
    ('\'' = '"' ∨ '\'' = '\'') ∧
    (ofText "'a\\\\' b").toCursor.rest = '\'' :: "a\\\\' b".toList ∧
    (ofText "'a\\\\' b").Gives (.ok ⟨.string, some "a\\", ⟨1, 1⟩⟩) 5 ∧
    '\n' ∉ "\\\"#'".toList ∧
    (ofText (Quoted.encode "\\\"#'")).Gives (.ok ⟨.string, some "\\\"#'", .start⟩)
      (Quoted.encode "\\\"#'").length := by
  have hrest : (ofText "'a\\\\' b").toCursor.rest = '\'' :: "a\\\\' b".toList := rfl
  have hread : (ofText "'a\\\\' b").toCursor.next =
      (.ok ⟨.string, some "a\\", ⟨1, 1⟩⟩, ⟨" b".toList, ⟨1, 6⟩⟩) :=
    rfl
  have hgives : (ofText "'a\\\\' b").Gives (.ok ⟨.string, some "a\\", ⟨1, 1⟩⟩) 5 := by
    obtain ⟨a, s, rest, -, h⟩ := next_quotation.1 _ _ _ (.inr rfl) hrest
    rcases h with ⟨-, h⟩ | ⟨-, h⟩ | ⟨-, h⟩
    · have hlast := h.2
      rw [hread, Prod.mk.injEq] at hlast
      have hlength := congrArg (List.length ∘ Cursor.rest) hlast.2
      rw [Function.comp_apply, Function.comp_apply, rest_ahead, hrest, List.length_drop] at hlength
      have ha : a.length = 3 := by
        change 2 = 7 - (a.length + 2) at hlength
        omega
      rwa [← hlast.1, ha] at h
    · have hlast := h.2
      rw [hread] at hlast
      cases hlast
    · have hlast := h.2
      rw [hread] at hlast
      cases hlast
  have htext : '\n' ∉ "\\\"#'".toList := by decide
  exact ⟨.inr rfl, hrest, hgives, htext, (next_quotation.2 _ htext).1⟩

end Reader

end ScriptFront
