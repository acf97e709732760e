import ScriptFront.Statement.Writer

/-! # Texts and their lines

Every line of a text ends with a line feed, the last one perhaps not. Spaces in front of every line
of a text are spaces in front of each of the texts it was made of, where these are one line each. -/

namespace ScriptFront

/-- No line feed stands in a text. -/
def OneLine (s : String) : Prop := '\n' ∉ s.toList

instance (s : String) : Decidable (OneLine s) := inferInstanceAs (Decidable ('\n' ∉ s.toList))

namespace OneLine

variable {a b : String} {ls : List String}

@[simp] theorem append_iff : OneLine (a ++ b) ↔ OneLine a ∧ OneLine b := by
  simp [OneLine]

theorem intercalate (separator : String) (hs : OneLine separator) (h : ∀ l ∈ ls, OneLine l) :
    OneLine (separator.intercalate ls) := by
  induction ls with
  | nil => simp [OneLine]
  | cons a ls ih =>
    rw [List.forall_mem_cons] at h
    by_cases hls : ls = []
    · simpa [hls] using h.1
    · rw [String.intercalate_cons_of_ne_nil hls]
      simp [h.1, hs, ih h.2]

end OneLine

theorem unlines_append (ls ms : List String) : unlines (ls ++ ms) = unlines ls ++ unlines ms := by
  rw [unlines, List.map_append, String.join_append]
  rfl

theorem unlines_cons (l : String) (ls : List String) :
    unlines (l :: ls) = l ++ "\n" ++ unlines ls := by
  rw [unlines, List.map_cons, String.join_cons]
  rfl

/-- A text that does not end with a line feed, and its lines. -/
theorem intercalate_append_lineFeed {ls : List String} (h : ls ≠ []) :
    "\n".intercalate ls ++ "\n" = unlines ls := by
  induction ls with
  | nil => exact absurd rfl h
  | cons l ls ih =>
    by_cases hls : ls = []
    · simp [hls, unlines]
    · rw [String.intercalate_cons_of_ne_nil hls, unlines_cons, ← ih hls, String.append_assoc]

theorem spaces_add (m n : Nat) : spaces (m + n) = spaces m ++ spaces n := by
  rw [spaces, spaces, spaces, ← List.replicate_append_replicate, String.ofList_append]

namespace Text

/-- Puts a margin in front of every line; the flag tells whether one starts here. -/
def indentFrom (margin : List Char) : Bool → List Char → List Char
  | _, [] => []
  | true, c :: cs => margin ++ c :: indentFrom margin (c = '\n') cs
  | false, c :: cs => c :: indentFrom margin (c = '\n') cs

/-- A text with `n` spaces in front of every line. -/
def indented (n : Nat) (s : String) : String :=
  String.ofList (indentFrom (List.replicate n ' ') true s.toList)

theorem indentFrom_line (margin : List Char) {l : List Char} (hl : '\n' ∉ l) (cs : List Char) :
    indentFrom margin false (l ++ '\n' :: cs) = l ++ '\n' :: indentFrom margin true cs := by
  induction l with
  | nil => rfl
  | cons c l ih =>
    obtain ⟨hc, hl⟩ := List.ne_and_not_mem_of_not_mem_cons hl
    rw [List.cons_append, indentFrom, decide_eq_false (Ne.symm hc), ih hl]
    rfl

theorem indented_line {l : String} (hl : OneLine l) (n : Nat) (s : String) :
    indented n (l ++ "\n" ++ s) = spaces n ++ l ++ "\n" ++ indented n s := by
  have hstart (cs : List Char) (h : cs ≠ []) : indentFrom (List.replicate n ' ') true cs =
      List.replicate n ' ' ++ indentFrom (List.replicate n ' ') false cs := by
    cases cs with
    | nil => exact absurd rfl h
    | cons => rfl
  have hlist : (l ++ "\n" ++ s).toList = l.toList ++ '\n' :: s.toList := by simp
  rw [indented, hlist, hstart _ (by simp), indentFrom_line _ hl, ← String.toList_inj]
  simp [indented, spaces]

theorem indented_unlines {ls : List String} (h : ∀ l ∈ ls, OneLine l) (n : Nat) :
    indented n (unlines ls) = unlines (ls.map (spaces n ++ ·)) := by
  induction ls with
  | nil => rfl
  | cons l ls ih =>
    rw [List.map_cons, unlines_cons, unlines_cons, indented_line (h l List.mem_cons_self),
      ih fun l hl => h l (List.mem_cons_of_mem _ hl)]

/-- A line feed is all that is taken off behind a character that is no white space. -/
theorem trimEnd_line {e : String} {c : Char} (he : e.toList = [c]) (hc : isWhiteSpace c = false)
    (s : String) : trimEnd (s ++ e ++ "\n") = s ++ e := by
  have hfeed : isWhiteSpace '\n' = true := by decide
  rw [trimEnd, ← String.toList_inj]
  simp [hfeed, hc, he]

end Text

end ScriptFront
