import ScriptFront.Text.Quoted

/-! # Reading between quotes

What stands between two quotes is a sequence of units, each of them one character or an escaped
one, and what is read of it is what the units say. Quoting writes such units. -/

namespace ScriptFront.Quoted

/-- How many characters an ending takes. -/
def Ending.width : Ending → Nat
  | .unclosed => 0
  | .closed | .danglingEscape => 1

variable {s cs before : List Char} {width : Nat}

/-- What a text between quotes `q` says: a character says itself, a backslash and a character say
the character. -/
inductive Units (q : Char) : List Char → List Char → Prop where
  | nil : Units q [] []
  | plain {c : Char} {a s : List Char} (hb : c ≠ '\\') (hn : c ≠ '\n') (hq : c ≠ q)
      (h : Units q a s) : Units q (c :: a) (c :: s)
  | escape {c : Char} {a s : List Char} (hn : c ≠ '\n') (h : Units q a s) :
      Units q ('\\' :: c :: a) (c :: s)

theorem Units.lineFeed_not_mem {q : Char} {a : List Char} (h : Units q a s) : '\n' ∉ s := by
  induction h with
  | nil => exact List.not_mem_nil
  | plain _ hn _ _ ih | escape hn _ ih =>
    rw [List.mem_cons, not_or]
    exact ⟨Ne.symm hn, ih⟩

/-- Where no unit of a quotation begins, and why. -/
inductive Stops (q : Char) : Ending → List Char → Prop where
  | closed (cs : List Char) : Stops q .closed (q :: cs)
  | unclosed {cs : List Char} (h : ∀ c ∈ cs.head?, c = '\n') : Stops q .unclosed cs
  | danglingEscape {cs : List Char} (h : ∀ c ∈ cs.head?, c = '\n') :
      Stops q .danglingEscape ('\\' :: cs)

/-- A character that is no backslash in front of any text is none. -/
theorem ne_backslash {c : Char} (hnil : c = '\\' → cs = [] → False)
    (hcons : ∀ d ds, c = '\\' → cs = d :: ds → False) : c ≠ '\\' := by
  intro hc
  cases cs with
  | nil => exact hnil hc rfl
  | cons d ds => exact hcons d ds hc rfl

theorem readFrom_of_ne {q c : Char} (hc : c ≠ '\\') (cs before : List Char) (width : Nat) :
    readFrom q (c :: cs) before width =
      if c = '\n' then ⟨before.reverse, width, .unclosed⟩
      else if c = q then ⟨before.reverse, width + 1, .closed⟩
      else readFrom q cs (c :: before) (width + 1) := by
  rw [readFrom] <;> intros <;> exact absurd ‹_› hc

theorem width_readFrom_le (q : Char) (cs before : List Char) (width : Nat) :
    (readFrom q cs before width).width ≤ width + cs.length := by
  fun_induction readFrom q cs before width <;>
    simp only [List.length_cons, List.length_nil] <;> omega

/-- A character that is written as itself is read as itself. -/
theorem readFrom_plain {q c : Char} (hc : c ≠ '\\') (hn : c ≠ '\n') (hq : c ≠ q) :
    readFrom q (c :: cs) before width = readFrom q cs (c :: before) (width + 1) := by
  rw [readFrom_of_ne hc, if_neg hn, if_neg hq]

/-- Units are read as what they say. -/
theorem readFrom_units {q : Char} {a : List Char} (h : Units q a s) :
    readFrom q (a ++ cs) before width = readFrom q cs (s.reverse ++ before) (width + a.length) := by
  induction h generalizing before width with
  | nil => rfl
  | plain hb hn hq _ ih =>
    rw [List.cons_append, readFrom_plain hb hn hq, ih, List.reverse_cons, List.append_assoc,
      List.length_cons, Nat.add_assoc, Nat.add_comm 1]
    rfl
  | escape hn _ ih =>
    rw [List.cons_append, List.cons_append, readFrom, if_neg hn, ih, List.reverse_cons,
      List.append_assoc, List.length_cons, List.length_cons, Nat.add_assoc, Nat.add_comm 2]
    rfl

/-- Reading takes all units that follow, and stops where there is none. -/
theorem exists_units (q : Char) (cs before : List Char) (width : Nat) :
    ∃ a s rest ending, cs = a ++ rest ∧ Units q a s ∧ Stops q ending rest ∧
      readFrom q cs before width =
        ⟨before.reverse ++ s, width + a.length + ending.width, ending⟩ := by
  fun_induction readFrom q cs before width with
  | case1 before width =>
    exact ⟨[], [], [], .unclosed, rfl, .nil, .unclosed nofun, by simp [Ending.width]⟩
  | case2 before width =>
    exact ⟨[], [], _, .danglingEscape, rfl, .nil, .danglingEscape nofun, by simp [Ending.width]⟩
  | case3 cs before width =>
    refine ⟨[], [], _, .danglingEscape, rfl, .nil, .danglingEscape ?_, by simp [Ending.width]⟩
    intro c hc
    exact (Option.some.inj hc).symm
  | case4 before width c cs hn ih =>
    obtain ⟨a, s, rest, ending, rfl, ha, hstops, hread⟩ := ih
    refine ⟨_, _, rest, ending, rfl, .escape hn ha, hstops, ?_⟩
    rw [hread]
    simp only [List.reverse_cons, List.append_assoc, List.singleton_append, List.length_cons,
      Reading.mk.injEq, true_and, and_true]
    omega
  | case5 cs before width =>
    refine ⟨[], [], _, .unclosed, rfl, .nil, .unclosed ?_, by simp [Ending.width]⟩
    intro c hc
    exact (Option.some.inj hc).symm
  | case6 cs before width =>
    exact ⟨[], [], _, .closed, rfl, .nil, .closed cs, by simp [Ending.width]⟩
  | case7 c cs before width hb hb' hn hq ih =>
    have hc := ne_backslash hb hb'
    obtain ⟨a, s, rest, ending, rfl, ha, hstops, hread⟩ := ih
    refine ⟨_, _, rest, ending, rfl, .plain hc hn hq ha, hstops, ?_⟩
    rw [hread]
    simp only [List.reverse_cons, List.append_assoc, List.singleton_append, List.length_cons,
      Reading.mk.injEq, true_and, and_true]
    omega

/-- Units are read up to the quote behind them. -/
theorem read_units {q : Char} {a : List Char} (hq : q = '"' ∨ q = '\'') (h : Units q a s) :
    read q (a ++ q :: cs) = ⟨s, a.length + 1, .closed⟩ := by
  have hmark : q ≠ '\\' ∧ q ≠ '\n' := by
    rcases hq with rfl | rfl <;> decide
  rw [read, readFrom_units h, readFrom_of_ne hmark.1, if_neg hmark.2, if_pos rfl,
    List.append_nil, List.reverse_reverse, Nat.zero_add]

theorem units_flatMap_encodeChar (hs : '\n' ∉ s) : Units '"' (s.flatMap encodeChar) s := by
  induction s with
  | nil => exact .nil
  | cons c s ih =>
    rw [List.mem_cons, not_or] at hs
    have hn : c ≠ '\n' := Ne.symm hs.1
    rw [List.flatMap_cons, encodeChar]
    by_cases hc : c = '"' ∨ c = '\\'
    · rw [if_pos hc]
      exact .escape hn (ih hs.2)
    · rw [if_neg hc]
      rw [not_or] at hc
      exact .plain hc.2 hn hc.1 (ih hs.2)

/-- What is written between double quotes is read up to the second of them. -/
theorem read_flatMap_encodeChar (hs : '\n' ∉ s) :
    read '"' (s.flatMap encodeChar ++ '"' :: cs) =
      ⟨s, (s.flatMap encodeChar).length + 1, .closed⟩ :=
  read_units (.inl rfl) (units_flatMap_encodeChar hs)

theorem toList_encode (s : String) :
    (encode s).toList = '"' :: (s.toList.flatMap encodeChar ++ ['"']) := by
  simp [encode]

end ScriptFront.Quoted
