import ScriptFront.Proofs.Rule.Takes
import ScriptFront.Proofs.Text.Quoted

/-! # Spellings

A spelling is found whole where what stands behind it could not go on with it. -/

namespace ScriptFront

open Terminal

namespace TokenKind

def letters (k : TokenKind) : List Char := (k.spelling.getD "").toList

/-- No symbol is tried before one that is longer. -/
theorem symbols_pairwise :
    symbols.Pairwise fun k l => k.letters.isPrefixOf l.letters = false := by
  decide

/-- A symbol starts as no other token, blank or comment does. -/
theorem letters_of_mem_symbols {k : TokenKind} (hk : k ∈ symbols) : ∃ d ds, k.letters = d :: ds ∧
    ¬(d = '"' ∨ d = '\'') ∧ d.isDigit = false ∧ isWordStart d = false ∧ isBlank d = false ∧
    d ≠ '#' ∧ (d = '.' → k = .ellipsis ∨ ds = []) := by
  have table : ∀ k ∈ symbols, ¬(k.letters.head! = '"' ∨ k.letters.head! = '\'') ∧
      k.letters.head!.isDigit = false ∧ isWordStart k.letters.head! = false ∧
      isBlank k.letters.head! = false ∧ k.letters.head! ≠ '#' ∧
      (k.letters.head! = '.' → k = .ellipsis ∨ k.letters.tail = []) ∧ k.letters ≠ [] := by
    decide
  have h := table k hk
  cases hl : k.letters with
  | nil =>
    rw [hl] at h
    simp at h
  | cons d ds =>
    rw [hl] at h
    exact ⟨d, ds, rfl, h.1, h.2.1, h.2.2.1, h.2.2.2.1, h.2.2.2.2.1, h.2.2.2.2.2.1⟩

theorem mem_keywords_of_ofKeyword? {s : String} {k : TokenKind} (h : ofKeyword? s = some k) :
    (s, k) ∈ keywords := by
  obtain ⟨before, behind, hsplit, -⟩ := List.lookup_eq_some_iff.mp h
  rw [hsplit]
  exact List.mem_append_right _ List.mem_cons_self

/-- The symbol stands at the head of the text, and none that does is longer. -/
structure Longest (k : TokenKind) (cs : List Char) : Prop where
  mem : k ∈ symbols
  fits : k.letters <+: cs
  length_le : ∀ l ∈ symbols, l.letters <+: cs → l.letters.length ≤ k.letters.length

end TokenKind

namespace Scan

variable {cs : List Char}

theorem symbol?_of_ne (h : ∀ ds, cs ≠ '.' :: '.' :: ds) : symbol? cs =
    TokenKind.symbols.findSome? fun k =>
      if k.letters.isPrefixOf cs then some (k, k.letters.length) else none := by
  unfold symbol?
  split
  · exact absurd rfl (h _)
  · rfl

/-- The symbol that is found first is the longest. -/
theorem longest_of_symbol? {k : TokenKind} {width : Nat} (h : symbol? cs = some (k, width)) :
    k.Longest cs ∧ width = k.letters.length := by
  by_cases hdots : ∃ ds, cs = '.' :: '.' :: ds
  · obtain ⟨ds, rfl⟩ := hdots
    have table : ∀ l ∈ TokenKind.symbols, l.letters.length ≤ 3 := by decide
    simp only [symbol?] at h
    split at h
    · rename_i hd
      cases h
      obtain ⟨es, rfl⟩ := List.head?_eq_some_iff.mp hd
      exact ⟨⟨by decide, ⟨es, rfl⟩, fun l hl _ => table l hl⟩, rfl⟩
    · cases h
  · rw [not_exists] at hdots
    rw [symbol?_of_ne hdots, List.findSome?_eq_some_iff] at h
    obtain ⟨before, l, behind, hsplit, hl, hbefore⟩ := h
    split at hl
    · rename_i hp
      cases hl
      rw [List.isPrefixOf_iff_prefix] at hp
      have hk : k ∈ TokenKind.symbols := by
        rw [hsplit]
        exact List.mem_append_right _ List.mem_cons_self
      refine ⟨⟨hk, hp, ?_⟩, rfl⟩
      intro m hm hp'
      rw [hsplit, List.mem_append, List.mem_cons] at hm
      rcases hm with hm | rfl | hm
      · have := hbefore m hm
        rw [if_pos (List.isPrefixOf_iff_prefix.mpr hp')] at this
        cases this
      · exact Nat.le_refl _
      · -- a symbol that is tried later does not go on where this one ends
        rcases List.prefix_or_prefix_of_prefix hp' hp with hmk | hkm
        · exact hmk.length_le
        · have hapart := TokenKind.symbols_pairwise
          rw [hsplit, List.pairwise_append, List.pairwise_cons] at hapart
          have := hapart.2.1.1 m hm
          rw [List.isPrefixOf_iff_prefix.mpr hkm] at this
          cases this
    · cases hl

end Scan

theorem isDigit_of_isWordStart {c : Char} (h : isWordStart c = true) : c.isDigit = false := by
  have letter : c.isAlpha = (decide ('A'.val ≤ c.val ∧ c.val ≤ 'Z'.val) ||
      (decide ('a'.val ≤ c.val) && decide (c.val ≤ 'z'.val))) :=
    rfl
  simp only [isWordStart, letter, Bool.or_eq_true, Bool.and_eq_true, decide_eq_true_eq] at h
  simp only [Char.isDigit, ge_iff_le, Bool.and_eq_false_iff, decide_eq_false_iff_not]
  rcases h with (⟨h, -⟩ | ⟨h, -⟩) | rfl
  · right
    intro h'
    exact absurd (UInt32.le_trans h h') (by decide)
  · right
    intro h'
    exact absurd (UInt32.le_trans h h') (by decide)
  · decide

theorem isWordRest_of_isWordStart {c : Char} (h : isWordStart c = true) : isWordRest c = true := by
  simp only [isWordStart, isWordRest, Bool.or_eq_true, Char.isAlphanum] at h ⊢
  exact h.imp_left Or.inl

theorem isNumeralChar_of_isDigit {c : Char} (h : c.isDigit = true) : isNumeralChar c = true := by
  simp [isNumeralChar, h]

/-- What starts a word or a numeral starts nothing else. -/
theorem not_mark_of_start {c : Char} (h : isWordStart c = true ∨ c.isDigit = true) :
    ¬(c = '"' ∨ c = '\'') ∧ isBlank c = false ∧ c ≠ '#' := by
  have apart : ∀ m ∈ ['"', '\'', ' ', '\t', '\r', '\n', '\x0b', '\x0c', '#'], c ≠ m := by
    rintro m hm rfl
    have table : (['"', '\'', ' ', '\t', '\r', '\n', '\x0b', '\x0c', '#'].all
        fun m => !(isWordStart m || m.isDigit)) = true := by decide
    have := List.all_eq_true.mp table c hm
    rcases h with h | h <;> simp [h] at this
  refine ⟨?_, ?_, apart '#' (by simp)⟩
  · rintro (hc | hc)
    · exact apart '"' (by simp) hc
    · exact apart '\'' (by simp) hc
  · rw [Bool.eq_false_iff]
    intro hb
    simp only [isBlank, Bool.or_eq_true, decide_eq_true_eq] at hb
    rcases hb with ((((hb | hb) | hb) | hb) | hb) | hb <;> exact apart _ (by simp) hb

theorem scan_of_quote {c : Char} (hc : c = '"' ∨ c = '\'') (cs : List Char) :
    scan (c :: cs) = .quotation c cs := by
  rw [scan, if_pos hc]

theorem scan_of_isDigit {c : Char} (hc : c.isDigit = true) (cs : List Char) :
    scan (c :: cs) = .numeral (c :: cs) := by
  rw [scan, if_neg (not_mark_of_start (.inr hc)).1, if_pos hc]

theorem scan_of_isWordStart {c : Char} (hc : isWordStart c = true) (cs : List Char) :
    scan (c :: cs) = .word (c :: cs) := by
  rw [scan, if_neg (not_mark_of_start (.inl hc)).1, if_neg (by simp [isDigit_of_isWordStart hc]),
    if_pos hc]

theorem scan_of_symbol {k : TokenKind} {cs : List Char} (hk : k ∈ TokenKind.symbols)
    (hp : k.letters <+: cs) : scan cs = match Scan.symbol? cs with
      | some (kind, width) => ⟨.ok (kind, none), width⟩
      | none => ⟨.error (.unknownCharacter cs.head!), 0⟩ := by
  obtain ⟨d, ds, hl, hmark, hdigit, hstart, -⟩ := TokenKind.letters_of_mem_symbols hk
  rw [hl] at hp
  obtain ⟨es, rfl⟩ := hp
  rw [List.cons_append, scan, if_neg hmark, if_neg (by simp [hdigit]), if_neg (by simp [hstart])]
  rfl

/-- What is made of a text that begins with `c`, one case for each thing that can begin there. -/
inductive Scan.Starts (c : Char) (cs : List Char) : Scan → Prop where
  | quotation (hc : c = '"' ∨ c = '\'') : Starts c cs (.quotation c cs)
  | numeral (hc : c.isDigit = true) : Starts c cs (.numeral (c :: cs))
  | word (hc : isWordStart c = true) : Starts c cs (.word (c :: cs))
  | symbol {k : TokenKind} (hk : k.Longest (c :: cs)) :
      Starts c cs ⟨.ok (k, none), k.letters.length⟩
  | nothing : Starts c cs ⟨.error (.unknownCharacter c), 0⟩

theorem scan_starts (c : Char) (cs : List Char) : Scan.Starts c cs (scan (c :: cs)) := by
  by_cases hquote : c = '"' ∨ c = '\''
  · rw [scan_of_quote hquote]
    exact .quotation hquote
  by_cases hdigit : c.isDigit = true
  · rw [scan_of_isDigit hdigit]
    exact .numeral hdigit
  by_cases hstart : isWordStart c = true
  · rw [scan_of_isWordStart hstart]
    exact .word hstart
  rw [scan, if_neg hquote, if_neg hdigit, if_neg hstart]
  cases hs : Scan.symbol? (c :: cs) with
  | none => exact .nothing
  | some found =>
    obtain ⟨k, width⟩ := found
    obtain ⟨hk, rfl⟩ := Scan.longest_of_symbol? hs
    exact .symbol hk

/-- A word that names something and is not reserved. -/
def isName (s : String) : Bool :=
  (s.toList.head?.any isWordStart && s.toList.all isWordRest) &&
    (TokenKind.ofKeyword? s).isNone

theorem word_of_isName {s : String} (h : isName s = true) :
    (s.toList.head?.any isWordStart && s.toList.all isWordRest) = true := by
  rw [isName, Bool.and_eq_true] at h
  exact h.1

theorem any_isWordStart_of_isName {s : String} (h : isName s = true) :
    s.toList.head?.any isWordStart = true := by
  have hword := word_of_isName h
  rw [Bool.and_eq_true] at hword
  exact hword.1

theorem exists_cons_of_any {p : Char → Bool} {a : List Char} (h : a.head?.any p = true) :
    ∃ c cs, a = c :: cs ∧ p c = true := by
  cases a with
  | nil => cases h
  | cons c cs => exact ⟨c, cs, rfl, h⟩

/-- Whether the token that starts with `a` would go on with `c`. -/
def absorbs (a : List Char) (c : Char) : Bool :=
  match a with
  | [] => false
  | d :: _ =>
    if d = '"' ∨ d = '\'' then false
    else if d.isDigit then isNumeralChar c
    else if isWordStart d then isWordRest c
    else TokenKind.symbols.any fun k => (a ++ [c]).isPrefixOf k.letters

/-- What stands behind `a` does not go on with it. -/
def Apart (a cs : List Char) : Prop := ∀ c ∈ cs.head?, absorbs a c = false

theorem takeWhile_append_of_head {p : Char → Bool} {a cs : List Char} (ha : ∀ c ∈ a, p c = true)
    (hcs : ∀ c ∈ cs.head?, p c = false) : (a ++ cs).takeWhile p = a := by
  rw [List.takeWhile_append_of_pos ha]
  cases cs with
  | nil => simp
  | cons c cs => simp [hcs c rfl]

namespace Scan

theorem symbol?_letters {k : TokenKind} {cs : List Char} (hk : k ∈ TokenKind.symbols)
    (h : ∀ c ∈ cs.head?, ∀ l ∈ TokenKind.symbols, (k.letters ++ [c]).isPrefixOf l.letters = false) :
    symbol? (k.letters ++ cs) = some (k, k.letters.length) := by
  unfold symbol?
  split
  · rename_i ds heq
    obtain ⟨d, es, hl, -, -, -, -, -, hdot⟩ := TokenKind.letters_of_mem_symbols hk
    rw [hl, List.cons_append, List.cons.injEq] at heq
    rcases hdot heq.1 with rfl | rfl
    · cases hl
      rw [← (List.cons.inj heq.2).2]
      rfl
    · rw [List.nil_append] at heq
      rw [hl, heq.1, heq.2] at h
      have := h '.' rfl .ellipsis (by decide)
      simp [TokenKind.letters, TokenKind.spelling] at this
  · rw [List.findSome?_eq_some_iff]
    obtain ⟨before, behind, hsplit⟩ := List.append_of_mem hk
    refine ⟨before, k, behind, hsplit, ?_, ?_⟩
    · simp [TokenKind.letters]
    · intro l hl
      refine if_neg ?_
      have hapart : l.letters.isPrefixOf k.letters = false := by
        have := TokenKind.symbols_pairwise
        rw [hsplit, List.pairwise_append] at this
        exact this.2.2 l hl k List.mem_cons_self
      have hl : l ∈ TokenKind.symbols := by
        rw [hsplit]
        exact List.mem_append_left _ hl
      show ¬ l.letters.isPrefixOf _ = true
      rw [List.isPrefixOf_iff_prefix]
      intro hp
      -- a symbol that fits further than `k` would go on with what stands behind `k`
      rcases List.prefix_or_prefix_of_prefix hp (List.prefix_append _ _) with hp' | ⟨es, hes⟩
      · rw [← List.isPrefixOf_iff_prefix, hapart] at hp'
        cases hp'
      · rw [← hes, List.prefix_append_right_inj] at hp
        cases es with
        | nil =>
          rw [List.append_nil] at hes
          rw [hes, Bool.eq_false_iff, ne_eq, List.isPrefixOf_iff_prefix] at hapart
          exact hapart (List.prefix_refl _)
        | cons c es =>
          obtain ⟨fs, rfl⟩ := hp
          have := h c rfl l hl
          rw [← hes, Bool.eq_false_iff, ne_eq, List.isPrefixOf_iff_prefix,
            List.prefix_append_right_inj] at this
          exact this ⟨es, rfl⟩

theorem word_append {a cs : List Char} (ha : ∀ c ∈ a, isWordRest c = true)
    (hcs : ∀ c ∈ cs.head?, isWordRest c = false) : word (a ++ cs) =
      ⟨match TokenKind.ofKeyword? (String.ofList a) with
        | some kind => .ok (kind, none)
        | none => .ok (.identifier, some (String.ofList a)), a.length⟩ := by
  have htext : (a ++ cs).takeWhile isWordRest = a := takeWhile_append_of_head ha hcs
  unfold word
  generalize (a ++ cs).takeWhile isWordRest = b at htext
  subst htext
  rfl

theorem numeral_append {a cs : List Char} (ha : ∀ c ∈ a, isNumeralChar c = true)
    (hcs : ∀ c ∈ cs.head?, isNumeralChar c = false) : numeral (a ++ cs) =
      ⟨match a.count '.' with
        | 0 => .ok (.integer, some (String.ofList a))
        | 1 => .ok (.float, some (String.ofList a))
        | _ => .error (.malformedNumber (String.ofList a)), a.length⟩ := by
  have htext : (a ++ cs).takeWhile isNumeralChar = a := takeWhile_append_of_head ha hcs
  unfold numeral
  generalize (a ++ cs).takeWhile isNumeralChar = b at htext
  subst htext
  rfl

end Scan

/-- Whether the symbol begins no other one. -/
def TokenKind.isSolid (k : TokenKind) : Bool :=
  symbols.contains k && symbols.all fun l => l = k || !k.letters.isPrefixOf l.letters

/-- What a symbol may go on with. -/
def glue : List Char := ['=', '*', '<', '>', '&', '|', '+', '-', '.']

namespace Apart

variable {k : TokenKind} {cs : List Char}

theorem exists_of_absorbs (hk : k ∈ TokenKind.symbols) {c : Char}
    (h : absorbs k.letters c = true) :
    ∃ l ∈ TokenKind.symbols, ∃ es, k.letters ++ c :: es = l.letters := by
  obtain ⟨d, ds, hl, hmark, hdigit, hstart, -⟩ := TokenKind.letters_of_mem_symbols hk
  rw [hl, absorbs, if_neg hmark, if_neg (by simp [hdigit]), if_neg (by simp [hstart]),
    List.any_eq_true] at h
  obtain ⟨l, hl', hp⟩ := h
  rw [List.isPrefixOf_iff_prefix] at hp
  obtain ⟨es, hes⟩ := hp
  exact ⟨l, hl', es, by rw [hl, ← hes, List.append_assoc, List.singleton_append]⟩

theorem solid (hk : k.isSolid = true) (cs : List Char) : Apart k.letters cs := by
  rw [TokenKind.isSolid, Bool.and_eq_true, List.contains_iff_mem, List.all_eq_true] at hk
  intro c _
  rw [Bool.eq_false_iff]
  intro h
  obtain ⟨l, hl, es, hes⟩ := exists_of_absorbs hk.1 h
  have := hk.2 l hl
  rw [Bool.or_eq_true, decide_eq_true_eq, Bool.not_eq_true', Bool.eq_false_iff, ne_eq,
    List.isPrefixOf_iff_prefix] at this
  rcases this with rfl | hp
  · have := congrArg List.length hes
    rw [List.length_append, List.length_cons] at this
    omega
  · exact hp ⟨c :: es, hes⟩

theorem symbol (hk : k ∈ TokenKind.symbols) (hcs : ∀ c ∈ cs.head?, c ∉ glue) :
    Apart k.letters cs := by
  have table :
      (TokenKind.symbols.all fun l => (l.letters.drop 1).all fun c => c ∈ glue) = true := by
    decide
  simp only [List.all_eq_true, decide_eq_true_eq] at table
  intro c hc
  rw [Bool.eq_false_iff]
  intro h
  obtain ⟨l, hl, es, hes⟩ := exists_of_absorbs hk h
  obtain ⟨d, ds, hd, -⟩ := TokenKind.letters_of_mem_symbols hk
  refine hcs c hc (table l hl c ?_)
  rw [← hes, hd]
  simp

/-- A word ends where no letter, digit or underscore follows. -/
theorem word {a : List Char} (ha : a.head?.any isWordStart = true)
    (hcs : ∀ c ∈ cs.head?, isWordRest c = false) : Apart a cs := by
  obtain ⟨d, ds, rfl, hd⟩ := exists_cons_of_any ha
  intro c hc
  rw [absorbs, if_neg (not_mark_of_start (.inl hd)).1, if_neg (by simp [isDigit_of_isWordStart hd]),
    if_pos hd]
  exact hcs c hc

theorem numeral {a : List Char} (ha : a.head?.any Char.isDigit = true)
    (hcs : ∀ c ∈ cs.head?, isWordRest c = false ∧ c ≠ '.') : Apart a cs := by
  obtain ⟨d, ds, rfl, hd⟩ := exists_cons_of_any ha
  intro c hc
  rw [absorbs, if_neg (not_mark_of_start (.inr hd)).1, if_pos hd]
  obtain ⟨hrest, hpoint⟩ := hcs c hc
  simp only [isWordRest, Char.isAlphanum, Bool.or_eq_false_iff] at hrest
  simp [isNumeralChar, hrest.1.2, hpoint]

theorem string (a cs : List Char) : Apart ('"' :: a) cs := by
  intro c _
  rw [absorbs, if_pos (.inl rfl)]

end Apart

/-- How a terminal is written, a string between double quotes. -/
inductive Spelling : Terminal → List Char → Prop where
  | symbol {k : TokenKind} (hk : k ∈ TokenKind.symbols) : Spelling (fixed k) k.letters
  | keyword {s : String} {k : TokenKind} (hk : TokenKind.ofKeyword? s = some k) :
      Spelling (fixed k) s.toList
  | name {s : String} (hs : isName s = true) : Spelling (carrying .identifier s) s.toList
  | integer {s : String} (hs : s.toList ≠ []) (hd : ∀ c ∈ s.toList, c.isDigit = true) :
      Spelling (carrying .integer s) s.toList
  | float {s : String} {whole fraction : List Char} (hs : s.toList = whole ++ '.' :: fraction)
      (hw : whole ≠ []) (hd : ∀ c ∈ whole ++ fraction, c.isDigit = true) :
      Spelling (carrying .float s) s.toList
  | string {s : String} (hs : '\n' ∉ s.toList) :
      Spelling (carrying .string s) (Quoted.encode s).toList

namespace Spelling

variable {x : Terminal} {a cs : List Char}

theorem ofKind {k : TokenKind} (hk : k.spelling.isSome = true) : Spelling (fixed k) k.letters := by
  have table : k ∈ TokenKind.symbols ∨ TokenKind.ofKeyword? (k.spelling.getD "") = some k := by
    cases k <;> first | exact .inl (by decide) | exact .inr (by decide) | cases hk
  rcases table with h | h
  · exact .symbol h
  · exact .keyword h

theorem word_of_keyword {s : String} {k : TokenKind} (hk : TokenKind.ofKeyword? s = some k) :
    (s.toList.head?.any isWordStart && s.toList.all isWordRest) = true := by
  have table : ∀ p ∈ TokenKind.keywords,
      (p.1.toList.head?.any isWordStart && p.1.toList.all isWordRest) = true := by
    decide
  exact table (s, k) (TokenKind.mem_keywords_of_ofKeyword? hk)

theorem scan_word {s : String}
    (hs : (s.toList.head?.any isWordStart && s.toList.all isWordRest) = true)
    (hcs : Apart s.toList cs) : scan (s.toList ++ cs) =
      ⟨match TokenKind.ofKeyword? s with
        | some kind => .ok (kind, none)
        | none => .ok (.identifier, some s), s.toList.length⟩ := by
  rw [Bool.and_eq_true, List.all_eq_true] at hs
  obtain ⟨hhead, hrest⟩ := hs
  obtain ⟨d, ds, hl, hstart⟩ := exists_cons_of_any hhead
  have hcs' : ∀ c ∈ cs.head?, isWordRest c = false := by
    intro c hc
    have := hcs c hc
    rwa [hl, absorbs, if_neg (not_mark_of_start (.inl hstart)).1,
      if_neg (by simp [isDigit_of_isWordStart hstart]), if_pos hstart] at this
  have hscan : scan (s.toList ++ cs) = .word (s.toList ++ cs) := by
    rw [hl]
    exact scan_of_isWordStart hstart _
  rw [hscan, Scan.word_append hrest hcs', String.ofList_toList]

theorem scan_numeral (ha : a.head?.any Char.isDigit = true)
    (hn : ∀ c ∈ a, isNumeralChar c = true) (hcs : Apart a cs) : scan (a ++ cs) =
      ⟨match a.count '.' with
        | 0 => .ok (.integer, some (String.ofList a))
        | 1 => .ok (.float, some (String.ofList a))
        | _ => .error (.malformedNumber (String.ofList a)), a.length⟩ := by
  obtain ⟨d, ds, rfl, hd⟩ := exists_cons_of_any ha
  have hcs' : ∀ c ∈ cs.head?, isNumeralChar c = false := by
    intro c hc
    have := hcs c hc
    rwa [absorbs, if_neg (not_mark_of_start (.inr hd)).1, if_pos hd] at this
  rw [List.cons_append, scan_of_isDigit hd, ← List.cons_append, Scan.numeral_append hn hcs']

theorem count_point_of_digits (hd : ∀ c ∈ a, c.isDigit = true) : a.count '.' = 0 := by
  rw [List.count_eq_zero]
  intro h
  exact absurd (hd _ h) (by decide)

theorem numeral_of_digits (ha : a ≠ []) (hd : ∀ c ∈ a, c.isDigit = true) :
    a.head?.any Char.isDigit = true ∧ ∀ c ∈ a, isNumeralChar c = true := by
  refine ⟨?_, fun c hc => isNumeralChar_of_isDigit (hd c hc)⟩
  cases a with
  | nil => exact absurd rfl ha
  | cons d ds => exact hd d List.mem_cons_self

theorem numeral_of_point {whole fraction : List Char} (ha : a = whole ++ '.' :: fraction)
    (hw : whole ≠ []) (hd : ∀ c ∈ whole ++ fraction, c.isDigit = true) :
    a.head?.any Char.isDigit = true ∧ ∀ c ∈ a, isNumeralChar c = true := by
  have hwhole := numeral_of_digits hw fun c hc => hd c (List.mem_append_left _ hc)
  subst ha
  constructor
  · cases whole with
    | nil => exact absurd rfl hw
    | cons d ds => exact hwhole.1
  · intro c hc
    rw [List.mem_append, List.mem_cons] at hc
    rcases hc with hc | rfl | hc
    · exact hwhole.2 c hc
    · decide
    · exact isNumeralChar_of_isDigit (hd c (List.mem_append_right _ hc))

/-- A spelling in front of what does not go on with it is found as the token it spells. -/
theorem scan_eq (h : Spelling x a) (hcs : Apart a cs) :
    scan (a ++ cs) = ⟨.ok (x.kind, x.lexeme), a.length⟩ := by
  cases h with
  | @symbol k hk =>
    obtain ⟨d, ds, hl, hmark, hdigit, hstart, -⟩ := TokenKind.letters_of_mem_symbols hk
    have hapart : ∀ c ∈ cs.head?, ∀ l ∈ TokenKind.symbols,
        (k.letters ++ [c]).isPrefixOf l.letters = false := by
      intro c hc l hl'
      have := hcs c hc
      rw [hl, absorbs, if_neg hmark, if_neg (by simp [hdigit]), if_neg (by simp [hstart]), ← hl,
        List.any_eq_false] at this
      exact Bool.eq_false_iff.mpr (this l hl')
    rw [scan_of_symbol hk (List.prefix_append _ _), Scan.symbol?_letters hk hapart]
    rfl
  | keyword hk =>
    rw [scan_word (word_of_keyword hk) hcs, hk]
    rfl
  | name hs =>
    rw [isName, Bool.and_eq_true, Option.isNone_iff_eq_none] at hs
    rw [scan_word hs.1 hcs, hs.2]
    rfl
  | @integer s hs hd =>
    obtain ⟨hhead, hn⟩ := numeral_of_digits hs hd
    rw [scan_numeral hhead hn hcs, count_point_of_digits hd, String.ofList_toList]
    rfl
  | @float s whole fraction hs hw hd =>
    obtain ⟨hhead, hn⟩ := numeral_of_point hs hw hd
    have hcount : s.toList.count '.' = 1 := by
      rw [hs, List.count_append, List.count_cons_self,
        count_point_of_digits fun c hc => hd c (List.mem_append_left _ hc),
        count_point_of_digits fun c hc => hd c (List.mem_append_right _ hc)]
    rw [scan_numeral hhead hn hcs, hcount, String.ofList_toList]
    rfl
  | @string s hs =>
    rw [Quoted.toList_encode, List.cons_append, List.append_assoc, List.singleton_append,
      scan_of_quote (.inl rfl), Scan.quotation, Quoted.read_flatMap_encodeChar hs,
      String.ofList_toList]
    simp [carrying]

/-- A spelling starts with neither a blank nor a comment. -/
theorem head_eq (h : Spelling x a) : ∃ c ds, a = c :: ds ∧ isBlank c = false ∧ c ≠ '#' := by
  have hword {s : String}
      (hs : (s.toList.head?.any isWordStart && s.toList.all isWordRest) = true) :
      ∃ c ds, s.toList = c :: ds ∧ isBlank c = false ∧ c ≠ '#' := by
    rw [Bool.and_eq_true] at hs
    obtain ⟨c, ds, hl, hc⟩ := exists_cons_of_any hs.1
    exact ⟨c, ds, hl, (not_mark_of_start (.inl hc)).2⟩
  have hnumeral {a : List Char} (ha : a.head?.any Char.isDigit = true) :
      ∃ c ds, a = c :: ds ∧ isBlank c = false ∧ c ≠ '#' := by
    obtain ⟨c, ds, hl, hc⟩ := exists_cons_of_any ha
    exact ⟨c, ds, hl, (not_mark_of_start (.inr hc)).2⟩
  cases h with
  | symbol hk =>
    obtain ⟨d, ds, hl, -, -, -, hb, hc, -⟩ := TokenKind.letters_of_mem_symbols hk
    exact ⟨d, ds, hl, hb, hc⟩
  | keyword hk => exact hword (word_of_keyword hk)
  | name hs => exact hword (word_of_isName hs)
  | integer hs hd => exact hnumeral (numeral_of_digits hs hd).1
  | float hs hw hd => exact hnumeral (numeral_of_point hs hw hd).1
  | string => exact ⟨'"', _, Quoted.toList_encode _, by decide, by decide⟩

/-- What tokens of this kind carry is there exactly where the kind asks for it. -/
theorem isSome_lexeme (h : Spelling x a) : x.lexeme.isSome = x.kind.hasLexeme := by
  have symbols : ∀ k ∈ TokenKind.symbols, k.hasLexeme = false := by decide
  have keywords : ∀ p ∈ TokenKind.keywords, p.2.hasLexeme = false := by decide
  cases h with
  | symbol hk => exact (symbols _ hk).symm
  | keyword hk => exact (keywords _ (TokenKind.mem_keywords_of_ofKeyword? hk)).symm
  | _ => rfl

end Spelling

end ScriptFront
