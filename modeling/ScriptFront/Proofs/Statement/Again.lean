import ScriptFront.Proofs.Statement.Correct
import ScriptFront.Proofs.Statement.Congruence
import ScriptFront.Proofs.Rule.Coupling

/-! # Asking for the program again

A call that fails leaves the nesting as it found it, and a peak that no later call looks at: each
chain of operators sets the peak back before it looks. So a reader goes on as a new one would that
is put at the same place. -/

namespace ScriptFront

/-- Two readers at one place, with any peaks. -/
def Coupling.again (limit : Nat) : Coupling where
  limit := limit
  limit' := limit
  Place _ := Eq
  Stands c t c' t' := c = c' ∧ t = t'
  Left c t c' t' := c = c' ∧ t = t'
  Levels m n := n = m
  Alike := Eq
  Stops _ := False
  terminal_eq := Token.terminal_of_same
  place := Token.location_of_same
  left h := h
  next {c _ _ _} h _ := by
    obtain ⟨rfl, rfl⟩ := h
    obtain ⟨e | t, d⟩ := c.next
    · exact .error rfl ⟨rfl, rfl⟩
    · exact .ok ⟨rfl, rfl⟩
  le := Nat.le_of_eq
  descend h := Nat.succ.inj h
  fault := @ParseError.fault_eq
  tooDeep h hl := .inr ⟨h.symm, by rw [hl]⟩

namespace State

variable {s : State} {text : String} {limit : Nat}

/-- The state after so many calls. -/
def afterPrograms (s : State) : Nat → State
  | 0 => s
  | n + 1 => s.readProgram.2.afterPrograms n

theorem afterPrograms_add (s : State) (m n : Nat) :
    s.afterPrograms (m + n) = (s.afterPrograms m).afterPrograms n := by
  induction m generalizing s with
  | zero => rw [Nat.zero_add, afterPrograms]
  | succ m ih => rw [Nat.succ_add, afterPrograms, ih, afterPrograms]

theorem afterPrograms_succ (s : State) (n : Nat) :
    s.afterPrograms (n + 1) = (s.afterPrograms n).readProgram.2 :=
  s.afterPrograms_add n 1

/-- Each call goes on from where the one before stopped. -/
theorem readPrograms_eq_map (s : State) (n : Nat) :
    s.readPrograms n = (List.range n).map fun i => (s.afterPrograms i).readProgram.1 := by
  induction n generalizing s with
  | zero => rfl
  | succ n ih =>
    rw [List.range_succ_eq_map, List.map_cons, List.map_map]
    exact congrArg (s.readProgram.1 :: ·) (ih s.readProgram.2)

/-- Two calls have one outcome and stop at one place. -/
structure SameAnswer (a a' : Except ParseError Program × State) : Prop where
  result_eq : a.1 = a'.1
  current_eq : a.2.current = a'.2.current
  cursor_eq : a.2.cursor = a'.2.cursor

/-- Outside of all nesting the peak decides nothing, and a call ends there also where it fails. -/
theorem readProgram_of_depth (hdepth : s.depth = 0) (peak : Nat) :
    SameAnswer s.readProgram (readProgram ⟨s.cursor, s.current, s.limit, 0, peak⟩) ∧
      s.readProgram.2.limit = s.limit ∧ s.readProgram.2.depth = 0 := by
  obtain ⟨c, t, limit, depth, k⟩ := s
  subst hdepth
  have hstart : (Coupling.again limit).Coupled false limit limit ⟨c, t, limit, 0, k⟩
      ⟨c, t, limit, 0, peak⟩ := by
    apply Coupling.Coupled.start
    · exact ⟨rfl, rfl⟩
    · rfl
  -- where it ends there are as many levels left as where it began, and so all of them
  have houtside {r r' : State} (h : (Coupling.again limit).Accounted limit limit r r') :
      r.limit = limit ∧ r.depth = 0 := by
    have hlimit : r.limit = limit := h.limit_eq
    have hdepth := h.depth_eq
    exact ⟨hlimit, by omega⟩
  rcases Coupling.readProgram _ hstart with
    ⟨p, r, r', hp, hp', hr⟩ | ⟨e, e', r, r', he, he', halike, hr⟩ | ⟨_, -, hstops⟩
  · rw [hp, hp']
    exact ⟨⟨rfl, hr.stands.2, hr.stands.1⟩, houtside hr.toAccounted⟩
  · rw [he, he']
    exact ⟨⟨congrArg Except.error halike, hr.left.2, hr.left.1⟩, houtside hr.toAccounted⟩
  · exact hstops.elim

/-- At the end a call finds nothing and changes nothing. -/
theorem readProgram_of_eof (h : s.current.kind = .eof) : s.readProgram = (.ok [], s) := by
  obtain ⟨c, ⟨kind, lexeme, location⟩, limit, depth, peak⟩ := s
  cases h
  rfl

/-- A call that succeeds comes to the end. -/
theorem current_of_readProgram {p : Program} (hdepth : s.depth = 0)
    (h : s.readProgram.1 = .ok p) : s.readProgram.2.current.kind = .eof := by
  have hleaves : Rule.Leaves s.limit s := by
    constructor <;> omega
  unfold readProgram at h ⊢
  cases hs : Rule.program s with
  | error e r =>
    rw [hs] at h
    cases h
  | ok q r =>
    obtain ⟨w, m, u, ⟨ds, rfl, heof⟩, -, -, rfl⟩ :=
      ((Rule.reads_program s.limit).ok_iff hleaves).mp hs
    simpa using heof

theorem afterPrograms_of_eof (h : s.current.kind = .eof) (n : Nat) : s.afterPrograms n = s := by
  induction n with
  | zero => rfl
  | succ n ih => rw [afterPrograms_succ, ih, readProgram_of_eof h]

/-- Between two calls a reader of a text stands outside of all nesting. -/
theorem limit_depth_afterPrograms (h : start? text limit = .ok s) (n : Nat) :
    (s.afterPrograms n).limit = limit ∧ (s.afterPrograms n).depth = 0 := by
  induction n with
  | zero =>
    unfold start? at h
    split at h
    · cases h
      exact ⟨rfl, rfl⟩
    · cases h
  | succ n ih =>
    obtain ⟨hlimit, hdepth⟩ := ih
    obtain ⟨-, hlimit', hdepth'⟩ := readProgram_of_depth hdepth 0
    rw [afterPrograms_succ]
    exact ⟨hlimit'.trans hlimit, hdepth'⟩

/-- Whatever calls a reader has answered, and whatever peak they left, the next one is answered as
by a new reader at the same place. Once a program was read, only the empty one is. -/
theorem readProgram_afterPrograms (h : start? text limit = .ok s) (n : Nat) :
    (s.afterPrograms n).depth = 0 ∧
    (∀ peak, SameAnswer (readProgram { s.afterPrograms n with peak := peak })
      (readProgram ⟨(s.afterPrograms n).cursor, (s.afterPrograms n).current, limit, 0, 0⟩)) ∧
    ((∃ p, (s.afterPrograms n).readProgram.1 = .ok p) →
      ∀ m, n < m → (s.afterPrograms m).readProgram.1 = .ok []) := by
  obtain ⟨hlimit, hdepth⟩ := limit_depth_afterPrograms h n
  refine ⟨hdepth, ?_, ?_⟩
  · intro peak
    obtain ⟨hsame, -⟩ :=
      readProgram_of_depth (s := { s.afterPrograms n with peak := peak }) hdepth 0
    rw [hlimit] at hsame
    exact hsame
  · rintro ⟨p, hp⟩ m hm
    obtain ⟨k, rfl⟩ := Nat.exists_eq_add_of_lt hm
    have heof := current_of_readProgram hdepth hp
    rw [← afterPrograms_succ] at heof
    rw [Nat.add_right_comm, afterPrograms_add, afterPrograms_of_eof heof, readProgram_of_eof heof]

/-- The first call fails inside a chain of operators and leaves its peak, the second one reads. -/
theorem readProgram_afterPrograms_at_chain : ∃ s, start? "(a + [c d;" 8 = .ok s ∧
    s.readProgram.1 = .error (.grammatical (.wrongToken .closeBracket .identifier) ⟨1, 9⟩) ∧
    (s.afterPrograms 1).peak = 3 ∧ (s.afterPrograms 1).depth = 0 ∧
    SameAnswer (readProgram { s.afterPrograms 1 with peak := 3 })
      (readProgram ⟨(s.afterPrograms 1).cursor, (s.afterPrograms 1).current, 8, 0, 0⟩) ∧
    (∃ p, (s.afterPrograms 1).readProgram.1 = .ok p) ∧
    ∀ m, 1 < m → (s.afterPrograms m).readProgram.1 = .ok [] := by
  have hstart : start? "(a + [c d;" 8 =
      .ok ⟨⟨"a + [c d;".toList, ⟨1, 2⟩⟩, ⟨.openParen, none, ⟨1, 1⟩⟩, 8, 0, 0⟩ := rfl
  have hread : ∃ p, (afterPrograms ⟨⟨"a + [c d;".toList, ⟨1, 2⟩⟩, ⟨.openParen, none, ⟨1, 1⟩⟩,
      8, 0, 0⟩ 1).readProgram.1 = .ok p ∧ p.length = 1 := by
    decide +kernel
  obtain ⟨p, hp, -⟩ := hread
  obtain ⟨hdepth, hsame, hend⟩ := readProgram_afterPrograms hstart 1
  refine ⟨_, hstart, ?_, ?_, hdepth, hsame 3, ⟨p, hp⟩, hend ⟨p, hp⟩⟩
  · decide +kernel
  · decide +kernel

end State

end ScriptFront
