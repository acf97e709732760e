import ScriptFront.Program
import ScriptFront.Proofs.Rule.Loops
import ScriptFront.Proofs.Statement.Congruence

/-! # Two readers side by side

Two readers stand before tokens of the same kind and content, and the first has no fewer levels left
than the second. A coupling says which places, and which errors, of the two belong together, where
the two may be left by an error, and what may stop the second reader while the first goes on. Then
the two go on side by side through every rule. The peaks matter only inside a chain of operators,
where they stand equally far above the nesting. -/

namespace ScriptFront

/-- What reading the next token gives to two readers. -/
inductive Fetched (stands : Cursor → Token → Cursor → Token → Prop) (left : Cursor → Cursor → Prop)
    (alike : ParseError → ParseError → Prop) (stops : ParseError → Prop) :
    Except LexError Token × Cursor → Except LexError Token × Cursor → Prop where
  | ok {t t' : Token} {c c' : Cursor} (h : stands c t c' t') :
    Fetched stands left alike stops (.ok t, c) (.ok t', c')
  | error {e e' : LexError} {c c' : Cursor} (h : alike (.lexical e) (.lexical e'))
    (hleft : left c c') : Fetched stands left alike stops (.error e, c) (.error e', c')
  | stopped {r : Except LexError Token × Cursor} {e' : LexError} {c' : Cursor}
    (h : stops (.lexical e')) : Fetched stands left alike stops r (.error e', c')

structure Coupling where
  limit : Nat
  limit' : Nat
  /-- Two places of a token. -/
  Place : Terminal → Location → Location → Prop
  /-- The unread texts of the two readers and the tokens they hold. -/
  Stands : Cursor → Token → Cursor → Token → Prop
  /-- The same for two readers that failed. -/
  Left : Cursor → Token → Cursor → Token → Prop
  Levels : Nat → Nat → Prop
  Alike : ParseError → ParseError → Prop
  /-- What may stop the second reader at any time. -/
  Stops : ParseError → Prop
  terminal_eq {c c' : Cursor} {t t' : Token} (h : Stands c t c' t') : t.terminal = t'.terminal
  place {c c' : Cursor} {t t' : Token} (h : Stands c t c' t') :
    Place t.terminal t.location t'.location
  left {c c' : Cursor} {t t' : Token} (h : Stands c t c' t') : Left c t c' t'
  next {c c' : Cursor} {t t' : Token} (h : Stands c t c' t') (ht : t.kind ≠ .eof) :
    Fetched Stands (fun d d' => Left d t d' t') Alike Stops c.next c'.next
  le {m n : Nat} (h : Levels m n) : n ≤ m
  descend {m n : Nat} (h : Levels (m + 1) (n + 1)) : Levels m n
  fault {x : Terminal} {l l' : Location} {fault : SyntaxFault} (h : Place x l l')
    (hfault : fault.StandsAt x) : Alike (.grammatical fault l) (.grammatical fault l')
  /-- Where the nesting is too deep for the second reader, it is for both, or the second stops. -/
  tooDeep {m n : Nat} {x : Terminal} {l l' : Location} (h : Levels m n) (hl : Place x l l') :
    Stops (.grammatical (.nestingTooDeep limit') l') ∨
      m = n ∧ Alike (.grammatical (.nestingTooDeep limit) l)
        (.grammatical (.nestingTooDeep limit') l')

open Rule

section Same

/-! The laws of couplings whose two readers are at one place. -/

variable {c c' : Cursor} {t t' : Token}

theorem Token.terminal_of_same (h : c = c' ∧ t = t') : t.terminal = t'.terminal := by
  rw [h.2]

theorem Token.location_of_same (h : c = c' ∧ t = t') : t.location = t'.location := by
  rw [h.2]

theorem ParseError.fault_eq {x : Terminal} {l l' : Location} {fault : SyntaxFault} (h : l = l')
    (_ : fault.StandsAt x) : ParseError.grammatical fault l = .grammatical fault l' := by
  rw [h]

end Same

namespace Coupling

variable {C : Coupling} {α β : Type} {m n : Nat} {x : Terminal} {inside inside' : Bool}
  {taken : α → Nat}

/-- The limits of two readers and their nesting. -/
structure Accounted (C : Coupling) (m n : Nat) (s s' : State) : Prop where
  limit_eq : s.limit = C.limit
  limit_eq' : s'.limit = C.limit'
  depth_eq : s.limit = s.depth + m
  depth_eq' : s'.limit = s'.depth + n

structure Coupled (C : Coupling) (inside : Bool) (m n : Nat) (s s' : State) : Prop
    extends Accounted C m n s s' where
  stands : C.Stands s.cursor s.current s'.cursor s'.current
  levels : C.Levels m n
  peak_eq : inside = true → s.peak + s'.depth = s'.peak + s.depth

structure Failed (C : Coupling) (m n : Nat) (s s' : State) : Prop
    extends Accounted C m n s s' where
  left : C.Left s.cursor s.current s'.cursor s'.current

/-- Two readers that are started side by side. -/
theorem Coupled.start {c c' : Cursor} {t t' : Token} (h : C.Stands c t c' t')
    (hl : C.Levels C.limit C.limit') (k l : Nat) : C.Coupled false C.limit C.limit'
      ⟨c, t, C.limit, 0, k⟩ ⟨c', t', C.limit', 0, l⟩ where
  stands := h
  levels := hl
  limit_eq := rfl
  limit_eq' := rfl
  depth_eq := (Nat.zero_add _).symm
  depth_eq' := (Nat.zero_add _).symm
  peak_eq h := Bool.noConfusion h

/-- What two rules give that began at `s` and `s'`. -/
inductive Outcome (C : Coupling) (inside : Bool) (m n : Nat) (taken : α → Nat) (s s' : State) :
    EStateM.Result ParseError State α → EStateM.Result ParseError State α → Prop where
  | ok {a : α} {r r' : State} (h : C.Coupled inside m n r r')
    (htaken : r.remaining + taken a ≤ s.remaining)
    (htaken' : r'.remaining + taken a ≤ s'.remaining) :
    Outcome C inside m n taken s s' (.ok a r) (.ok a r')
  | error {e e' : ParseError} {r r' : State} (h : C.Alike e e') (hr : C.Failed m n r r') :
    Outcome C inside m n taken s s' (.error e r) (.error e' r')
  | stopped {r : EStateM.Result ParseError State α} {e' : ParseError} {r' : State}
    (h : C.Stops e') : Outcome C inside m n taken s s' r (.error e' r')

/-- From coupled states the two rules come to coupled states and take as many tokens as they have
to, or fail alike, or the second is stopped. -/
def Matches (C : Coupling) (m n : Nat) (x : Terminal) (taken : α → Nat) (f g : Rule α) : Prop :=
  ∀ inside s s', s.current.terminal = x → C.Coupled inside m n s s' →
    C.Outcome inside m n taken s s' (f s) (g s')

section Coupled

variable {s s' r r' : State} {i j : Nat}

theorem Coupled.kind_eq (h : C.Coupled inside m n s s') : s.current.kind = s'.current.kind := by
  rw [← s.current.kind_terminal, C.terminal_eq h.stands, s'.current.kind_terminal]

theorem Coupled.failed (h : C.Coupled inside m n s s') : C.Failed m n s s' :=
  { h with left := C.left h.stands }

/-- The limits stay as they are. -/
theorem Accounted.depth_add (h : C.Accounted m n s s') (h' : C.Accounted i j r r') :
    s.depth + m = r.depth + i ∧ s'.depth + n = r'.depth + j := by
  rw [← h.depth_eq, ← h'.depth_eq, ← h.depth_eq', ← h'.depth_eq', h.limit_eq, h'.limit_eq,
    h.limit_eq', h'.limit_eq']
  exact ⟨rfl, rfl⟩

/-- One level up again. -/
theorem Accounted.ascend (h : C.Accounted m n r r')
    (hs : C.Accounted (m + 1) (n + 1) s s') :
    C.Accounted (m + 1) (n + 1) { r with depth := r.depth - 1 }
      { r' with depth := r'.depth - 1 } := by
  obtain ⟨hdepth, hdepth'⟩ := hs.depth_add h
  have := h.depth_eq
  have := h.depth_eq'
  exact { h with depth_eq := by dsimp only; omega, depth_eq' := by dsimp only; omega }

end Coupled

namespace Outcome

variable {t : α → Nat} {taken : β → Nat} {s s' : State}

theorem bind {f g : Rule α} {f' g' : α → Rule β} (h : C.Outcome inside m n t s s' (f s) (g s'))
    (h' : ∀ a r r', C.Coupled inside m n r r' → r.remaining + t a ≤ s.remaining →
      r'.remaining + t a ≤ s'.remaining → C.Outcome inside' m n taken s s' (f' a r) (g' a r')) :
    C.Outcome inside' m n taken s s' ((f >>= f') s) ((g >>= g') s') := by
  show C.Outcome inside' m n taken s s' (EStateM.bind f f' s) (EStateM.bind g g' s')
  unfold EStateM.bind
  generalize f s = y at h
  generalize g s' = z at h
  cases h with
  | ok h htaken htaken' => exact h' _ _ _ h htaken htaken'
  | error h hr => exact .error h hr
  | stopped h => exact .stopped h

/-- The same outcome, counted from where the two began before. -/
theorem since {r r' : State} {i : Nat} {y z : EStateM.Result ParseError State β}
    (h : C.Outcome inside m n (fun b => taken b - i) r r' y z) (hr : r.remaining + i ≤ s.remaining)
    (hr' : r'.remaining + i ≤ s'.remaining) : C.Outcome inside m n taken s s' y z := by
  cases h with
  | ok h htaken htaken' => exact .ok h (by omega) (by omega)
  | error h hr => exact .error h hr
  | stopped h => exact .stopped h

/-- A pass that goes on has taken a token. -/
theorem pass {f g : Rule (Option α)} {next next' : Option α → Rule α} {a : α}
    (h : C.Outcome inside m n (fun o => o.isSome.toNat) s s' (f s) (g s'))
    (hnone : next none = pure a) (hnone' : next' none = pure a)
    (hsome : ∀ b r r', C.Coupled inside m n r r' → r.remaining < s.remaining →
      r'.remaining < s'.remaining →
      C.Outcome inside m n (fun _ => 0) s s' (next (some b) r) (next' (some b) r')) :
    C.Outcome inside m n (fun _ => 0) s s' ((f >>= next) s) ((g >>= next') s') := by
  refine h.bind fun o r r' hr htaken htaken' => ?_
  cases o with
  | none =>
    rw [hnone, hnone']
    exact .ok hr htaken htaken'
  | some b => exact hsome b r r' hr htaken htaken'

/-- Bounds on the number of passes that are no smaller than the number of tokens are not met. -/
theorem repeatWithin {f g : α → Rule (Option α)} (h : ∀ a s s', C.Coupled inside m n s s' →
      C.Outcome inside m n (fun o => o.isSome.toNat) s s' (f a s) (g a s'))
    {bound bound' : List Char} {a : α} (hbound : s.remaining ≤ bound.length)
    (hbound' : s'.remaining ≤ bound'.length) (hs : C.Coupled inside m n s s') :
    C.Outcome inside m n (fun _ => 0) s s' (Rule.repeatWithin f bound a s)
      (Rule.repeatWithin g bound' a s') := by
  induction bound generalizing bound' a s s' with
  | nil =>
    have hlast (b : α) (r r' : State) (_ : C.Coupled inside m n r r')
        (hlt : r.remaining < s.remaining) : False := by
      rw [List.length_nil] at hbound
      omega
    cases bound' with
    | nil =>
      rw [repeatWithin_nil, repeatWithin_nil]
      exact (h a s s' hs).pass rfl rfl fun b r r' hr hlt _ => (hlast b r r' hr hlt).elim
    | cons c' bound' =>
      rw [repeatWithin_nil, repeatWithin_cons]
      exact (h a s s' hs).pass rfl rfl fun b r r' hr hlt _ => (hlast b r r' hr hlt).elim
  | cons c bound ih =>
    cases bound' with
    | nil =>
      rw [repeatWithin_nil, repeatWithin_cons]
      refine (h a s s' hs).pass rfl rfl fun b r r' _ _ hlt' => ?_
      rw [List.length_nil] at hbound'
      omega
    | cons c' bound' =>
      rw [repeatWithin_cons, repeatWithin_cons]
      refine (h a s s' hs).pass rfl rfl fun b r r' hr hlt hlt' => ?_
      rw [List.length_cons] at hbound hbound'
      exact (ih (by omega) (by omega) hr).since (i := 0) (Nat.le_of_lt hlt) (Nat.le_of_lt hlt')

end Outcome

namespace Matches

theorem bind {t : α → Nat} {taken : β → Nat} {f g : Rule α} {f' g' : α → Rule β}
    (h : C.Matches m n x t f g)
    (h' : ∀ a x, C.Matches m n x (fun b => taken b - t a) (f' a) (g' a)) :
    C.Matches m n x taken (f >>= f') (g >>= g') := by
  intro inside s s' hx hs
  refine (h inside s s' hx hs).bind fun a r r' hr htaken htaken' => ?_
  exact (h' a _ inside r r' rfl hr).since htaken htaken'

theorem peek {f g : TokenKind → Rule α}
    (h : ∀ kind, x.kind = kind → C.Matches m n x taken (f kind) (g kind)) :
    C.Matches m n x taken (Rule.peek >>= f) (Rule.peek >>= g) := by
  rintro inside s s' rfl hs
  show C.Outcome inside m n taken s s' (f s.current.kind s) (g s'.current.kind s')
  rw [← hs.kind_eq]
  exact h _ s.current.kind_terminal inside s s' rfl hs

theorem current {f g : Token → Rule α} (h : ∀ t u : Token, t.terminal = x → u.terminal = x →
    C.Matches m n x taken (f t) (g u)) :
    C.Matches m n x taken (Rule.current >>= f) (Rule.current >>= g) := by
  rintro inside s s' rfl hs
  exact h s.current s'.current rfl (C.terminal_eq hs.stands).symm inside s s' rfl hs

theorem here {f g : Location → Rule α}
    (h : ∀ l l', C.Place x l l' → C.Matches m n x taken (f l) (g l')) :
    C.Matches m n x taken (Rule.here >>= f) (Rule.here >>= g) := by
  rintro inside s s' rfl hs
  exact h _ _ (C.place hs.stands) inside s s' rfl hs

theorem failAt {y : Terminal} {l l' : Location} {fault : SyntaxFault} (h : C.Place y l l')
    (hfault : fault.StandsAt y) :
    C.Matches m n x taken (Rule.failAt l fault) (Rule.failAt l' fault) :=
  fun _ _ _ _ hs => .error (C.fault h hfault) hs.failed

theorem advance {f g : Token → Rule α} (hx : x.kind ≠ .eof) (h : ∀ t u : Token,
    t.terminal = x → u.terminal = x → ∀ y, C.Matches m n y (fun a => taken a - 1) (f t) (g u)) :
    C.Matches m n x taken (Rule.advance >>= f) (Rule.advance >>= g) := by
  rintro inside s s' rfl hs
  rw [Token.kind_terminal] at hx
  have hx' : s'.current.kind ≠ .eof := hs.kind_eq ▸ hx
  have hnext := C.next hs.stands hx
  show C.Outcome inside m n taken s s' (EStateM.bind Rule.advance f s)
    (EStateM.bind Rule.advance g s')
  unfold EStateM.bind Rule.advance
  rw [if_neg hx, if_neg hx']
  cases hy : s.cursor.next with
  | mk y d =>
    cases hz : s'.cursor.next with
    | mk z d' =>
      rw [hy, hz] at hnext
      cases hnext with
      | @ok t t' _ _ hstands =>
        have hr := h s.current s'.current rfl (C.terminal_eq hs.stands).symm _ inside
          { s with cursor := d, current := t } { s' with cursor := d', current := t' } rfl
          { hs with stands := hstands }
        exact hr.since ((Takes.cons hx hy (.nil _)).remaining_lt (List.cons_ne_nil _ _))
          ((Takes.cons hx' hz (.nil _)).remaining_lt (List.cons_ne_nil _ _))
      | error he hleft => exact .error he { hs with left := hleft }
      | stopped he =>
        cases y <;> exact .stopped he

theorem peekNext {f g : TokenKind → Rule α} (hx : x.kind ≠ .eof)
    (h : ∀ k, C.Matches m n x taken (f k) (g k)) :
    C.Matches m n x taken (Rule.peekNext >>= f) (Rule.peekNext >>= g) := by
  rintro inside s s' rfl hs
  rw [Token.kind_terminal] at hx
  have hnext := C.next hs.stands hx
  show C.Outcome inside m n taken s s' (EStateM.bind Rule.peekNext f s)
    (EStateM.bind Rule.peekNext g s')
  unfold EStateM.bind Rule.peekNext
  rw [Cursor.look_one, Cursor.look_one]
  generalize s.cursor.next = y at hnext
  generalize s'.cursor.next = z at hnext
  cases hnext with
  | @ok t t' c c' hstands =>
    have hkind : t.kind = t'.kind := by
      rw [← t.kind_terminal, C.terminal_eq hstands, t'.kind_terminal]
    show C.Outcome inside m n taken s s' (f t.kind s) (g t'.kind s')
    rw [← hkind]
    exact h t.kind inside s s' rfl hs
  | error he => exact .error he hs.failed
  | stopped he =>
    obtain ⟨_ | _, _⟩ := y <;> exact .stopped he

theorem levels {f g : Nat → Rule α} (h : C.Matches m n x taken (f m) (g n)) :
    C.Matches m n x taken (fun s => f s.levels s) (fun s => g s.levels s) := by
  intro inside s s' hx hs
  have hm : s.levels = m := by rw [State.levels, hs.depth_eq, Nat.add_sub_cancel_left]
  have hn : s'.levels = n := by rw [State.levels, hs.depth_eq', Nat.add_sub_cancel_left]
  show C.Outcome inside m n taken s s' (f s.levels s) (g s'.levels s')
  rw [hm, hn]
  exact h inside s s' hx hs

theorem iterate {f g : α → Rule (Option α)} {a : α}
    (h : ∀ a x, C.Matches m n x (fun o => o.isSome.toNat) (f a) (g a)) :
    C.Matches m n x (fun _ => 0) (Rule.iterate f a) (Rule.iterate g a) := by
  intro inside s s' hx hs
  exact .repeatWithin (fun a r r' hr => h a _ inside r r' rfl hr) s.remaining_le_length
    s'.remaining_le_length hs

/-- The levels left decide whether one more can be entered, and so for both or only for the
first. -/
theorem descend {f g : Nat → Rule α}
    (h : ∀ i j, m = i + 1 → n = j + 1 → C.Matches i j x taken (f i) (g j)) :
    C.Matches m n x taken (Rule.descend f m) (Rule.descend g n) := by
  intro inside s s' hx hs
  have hle := C.le hs.levels
  have hplace := C.place hs.stands
  cases n with
  | zero =>
    show C.Outcome inside m 0 taken s s' _ (.error (.grammatical (.nestingTooDeep s'.limit) _) s')
    rw [hs.limit_eq']
    rcases C.tooDeep hs.levels hplace with hstops | ⟨rfl, halike⟩
    · exact .stopped hstops
    · rw [← hs.limit_eq] at halike
      exact .error halike hs.failed
  | succ n =>
    obtain ⟨m, rfl⟩ : ∃ i, m = i + 1 := ⟨m - 1, by omega⟩
    have hd := hs.depth_eq
    have hd' := hs.depth_eq'
    have hinner := h m n rfl rfl inside
      { s with depth := s.depth + 1, peak := max s.peak (s.depth + 1) }
      { s' with depth := s'.depth + 1, peak := max s'.peak (s'.depth + 1) } hx
      { hs with
        levels := C.descend hs.levels
        depth_eq := by dsimp only; omega
        depth_eq' := by dsimp only; omega
        peak_eq := fun hi => by have := hs.peak_eq hi; dsimp only; omega }
    show C.Outcome inside _ _ taken s s' (nested (f m) s) (nested (g n) s')
    unfold nested
    rw [if_neg (by omega), if_neg (by omega)]
    generalize f m _ = y at hinner
    generalize g n _ = z at hinner
    cases hinner with
    | @ok a r r' hr htaken htaken' =>
      have hup := hr.toAccounted.ascend hs.toAccounted
      refine .ok { hup with
        stands := hr.stands
        levels := hs.levels
        peak_eq := fun hi => ?_ } htaken htaken'
      have := hr.peak_eq hi
      have := hs.toAccounted.depth_add hr.toAccounted
      dsimp only
      omega
    | error he hr =>
      exact .error he { hr.toAccounted.ascend hs.toAccounted with left := hr.left }
    | stopped he => rcases y with ⟨_, _⟩ | ⟨_, _⟩ <;> exact .stopped he

theorem chainPass {link link' : α → Rule (Option α)}
    (h : ∀ a x, C.Matches m n x (fun o => o.isSome.toNat) (link a) (link' a)) (p : α × Nat)
    {s s' : State} (hs : C.Coupled true m n s s') :
    C.Outcome true m n (fun o => o.isSome.toNat) s s' (Rule.chainPass link p s)
      (Rule.chainPass link' p s') := by
  obtain ⟨a, l⟩ := p
  show C.Outcome true m n _ s s' ((link a >>= _) s) ((link' a >>= _) s')
  refine (h a _ true s s' rfl hs).bind fun o r r' hr htaken htaken' => ?_
  cases o with
  | none => exact .ok hr htaken htaken'
  | some b =>
    show C.Outcome true m n _ s s'
      ((if r.limit < r.peak + (l + 1) then Rule.failAt _ (.nestingTooDeep r.limit)
        else pure (some (b, l + 1)) : Rule _) r)
      ((if r'.limit < r'.peak + (l + 1) then Rule.failAt _ (.nestingTooDeep r'.limit)
        else pure (some (b, l + 1)) : Rule _) r')
    have hle := C.le hr.levels
    have hd := hr.depth_eq
    have hd' := hr.depth_eq'
    have hpeak := hr.peak_eq rfl
    by_cases hdeep : r'.limit < r'.peak + (l + 1)
    · rw [if_pos hdeep, hr.limit_eq']
      rcases C.tooDeep hr.levels (C.place hs.stands) with hstops | ⟨rfl, halike⟩
      · exact .stopped hstops
      · rw [if_pos (by omega), hr.limit_eq]
        exact .error halike hr.failed
    · rw [if_neg hdeep, if_neg (by omega)]
      exact .ok hr htaken htaken'

/-- Inside the chain the peaks are set back to where the nesting stands. -/
theorem chain {first first' : Rule α} {link link' : α → Rule (Option α)}
    (h : C.Matches m n x (fun _ => 1) first first')
    (h' : ∀ a x, C.Matches m n x (fun o => o.isSome.toNat) (link a) (link' a)) :
    C.Matches m n x (fun _ => 1) (Rule.chain first link) (Rule.chain first' link') := by
  intro inside s s' hx hs
  rw [chain_eq, chain_eq]
  have hfirst := h true { s with peak := s.depth } { s' with peak := s'.depth } hx
    { hs with peak_eq := fun _ => Nat.add_comm _ _ }
  refine (hfirst.bind fun a u u' hu htaken htaken' => ?_).since (i := 0) (Nat.le_refl _)
    (Nat.le_refl _)
  have hlinks := Outcome.repeatWithin (a := (a, 0)) (fun p _ _ => chainPass h' p)
    u.remaining_le_length u'.remaining_le_length hu
  refine (hlinks.bind fun p r r' hr hlinks hlinks' => ?_).since htaken htaken'
  refine .ok { hr with peak_eq := fun hi => ?_ } hlinks hlinks'
  have := hs.peak_eq hi
  have := hr.peak_eq rfl
  have := hs.toAccounted.depth_add hr.toAccounted
  dsimp only
  omega

end Matches

/-- Coupled readers go on side by side through all rules. -/
def congruence (C : Coupling) : Congruence where
  Holds m n x _ taken f g := C.Matches m n x taken f g
  Place := C.Place
  pure h := fun _ _ _ _ hs => .ok hs (by omega) (by omega)
  bind h _ h' := h.bind h'
  peek h := .peek h
  current h := .current h
  here h := .here h
  failAt h hfault := .failAt h hfault
  advance hx h := .advance hx h
  peekNext hx h := .peekNext hx h
  levels h := .levels h
  descend h := .descend h
  iterate h := .iterate h
  chain h h' := .chain h h'

theorem program (C : Coupling) {s s' : State} (h : C.Coupled inside m n s s') :
    C.Outcome inside m n (fun _ => 0) s s' (Rule.program s) (Rule.program s') :=
  Congruence.program (R := C.congruence) m n s.current.terminal inside s s' rfl h

/-- Coupled readers read the same program, or fail alike, or the second is stopped. -/
theorem readProgram (C : Coupling) {s s' : State} (h : C.Coupled inside m n s s') :
    (∃ p r r', s.readProgram = (.ok p, r) ∧ s'.readProgram = (.ok p, r') ∧
        C.Coupled inside m n r r') ∨
      (∃ e e' r r', s.readProgram = (.error e, r) ∧ s'.readProgram = (.error e', r') ∧
        C.Alike e e' ∧ C.Failed m n r r') ∨
      ∃ e', s'.readProgram.1 = .error e' ∧ C.Stops e' := by
  have hprogram := C.program h
  unfold State.readProgram
  generalize Rule.program s = y at hprogram
  generalize Rule.program s' = z at hprogram
  cases hprogram with
  | ok hr => exact .inl ⟨_, _, _, rfl, rfl, hr⟩
  | error he hr => exact .inr (.inl ⟨_, _, _, _, rfl, rfl, he, hr⟩)
  | stopped he => exact .inr (.inr ⟨_, rfl, he⟩)

end Coupling

end ScriptFront
