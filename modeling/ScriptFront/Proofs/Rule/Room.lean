import ScriptFront.Proofs.Rule.Congruence
import ScriptFront.Proofs.Rule.Loops

/-! # Where there is room for all nesting

A rule goes one level deeper, or adds a link to a chain, only behind a token it has taken. So where
no fewer levels are left than tokens, a rule never finds the nesting too deep. -/

namespace ScriptFront

namespace ParseError

/-- Not a complaint about the nesting. -/
def IsShallow (e : ParseError) : Prop := ∀ limit l, e ≠ .grammatical (.nestingTooDeep limit) l

theorem isShallow_lexical (e : LexError) : (lexical e).IsShallow := nofun

end ParseError

namespace Rule

variable {α β : Type}

/-- What a run that began at `s` keeps up to `r`. Nothing it nested on the way goes further up than
the tokens it took make room for. -/
structure Keeps (room taken : Nat) (s r : State) : Prop where
  limit_eq : r.limit = s.limit
  depth_eq : r.depth = s.depth
  remaining_le : r.remaining + taken ≤ s.remaining
  peak_le : r.peak ≤ s.peak ∨ r.peak + r.remaining ≤ s.depth + s.remaining + room

/-- A result is as required, and an error is not about the nesting. -/
def Shallow (P : α → State → Prop) : EStateM.Result ParseError State α → Prop
  | .ok a r => P a r
  | .error e _ => e.IsShallow

namespace Shallow

variable {P P' : α → State → Prop} {Q : β → State → Prop} {s : State}

theorem mono {x : EStateM.Result ParseError State α} (h : Shallow P x)
    (hP : ∀ a r, P a r → P' a r) : Shallow P' x := by
  cases x with
  | ok a r => exact hP a r h
  | error e r => exact h

theorem bind {rule : Rule α} {next : α → Rule β} (h : Shallow P (rule s))
    (hnext : ∀ a r, P a r → Shallow Q (next a r)) : Shallow Q ((rule >>= next) s) := by
  show Shallow Q (EStateM.bind rule next s)
  unfold EStateM.bind
  cases hs : rule s with
  | ok a r =>
    rw [hs] at h
    exact hnext a r h
  | error e r =>
    rw [hs] at h
    exact h

/-- What each pass keeps holds behind a repetition, whatever bounds it. -/
theorem repeatWithin {pass : α → Rule (Option α)}
    (hpass : ∀ a s, P a s → Shallow (fun o r => P (o.getD a) r) (pass a s)) (bound : List Char)
    {a : α} (h : P a s) : Shallow P (repeatWithin pass bound a s) := by
  induction bound generalizing a s with
  | nil =>
    rw [repeatWithin_nil]
    exact .bind (hpass a s h) fun o r hr => hr
  | cons c bound ih =>
    rw [repeatWithin_cons]
    refine .bind (hpass a s h) fun o r hr => ?_
    cases o with
    | none => exact hr
    | some b => exact ih hr

end Shallow

namespace Keeps

variable {room taken i j : Nat} {s r u : State}

theorem refl (room : Nat) (s : State) : Keeps room 0 s s :=
  ⟨rfl, rfl, Nat.le_refl _, .inl (Nat.le_refl _)⟩

theorem trans (h : Keeps room i s u) (h' : Keeps (room + i) j u r) : Keeps room (i + j) s r := by
  have := h.remaining_le
  have := h'.remaining_le
  refine ⟨h'.limit_eq.trans h.limit_eq, h'.depth_eq.trans h.depth_eq, by omega, ?_⟩
  have := h.depth_eq
  rcases h.peak_le with hp | hp <;> rcases h'.peak_le with hp' | hp' <;> omega

theorem weaken (h : Keeps i j s r) (hi : i ≤ room) (hj : taken ≤ j) : Keeps room taken s r := by
  have := h.remaining_le
  refine ⟨h.limit_eq, h.depth_eq, by omega, ?_⟩
  rcases h.peak_le with hp | hp
  · exact .inl hp
  · exact .inr (by omega)

end Keeps

/-- With `m` levels left, and `room` more than tokens are left, the nesting is not too deep. -/
def Roomy (m : Nat) (x : Terminal) (room : Nat) (taken : α → Nat) (rule : Rule α) : Prop :=
  ∀ s : State, s.current.terminal = x → s.limit = s.depth + m → s.remaining + room ≤ m →
    Shallow (fun a r => Keeps room (taken a) s r) (rule s)

namespace Roomy

variable {m room i : Nat} {x : Terminal} {taken : α → Nat}

theorem pure {a : α} (h : taken a = 0) : Roomy m x room taken (pure a) := by
  intro s _ _ _
  show Keeps room (taken a) s s
  rw [h]
  exact .refl room s

theorem bind {t : α → Nat} {taken : β → Nat} {rule : Rule α} {next : α → Rule β}
    (h : Roomy m x i t rule) (hi : i ≤ room)
    (hnext : ∀ a x, Roomy m x (room + t a) (fun b => taken b - t a) (next a)) :
    Roomy m x room taken (rule >>= next) := by
  intro s hk hl hr
  refine .bind (h s hk hl (by omega)) fun a u hu => ?_
  have := hu.limit_eq
  have := hu.depth_eq
  have := hu.remaining_le
  refine .mono (hnext a _ u rfl (by omega) (by omega)) fun b r hr => ?_
  exact ((hu.weaken hi (Nat.le_refl _)).trans hr).weaken (Nat.le_refl _) (by dsimp only; omega)

theorem advance {next : Token → Rule α} (hx : x.kind ≠ .eof) (h : ∀ t : Token, t.terminal = x →
    ∀ y, Roomy m y (room + 1) (fun a => taken a - 1) (next t)) :
    Roomy m x room taken (Rule.advance >>= next) := by
  rintro s rfl hl hr
  rw [Token.kind_terminal] at hx
  refine .bind (P := fun t r => t = s.current ∧ Takes s [s.current.terminal] r) ?_ ?_
  · cases hs : Rule.advance s with
    | ok t r => exact (advance_ok_iff hx).mp hs
    | error e r =>
      unfold Rule.advance at hs
      rw [if_neg hx] at hs
      split at hs <;> cases hs
      exact ParseError.isShallow_lexical _
  · rintro _ u ⟨rfl, hu⟩
    have hstep : Keeps room 1 s u := ⟨hu.limit_eq, hu.depth_eq,
      hu.remaining_lt (List.cons_ne_nil _ _), .inl (Nat.le_of_eq hu.peak_eq)⟩
    have := hstep.limit_eq
    have := hstep.depth_eq
    have := hstep.remaining_le
    refine .mono (h s.current rfl _ u rfl (by omega) (by omega)) fun a r hr => ?_
    exact (hstep.trans hr).weaken (Nat.le_refl _) (by dsimp only; omega)

theorem peekNext {next : TokenKind → Rule α} (h : ∀ k, Roomy m x room taken (next k)) :
    Roomy m x room taken (Rule.peekNext >>= next) := by
  intro s hk hl hr
  refine .bind (P := fun _ r => r = s) ?_ ?_
  · unfold Rule.peekNext
    split
    · rfl
    · exact ParseError.isShallow_lexical _
  · rintro k _ rfl
    exact h k _ hk hl hr

/-- One level deeper, the room is one less. -/
theorem descend {rule : Nat → Rule α} (h : ∀ i, m = i + 1 → Roomy i x room taken (rule i)) :
    Roomy m x (room + 1) taken (Rule.descend rule m) := by
  intro s hk hl hr
  obtain ⟨i, rfl⟩ : ∃ i, m = i + 1 := ⟨m - 1, by omega⟩
  have hdepth : ¬ s.limit ≤ s.depth := by omega
  have hinner := h i rfl { s with depth := s.depth + 1, peak := max s.peak (s.depth + 1) } hk
    (by dsimp only; omega) (by show s.remaining + room ≤ i; omega)
  show Shallow _ (nested (rule i) s)
  unfold nested
  rw [if_neg hdepth]
  split
  · rename_i a r hs
    rw [hs] at hinner
    obtain ⟨hlimit, hdepth, hremaining, hpeak⟩ := hinner
    change r.remaining + taken a ≤ s.remaining at hremaining
    change r.peak ≤ max s.peak (s.depth + 1) ∨
      r.peak + r.remaining ≤ s.depth + 1 + s.remaining + room at hpeak
    refine ⟨hlimit, by dsimp only at hdepth ⊢; omega, hremaining, ?_⟩
    show r.peak ≤ s.peak ∨ r.peak + r.remaining ≤ s.depth + s.remaining + (room + 1)
    omega
  · rename_i hs
    rw [hs] at hinner
    exact hinner

theorem iterate {pass : α → Rule (Option α)} {a : α}
    (h : ∀ a x, Roomy m x room (fun o => o.isSome.toNat) (pass a)) :
    Roomy m x room (fun _ => 0) (Rule.iterate pass a) := by
  intro s hk hl hr
  refine .repeatWithin (P := fun _ r => Keeps room 0 s r) (fun a r hr => ?_) _ (.refl room s)
  have := hr.limit_eq
  have := hr.depth_eq
  have := hr.remaining_le
  refine .mono (h a _ r rfl (by omega) (by omega)) fun o u hu => ?_
  exact hr.trans (hu.weaken (Nat.le_refl _) (Nat.zero_le _))

/-- Where a chain that began at `s` has come to. -/
structure Linked (s : State) (links : Nat) (r : State) : Prop where
  limit_eq : r.limit = s.limit
  depth_eq : r.depth = s.depth
  remaining_lt : r.remaining + links < s.remaining
  peak_le : r.peak + links + r.remaining ≤ s.depth + s.remaining

namespace Linked

variable {s r q : State} {links : Nat}

theorem first (h : Keeps 0 1 { s with peak := s.depth } r) : Linked s 0 r := by
  obtain ⟨hlimit, hdepth, hremaining, hpeak⟩ := h
  change r.remaining + 1 ≤ s.remaining at hremaining
  change r.peak ≤ s.depth ∨ r.peak + r.remaining ≤ s.depth + s.remaining + 0 at hpeak
  exact ⟨hlimit, hdepth, hremaining, by omega⟩

theorem step {i : Nat} (h : Linked s links r) (hq : Keeps 0 i r q) (hi : i ≤ 1) :
    Linked s (links + i) q := by
  have := h.depth_eq
  have := h.remaining_lt
  have := h.peak_le
  have := hq.remaining_le
  have := hq.peak_le
  exact ⟨hq.limit_eq.trans h.limit_eq, hq.depth_eq.trans h.depth_eq, by omega, by omega⟩

theorem last (h : Linked s links r) :
    Keeps 0 1 s { r with peak := max s.peak (r.peak + links) } := by
  have := h.remaining_lt
  have := h.peak_le
  refine ⟨h.limit_eq, h.depth_eq, ?_, ?_⟩
  · show r.remaining + 1 ≤ s.remaining
    omega
  · show max s.peak (r.peak + links) ≤ s.peak ∨
      max s.peak (r.peak + links) + r.remaining ≤ s.depth + s.remaining + 0
    omega

end Linked

/-- Every link of a chain takes a token, which makes room for it. -/
theorem chain {first : Rule α} {link : α → Rule (Option α)} (h : Roomy m x 0 (fun _ => 1) first)
    (hlink : ∀ a x, Roomy m x 0 (fun o => o.isSome.toNat) (link a)) :
    Roomy m x 0 (fun _ => 1) (Rule.chain first link) := by
  intro s hk hl hr
  have hfirst := h { s with peak := s.depth } hk hl hr
  rw [chain_eq]
  refine .bind hfirst fun a u hu => ?_
  refine .bind (P := fun p r => Linked s p.2 r) (.repeatWithin (fun p r hr => ?_) _ ?_)
    fun p r hr => ?_
  · obtain ⟨a, l⟩ := p
    have := hr.limit_eq
    have := hr.depth_eq
    have := hr.remaining_lt
    show Shallow _ ((link a >>= _) r)
    refine .bind (hlink a _ r rfl (by omega) (by omega)) fun o q hq => ?_
    cases o with
    | none => exact hr.step hq (Nat.zero_le 1)
    | some b =>
      have hq : Linked s (l + 1) q := hr.step hq (Nat.le_refl 1)
      have := hq.peak_le
      have := hq.limit_eq
      show Shallow _ ((if q.limit < q.peak + (l + 1) then Rule.failAt _ _
        else Pure.pure (some (b, l + 1)) : Rule _) q)
      rw [if_neg (by omega)]
      exact hq
  · exact .first hu
  · exact hr.last

end Roomy

/-- Where no fewer levels are left than tokens, no nesting is too deep, for all rules. -/
def roomy : Congruence where
  Holds m n x room taken f _ := m = n → Roomy m x room taken f
  Place _ _ _ := True
  pure h _ := .pure h
  bind h hi h' hmn := .bind (h hmn) hi fun a x => h' a x hmn
  peek h hmn := by
    rintro s rfl
    exact h _ s.current.kind_terminal hmn s rfl
  current h hmn := by
    rintro s rfl
    exact h s.current s.current rfl rfl hmn s rfl
  here h hmn s hx := h s.current.location s.current.location trivial hmn s hx
  failAt _ hfault _ s _ _ _ := by
    rintro limit l ⟨⟩
    exact hfault
  advance hx h hmn := .advance hx fun t ht y => h t t ht ht y hmn
  peekNext _ h hmn := .peekNext fun k => h k hmn
  levels {_ m _ _ _ _ f _} h hmn := by
    intro s hx hl hr
    have : s.levels = m := by rw [State.levels, hl, Nat.add_sub_cancel_left]
    show Shallow _ (f s.levels s)
    rw [this]
    exact h hmn s hx hl hr
  descend h hmn := .descend fun i hi => h i i hi (hmn ▸ hi) rfl
  iterate h hmn := .iterate fun a x => h a x hmn
  chain h h' hmn := .chain (h hmn) fun a x => h' a x hmn

end Rule

end ScriptFront
