import ScriptFront.Proofs.Rule.Congruence
import ScriptFront.Proofs.Rule.Loops

/-! # Rules get on

A rule that succeeds has taken tokens: those the state stood in front of, one behind the other. A
repetition whose passes take one each ends by itself, after no more passes than tokens are left. -/

namespace ScriptFront

open Terminal

/-- The tokens from one state to another, whatever peak was reached on the way. -/
def Spans (s : State) (w : List Terminal) (r : State) : Prop := Takes s w { r with peak := s.peak }

theorem Takes.spans {s r : State} {w : List Terminal} (h : Takes s w r) : Spans s w r := by
  have hpeak := h.peak_eq
  cases r
  cases hpeak
  exact h

namespace Spans

variable {s u r : State} {v w : List Terminal}

theorem refl (s : State) : Spans s [] s := .nil s

theorem trans (h : Spans s v u) (h' : Spans u w r) : Spans s (v ++ w) r :=
  Takes.append h (Takes.repeak h' s.peak)

theorem repeak (h : Spans s w r) (peak peak' : Nat) :
    Spans { s with peak := peak } w { r with peak := peak' } :=
  Takes.repeak h peak

theorem limit_eq (h : Spans s w r) : r.limit = s.limit := by
  have htakes : Takes s w { r with peak := s.peak } := h
  exact htakes.limit_eq

theorem depth_eq (h : Spans s w r) : r.depth = s.depth := by
  have htakes : Takes s w { r with peak := s.peak } := h
  exact htakes.depth_eq

theorem levels_eq (h : Spans s w r) : r.levels = s.levels := by
  rw [State.levels, State.levels, h.limit_eq, h.depth_eq]

theorem length_le (h : Spans s w r) : w.length + r.remaining ≤ s.remaining := by
  have htakes : Takes s w { r with peak := s.peak } := h
  exact htakes.length_add_remaining_le

end Spans

namespace Rule

variable {α β : Type} {m n : Nat} {x : Terminal}

/-- With `m` levels left, at a token `x`, a rule that succeeds takes `taken` tokens or more. -/
def Consumes (m : Nat) (x : Terminal) (taken : α → Nat) (rule : Rule α) : Prop :=
  ∀ s a r, s.current.terminal = x → s.levels = m → rule s = .ok a r →
    ∃ w, taken a ≤ w.length ∧ Spans s w r

namespace Consumes

variable {taken : α → Nat}

theorem pure {a : α} (h : taken a = 0) : Consumes m x taken (Pure.pure a) := by
  intro s b r _ _ hb
  cases hb
  exact ⟨[], Nat.le_of_eq h, .refl s⟩

theorem bind {taken : β → Nat} {t : α → Nat} {rule : Rule α} {next : α → Rule β}
    (h : Consumes m x t rule) (hnext : ∀ a x, Consumes m x (fun b => taken b - t a) (next a)) :
    Consumes m x taken (rule >>= next) := by
  intro s b r hx hm hb
  obtain ⟨a, u, ha, hb⟩ := bind_ok_iff.mp hb
  obtain ⟨v, hv, hsu⟩ := h s a u hx hm ha
  obtain ⟨w, hw, hur⟩ := hnext a _ u b r rfl (hsu.levels_eq.trans hm) hb
  refine ⟨v ++ w, ?_, hsu.trans hur⟩
  rw [List.length_append]
  exact Nat.le_trans (Nat.sub_le_iff_le_add'.mp hw) (Nat.add_le_add_right hv _)

theorem advance {next : Token → Rule α} (hx : x.kind ≠ .eof) (h : ∀ t : Token, t.terminal = x →
    ∀ y, Consumes m y (fun a => taken a - 1) (next t)) :
    Consumes m x taken (Rule.advance >>= next) := by
  rintro s a r rfl hm ha
  rw [Token.kind_terminal] at hx
  obtain ⟨t, u, ht, ha⟩ := bind_ok_iff.mp ha
  obtain ⟨rfl, hu⟩ := (advance_ok_iff hx).mp ht
  obtain ⟨w, hw, hur⟩ := h _ rfl _ u a r rfl (hu.spans.levels_eq.trans hm) ha
  refine ⟨[s.current.terminal] ++ w, ?_, hu.spans.trans hur⟩
  exact Nat.sub_le_iff_le_add.mp hw

theorem peekNext {next : TokenKind → Rule α} (h : ∀ k, Consumes m x taken (next k)) :
    Consumes m x taken (Rule.peekNext >>= next) := by
  intro s a r hx hm ha
  obtain ⟨k, u, hk, ha⟩ := bind_ok_iff.mp ha
  unfold Rule.peekNext at hk
  split at hk
  · cases hk
    exact h _ s a r hx hm ha
  · cases hk

/-- One level deeper the same tokens are taken. -/
theorem descend {rule : Nat → Rule α} (h : ∀ i, m = i + 1 → Consumes i x taken (rule i)) :
    Consumes m x taken (Rule.descend rule m) := by
  intro s a r hx hm ha
  unfold State.levels at hm
  cases m with
  | zero => cases ha
  | succ i =>
    change nested (rule i) s = .ok a r at ha
    rw [nested, if_neg (by omega)] at ha
    split at ha
    · rename_i a' q hq
      cases ha
      have hlevels : s.limit - (s.depth + 1) = i := by omega
      obtain ⟨w, hw, hspans⟩ := h i rfl { s with depth := s.depth + 1, peak := _ } a q hx hlevels hq
      have hlimit : q.limit = s.limit := hspans.limit_eq
      have hdepth : q.depth - 1 = s.depth := by
        rw [hspans.depth_eq]
        exact Nat.add_sub_cancel ..
      have houter : Takes s w { q with limit := s.limit, depth := s.depth, peak := s.peak } :=
        Takes.reset hspans s.limit s.depth s.peak
      refine ⟨w, hw, ?_⟩
      show Takes s w { q with depth := q.depth - 1, peak := s.peak }
      rwa [hdepth, hlimit]
    · cases ha

theorem repeatWithin {pass : α → Rule (Option α)} {taken : Option α → Nat}
    (h : ∀ a x, Consumes m x taken (pass a)) (bound : List Char) {a b : α} {s r : State}
    (hm : s.levels = m) (hb : repeatWithin pass bound a s = .ok b r) : ∃ w, Spans s w r := by
  induction bound generalizing a s with
  | nil =>
    rw [repeatWithin_nil] at hb
    obtain ⟨o, u, ho, hr⟩ := bind_ok_iff.mp hb
    cases hr
    obtain ⟨w, -, hw⟩ := h a _ s o r rfl hm ho
    exact ⟨w, hw⟩
  | cons c bound ih =>
    rw [repeatWithin_cons] at hb
    obtain ⟨o, u, ho, hr⟩ := bind_ok_iff.mp hb
    obtain ⟨v, -, hv⟩ := h a _ s o u rfl hm ho
    cases o with
    | none =>
      cases hr
      exact ⟨v, hv⟩
    | some d =>
      obtain ⟨w, hw⟩ := ih (hv.levels_eq.trans hm) hr
      exact ⟨v ++ w, hv.trans hw⟩

theorem chainPass {link : α → Rule (Option α)}
    (h : ∀ a x, Consumes m x (fun o => o.isSome.toNat) (link a)) (p : α × Nat) (x : Terminal) :
    Consumes m x (fun o => o.isSome.toNat) (chainPass link p) := by
  intro s o r hx hm ho
  rcases chainPass_ok_iff.mp ho with ⟨hlink, rfl⟩ | ⟨c, hlink, rfl, -⟩
  · exact h _ x s none r hx hm hlink
  · exact h _ x s (some c) r hx hm hlink

theorem chain {first : Rule α} {link : α → Rule (Option α)}
    (h : Consumes m x (fun _ => 1) first)
    (hlink : ∀ a x, Consumes m x (fun o => o.isSome.toNat) (link a)) :
    Consumes m x (fun _ => 1) (Rule.chain first link) := by
  intro s d r hx hm hd
  obtain ⟨a, q, l, q', ha, hq, rfl⟩ := chain_ok_iff.mp hd
  obtain ⟨v, hv, hsq⟩ := h { s with peak := s.depth } a q hx hm ha
  obtain ⟨w, hw⟩ := repeatWithin (chainPass hlink) _ (hsq.levels_eq.trans hm) hq
  refine ⟨v ++ w, ?_, (hsq.trans hw).repeak s.peak _⟩
  rw [List.length_append]
  exact Nat.le_add_right_of_le hv

end Consumes

/-- Every rule takes tokens, as many as its shape tells. -/
def consuming : Congruence where
  Holds m n x _ taken f _ := m = n → Consumes m x taken f
  Place _ _ _ := True
  pure h _ := .pure h
  bind h _ h' hmn := .bind (h hmn) fun a x => h' a x hmn
  peek h hmn := by
    rintro s a r rfl
    exact h _ s.current.kind_terminal hmn s a r rfl
  current h hmn := by
    rintro s a r rfl
    exact h s.current s.current rfl rfl hmn s a r rfl
  here h hmn s a r hx := h s.current.location s.current.location trivial hmn s a r hx
  failAt _ _ _ _ _ _ _ _ := nofun
  advance hx h hmn := .advance hx fun t ht y => h t t ht ht y hmn
  peekNext _ h hmn := .peekNext fun k => h k hmn
  levels {_ m _ _ _ _ f _} h hmn := by
    intro s a r hx hm ha
    change f s.levels s = .ok a r at ha
    rw [hm] at ha
    exact h hmn s a r hx hm ha
  descend h hmn := .descend fun i hi => h i i hi (hmn ▸ hi) rfl
  iterate h hmn s a r _ hm ha := by
    obtain ⟨w, hw⟩ := Consumes.repeatWithin (fun a x => h a x hmn) _ hm ha
    exact ⟨w, Nat.zero_le _, hw⟩
  chain h h' hmn := .chain (h hmn) fun a x => h' a x hmn

/-- What a repetition without any bound comes to, and how many of its passes go on. -/
inductive Ends (pass : α → Rule (Option α)) :
    Nat → α → State → EStateM.Result ParseError State α → Prop where
  | declines {a : α} {s r : State} (h : pass a s = .ok none r) : Ends pass 0 a s (.ok a r)
  | fails {a : α} {s r : State} {e : ParseError} (h : pass a s = .error e r) :
      Ends pass 0 a s (.error e r)
  | goesOn {n : Nat} {a b : α} {s r : State} {result : EStateM.Result ParseError State α}
      (h : pass a s = .ok (some b) r) (hend : Ends pass n b r result) :
      Ends pass (n + 1) a s result

/-- Where `m` levels are left, repeating a pass comes to an end no later than the text does, and it
is the end that a repetition with a bound comes to. -/
def Halts (m : Nat) (pass : α → Rule (Option α)) : Prop :=
  ∀ a s, s.levels = m → ∃ n, n ≤ s.remaining ∧ Ends pass n a s (iterate pass a s)

/-- A pass that goes on only where it takes a token leaves fewer of them. -/
theorem progress_of_consumes {pass : α → Rule (Option α)}
    (h : ∀ a x, Consumes m x (fun o => o.isSome.toNat) (pass a)) (a : α) (s : State) (b : α)
    (r : State) (hs : s.levels = m) (hb : pass a s = .ok (some b) r) :
    r.levels = m ∧ r.remaining < s.remaining := by
  obtain ⟨w, hw, hspans⟩ := h a _ s _ r rfl hs hb
  have htaken : 1 ≤ w.length := hw
  have hlength := hspans.length_le
  exact ⟨hspans.levels_eq.trans hs, by omega⟩

/-- Such a pass cannot go on for ever. -/
theorem halts_of_consumes {pass : α → Rule (Option α)}
    (h : ∀ a x, Consumes m x (fun o => o.isSome.toNat) (pass a)) : Halts m pass := by
  have hpass := progress_of_consumes h
  intro a s hs
  induction hn : s.remaining using Nat.strongRecOn generalizing a s with
  | ind _ ih =>
    subst hn
    rw [iterate_eq hpass hs]
    split
    · rename_i hfail
      exact ⟨0, Nat.zero_le _, .fails hfail⟩
    · rename_i hdecline
      exact ⟨0, Nat.zero_le _, .declines hdecline⟩
    · rename_i b r hgo
      obtain ⟨hr, hlt⟩ := hpass a s b r hs hgo
      obtain ⟨n, hn, hend⟩ := ih _ hlt b r hr rfl
      exact ⟨n + 1, by omega, .goesOn hgo hend⟩

section Takes

variable {s u : State} {k : TokenKind} {x : Terminal}

theorem bind_of_ok {rule : Rule α} {a : α} (h : rule s = .ok a u) (next : α → Rule β) :
    (rule >>= next) s = next a u := by
  show EStateM.bind rule next s = _
  rw [EStateM.bind, h]

theorem bind_of_error {rule : Rule α} {e : ParseError} (h : rule s = .error e u)
    (next : α → Rule β) : (rule >>= next) s = .error e u := by
  show EStateM.bind rule next s = _
  rw [EStateM.bind, h]

theorem advance_of_takes (h : Takes s [x] u) : advance s = .ok s.current u := by
  have hne : s.current.kind ≠ .eof := by
    cases h
    assumption
  obtain rfl := h.terminal_eq
  exact (advance_ok_iff hne).mpr ⟨rfl, h⟩

theorem expect_of_takes (h : Takes s [x] u) (hx : x.kind = k) :
    expect k s = .ok s.current u := by
  show (if s.current.kind = k then advance else _) s = _
  rw [if_pos (h.current_kind.trans hx)]
  exact advance_of_takes h

theorem accept_of_takes (h : Takes s [x] u) (hx : x.kind = k) : accept k s = .ok true u := by
  show (if s.current.kind = k then _ else _ : Rule Bool) s = _
  rw [if_pos (h.current_kind.trans hx), discard_bind]
  exact bind_of_ok (advance_of_takes h) _

theorem accept_of_ne (h : s.current.kind ≠ k) : accept k s = .ok false s := by
  show (if s.current.kind = k then _ else _ : Rule Bool) s = _
  rw [if_neg h]
  rfl

theorem name_of_takes {text : String} (h : Takes s [carrying .identifier text] u) :
    name s = .ok text u := by
  have hexpect : expect .identifier s = .ok s.current u := expect_of_takes h rfl
  have hcontent := (Token.of_terminal_eq_carrying h.terminal_eq.symm).2
  rw [name, bind_of_ok hexpect, hcontent]
  rfl

variable {item : α → Rule α} {a : α}

/-- Behind a separator comes one more item, and then the rest. -/
theorem iterate_behind_of_takes
    (h : ∀ a x, Consumes m x (fun o => o.isSome.toNat) (behind k item a)) (hs : s.levels = m)
    (hu : Takes s [x] u) (hx : x.kind = k) :
    iterate (behind k item) a s = (item a >>= iterate (behind k item)) u := by
  have hpass : behind k item a s = (item a >>= fun b => pure (some b)) u :=
    bind_of_ok (accept_of_takes hu hx) _
  rw [iterate_eq (progress_of_consumes h) hs, hpass]
  cases ha : item a u with
  | ok b r => rw [bind_of_ok ha, bind_of_ok ha]; rfl
  | error e r => rw [bind_of_error ha, bind_of_error ha]

theorem iterate_behind_of_ne
    (h : ∀ a x, Consumes m x (fun o => o.isSome.toNat) (behind k item a)) (hs : s.levels = m)
    (hk : s.current.kind ≠ k) : iterate (behind k item) a s = .ok a s := by
  have hpass : behind k item a s = .ok none s := bind_of_ok (accept_of_ne hk) _
  rw [iterate_eq (progress_of_consumes h) hs, hpass]

end Takes

end Rule

end ScriptFront
