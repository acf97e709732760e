import ScriptFront.Proofs.Rule.Takes

/-! # What rules read

A language relates the terminals read to the kind behind them, the value built and the nesting
levels needed. A rule reads a language when, with `n` levels left, it succeeds on exactly the
members that need at most `n` of them, and leaves the state behind them with that nesting reached.
There is one law for each way to build a rule. -/

namespace ScriptFront

abbrev Language (α : Type) := List Terminal → TokenKind → α → Nat → Prop

namespace Language

variable {α β : Type}

def nothing : Language α := fun _ _ _ _ => False

def value (a : α) : Language α := fun w _ b m => w = [] ∧ b = a ∧ m = 0

def seq (G : Language α) (H : α → Language β) : Language β := fun w k b m =>
  ∃ v a i u j, w = v ++ u ∧ G v (lead u k) a i ∧ H a u k b j ∧ m = max i j

def image (f : α → β) (G : Language α) : Language β := fun w k b m => ∃ a, G w k a m ∧ b = f a

/-- One terminal and then a language. -/
def after (x : Terminal) (G : Language α) : Language α := fun w k a m =>
  ∃ v, w = x :: v ∧ G v k a m

/-- A terminal that carries a text, and then a language that depends on the text. -/
def afterText (kind : TokenKind) (G : String → Language α) : Language α := fun w k a m =>
  ∃ text v, w = .carrying kind text :: v ∧ G text v k a m

/-- A terminal of a kind and then one language, or another one where no such terminal leads. -/
def option (kind : TokenKind) (G H : Language α) : Language α := fun w k a m =>
  after (.fixed kind) G w k a m ∨ lead w k ≠ kind ∧ H w k a m

def deeper (G : Language α) : Language α := fun w k a m => ∃ i, m = i + 1 ∧ G w k a i

end Language

open ScriptFront.Language

theorem takes_raise_iff {s u : State} {w : List Terminal} {m : Nat} :
    Takes (s.raise m) w u ↔ ∃ r, Takes s w r ∧ u = r.raise m := by
  constructor
  · intro h
    have hs : Takes s w { u with limit := s.limit, depth := s.depth, peak := s.peak } :=
      h.reset s.limit s.depth s.peak
    exact ⟨_, hs, h.unique (hs.raise m)⟩
  · rintro ⟨r, h, rfl⟩
    exact h.raise m

namespace Rule

variable {α β : Type} {n : Nat} {t : Token}

/-- The states that leave `n` levels. -/
def Leaves (n : Nat) (s : State) : Prop := s.limit = s.depth + n ∧ s.depth ≤ s.peak

/-- What a rule reads, with `n` levels left, where `t` is the current token. -/
def ReadsFrom (n : Nat) (t : Token) (rule : Rule α) (G : Language α) : Prop :=
  ∀ s : State, s.current = t → Leaves n s → ∀ a r, rule s = .ok a r ↔
    ∃ w m u, G w u.current.kind a m ∧ Takes s w u ∧ m ≤ n ∧ r = u.raise m

def Reads (n : Nat) (rule : Rule α) (G : Language α) : Prop := ∀ t, ReadsFrom n t rule G

theorem Leaves.takes {s u : State} {w : List Terminal} (h : Leaves n s) (hu : Takes s w u) :
    Leaves n u := by
  unfold Leaves
  rw [hu.limit_eq, hu.depth_eq, hu.peak_eq]
  exact h

theorem Leaves.raise {s : State} (h : Leaves n s) (m : Nat) : Leaves n (s.raise m) :=
  ⟨h.1, Nat.le_trans h.2 (Nat.le_max_left _ _)⟩

theorem Reads.ok_iff {rule : Rule α} {G : Language α} (h : Reads n rule G) {s r : State} {a : α}
    (hs : Leaves n s) : rule s = .ok a r ↔
      ∃ w m u, G w u.current.kind a m ∧ Takes s w u ∧ m ≤ n ∧ r = u.raise m :=
  h _ s rfl hs a r

theorem bind_ok_iff {rule : Rule α} {next : α → Rule β} {s r : State} {b : β} :
    (rule >>= next) s = .ok b r ↔ ∃ a u, rule s = .ok a u ∧ next a u = .ok b r := by
  show EStateM.bind rule next s = _ ↔ _
  unfold EStateM.bind
  split
  · rename_i a u h
    constructor
    · exact fun hb => ⟨a, u, h, hb⟩
    · rintro ⟨a', u', h', hb⟩
      rw [h] at h'
      cases h'
      exact hb
  · rename_i h
    simp [h]

theorem map_ok_iff {rule : Rule α} {f : α → β} {s r : State} {b : β} :
    (f <$> rule) s = .ok b r ↔ ∃ a, rule s = .ok a r ∧ b = f a := by
  show EStateM.map f rule s = _ ↔ _
  unfold EStateM.map
  split
  · rename_i a u h
    constructor
    · intro hb
      cases hb
      exact ⟨a, h, rfl⟩
    · rintro ⟨a', h', rfl⟩
      rw [h] at h'
      cases h'
      rfl
  · rename_i h
    simp [h]

theorem map_eq_map {rule rule' : Rule α} {s u : State} (h : rule s = rule' u) (f : α → β) :
    (f <$> rule) s = (f <$> rule') u := by
  show EStateM.map f rule s = EStateM.map f rule' u
  unfold EStateM.map
  rw [h]

/-- Only the members that the current token leads matter. -/
theorem ReadsFrom.congr {rule : Rule α} {G H : Language α} (h : ReadsFrom n t rule G)
    (hGH : ∀ w k a m, lead w k = t.kind → (∀ x v, w = x :: v → x = t.terminal) →
      (G w k a m ↔ H w k a m)) : ReadsFrom n t rule H := by
  rintro s rfl hs a r
  have hGH {w u m} (hu : Takes s w u) :
      G w u.current.kind a m ↔ H w u.current.kind a m := by
    refine hGH _ _ _ _ hu.current_kind.symm ?_
    rintro x v rfl
    exact hu.terminal_eq
  rw [h s rfl hs a r]
  constructor <;> rintro ⟨w, m, u, hw, hu, hm⟩
  · exact ⟨w, m, u, (hGH hu).mp hw, hu, hm⟩
  · exact ⟨w, m, u, (hGH hu).mpr hw, hu, hm⟩

theorem Reads.congr {rule : Rule α} {G H : Language α} (h : Reads n rule G)
    (hGH : ∀ w k a m, G w k a m ↔ H w k a m) : Reads n rule H :=
  fun t => (h t).congr fun w k a m _ _ => hGH w k a m

theorem reads_pure (a : α) : ReadsFrom n t (pure a) (value a) := by
  intro s _ ⟨_, hp⟩ b r
  show EStateM.Result.ok a s = .ok b r ↔ _
  constructor
  · intro h
    cases h
    exact ⟨[], 0, s, ⟨rfl, rfl, rfl⟩, .nil s, Nat.zero_le n, (s.raise_zero hp).symm⟩
  · rintro ⟨w, m, u, ⟨rfl, rfl, rfl⟩, hw, -, rfl⟩
    cases hw
    rw [s.raise_zero hp]

theorem reads_bind {rule : Rule α} {next : α → Rule β} {G : Language α} {H : α → Language β}
    (hG : ReadsFrom n t rule G) (hH : ∀ a, Reads n (next a) (H a)) :
    ReadsFrom n t (rule >>= next) (seq G H) := by
  intro s ht hs b r
  rw [bind_ok_iff]
  constructor
  · rintro ⟨a, _, ha, hb⟩
    obtain ⟨v, i, u, hv, hu, hi, rfl⟩ := (hG s ht hs a _).mp ha
    obtain ⟨w, j, q, hw, hq, hj, rfl⟩ := ((hH a).ok_iff ((hs.takes hu).raise i)).mp hb
    obtain ⟨q, huq, rfl⟩ := takes_raise_iff.mp hq
    refine ⟨v ++ w, max i j, q, ⟨v, a, i, w, j, rfl, ?_, hw, rfl⟩, hu.append huq, by omega, by simp⟩
    rw [← huq.current_kind]
    exact hv
  · rintro ⟨_, _, q, ⟨v, a, i, w, j, rfl, hv, hw, rfl⟩, hq, hm, rfl⟩
    obtain ⟨u, hu, hq⟩ := hq.split
    rw [← hq.current_kind] at hv
    refine ⟨a, u.raise i, (hG s ht hs a _).mpr ⟨v, i, u, hv, hu, by omega, rfl⟩, ?_⟩
    exact ((hH a).ok_iff ((hs.takes hu).raise i)).mpr
      ⟨w, j, q.raise i, hw, hq.raise i, by omega, by simp⟩

theorem reads_map {rule : Rule α} {G : Language α} (f : α → β) (hG : ReadsFrom n t rule G) :
    ReadsFrom n t (f <$> rule) (image f G) := by
  intro s ht hs b r
  rw [map_ok_iff]
  constructor
  · rintro ⟨a, ha, rfl⟩
    obtain ⟨w, m, u, hw, hu⟩ := (hG s ht hs a r).mp ha
    exact ⟨w, m, u, ⟨a, hw, rfl⟩, hu⟩
  · rintro ⟨w, m, u, ⟨a, hw, rfl⟩, hu⟩
    exact ⟨a, (hG s ht hs a r).mpr ⟨w, m, u, hw, hu⟩, rfl⟩

theorem reads_failAt (l : Location) (fault : SyntaxFault) :
    ReadsFrom n t (failAt l fault : Rule α) nothing := by
  intro s _ _ a r
  simp [failAt, nothing]

theorem reads_fail (fault : SyntaxFault) : ReadsFrom n t (fail fault : Rule α) nothing := by
  intro s _ _ a r
  simp [fail, failAt, nothing]

theorem reads_peek {next : TokenKind → Rule α} {G : Language α}
    (h : ReadsFrom n t (next t.kind) G) : ReadsFrom n t (peek >>= next) G := by
  rintro s rfl hs a r
  exact h s rfl hs a r

theorem reads_current {next : Token → Rule α} {G : Language α}
    (h : ReadsFrom n t (next t) G) : ReadsFrom n t (current >>= next) G := by
  rintro s rfl hs a r
  exact h s rfl hs a r

theorem reads_here {next : Location → Rule α} {G : Language α}
    (h : ReadsFrom n t (next t.location) G) : ReadsFrom n t (here >>= next) G := by
  rintro s rfl hs a r
  exact h s rfl hs a r

/-- Taking the current token is reading it as the only terminal. -/
theorem advance_ok_iff {s r : State} {t : Token} (hk : s.current.kind ≠ .eof) :
    advance s = .ok t r ↔ t = s.current ∧ Takes s [s.current.terminal] r := by
  simp only [advance, if_neg hk]
  constructor
  · intro h
    split at h
    · rename_i t' cursor hn
      cases h
      exact ⟨rfl, .cons hk hn (.nil _)⟩
    · cases h
  · rintro ⟨rfl, h⟩
    cases h with
    | cons _ hn hw =>
      cases hw
      rw [hn]

theorem reads_advance {next : Token → Rule α} {G : Language α} (hk : t.kind ≠ .eof)
    (h : Reads n (next t) G) : ReadsFrom n t (advance >>= next) (after t.terminal G) := by
  rintro s rfl hs a r
  rw [bind_ok_iff]
  constructor
  · rintro ⟨t, u, ht, ha⟩
    obtain ⟨rfl, hu⟩ := (advance_ok_iff hk).mp ht
    obtain ⟨w, m, q, hw, hq, hm, rfl⟩ := (h.ok_iff (hs.takes hu)).mp ha
    exact ⟨_, m, q, ⟨w, rfl, hw⟩, hu.append hq, hm, rfl⟩
  · rintro ⟨_, m, q, ⟨w, rfl, hw⟩, hq, hm, rfl⟩
    obtain ⟨u, hu, hq⟩ := Takes.split (v := [s.current.terminal]) hq
    refine ⟨s.current, u, (advance_ok_iff hk).mpr ⟨rfl, hu⟩, ?_⟩
    exact (h.ok_iff (hs.takes hu)).mpr ⟨w, m, q, hw, hq, hm, rfl⟩

theorem discard_bind (rule : Rule α) (next : Rule β) :
    (discard rule >>= fun _ => next) = (rule >>= fun _ => next) := by
  funext s
  show EStateM.bind (EStateM.map _ rule) _ s = EStateM.bind rule _ s
  unfold EStateM.bind EStateM.map
  cases rule s <;> rfl

theorem reads_discard_advance {next : Rule α} {G : Language α} (hk : t.kind ≠ .eof)
    (h : Reads n next G) :
    ReadsFrom n t (discard advance >>= fun _ => next) (after t.terminal G) := by
  rw [discard_bind]
  exact reads_advance hk h

theorem reads_expect_bind {kind : TokenKind} {next : Token → Rule α} {G : Language α}
    (hk : kind ≠ .eof) (h : t.kind = kind → Reads n (next t) G) :
    ReadsFrom n t (expect kind >>= next)
      fun w k a m => t.kind = kind ∧ after t.terminal G w k a m := by
  rintro s rfl hs a r
  by_cases ht : s.current.kind = kind
  · have he : (expect kind >>= next) s = (advance >>= next) s := by
      show (EStateM.bind (fun s => (if s.current.kind = kind then advance else _) s) next) s = _
      simp only [EStateM.bind, if_pos ht]
      rfl
    rw [he, reads_advance (by rw [ht]; exact hk) (h ht) s rfl hs a r]
    simp only [ht, true_and]
  · have he : ∃ e, (expect kind >>= next) s = .error e s := by
      refine ⟨.grammatical (.wrongToken kind s.current.kind) s.current.location, ?_⟩
      show (EStateM.bind (fun s => (if s.current.kind = kind then advance else _) s) next) s = _
      simp only [EStateM.bind, if_neg ht]
      rfl
    obtain ⟨e, he⟩ := he
    simp [he, ht]

theorem reads_expect {kind : TokenKind} {next : Rule α} {G : Language α}
    (hk : kind ≠ .eof ∧ kind.hasLexeme = false) (h : Reads n next G) :
    ReadsFrom n t (discard (expect kind) >>= fun _ => next) (after (.fixed kind) G) := by
  rw [discard_bind]
  refine (reads_expect_bind hk.1 fun _ => h).congr fun w k a m hw _ => ?_
  constructor
  · rintro ⟨rfl, v, rfl, hv⟩
    exact ⟨v, by rw [Token.terminal_eq_fixed hk.2], hv⟩
  · rintro ⟨v, rfl, hv⟩
    obtain rfl : kind = t.kind := hw
    exact ⟨rfl, v, by rw [Token.terminal_eq_fixed hk.2], hv⟩

theorem reads_expectText {kind : TokenKind} {next : Token → Rule α} {G : String → Language α}
    (hk : kind.hasLexeme = true) (h : ∀ t : Token, Reads n (next t) (G t.content)) :
    ReadsFrom n t (expect kind >>= next) (afterText kind G) := by
  have he : kind ≠ .eof := by
    rintro rfl
    cases hk
  refine (reads_expect_bind he fun _ => h t).congr fun w k a m hw hx => ?_
  constructor
  · rintro ⟨rfl, v, rfl, hv⟩
    exact ⟨t.content, v, by rw [Token.terminal_eq_carrying hk], hv⟩
  · rintro ⟨text, v, rfl, hv⟩
    obtain rfl : kind = t.kind := hw
    have hx := hx _ _ rfl
    rw [Token.terminal_eq_carrying hk] at hx
    obtain rfl : text = t.content := Option.some.inj (congrArg Terminal.lexeme hx)
    exact ⟨rfl, v, by rw [Token.terminal_eq_carrying hk], hv⟩

theorem reads_name {next : String → Rule α} {G : String → Language α}
    (h : ∀ text, Reads n (next text) (G text)) :
    ReadsFrom n t (name >>= next) (afterText .identifier G) := by
  have he : (name >>= next) = (expect .identifier >>= fun t => next t.content) := by
    simp only [name, bind_assoc, pure_bind]
  rw [he]
  exact reads_expectText rfl fun t => h t.content

theorem reads_accept {kind : TokenKind} {next : Bool → Rule α} {G H : Language α}
    (hk : kind ≠ .eof ∧ kind.hasLexeme = false) (hG : Reads n (next true) G)
    (hH : ReadsFrom n t (next false) H) :
    ReadsFrom n t (accept kind >>= next) (option kind G H) := by
  simp only [accept, bind_assoc]
  refine reads_peek ?_
  by_cases ht : t.kind = kind
  · subst ht
    simp only [if_true, bind_assoc, pure_bind]
    refine (reads_discard_advance hk.1 hG).congr fun w k a m hw _ => ?_
    simp only [Language.option, hw, ne_eq, not_true_eq_false, false_and, or_false]
    rw [Token.terminal_eq_fixed hk.2]
  · simp only [if_neg ht, pure_bind]
    refine hH.congr fun w k a m hw _ => ?_
    simp only [Language.option, hw, ne_eq, ht, not_false_eq_true, true_and]
    constructor
    · exact .inr
    · rintro (⟨v, rfl, -⟩ | hw')
      · exact absurd hw.symm ht
      · exact hw'

/-- The kind of the second terminal is known where a member has a first one. -/
theorem reads_peekNext {next : TokenKind → Rule α} {G : TokenKind → Language α}
    (h : ∀ kind, ReadsFrom n t (next kind) (G kind))
    (hG : ∀ {kind w k a m}, G kind w k a m → w ≠ []) :
    ReadsFrom n t (peekNext >>= next) fun w k a m => G (lead (w.drop 1) k) w k a m := by
  rintro s rfl hs a r
  have second {w : List Terminal} {u : State} (hu : Takes s w u) (hw : w ≠ []) :
      ∃ t cursor, s.cursor.next = (.ok t, cursor) ∧ lead (w.drop 1) u.current.kind = t.kind := by
    cases hu with
    | nil => exact absurd rfl hw
    | cons _ hn hw => exact ⟨_, _, hn, hw.current_kind.symm⟩
  rw [bind_ok_iff]
  constructor
  · rintro ⟨kind, u, hpeek, hnext⟩
    unfold peekNext at hpeek
    split at hpeek
    · rename_i t ht
      cases hpeek
      obtain ⟨w, m, u, hw, hu, hm⟩ := (h t.kind s rfl hs a r).mp hnext
      obtain ⟨t', cursor, hn, hkind⟩ := second hu (hG hw)
      have : s.cursor.look 1 = .ok t' := congrArg Prod.fst hn
      rw [ht] at this
      cases this
      refine ⟨w, m, u, ?_, hu, hm⟩
      show G (lead (w.drop 1) u.current.kind) w u.current.kind a m
      rwa [hkind]
    · cases hpeek
  · rintro ⟨w, m, u, hw, hu, hm⟩
    obtain ⟨t', cursor, hn, hkind⟩ := second hu (hG hw)
    change G (lead (w.drop 1) u.current.kind) w u.current.kind a m at hw
    rw [hkind] at hw
    refine ⟨t'.kind, s, ?_, (h t'.kind s rfl hs a r).mpr ⟨w, m, u, hw, hu, hm⟩⟩
    have : s.cursor.look 1 = .ok t' := congrArg Prod.fst hn
    rw [peekNext, this]

theorem reads_tooDeep {G : Language α} (h : ∀ w k a m, G w k a m → m ≠ 0) :
    Reads 0 (tooDeep : Rule α) G := by
  intro t s _ _ a r
  constructor
  · intro h
    simp [tooDeep, fail, failAt] at h
  · rintro ⟨w, m, u, hw, -, hm, -⟩
    exact absurd (Nat.le_zero.mp hm) (h _ _ _ _ hw)

theorem reads_nested {rule : Rule α} {G : Language α} (h : Reads n rule G) :
    Reads (n + 1) (nested rule) (deeper G) := by
  rintro t s rfl ⟨hl, hp⟩ a r
  have hd : ¬ s.limit ≤ s.depth := by omega
  have hs : Leaves n { s with depth := s.depth + 1, peak := max s.peak (s.depth + 1) } := by
    constructor <;> simp only <;> omega
  simp only [nested, if_neg hd]
  constructor
  · intro ha
    split at ha
    · rename_i b q hq
      cases ha
      obtain ⟨w, m, u, hw, hu, hm, rfl⟩ := (h.ok_iff hs).mp hq
      have back : Takes s w { u with limit := s.limit, depth := s.depth, peak := s.peak } :=
        hu.reset s.limit s.depth s.peak
      refine ⟨w, m + 1, { u with limit := s.limit, depth := s.depth, peak := s.peak },
        ⟨m, rfl, hw⟩, back, by omega, ?_⟩
      simp only [State.raise, hu.limit_eq, hu.depth_eq, hu.peak_eq, State.mk.injEq, true_and,
        Nat.add_sub_cancel]
      omega
    · cases ha
  · rintro ⟨w, _, u, ⟨m, rfl, hw⟩, hu, hm, rfl⟩
    rw [(h.ok_iff hs).mpr ⟨w, m, { u with
        limit := s.limit, depth := s.depth + 1, peak := max s.peak (s.depth + 1) },
      hw, hu.reset _ _ _, by omega, rfl⟩]
    simp only [State.raise, EStateM.Result.ok.injEq, State.mk.injEq, true_and, hu.limit_eq,
      hu.depth_eq, hu.peak_eq, Nat.add_sub_cancel]
    omega

end Rule

end ScriptFront
