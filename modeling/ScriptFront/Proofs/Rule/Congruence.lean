import ScriptFront.Proofs.Rule.Cause
import ScriptFront.Proofs.Rule.Reads

/-! # Relations that all rules keep

A relation between two runs that is kept by each way to build a rule holds between the two runs of
every rule. It may depend on the levels left to either run and on the current token, but for its
place. It may also count tokens: `room` is by how much the levels left exceed the tokens left, and
`taken` is how many tokens a result has surely taken, each of which makes room for one more level.
A repetition goes on only where a token is taken, and a fault stands at a token that it can be
about. -/

namespace ScriptFront.Rule

variable {α β : Type}

/-- One level deeper, where a level is left. -/
def descend (rule : Nat → Rule α) : Nat → Rule α
  | 0 => tooDeep
  | n + 1 => nested (rule n)

/-- One more item behind a separator, or none where the separator is missing. -/
def behind (separator : TokenKind) (item : α → Rule α) (a : α) : Rule (Option α) := do
  unless ← accept separator do return none
  return some (← item a)

theorem separated_eq (separator : TokenKind) (item : Rule β) :
    separated separator item = item >>= fun first =>
      List.reverse <$> iterate (behind separator fun read => (· :: read) <$> item) [first] := by
  unfold separated behind
  refine bind_congr fun first => ?_
  congr 2
  funext read
  refine bind_congr fun found => ?_
  cases found
  · rfl
  · simp only [map_eq_pure_bind, bind_assoc, pure_bind]

structure Congruence where
  /-- The two rules are related where `m` and `n` levels are left to them, at a token `x`. -/
  Holds {α : Type} (m n : Nat) (x : Terminal) (room : Nat) (taken : α → Nat) (f g : Rule α) : Prop
  /-- Which places of a token the two runs may have come to. -/
  Place : Terminal → Location → Location → Prop
  pure {α : Type} {m n : Nat} {x : Terminal} {room : Nat} {taken : α → Nat} {a : α}
    (h : taken a = 0) : Holds m n x room taken (Pure.pure a) (Pure.pure a)
  bind {α β : Type} {m n : Nat} {x : Terminal} {room i : Nat} {taken : β → Nat} {t : α → Nat}
    {f g : Rule α} {f' g' : α → Rule β} (h : Holds m n x i t f g) (hi : i ≤ room)
    (h' : ∀ a x, Holds m n x (room + t a) (fun b => taken b - t a) (f' a) (g' a)) :
    Holds m n x room taken (f >>= f') (g >>= g')
  peek {α : Type} {m n : Nat} {x : Terminal} {room : Nat} {taken : α → Nat}
    {f g : TokenKind → Rule α} (h : ∀ kind, x.kind = kind →
      Holds m n x room taken (f kind) (g kind)) :
    Holds m n x room taken (Rule.peek >>= f) (Rule.peek >>= g)
  current {α : Type} {m n : Nat} {x : Terminal} {room : Nat} {taken : α → Nat}
    {f g : Token → Rule α} (h : ∀ t u : Token, t.terminal = x → u.terminal = x →
      Holds m n x room taken (f t) (g u)) :
    Holds m n x room taken (Rule.current >>= f) (Rule.current >>= g)
  here {α : Type} {m n : Nat} {x : Terminal} {room : Nat} {taken : α → Nat}
    {f g : Location → Rule α}
    (h : ∀ l l', Place x l l' → Holds m n x room taken (f l) (g l')) :
    Holds m n x room taken (Rule.here >>= f) (Rule.here >>= g)
  failAt {α : Type} {m n : Nat} {x y : Terminal} {room : Nat} {taken : α → Nat}
    {l l' : Location} {fault : SyntaxFault} (h : Place y l l') (hfault : fault.StandsAt y) :
    Holds m n x room taken (Rule.failAt l fault) (Rule.failAt l' fault)
  advance {α : Type} {m n : Nat} {x : Terminal} {room : Nat} {taken : α → Nat}
    {f g : Token → Rule α} (hx : x.kind ≠ .eof) (h : ∀ t u : Token, t.terminal = x →
      u.terminal = x → ∀ y, Holds m n y (room + 1) (fun a => taken a - 1) (f t) (g u)) :
    Holds m n x room taken (Rule.advance >>= f) (Rule.advance >>= g)
  peekNext {α : Type} {m n : Nat} {x : Terminal} {room : Nat} {taken : α → Nat}
    {f g : TokenKind → Rule α} (hx : x.kind ≠ .eof)
    (h : ∀ k, Holds m n x room taken (f k) (g k)) :
    Holds m n x room taken (Rule.peekNext >>= f) (Rule.peekNext >>= g)
  levels {α : Type} {m n : Nat} {x : Terminal} {room : Nat} {taken : α → Nat}
    {f g : Nat → Rule α} (h : Holds m n x room taken (f m) (g n)) :
    Holds m n x room taken (fun s => f s.levels s) (fun s => g s.levels s)
  descend {α : Type} {m n : Nat} {x : Terminal} {room : Nat} {taken : α → Nat}
    {f g : Nat → Rule α} (h : ∀ i j, m = i + 1 → n = j + 1 →
      Holds i j x room taken (f i) (g j)) :
    Holds m n x (room + 1) taken (Rule.descend f m) (Rule.descend g n)
  /-- Only a pass that takes a token may go on. -/
  iterate {α : Type} {m n : Nat} {x : Terminal} {room : Nat} {f g : α → Rule (Option α)} {a : α}
    (h : ∀ a x, Holds m n x room (fun o => o.isSome.toNat) (f a) (g a)) :
    Holds m n x room (fun _ => 0) (Rule.iterate f a) (Rule.iterate g a)
  /-- Only a link that takes a token may add one to the links of a chain. -/
  chain {α : Type} {m n : Nat} {x : Terminal} {f g : Rule α} {f' g' : α → Rule (Option α)}
    (h : Holds m n x 0 (fun _ => 1) f g)
    (h' : ∀ a x, Holds m n x 0 (fun o => o.isSome.toNat) (f' a) (g' a)) :
    Holds m n x 0 (fun _ => 1) (Rule.chain f f') (Rule.chain g g')

namespace Congruence

variable {R : Congruence} {m n room i c : Nat} {x : Terminal} {k : TokenKind} {taken t : α → Nat}

/-- The two rules are related at every token, with `room` to begin with and `c` tokens taken. -/
def Always (R : Congruence) (m n room c : Nat) (f g : Rule α) : Prop :=
  ∀ x, R.Holds m n x room (fun _ => c) f g

theorem weaken {f g : Rule α} (h : R.Holds m n x i t f g) (hi : i ≤ room)
    (ht : ∀ a, taken a ≤ t a) : R.Holds m n x room taken f g := by
  have hbind : R.Holds m n x room taken (f >>= Pure.pure) (g >>= Pure.pure) :=
    R.bind h hi fun a _ => R.pure (Nat.sub_eq_zero_of_le (ht a))
  rwa [bind_pure, bind_pure] at hbind

theorem map {f g : Rule α} {φ : α → β} (h : R.Holds m n x room (fun _ => c) f g) :
    R.Holds m n x room (fun _ => c) (φ <$> f) (φ <$> g) := by
  rw [map_eq_pure_bind, map_eq_pure_bind]
  exact R.bind h (Nat.le_refl _) fun a _ => R.pure (Nat.sub_self c)

theorem fail {fault : SyntaxFault} (h : fault.StandsAt x) :
    R.Holds m n x room taken (Rule.fail fault) (Rule.fail fault) :=
  R.here fun _ _ hplace => R.failAt hplace h

theorem discard_advance {f g : Rule α} (hx : x.kind = k) (hk : k ≠ .eof)
    (h : ∀ x, R.Holds m n x (room + 1) (fun a => taken a - 1) f g) :
    R.Holds m n x room taken (discard Rule.advance >>= fun _ => f)
      (discard Rule.advance >>= fun _ => g) := by
  rw [discard_bind, discard_bind]
  exact R.advance (hx ▸ hk) fun _ _ _ _ => h

theorem expect_bind {f g : Token → Rule α} (hk : k ≠ .eof)
    (h : ∀ t u : Token, x.kind = k → t.terminal = x → u.terminal = x → ∀ y,
      R.Holds m n y (room + 1) (fun a => taken a - 1) (f t) (g u)) :
    R.Holds m n x room taken (Rule.expect k >>= f) (Rule.expect k >>= g) := by
  simp only [Rule.expect, bind_assoc]
  refine R.peek fun kind hx => ?_
  by_cases hfound : kind = k
  · rw [if_pos hfound]
    have hxk : x.kind = k := hx.trans hfound
    exact R.advance (hxk ▸ hk) fun t u ht hu => h t u hxk ht hu
  · rw [if_neg hfound]
    exact fail ⟨hx.symm, hfound⟩

theorem expect {f g : Rule α} (hk : k ≠ .eof)
    (h : ∀ y, R.Holds m n y (room + 1) (fun a => taken a - 1) f g) :
    R.Holds m n x room taken (discard (Rule.expect k) >>= fun _ => f)
      (discard (Rule.expect k) >>= fun _ => g) := by
  rw [discard_bind, discard_bind]
  exact expect_bind hk fun _ _ _ _ _ => h

/-- Both tokens carry the text that is carried where the runs stand. -/
theorem expect_text {f g : Token → Rule α} (hk : k.hasLexeme = true)
    (h : ∀ t u : Token, t.content = u.content → x = .carrying k u.content → ∀ y,
      R.Holds m n y (room + 1) (fun a => taken a - 1) (f t) (g u)) :
    R.Holds m n x room taken (Rule.expect k >>= f) (Rule.expect k >>= g) := by
  refine expect_bind (by rintro rfl; cases hk) fun t u hx ht hu => ?_
  have hcarrying {t : Token} (ht : t.terminal = x) : x = .carrying k t.content := by
    have htk : t.kind = k := by rw [← t.kind_terminal, ht, hx]
    rw [← ht, Token.terminal_eq_carrying (by rwa [htk]), htk]
  have htu := congrArg Terminal.content ((hcarrying ht).symm.trans (hcarrying hu))
  exact h t u htu (hcarrying hu)

theorem name {f g : String → Rule α}
    (h : ∀ text, x = .carrying .identifier text → ∀ y,
      R.Holds m n y (room + 1) (fun a => taken a - 1) (f text) (g text)) :
    R.Holds m n x room taken (Rule.name >>= f) (Rule.name >>= g) := by
  simp only [Rule.name, bind_assoc, pure_bind]
  refine expect_text rfl fun t u htu hx => ?_
  rw [htu]
  exact h u.content hx

theorem accept {f g : Bool → Rule α} (hk : k ≠ .eof)
    (h : ∀ y, R.Holds m n y (room + 1) (fun a => taken a - 1) (f true) (g true))
    (h' : R.Holds m n x room taken (f false) (g false)) :
    R.Holds m n x room taken (Rule.accept k >>= f) (Rule.accept k >>= g) := by
  simp only [Rule.accept, bind_assoc]
  refine R.peek fun kind hx => ?_
  by_cases hfound : kind = k
  · simp only [if_pos hfound, bind_assoc, pure_bind]
    exact discard_advance (hx.trans hfound) hk h
  · simp only [if_neg hfound, pure_bind]
    exact h'

theorem behind {item item' : α → Rule α} (hk : k ≠ .eof)
    (h : ∀ a, R.Always m n i 1 (item a) (item' a)) (hi : i ≤ room + 1) (a : α) (x : Terminal) :
    R.Holds m n x room (fun o => o.isSome.toNat) (Rule.behind k item a) (Rule.behind k item' a) :=
  accept hk (fun y => R.bind (h a y) hi fun _ _ => R.pure rfl) (R.pure rfl)

theorem separated {item item' : Rule β} (hk : k ≠ .eof) (h : R.Always m n i 1 item item')
    (hi : i ≤ room) :
    R.Always m n room 1 (Rule.separated k item) (Rule.separated k item') := by
  intro x
  rw [separated_eq, separated_eq]
  refine R.bind (h x) hi fun first x => map (R.iterate ?_)
  exact behind hk (fun read y => map (h y)) (by omega)

theorem manyUntil {stop : TokenKind → Bool} {item item' : Rule (Option β)}
    (h : R.Always m n room 1 item item') :
    R.Always m n room 0 (Rule.manyUntil stop item) (Rule.manyUntil stop item') := by
  intro x
  refine map (R.iterate fun read x => R.peek fun kind hx => ?_)
  split
  · exact R.pure rfl
  · refine R.bind (h x) (Nat.le_refl _) fun o y => ?_
    cases o <;> exact R.pure rfl

end Congruence

end ScriptFront.Rule
