import ScriptFront.Proofs.Expr.Reading

/-! # What the loop over binary operators reads

One loop reads the operators of all tiers from a least one on. It keeps the expression read so far
as a phrase of the tier of its last operator. An operator of that tier or a looser one follows, so
the phrase can be lifted to the tier of the next one. -/

namespace ScriptFront

open Terminal ScriptFront.Language

/-- The symbol of a tier by its place; behind the last tier come the operands. -/
def Symbol.ofLevel : Nat → Symbol
  | 1 => .binary .logOr
  | 2 => .binary .logAnd
  | 3 => .binary .bitOr
  | 4 => .binary .bitXor
  | 5 => .binary .bitAnd
  | 6 => .binary .equality
  | 7 => .binary .relational
  | 8 => .binary .shift
  | 9 => .binary .additive
  | 10 => .binary .multiplicative
  | _ => .unary

namespace Tier

theorem level_pos (t : Tier) : 1 ≤ t.level := by
  cases t <;> decide

theorem level_le (t : Tier) : t.level ≤ 10 := by
  cases t <;> decide

theorem level_injective {t r : Tier} (h : t.level = r.level) : t = r := by
  cases t <;> cases r <;> first | rfl | cases h

theorem ofLevel_level (t : Tier) : Symbol.ofLevel t.level = .binary t := by
  cases t <;> rfl

theorem ofLevel_succ_level (t : Tier) : Symbol.ofLevel (t.level + 1) = t.operand := by
  cases t <;> rfl

theorem exists_level {l : Nat} (h : 1 ≤ l) (h' : l ≤ 10) : ∃ t : Tier, t.level = l := by
  match l, h, h' with
  | 1, _, _ => exact ⟨.logOr, rfl⟩
  | 2, _, _ => exact ⟨.logAnd, rfl⟩
  | 3, _, _ => exact ⟨.bitOr, rfl⟩
  | 4, _, _ => exact ⟨.bitXor, rfl⟩
  | 5, _, _ => exact ⟨.bitAnd, rfl⟩
  | 6, _, _ => exact ⟨.equality, rfl⟩
  | 7, _, _ => exact ⟨.relational, rfl⟩
  | 8, _, _ => exact ⟨.shift, rfl⟩
  | 9, _, _ => exact ⟨.additive, rfl⟩
  | 10, _, _ => exact ⟨.multiplicative, rfl⟩

theorem mem_operators_iff {t : Tier} {op : BinaryOp} : op ∈ t.operators ↔ op.tier = t.level := by
  cases t <;> cases op <;> decide

end Tier

theorem BinaryOp.exists_tier (op : BinaryOp) : ∃ t : Tier, op ∈ t.operators := by
  obtain ⟨t, ht⟩ := Tier.exists_level (l := op.tier) (by cases op <;> decide)
    (by cases op <;> decide)
  exact ⟨t, Tier.mem_operators_iff.mpr ht.symm⟩

theorem BinaryOp.exists_kind_eq {k : TokenKind} (h : 3 ≤ k.grip) (h' : k.grip < 13) :
    ∃ op : BinaryOp, k = op.kind := by
  have table : ∀ k : TokenKind, 3 ≤ k.grip → k.grip < 13 → (BinaryOp.ofToken? k).isSome := by
    intro k
    cases k <;> decide
  obtain ⟨op, hop⟩ := Option.isSome_iff_exists.mp (table k h h')
  exact ⟨op, ofToken?_eq_some_iff.mp hop⟩

namespace Expr

/-- A phrase of unary is a chain of no links. -/
theorem Phrase.links_unary {w : List Terminal} {e : Expr} (d : Phrase .unary w e) :
    d.links = 0 := by
  cases d <;> rfl

theorem Phrase.bound_operand {t : Tier} {w : List Terminal} {e : Expr} (d : Phrase t.operand w e) :
    d.bound = t.level + 3 := by
  cases t <;> first | exact d.bound_binary | exact d.bound_unary

theorem Phrase.bound_ofLevel {least : Nat} (hleast : 1 ≤ least) (h11 : least ≤ 11) {s : Symbol}
    (hs : s = .ofLevel least) {w : List Terminal} {e : Expr} (d : Phrase s w e) :
    d.bound = least + 2 := by
  by_cases h : least = 11
  · subst h
    obtain rfl : s = .unary := hs
    exact d.bound_unary
  · obtain ⟨t, rfl⟩ := Tier.exists_level hleast (by omega)
    rw [t.ofLevel_level] at hs
    subst hs
    exact d.bound_binary

theorem Phrase.leading_free {w : List Terminal} {e : Expr} (d : Phrase .trailing w e)
    (k : TokenKind) : UnaryOp.ofLeading? (lead w k) = none := by
  obtain ⟨v, u, a, dp, rfl, -⟩ := links_of_trailing d k
  cases dp with
  | literal h => cases h <;> rfl
  | group d => rfl
  | array ds => rfl

/-- A phrase of a tier is one of every looser tier. -/
theorem Phrase.lift {l c : Nat} (hl : 1 ≤ l) (hlc : l ≤ c) (hc : c ≤ 11) {s r : Symbol}
    (hs : s = .ofLevel c) (hr : r = .ofLevel l) {w : List Terminal} {e : Expr}
    (d : Phrase s w e) : ∃ d' : Phrase r w e, d'.base = d.base ∧ d'.links = d.links := by
  induction hn : c - l generalizing l r with
  | zero =>
    obtain rfl : l = c := by omega
    subst hs hr
    exact ⟨d, rfl, rfl⟩
  | succ n ih =>
    obtain ⟨t, rfl⟩ := Tier.exists_level hl (by omega)
    rw [t.ofLevel_level] at hr
    subst hr
    obtain ⟨d', hb, hlinks⟩ := ih (by omega) (by omega) t.ofLevel_succ_level.symm (by omega)
    exact ⟨.operand d', hb, hlinks⟩

/-- An operator of at least a tier behind a left side, with its right side; or nothing in front of
every other operator. -/
inductive Operation (least : Nat) (left : Expr) : Language (Option Expr) where
  | none {k : TokenKind} (h : ∀ op : BinaryOp, k = op.kind → op.tier < least) :
      Operation least left [] k none 0
  | some {k : TokenKind} {t : Tier} {w : List Terminal} {right : Expr} (ht : least ≤ t.level)
      (op : BinaryOp) (h : op ∈ t.operators) (d : Phrase t.operand w right)
      (hk : k.grip < t.level + 3) :
      Operation least left (fixed op.kind :: w) k (some (.binary op left right)) d.need

theorem binary_of_operations {least : Nat} (hleast : 1 ≤ least) {a e : Expr} {b l b' l' : Nat}
    {w : List Terminal} {k : TokenKind} (h : Links (Operation least) a b l w k e b' l') {c : Nat}
    (hlc : least ≤ c) (hc : c ≤ 11) {s r : Symbol} (hs : s = .ofLevel c) (hr : r = .ofLevel least)
    {v : List Terminal} (d : Phrase s v a) (hb : d.base = b) (hl : d.links = l)
    (hw : (lead w k).grip < min (c + 3) 13) :
    k.grip < 13 ∧ ∃ d' : Phrase r (v ++ w) e, d'.base = b' ∧ d'.links = l' := by
  induction h generalizing v c s with
  | nil =>
    obtain ⟨d', hb', hl'⟩ := d.lift hleast hlc hc hs hr
    rw [List.append_nil]
    exact ⟨by rw [lead_nil] at hw; omega, d', hb'.trans hb, hl'.trans hl⟩
  | cons hop _ ih =>
    subst hb hl
    cases hop with
    | @some _ t w _ ht op hmem dr hk =>
      rw [lead_append, lead_cons, kind_fixed, op.grip_kind, Tier.mem_operators_iff.mp hmem] at hw
      have hle := t.level_le
      obtain ⟨d', hb', hl'⟩ := d.lift t.level_pos (by omega) hc hs t.ofLevel_level.symm
      rw [← List.append_assoc]
      refine ih ht (by omega) t.ofLevel_level.symm (d'.binary op hmem dr) ?_ ?_ (by omega)
      · rw [← hb']
        rfl
      · rw [← hl']
        rfl

theorem operations_of_binary {least l : Nat} (hleast : 1 ≤ least) (hl : least ≤ l) (hl' : l ≤ 11)
    {s : Symbol} (hs : s = .ofLevel l) {w : List Terminal} {e : Expr} (d : Phrase s w e)
    {k : TokenKind} (hk : k.grip < min (l + 3) 13) :
    ∃ v u a, ∃ da : Phrase .unary v a, w = v ++ u ∧ (lead u k).grip < 13 ∧
      Links (Operation least) a da.need 0 u k e d.base d.links := by
  -- by the length of the phrase, and for one length from the tightest tier on
  induction hn : 12 * w.length + (11 - l) using Nat.strongRecOn generalizing l s w e k with
  | ind _ ih =>
    subst hn
    by_cases hunary : l = 11
    · subst hunary
      obtain rfl : s = .unary := hs
      have hneed : d.need = d.base := by rw [Phrase.need, d.links_unary, Nat.add_zero]
      refine ⟨w, [], e, d, (List.append_nil w).symm, by rw [lead_nil]; omega, ?_⟩
      rw [hneed, d.links_unary]
      exact .nil
    · obtain ⟨t, rfl⟩ := Tier.exists_level (by omega) (by omega : l ≤ 10)
      rw [t.ofLevel_level] at hs
      subst hs
      cases d with
      | operand d =>
        exact ih _ (by omega) (l := t.level + 1) (by omega) (by omega) t.ofLevel_succ_level.symm d
          (by omega) rfl
      | @binary _ v w a b dl op hmem dr =>
        have hop : op.kind.grip = t.level + 2 := by
          rw [op.grip_kind, Tier.mem_operators_iff.mp hmem]
        obtain ⟨v', u, a', da, rfl, hu, hlinks⟩ := ih _
          (by simp only [List.length_append, List.length_cons]; omega) hl hl'
          t.ofLevel_level.symm dl (k := op.kind) (by omega) rfl
        refine ⟨v', u ++ fixed op.kind :: w, a', da, List.append_assoc _ _ _, ?_, ?_⟩
        · rwa [lead_append]
        · exact hlinks.snoc (w := fixed op.kind :: w) (.some hl op hmem dr (by omega))

theorem phrases_binary_iff {least : Nat} (hleast : 1 ≤ least) (h11 : least ≤ 11) {s : Symbol}
    (hs : s = .ofLevel least) {w : List Terminal} {k : TokenKind} {e : Expr} {m : Nat} :
    phrases s w k e m ↔ chain (phrases .unary) (Operation least) w k e m := by
  constructor
  · rintro ⟨d, rfl, hk⟩
    rw [d.bound_ofLevel hleast h11 hs] at hk
    obtain ⟨v, u, a, da, rfl, hu, hlinks⟩ := operations_of_binary hleast (Nat.le_refl _) h11 hs d
      (k := k) (by omega)
    refine ⟨v, a, da.need, u, d.base, d.links, rfl, ⟨da, rfl, by rwa [da.bound_unary]⟩, hlinks,
      .none ?_, rfl⟩
    rintro op rfl
    rw [op.grip_kind] at hk
    omega
  · rintro ⟨v, a, _, u, b, l, rfl, ⟨d, rfl, hu⟩, hlinks, hstop, rfl⟩
    have hneed : d.base = d.need := by rw [Phrase.need, d.links_unary, Nat.add_zero]
    rw [d.bound_unary] at hu
    obtain ⟨hk, d', rfl, rfl⟩ := binary_of_operations hleast hlinks h11 (Nat.le_refl 11) rfl hs d
      hneed d.links_unary (by omega)
    refine ⟨d', rfl, ?_⟩
    rw [d'.bound_ofLevel hleast h11 hs]
    -- a kind of a larger grip would be an operator that goes on
    cases hstop with
    | none hstop =>
      by_cases h3 : 3 ≤ k.grip
      · obtain ⟨op, rfl⟩ := BinaryOp.exists_kind_eq h3 hk
        have := hstop op rfl
        rw [op.grip_kind]
        omega
      · omega

end Expr

namespace Rule

open ScriptFront.Expr

variable {n : Nat} {expression operand : Rule Expr}

theorem reads_unary (hE : Reads n expression nestedPhrases)
    (hO : Reads n operand (deeper (phrases .unary))) :
    Reads n (unaryWith expression operand) (phrases .unary) := by
  intro t
  refine reads_peek ?_
  split
  · rename_i op hop
    obtain ⟨hlead, hkind⟩ := UnaryOp.ofLeading?_eq_some_iff.mp hop
    refine (reads_discard_advance ?_ fun t => reads_bind (hO t) fun e t =>
      reads_pure (Expr.unary op e)).congr fun w k e m hw _ => ?_
    · rw [hkind]
      cases op <;> decide
    rw [Token.terminal_eq_fixed (by rw [hkind]; cases op <;> rfl), hkind]
    constructor
    · rintro ⟨_, rfl, w, e, _, _, _, rfl, ⟨i, rfl, d, rfl, hk⟩, ⟨rfl, rfl, rfl⟩, rfl⟩
      rw [List.append_nil, Nat.max_zero]
      rw [d.bound_unary] at hk
      exact ⟨.leading op hlead d, rfl, hk⟩
    · rintro ⟨d, rfl, hk⟩
      cases d with
      | trailing d =>
        have := d.leading_free k
        rw [hw, hop] at this
        cases this
      | @leading w e op' h d =>
        have := UnaryOp.ofLeading?_eq_some_iff.mpr ⟨h, rfl⟩
        rw [← kind_fixed op'.kind, ← lead_cons _ w k, hw, hop] at this
        cases this
        exact ⟨w, rfl, w, e, d.need + 1, [], 0, (List.append_nil w).symm,
          ⟨d.need, rfl, d, rfl, by rwa [d.bound_unary]⟩, ⟨rfl, rfl, rfl⟩, (Nat.max_zero _).symm⟩
  · rename_i hop
    refine (reads_trailing hE t).congr fun w k e m hw _ => ?_
    constructor
    · rintro ⟨d, rfl, hk⟩
      exact ⟨.trailing d, rfl, by rwa [d.bound_trailing] at hk⟩
    · rintro ⟨d, rfl, hk⟩
      cases d with
      | trailing d => exact ⟨d, rfl, by rwa [d.bound_trailing]⟩
      | leading op h d =>
        have := UnaryOp.ofLeading?_eq_some_iff.mpr ⟨h, rfl⟩
        rw [← kind_fixed op.kind, ← lead_cons _ _ k, hw, hop] at this
        cases this

theorem reads_operation {next : BinaryOp → Rule Expr} {least : Nat}
    (hnext : ∀ t : Tier, ∀ op ∈ t.operators, least ≤ t.level →
      Reads n (next op) (phrases t.operand))
    (left : Expr) :
    Reads n (do
      match BinaryOp.ofToken? (← peek) with
      | some op =>
        if op.tier < least then return none
        discard advance
        return some (.binary op left (← next op))
      | none => return none) (Operation least left) := by
  intro t
  refine reads_peek ?_
  split
  · rename_i op hop
    rw [BinaryOp.ofToken?_eq_some_iff] at hop
    obtain ⟨r, hmem⟩ := op.exists_tier
    have hr := Tier.mem_operators_iff.mp hmem
    have unique {p : BinaryOp} (h : t.kind = p.kind) : p = op := by
      rw [← BinaryOp.ofToken?_eq_some_iff, hop] at h
      exact (Option.some.inj ((BinaryOp.ofToken?_eq_some_iff.mpr rfl).symm.trans h)).symm
    split
    · rename_i hlt
      refine (reads_pure none).congr fun w k o m hw _ => ?_
      constructor
      · rintro ⟨rfl, rfl, rfl⟩
        obtain rfl : k = t.kind := hw
        exact .none fun p hp => unique hp ▸ hlt
      · intro h
        cases h with
        | none => exact ⟨rfl, rfl, rfl⟩
        | some ht p h d hk =>
          rw [unique hw.symm, Tier.mem_operators_iff] at h
          omega
    · rename_i hle
      refine (reads_discard_advance ?_ fun t => reads_bind (hnext r op hmem (by omega) t)
        fun e t => reads_pure (some (Expr.binary op left e))).congr fun w k o m hw _ => ?_
      · rw [hop]
        cases op <;> decide
      rw [Token.terminal_eq_fixed (by rw [hop]; cases op <;> rfl), hop]
      constructor
      · rintro ⟨_, rfl, w, e, _, _, _, rfl, ⟨d, rfl, hk⟩, ⟨rfl, rfl, rfl⟩, rfl⟩
        rw [List.append_nil, Nat.max_zero]
        rw [d.bound_operand] at hk
        exact .some (by omega) op hmem d hk
      · intro h
        cases h with
        | none h =>
          have := h op (hw.trans hop)
          omega
        | @some _ r' w e ht p h d hk =>
          obtain rfl := unique hw.symm
          obtain rfl : r' = r := by
            rw [Tier.mem_operators_iff] at h
            exact Tier.level_injective (h.symm.trans hr)
          exact ⟨w, rfl, w, e, d.need, [], 0, (List.append_nil w).symm,
            ⟨d, rfl, by rwa [d.bound_operand]⟩, ⟨rfl, rfl, rfl⟩, (Nat.max_zero _).symm⟩
  · rename_i hop
    refine (reads_pure none).congr fun w k o m hw _ => ?_
    constructor
    · rintro ⟨rfl, rfl, rfl⟩
      obtain rfl : k = t.kind := hw
      refine .none fun op hk => ?_
      rw [BinaryOp.ofToken?_eq_some_iff.mpr hk] at hop
      cases hop
    · intro h
      cases h with
      | none => exact ⟨rfl, rfl, rfl⟩
      | some ht op h d hk =>
        rw [BinaryOp.ofToken?_eq_some_iff.mpr hw.symm] at hop
        cases hop

theorem reads_operations (hE : Reads n expression nestedPhrases)
    (hO : Reads n operand (deeper (phrases .unary))) {least : Nat} (hleast : 1 ≤ least)
    (h11 : least ≤ 11) {s : Symbol} (hs : s = .ofLevel least) {link : Expr → Rule (Option Expr)}
    (hlink : ∀ left, Reads n (link left) (Operation least left)) :
    Reads n (chain (unaryWith expression operand) link) (phrases s) := by
  refine Reads.congr (reads_chain (reads_unary hE hO) hlink (fun h => ?_) (fun h => ?_))
    fun w k e m => (phrases_binary_iff hleast h11 hs).symm
  · cases h
    exact ⟨rfl, rfl⟩
  · cases h
    exact List.cons_ne_nil _ _

theorem reads_binary (hE : Reads n expression nestedPhrases)
    (hO : Reads n operand (deeper (phrases .unary))) {tiers least : Nat} (hleast : 1 ≤ least)
    (h11 : least ≤ 11) (htiers : 11 ≤ tiers + least) {s : Symbol} (hs : s = .ofLevel least) :
    Reads n (binaryWith expression operand tiers least) (phrases s) := by
  induction tiers generalizing least s with
  | zero =>
    refine reads_operations hE hO hleast h11 hs fun left t => (reads_pure none).congr
      fun w k o m _ _ => ?_
    constructor
    · rintro ⟨rfl, rfl, rfl⟩
      refine .none fun op _ => ?_
      obtain ⟨r, hop⟩ := op.exists_tier
      rw [Tier.mem_operators_iff.mp hop]
      have := r.level_le
      omega
    · intro h
      cases h with
      | none => exact ⟨rfl, rfl, rfl⟩
      | @some _ r _ _ ht =>
        have := r.level_le
        omega
  | succ tiers ih =>
    refine reads_operations hE hO hleast h11 hs (reads_operation fun t op hop ht => ?_)
    have hr := Tier.mem_operators_iff.mp hop
    have := t.level_le
    exact ih (by omega) (by omega) (by omega) (by rw [hr, t.ofLevel_succ_level])

end Rule

end ScriptFront
