import ScriptFront.Proofs.Expr.Printed

/-! # How deep a written expression nests

Writing puts every operator application between parentheses and leaves out the parentheses around
an operand that is a chain, so chains that stood apart join and their links add up. A phrase that
takes `n` levels is written as one that takes about a quarter of the square of `n`. -/

namespace ScriptFront.Expr

/-- The nesting levels of what a conditional of `n` levels is written as. -/
def spread (n : Nat) : Nat := (n + 3) * (n + 3) / 4 - (2 - n)

theorem spread_succ (n : Nat) : spread n + 3 ≤ spread (n + 1) := by
  have hsquare : (n + 1 + 3) * (n + 1 + 3) = (n + 3) * (n + 3) + (2 * n + 7) := by grind
  match n with
  | 0 | 1 | 2 => decide
  | n + 3 =>
    simp only [spread, hsquare]
    omega

theorem spread_add (n k : Nat) : spread n + 3 * k ≤ spread (n + k) := by
  induction k with
  | zero => exact Nat.le_refl _
  | succ k ih =>
    have := spread_succ (n + k)
    rw [← Nat.add_assoc]
    omega

theorem spread_mono {m n : Nat} (h : m ≤ n) : spread m ≤ spread n := by
  obtain ⟨k, rfl⟩ := Nat.exists_eq_add_of_le h
  have := spread_add m k
  omega

theorem spread_of_lt {m n : Nat} (h : m < n) : spread m + 3 ≤ spread n :=
  Nat.le_trans (spread_succ m) (spread_mono h)

/-- Two levels more leave room for a chain of as many links as there are levels below. -/
theorem spread_add_two (n : Nat) : spread n + n + 4 ≤ spread (n + 2) := by
  have hsquare : (n + 2 + 3) * (n + 2 + 3) = (n + 3) * (n + 3) + 4 * (n + 4) := by grind
  simp only [spread, hsquare]
  omega

theorem Phrase.links_primary {w : List Terminal} {e : Expr} (d : Phrase .primary w e) :
    d.links = 0 := by
  cases d <;> rfl

/-- The level that a symbol other than a chain may add to the links of the chain inside it. -/
def linksSlack : Symbol → Nat
  | .trailing | .primary => 0
  | _ => 1

theorem linksSlack_operand (t : Tier) : linksSlack t.operand = 1 := by
  cases t <;> rfl

/-- The links of a chain inside parentheses counted as levels. -/
theorem Phrase.printedLinks_le {s : Symbol} {w : List Terminal} {e : Expr} :
    (d : Phrase s w e) → e.printedLinks ≤ d.links + (d.base + linksSlack s - 1)
  | .literal _ | .array _ | .increment _ | .decrement _ | .leading _ _ _ | .binary _ _ _ _ |
    .choice _ _ _ | .assign _ _ _ _ => Nat.zero_le _
  | .group d => by
    have := d.printedLinks_le
    simp only [base, links, linksSlack] at this ⊢
    omega
  | .primary d => by
    have := d.printedLinks_le
    rw [d.links_primary] at this
    simp only [base, links, linksSlack, d.links_primary] at this ⊢
    omega
  | .call d ds => by
    have := d.printedLinks_le
    simp only [base, links, linksSlack, printedLinks] at this ⊢
    omega
  | .element d di => by
    have := d.printedLinks_le
    simp only [base, links, linksSlack, printedLinks] at this ⊢
    omega
  | .member d _ => by
    have := d.printedLinks_le
    simp only [base, links, linksSlack, printedLinks] at this ⊢
    omega
  | .operand d => by
    have := d.printedLinks_le
    rw [linksSlack_operand] at this
    exact this
  | .trailing d | .simple d | .conditional d => by
    have := d.printedLinks_le
    simp only [base, links, linksSlack] at this ⊢
    omega

/-- The numeral in front of a point is written between parentheses. -/
theorem printedNeed_member_le (e : Expr) (name : String) :
    (member e name).printedNeed ≤ max 1 e.printedNeed + 1 := by
  simp only [printedNeed, printedBase, printedLinks]
  split
  · rename_i h
    cases e with
    | literal => exact Nat.le_refl _
    | _ => cases h
  · omega

/-- One more link of a chain, behind the chain itself and behind what the link holds. -/
theorem chain_le {base links pb pl m inner : Nat} (hchain : pb + pl ≤ spread (base + links) - 1)
    (hlinks : pl ≤ links + (base - 1))
    (hinner : inner = 0 ∨ ∃ k, k + 1 ≤ m ∧ inner ≤ spread k + 2) :
    max pb inner + (pl + 1) ≤ spread (max base m + (links + 1)) - 1 := by
  have hstep := spread_of_lt (m := base + links) (n := max base m + (links + 1)) (by omega)
  rcases hinner with rfl | ⟨k, hk, hinner⟩
  · omega
  · have hroom := spread_add_two k
    have hlast := spread_add (k + 2) (max base m + (links + 1) - (k + 2))
    rw [Nat.add_sub_cancel' (by omega)] at hlast
    omega

mutual

/-- What a phrase is written as takes levels by the symbol and by the levels of the phrase. -/
theorem Phrase.printedNeed_le {s : Symbol} {w : List Terminal} {e : Expr} :
    (d : Phrase s w e) → e.printedNeed ≤ spread d.need + slack s - 1
  | .literal _ => Nat.zero_le _
  | .group d => by
    have hd : _ ≤ spread d.need + 1 := d.printedNeed_le
    have := spread_succ d.need
    show _ ≤ spread (d.need + 1) - 1
    omega
  | .array ds => by
    show printedItemsNeed _ ≤ spread ds.need - 1
    rcases ds.printedItemsNeed_le with h | ⟨k, hk, h⟩
    · omega
    · have := spread_of_lt hk
      omega
  | .increment d | .decrement d | .leading _ _ d => by
    have hd : _ ≤ spread d.need - 1 := d.printedNeed_le
    have := spread_succ d.need
    show printedNeed _ + 2 ≤ spread (d.need + 1) - 1
    omega
  | .primary d | .trailing d => d.printedNeed_le
  | .operand d => by
    have hd := d.printedNeed_le
    rw [slack_operand] at hd
    exact hd
  | .simple d | .conditional d =>
    Nat.le_trans d.printedNeed_le (Nat.sub_le_sub_right (Nat.add_le_add_left (by decide) _) 1)
  | .call d ds => chain_le d.printedNeed_le d.printedLinks_le ds.printedItemsNeed_le
  | .element d di => by
    have hi := di.printedNeed_le
    exact chain_le d.printedNeed_le d.printedLinks_le
      (.inr ⟨di.need, Nat.le_refl _, Nat.succ_le_succ hi⟩)
  | .member (e := e) d name => by
    have hd : e.printedNeed ≤ spread d.need - 1 := d.printedNeed_le
    have hmember := e.printedNeed_member_le name
    have := spread_succ d.need
    show (Expr.member e name).printedNeed ≤ spread (d.need + 1) - 1
    omega
  | .binary (a := a) (b := b) l op h r => by
    have hl : a.printedNeed ≤ spread l.need - 1 := l.printedNeed_le
    have hr := r.printedNeed_le
    rw [slack_operand] at hr
    have hneed :
        l.need < (Phrase.binary l op h r).need ∧ r.need < (Phrase.binary l op h r).need := by
      simp only [Phrase.need, Phrase.base, Phrase.links]
      omega
    have := spread_of_lt hneed.1
    have := spread_of_lt hneed.2
    show max a.printedNeed b.printedNeed + 2 ≤ _ - 1
    omega
  | .choice (c := c) (y := y) (n := n) dc dy dn => by
    have hc : c.printedNeed ≤ spread dc.need - 1 := dc.printedNeed_le
    have hy : y.printedNeed ≤ spread dy.need + 1 := dy.printedNeed_le
    have hn : n.printedNeed ≤ spread dn.need + 1 := dn.printedNeed_le
    have hneed : dc.need ≤ (Phrase.choice dc dy dn).need ∧ dy.need < (Phrase.choice dc dy dn).need ∧
        dn.need < (Phrase.choice dc dy dn).need := by
      simp only [Phrase.need, Phrase.base, Phrase.links]
      omega
    have := spread_mono hneed.1
    have := spread_of_lt hneed.2.1
    have := spread_of_lt hneed.2.2
    show max c.printedNeed (max (y.printedNeed + 1) (n.printedNeed + 1)) + 1 ≤ spread _
    omega
  | .assign (a := a) (b := b) d op h r => by
    have hd : a.printedNeed ≤ spread d.need := d.printedNeed_le
    have hr : b.printedNeed ≤ spread r.need := r.printedNeed_le
    have hneed :
        d.need ≤ (Phrase.assign d op h r).need ∧ r.need ≤ (Phrase.assign d op h r).need := by
      simp only [Phrase.need, Phrase.base, Phrase.links]
      omega
    have := spread_mono hneed.1
    have := spread_mono hneed.2
    show max a.printedNeed b.printedNeed + 1 ≤ spread _ + 1
    omega

theorem Items.printedItemsNeed_le {w : List Terminal} {es : List Expr} :
    (ds : Items w es) → printedItemsNeed es = 0 ∨
      ∃ k, k + 1 ≤ ds.need ∧ printedItemsNeed es ≤ spread k + 2
  | .nil => .inl rfl
  | .single (e := e) d => by
    have hd : e.printedNeed ≤ spread d.need + 1 := d.printedNeed_le
    refine .inr ⟨d.need, Nat.le_refl _, ?_⟩
    show max (e.printedNeed + 1) 0 ≤ _
    omega
  | @Items.cons _ _ e f es d ds => by
    have hd : e.printedNeed ≤ spread d.need + 1 := d.printedNeed_le
    have hneed : d.need + 1 ≤ (Items.cons d ds).need ∧ ds.need ≤ (Items.cons d ds).need :=
      ⟨Nat.le_max_left _ _, Nat.le_max_right _ _⟩
    show max (e.printedNeed + 1) (printedItemsNeed (f :: es)) = 0 ∨
      ∃ k, k + 1 ≤ _ ∧ max (e.printedNeed + 1) (printedItemsNeed (f :: es)) ≤ spread k + 2
    right
    rcases ds.printedItemsNeed_le with h | ⟨k, hk, h⟩
    · exact ⟨d.need, hneed.1, by omega⟩
    · have := spread_mono (Nat.le_max_left d.need k)
      have := spread_mono (Nat.le_max_right d.need k)
      exact ⟨max d.need k, by omega, by omega⟩

end

end ScriptFront.Expr
