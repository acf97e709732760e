import ScriptFront.Proofs.Rule.Loops

/-! # Languages without two members at one place

Of the beginnings of a list of terminals at most one is a member in front of what follows it, and
it has one value and takes one number of levels. What stands behind a first terminal is shorter. -/

namespace ScriptFront

open Terminal

namespace Language

variable {α β : Type} {n : Nat}

/-- No two members begin the same list of at most `n` terminals. -/
def Unique (n : Nat) (G : Language α) : Prop :=
  ∀ ⦃v w x y : List Terminal⦄ ⦃k : TokenKind⦄ ⦃a b : α⦄ ⦃i j : Nat⦄, (v ++ x).length ≤ n →
    v ++ x = w ++ y → G v (lead x k) a i → G w (lead y k) b j → v = w ∧ a = b ∧ i = j

theorem Unique.congr {G H : Language α} (h : Unique n G)
    (hGH : ∀ w k a m, G w k a m ↔ H w k a m) : Unique n H :=
  fun _ _ _ _ _ _ _ _ _ hn heq hv hw => h hn heq ((hGH _ _ _ _).mpr hv) ((hGH _ _ _ _).mpr hw)

theorem unique_value (a : α) : Unique n (value a) := by
  rintro v w x y k b c i j - - ⟨rfl, rfl, rfl⟩ ⟨rfl, rfl, rfl⟩
  exact ⟨rfl, rfl, rfl⟩

theorem unique_deeper {G : Language α} (hG : Unique n G) : Unique n (deeper G) := by
  rintro v w x y k a b _ _ hn h ⟨i, rfl, hv⟩ ⟨j, rfl, hw⟩
  obtain ⟨rfl, rfl, rfl⟩ := hG hn h hv hw
  exact ⟨rfl, rfl, rfl⟩

theorem unique_after {G : Language α} {t : Terminal} (hG : ∀ m < n, Unique m G) :
    Unique n (after t G) := by
  rintro _ _ x y k a b i j hn h ⟨v, rfl, hv⟩ ⟨w, rfl, hw⟩
  obtain ⟨-, h⟩ := List.cons.inj h
  obtain ⟨rfl, rfl, rfl⟩ := hG (v ++ x).length hn (Nat.le_refl _) h hv hw
  exact ⟨rfl, rfl, rfl⟩

theorem unique_seq {G : Language α} {H : α → Language β} (hG : Unique n G)
    (hH : ∀ a, Unique n (H a)) : Unique n (seq G H) := by
  rintro _ _ x y k b b' _ _ hn h ⟨v, a, _, u, _, rfl, hv, hu, rfl⟩
    ⟨v', a', _, u', _, rfl, hv', hu', rfl⟩
  rw [List.append_assoc] at hn h
  rw [List.append_assoc] at h
  rw [← lead_append] at hv hv'
  obtain ⟨rfl, rfl, rfl⟩ := hG hn h hv hv'
  obtain ⟨rfl, rfl, rfl⟩ := hH a (by rw [List.length_append] at hn; omega)
    (List.append_cancel_left h) hu hu'
  exact ⟨rfl, rfl, rfl⟩

theorem unique_option {G H : Language α} {kind : TokenKind} (hG : ∀ m < n, Unique m G)
    (hH : Unique n H) : Unique n (option kind G H) := by
  have apart {v w x y : List Terminal} {k : TokenKind} {a : α} {i : Nat} (h : v ++ x = w ++ y)
      (hv : after (.fixed kind) G v (lead x k) a i) : lead w (lead y k) = kind := by
    obtain ⟨v, rfl, -⟩ := hv
    rw [← lead_append, ← h]
    rfl
  rintro v w x y k a b i j hn h (hv | ⟨hne, hv⟩) (hw | ⟨hne', hw⟩)
  · exact unique_after hG hn h hv hw
  · exact absurd (apart h hv) hne'
  · exact absurd (apart h.symm hw) hne
  · exact hH hn h hv hw

theorem unique_links {L : α → Language (Option α)} (hL : ∀ a, Unique n (L a))
    {a d d' : α} {b l b₁ l₁ b₂ l₂ : Nat} {w w' x x' : List Terminal} {k : TokenKind}
    (hn : (w ++ x).length ≤ n) (hw : w ++ x = w' ++ x')
    (h : Links L a b l w (lead x k) d b₁ l₁) (hd : L d [] (lead x k) none 0)
    (h' : Links L a b l w' (lead x' k) d' b₂ l₂) (hd' : L d' [] (lead x' k) none 0) :
    w = w' ∧ d = d' ∧ b₁ = b₂ ∧ l₁ = l₂ := by
  generalize hk : lead x k = kx at h
  induction h generalizing w' with
  | nil =>
    subst hk
    generalize hk' : lead x' k = kx' at h'
    cases h' with
    | nil => exact ⟨rfl, rfl, rfl, rfl⟩
    | cons hc _ =>
      subst hk'
      rw [← lead_append] at hc
      obtain ⟨-, hcontra, -⟩ := hL _ hn (hw.trans (List.append_assoc _ _ _)) hd hc
      cases hcontra
  | cons hc hl ih =>
    subst hk
    generalize hk' : lead x' k = kx' at h'
    rw [← lead_append] at hc
    rw [List.append_assoc] at hn hw
    cases h' with
    | nil =>
      subst hk'
      obtain ⟨-, hcontra, -⟩ := hL _ hn hw hc hd'
      cases hcontra
    | cons hc' hl' =>
      subst hk'
      rw [← lead_append] at hc'
      rw [List.append_assoc] at hw
      obtain ⟨rfl, hsome, rfl⟩ := hL _ hn hw hc hc'
      cases hsome
      obtain ⟨rfl, rfl, rfl, rfl⟩ := ih (by rw [List.length_append] at hn; omega)
        (List.append_cancel_left hw) hd hl' rfl
      exact ⟨rfl, rfl, rfl, rfl⟩

theorem unique_chain {F : Language α} {L : α → Language (Option α)} (hF : Unique n F)
    (hL : ∀ a, Unique n (L a)) : Unique n (chain F L) := by
  rintro _ _ x y k d d' _ _ hn h ⟨v, a, _, u, _, _, rfl, hv, hl, hd, rfl⟩
    ⟨v', a', _, u', _, _, rfl, hv', hl', hd', rfl⟩
  rw [List.append_assoc] at hn h
  rw [List.append_assoc] at h
  rw [← lead_append] at hv hv'
  obtain ⟨rfl, rfl, rfl⟩ := hF hn h hv hv'
  obtain ⟨rfl, rfl, rfl, rfl⟩ := unique_links hL (by rw [List.length_append] at hn; omega)
    (List.append_cancel_left h) hl hd hl' hd'
  exact ⟨rfl, rfl, rfl⟩

theorem unique_separated {I : Language β} {separator : TokenKind} (hI : Unique n I) :
    Unique n (Separated separator I) := by
  intro v w x y k bs cs i j hn h hv hw
  generalize hk : lead x k = kx at hv
  induction hv generalizing w cs j with
  | single hb hne =>
    subst hk
    generalize hk' : lead y k = ky at hw
    cases hw with
    | single hc _ =>
      subst hk'
      obtain ⟨rfl, rfl, rfl⟩ := hI hn h hb hc
      exact ⟨rfl, rfl, rfl⟩
    | @cons v' w' _ _ _ _ _ hc _ =>
      rw [List.append_assoc] at h
      obtain ⟨rfl, -⟩ := hI (y := .fixed separator :: (w' ++ y)) (k := k) hn h hb hc
      rw [List.append_cancel_left h] at hne
      exact absurd rfl hne
  | @cons v u _ _ _ _ _ hb _ ih =>
    subst hk
    generalize hk' : lead y k = ky at hw
    rw [List.append_assoc] at hn h
    cases hw with
    | single hc hne =>
      subst hk'
      obtain ⟨rfl, -⟩ := hI (x := .fixed separator :: (u ++ x)) (k := k) hn h hb hc
      rw [← List.append_cancel_left h] at hne
      exact absurd rfl hne
    | @cons v' w' _ _ _ _ _ hc hs =>
      subst hk'
      rw [List.append_assoc] at h
      obtain ⟨rfl, rfl, rfl⟩ := hI (x := .fixed separator :: (u ++ x))
        (y := .fixed separator :: (w' ++ y)) (k := k) hn h hb hc
      obtain ⟨-, h⟩ := List.cons.inj (List.append_cancel_left h)
      obtain ⟨rfl, rfl, rfl⟩ := ih
        (by simp only [List.length_append, List.length_cons] at hn ⊢; omega) h hs rfl
      exact ⟨rfl, rfl, rfl⟩

end Language

end ScriptFront
