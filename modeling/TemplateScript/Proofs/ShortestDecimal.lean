import TemplateScript.Number.Shortest
import TemplateScript.Proofs.Remainder

/-!
# The shortest decimal of a double

A fraction that lies no further from a double than half way to its neighbours is rounded to it. The
decimal that is found for a double is such a fraction, and one is always found: the finest of the
grids that are tried is finer than the double is.
-/

namespace TemplateScript.Double

/-! ## Rounding to a given double -/

/-- In units of the last place of `m * 2 ^ q` a fraction lies half a unit from `m` at most, and less if
`m` is odd. Right below a power of two the doubles lie twice as close. -/
structure Rounds (n d m : Nat) (q : Int) : Prop where
  above : 2 * n < (2 * m + 1) * d ∨ 2 * n = (2 * m + 1) * d ∧ m % 2 = 0
  below : if m = hiddenBit ∧ -1074 < q then 4 * m * d ≤ 4 * n + d
    else 2 * m * d < 2 * n + d ∨ 2 * m * d = 2 * n + d ∧ m % 2 = 0

theorem roundHalfEven_eq {n d k : Nat} (hd : 0 < d)
    (habove : 2 * n < (2 * k + 1) * d ∨ 2 * n = (2 * k + 1) * d ∧ k % 2 = 0)
    (hbelow : 2 * k * d < 2 * n + d ∨ 2 * k * d = 2 * n + d ∧ k % 2 = 0) :
    roundHalfEven n d = k := by
  have hn := Nat.div_add_mod n d
  have hr := Nat.mod_lt n hd
  have hlow : n / d ≤ k := by
    by_contra hlt
    have hmul : d * (k + 1) ≤ d * (n / d) := Nat.mul_le_mul_left d (by omega)
    have hexp : d * (k + 1) = k * d + d := by ring
    have hexp' : (2 * k + 1) * d = 2 * (k * d) + d := by ring
    omega
  have hhigh : k ≤ n / d + 1 := by
    by_contra hlt
    have hmul : d * (n / d + 2) ≤ d * k := Nat.mul_le_mul_left d (by omega)
    have hexp : d * (n / d + 2) = d * (n / d) + 2 * d := by ring
    have hexp' : 2 * k * d = 2 * (d * k) := by ring
    omega
  have hexp : (2 * k + 1) * d = 2 * (d * k) + d := by ring
  have hexp' : 2 * k * d = 2 * (d * k) := by ring
  rw [hexp] at habove
  rw [hexp'] at hbelow
  unfold roundHalfEven
  simp only
  rcases Nat.eq_or_lt_of_le hlow with heq | hlt
  · rw [heq] at hn ⊢
    split <;> omega
  · have heq : k = n / d + 1 := by omega
    have hmul : d * (n / d + 1) = d * (n / d) + d := by ring
    rw [heq, hmul] at hbelow habove
    split <;> omega

section
variable {num den m : Nat} {q e : Int}

theorem lastPlace_eq (hn : num ≠ 0) (hd : den ≠ 0) (he : -1074 ≤ e)
    (hlt : Below num den e (2 * hiddenBit)) (hge : e = -1074 ∨ ¬ Below num den e hiddenBit) :
    lastPlace num den = e := by
  obtain ⟨hlt', hge'⟩ := below_lastPlace hn hd
  have hlow : -1074 ≤ lastPlace num den := Int.le_max_left _ _
  generalize lastPlace num den = l at hlt' hge' hlow
  rcases Int.lt_trichotomy l e with h | h | h
  · have hnot := hge.resolve_left (by omega)
    exact absurd ((below_succ.1 hlt').mono (by omega)) hnot
  · exact h
  · have hnot := hge'.resolve_left (by omega)
    exact absurd ((below_succ.1 hlt).mono (by omega)) hnot

theorem twoTo_step (q : Int) : twoTo (-(q - 1)) * twoTo q = 2 * (twoTo (-q) * twoTo (q - 1)) := by
  have hexp : (-(q - 1)).toNat + q.toNat = (-q).toNat + (q - 1).toNat + 1 := by omega
  simp only [twoTo_eq, ← Nat.pow_add]
  rw [hexp, Nat.pow_succ, Nat.mul_comm]

/-- Right below a power of two the last place is one lower, and the power is twice as many units. -/
theorem magnitude_below_power (hn : num ≠ 0) (hd : den ≠ 0) (hq : -1074 < q)
    (hlt : Below num den q hiddenBit)
    (hlow : 4 * hiddenBit * (den * twoTo q) ≤ 4 * (num * twoTo (-q)) + den * twoTo q) :
    magnitude num den = (q + 1074).toNat * hiddenBit + hiddenBit := by
  have hD : 0 < den * twoTo q := Nat.mul_pos (Nat.pos_of_ne_zero hd) (twoTo_pos q)
  have hD' : 0 < den * twoTo (q - 1) := Nat.mul_pos (Nat.pos_of_ne_zero hd) (twoTo_pos (q - 1))
  have hstep : ∀ k, Below num den (q - 1) (2 * k) ↔ Below num den q k := by
    intro k
    rw [below_succ, Int.sub_add_cancel]
  have hbelow : Below num den (q - 1) (2 * hiddenBit) := (hstep hiddenBit).2 hlt
  have hnot : ¬ Below num den (q - 1) hiddenBit := by
    intro hb
    have hhalf : hiddenBit = 2 * (hiddenBit / 2) := by decide
    have hpos : 0 < hiddenBit / 2 := by decide
    rw [hhalf, hstep] at hb
    rw [hhalf] at hlow
    generalize hiddenBit / 2 = k at hb hlow hpos
    have hb : num * twoTo (-q) < den * twoTo q * k := hb
    have hexp : 4 * (2 * k) * (den * twoTo q) = 8 * (den * twoTo q * k) := by ring
    have hle : den * twoTo q * 1 ≤ den * twoTo q * k := Nat.mul_le_mul_left _ hpos
    omega
  have hplace : lastPlace num den = q - 1 :=
    lastPlace_eq hn hd (by omega) hbelow (Or.inr hnot)
  have hround : roundHalfEven (num * twoTo (-(q - 1))) (den * twoTo (q - 1)) = 2 * hiddenBit := by
    have hcross : num * twoTo (-(q - 1)) * (den * twoTo q)
        = 2 * (num * twoTo (-q)) * (den * twoTo (q - 1)) := by
      calc num * twoTo (-(q - 1)) * (den * twoTo q)
          = num * den * (twoTo (-(q - 1)) * twoTo q) := by ring
        _ = 2 * (num * twoTo (-q)) * (den * twoTo (q - 1)) := by rw [twoTo_step]; ring
    have hle : 2 * (2 * hiddenBit) * (den * twoTo (q - 1))
        ≤ 2 * (num * twoTo (-(q - 1))) + den * twoTo (q - 1) := by
      refine Nat.le_of_mul_le_mul_right ?_ hD
      calc 2 * (2 * hiddenBit) * (den * twoTo (q - 1)) * (den * twoTo q)
          = 4 * hiddenBit * (den * twoTo q) * (den * twoTo (q - 1)) := by ring
        _ ≤ (4 * (num * twoTo (-q)) + den * twoTo q) * (den * twoTo (q - 1)) :=
            Nat.mul_le_mul_right _ hlow
        _ = 2 * (2 * (num * twoTo (-q)) * (den * twoTo (q - 1)))
              + den * twoTo (q - 1) * (den * twoTo q) := by ring
        _ = (2 * (num * twoTo (-(q - 1))) + den * twoTo (q - 1)) * (den * twoTo q) := by
            rw [← hcross]; ring
    have hlt : num * twoTo (-(q - 1)) < den * twoTo (q - 1) * (2 * hiddenBit) := hbelow
    have hexp : (2 * (2 * hiddenBit) + 1) * (den * twoTo (q - 1))
        = 2 * (den * twoTo (q - 1) * (2 * hiddenBit)) + den * twoTo (q - 1) := by ring
    refine roundHalfEven_eq hD' (Or.inl (by omega)) ?_
    rcases Nat.lt_or_eq_of_le hle with hlt | heq
    · exact Or.inl hlt
    · exact Or.inr ⟨heq, Nat.mul_mod_right 2 hiddenBit⟩
  have hexp : (q + 1074).toNat = (q - 1 + 1074).toNat + 1 := by omega
  rw [magnitude, hplace, inUnits, hround, hexp]
  ring

/-- A fraction that rounds to a double has its bits. -/
theorem magnitude_eq (hn : num ≠ 0) (hd : den ≠ 0) (hq : -1074 ≤ q) (hm : m < 2 * hiddenBit)
    (hnormal : q = -1074 ∨ hiddenBit ≤ m) (h : Rounds (num * twoTo (-q)) (den * twoTo q) m q) :
    magnitude num den = (q + 1074).toNat * hiddenBit + m := by
  have hD : 0 < den * twoTo q := Nat.mul_pos (Nat.pos_of_ne_zero hd) (twoTo_pos q)
  have hbelow : Below num den q (2 * hiddenBit) := by
    have hmul : (2 * m + 1) * (den * twoTo q) < 4 * hiddenBit * (den * twoTo q) :=
      Nat.mul_lt_mul_of_pos_right (by omega) hD
    have hexp : 4 * hiddenBit * (den * twoTo q) = 2 * (den * twoTo q * (2 * hiddenBit)) := by ring
    rw [hexp] at hmul
    have habove := h.above
    unfold Below
    omega
  by_cases hplace : q = -1074 ∨ ¬ Below num den q hiddenBit
  · have hround : roundHalfEven (num * twoTo (-q)) (den * twoTo q) = m := by
      refine roundHalfEven_eq hD h.above ?_
      have hlow := h.below
      split at hlow
      · rename_i hpower
        have hge : ¬ Below num den q hiddenBit := hplace.resolve_left (by omega)
        rw [← hpower.1] at hge
        have hle : den * twoTo q * m ≤ num * twoTo (-q) := Nat.not_lt.1 hge
        have hexp : 2 * m * (den * twoTo q) = 2 * (den * twoTo q * m) := by ring
        omega
      · exact hlow
    rw [magnitude, lastPlace_eq hn hd hq hbelow hplace, inUnits, hround]
  -- Otherwise the fraction is less than a power of two, and that is the double.
  · obtain ⟨hne, hlt⟩ := not_or.1 hplace
    have hlt : Below num den q hiddenBit := Classical.not_not.1 hlt
    have hpower : m = hiddenBit ∧ -1074 < q := by
      refine Classical.by_contradiction fun hnot => ?_
      have hlow := h.below
      rw [if_neg hnot] at hlow
      have hgt : hiddenBit + 1 ≤ m := by omega
      have hmul : 2 * (hiddenBit + 1) * (den * twoTo q) ≤ 2 * m * (den * twoTo q) :=
        Nat.mul_le_mul_right _ (by omega)
      have hexp : 2 * (hiddenBit + 1) * (den * twoTo q)
          = 2 * (den * twoTo q * hiddenBit) + 2 * (den * twoTo q) := by ring
      have hlt : num * twoTo (-q) < den * twoTo q * hiddenBit := hlt
      omega
    have hlow := h.below
    rw [if_pos hpower] at hlow
    obtain ⟨rfl, hq⟩ := hpower
    exact magnitude_below_power hn hd hq hlt hlow

end

/-! ## Decimals near a double -/

theorem tenTo_pos (e : Int) : 0 < tenTo e := Nat.pow_pos (by decide)

theorem twoTo_quarters (q : Int) :
    4 * (twoTo (-q) * twoTo (q - 2)) = twoTo (2 - q) * twoTo q := by
  have hexp : (2 - q).toNat + q.toNat = (-q).toNat + (q - 2).toNat + 2 := by omega
  simp only [twoTo_eq, ← Nat.pow_add]
  rw [hexp, Nat.pow_add _ _ 2, Nat.mul_comm]

/-! The double, a quarter of its last place and the step of a grid are measured in the same units. -/

def quarter (q j : Int) : Nat := twoTo (q - 2) * tenTo (-j)

def step (q j : Int) : Nat := twoTo (2 - q) * tenTo j

def floorOf (m : Nat) (q j : Int) : Nat := 4 * m * quarter q j / step q j

def distance (m : Nat) (q j : Int) : Nat := 4 * m * quarter q j % step q j

def gapBelow (m : Nat) (q j : Int) : Nat :=
  if m = hiddenBit ∧ -1074 < q then quarter q j else 2 * quarter q j

def Reaches (m distance gap : Nat) : Prop := distance < gap ∨ distance = gap ∧ m % 2 = 0

instance (m distance gap : Nat) : Decidable (Reaches m distance gap) :=
  inferInstanceAs (Decidable (_ ∨ _))

section
variable {m : Nat} {q j : Int} {x : Decimal}

theorem onGrid?_eq (m : Nat) (q j : Int) : onGrid? m q j =
    if Reaches m (distance m q j) (gapBelow m q j) then
      if Reaches m (step q j - distance m q j) (2 * quarter q j) ∧
          (step q j - distance m q j < distance m q j ∨
            step q j - distance m q j = distance m q j ∧ floorOf m q j % 2 = 1) then
        some ⟨floorOf m q j + 1, j⟩
      else some ⟨floorOf m q j, j⟩
    else if Reaches m (step q j - distance m q j) (2 * quarter q j) then
      some ⟨floorOf m q j + 1, j⟩
    else none := rfl

/-- What is found on a grid is one of the two neighbours of the double, and near enough to it. -/
theorem onGrid?_eq_some (h : onGrid? m q j = some x) : x.exponent = j ∧
    (x.digits = floorOf m q j ∧ Reaches m (distance m q j) (gapBelow m q j) ∨
      x.digits = floorOf m q j + 1 ∧
        Reaches m (step q j - distance m q j) (2 * quarter q j)) := by
  rw [onGrid?_eq] at h
  by_cases hbelow : Reaches m (distance m q j) (gapBelow m q j)
  · rw [if_pos hbelow] at h
    split at h
    · rename_i habove
      cases h
      exact ⟨rfl, Or.inr ⟨rfl, habove.1⟩⟩
    · cases h
      exact ⟨rfl, Or.inl ⟨rfl, hbelow⟩⟩
  · rw [if_neg hbelow] at h
    split at h
    · rename_i habove
      cases h
      exact ⟨rfl, Or.inr ⟨rfl, habove⟩⟩
    · cases h

theorem step_pos (q j : Int) : 0 < step q j := Nat.mul_pos (twoTo_pos _) (tenTo_pos _)

theorem quarter_pos (q j : Int) : 0 < quarter q j := Nat.mul_pos (twoTo_pos _) (tenTo_pos _)

/-- A grid that is finer than a quarter of the last place has a decimal near the double. -/
theorem onGrid?_of_fine (h : step q j ≤ quarter q j) : ∃ x, onGrid? m q j = some x := by
  have hmod : distance m q j < step q j := Nat.mod_lt _ (step_pos q j)
  have hreach : Reaches m (distance m q j) (gapBelow m q j) := by
    apply Or.inl
    unfold gapBelow
    split <;> omega
  rw [onGrid?_eq, if_pos hreach]
  split
  · exact ⟨_, rfl⟩
  · exact ⟨_, rfl⟩

/-- A fraction of the value of a decimal, measured in last places of a double. -/
theorem cross_units {num den : Nat} (h : num * tenTo (-j) = x.digits * tenTo j * den) :
    4 * (num * twoTo (-q)) * quarter q j = x.digits * step q j * (den * twoTo q) := by
  calc 4 * (num * twoTo (-q)) * quarter q j
      = 4 * (twoTo (-q) * twoTo (q - 2)) * (num * tenTo (-j)) := by rw [quarter]; ring
    _ = x.digits * step q j * (den * twoTo q) := by rw [twoTo_quarters, h, step]; ring

theorem rounds_of_below {N D A δ : Nat} (hA : 0 < A) (hD : 0 < D)
    (h : 4 * N * A + δ * D = 4 * m * D * A)
    (hreach : Reaches m δ (if m = hiddenBit ∧ -1074 < q then A else 2 * A)) : Rounds N D m q where
  above := by
    have hle : 4 * N ≤ 4 * m * D := Nat.le_of_mul_le_mul_right (by omega) hA
    have hexp : (2 * m + 1) * D = 2 * (m * D) + D := by ring
    rw [Nat.mul_assoc] at hle
    omega
  below := by
    by_cases hpower : m = hiddenBit ∧ -1074 < q
    · rw [if_pos hpower] at hreach ⊢
      have hδ : δ ≤ A := by
        rcases hreach with hlt | ⟨heq, -⟩ <;> omega
      refine Nat.le_of_mul_le_mul_right ?_ hA
      calc 4 * m * D * A = 4 * N * A + δ * D := h.symm
        _ ≤ 4 * N * A + A * D := Nat.add_le_add_left (Nat.mul_le_mul_right D hδ) _
        _ = (4 * N + D) * A := by ring
    · rw [if_neg hpower] at hreach ⊢
      rcases hreach with hlt | ⟨rfl, heven⟩
      · refine Or.inl (Nat.lt_of_mul_lt_mul_right (a := 2 * A) ?_)
        calc 2 * m * D * (2 * A) = 4 * N * A + δ * D := by rw [h]; ring
          _ < 4 * N * A + 2 * A * D := Nat.add_lt_add_left (Nat.mul_lt_mul_of_pos_right hlt hD) _
          _ = (2 * N + D) * (2 * A) := by ring
      · refine Or.inr ⟨Nat.eq_of_mul_eq_mul_right (Nat.mul_pos Nat.two_pos hA) ?_, heven⟩
        calc 2 * m * D * (2 * A) = 4 * N * A + 2 * A * D := by rw [h]; ring
          _ = (2 * N + D) * (2 * A) := by ring

theorem rounds_of_above {N D A δ : Nat} (hA : 0 < A) (hD : 0 < D) (hδ : 0 < δ)
    (h : 4 * N * A = 4 * m * D * A + δ * D) (hreach : Reaches m δ (2 * A)) : Rounds N D m q where
  above := by
    rcases hreach with hlt | ⟨rfl, heven⟩
    · refine Or.inl (Nat.lt_of_mul_lt_mul_right (a := 2 * A) ?_)
      calc 2 * N * (2 * A) = 4 * m * D * A + δ * D := by rw [← h]; ring
        _ < 4 * m * D * A + 2 * A * D := Nat.add_lt_add_left (Nat.mul_lt_mul_of_pos_right hlt hD) _
        _ = (2 * m + 1) * D * (2 * A) := by ring
    · refine Or.inr ⟨Nat.eq_of_mul_eq_mul_right (Nat.mul_pos Nat.two_pos hA) ?_, heven⟩
      calc 2 * N * (2 * A) = 4 * m * D * A + 2 * A * D := by rw [← h]; ring
        _ = (2 * m + 1) * D * (2 * A) := by ring
  below := by
    have hlt : 4 * m * D < 4 * N := by
      refine Nat.lt_of_mul_lt_mul_right (a := A) ?_
      have hpos : 0 < δ * D := Nat.mul_pos hδ hD
      omega
    rw [Nat.mul_assoc] at hlt
    split
    · rw [Nat.mul_assoc]
      omega
    · rw [Nat.mul_assoc]
      exact Or.inl (by omega)

theorem rounds_of_onGrid? (hm : m ≠ 0) (h : onGrid? m q j = some x) {num den : Nat} (hd : den ≠ 0)
    (hval : num * tenTo (-j) = x.digits * tenTo j * den) :
    x.digits ≠ 0 ∧ Rounds (num * twoTo (-q)) (den * twoTo q) m q := by
  have hD : 0 < den * twoTo q := Nat.mul_pos (Nat.pos_of_ne_zero hd) (twoTo_pos q)
  have hquarter := quarter_pos q j
  have hcross := cross_units (q := q) hval
  have hsum : step q j * floorOf m q j + distance m q j = 4 * m * quarter q j :=
    Nat.div_add_mod _ _
  have hmod : distance m q j < step q j := Nat.mod_lt _ (step_pos q j)
  generalize den * twoTo q = D at hD hcross ⊢
  generalize num * twoTo (-q) = N at hcross ⊢
  obtain ⟨-, ⟨hdigits, hreach⟩ | ⟨hdigits, hreach⟩⟩ := onGrid?_eq_some h
  · refine ⟨fun hzero => ?_, rounds_of_below hquarter hD ?_ hreach⟩
    · have hle : distance m q j ≤ 2 * quarter q j := by
        unfold gapBelow at hreach
        rcases hreach with hlt | ⟨heq, -⟩
        · split at hlt <;> omega
        · split at heq <;> omega
      have hge : 1 * quarter q j ≤ m * quarter q j := Nat.mul_le_mul_right _ (by omega)
      rw [← hdigits, hzero, Nat.mul_zero, Nat.zero_add, Nat.mul_assoc] at hsum
      omega
    · rw [hcross, hdigits]
      calc floorOf m q j * step q j * D + distance m q j * D
          = (step q j * floorOf m q j + distance m q j) * D := by ring
        _ = 4 * m * D * quarter q j := by rw [hsum]; ring
  · refine ⟨by omega, rounds_of_above hquarter hD (by omega) ?_ hreach⟩
    have hsub : step q j = distance m q j + (step q j - distance m q j) := by omega
    generalize step q j - distance m q j = δ at hsub
    rw [hcross, hdigits]
    calc (floorOf m q j + 1) * step q j * D
        = (step q j * floorOf m q j) * D + step q j * D := by ring
      _ = (step q j * floorOf m q j + distance m q j) * D + δ * D := by
          rw [hsub]
          ring
      _ = 4 * m * D * quarter q j + δ * D := by rw [hsum]; ring

/-! ## The finest grid -/

theorem ten_pow_le (k : Nat) : 10 ^ k ≤ 2 ^ (10 * (k / 3) + 4 * (k % 3)) := by
  calc 10 ^ k = (10 ^ 3) ^ (k / 3) * 10 ^ (k % 3) := by
        rw [← Nat.pow_mul, ← Nat.pow_add, Nat.div_add_mod]
    _ ≤ (2 ^ 10) ^ (k / 3) * (2 ^ 4) ^ (k % 3) :=
        Nat.mul_le_mul (Nat.pow_le_pow_left (by decide) _) (Nat.pow_le_pow_left (by decide) _)
    _ = 2 ^ (10 * (k / 3) + 4 * (k % 3)) := by rw [← Nat.pow_mul, ← Nat.pow_mul, ← Nat.pow_add]

theorem two_pow_le (k : Nat) : 2 ^ (33 * (k / 10) + 3 * (k % 10)) ≤ 10 ^ k := by
  calc 2 ^ (33 * (k / 10) + 3 * (k % 10)) = (2 ^ 33) ^ (k / 10) * (2 ^ 3) ^ (k % 10) := by
        rw [← Nat.pow_mul, ← Nat.pow_mul, ← Nat.pow_add]
    _ ≤ (10 ^ 10) ^ (k / 10) * 10 ^ (k % 10) :=
        Nat.mul_le_mul (Nat.pow_le_pow_left (by decide) _) (Nat.pow_le_pow_left (by decide) _)
    _ = 10 ^ k := by rw [← Nat.pow_mul, ← Nat.pow_add, Nat.div_add_mod]

theorem log2_le {m : Nat} (hm : m < 2 * hiddenBit) : m.log2 ≤ 52 := by
  by_cases hzero : m = 0
  · rw [hzero]
    decide
  · have hlt : m.log2 < 53 := (Nat.log2_lt hzero).2 hm
    omega

theorem coarsest_le (hm : m < 2 * hiddenBit) :
    100000 * (coarsest m q - 2) ≤ (53 + q) * 30103 := by
  have hlog := log2_le hm
  unfold coarsest
  rw [Int.fdiv_eq_ediv_of_nonneg _ (by decide)]
  omega

/-- The finest grid that is tried has steps of no more than a quarter of the last place. -/
theorem step_le_quarter (hq : -1074 ≤ q) (hq' : q ≤ 971)
    (hj : 100000 * (j + 21) ≤ (53 + q) * 30103) : step q j ≤ quarter q j := by
  have hone : ∀ e : Int, e ≤ 0 → twoTo e = 1 ∧ tenTo e = 1 := by
    intro e he
    have hzero : e.toNat = 0 := by omega
    simp [twoTo, tenTo, hzero]
  by_cases htwo : q < 2
  · have hpow : twoTo (2 - q) ≤ tenTo (-j) := by
      refine Nat.le_trans (Nat.pow_le_pow_right (by decide) ?_) (two_pow_le _)
      omega
    rw [step, quarter, (hone j (by omega)).2, (hone (q - 2) (by omega)).1]
    omega
  · rw [step, quarter, (hone (2 - q) (by omega)).1]
    by_cases hneg : j ≤ 0
    · have hpos : 0 < twoTo (q - 2) * tenTo (-j) := Nat.mul_pos (twoTo_pos _) (tenTo_pos _)
      rw [(hone j hneg).2]
      omega
    · have hpow : tenTo j ≤ twoTo (q - 2) := by
        refine Nat.le_trans (ten_pow_le _) (Nat.pow_le_pow_right (by decide) ?_)
        omega
      rw [(hone (-j) (by omega)).2]
      omega

theorem exists_onGrid? (hm : m < 2 * hiddenBit) (hq : -1074 ≤ q) (hq' : q ≤ 971) :
    ∃ i : Nat, onGrid? m q (coarsest m q - i) = some (shortest m q) := by
  have hfine : ∃ x, onGrid? m q (coarsest m q - (23 : Nat)) = some x := by
    have hle := coarsest_le (q := q) hm
    exact onGrid?_of_fine (step_le_quarter hq hq' (by omega))
  obtain ⟨x, hx⟩ := hfine
  cases hfind : (List.range 24).findSome? fun (i : Nat) => onGrid? m q (coarsest m q - i) with
  | none =>
    have hnone := List.findSome?_eq_none_iff.1 hfind 23 (by decide)
    rw [hx] at hnone
    cases hnone
  | some y =>
    obtain ⟨i, -, hi⟩ := List.exists_of_findSome?_eq_some hfind
    refine ⟨i, ?_⟩
    rw [hi, shortest, hfind, Option.getD_some]

/-- A fraction of the value of the decimal that is found for a double is rounded to the double. -/
theorem ofRatio?_shortest {x : Float} {negative : Bool} (h : shape x = .finite negative m q)
    (hm : m ≠ 0) : (shortest m q).digits ≠ 0 ∧ ∀ {num den : Nat}, den ≠ 0 →
      num * tenTo (-(shortest m q).exponent)
        = (shortest m q).digits * tenTo (shortest m q).exponent * den →
      ofRatio? negative num den = some x := by
  obtain ⟨hm', hq'⟩ := shape_bounds h
  obtain ⟨hq, hnormal, hfinite, hback⟩ := ofBits_of_shape h
  obtain ⟨i, hi⟩ := exists_onGrid? hm' hq hq'
  have hj := (onGrid?_eq_some hi).1
  rw [← hj] at hi
  generalize shortest m q = d at hi ⊢
  have hown : d.digits * tenTo d.exponent * tenTo (-d.exponent)
      = d.digits * tenTo d.exponent * tenTo (-d.exponent) := rfl
  have hdigits : d.digits ≠ 0 := (rounds_of_onGrid? hm hi (tenTo_pos _).ne' hown).1
  refine ⟨hdigits, ?_⟩
  intro num den hden hval
  have hnum : num ≠ 0 := by
    rintro rfl
    have hpos : 0 < d.digits * tenTo d.exponent * den :=
      Nat.mul_pos (Nat.mul_pos (Nat.pos_of_ne_zero hdigits) (tenTo_pos _)) (Nat.pos_of_ne_zero hden)
    omega
  have hrounds := (rounds_of_onGrid? hm hi hden hval).2
  rw [ofRatio?_eq negative hnum, magnitude_eq hnum hden hq hm' hnormal hrounds, if_pos hfinite,
    hback]

theorem ofRatio?_zero {x : Float} {negative : Bool} (h : shape x = .finite negative 0 q)
    (den : Nat) : ofRatio? negative 0 den = some x := by
  obtain ⟨hq, hnormal, -, hback⟩ := ofBits_of_shape h
  have hlow : q = -1074 := hnormal.resolve_right (by decide)
  rw [hlow] at hback
  rw [ofRatio?, if_pos rfl]
  exact congrArg some hback

end

end TemplateScript.Double
