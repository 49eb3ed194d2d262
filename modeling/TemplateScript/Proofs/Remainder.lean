import Mathlib.Tactic.Ring
import TemplateScript.Number
import TemplateScript.Proofs.DoubleBits

/-!
# Which operations have no result

Rounding a fraction that is not beyond the largest double gives a double, so the remainder of finite
doubles is one. What is left is the remainder of an infinite dividend.
-/

namespace TemplateScript.Double

/-- The fraction is less than so many units of `2 ^ e`. -/
def Below (num den : Nat) (e : Int) (k : Nat) : Prop := num * twoTo (-e) < den * twoTo e * k

instance (num den : Nat) (e : Int) (k : Nat) : Decidable (Below num den e k) :=
  inferInstanceAs (Decidable (_ < _))

theorem twoTo_eq (e : Int) : twoTo e = 2 ^ e.toNat := rfl

section
variable {num den k : Nat} {e e' : Int}

theorem Below.weaken (h : Below num den e k) {k' : Nat} (hk : k ≤ k') : Below num den e k' :=
  Nat.lt_of_lt_of_le h (Nat.mul_le_mul_left _ hk)

theorem below_succ : Below num den e (2 * k) ↔ Below num den (e + 1) k := by
  unfold Below
  simp only [twoTo_eq]
  by_cases he : 0 ≤ e
  · have h₁ : (-e).toNat = 0 := by omega
    have h₂ : (-(e + 1)).toNat = 0 := by omega
    have h₃ : (e + 1).toNat = e.toNat + 1 := by omega
    have hr : den * 2 ^ (e.toNat + 1) * k = den * 2 ^ e.toNat * (2 * k) := by ring
    rw [h₁, h₂, h₃, hr]
  · have h₁ : (-e).toNat = (-(e + 1)).toNat + 1 := by omega
    have h₂ : e.toNat = 0 := by omega
    have h₃ : (e + 1).toNat = 0 := by omega
    have hl : num * 2 ^ ((-(e + 1)).toNat + 1) = 2 * (num * 2 ^ (-(e + 1)).toNat) := by ring
    have hr : den * 2 ^ 0 * (2 * k) = 2 * (den * 2 ^ 0 * k) := by ring
    rw [h₁, h₂, h₃, hl, hr]
    omega

theorem Below.mono (h : Below num den e k) (he : e ≤ e') : Below num den e' k := by
  obtain ⟨d, rfl⟩ := Int.le.dest he
  clear he
  induction d with
  | zero => simpa using h
  | succ d ih =>
    have hs := below_succ.1 (ih.weaken (by omega : k ≤ 2 * k))
    simpa [Int.add_assoc] using hs

/-! ## Rounding -/

theorem roundHalfEven_le {n d : Nat} (h : n < d * k) : roundHalfEven n d ≤ k := by
  have hq : n / d < k := Nat.div_lt_of_lt_mul h
  unfold roundHalfEven
  simp only
  split <;> omega

theorem le_roundHalfEven (n d : Nat) : n / d ≤ roundHalfEven n d := by
  unfold roundHalfEven
  simp only
  split <;> omega

/-- The first guess at the last place is right or one too low. -/
theorem below_guess (hn : num ≠ 0) (hd : den ≠ 0) :
    Below num den (num.log2 - den.log2 - 53) (4 * hiddenBit) ∧
      ¬ Below num den (num.log2 - den.log2 - 53) hiddenBit := by
  have hhidden : hiddenBit = 2 ^ 52 := rfl
  have hn₁ := Nat.log2_self_le hn
  have hn₂ : num < 2 ^ (num.log2 + 1) := Nat.lt_log2_self
  have hd₁ := Nat.log2_self_le hd
  have hd₂ : den < 2 ^ (den.log2 + 1) := Nat.lt_log2_self
  unfold Below
  rw [twoTo_eq, twoTo_eq, hhidden]
  generalize hp : (-((num.log2 : Int) - den.log2 - 53)).toNat = p
  generalize hq : ((num.log2 : Int) - den.log2 - 53).toNat = q
  have hpq : p + num.log2 = q + den.log2 + 53 := by omega
  constructor
  · calc num * 2 ^ p < 2 ^ (num.log2 + 1) * 2 ^ p :=
          Nat.mul_lt_mul_of_pos_right hn₂ (Nat.two_pow_pos p)
      _ = 2 ^ (p + num.log2) * 2 := by ring
      _ = 2 ^ den.log2 * (2 ^ q * (4 * 2 ^ 52)) := by rw [hpq]; ring
      _ ≤ den * (2 ^ q * (4 * 2 ^ 52)) := Nat.mul_le_mul_right _ hd₁
      _ = den * 2 ^ q * (4 * 2 ^ 52) := by ring
  · refine Nat.not_lt.2 ?_
    calc den * 2 ^ q * 2 ^ 52 ≤ 2 ^ (den.log2 + 1) * 2 ^ q * 2 ^ 52 :=
          Nat.mul_le_mul_right _ (Nat.mul_le_mul_right _ (Nat.le_of_lt hd₂))
      _ = 2 ^ (q + den.log2 + 53) := by ring
      _ = 2 ^ num.log2 * 2 ^ p := by rw [← hpq]; ring
      _ ≤ num * 2 ^ p := Nat.mul_le_mul_right _ hn₁

/-- The fraction has at most 53 places down to its last place. -/
theorem below_lastPlace (hn : num ≠ 0) (hd : den ≠ 0) :
    Below num den (lastPlace num den) (2 * hiddenBit) ∧
      (lastPlace num den = -1074 ∨ ¬ Below num den (lastPlace num den) hiddenBit) := by
  obtain ⟨hlt, hge⟩ := below_guess hn hd
  have hlast : lastPlace num den = max (-1074)
      (if Below num den (num.log2 - den.log2 - 53) (2 * hiddenBit)
        then (num.log2 : Int) - den.log2 - 53 else (num.log2 : Int) - den.log2 - 53 + 1) := rfl
  generalize (num.log2 : Int) - den.log2 - 53 = e at hlt hge hlast
  have hplace : Below num den (if Below num den e (2 * hiddenBit) then e else e + 1) (2 * hiddenBit)
      ∧ ¬ Below num den (if Below num den e (2 * hiddenBit) then e else e + 1) hiddenBit := by
    by_cases h : Below num den e (2 * hiddenBit)
    · rw [if_pos h]
      exact ⟨h, hge⟩
    · rw [if_neg h]
      have hfour : 4 * hiddenBit = 2 * (2 * hiddenBit) := by ring
      rw [hfour] at hlt
      exact ⟨below_succ.1 hlt, fun hs => h (below_succ.2 hs)⟩
  rw [hlast]
  generalize (if Below num den e (2 * hiddenBit) then e else e + 1) = g at hplace
  refine ⟨hplace.1.mono (Int.le_max_right _ _), ?_⟩
  have hg : max (-1074) g = -1074 ∨ max (-1074) g = g := by omega
  rcases hg with hg | hg
  · exact Or.inl hg
  · rw [hg]
    exact Or.inr hplace.2

def magnitude (num den : Nat) : Nat :=
  (lastPlace num den + 1074).toNat * hiddenBit +
    roundHalfEven (inUnits num den (lastPlace num den)).1 (inUnits num den (lastPlace num den)).2

theorem ofRatio?_eq (negative : Bool) (hn : num ≠ 0) :
    ofRatio? negative num den =
      if magnitude num den < infinityBits then some (ofBits negative (magnitude num den))
      else none := by
  unfold ofRatio?
  rw [if_neg hn]
  rfl

/-- A fraction less than the largest double is rounded to a double. -/
theorem magnitude_lt (hn : num ≠ 0) (hd : den ≠ 0) (h : Below num den 971 (2 * hiddenBit - 1)) :
    magnitude num den < infinityBits := by
  have hhidden : hiddenBit = 2 ^ 52 := rfl
  have hinf : infinityBits = 2047 * hiddenBit := rfl
  obtain ⟨hlt, hplace⟩ := below_lastPlace hn hd
  unfold magnitude
  generalize lastPlace num den = e at hlt hplace
  have hround : roundHalfEven (inUnits num den e).1 (inUnits num den e).2 ≤ 2 * hiddenBit :=
    roundHalfEven_le hlt
  by_cases he : e ≤ 970
  · have hexp : (e + 1074).toNat * hiddenBit ≤ 2044 * hiddenBit :=
      Nat.mul_le_mul_right _ (by omega)
    rw [hinf]
    omega
  · have hge : ¬ Below num den e hiddenBit := hplace.resolve_left (by omega)
    have hexp : e = 971 := by
      by_contra hne
      have htop : Below num den (971 + 1) hiddenBit :=
        below_succ.1 (h.weaken (by omega : 2 * hiddenBit - 1 ≤ 2 * hiddenBit))
      exact hge (htop.mono (by omega))
    subst hexp
    have htop : roundHalfEven (inUnits num den 971).1 (inUnits num den 971).2
        ≤ 2 * hiddenBit - 1 := roundHalfEven_le h
    have htwo : ((971 : Int) + 1074).toNat = 2045 := rfl
    rw [hinf, htwo]
    omega

theorem magnitude_ne_zero (hn : num ≠ 0) : magnitude num 1 ≠ 0 := by
  have hhidden : 0 < hiddenBit := Nat.two_pow_pos 52
  have hlow : -1074 ≤ lastPlace num 1 := Int.le_max_left _ _
  unfold magnitude
  generalize lastPlace num 1 = e at hlow
  by_cases he : e = -1074
  · have hunits : (inUnits num 1 e).1 / (inUnits num 1 e).2 = num * twoTo (-e) := by
      rw [he]
      exact Nat.div_one _
    have hround := le_roundHalfEven (inUnits num 1 e).1 (inUnits num 1 e).2
    have hpos : 0 < num * twoTo (-e) := Nat.mul_pos (Nat.pos_of_ne_zero hn) (Nat.two_pow_pos _)
    omega
  · have hexp : 1 * hiddenBit ≤ (e + 1074).toNat * hiddenBit := Nat.mul_le_mul_right _ (by omega)
    omega

/-! ## Remainders -/

theorem below_of_lt {r n : Nat} {p e : Int} (hr : r < n * twoTo (p - e)) (hn : n < 2 * hiddenBit)
    (hp : p ≤ 971) (he : e ≤ p) :
    Below (r * twoTo e) (twoTo (-e)) 971 (2 * hiddenBit - 1) := by
  have hpow : twoTo (p - e) * twoTo e ≤ twoTo (-e) * twoTo 971 := by
    simp only [twoTo_eq, ← Nat.pow_add]
    exact Nat.pow_le_pow_right (by decide) (by omega)
  have hpos : 0 < twoTo e := Nat.two_pow_pos _
  have hone : twoTo (-971) = 1 := rfl
  unfold Below
  rw [hone, Nat.mul_one]
  calc r * twoTo e < n * twoTo (p - e) * twoTo e := Nat.mul_lt_mul_of_pos_right hr hpos
    _ = n * (twoTo (p - e) * twoTo e) := by ring
    _ ≤ (2 * hiddenBit - 1) * (twoTo (-e) * twoTo 971) := Nat.mul_le_mul (by omega) hpow
    _ = twoTo (-e) * twoTo 971 * (2 * hiddenBit - 1) := by ring

end

theorem remainder?_eq_none {x y : Float} (hy : isZero y = false) :
    remainder? x y = none ↔ (∃ s, shape x = .infinite s) ∧ shape y ≠ .nan := by
  unfold remainder?
  cases hsx : shape x with
  | nan => simp
  | infinite s => cases hsy : shape y <;> simp
  | finite s m q =>
    cases hsy : shape y with
    | nan => simp
    | infinite s' => simp
    | finite s' n p =>
      have hn : n ≠ 0 := by
        rintro rfl
        rw [isZero, hsy] at hy
        cases hy
      obtain ⟨hlt, hp⟩ := shape_bounds hsy
      have hmod : m * twoTo (q - min q p) % (n * twoTo (p - min q p)) < n * twoTo (p - min q p) :=
        Nat.mod_lt _ (Nat.mul_pos (Nat.pos_of_ne_zero hn) (Nat.two_pow_pos _))
      have hbelow := below_of_lt hmod hlt hp (Int.min_le_right q p)
      have hden : twoTo (-min q p) ≠ 0 := Nat.ne_of_gt (Nat.two_pow_pos _)
      simp only [hn, if_false]
      by_cases hzero : m * twoTo (q - min q p) % (n * twoTo (p - min q p)) * twoTo (min q p) = 0
      · simp [ofRatio?, hzero]
      · rw [ofRatio?_eq _ hzero, if_pos (magnitude_lt hzero hden hbelow)]
        simp

/-! ## Doubles of whole numbers -/

theorem ofInt?_eq_some {n : Int} {x : Float} (h : ofInt? n = some x) :
    (∀ s, shape x ≠ .infinite s) ∧ (n ≠ 0 → isZero x = false) := by
  have hzero : 0 < infinityBits := Nat.mul_pos (by decide) (Nat.two_pow_pos 52)
  unfold ofInt? at h
  by_cases hn : n.natAbs = 0
  · rw [ofRatio?, if_pos hn] at h
    cases h
    exact ⟨shape_ofBits_ne_infinite _ hzero, fun hne => absurd (Int.natAbs_eq_zero.1 hn) hne⟩
  · rw [ofRatio?_eq _ hn] at h
    split at h
    · rename_i hm
      cases h
      exact ⟨shape_ofBits_ne_infinite _ hm, fun _ => isZero_ofBits _ hm (magnitude_ne_zero hn)⟩
    · cases h

end TemplateScript.Double

namespace TemplateScript.Number

/-- The dividend is an infinite double, and the divisor is a number other than zero that a double can
take the place of. -/
def InfiniteRemainder (a b : Number) : Prop :=
  ∃ x y s, a = .real x ∧ Double.shape x = .infinite s ∧ b.isZero = false ∧ b.toFloat? = some y ∧
    Double.shape y ≠ .nan

theorem asFloats_eq_ok {a b : Number} {p : Float × Float} :
    asFloats a b = .ok p ↔ a.toFloat? = some p.1 ∧ b.toFloat? = some p.2 := by
  obtain ⟨x, y⟩ := p
  unfold asFloats
  cases a.toFloat? <;> cases b.toFloat? <;> simp [orOverflow, bind, Except.bind, pure, Except.pure]

/-! What an operation does not fail with, from what its steps do not fail with. -/

section
variable {e : Failure} {α β : Type}

theorem orOverflow_ne (he : e ≠ .overflow) (x? : Option α) : orOverflow x? ≠ .error e := by
  cases x? <;> simp [orOverflow, he.symm]

theorem map_ne {r : Except Failure α} (hr : r ≠ .error e) (f : α → β) : r.map f ≠ .error e := by
  cases r with
  | ok p => simp [Except.map]
  | error e => simpa [Except.map] using hr

theorem bind_eq_error {r : Except Failure α} {k : α → Except Failure β} (hr : r ≠ .error e) :
    (r >>= k) = .error e ↔ ∃ a, r = .ok a ∧ k a = .error e := by
  cases r with
  | ok a => simp [bind, Except.bind]
  | error e => simpa [bind, Except.bind] using hr

theorem asFloats_ne (he : e ≠ .overflow) (a b : Number) : asFloats a b ≠ .error e := by
  unfold asFloats
  cases a.toFloat? <;> cases b.toFloat? <;>
    simp [orOverflow, bind, Except.bind, pure, Except.pure, he.symm]

theorem map_asFloats_ne (he : e ≠ .overflow) (a b : Number) (f : Float × Float → Number) :
    (asFloats a b).map f ≠ .error e := map_ne (asFloats_ne he a b) f

theorem div_ne (he : e ≠ .overflow) (hz : e ≠ .zeroDivisor) (a b : Number) :
    a.div b ≠ .error e := by
  unfold div
  split
  · simpa using hz.symm
  · split
    · split
      · simp
      · exact map_ne (orOverflow_ne he _) _
    · exact map_asFloats_ne he _ _ _

/-- Whole numbers have sums, differences and products; other pairs meet as doubles. -/
theorem meet_ne (he : e ≠ .overflow) (g : Int → Int → Int) (h : Float × Float → Number)
    (a b : Number) :
    (match a, b with
      | int m, int n => Except.ok (int (g m n))
      | a, b => (asFloats a b).map h) ≠ .error e := by
  split
  · simp
  · exact map_asFloats_ne he _ _ _

theorem add_ne (he : e ≠ .overflow) (a b : Number) : a.add b ≠ .error e :=
  meet_ne he (· + ·) (fun p => real (p.1 + p.2)) a b

theorem sub_ne (he : e ≠ .overflow) (a b : Number) : a.sub b ≠ .error e :=
  meet_ne he (· - ·) (fun p => real (p.1 - p.2)) a b

theorem mul_ne (he : e ≠ .overflow) (a b : Number) : a.mul b ≠ .error e :=
  meet_ne he (· * ·) (fun p => real (p.1 * p.2)) a b

end

theorem isZero_toFloat {b : Number} {y : Float} (hb : b.isZero = false) (hy : b.toFloat? = some y) :
    Double.isZero y = false := by
  cases b with
  | int n =>
    have hn : n ≠ 0 := by simpa [isZero] using hb
    exact (Double.ofInt?_eq_some hy).2 hn
  | real x =>
    cases hy
    exact hb

theorem eq_real_of_infinite {a : Number} {x : Float} {s : Bool} (ha : a.toFloat? = some x)
    (hx : Double.shape x = .infinite s) : a = .real x := by
  cases a with
  | int n => exact absurd hx ((Double.ofInt?_eq_some ha).1 s)
  | real x' =>
    cases ha
    rfl

theorem mod_zero {a b : Number} (hb : b.isZero = true) : a.mod b = .error .zeroDivisor := by
  unfold mod
  rw [if_pos hb]

/-- Two whole numbers have a remainder; every other pair meets as doubles. -/
theorem mod_eq_domain_floats {a b : Number} (hb : b.isZero = false) :
    a.mod b = .error .domain ↔
      (∀ m n, ¬ (a = .int m ∧ b = .int n)) ∧
        ∃ p, asFloats a b = .ok p ∧ Double.remainder? p.1 p.2 = none := by
  unfold mod
  rw [if_neg (by simp [hb])]
  cases a with
  | int m =>
    cases b with
    | int n => simp
    | real y =>
      rw [and_iff_right (by simp)]
      refine (bind_eq_error (asFloats_ne (by decide) _ _)).trans (exists_congr fun p => ?_)
      cases Double.remainder? p.1 p.2 <;> simp
  | real x =>
    rw [and_iff_right (by simp)]
    refine (bind_eq_error (asFloats_ne (by decide) _ _)).trans (exists_congr fun p => ?_)
    cases Double.remainder? p.1 p.2 <;> simp

theorem mod_eq_domain {a b : Number} : a.mod b = .error .domain ↔ a.InfiniteRemainder b := by
  by_cases hb : b.isZero = true
  · rw [mod_zero hb]
    constructor
    · intro h
      cases h
    · rintro ⟨_, _, _, _, _, hb', _⟩
      rw [hb] at hb'
      cases hb'
  · have hb' : b.isZero = false := by simpa using hb
    rw [mod_eq_domain_floats hb']
    constructor
    · rintro ⟨_, ⟨x, y⟩, hp, hnone⟩
      obtain ⟨hx, hy⟩ := asFloats_eq_ok.1 hp
      obtain ⟨⟨s, hs⟩, hnan⟩ := (Double.remainder?_eq_none (isZero_toFloat hb' hy)).1 hnone
      exact ⟨x, y, s, eq_real_of_infinite hx hs, hs, hb', hy, hnan⟩
    · rintro ⟨x, y, s, rfl, hs, _, hy, hnan⟩
      refine ⟨by simp, (x, y), asFloats_eq_ok.2 ⟨rfl, hy⟩, ?_⟩
      exact (Double.remainder?_eq_none (isZero_toFloat hb' hy)).2 ⟨⟨s, hs⟩, hnan⟩

/-- Of all operations only a remainder can fail on its operands' range. -/
theorem apply_eq_domain {operator : String} {a b : Number} :
    apply operator a b = .error .domain ↔ operator = "%" ∧ a.InfiniteRemainder b := by
  rw [← mod_eq_domain]
  unfold apply
  split
  · simp [add_ne]
  · simp [sub_ne]
  · simp [mul_ne]
  · simp [div_ne]
  · simp
  · rename_i hne
    constructor
    · intro h
      cases h
    · rintro ⟨rfl, _⟩
      exact absurd rfl hne

end TemplateScript.Number
