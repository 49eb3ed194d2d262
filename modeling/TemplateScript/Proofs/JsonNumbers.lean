import TemplateScript.Proofs.DigitLimit
import TemplateScript.Proofs.JsonGrammar
import TemplateScript.Proofs.ShortestDecimal

/-!
# Numbers in documents

A whole number and a finite double are written as numbers of JSON, and what is written means them. The
other doubles are written by names, which no text of JSON holds outside of its strings.
-/

namespace TemplateScript.Json

/-! ## Digits -/

theorem digits_toDigits (n : Nat) : Digits (Nat.toDigits 10 n) where
  nonempty := Nat.toDigits_ne_nil
  digits := fun _ hc => Nat.isDigit_of_mem_toDigits (by decide) (by decide) hc

theorem value_toDigits (n : Nat) : value (Nat.toDigits 10 n) = n := Nat.ofDigitChars_ten_toDigits

theorem value_append (ds es : List Char) :
    value (ds ++ es) = value ds * 10 ^ es.length + value es := by
  unfold value
  rw [Nat.ofDigitChars_append, Nat.ofDigitChars_eq_ofDigitChars_zero, Nat.mul_comm]

theorem value_zeros (n : Int) : value (Double.zeros n) = 0 := by
  unfold Double.zeros
  induction n.toNat with
  | zero => rfl
  | succ k ih => exact ih

theorem head_toDigits {n : Nat} (hn : n ≠ 0) : (Nat.toDigits 10 n).head? ≠ some '0' := by
  induction n using Nat.strongRecOn with
  | ind n ih =>
    by_cases hlt : n < 10
    · rw [Nat.toDigits_of_lt_base hlt]
      simp only [List.head?_cons, ne_eq, Option.some.injEq]
      exact fun h => hn (by simpa using h)
    · have hrest := ih (n / 10) (by omega) (by omega)
      obtain ⟨c, cs, hcs⟩ := List.exists_cons_of_ne_nil (Nat.toDigits_ne_nil (b := 10) (n := n / 10))
      rw [Nat.toDigits_of_base_le (by decide) (by omega), hcs]
      rw [hcs] at hrest
      exact hrest

theorem whole_toDigits (n : Nat) : Whole (Nat.toDigits 10 n) where
  toDigits := digits_toDigits n
  leading h := by
    by_cases hn : n = 0
    · subst hn
      rfl
    · exact absurd h (head_toDigits hn)

theorem isDigit_zeros (n : Int) : ∀ c ∈ Double.zeros n, c.isDigit = true := by
  intro c hc
  rw [(List.mem_replicate.1 hc).2]
  rfl

/-! ## Decimals -/

section
variable {ds : List Char} {p : Nat}

theorem Whole.take (h : Whole ds) (hp : 0 < p) : Whole (ds.take p) where
  nonempty := by
    obtain ⟨k, rfl⟩ := Nat.exists_eq_succ_of_ne_zero hp.ne'
    obtain ⟨c, cs, rfl⟩ := List.exists_cons_of_ne_nil h.nonempty
    simp
  digits := fun c hc => h.digits c (List.mem_of_mem_take hc)
  leading hzero := by
    rw [List.head?_take, if_neg hp.ne'] at hzero
    rw [h.leading hzero]
    exact List.take_of_length_le hp

theorem Digits.drop (h : Digits ds) (hp : p < ds.length) : Digits (ds.drop p) where
  nonempty := by simpa using hp
  digits := fun c hc => h.digits c (List.mem_of_mem_drop hc)

theorem fraction_drop (h : Digits ds) :
    Fraction (if ds.length = 1 then [] else '.' :: ds.drop 1) (ds.drop 1) := by
  have hlen : 0 < ds.length := List.length_pos_iff.2 h.nonempty
  split
  · rw [List.drop_of_length_le (by omega)]
    exact .none
  · exact .digits (h.drop (by omega))

theorem exponent_padded (e : Int) :
    Exponent ('e' :: (if e < 0 then '-' else '+') ::
      (Double.zeros (2 - (Nat.toDigits 10 e.natAbs).length) ++ Nat.toDigits 10 e.natAbs)) e := by
  have hes := digits_toDigits e.natAbs
  have hpadded : ∀ n : Int, Digits (Double.zeros n ++ Nat.toDigits 10 e.natAbs) := fun n =>
    ⟨by simp [hes.nonempty], List.forall_mem_append.2 ⟨isDigit_zeros n, hes.digits⟩⟩
  have hvalue : ∀ n : Int, value (Double.zeros n ++ Nat.toDigits 10 e.natAbs) = e.natAbs := by
    intro n
    rw [value_append, value_zeros, Nat.zero_mul, Nat.zero_add, value_toDigits]
  generalize (2 - (Nat.toDigits 10 e.natAbs).length : Int) = n
  by_cases he : e < 0
  · have h := Exponent.minus (e := 'e') (Or.inl rfl) (hpadded n)
    rw [hvalue, show -(e.natAbs : Int) = e by omega] at h
    rw [if_pos he]
    exact h
  · have h := Exponent.plus (e := 'e') (Or.inl rfl) (hpadded n)
    rw [hvalue, show (e.natAbs : Int) = e by omega] at h
    rw [if_neg he]
    exact h

theorem Digits.zeros_append (h : Digits ds) (n : Int) : Digits (Double.zeros n ++ ds) where
  nonempty := by simp [h.nonempty]
  digits := List.forall_mem_append.2 ⟨isDigit_zeros n, h.digits⟩

theorem Whole.append_zeros (h : Whole ds) (hzero : ds.head? ≠ some '0') (n : Int) :
    Whole (ds ++ Double.zeros n) where
  nonempty := by simp [h.nonempty]
  digits := List.forall_mem_append.2 ⟨h.digits, isDigit_zeros n⟩
  leading hhead := by
    obtain ⟨c, cs, rfl⟩ := List.exists_cons_of_ne_nil h.nonempty
    exact absurd hhead hzero

theorem length_zeros (n : Int) : (Double.zeros n).length = n.toNat := List.length_replicate

theorem IsNumber.point (negative : Bool) {fs : List Char} (hds : Whole ds) (hfs : Digits fs) :
    IsNumber (sign negative ++ (ds ++ '.' :: fs)) ⟨negative, value (ds ++ fs), -fs.length, false⟩ := by
  have h := IsNumber.parts negative hds (.digits hfs) .none
  rw [List.append_nil, Int.zero_sub] at h
  exact h

/-- The digits of a decimal may be written with zeros behind them. -/
theorem render_isNumber (negative : Bool) {x : Double.Decimal} (hx : x.digits ≠ 0) : ∃ k : Nat,
    IsNumber (sign negative ++ x.render) ⟨negative, x.digits * 10 ^ k, x.exponent - k, false⟩ := by
  have hds := whole_toDigits x.digits
  have hvalue := value_toDigits x.digits
  have hhead := head_toDigits hx
  unfold Double.Decimal.render
  generalize Nat.toDigits 10 x.digits = ds at *
  have hlen : 0 < ds.length := List.length_pos_iff.2 hds.nonempty
  dsimp only
  by_cases hfar : (ds.length : Int) + x.exponent ≤ -4 ∨ 16 < (ds.length : Int) + x.exponent
  · have h := IsNumber.parts negative (hds.take Nat.one_pos) (fraction_drop hds.toDigits)
      (exponent_padded (ds.length + x.exponent - 1))
    rw [if_pos hfar, List.append_assoc]
    refine ⟨0, ?_⟩
    convert h using 2
    · rw [List.take_append_drop, hvalue, Nat.pow_zero, Nat.mul_one]
    · rw [List.length_drop]
      omega
    · simp
  rw [if_neg hfar]
  by_cases hsmall : (ds.length : Int) + x.exponent ≤ 0
  · have h := IsNumber.point negative (whole_toDigits 0)
      (hds.toDigits.zeros_append (-(ds.length + x.exponent)))
    rw [if_pos hsmall]
    refine ⟨0, ?_⟩
    convert h using 2
    · rfl
    · rw [value_append, value_append, value_zeros, value_toDigits, hvalue]
      simp
    · rw [List.length_append, length_zeros]
      omega
  rw [if_neg hsmall]
  by_cases hinner : x.exponent < 0
  · have hcut : 0 < (ds.length + x.exponent).toNat ∧ (ds.length + x.exponent).toNat < ds.length := by
      omega
    have h := IsNumber.point negative (hds.take hcut.1) (hds.toDigits.drop hcut.2)
    rw [if_pos hinner]
    refine ⟨0, ?_⟩
    convert h using 2
    · rw [List.take_append_drop, hvalue, Nat.pow_zero, Nat.mul_one]
    · rw [List.length_drop]
      omega
  · have h := IsNumber.point negative (hds.append_zeros hhead x.exponent) (digits_toDigits 0)
    rw [if_neg hinner]
    refine ⟨x.exponent.toNat + 1, ?_⟩
    convert h using 2
    · simp
    · rw [value_append, value_append, value_zeros, length_zeros, hvalue, value_toDigits, Nat.pow_succ]
      simp [Nat.mul_assoc]
    · simp
      omega

end

/-! ## Numbers -/

theorem toList_toString (n : Int) :
    (toString n).toList = sign (decide (n < 0)) ++ Nat.toDigits 10 n.natAbs := by
  cases n with
  | ofNat k => exact Nat.toList_repr
  | negSucc k =>
    show ("-" ++ Nat.repr (k + 1)).toList = _
    have hneg : Int.negSucc k < 0 := Int.negSucc_lt_zero k
    rw [String.toList_append, Nat.toList_repr, decide_eq_true hneg]
    rfl

theorem toString_isNumber (n : Int) :
    IsNumber (toString n).toList ⟨decide (n < 0), n.natAbs, 0, true⟩ := by
  have h := IsNumber.parts (decide (n < 0)) (whole_toDigits n.natAbs) .none .none
  rw [List.append_nil, List.append_nil, value_toDigits, ← toList_toString] at h
  exact h

/-- Zeros behind the digits of a decimal do not change its value. -/
theorem shifted_value (n : Nat) (e : Int) (k : Nat) :
    n * 10 ^ k * tenTo (e - k) * tenTo (-e) = n * tenTo e * tenTo (-(e - k)) := by
  have hexp : k + (e - k).toNat + (-e).toNat = e.toNat + (-(e - k)).toNat := by omega
  simp only [tenTo, Nat.pow_eq, Nat.mul_assoc, ← Nat.pow_add]
  rw [hexp]

theorem render_spelled {x : Float} {negative : Bool} {m : Nat} {q : Int}
    (h : Double.shape x = .finite negative m q) :
    ∃ t, IsNumber (Double.render x).toList t ∧ t.Means (.real x) := by
  have hsign : ∀ cs : List Char, (if negative then '-' :: cs else cs) = sign negative ++ cs := by
    cases negative <;> intro cs <;> rfl
  simp only [Double.render, h, hsign, String.toList_ofList]
  by_cases hm : m = 0
  · subst hm
    refine ⟨_, IsNumber.point negative (whole_toDigits 0) (digits_toDigits 0), rfl, ?_⟩
    exact Double.ofRatio?_zero h _
  · rw [if_neg hm]
    obtain ⟨hdigits, hround⟩ := Double.ofRatio?_shortest h hm
    obtain ⟨k, hnumber⟩ := render_isNumber negative hdigits
    exact ⟨_, hnumber, rfl, hround (Double.tenTo_pos _).ne' (shifted_value _ _ k)⟩

end TemplateScript.Json

namespace TemplateScript

def Number.IsFinite : Number → Prop
  | int _ => True
  | real x => ∃ negative m q, Double.shape x = .finite negative m q

namespace JsonValue

open Json

variable {n : Number} {s : String}

theorem spelled_of_numberText (hn : n.IsFinite) (h : numberText n = .ok s) :
    ∃ t, IsNumber s.toList t ∧ t.Means n := by
  cases n with
  | int n =>
    have hs : s = toString n := by
      rw [numberText, Numeral.write?_eq] at h
      split at h
      · exact (Except.ok.inj h).symm
      · cases h
    subst hs
    refine ⟨_, toString_isNumber n, rfl, ?_⟩
    simp only [decide_eq_true_eq]
    split <;> omega
  | real x =>
    obtain ⟨negative, m, q, hx⟩ := hn
    simp only [numberText, hx] at h
    cases h
    exact render_spelled hx

theorem along?_numberText (hn : ¬ n.IsFinite) (h : numberText n = .ok s) :
    Place.outside.along? s.toList = none := by
  cases n with
  | int n => exact absurd trivial hn
  | real x =>
    cases hx : Double.shape x with
    | nan =>
      simp only [numberText, hx] at h
      cases h
      decide
    | infinite negative =>
      simp only [numberText, hx] at h
      cases h
      cases negative <;> decide
    | finite negative m q => exact absurd ⟨negative, m, q, hx⟩ hn

end JsonValue

end TemplateScript
