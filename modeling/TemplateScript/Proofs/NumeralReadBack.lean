import TemplateScript.Number.Numeral

/-!
# Numerals are read back

The decimal numeral of a natural number is read as that number, if it has no more digits than a
numeral may have.
-/

namespace TemplateScript.Numeral

theorem digit_bounds {c : Char} (h : c.isDigit = true) : 48 ≤ c.toNat ∧ c.toNat ≤ 57 := by
  simpa [Char.isDigit, UInt32.le_iff_toNat_le] using h

theorem digitValue?_of_isDigit {c : Char} (h : c.isDigit = true) :
    Text.digitValue? c = some (c.toNat - 48) := by
  have hc := digit_bounds h
  have hfind : (Text.digitZeros.find? fun z => z ≤ c.toNat && c.toNat < z + 10) = some 48 := by
    unfold Text.digitZeros
    rw [List.find?_cons_of_pos (by simp only [Bool.and_eq_true, decide_eq_true_eq]; omega)]
  unfold Text.digitValue?
  rw [hfind]
  rfl

theorem isPadding_of_isDigit {c : Char} (h : c.isDigit = true) : isPadding c = false := by
  have hc := digit_bounds h
  have hblank : Text.isBlank c = false := by
    simp only [Text.isBlank, Text.CharRanges.contains, Text.blankRanges, List.any_eq_false,
      List.mem_cons, List.not_mem_nil, or_false, Bool.and_eq_true, decide_eq_true_eq, not_and]
    rintro r (rfl | rfl | rfl | rfl | rfl | rfl | rfl | rfl | rfl | rfl) <;> omega
  simp [isPadding, hblank]

theorem digits?_of_isDigit : ∀ {cs : List Char}, cs ≠ [] → (∀ c ∈ cs, c.isDigit = true) →
    digits? cs = some (cs.map fun c => c.toNat - 48)
  | [], h, _ => absurd rfl h
  | [c], _, h => by simp [digits?, digitValue?_of_isDigit (h c (by simp))]
  | c :: d :: r, _, h => by
    have hc := digitValue?_of_isDigit (h c (by simp))
    have hds : ∀ e ∈ d :: r, e.isDigit = true := fun e he => h e (List.mem_cons_of_mem c he)
    have hr := digits?_of_isDigit (by simp) hds
    have hd : d ≠ '_' := by
      rintro rfl
      exact absurd (h '_' (by simp)) (by decide)
    rw [digits?.eq_4 c (d :: r) (by simp) (by simpa using hd), hc, hr]
    rfl

theorem trim_of_isDigit {cs : List Char} (h : ∀ c ∈ cs, c.isDigit = true) : trim cs = cs := by
  have hfront : ∀ {ds : List Char}, (∀ c ∈ ds, c.isDigit = true) → ds.dropWhile isPadding = ds := by
    intro ds hds
    cases ds with
    | nil => rfl
    | cons c ds => simp [isPadding_of_isDigit (hds c (by simp))]
  unfold trim
  rw [hfront h, hfront (by simpa using h), List.reverse_reverse]

theorem value_digits (cs : List Char) :
    value (cs.map fun c => c.toNat - 48) = Nat.ofDigitChars 10 cs 0 := by
  unfold value Nat.ofDigitChars
  rw [List.foldl_map]
  rfl

/-- Digits are read as the number they spell, leading zeros included. -/
theorem read?_of_isDigit {cs : List Char} (hne : cs ≠ []) (hd : ∀ c ∈ cs, c.isDigit = true)
    (hlen : cs.length ≤ digitLimit) :
    read? (String.ofList cs) = some (Nat.ofDigitChars 10 cs 0 : Int) := by
  have hm : magnitude? cs = some (Nat.ofDigitChars 10 cs 0) := by
    unfold magnitude?
    rw [digits?_of_isDigit hne hd, Option.bind_some, List.length_map, if_pos hlen, value_digits]
  unfold read?
  rw [String.toList_ofList, trim_of_isDigit hd]
  split
  · exact absurd (hd '-' (by simp)) (by decide)
  · exact absurd (hd '+' (by simp)) (by decide)
  · rw [hm]
    rfl

theorem read?_toString (n : Nat) (h : (toString n).length ≤ digitLimit) :
    read? (toString n) = some (n : Int) := by
  have hl : (toString n).toList = Nat.toDigits 10 n := Nat.toList_repr
  have hd : ∀ c ∈ Nat.toDigits 10 n, c.isDigit = true :=
    fun c hc => Nat.isDigit_of_mem_toDigits (by decide) (by decide) hc
  have hlen : (Nat.toDigits 10 n).length ≤ digitLimit := by
    rw [← hl]
    exact h
  have hread := read?_of_isDigit Nat.toDigits_ne_nil hd hlen
  rw [← hl, String.ofList_toList, hl, Nat.ofDigitChars_ten_toDigits] at hread
  exact hread

def IsLiteral (n : Int) : Prop := 0 ≤ n ∧ (toString n).length ≤ digitLimit

instance (n : Int) : Decidable (IsLiteral n) := inferInstanceAs (Decidable (_ ∧ _))

theorem IsLiteral.read? {n : Int} (h : IsLiteral n) : Numeral.read? (toString n) = some n := by
  obtain ⟨k, rfl⟩ := Int.eq_ofNat_of_zero_le h.1
  exact read?_toString k h.2

theorem IsLiteral.write? {n : Int} (h : IsLiteral n) : Numeral.write? n = some (toString n) := by
  obtain ⟨k, rfl⟩ := Int.eq_ofNat_of_zero_le h.1
  have hl : (toString k).toList = Nat.toDigits 10 k := Nat.toList_repr
  have hlen : (Nat.toDigits 10 k).length ≤ digitLimit := by
    rw [← hl]
    exact h.2
  have hlt : k < 10 ^ digitLimit := (Nat.length_toDigits_le_iff (by decide) (by decide)).1 hlen
  rw [Numeral.write?, Int.natAbs_natCast, tenTo, Int.toNat_natCast, Nat.pow_eq, if_pos hlt]

end TemplateScript.Numeral
