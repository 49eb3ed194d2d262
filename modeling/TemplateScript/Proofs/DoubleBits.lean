import TemplateScript.Number.Double

/-!
# The bits of a double

A word whose exponent places are not all set is the word of the double it makes, and the shape of
that double can be read off the word.
-/

namespace TemplateScript

theorem twoTo_pos (e : Int) : 0 < twoTo e := Nat.two_pow_pos _

theorem twoTo_mono {e e' : Int} (h : e ≤ e') : twoTo e ≤ twoTo e' :=
  Nat.pow_le_pow_right (by decide) (by omega)

end TemplateScript

namespace TemplateScript.Double

open Float.Model UnpackedFloat

section
variable (b : BitVec 64)

def signOf : BitVec 1 := @unpackSign Format.binary64 b

def exponentOf : BitVec 11 := @unpackExponent Format.binary64 b

def mantissaOf : BitVec 52 := @unpackMantissa Format.binary64 b

theorem packComponents_parts :
    packComponents Format.binary64 (Sign.ofBitVec (signOf b)) (exponentOf b) (mantissaOf b) = b := by
  have hs : ∀ s : BitVec 1, Sign.toBitVec (Sign.ofBitVec s) = s := by decide
  have hb := b.isLt
  unfold packComponents
  rw [hs]
  unfold signOf exponentOf mantissaOf unpackSign unpackExponent unpackMantissa
  apply BitVec.eq_of_toNat_eq
  rw [BitVec.toNat_append, BitVec.toNat_append]
  simp only [BitVec.toNat_cast, BitVec.extractLsb_toNat]
  rw [← Nat.shiftLeft_add_eq_or_of_lt (by omega), ← Nat.shiftLeft_add_eq_or_of_lt (by omega)]
  simp only [Nat.shiftLeft_eq, Nat.shiftRight_eq_div_pow]
  omega

theorem exponentOf_toNat : (exponentOf b).toNat = b.toNat / hiddenBit % 2048 := by
  unfold exponentOf unpackExponent
  simp only [BitVec.toNat_cast, BitVec.extractLsb_toNat, Nat.shiftRight_eq_div_pow]
  rfl

variable {b}

theorem pack_denormal (he : exponentOf b = 0) (hpos : 0 < (mantissaOf b).toNat) :
    UnpackedFloat.pack Format.binary64 (.finite (Sign.ofBitVec (signOf b)) (mantissaOf b).toNat
      (((0#11).toNat : Int) - (Format.binary64.exponentBias + (52 : Nat)) + 1) hpos) = b := by
  have hlt : (mantissaOf b).toNat < 2 ^ 52 := (mantissaOf b).isLt
  have hlog : (mantissaOf b).toNat.log2 < 52 := by
    rw [Nat.log2_lt (by omega)]
    exact hlt
  have hb := packComponents_parts b
  rw [he] at hb
  have hbits : Format.binary64.mantissaBits = 53 := rfl
  have hnorm : ¬ (mantissaOf b).toNat.log2 + 1 = Format.binary64.mantissaBits := by omega
  unfold UnpackedFloat.pack
  dsimp only
  rw [if_neg (by decide), if_neg hnorm, BitVec.ofNat_toNat, BitVec.setWidth_eq]
  exact hb

theorem pack_normal (he : (exponentOf b).toNat < 2047)
    (hpos : 0 < (1#1 ++ mantissaOf b).toNat) :
    UnpackedFloat.pack Format.binary64 (.finite (Sign.ofBitVec (signOf b))
      (1#1 ++ mantissaOf b).toNat
      (((exponentOf b).toNat : Int) - (Format.binary64.exponentBias + (52 : Nat))) hpos) = b := by
  have hlt : (mantissaOf b).toNat < 2 ^ 52 := (mantissaOf b).isLt
  have hbias : (((exponentOf b).toNat : Int) - (Format.binary64.exponentBias + (52 : Nat))
      + Format.binary64.exponentBias + (52 : Nat)).toNat = (exponentOf b).toNat := by omega
  have hmant : (1#1 ++ mantissaOf b).toNat = 2 ^ 52 + (mantissaOf b).toNat := by
    rw [BitVec.toNat_append, ← Nat.shiftLeft_add_eq_or_of_lt hlt, Nat.shiftLeft_eq]
    simp
  have hlog : (2 ^ 52 + (mantissaOf b).toNat).log2 = 52 := by
    rw [Nat.log2_eq_iff (by omega)]
    omega
  have hlow : BitVec.ofNat 52 (2 ^ 52 + (mantissaOf b).toNat) = mantissaOf b := by
    apply BitVec.eq_of_toNat_eq
    rw [BitVec.toNat_ofNat]
    omega
  have hb := packComponents_parts b
  unfold UnpackedFloat.pack
  dsimp only
  rw [hbias, hmant, hlog, if_neg (by omega), if_pos (by decide), hlow, BitVec.ofNat_toNat,
    BitVec.setWidth_eq]
  exact hb

theorem pack_unpack (he : (exponentOf b).toNat ≠ 2047) :
    UnpackedFloat.pack Format.binary64 (UnpackedFloat.unpack Format.binary64 b) = b := by
  have hlt : (exponentOf b).toNat < 2048 := (exponentOf b).isLt
  have hall : ¬ exponentOf b = -1#11 := by
    intro h
    rw [h] at he
    exact he (by decide)
  unfold UnpackedFloat.unpack
  change UnpackedFloat.pack Format.binary64 (if exponentOf b = -1#11 then _ else _) = b
  rw [if_neg hall]
  by_cases hzero : exponentOf b = 0#11
  · change UnpackedFloat.pack Format.binary64 (if exponentOf b = 0#11 then _ else _) = b
    rw [if_pos hzero]
    by_cases hm : mantissaOf b = 0#52
    · have hb := packComponents_parts b
      rw [hzero, hm] at hb
      change UnpackedFloat.pack Format.binary64 (if _ : mantissaOf b = 0#52 then _ else _) = b
      rw [dif_pos hm]
      exact hb
    · change UnpackedFloat.pack Format.binary64 (if _ : mantissaOf b = 0#52 then _ else _) = b
      rw [dif_neg hm]
      have hpos : 0 < (mantissaOf b).toNat := by
        refine Nat.pos_of_ne_zero fun h => hm ?_
        exact BitVec.eq_of_toNat_eq h
      have hden := pack_denormal hzero hpos
      rw [← hzero] at hden
      exact hden
  · change UnpackedFloat.pack Format.binary64 (if exponentOf b = 0#11 then _ else _) = b
    rw [if_neg hzero]
    exact pack_normal (by omega) _

end

theorem toBits_ofBits (u : UInt64) (h : u.toNat / hiddenBit % 2048 ≠ 2047) :
    (Float.ofBits u).toBits = u := by
  unfold Float.ofBits Float.toBits Float.Model.ofBits Float.Model.pack
  dsimp only
  rw [pack_unpack (by rwa [exponentOf_toNat])]

/-! ## Shapes -/

theorem signed_parts (negative : Bool) {m : Nat} (h : m < infinityBits) :
    let w := (if negative then signBit else 0) + m
    w < UInt64.size ∧ decide (signBit ≤ w) = negative ∧ w / hiddenBit % 2048 = m / hiddenBit ∧
      w % hiddenBit = m % hiddenBit ∧ m / hiddenBit ≠ 2047 := by
  have hsign : signBit = 2048 * hiddenBit := rfl
  have hsize : UInt64.size = 4096 * hiddenBit := rfl
  have hhidden : hiddenBit = 2 ^ 52 := rfl
  have hsmall : m < 2047 * hiddenBit := h
  rw [hsign, hsize, hhidden]
  rw [hhidden] at hsmall
  cases negative with
  | false =>
    simp
    omega
  | true =>
    simp
    omega

theorem shape_ofBits (negative : Bool) {magnitude : Nat} (h : magnitude < infinityBits) :
    shape (ofBits negative magnitude) =
      if magnitude / hiddenBit = 0 then .finite negative (magnitude % hiddenBit) (-1074)
      else .finite negative (hiddenBit + magnitude % hiddenBit)
        (((magnitude / hiddenBit : Nat) : Int) - 1075) := by
  obtain ⟨hsize, hneg, hbiased, hfraction, hne⟩ := signed_parts negative h
  have hword : (((if negative then signBit else 0) + magnitude).toUInt64).toNat
      = (if negative then signBit else 0) + magnitude := by
    rw [UInt64.toNat_ofNat']
    exact Nat.mod_eq_of_lt hsize
  have hbits : ((ofBits negative magnitude).toBits).toNat
      = (if negative then signBit else 0) + magnitude := by
    unfold ofBits
    rw [toBits_ofBits _ ?_, hword]
    rw [hword, hbiased]
    exact hne
  unfold shape
  simp only [hbits, hneg, hbiased, hfraction, hne, if_false]

theorem shape_ofBits_ne_infinite (negative : Bool) {magnitude : Nat} (h : magnitude < infinityBits)
    (s : Bool) : shape (ofBits negative magnitude) ≠ .infinite s := by
  rw [shape_ofBits negative h]
  split <;> simp

theorem isZero_of_shape {x : Float} {negative : Bool} {m : Nat} {q : Int}
    (h : shape x = .finite negative m q) (hm : m ≠ 0) : isZero x = false := by
  obtain ⟨k, rfl⟩ := Nat.exists_eq_succ_of_ne_zero hm
  unfold isZero
  rw [h]
  rfl

theorem isZero_ofBits (negative : Bool) {magnitude : Nat} (h : magnitude < infinityBits)
    (hpos : magnitude ≠ 0) : isZero (ofBits negative magnitude) = false := by
  have hhidden : hiddenBit = 2 ^ 52 := rfl
  have hshape := shape_ofBits negative h
  by_cases hb : magnitude / hiddenBit = 0
  · rw [if_pos hb] at hshape
    rw [hhidden] at hb
    exact isZero_of_shape hshape (by rw [hhidden]; omega)
  · rw [if_neg hb] at hshape
    exact isZero_of_shape hshape (by rw [hhidden]; omega)

/-- A finite double has 53 places at most, and its last place is at most that of the largest. -/
theorem shape_bounds {x : Float} {negative : Bool} {m : Nat} {q : Int}
    (h : shape x = .finite negative m q) : m < 2 * hiddenBit ∧ q ≤ 971 := by
  have hhidden : hiddenBit = 2 ^ 52 := rfl
  unfold shape at h
  simp only at h
  split at h
  · split at h <;> cases h
  · split at h
    · cases h
      rw [hhidden]
      omega
    · rename_i hb _
      cases h
      rw [hhidden] at hb ⊢
      omega

theorem ofBits_toBits {x : Float} (h : x.toBits.toNat / hiddenBit % 2048 ≠ 2047) :
    Float.ofBits x.toBits = x := by
  have hbits := toBits_ofBits x.toBits h
  generalize Float.ofBits x.toBits = y at hbits
  obtain ⟨⟨b, hb⟩⟩ := x
  obtain ⟨⟨c, hc⟩⟩ := y
  cases hbits
  rfl

theorem ofBits_of_toNat {x : Float} (h : x.toBits.toNat / hiddenBit % 2048 ≠ 2047)
    {negative : Bool} {magnitude : Nat}
    (hw : (if negative then signBit else 0) + magnitude = x.toBits.toNat) :
    ofBits negative magnitude = x := by
  rw [ofBits, hw, Nat.toUInt64_eq, UInt64.ofNat_toNat, ofBits_toBits h]

theorem word_parts {w : Nat} (h : w < 4096 * hiddenBit) :
    (if decide (signBit ≤ w) then signBit else 0) +
      (w / hiddenBit % 2048 * hiddenBit + w % hiddenBit) = w := by
  have hhidden : hiddenBit = 2 ^ 52 := rfl
  have hsign : signBit = 2048 * 2 ^ 52 := rfl
  simp only [decide_eq_true_eq]
  rw [hhidden] at h
  rw [hhidden, hsign]
  split <;> omega

/-- A finite double is made of its sign, its mantissa and its last place. -/
theorem ofBits_of_shape {x : Float} {negative : Bool} {m : Nat} {q : Int}
    (h : shape x = .finite negative m q) : -1074 ≤ q ∧ (q = -1074 ∨ hiddenBit ≤ m) ∧
      (q + 1074).toNat * hiddenBit + m < infinityBits ∧
      ofBits negative ((q + 1074).toNat * hiddenBit + m) = x := by
  have hhidden : hiddenBit = 2 ^ 52 := rfl
  have hinf : infinityBits = 2047 * 2 ^ 52 := rfl
  have hparts := word_parts (show x.toBits.toNat < 4096 * hiddenBit from x.toBits.toNat_lt)
  have hfraction := Nat.mod_lt x.toBits.toNat (show 0 < hiddenBit by decide)
  unfold shape at h
  simp only at h
  split at h
  · split at h <;> cases h
  · rename_i hfinite
    split at h
    · rename_i hzero
      cases h
      rw [hzero, Nat.zero_mul] at hparts
      rw [show (-1074 + 1074 : Int).toNat * hiddenBit = 0 by decide]
      refine ⟨by omega, Or.inl rfl, ?_, ofBits_of_toNat hfinite hparts⟩
      rw [hinf]
      omega
    · cases h
      have hback := ofBits_of_toNat hfinite hparts
      have hbiased : x.toBits.toNat / hiddenBit % 2048 < 2048 := Nat.mod_lt _ (by decide)
      generalize x.toBits.toNat / hiddenBit % 2048 = biased at *
      generalize x.toBits.toNat % hiddenBit = fraction at *
      have hplace : (((biased : Nat) : Int) - 1075 + 1074).toNat * hiddenBit
          + (hiddenBit + fraction) = biased * hiddenBit + fraction := by
        rw [hhidden]
        omega
      rw [hplace]
      refine ⟨by omega, Or.inr (by omega), ?_, hback⟩
      rw [hinf, hhidden]
      omega

end TemplateScript.Double
