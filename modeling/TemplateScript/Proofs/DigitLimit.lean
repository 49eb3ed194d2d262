import TemplateScript.Command
import TemplateScript.Proofs.DoubleBits

/-!
# The digit limit

Values are spelled and documents are written, unless a whole number in them has more digits than may
be written; nothing else keeps them from being text. A run at the command line reports its outcome
with the same exception.
-/

namespace TemplateScript

def Number.IsLong : Number → Prop
  | int n => Numeral.digitLimit < (Nat.toDigits 10 n.natAbs).length
  | real _ => False

theorem Numeral.write?_eq {n : Int} : write? n =
    if (Nat.toDigits 10 n.natAbs).length ≤ digitLimit then some (toString n) else none := by
  have hpos : 0 < digitLimit := by decide
  unfold write?
  generalize digitLimit = k at hpos
  have hlen : (Nat.toDigits 10 n.natAbs).length ≤ k ↔ n.natAbs < tenTo k :=
    Nat.length_toDigits_le_iff (by decide) hpos
  simp only [hlen]

/-- A whole number that is a double has few digits. -/
theorem Double.natAbs_lt_of_toInt? {x : Float} {n : Int} (h : toInt? x = some n) :
    n.natAbs < tenTo Numeral.digitLimit := by
  have hlimit : 2 * hiddenBit * twoTo 971 ≤ tenTo Numeral.digitLimit := by decide +kernel
  unfold toInt? at h
  cases hshape : shape x with
  | nan =>
    rw [hshape] at h
    cases h
  | infinite negative =>
    rw [hshape] at h
    cases h
  | finite negative m q =>
    obtain ⟨hm, hq⟩ := shape_bounds hshape
    simp only [hshape] at h
    by_cases hdiv : m % twoTo (-q) = 0
    · rw [if_pos hdiv] at h
      have habs : n.natAbs = m / twoTo (-q) * twoTo q := by
        rw [← Option.some.inj h]
        split
        · rw [Int.natAbs_neg, Int.natAbs_natCast]
        · rw [Int.natAbs_natCast]
      have hpow : twoTo q ≤ twoTo 971 := twoTo_mono hq
      calc n.natAbs = m / twoTo (-q) * twoTo q := habs
        _ ≤ m * twoTo 971 := Nat.mul_le_mul (Nat.div_le_self m _) hpow
        _ < 2 * hiddenBit * twoTo 971 := Nat.mul_lt_mul_of_pos_right hm (twoTo_pos 971)
        _ ≤ tenTo Numeral.digitLimit := hlimit
    · rw [if_neg hdiv] at h
      cases h

/-! ## Results -/

/-- A result is there unless one of some numbers is too long. -/
structure Limited {α : Type} (ns : List Number) (r : Except Breakdown α) : Prop where
  given : (∀ n ∈ ns, ¬ n.IsLong) → ∃ a, r = .ok a
  broken : (∃ n ∈ ns, n.IsLong) → r = .error .digitLimit

namespace Limited

variable {α β : Type} {ns ms : List Number} {r : Except Breakdown α}

theorem ok (a : α) : Limited [] (.ok a) := ⟨fun _ => ⟨a, rfl⟩, by simp⟩

theorem map (h : Limited ns r) (f : α → β) : Limited ns (r.map f) where
  given hns := by
    obtain ⟨a, rfl⟩ := h.given hns
    exact ⟨f a, rfl⟩
  broken hns := by
    rw [h.broken hns]
    rfl

theorem bind (h : Limited ns r) {k : α → Except Breakdown β} (hk : ∀ a, Limited ms (k a)) :
    Limited (ns ++ ms) (r >>= k) where
  given hall := by
    obtain ⟨a, rfl⟩ := h.given fun n hn => hall n (List.mem_append_left ms hn)
    exact (hk a).given fun n hn => hall n (List.mem_append_right ns hn)
  broken hlong := by
    by_cases hns : ∃ n ∈ ns, n.IsLong
    · rw [h.broken hns]
      rfl
    · obtain ⟨a, rfl⟩ := h.given (by simpa using hns)
      obtain ⟨n, hmem, hn⟩ := hlong
      refine (hk a).broken ⟨n, (List.mem_append.1 hmem).resolve_left ?_, hn⟩
      exact fun hmem => hns ⟨n, hmem, hn⟩

theorem write (n : Int) : Limited [.int n] (orDigitLimit (Numeral.write? n)) := by
  rw [Numeral.write?_eq]
  constructor
  · intro h
    have hn : ¬ (Number.int n).IsLong := h _ List.mem_cons_self
    rw [if_pos (Nat.not_lt.1 hn)]
    exact ⟨_, rfl⟩
  · rintro ⟨m, hm, hlong⟩
    obtain rfl := List.mem_singleton.1 hm
    rw [if_neg (Nat.not_le.2 hlong)]
    rfl

theorem real {a : α} (x : Float) (h : r = .ok a) : Limited [.real x] r :=
  ⟨fun _ => ⟨a, h⟩, by simp [Number.IsLong]⟩

end Limited

theorem Number.limited_spelling (n : Number) : Limited [n] (orDigitLimit n.spelling?) := by
  cases n with
  | int n => exact .write n
  | real x =>
    have hsome : ∃ s, (real x).spelling? = some s := by
      cases hn : Double.toInt? x with
      | none => exact ⟨_, by rw [spelling?, hn]⟩
      | some n =>
        have hwrite : Numeral.write? n = some (toString n) := by
          rw [Numeral.write?, if_pos (Double.natAbs_lt_of_toInt? hn)]
        exact ⟨toString n, by simp only [spelling?, hn, hwrite]⟩
    obtain ⟨s, hs⟩ := hsome
    exact .real x (by rw [hs]; rfl)

/-! ## Values and documents -/

namespace Value

mutual

def numbers : Value → List Number
  | null | bool _ => []
  | number n => [n]
  | object ps => numbersAll ps

def numbersAll : List (String × Value) → List Number
  | [] => []
  | (_, v) :: ps => numbers v ++ numbersAll ps

end

mutual

theorem limited_spell : ∀ v : Value, Limited v.numbers v.spell
  | null => .ok _
  | bool _ => .ok _
  | number n => n.limited_spelling
  | object ps => (limited_spellAll ps).map braced

theorem limited_spellAll :
    ∀ ps : List (String × Value), Limited (numbersAll ps) (spellAll ps)
  | [] => .ok _
  | (_, v) :: ps => (limited_spell v).bind fun _ => (limited_spellAll ps).map _

end

end Value

namespace JsonValue

mutual

def numbers : JsonValue → List Number
  | null | bool _ | string _ => []
  | number n => [n]
  | array items => numbersItems items
  | object fields => numbersFields fields

def numbersItems : List JsonValue → List Number
  | [] => []
  | v :: vs => numbers v ++ numbersItems vs

def numbersFields : List (String × JsonValue) → List Number
  | [] => []
  | (_, v) :: vs => numbers v ++ numbersFields vs

end

theorem limited_numberText (n : Number) : Limited [n] (numberText n) := by
  cases n with
  | int n => exact .write n
  | real x => exact .real x rfl

mutual

theorem limited_indented (depth : Nat) : ∀ j : JsonValue, Limited j.numbers (j.indented depth)
  | null => .ok _
  | bool _ => .ok _
  | number n => limited_numberText n
  | string _ => .ok _
  | array items => (limited_indentedItems (depth + 1) items).map _
  | object fields => (limited_indentedFields (depth + 1) fields).map _

theorem limited_indentedItems (depth : Nat) :
    ∀ items : List JsonValue, Limited (numbersItems items) (indentedItems depth items)
  | [] => .ok _
  | v :: vs => (limited_indented depth v).bind fun _ => (limited_indentedItems depth vs).map _

theorem limited_indentedFields (depth : Nat) :
    ∀ fields : List (String × JsonValue), Limited (numbersFields fields)
      (indentedFields depth fields)
  | [] => .ok _
  | (_, v) :: vs => (limited_indented depth v).bind fun _ => (limited_indentedFields depth vs).map _

end

end JsonValue

end TemplateScript
