import TemplateScript.Json

/-!
# The grammar of JSON

JSON texts as a relation between characters and documents, apart from how documents are written. The
characters of strings stand for UTF-16 units; numbers with neither fraction nor exponent are whole,
all others are taken for the double that is nearest to them. What numbers and strings stand for is a
parameter, so that the grammar can also be taken without it.
-/

namespace TemplateScript.Json

def Blank (cs : List Char) : Prop := ∀ c ∈ cs, c = ' ' ∨ c = '\t' ∨ c = '\n' ∨ c = '\r'

/-! ## Numbers -/

structure Digits (ds : List Char) : Prop where
  nonempty : ds ≠ []
  digits : ∀ c ∈ ds, c.isDigit = true

def value (ds : List Char) : Nat := Nat.ofDigitChars 10 ds 0

structure Whole (ds : List Char) : Prop extends Digits ds where
  leading : ds.head? = some '0' → ds = ['0']

inductive Fraction : List Char → List Char → Prop
  | none : Fraction [] []
  | digits {ds : List Char} : Digits ds → Fraction ('.' :: ds) ds

inductive Exponent : List Char → Int → Prop
  | none : Exponent [] 0
  | plain {e : Char} {ds : List Char} : e = 'e' ∨ e = 'E' → Digits ds →
      Exponent (e :: ds) (value ds)
  | plus {e : Char} {ds : List Char} : e = 'e' ∨ e = 'E' → Digits ds →
      Exponent (e :: '+' :: ds) (value ds)
  | minus {e : Char} {ds : List Char} : e = 'e' ∨ e = 'E' → Digits ds →
      Exponent (e :: '-' :: ds) (-(value ds : Int))

/-- A number as it is spelled: so many units of a power of ten, and whether neither fraction nor
exponent is written. -/
structure Spelled where
  negative : Bool
  digits : Nat
  exponent : Int
  whole : Bool

def sign (negative : Bool) : List Char := if negative then ['-'] else []

inductive IsNumber : List Char → Spelled → Prop
  | parts (negative : Bool) {ds f fs x : List Char} {e : Int} : Whole ds → Fraction f fs →
      Exponent x e → IsNumber (sign negative ++ (ds ++ (f ++ x)))
        ⟨negative, value (ds ++ fs), e - fs.length, f.isEmpty && x.isEmpty⟩

def InNumber (c : Char) : Prop := c.isDigit = true ∨ c ∈ ['-', '+', '.', 'e', 'E']

instance (c : Char) : Decidable (InNumber c) := inferInstanceAs (Decidable (_ ∨ _))

theorem Digits.inNumber {ds : List Char} (h : Digits ds) : ∀ c ∈ ds, InNumber c :=
  fun c hc => Or.inl (h.digits c hc)

theorem IsNumber.inNumber {cs : List Char} {t : Spelled} (h : IsNumber cs t) :
    ∀ c ∈ cs, InNumber c := by
  have hcons : ∀ {c : Char} {cs : List Char}, InNumber c → (∀ d ∈ cs, InNumber d) →
      ∀ d ∈ c :: cs, InNumber d := fun hc hcs => List.forall_mem_cons.2 ⟨hc, hcs⟩
  have hletter : ∀ {e : Char}, e = 'e' ∨ e = 'E' → InNumber e := by
    rintro e (rfl | rfl) <;> decide
  cases h with
  | parts negative hds hf hx =>
    simp only [List.forall_mem_append]
    refine ⟨?_, hds.inNumber, ?_, ?_⟩
    · cases negative <;> simp [sign, InNumber]
    · cases hf with
      | none => simp
      | digits hfs => exact hcons (by decide) hfs.inNumber
    · cases hx with
      | none => simp
      | plain he hes => exact hcons (hletter he) hes.inNumber
      | plus he hes => exact hcons (hletter he) (hcons (by decide) hes.inNumber)
      | minus he hes => exact hcons (hletter he) (hcons (by decide) hes.inNumber)

def Spelled.Means (t : Spelled) : Number → Prop
  | .int n => t.whole = true ∧ n = if t.negative then -(t.digits : Int) else t.digits
  | .real x => t.whole = false ∧
      Double.ofRatio? t.negative (t.digits * tenTo t.exponent) (tenTo (-t.exponent)) = some x

/-! ## Strings -/

def units (c : Char) : List Nat :=
  if c.toNat < 0x10000 then [c.toNat]
  else [0xd800 + (c.toNat - 0x10000) / 0x400, 0xdc00 + (c.toNat - 0x10000) % 0x400]

def hexDigit? (c : Char) : Option Nat :=
  if '0' ≤ c ∧ c ≤ '9' then some (c.toNat - '0'.toNat)
  else if 'a' ≤ c ∧ c ≤ 'f' then some (c.toNat - 'a'.toNat + 10)
  else if 'A' ≤ c ∧ c ≤ 'F' then some (c.toNat - 'A'.toNat + 10)
  else none

inductive IsHex : List Char → Nat → Prop
  | nil : IsHex [] 0
  | snoc {hs : List Char} {h : Char} {n d : Nat} : IsHex hs n → hexDigit? h = some d →
      IsHex (hs ++ [h]) (16 * n + d)

def escapes : List (Char × Char) :=
  [('"', '"'), ('\\', '\\'), ('/', '/'), ('b', '\x08'), ('f', '\x0c'), ('n', '\n'), ('r', '\r'),
   ('t', '\t')]

inductive IsText : List Char → List Nat → Prop
  | nil : IsText [] []
  | plain {c : Char} {r : List Char} {us : List Nat} : ' ' ≤ c → c ≠ '"' → c ≠ '\\' → IsText r us →
      IsText (c :: r) (units c ++ us)
  | escape {e c : Char} {r : List Char} {us : List Nat} : (e, c) ∈ escapes → IsText r us →
      IsText ('\\' :: e :: r) (c.toNat :: us)
  | unit {hs r : List Char} {n : Nat} {us : List Nat} : IsHex hs n → hs.length = 4 → IsText r us →
      IsText ('\\' :: 'u' :: (hs ++ r)) (n :: us)

/-! ## Documents -/

/-- What is asked of numbers and strings, beside that they are spelled as such. -/
structure Reading where
  number : Spelled → Number → Prop
  text : List Nat → String → Prop

namespace Reading

def exact : Reading := ⟨Spelled.Means, fun us s => us = s.toList.flatMap units⟩

def any : Reading := ⟨fun _ _ => True, fun _ _ => True⟩

end Reading

variable (R : Reading)

mutual

inductive IsValue : List Char → JsonValue → Prop
  | null : IsValue "null".toList .null
  | bool (b : Bool) : IsValue (if b then "true" else "false").toList (.bool b)
  | number {cs : List Char} {t : Spelled} {n : Number} : IsNumber cs t → R.number t n →
      IsValue cs (.number n)
  | string {cs : List Char} {us : List Nat} {s : String} : IsText cs us → R.text us s →
      IsValue ('"' :: (cs ++ ['"'])) (.string s)
  | noItems {w : List Char} : Blank w → IsValue ('[' :: (w ++ [']'])) (.array [])
  | array {cs : List Char} {vs : List JsonValue} : AreItems cs vs →
      IsValue ('[' :: (cs ++ [']'])) (.array vs)
  | noFields {w : List Char} : Blank w → IsValue ('{' :: (w ++ ['}'])) (.object [])
  | object {cs : List Char} {fs : List (String × JsonValue)} : AreFields cs fs →
      IsValue ('{' :: (cs ++ ['}'])) (.object fs)

inductive IsElement : List Char → JsonValue → Prop
  | padded {u cs w : List Char} {v : JsonValue} : Blank u → IsValue cs v → Blank w →
      IsElement (u ++ (cs ++ w)) v

inductive AreItems : List Char → List JsonValue → Prop
  | last {cs : List Char} {v : JsonValue} : IsElement cs v → AreItems cs [v]
  | more {cs ds : List Char} {v : JsonValue} {vs : List JsonValue} : IsElement cs v →
      AreItems ds vs → AreItems (cs ++ ',' :: ds) (v :: vs)

inductive IsField : List Char → String × JsonValue → Prop
  | pair {u ks w cs : List Char} {us : List Nat} {key : String} {v : JsonValue} : Blank u →
      IsText ks us → R.text us key → Blank w → IsElement cs v →
      IsField (u ++ ('"' :: (ks ++ '"' :: (w ++ ':' :: cs)))) (key, v)

inductive AreFields : List Char → List (String × JsonValue) → Prop
  | last {cs : List Char} {f : String × JsonValue} : IsField cs f → AreFields cs [f]
  | more {cs ds : List Char} {f : String × JsonValue} {fs : List (String × JsonValue)} :
      IsField cs f → AreFields ds fs → AreFields (cs ++ ',' :: ds) (f :: fs)

end

variable {R}

def IsJson (cs : List Char) : Prop := ∃ j, IsElement .any cs j

def Denotes (cs : List Char) (j : JsonValue) : Prop := IsElement .exact cs j

mutual

theorem IsValue.isJson {cs : List Char} {v : JsonValue} : IsValue R cs v → IsValue .any cs v
  | .null => .null
  | .bool b => .bool b
  | .number h _ => .number h trivial
  | .string h _ => .string h trivial
  | .noItems h => .noItems h
  | .array h => .array h.isJson
  | .noFields h => .noFields h
  | .object h => .object h.isJson

theorem IsElement.isJson {cs : List Char} {v : JsonValue} :
    IsElement R cs v → IsElement .any cs v
  | .padded hu h hw => .padded hu h.isJson hw

theorem AreItems.isJson {cs : List Char} {vs : List JsonValue} :
    AreItems R cs vs → AreItems .any cs vs
  | .last h => .last h.isJson
  | .more h hs => .more h.isJson hs.isJson

theorem IsField.isJson {cs : List Char} {f : String × JsonValue} :
    IsField R cs f → IsField .any cs f
  | .pair hu hk _ hw h => .pair hu hk trivial hw h.isJson

theorem AreFields.isJson {cs : List Char} {fs : List (String × JsonValue)} :
    AreFields R cs fs → AreFields .any cs fs
  | .last h => .last h.isJson
  | .more h hs => .more h.isJson hs.isJson

end

/-! ## Characters outside strings -/

inductive Place where
  | outside
  | inside
  | escaped
  deriving DecidableEq

namespace Place

def after : Place → Char → Place
  | outside, c => if c = '"' then inside else outside
  | inside, c => if c = '"' then outside else if c = '\\' then escaped else inside
  | escaped, _ => inside

/-- Goes along a text, but not over the first letter of a name of a number that is not finite. -/
def along? : Place → List Char → Option Place
  | p, [] => some p
  | p, c :: r => if p = outside ∧ (c = 'N' ∨ c = 'I') then none else along? (p.after c) r

theorem along?_append (p : Place) (u v : List Char) :
    p.along? (u ++ v) = (p.along? u).bind fun q => q.along? v := by
  induction u generalizing p with
  | nil => rfl
  | cons c u ih =>
    simp only [List.cons_append, along?]
    split
    · rfl
    · exact ih (p.after c)

theorem along?_append_of {p q : Place} {u : List Char} (h : p.along? u = some q) (v : List Char) :
    p.along? (u ++ v) = q.along? v := by
  rw [along?_append, h, Option.bind_some]

def IsMark (c : Char) : Prop := c ≠ '"' ∧ c ≠ 'N' ∧ c ≠ 'I'

instance (c : Char) : Decidable (IsMark c) := inferInstanceAs (Decidable (_ ∧ _ ∧ _))

theorem along?_marks {cs : List Char} (h : ∀ c ∈ cs, IsMark c) :
    outside.along? cs = some outside := by
  induction cs with
  | nil => rfl
  | cons c cs ih =>
    obtain ⟨⟨hq, hn, hi⟩, hcs⟩ := List.forall_mem_cons.1 h
    simp only [along?, after, hq, hn, hi, or_self, and_false, if_false]
    exact ih hcs

theorem along?_inside {cs : List Char} (h : ∀ c ∈ cs, c ≠ '"' ∧ c ≠ '\\') :
    inside.along? cs = some inside := by
  induction cs with
  | nil => rfl
  | cons c cs ih =>
    obtain ⟨⟨hq, hb⟩, hcs⟩ := List.forall_mem_cons.1 h
    simp only [along?, after, hq, hb, reduceCtorEq, false_and, if_false]
    exact ih hcs

end Place

open Place

theorem Blank.along? {w : List Char} (h : Blank w) : outside.along? w = some outside := by
  apply along?_marks
  intro c hc
  rcases h c hc with rfl | rfl | rfl | rfl <;> decide

theorem InNumber.isMark {c : Char} (h : InNumber c) : IsMark c := by
  refine ⟨?_, ?_, ?_⟩ <;> rintro rfl <;> exact absurd h (by decide)

theorem IsNumber.along? {cs : List Char} {t : Spelled} (h : IsNumber cs t) :
    outside.along? cs = some outside :=
  along?_marks fun c hc => (h.inNumber c hc).isMark

theorem IsHex.inside {hs : List Char} {n : Nat} (h : IsHex hs n) :
    ∀ c ∈ hs, c ≠ '"' ∧ c ≠ '\\' := by
  induction h with
  | nil => simp
  | snoc _ hd ih =>
    refine List.forall_mem_append.2 ⟨ih, List.forall_mem_singleton.2 ⟨?_, ?_⟩⟩
    · rintro rfl
      exact absurd hd (by simp [hexDigit?])
    · rintro rfl
      exact absurd hd (by simp [hexDigit?])

theorem IsText.along? {cs : List Char} {us : List Nat} (h : IsText cs us) :
    inside.along? cs = some inside := by
  induction h with
  | nil => rfl
  | plain _ hq hb _ ih =>
    simp only [Place.along?, after, hq, hb, reduceCtorEq, false_and, if_false]
    exact ih
  | escape _ _ ih => exact ih
  | unit hhex _ _ ih =>
    have hbody : ∀ r, inside.along? ('\\' :: 'u' :: r) = inside.along? r := fun r => rfl
    rw [hbody, along?_append_of (along?_inside hhex.inside)]
    exact ih

theorem IsText.quoted_along? {cs : List Char} {us : List Nat} (h : IsText cs us) (r : List Char) :
    outside.along? ('"' :: (cs ++ '"' :: r)) = outside.along? r := by
  have hopen : ∀ r, outside.along? ('"' :: r) = inside.along? r := fun r => rfl
  rw [hopen, along?_append_of h.along?]
  rfl

section
variable {cs : List Char}

theorem along?_brackets {o c : Char} (ho : IsMark o) (hc : IsMark c)
    (h : outside.along? cs = some outside) : outside.along? (o :: (cs ++ [c])) = some outside := by
  have hfront := along?_append_of (along?_marks (List.forall_mem_singleton.2 ho)) (cs ++ [c])
  rw [List.singleton_append] at hfront
  rw [hfront, along?_append_of h]
  exact along?_marks (List.forall_mem_singleton.2 hc)

theorem along?_comma {ds : List Char} (h : outside.along? cs = some outside)
    (h' : outside.along? ds = some outside) : outside.along? (cs ++ ',' :: ds) = some outside := by
  rw [along?_append_of h]
  exact h'

end

-- Names stand in no text of the grammar: what a rule adds outside of strings are marks.
mutual

theorem IsValue.along? {cs : List Char} {v : JsonValue} :
    IsValue R cs v → outside.along? cs = some outside
  | .null => by decide
  | .bool b => by cases b <;> decide
  | .number h _ => h.along?
  | .string h _ => h.quoted_along? []
  | .noItems h => along?_brackets (by decide) (by decide) h.along?
  | .array h => along?_brackets (by decide) (by decide) h.along?
  | .noFields h => along?_brackets (by decide) (by decide) h.along?
  | .object h => along?_brackets (by decide) (by decide) h.along?

theorem IsElement.along? {cs : List Char} {v : JsonValue} :
    IsElement R cs v → outside.along? cs = some outside
  | .padded hu h hw => by rw [along?_append_of hu.along?, along?_append_of h.along?, hw.along?]

theorem AreItems.along? {cs : List Char} {vs : List JsonValue} :
    AreItems R cs vs → outside.along? cs = some outside
  | .last h => h.along?
  | .more h hs => along?_comma h.along? hs.along?

theorem IsField.along? {cs : List Char} {f : String × JsonValue} :
    IsField R cs f → outside.along? cs = some outside
  | .pair hu hk _ hw h => by
    rw [along?_append_of hu.along?, hk.quoted_along?, along?_append_of hw.along?]
    exact h.along?

theorem AreFields.along? {cs : List Char} {fs : List (String × JsonValue)} :
    AreFields R cs fs → outside.along? cs = some outside
  | .last h => h.along?
  | .more h hs => along?_comma h.along? hs.along?

end

end TemplateScript.Json
