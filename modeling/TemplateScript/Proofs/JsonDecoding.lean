import TemplateScript.Proofs.JsonGrammar

/-!
# A JSON text stands for one document

Where a token, a value or a row ends can be seen from the character behind it. So two readings of one
text cut it at the same places, and they stand for the same document.
-/

namespace TemplateScript.Json

/-- A text is cut in one way only where characters of one sort end. -/
theorem cut_unique {p : Char → Prop} {u u' r r' : List Char} (hu : ∀ c ∈ u, p c)
    (hu' : ∀ c ∈ u', p c) (hr : ∀ c ∈ r.head?, ¬ p c) (hr' : ∀ c ∈ r'.head?, ¬ p c)
    (h : u ++ r = u' ++ r') : u = u' ∧ r = r' := by
  induction u generalizing u' with
  | nil =>
    cases u' with
    | nil => exact ⟨rfl, h⟩
    | cons c u' =>
      obtain rfl : r = c :: (u' ++ r') := h
      exact absurd (hu' c List.mem_cons_self) (hr c rfl)
  | cons c u ih =>
    cases u' with
    | nil =>
      obtain rfl : c :: (u ++ r) = r' := h
      exact absurd (hu c List.mem_cons_self) (hr' c rfl)
    | cons d u' =>
      obtain ⟨rfl, htail⟩ := List.cons.inj h
      obtain ⟨rfl, hrest⟩ := ih (fun e he => hu e (List.mem_cons_of_mem c he))
        (fun e he => hu' e (List.mem_cons_of_mem c he)) htail
      exact ⟨rfl, hrest⟩

/-! ## Numbers -/

def Stops (r : List Char) : Prop := ∀ c ∈ r.head?, ¬ InNumber c

theorem Digits.head {ds : List Char} (h : Digits ds) : ∃ c r, ds = c :: r ∧ c.isDigit = true := by
  obtain ⟨c, r, rfl⟩ := List.exists_cons_of_ne_nil h.nonempty
  exact ⟨c, r, rfl, h.digits c List.mem_cons_self⟩

theorem Exponent.unique {x : List Char} {e e' : Int} (h : Exponent x e) (h' : Exponent x e') :
    e = e' := by
  cases h with
  | none =>
    cases h'
    rfl
  | plain _ hds =>
    cases h' with
    | plain => rfl
    | plus => exact absurd (hds.digits '+' List.mem_cons_self) (by decide)
    | minus => exact absurd (hds.digits '-' List.mem_cons_self) (by decide)
  | plus =>
    cases h' with
    | plain _ hds => exact absurd (hds.digits '+' List.mem_cons_self) (by decide)
    | plus => rfl
  | minus =>
    cases h' with
    | plain _ hds => exact absurd (hds.digits '-' List.mem_cons_self) (by decide)
    | minus => rfl

theorem Exponent.head {x : List Char} {e : Int} (h : Exponent x e) :
    ∀ c ∈ x.head?, c = 'e' ∨ c = 'E' := by
  intro c hc
  cases h with
  | none => cases hc
  | plain he => exact Option.some.inj hc ▸ he
  | plus he => exact Option.some.inj hc ▸ he
  | minus he => exact Option.some.inj hc ▸ he

theorem Fraction.unique {f f' fs fs' x x' : List Char} {e e' : Int} (h : Fraction f fs)
    (h' : Fraction f' fs') (hx : Exponent x e) (hx' : Exponent x' e') (heq : f ++ x = f' ++ x') :
    f = f' ∧ fs = fs' ∧ x = x' := by
  have hpoint : ∀ {y : List Char} {d : Int}, Exponent y d → ∀ r, y ≠ '.' :: r := by
    rintro y d hy r rfl
    rcases hy.head '.' rfl with h | h <;> cases h
  have hdigit : ∀ {y : List Char} {d : Int}, Exponent y d → ∀ c ∈ y.head?, ¬ c.isDigit = true := by
    intro y d hy c hc
    rcases hy.head c hc with rfl | rfl <;> decide
  cases h with
  | none =>
    cases h' with
    | none => exact ⟨rfl, rfl, heq⟩
    | digits => exact absurd heq (hpoint hx _)
  | digits hds =>
    cases h' with
    | none => exact absurd heq.symm (hpoint hx' _)
    | digits hds' =>
      obtain ⟨rfl, rfl⟩ := cut_unique hds.digits hds'.digits (hdigit hx) (hdigit hx')
        (List.cons.inj heq).2
      exact ⟨rfl, rfl, rfl⟩

theorem Fraction.head {f fs x : List Char} {e : Int} (h : Fraction f fs) (hx : Exponent x e) :
    ∀ c ∈ (f ++ x).head?, ¬ c.isDigit = true := by
  intro c hc
  cases h with
  | none => rcases hx.head c hc with rfl | rfl <;> decide
  | digits =>
    obtain rfl : '.' = c := Option.some.inj hc
    decide

theorem sign_unique {negative negative' : Bool} {ds ds' r r' : List Char} (h : Digits ds)
    (h' : Digits ds') (heq : sign negative ++ (ds ++ r) = sign negative' ++ (ds' ++ r')) :
    negative = negative' ∧ ds ++ r = ds' ++ r' := by
  have hminus : ∀ {es r : List Char}, Digits es → ∀ s, es ++ r ≠ '-' :: s := by
    intro es r hes s hcons
    obtain ⟨c, t, rfl, hc⟩ := hes.head
    obtain rfl := (List.cons.inj hcons).1
    exact absurd hc (by decide)
  cases negative with
  | false =>
    cases negative' with
    | false => exact ⟨rfl, heq⟩
    | true => exact absurd heq (hminus h _)
  | true =>
    cases negative' with
    | false => exact absurd heq.symm (hminus h' _)
    | true => exact ⟨rfl, (List.cons.inj heq).2⟩

theorem IsNumber.unique {cs cs' : List Char} {t t' : Spelled} (h : IsNumber cs t)
    (h' : IsNumber cs' t') (heq : cs = cs') : t = t' := by
  cases h with
  | parts negative hds hf hx =>
    cases h' with
    | parts negative' hds' hf' hx' =>
      obtain ⟨rfl, hparts⟩ := sign_unique hds.toDigits hds'.toDigits heq
      obtain ⟨rfl, hrest⟩ := cut_unique hds.digits hds'.digits (hf.head hx) (hf'.head hx') hparts
      obtain ⟨rfl, rfl, rfl⟩ := hf.unique hf' hx hx' hrest
      rw [hx.unique hx']

theorem Spelled.Means.unique {t : Spelled} {n n' : Number} (h : t.Means n) (h' : t.Means n') :
    n = n' := by
  cases n with
  | int k =>
    cases n' with
    | int k' => rw [h.2, h'.2]
    | real x => cases h.1.symm.trans h'.1
  | real x =>
    cases n' with
    | int k => cases h.1.symm.trans h'.1
    | real y =>
      obtain rfl : x = y := Option.some.inj (h.2.symm.trans h'.2)
      rfl

/-! ## Strings -/

theorem IsHex.unique {hs : List Char} {n n' : Nat} (h : IsHex hs n) (h' : IsHex hs n') : n = n' := by
  induction h generalizing n' with
  | nil =>
    generalize hnil : ([] : List Char) = hs at h'
    cases h' with
    | nil => rfl
    | snoc => simp at hnil
  | @snoc hs c n d _ hd ih =>
    generalize hsnoc : hs ++ [c] = hs' at h'
    cases h' with
    | nil => simp at hsnoc
    | snoc hhex hd' =>
      obtain ⟨rfl, hlast⟩ := List.append_inj' hsnoc rfl
      obtain rfl := List.singleton_inj.1 hlast
      rw [ih hhex, Option.some.inj (hd.symm.trans hd')]

theorem escapes_unique : ∀ p ∈ escapes, ∀ q ∈ escapes, p.1 = q.1 → p.2 = q.2 := by decide

theorem not_mem_escapes (c : Char) : ('u', c) ∉ escapes := by
  intro h
  have hall : ∀ p ∈ escapes, p.1 ≠ 'u' := by decide
  exact hall _ h rfl

theorem IsText.unique {cs cs' r r' : List Char} {us us' : List Nat} (h : IsText cs us)
    (h' : IsText cs' us') (heq : cs ++ '"' :: r = cs' ++ '"' :: r') : cs = cs' ∧ us = us' := by
  induction h generalizing cs' us' with
  | nil =>
    cases h' with
    | nil => exact ⟨rfl, rfl⟩
    | plain _ hquote => exact absurd (List.cons.inj heq).1.symm hquote
    | escape => cases (List.cons.inj heq).1
    | unit => cases (List.cons.inj heq).1
  | plain _ hquote hback _ ih =>
    cases h' with
    | nil => exact absurd (List.cons.inj heq).1 hquote
    | plain _ _ _ htext =>
      obtain ⟨rfl, hrest⟩ := List.cons.inj heq
      obtain ⟨rfl, rfl⟩ := ih htext hrest
      exact ⟨rfl, rfl⟩
    | escape => exact absurd (List.cons.inj heq).1 hback
    | unit => exact absurd (List.cons.inj heq).1 hback
  | escape hmem _ ih =>
    cases h' with
    | nil => cases (List.cons.inj heq).1
    | plain _ _ hback => exact absurd (List.cons.inj heq).1.symm hback
    | escape hmem' htext =>
      obtain ⟨rfl, hrest⟩ := List.cons.inj (List.cons.inj heq).2
      obtain ⟨rfl, rfl⟩ := ih htext hrest
      obtain rfl := escapes_unique _ hmem _ hmem' rfl
      exact ⟨rfl, rfl⟩
    | unit =>
      obtain ⟨rfl, -⟩ := List.cons.inj (List.cons.inj heq).2
      exact absurd hmem (not_mem_escapes _)
  | unit hhex hlen _ ih =>
    cases h' with
    | nil => cases (List.cons.inj heq).1
    | plain _ _ hback => exact absurd (List.cons.inj heq).1.symm hback
    | escape hmem' =>
      obtain ⟨rfl, -⟩ := List.cons.inj (List.cons.inj heq).2
      exact absurd hmem' (not_mem_escapes _)
    | unit hhex' hlen' htext =>
      simp only [List.cons_append, List.append_assoc, List.cons.injEq, true_and] at heq
      obtain ⟨rfl, hrest⟩ := List.append_inj heq (hlen.trans hlen'.symm)
      obtain ⟨rfl, rfl⟩ := ih htext hrest
      obtain rfl := hhex.unique hhex'
      exact ⟨rfl, rfl⟩

/-- No character is a half of a pair of units. -/
theorem units_unique {c c' : Char} {us us' : List Nat} (h : units c ++ us = units c' ++ us') :
    c = c' ∧ us = us' := by
  have hvalid : ∀ d : Char, d.toNat < 0xd800 ∨ 0xdfff < d.toNat ∧ d.toNat < 0x110000 :=
    fun d => d.valid
  have hc := hvalid c
  have hc' := hvalid c'
  suffices hcode : c.toNat = c'.toNat ∧ us = us' from ⟨Char.toNat_inj.1 hcode.1, hcode.2⟩
  unfold units at h
  split at h <;> split at h <;>
    simp only [List.cons_append, List.nil_append, List.cons.injEq] at h
  · exact h
  · omega
  · omega
  · exact ⟨by omega, h.2.2⟩

theorem flatMap_units_unique {cs cs' : List Char} (h : cs.flatMap units = cs'.flatMap units) :
    cs = cs' := by
  have hne : ∀ c us, units c ++ us ≠ [] := by
    intro c us
    unfold units
    split <;> simp
  induction cs generalizing cs' with
  | nil =>
    cases cs' with
    | nil => rfl
    | cons c' cs' => exact absurd h.symm (hne c' _)
  | cons c cs ih =>
    cases cs' with
    | nil => exact absurd h (hne c _)
    | cons c' cs' =>
      obtain ⟨rfl, hrest⟩ := units_unique h
      rw [ih hrest]

theorem exact_text_unique {us : List Nat} {s s' : String} (h : Reading.exact.text us s)
    (h' : Reading.exact.text us s') : s = s' :=
  String.toList_inj.1 (flatMap_units_unique (h.symm.trans h'))

/-! ## Where values begin and end -/

theorem inside_brackets {o c : Char} {cs cs' r r' : List Char}
    (h : o :: (cs ++ [c]) ++ r = o :: (cs' ++ [c]) ++ r') : cs ++ c :: r = cs' ++ c :: r' := by
  simpa using h

inductive Kind where
  | null
  | bool
  | number
  | string
  | array
  | object

def Kind.ofChar? (c : Char) : Option Kind :=
  if c = 'n' then some .null
  else if c = 't' ∨ c = 'f' then some .bool
  else if c = '"' then some .string
  else if c = '[' then some .array
  else if c = '{' then some .object
  else if c = '-' ∨ c.isDigit = true then some .number
  else none

def kind : JsonValue → Kind
  | .null => .null
  | .bool _ => .bool
  | .number _ => .number
  | .string _ => .string
  | .array _ => .array
  | .object _ => .object

theorem Kind.ofChar?_of_isDigit {c : Char} (h : c.isDigit = true) : ofChar? c = some .number := by
  have hne : ∀ {d : Char}, d.isDigit = false → c ≠ d := by
    rintro d hd rfl
    exact absurd h (by simp [hd])
  rw [ofChar?, if_neg (hne (by decide)), if_neg (not_or.2 ⟨hne (by decide), hne (by decide)⟩),
    if_neg (hne (by decide)), if_neg (hne (by decide)), if_neg (hne (by decide)), if_pos (Or.inr h)]

def Leads (cs : List Char) (k : Kind) : Prop := ∃ c r, cs = c :: r ∧ Kind.ofChar? c = some k

theorem IsNumber.leads {cs : List Char} {t : Spelled} (h : IsNumber cs t) : Leads cs .number := by
  cases h with
  | parts negative hds =>
    obtain ⟨c, r, rfl, hc⟩ := hds.head
    cases negative with
    | false => exact ⟨c, _, rfl, Kind.ofChar?_of_isDigit hc⟩
    | true => exact ⟨'-', _, rfl, rfl⟩

section
variable {R : Reading} {cs cs' r r' : List Char}

theorem IsValue.leads {v : JsonValue} (h : IsValue R cs v) : Leads cs (kind v) := by
  cases h with
  | null => exact ⟨'n', _, rfl, rfl⟩
  | bool b =>
    cases b with
    | false => exact ⟨'f', _, rfl, rfl⟩
    | true => exact ⟨'t', _, rfl, rfl⟩
  | number h => exact h.leads
  | string => exact ⟨'"', _, rfl, rfl⟩
  | noItems | array => exact ⟨'[', _, rfl, rfl⟩
  | noFields | object => exact ⟨'{', _, rfl, rfl⟩

theorem Leads.kind_unique {k k' : Kind} (h : Leads cs k) (h' : Leads cs' k')
    (heq : cs ++ r = cs' ++ r') : k = k' := by
  obtain ⟨c, s, rfl, hc⟩ := h
  obtain ⟨c', s', rfl, hc'⟩ := h'
  obtain rfl := (List.cons.inj heq).1
  exact Option.some.inj (hc.symm.trans hc')

def IsBlank (c : Char) : Prop := c = ' ' ∨ c = '\t' ∨ c = '\n' ∨ c = '\r'

theorem Leads.not_isBlank {k : Kind} (h : Leads cs k) (r : List Char) :
    ∀ c ∈ (cs ++ r).head?, ¬ IsBlank c := by
  obtain ⟨d, s, rfl, hd⟩ := h
  intro c hc
  obtain rfl : d = c := Option.some.inj hc
  rintro (rfl | rfl | rfl | rfl) <;> cases hd

def Ends (r : List Char) : Prop := ∀ c ∈ r.head?, c = ',' ∨ c = ']' ∨ c = '}'

theorem Ends.nil : Ends [] := fun _ hc => by cases hc

theorem Ends.cons {c : Char} (h : c = ',' ∨ c = ']' ∨ c = '}') (r : List Char) : Ends (c :: r) :=
  fun _ hd => Option.some.inj hd ▸ h

theorem Ends.not_isBlank (h : Ends r) : ∀ c ∈ r.head?, ¬ IsBlank c := by
  intro c hc
  rcases h c hc with rfl | rfl | rfl <;> simp [IsBlank]

theorem Ends.stops (h : Ends r) {w : List Char} (hw : Blank w) : Stops (w ++ r) := by
  intro c hc
  cases w with
  | nil => rcases h c hc with rfl | rfl | rfl <;> decide
  | cons d w =>
    obtain rfl : d = c := Option.some.inj hc
    rcases hw d List.mem_cons_self with rfl | rfl | rfl | rfl <;> decide

theorem cut_blank {w w' : List Char} (hw : Blank w) (hw' : Blank w')
    (hr : ∀ c ∈ r.head?, ¬ IsBlank c) (hr' : ∀ c ∈ r'.head?, ¬ IsBlank c)
    (heq : w ++ r = w' ++ r') : w = w' ∧ r = r' :=
  cut_unique (p := IsBlank) hw hw' hr hr' heq

def Starts (cs : List Char) : Prop := ∃ u s k, Blank u ∧ Leads s k ∧ cs = u ++ s

theorem Starts.append (h : Starts cs) (r : List Char) : Starts (cs ++ r) := by
  obtain ⟨u, s, k, hu, ⟨c, t, rfl, hc⟩, rfl⟩ := h
  exact ⟨u, _, k, hu, ⟨c, t ++ r, rfl, hc⟩, List.append_assoc _ _ _⟩

theorem Starts.ne_blank (h : Starts cs) {w : List Char} (hw : Blank w) {c : Char}
    (hkind : Kind.ofChar? c = none) (hc : ¬ IsBlank c) : w ++ c :: r ≠ cs ++ r' := by
  obtain ⟨u, s, k, hu, hs, rfl⟩ := h
  intro heq
  have hhead : ∀ d ∈ (c :: r).head?, ¬ IsBlank d := fun d hd => Option.some.inj hd ▸ hc
  rw [List.append_assoc] at heq
  obtain ⟨-, hrest⟩ := cut_blank hw hu hhead (hs.not_isBlank _) heq
  obtain ⟨d, t, rfl, hd⟩ := hs
  obtain rfl := (List.cons.inj hrest).1
  cases hd.symm.trans hkind

theorem IsElement.starts {v : JsonValue} (h : IsElement R cs v) : Starts cs := by
  cases h with
  | padded hu h hw =>
    obtain ⟨c, t, rfl, hc⟩ := h.leads
    exact ⟨_, _, _, hu, ⟨c, _, rfl, hc⟩, rfl⟩

theorem AreItems.starts {vs : List JsonValue} (h : AreItems R cs vs) : Starts cs := by
  cases h with
  | last h => exact h.starts
  | more h => exact h.starts.append _

theorem IsField.starts {f : String × JsonValue} (h : IsField R cs f) : Starts cs := by
  cases h with
  | pair hu => exact ⟨_, _, .string, hu, ⟨'"', _, rfl, rfl⟩, rfl⟩

theorem AreFields.starts {fs : List (String × JsonValue)} (h : AreFields R cs fs) : Starts cs := by
  cases h with
  | last h => exact h.starts
  | more h => exact h.starts.append _

end

/-! ## Documents -/

-- The induction is on the first reading. The first character of a value forces the same rule on the
-- second one, and what stands behind a part forces the same end.
mutual

theorem IsValue.unique {cs cs' r r' : List Char} {v v' : JsonValue} : IsValue .exact cs v →
    IsValue .exact cs' v' → Stops r → Stops r' → cs ++ r = cs' ++ r' → cs = cs' ∧ v = v'
  | .null, h', hr, hr', heq => by
    have hkind := (IsValue.null (R := .exact)).leads.kind_unique h'.leads heq
    cases h' with
    | null => exact ⟨rfl, rfl⟩
    | _ => cases hkind
  | .bool b, h', hr, hr', heq => by
    have hkind := (IsValue.bool (R := .exact) b).leads.kind_unique h'.leads heq
    cases h' with
    | bool b' =>
      cases b <;> cases b'
      · exact ⟨rfl, rfl⟩
      · cases (List.cons.inj heq).1
      · cases (List.cons.inj heq).1
      · exact ⟨rfl, rfl⟩
    | _ => cases hkind
  | .number h hn, h', hr, hr', heq => by
    have hkind := h.leads.kind_unique h'.leads heq
    cases h' with
    | number h' hn' =>
      obtain ⟨rfl, -⟩ := cut_unique h.inNumber h'.inNumber hr hr' heq
      obtain rfl := h.unique h' rfl
      obtain rfl := Spelled.Means.unique hn hn'
      exact ⟨rfl, rfl⟩
    | _ => cases hkind
  | .string h hs, h', hr, hr', heq => by
    have hkind := (IsValue.string h hs).leads.kind_unique h'.leads heq
    cases h' with
    | string h' hs' =>
      obtain ⟨rfl, rfl⟩ := h.unique h' (inside_brackets heq)
      obtain rfl := exact_text_unique hs hs'
      exact ⟨rfl, rfl⟩
    | _ => cases hkind
  | .noItems hw, h', hr, hr', heq => by
    have hkind := (IsValue.noItems (R := .exact) hw).leads.kind_unique h'.leads heq
    cases h' with
    | noItems hw' =>
      have hinside := inside_brackets heq
      obtain ⟨rfl, -⟩ := cut_blank hw hw' (by simp [IsBlank]) (by simp [IsBlank]) hinside
      exact ⟨rfl, rfl⟩
    | array hs' =>
      exact absurd (inside_brackets heq) (hs'.starts.ne_blank hw rfl (by simp [IsBlank]))
    | _ => cases hkind
  | .array hs, h', hr, hr', heq => by
    have hkind := (IsValue.array hs).leads.kind_unique h'.leads heq
    cases h' with
    | noItems hw' =>
      exact absurd (inside_brackets heq).symm (hs.starts.ne_blank hw' rfl (by simp [IsBlank]))
    | array hs' =>
      obtain ⟨rfl, rfl⟩ := hs.unique hs' (inside_brackets heq)
      exact ⟨rfl, rfl⟩
    | _ => cases hkind
  | .noFields hw, h', hr, hr', heq => by
    have hkind := (IsValue.noFields (R := .exact) hw).leads.kind_unique h'.leads heq
    cases h' with
    | noFields hw' =>
      have hinside := inside_brackets heq
      obtain ⟨rfl, -⟩ := cut_blank hw hw' (by simp [IsBlank]) (by simp [IsBlank]) hinside
      exact ⟨rfl, rfl⟩
    | object hs' =>
      exact absurd (inside_brackets heq) (hs'.starts.ne_blank hw rfl (by simp [IsBlank]))
    | _ => cases hkind
  | .object hs, h', hr, hr', heq => by
    have hkind := (IsValue.object hs).leads.kind_unique h'.leads heq
    cases h' with
    | noFields hw' =>
      exact absurd (inside_brackets heq).symm (hs.starts.ne_blank hw' rfl (by simp [IsBlank]))
    | object hs' =>
      obtain ⟨rfl, rfl⟩ := hs.unique hs' (inside_brackets heq)
      exact ⟨rfl, rfl⟩
    | _ => cases hkind
termination_by structural h => h

theorem IsElement.unique {cs cs' r r' : List Char} {v v' : JsonValue} : IsElement .exact cs v →
    IsElement .exact cs' v' → Ends r → Ends r' → cs ++ r = cs' ++ r' → cs = cs' ∧ v = v'
  | .padded hu h hw, .padded hu' h' hw', hr, hr', heq => by
    simp only [List.append_assoc] at heq
    obtain ⟨rfl, hrest⟩ := cut_blank hu hu' (h.leads.not_isBlank _) (h'.leads.not_isBlank _) heq
    obtain ⟨rfl, rfl⟩ := h.unique h' (hr.stops hw) (hr'.stops hw') hrest
    obtain ⟨rfl, -⟩ := cut_blank hw hw' hr.not_isBlank hr'.not_isBlank
      (List.append_cancel_left hrest)
    exact ⟨rfl, rfl⟩
termination_by structural h => h

theorem AreItems.unique {cs cs' r r' : List Char} {vs vs' : List JsonValue} :
    AreItems .exact cs vs → AreItems .exact cs' vs' → cs ++ ']' :: r = cs' ++ ']' :: r' →
      cs = cs' ∧ vs = vs'
  | .last h, .last h', heq => by
    obtain ⟨rfl, rfl⟩ := h.unique h' (.cons (by simp) _) (.cons (by simp) _) heq
    exact ⟨rfl, rfl⟩
  | .last h, .more h' hs', heq => by
    rw [List.append_assoc] at heq
    obtain ⟨rfl, -⟩ := h.unique h' (.cons (by simp) _) (.cons (by simp) _) heq
    cases List.append_cancel_left heq
  | .more h hs, .last h', heq => by
    rw [List.append_assoc] at heq
    obtain ⟨rfl, -⟩ := h.unique h' (.cons (by simp) _) (.cons (by simp) _) heq
    cases List.append_cancel_left heq
  | .more h hs, .more h' hs', heq => by
    rw [List.append_assoc, List.append_assoc] at heq
    obtain ⟨rfl, rfl⟩ := h.unique h' (.cons (by simp) _) (.cons (by simp) _) heq
    obtain ⟨rfl, rfl⟩ := hs.unique hs' (List.cons.inj (List.append_cancel_left heq)).2
    exact ⟨rfl, rfl⟩
termination_by structural h => h

theorem IsField.unique {cs cs' r r' : List Char} {f f' : String × JsonValue} :
    IsField .exact cs f → IsField .exact cs' f' → Ends r → Ends r' → cs ++ r = cs' ++ r' →
      cs = cs' ∧ f = f'
  | .pair hu hk hs hw h, .pair hu' hk' hs' hw' h', hr, hr', heq => by
    simp only [List.cons_append, List.append_assoc] at heq
    obtain ⟨rfl, hfield⟩ := cut_blank hu hu' (by simp [IsBlank]) (by simp [IsBlank]) heq
    obtain ⟨rfl, rfl⟩ := hk.unique hk' (List.cons.inj hfield).2
    have hkey := exact_text_unique hs hs'
    have hcolon := (List.cons.inj (List.append_cancel_left (List.cons.inj hfield).2)).2
    obtain ⟨rfl, hvalue⟩ := cut_blank hw hw' (by simp [IsBlank]) (by simp [IsBlank]) hcolon
    obtain ⟨rfl, hdocument⟩ := h.unique h' hr hr' (List.cons.inj hvalue).2
    exact ⟨rfl, Prod.ext hkey hdocument⟩
termination_by structural h => h

theorem AreFields.unique {cs cs' r r' : List Char} {fs fs' : List (String × JsonValue)} :
    AreFields .exact cs fs → AreFields .exact cs' fs' → cs ++ '}' :: r = cs' ++ '}' :: r' →
      cs = cs' ∧ fs = fs'
  | .last h, .last h', heq => by
    obtain ⟨rfl, rfl⟩ := h.unique h' (.cons (by simp) _) (.cons (by simp) _) heq
    exact ⟨rfl, rfl⟩
  | .last h, .more h' hs', heq => by
    rw [List.append_assoc] at heq
    obtain ⟨rfl, -⟩ := h.unique h' (.cons (by simp) _) (.cons (by simp) _) heq
    cases List.append_cancel_left heq
  | .more h hs, .last h', heq => by
    rw [List.append_assoc] at heq
    obtain ⟨rfl, -⟩ := h.unique h' (.cons (by simp) _) (.cons (by simp) _) heq
    cases List.append_cancel_left heq
  | .more h hs, .more h' hs', heq => by
    rw [List.append_assoc, List.append_assoc] at heq
    obtain ⟨rfl, rfl⟩ := h.unique h' (.cons (by simp) _) (.cons (by simp) _) heq
    obtain ⟨rfl, rfl⟩ := hs.unique hs' (List.cons.inj (List.append_cancel_left heq)).2
    exact ⟨rfl, rfl⟩
termination_by structural h => h

end

/-- A JSON text stands for one document. -/
theorem Denotes.unique {cs : List Char} {j j' : JsonValue} (h : Denotes cs j) (h' : Denotes cs j') :
    j = j' := by
  have hwhole : cs ++ [] = cs ++ [] := rfl
  exact (IsElement.unique h h' .nil .nil hwhole).2

end TemplateScript.Json
