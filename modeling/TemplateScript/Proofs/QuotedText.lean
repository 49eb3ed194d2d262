import TemplateScript.Proofs.JsonDecoding
import TemplateScript.Proofs.JsonText
import TemplateScript.Text.Quoted

/-!
# Quoted texts tell their text

A quoted text stands on one line. What stands in it for a character tells the character and where it
ends, so no two texts are quoted alike.
-/

namespace TemplateScript.Text

open Json (IsHex)

def marks (d : Char) : List (Char × Char) :=
  [(d, d), ('\\', '\\'), ('n', '\n'), ('r', '\r'), ('t', '\t')]

def codeWidths : List (Char × Nat) := [('x', 2), ('u', 4), ('U', 8)]

inductive Quotes (d : Char) : Char → List Char → Prop
  | plain {c : Char} : c ≠ '\\' → c ≠ '\n' → Quotes d c [c]
  | mark {e c : Char} : (e, c) ∈ marks d → Quotes d c ['\\', e]
  | code {e c : Char} {width : Nat} : (e, width) ∈ codeWidths → c.toNat < 16 ^ width →
      Quotes d c ('\\' :: e :: hexDigits width c.toNat)

theorem quotes_quoteChar (d c : Char) : Quotes d c (quoteChar d c) := by
  unfold quoteChar
  split
  · rename_i h
    refine .mark ?_
    rcases h with rfl | rfl <;> simp [marks]
  rename_i hother
  split
  · rename_i h
    exact h ▸ .mark (by simp [marks])
  rename_i hnewline
  split
  · rename_i h
    exact h ▸ .mark (by simp [marks])
  split
  · rename_i h
    exact h ▸ .mark (by simp [marks])
  split
  · exact .plain (fun h => hother (Or.inr h)) hnewline
  split
  · rename_i h
    exact .code (by simp [codeWidths]) h
  split
  · rename_i h
    exact .code (by simp [codeWidths]) h
  · refine .code (by simp [codeWidths]) ?_
    have hlast := Json.toNat_le_last c
    omega

variable {d c c' : Char} {w w' r r' : List Char}

theorem isHex_hexDigits (width n : Nat) : IsHex (hexDigits width n) n :=
  (Json.isHex_zeros _).append_toDigits n

theorem newline_not_mem_of_isHex {hs : List Char} {n : Nat} (h : IsHex hs n) : '\n' ∉ hs := by
  induction h with
  | nil => simp
  | snoc _ hd ih =>
    refine fun hmem => (List.mem_append.1 hmem).elim ih fun hlast => ?_
    rw [← List.mem_singleton.1 hlast] at hd
    exact absurd hd (by simp [Json.hexDigit?])

theorem Quotes.ne_nil (h : Quotes d c w) : w ≠ [] := by
  cases h <;> simp

theorem Quotes.newline_not_mem (hd : d ≠ '\n') (h : Quotes d c w) : '\n' ∉ w := by
  cases h with
  | plain _ hne => simpa using hne.symm
  | mark he =>
    have hmarks : ∀ p ∈ marks d, p.1 ≠ '\n' := by simp [marks, hd]
    simpa using (hmarks _ he).symm
  | code he _ =>
    have hletters : ∀ p ∈ codeWidths, p.1 ≠ '\n' := by decide
    simpa using ⟨(hletters _ he).symm, newline_not_mem_of_isHex (isHex_hexDigits _ _)⟩

/-- What stands for a character tells it, whatever stands behind. -/
theorem Quotes.unique (hd : d = '\'' ∨ d = '"') (h : Quotes d c w) (h' : Quotes d c' w')
    (heq : w ++ r = w' ++ r') : c = c' ∧ r = r' := by
  have hmarks : ∀ p ∈ marks d, ∀ q ∈ marks d, p.1 = q.1 → p.2 = q.2 := by
    rcases hd with rfl | rfl <;> decide
  have hapart : ∀ p ∈ marks d, ∀ q ∈ codeWidths, p.1 ≠ q.1 := by
    rcases hd with rfl | rfl <;> decide
  have hwidths : ∀ p ∈ codeWidths, ∀ q ∈ codeWidths, p.1 = q.1 → p.2 = q.2 := by decide
  have hpos : ∀ p ∈ codeWidths, 0 < p.2 := by decide
  cases h with
  | plain hne _ =>
    cases h' with
    | plain => exact List.cons.inj heq
    | mark | code => exact absurd (List.cons.inj heq).1 hne
  | mark he =>
    cases h' with
    | plain hne _ => exact absurd (List.cons.inj heq).1.symm hne
    | mark he' =>
      obtain ⟨hmark, hr⟩ := List.cons.inj (List.cons.inj heq).2
      exact ⟨hmarks _ he _ he' hmark, hr⟩
    | code he' _ => exact absurd (List.cons.inj (List.cons.inj heq).2).1 (hapart _ he _ he')
  | @code e _ width he hlt =>
    cases h' with
    | plain hne _ => exact absurd (List.cons.inj heq).1.symm hne
    | mark he' => exact absurd (List.cons.inj (List.cons.inj heq).2).1.symm (hapart _ he' _ he)
    | @code e' _ width' he' hlt' =>
      obtain ⟨hletter, hrest⟩ := List.cons.inj (List.cons.inj heq).2
      obtain rfl : width = width' := hwidths _ he _ he' hletter
      have hlength := (Json.length_hexDigits (hpos _ he) hlt).trans
        (Json.length_hexDigits (hpos _ he) hlt').symm
      obtain ⟨hdigits, hr⟩ := List.append_inj hrest hlength
      have hcode : c.toNat = c'.toNat :=
        (isHex_hexDigits width _).unique (hdigits ▸ isHex_hexDigits width _)
      exact ⟨Char.toNat_inj.1 hcode, hr⟩

theorem flatMap_quoteChar_inj (hd : d = '\'' ∨ d = '"') {cs cs' : List Char}
    (h : cs.flatMap (quoteChar d) = cs'.flatMap (quoteChar d)) : cs = cs' := by
  have hne : ∀ c r, quoteChar d c ++ r ≠ [] := fun c r =>
    List.append_ne_nil_of_left_ne_nil (quotes_quoteChar d c).ne_nil r
  induction cs generalizing cs' with
  | nil =>
    cases cs' with
    | nil => rfl
    | cons c' cs' => exact absurd h.symm (hne _ _)
  | cons c cs ih =>
    cases cs' with
    | nil => exact absurd h (hne _ _)
    | cons c' cs' =>
      obtain ⟨rfl, hrest⟩ := (quotes_quoteChar d c).unique hd (quotes_quoteChar d c') h
      rw [ih hrest]

theorem delimiter_eq (cs : List Char) : delimiter cs = '\'' ∨ delimiter cs = '"' := by
  unfold delimiter
  split
  · exact Or.inr rfl
  · exact Or.inl rfl

theorem toList_quote (s : String) : (quote s).toList = delimiter s.toList ::
    (s.toList.flatMap (quoteChar (delimiter s.toList)) ++ [delimiter s.toList]) :=
  String.toList_ofList

theorem quote_inj {s t : String} (h : quote s = quote t) : s = t := by
  have hlist := congrArg String.toList h
  rw [toList_quote, toList_quote] at hlist
  obtain ⟨hd, hrest⟩ := List.cons.inj hlist
  rw [← hd] at hrest
  have hcs := flatMap_quoteChar_inj (delimiter_eq _) (List.append_cancel_right hrest)
  exact String.toList_inj.1 hcs

theorem newline_not_mem_quote (s : String) : '\n' ∉ (quote s).toList := by
  have hd : delimiter s.toList ≠ '\n' := by
    rcases delimiter_eq s.toList with h | h <;> rw [h] <;> decide
  rw [toList_quote]
  simp only [List.mem_cons, List.mem_append, List.mem_flatMap, List.not_mem_nil, or_false, not_or]
  refine ⟨hd.symm, ?_, hd.symm⟩
  rintro ⟨c, -, hc⟩
  exact (quotes_quoteChar _ c).newline_not_mem hd hc

end TemplateScript.Text
