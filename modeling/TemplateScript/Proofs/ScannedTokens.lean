import TemplateScript.Proofs.NumeralReadBack
import TemplateScript.Proofs.ScanSteps

/-!
# The texts of scanned tokens

A scanned token has the text of its kind where the kind has one, and a number is spelled in ASCII
digits. So what a scan gives as a number is never negative.
-/

namespace TemplateScript

namespace Token.Kind

def spelling? : Token.Kind → Option String
  | openTag => some "<trans>"
  | closeTag => some "</trans>"
  | letWord => some "let"
  | constWord => some "const"
  | assign => some "="
  | comma => some ","
  | dot => some "."
  | colon => some ":"
  | semicolon => some ";"
  | openParen => some "("
  | closeParen => some ")"
  | openBrace => some "\x7b"
  | closeBrace => some "\x7d"
  | openBracket => some "["
  | closeBracket => some "]"
  | number | identifier | operator | endMark | unknown => none

end Token.Kind

def Token.Spelled (t : Token) : Prop := ∀ s ∈ t.kind.spelling?, t.text = s

namespace Piece

variable {region : Region} {c : Char} {r : List Char} {k : Token.Kind}

theorem punctuation?_spelling {s : String} (hk : punctuation? c = some k)
    (hs : k.spelling? = some s) : String.ofList [c] = s := by
  unfold punctuation? at hk
  split at hk
  all_goals cases hk
  all_goals first | exact Option.some.inj hs | cases hs

theorem word_spelling {w : List Char} {s : String} (hs : (word w).spelling? = some s) :
    String.ofList w = s := by
  unfold word at hs
  split at hs
  · rename_i hlet
    rw [hlet, String.ofList_toList]
    exact Option.some.inj hs
  split at hs
  · rename_i hconst
    rw [hconst, String.ofList_toList]
    exact Option.some.inj hs
  · cases hs

theorem nextPlain_spelling {s : String} (hk : (nextPlain region c r).piece = .token k)
    (hs : k.spelling? = some s) : String.ofList (nextPlain region c r).text = s := by
  unfold nextPlain at hk ⊢
  cases hp : punctuation? c with
  | some k' =>
    simp only [hp, Piece.token.injEq] at hk ⊢
    subst hk
    exact punctuation?_spelling hp hs
  | none =>
    simp only [hp] at hk ⊢
    by_cases hd : isDigit c = true
    · simp only [hd, if_true] at hk
      cases hk
      cases hs
    by_cases ha : Text.isCased c = true
    · simp only [hd, ha, if_true] at hk ⊢
      cases hk
      exact word_spelling hs
    by_cases hl : isLayout c = true
    · simp only [hd, ha, hl, if_true] at hk
      cases hk
    by_cases hr : region = .ahead
    · simp only [hd, ha, hl, hr, if_true] at hk
      cases hk
    · simp only [hd, ha, hl, hr, if_false] at hk
      cases hk

theorem next_spelling {s : String} (hk : (next region c r).piece = .token k)
    (hs : k.spelling? = some s) : String.ofList (next region c r).text = s := by
  rcases next_cases region c r with (hp | ⟨_, _, hp⟩) | ⟨-, hp, ht⟩ | ⟨-, hp, ht⟩ | hplain
  · cases hp.symm.trans hk
  · cases hp.symm.trans hk
  · cases hp.symm.trans hk
    rw [ht, ← Option.some.inj hs]
    exact String.ofList_toList
  · cases hp.symm.trans hk
    rw [ht, ← Option.some.inj hs]
    exact String.ofList_toList
  · rw [hplain] at hk ⊢
    exact nextPlain_spelling hk hs

end Piece

namespace Scan

/-- What holds of the token of each piece, and of the marks that end a scan, holds of all tokens. -/
theorem ofText_forall {P : Token → Prop} (hend : ∀ l, P (.endAt l)) (habort : ∀ l, P (.abortAt l))
    (hunknown : ∀ text s, P ⟨.unknown, text, s⟩)
    (hpiece : ∀ region c r k s, (Piece.next region c r).piece = .token k →
      P ⟨k, String.ofList (Piece.next region c r).text, s⟩)
    (line? : Int → Option String) (region : Region) (l : Location) (cs : List Char) :
    ∀ t ∈ (ofText line? region l cs).tokens, P t := by
  induction region, cs using piece_induction generalizing l with
  | nil region =>
    rw [ofText_nil]
    intro t ht
    obtain rfl := List.mem_singleton.1 ht
    exact hend l
  | unrecognized region c r h =>
    rw [ofText_unrecognized h]
    intro t ht
    simp only [abort, List.mem_cons, List.not_mem_nil, or_false] at ht
    rcases ht with rfl | rfl
    · exact hunknown _ _
    · exact habort _
  | cons region c r h ih =>
    rw [ofText_cons h, withPiece_tokens]
    intro t ht
    rcases List.mem_append.1 ht with ht | ht
    · unfold pieceTokens at ht
      split at ht
      · rename_i kind hk
        obtain rfl := List.mem_singleton.1 ht
        exact hpiece region c r kind _ hk
      · cases ht
    · exact ih _ t ht

end Scan

section
variable (source : String) (file : Option String)

theorem scan_spelled : ∀ t ∈ (scan source file).tokens, t.Spelled := by
  apply Scan.ofText_forall
  · intro l s hs
    cases hs
  · intro l s hs
    cases hs
  · intro text span s hs
    cases hs
  · intro region c r k span hk s hs
    exact Piece.next_spelling hk hs

theorem scan_digits :
    ∀ t ∈ (scan source file).tokens, t.kind = .number → ∀ c ∈ t.text.toList, c.isDigit = true := by
  apply Scan.ofText_forall
  · intro l h
    cases h
  · intro l h
    cases h
  · intro text span h
    cases h
  · intro region c r k span hk hnumber
    have hfits := Piece.next_fits region c r
    rw [hk] at hfits
    rw [String.toList_ofList]
    intro d hd
    have hdigit := (hfits.number hnumber).1 d hd
    simpa [Piece.isDigit, Char.isDigit, Char.le_def] using hdigit

end

theorem Numeral.nonneg_of_isDigit {s : String} (hd : ∀ c ∈ s.toList, c.isDigit = true) {n : Int}
    (h : read? s = some n) : 0 ≤ n := by
  unfold read? at h
  rw [trim_of_isDigit hd] at h
  -- A sign is no digit, so the signed cases do not arise.
  split at h
  · rename_i r hr
    exact absurd (hd '-' (by simp [hr])) (by decide)
  · rename_i r hr
    exact absurd (hd '+' (by simp [hr])) (by decide)
  · obtain ⟨k, -, rfl⟩ := Option.map_eq_some_iff.1 h
    exact Int.natCast_nonneg k

end TemplateScript
