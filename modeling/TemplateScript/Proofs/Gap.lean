import TemplateScript.Token.Piece

/-!
# Gaps between tokens

What may stand between two tokens, said without the scanner: layout, comments and, as long as no open
tag was seen, characters that begin nothing. A comment ends where it does because of what follows it,
so a gap is judged together with the rest of the text.
-/

namespace TemplateScript

def closingMark : List Char := ['*', '/']

structure IsTemplate (c : Char) (r : List Char) : Prop where
  layout : Piece.isLayout c = false
  punctuation : Piece.punctuation? c = none
  digit : Piece.isDigit c = false
  cased : Text.isCased c = false
  tag : ¬ Piece.openTag <+: c :: r

/-- A gap ahead of the rest of a text; `ahead` says that no open tag came earlier. -/
inductive Gap (ahead : Prop) : List Char → List Char → Prop
  | nil (rest : List Char) : Gap ahead [] rest
  | layout {c : Char} {g rest : List Char} : Piece.isLayout c = true → Gap ahead g rest →
      Gap ahead (c :: g) rest
  | lineComment {u g rest : List Char} : '\n' ∉ u → (∀ c ∈ (g ++ rest).head?, c = '\n') →
      Gap ahead g rest → Gap ahead ('/' :: '/' :: u ++ g) rest
  | blockComment {u g rest : List Char} : ¬ closingMark <:+: u ++ ['*'] → Gap ahead g rest →
      Gap ahead ('/' :: '*' :: (u ++ closingMark) ++ g) rest
  | openComment {u : List Char} : ¬ closingMark <:+: u → Gap ahead ('/' :: '*' :: u) []
  | template {c : Char} {g rest : List Char} : ahead → IsTemplate c (g ++ rest) →
      Gap ahead g rest → Gap ahead (c :: g) rest

namespace Piece

theorem commentBody?_some {cs body rest : List Char} (h : commentBody? cs = some (body, rest)) :
    ∃ u, body = u ++ closingMark ∧ ¬ closingMark <:+: u ++ ['*'] := by
  fun_induction commentBody? cs generalizing body with
  | case1 => cases h
  | case2 r =>
    cases h
    exact ⟨[], rfl, by decide⟩
  | case3 c r hne ih =>
    obtain ⟨⟨b, t⟩, hb, he⟩ := Option.map_eq_some_iff.1 h
    cases he
    obtain ⟨u, rfl, hu⟩ := ih hb
    refine ⟨c :: u, rfl, fun hin => ?_⟩
    rcases List.infix_cons_iff.1 hin with hp | hin
    · -- The mark would begin here, and then the comment would have ended here.
      obtain ⟨rfl, hslash⟩ := List.cons_prefix_cons.1 hp
      have hr := commentBody?_append hb
      cases u with
      | nil => exact absurd hslash (by decide)
      | cons d u =>
        obtain ⟨rfl, -⟩ := List.cons_prefix_cons.1 hslash
        exact hne _ rfl hr.symm
    · exact hu hin

theorem commentBody?_none {cs : List Char} (h : commentBody? cs = none) :
    ¬ closingMark <:+: cs := by
  fun_induction commentBody? cs with
  | case1 => decide
  | case2 r => cases h
  | case3 c r hne ih =>
    intro hin
    rcases List.infix_cons_iff.1 hin with hp | hin
    · obtain ⟨rfl, hslash⟩ := List.cons_prefix_cons.1 hp
      obtain ⟨t, ht⟩ := hslash
      exact hne t rfl ht.symm
    · exact ih (Option.map_eq_none_iff.1 h) hin

/-! ## What a cut is -/

def IsWord (k : Token.Kind) : Prop := k = .identifier ∨ k = .letWord ∨ k = .constWord

/-- The text of a token with what follows it: numbers and words are as long as they can be, and a
slash does not begin a comment. -/
structure IsToken (k : Token.Kind) (w rest : List Char) : Prop where
  kind : k ≠ .endMark
  number : k = .number → (∀ c ∈ w, isDigit c = true) ∧ ∀ c ∈ rest.head?, isDigit c = false
  word : IsWord k → (∀ c ∈ w, Text.isCased c = true) ∧ ∀ c ∈ rest.head?, Text.isCased c = false
  slash : w = ['/'] → ∀ c ∈ rest.head?, c ≠ '/' ∧ c ≠ '*'

def Fits (region : Region) : Piece → List Char → List Char → Prop
  | token k, w, rest => IsToken k w rest
  | lineComment, w, rest =>
    ∃ u, w = '/' :: '/' :: u ∧ '\n' ∉ u ∧ ∀ c ∈ rest.head?, c = '\n'
  | blockComment _ true, w, _ =>
    ∃ u, w = '/' :: '*' :: (u ++ closingMark) ∧ ¬ closingMark <:+: u ++ ['*']
  | blockComment _ false, w, rest =>
    ∃ u, w = '/' :: '*' :: u ∧ ¬ closingMark <:+: u ∧ rest = []
  | layout, w, _ => ∃ c, w = [c] ∧ isLayout c = true
  | template, w, rest => region = .ahead ∧ ∃ c, w = [c] ∧ IsTemplate c rest
  | unrecognized, w, rest => (∃ c, w = [c]) ∧ IsToken .unknown w rest

theorem head_dropWhile {p : Char → Bool} (cs : List Char) :
    ∀ c ∈ (cs.dropWhile p).head?, p c = false := by
  intro c hc
  have := List.head?_dropWhile_not p cs
  simpa [Option.mem_def.1 hc] using this

theorem mem_takeWhile {p : Char → Bool} : ∀ {cs : List Char}, ∀ c ∈ cs.takeWhile p, p c = true := by
  intro cs
  exact List.all_eq_true.1 List.all_takeWhile

theorem punctuation?_kind {c : Char} {k : Token.Kind} (h : punctuation? c = some k) :
    k ≠ .endMark ∧ k ≠ .number ∧ ¬ IsWord k := by
  unfold punctuation? at h
  split at h <;> cases h <;> simp [IsWord]

theorem isWord_word (w : List Char) : IsWord (word w) := by
  unfold word
  split
  · exact Or.inr (Or.inl rfl)
  split
  · exact Or.inr (Or.inr rfl)
  · exact Or.inl rfl

variable {region : Region} {c : Char} {r : List Char}

theorem takeWhile_ne_slash {p : Char → Bool} (hc : p c = true) (hp : p '/' = false) :
    (c :: r).takeWhile p ≠ ['/'] := by
  intro h
  rw [List.takeWhile_cons_of_pos hc] at h
  have : c = '/' := List.head_eq_of_cons_eq h
  rw [this, hp] at hc
  cases hc

theorem nextPlain_fits (hslash : c = '/' → ∀ d ∈ r.head?, d ≠ '/' ∧ d ≠ '*')
    (htag : region = .ahead → ¬ openTag <+: c :: r) :
    Fits region (nextPlain region c r).piece (nextPlain region c r).text
      (nextPlain region c r).rest := by
  unfold nextPlain
  cases hk : punctuation? c with
  | some k =>
    obtain ⟨he, hn, hw⟩ := punctuation?_kind hk
    exact ⟨he, fun h => absurd h hn, fun h => absurd h hw,
      fun h => hslash (List.head_eq_of_cons_eq h)⟩
  | none =>
    by_cases hd : isDigit c = true
    · have hno : ¬ IsWord .number := by simp [IsWord]
      simp only [hd, if_true]
      exact ⟨by simp, fun _ => ⟨mem_takeWhile, head_dropWhile _⟩, fun h => absurd h hno,
        fun h => absurd h (takeWhile_ne_slash hd (by decide))⟩
    by_cases ha : Text.isCased c = true
    · have hno : word ((c :: r).takeWhile Text.isCased) ≠ .endMark ∧
          word ((c :: r).takeWhile Text.isCased) ≠ .number := by
        rcases isWord_word ((c :: r).takeWhile Text.isCased) with h | h | h <;> simp [h]
      simp only [hd, ha, if_true]
      exact ⟨hno.1, fun h => absurd h hno.2, fun _ => ⟨mem_takeWhile, head_dropWhile _⟩,
        fun h => absurd h (takeWhile_ne_slash ha (by decide))⟩
    by_cases hl : isLayout c = true
    · simp only [hd, ha, hl, if_true]
      exact ⟨c, rfl, hl⟩
    by_cases hr : region = .ahead
    · simp only [hd, ha, hl, hr, if_true]
      refine ⟨rfl, c, rfl, ?_⟩
      exact ⟨by simpa using hl, hk, by simpa using hd, by simpa using ha, htag hr⟩
    · have hno : ¬ IsWord .unknown := by simp [IsWord]
      simp only [hd, ha, hl, hr, if_false]
      refine ⟨⟨c, rfl⟩, by simp, fun h => absurd h (by simp), fun h => absurd h hno, fun h => ?_⟩
      exact hslash (List.head_eq_of_cons_eq h)

theorem lineComment_fits (r : List Char) :
    Fits region .lineComment (('/' :: '/' :: r).takeWhile (· ≠ '\n'))
      (('/' :: '/' :: r).dropWhile (· ≠ '\n')) := by
  have hu : ('/' :: '/' :: r).takeWhile (· ≠ '\n') = '/' :: '/' :: r.takeWhile (· ≠ '\n') := by
    simp
  refine ⟨r.takeWhile (· ≠ '\n'), hu, fun hm => ?_, ?_⟩
  · have := mem_takeWhile _ hm
    simp at this
  · simpa using head_dropWhile (p := (· ≠ '\n')) ('/' :: '/' :: r)

theorem blockCommentOf_fits (r : List Char) :
    Fits region (blockCommentOf r).piece (blockCommentOf r).text (blockCommentOf r).rest := by
  unfold blockCommentOf
  cases h : commentBody? r with
  | none => exact ⟨r, rfl, commentBody?_none h, rfl⟩
  | some p =>
    obtain ⟨u, hp, hu⟩ := commentBody?_some (show commentBody? r = some (p.1, p.2) from h)
    exact ⟨u, by rw [← hp], hu⟩

theorem tag_fits {k : Token.Kind} {w rest : List Char} (hk : k = .openTag ∨ k = .closeTag)
    (hw : w ≠ ['/']) : Fits region (.token k) w rest := by
  refine ⟨?_, fun h => ?_, fun h => ?_, fun h => absurd h hw⟩ <;> rcases hk with rfl | rfl
  all_goals simp_all [IsWord]

theorem next_fits (region : Region) (c : Char) (r : List Char) :
    Fits region (next region c r).piece (next region c r).text (next region c r).rest := by
  unfold next
  by_cases hline : c = '/' ∧ r.head? = some '/'
  · rw [if_pos hline]
    obtain ⟨rfl, hr⟩ := hline
    obtain ⟨t, rfl⟩ := List.head?_eq_some_iff.1 hr
    exact lineComment_fits t
  rw [if_neg hline]
  by_cases hblock : c = '/' ∧ r.head? = some '*'
  · rw [if_pos hblock]
    exact blockCommentOf_fits _
  rw [if_neg hblock]
  by_cases hopen : region = .ahead ∧ openTag.isPrefixOf (c :: r) = true
  · rw [if_pos hopen]
    have hw : openTag ≠ ['/'] := by decide
    exact tag_fits (Or.inl rfl) hw
  rw [if_neg hopen]
  by_cases hclose : region = .inside ∧ closeTag.isPrefixOf (c :: r) = true
  · rw [if_pos hclose]
    have hw : closeTag ≠ ['/'] := by decide
    exact tag_fits (Or.inr rfl) hw
  rw [if_neg hclose]
  apply nextPlain_fits
  · rintro rfl d hd
    constructor
    · rintro rfl
      exact hline ⟨rfl, hd⟩
    · rintro rfl
      exact hblock ⟨rfl, hd⟩
  · intro hr hp
    exact hopen ⟨hr, List.isPrefixOf_iff_prefix.2 hp⟩

/-- A cut is a comment, a tag in the region that it ends, or what its first character begins. -/
theorem next_cases (region : Region) (c : Char) (r : List Char) :
    ((next region c r).piece = .lineComment ∨
        ∃ slashFirst closed, (next region c r).piece = .blockComment slashFirst closed) ∨
      (region = .ahead ∧ (next region c r).piece = .token .openTag ∧
        (next region c r).text = openTag) ∨
      (region = .inside ∧ (next region c r).piece = .token .closeTag ∧
        (next region c r).text = closeTag) ∨
      next region c r = nextPlain region c r := by
  unfold next
  split
  · exact Or.inl (Or.inl rfl)
  split
  · unfold blockCommentOf
    split <;> exact Or.inl (Or.inr ⟨_, _, rfl⟩)
  split
  · rename_i hopen
    exact Or.inr (Or.inl ⟨hopen.1, rfl, rfl⟩)
  split
  · rename_i hclose
    exact Or.inr (Or.inr (Or.inl ⟨hclose.1, rfl, rfl⟩))
  · exact Or.inr (Or.inr (Or.inr rfl))

end Piece

end TemplateScript
