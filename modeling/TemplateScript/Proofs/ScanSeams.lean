import TemplateScript.Proofs.ScanSteps

/-!
# Texts around a script

Text ahead of an open tag that neither holds a tag nor opens a comment is cut into the same pieces
whether the tag follows or not, and so is a script that closes, whatever follows it.
-/

namespace TemplateScript

structure IsTemplateText (p : List Char) : Prop where
  tag : ¬ Piece.openTag <:+: p
  line : ¬ ['/', '/'] <:+: p
  block : ¬ ['/', '*'] <:+: p

theorem IsTemplateText.of_suffix {p t : List Char} (h : IsTemplateText p) (ht : t <:+ p) :
    IsTemplateText t where
  tag hi := h.tag (hi.trans ht.isInfix)
  line hi := h.line (hi.trans ht.isInfix)
  block hi := h.block (hi.trans ht.isInfix)

namespace Piece

def Cut.append (k : Cut) (q : List Char) : Cut := { k with rest := k.rest ++ q }

theorem run_append {p : Char → Bool} {w q : List Char} (f : List Char → Piece)
    (h : w.dropWhile p ≠ [] ∨ q.takeWhile p = []) :
    run p f (w ++ q) = (run p f w).append q := by
  have htake : (w ++ q).takeWhile p = w.takeWhile p := by
    rw [List.takeWhile_append]
    split
    · rename_i hlen
      have hall : w.takeWhile p = w := (List.takeWhile_prefix p).eq_of_length hlen
      have hnone : w.dropWhile p = [] := by
        have hboth := List.takeWhile_append_dropWhile (p := p) (l := w)
        rw [hall] at hboth
        exact List.append_right_eq_self.1 hboth
      have hq := h.resolve_left fun hne => hne hnone
      rw [hq, List.append_nil, hall]
    · rfl
  have hdrop : (w ++ q).dropWhile p = w.dropWhile p ++ q := by
    have hboth : (w ++ q).takeWhile p ++ (w ++ q).dropWhile p
        = w.takeWhile p ++ (w.dropWhile p ++ q) := by
      rw [List.takeWhile_append_dropWhile, ← List.append_assoc, List.takeWhile_append_dropWhile]
    rw [htake] at hboth
    exact List.append_cancel_left hboth
  rw [run, run, Cut.append, htake, hdrop]

variable {region : Region} {c : Char} {r q : List Char}

theorem nextPlain_append (h : (nextPlain region c r).rest ≠ [] ∨
    q.takeWhile isDigit = [] ∧ q.takeWhile Text.isCased = []) :
    nextPlain region c (r ++ q) = (nextPlain region c r).append q := by
  unfold nextPlain at h ⊢
  cases hk : punctuation? c with
  | some k => rfl
  | none =>
    rw [hk] at h
    by_cases hd : isDigit c = true
    · simp only [hd, if_true] at h ⊢
      exact run_append (w := c :: r) _ (h.imp id And.left)
    by_cases ha : Text.isCased c = true
    · simp only [hd, ha, Bool.false_eq_true, if_true, if_false] at h ⊢
      exact run_append (w := c :: r) _ (h.imp id And.right)
    by_cases hl : isLayout c = true
    · simp only [hd, ha, hl, if_true]
      rfl
    by_cases hr : region = .ahead
    · simp only [hd, ha, hl, hr, if_true]
      rfl
    · simp only [hd, ha, hl, hr, if_false]
      rfl

theorem commentBody?_append_right {cs body rest : List Char}
    (h : commentBody? cs = some (body, rest)) (q : List Char) :
    commentBody? (cs ++ q) = some (body, rest ++ q) := by
  fun_induction commentBody? cs generalizing body with
  | case1 => cases h
  | case2 r =>
    cases h
    rfl
  | case3 c r hno ih =>
    obtain ⟨⟨b, t⟩, hb, he⟩ := Option.map_eq_some_iff.1 h
    simp only [Prod.mk.injEq] at he
    obtain ⟨rfl, rfl⟩ := he
    have hno' : ∀ u, c = '*' → r ++ q = '/' :: u → False := by
      intro u hc hr
      cases r with
      | nil => cases hb
      | cons d r =>
        obtain ⟨rfl, -⟩ := List.cons.inj hr
        exact hno r hc rfl
    rw [List.cons_append, commentBody?]
    · rw [ih hb]
      rfl
    · exact hno'

theorem blockCommentOf_append (h : commentBody? r ≠ none) (q : List Char) :
    blockCommentOf (r ++ q) = (blockCommentOf r).append q := by
  obtain ⟨⟨body, rest⟩, hb⟩ := Option.ne_none_iff_exists'.1 h
  have hhead : (r ++ q).head? = r.head? := by
    cases r with
    | nil => cases hb
    | cons d r => rfl
  unfold blockCommentOf
  simp only [commentBody?_append_right hb q, hb, hhead]
  rfl

theorem commentBody?_of_rest (h : (blockCommentOf r).rest ≠ []) : commentBody? r ≠ none := by
  intro hb
  rw [blockCommentOf, hb] at h
  exact h rfl

theorem commentBody?_of_closed (h : ∀ slashFirst, (blockCommentOf r).piece ≠
    .blockComment slashFirst false) : commentBody? r ≠ none := by
  intro hb
  rw [blockCommentOf, hb] at h
  exact h _ rfl

theorem isPrefixOf_append {t w : List Char} (h : t.length ≤ w.length) :
    t.isPrefixOf (w ++ q) = t.isPrefixOf w := by
  rw [Bool.eq_iff_iff, List.isPrefixOf_iff_prefix, List.isPrefixOf_iff_prefix]
  constructor
  · intro ht
    exact List.prefix_of_prefix_length_le ht (List.prefix_append w q) h
  · intro ht
    exact ht.trans (List.prefix_append w q)

theorem punctuation?_untagged {c : Char} {k : Token.Kind} (h : punctuation? c = some k) :
    k ≠ .openTag ∧ k ≠ .closeTag := by
  unfold punctuation? at h
  split at h <;> cases h <;> simp

theorem word_untagged (w : List Char) : word w ≠ .openTag ∧ word w ≠ .closeTag := by
  rcases isWord_word w with h | h | h <;> simp [h]

def IsPlain : Piece → Prop
  | .token k => k ≠ .openTag ∧ k ≠ .closeTag
  | .lineComment | .blockComment .. => False
  | .layout | .template | .unrecognized => True

theorem nextPlain_isPlain (region : Region) (c : Char) (r : List Char) :
    (nextPlain region c r).piece.IsPlain := by
  unfold nextPlain
  split
  · rename_i hk
    exact punctuation?_untagged hk
  split
  · simp [run, IsPlain]
  split
  · exact word_untagged _
  split
  · trivial
  split <;> trivial

theorem length_closeTag : closeTag.length = 8 := by decide

theorem length_openTag_le : openTag.length ≤ closeTag.length := by decide

structure EndsRuns (q : List Char) : Prop where
  digits : q.takeWhile isDigit = []
  cased : q.takeWhile Text.isCased = []
  line : q.takeWhile (· ≠ '\n') = []

/-- What is at the front of a text is there with more text behind, if that makes no comment and no tag
of it, and it has ended. -/
theorem next_append_of (hhead : ∀ d ∈ ['/', '*'], (r ++ q).head? = some d ↔ r.head? = some d)
    (htag : ∀ t ∈ [openTag, closeTag], t.isPrefixOf (c :: (r ++ q)) = t.isPrefixOf (c :: r))
    (h : (next region c r).rest ≠ [] ∨ (next region c r).piece = .token .closeTag ∨
      EndsRuns q ∧ ∀ slashFirst, (next region c r).piece ≠ .blockComment slashFirst false) :
    next region c (r ++ q) = (next region c r).append q := by
  have htagged : ∀ t : List Char, t.isPrefixOf (c :: r) = true →
      (c :: (r ++ q)).drop t.length = (c :: r).drop t.length ++ q := by
    intro t ht
    have hlength : t.length ≤ (c :: r).length := (List.isPrefixOf_iff_prefix.1 ht).length_le
    exact List.drop_append_of_le_length hlength
  unfold next at h ⊢
  simp only [hhead '/' (by simp), hhead '*' (by simp), htag openTag (by simp),
    htag closeTag (by simp)]
  by_cases hl : c = '/' ∧ r.head? = some '/'
  · rw [if_pos hl] at h ⊢
    rw [if_pos hl]
    refine run_append (w := c :: r) _ ?_
    rcases h with h | h | h
    · exact Or.inl h
    · cases h
    · exact Or.inr h.1.line
  rw [if_neg hl] at h ⊢
  rw [if_neg hl]
  by_cases hb : c = '/' ∧ r.head? = some '*'
  · rw [if_pos hb] at h ⊢
    rw [if_pos hb]
    have htail : (r ++ q).tail = r.tail ++ q := by
      cases r with
      | nil => cases hb.2
      | cons d r => rfl
    rw [htail]
    refine blockCommentOf_append ?_ q
    rcases h with h | h | h
    · exact commentBody?_of_rest h
    · unfold blockCommentOf at h
      split at h <;> cases h
    · exact commentBody?_of_closed h.2
  rw [if_neg hb] at h ⊢
  rw [if_neg hb]
  by_cases ho : region = .ahead ∧ openTag.isPrefixOf (c :: r) = true
  · rw [if_pos ho, if_pos ho, Cut.append, htagged _ ho.2]
  rw [if_neg ho] at h ⊢
  rw [if_neg ho]
  by_cases hc : region = .inside ∧ closeTag.isPrefixOf (c :: r) = true
  · rw [if_pos hc, if_pos hc, Cut.append, htagged _ hc.2]
  rw [if_neg hc] at h ⊢
  rw [if_neg hc]
  refine nextPlain_append ?_
  rcases h with h | h | h
  · exact Or.inl h
  · have hplain := nextPlain_isPlain region c r
    rw [h] at hplain
    exact absurd rfl hplain.2
  · exact Or.inr ⟨h.1.digits, h.1.cased⟩

/-- The piece at the front of a text that goes on behind it, or that is the close tag, is there with
any text behind. -/
theorem next_append (hlen : closeTag.length ≤ (c :: r).length)
    (h : (next region c r).rest ≠ [] ∨ (next region c r).piece = .token .closeTag) :
    next region c (r ++ q) = (next region c r).append q := by
  have hhead : (r ++ q).head? = r.head? := by
    cases r with
    | nil =>
      rw [length_closeTag] at hlen
      exact absurd hlen (by simp)
    | cons d r => rfl
  refine next_append_of (fun d _ => by rw [hhead]) (fun t ht => ?_) (h.imp_right Or.inl)
  refine isPrefixOf_append (w := c :: r) (Nat.le_trans ?_ hlen)
  simp only [List.mem_cons, List.not_mem_nil, or_false] at ht
  rcases ht with rfl | rfl
  · exact length_openTag_le
  · exact Nat.le_refl _

theorem next_closeTag (h : (next region c r).piece = .token .closeTag) :
    closeTag <+: c :: r := by
  rcases next_cases region c r with (hp | ⟨_, _, hp⟩) | ⟨-, hp, -⟩ | ⟨-, -, htext⟩ | hplain
  · cases hp.symm.trans h
  · cases hp.symm.trans h
  · cases hp.symm.trans h
  · rw [← htext]
    exact ⟨_, (next_of region c r).1⟩
  · have hp := nextPlain_isPlain region c r
    rw [← hplain, h] at hp
    exact absurd rfl hp.2

/-! ## Template text -/

theorem openTag_not_within {u t : List Char} (hu : IsTemplateText u) (hne : u ≠ []) :
    ¬ openTag <+: u ++ (openTag ++ t) := by
  intro h
  by_cases hlen : openTag.length ≤ u.length
  · exact hu.tag (List.prefix_of_prefix_length_le h (List.prefix_append u _) hlen).isInfix
  -- The text would be a part of the tag, and the tag would begin again inside itself.
  have hpart : u <+: openTag :=
    List.prefix_of_prefix_length_le (List.prefix_append u _) h (by omega)
  obtain ⟨v, hv⟩ := hpart
  obtain ⟨c, u, rfl⟩ := List.exists_cons_of_ne_nil hne
  have hbehind : v <+: openTag ++ t := by
    refine (List.prefix_append_right_inj (c :: u)).1 ?_
    rw [hv]
    exact h
  cases v with
  | nil =>
    rw [List.append_nil] at hv
    rw [hv] at hlen
    exact hlen (Nat.le_refl _)
  | cons d v =>
    have hd : d = '<' := (List.cons_prefix_cons.1 hbehind).1
    have hmem : d ∈ openTag.tail := by
      rw [← hv]
      simp
    rw [hd] at hmem
    exact absurd hmem (by decide)

theorem next_template (h : IsTemplateText (c :: r)) (t : List Char) :
    next .ahead c (r ++ (openTag ++ t)) = (nextPlain .ahead c r).append (openTag ++ t) := by
  have hline : ¬ (c = '/' ∧ (r ++ (openTag ++ t)).head? = some '/') := by
    rintro ⟨rfl, hr⟩
    cases r with
    | nil => cases hr
    | cons d r =>
      obtain rfl : d = '/' := Option.some.inj hr
      exact h.line ⟨[], r, rfl⟩
  have hblock : ¬ (c = '/' ∧ (r ++ (openTag ++ t)).head? = some '*') := by
    rintro ⟨rfl, hr⟩
    cases r with
    | nil => cases hr
    | cons d r =>
      obtain rfl : d = '*' := Option.some.inj hr
      exact h.block ⟨[], r, rfl⟩
  have hopen : ¬ (Region.ahead = .ahead ∧ openTag.isPrefixOf (c :: (r ++ (openTag ++ t))) = true) :=
    fun ho => openTag_not_within h (by simp) (List.isPrefixOf_iff_prefix.1 ho.2)
  have hclose : ¬ (Region.ahead = .inside ∧
      closeTag.isPrefixOf (c :: (r ++ (openTag ++ t))) = true) := fun hc => nomatch hc.1
  rw [next, if_neg hline, if_neg hblock, if_neg hopen, if_neg hclose]
  have hdigit : (openTag ++ t).takeWhile isDigit = [] := List.takeWhile_cons_of_neg (by decide)
  have hcased : (openTag ++ t).takeWhile Text.isCased = [] :=
    List.takeWhile_cons_of_neg (by decide)
  exact nextPlain_append (Or.inr ⟨hdigit, hcased⟩)

theorem nextPlain_recognized : (nextPlain .ahead c r).piece ≠ .unrecognized := by
  intro h
  unfold nextPlain at h
  split at h
  · cases h
  split at h
  · cases h
  split at h
  · cases h
  split at h
  · cases h
  · cases h

end Piece

/-! ## Scans -/

namespace Scan

def prepend (ts : List Token) (s : Scan) : Scan := { s with tokens := ts ++ s.tokens }

theorem prepend_prepend (ts us : List Token) (s : Scan) :
    (s.prepend us).prepend ts = s.prepend (ts ++ us) := by
  simp only [prepend, List.append_assoc]

section
variable {p : Piece}

theorem regionAfter_plain (hp : p.IsPlain) (region : Region) :
    Piece.regionAfter region p = region := by
  unfold Piece.regionAfter
  split
  · exact absurd rfl hp.1
  · exact absurd rfl hp.2
  · rfl

theorem withPiece_plain (hp : p.IsPlain) (line? : Int → Option String) (l : Location)
    (text : List Char) (s : Scan) :
    s.withPiece line? l p text = s.prepend (pieceTokens l p text) := by
  cases p with
  | blockComment => cases hp
  | lineComment => cases hp
  | _ => rfl

theorem pieceTokens_kind {l : Location} {text : List Char} {t : Token}
    (h : t ∈ pieceTokens l p text) : p = .token t.kind := by
  cases p with
  | token k =>
    obtain rfl := List.mem_singleton.1 h
    rfl
  | _ => cases h

end

/-- Template text only puts tokens other than an open tag ahead of those of a script. -/
theorem ofText_template (line? : Int → Option String) (t : List Char) (l : Location) :
    ∀ {p : List Char}, IsTemplateText p → ∃ before, (∀ u ∈ before, u.kind ≠ .openTag) ∧
      ofText line? .ahead l (p ++ (Piece.openTag ++ t))
        = (ofText line? .ahead (l.after p) (Piece.openTag ++ t)).prepend before
  | [], _ => ⟨[], by simp, rfl⟩
  | c :: r, h => by
    have hnext := Piece.next_template h t
    have hplain := Piece.nextPlain_isPlain .ahead c r
    have hcut := (Piece.nextPlain_of .ahead c r).1
    have hp : (Piece.next .ahead c (r ++ (Piece.openTag ++ t))).piece ≠ .unrecognized := by
      rw [hnext]
      exact Piece.nextPlain_recognized
    have hrest : IsTemplateText (Piece.nextPlain .ahead c r).rest := h.of_suffix ⟨_, hcut⟩
    obtain ⟨before, hbefore, hscan⟩ :=
      ofText_template line? t (l.after (Piece.nextPlain .ahead c r).text) hrest
    refine ⟨pieceTokens l (Piece.nextPlain .ahead c r).piece (Piece.nextPlain .ahead c r).text
      ++ before, fun u hu => ?_, ?_⟩
    · rcases List.mem_append.1 hu with hu | hu
      · rw [pieceTokens_kind hu] at hplain
        exact hplain.1
      · exact hbefore u hu
    · rw [List.cons_append, ofText_cons hp, hnext]
      simp only [Piece.Cut.append, regionAfter_plain hplain, withPiece_plain hplain]
      rw [hscan, prepend_prepend, ← Location.after_append, hcut]
  termination_by p => p.length
  decreasing_by exact (Piece.nextPlain_of .ahead c r).length_lt

/-- The tokens of a text that begin with those of its first piece, whatever stands behind it. -/
theorem ofText_append_tokens {region : Region} {c : Char} {r : List Char}
    (hp : (Piece.next region c r).piece ≠ .unrecognized)
    (hlen : Piece.closeTag.length ≤ (c :: r).length)
    (h : (Piece.next region c r).rest ≠ [] ∨ (Piece.next region c r).piece = .token .closeTag)
    (line? : Int → Option String) (l : Location) (q : List Char) :
    (ofText line? region l (c :: r ++ q)).tokens
      = pieceTokens l (Piece.next region c r).piece (Piece.next region c r).text
        ++ (ofText line? (Piece.regionAfter region (Piece.next region c r).piece)
            (l.after (Piece.next region c r).text) ((Piece.next region c r).rest ++ q)).tokens := by
  have hnext : Piece.next region c (r ++ q) = (Piece.next region c r).append q :=
    Piece.next_append hlen h
  have hp' : (Piece.next region c (r ++ q)).piece ≠ .unrecognized := by
    rw [hnext]
    exact hp
  rw [List.cons_append, ofText_cons hp', withPiece_tokens, hnext]
  rfl

def Closes (region : Region) (l : Location) (cs : List Char) : Prop :=
  ∃ ts c, (∀ t ∈ ts, t.kind ≠ .closeTag) ∧ c.kind = .closeTag ∧
    ∀ line? q, ∃ after, (ofText line? region l (cs ++ q)).tokens = ts ++ c :: after

theorem closes_cons {region : Region} {l : Location} {c : Char} {r : List Char}
    (hp : (Piece.next region c r).piece ≠ .unrecognized)
    (hclose : (Piece.next region c r).piece ≠ .token .closeTag)
    (hlen : Piece.closeTag.length ≤ (Piece.next region c r).rest.length)
    (h : Closes (Piece.regionAfter region (Piece.next region c r).piece)
      (l.after (Piece.next region c r).text) (Piece.next region c r).rest) :
    Closes region l (c :: r) := by
  obtain ⟨ts, d, hts, hd, hafter⟩ := h
  have hlen' : Piece.closeTag.length ≤ (c :: r).length :=
    Nat.le_trans hlen (Nat.le_of_lt (Piece.next_of region c r).length_lt)
  have hrest : (Piece.next region c r).rest ≠ [] := by
    intro hnil
    rw [hnil, Piece.length_closeTag] at hlen
    cases hlen
  refine ⟨pieceTokens l (Piece.next region c r).piece (Piece.next region c r).text ++ ts, d, ?_, hd,
    fun line? q => ?_⟩
  · intro t ht
    rcases List.mem_append.1 ht with ht | ht
    · intro hk
      rw [pieceTokens_kind ht, hk] at hclose
      exact hclose rfl
    · exact hts t ht
  · obtain ⟨after, ha⟩ := hafter line? q
    refine ⟨after, ?_⟩
    rw [ofText_append_tokens hp hlen' (Or.inl hrest), ha, List.append_assoc]

/-- Where a scan comes to a close tag, it does so with any text behind. -/
theorem closes_of_mem {line? : Int → Option String} {region : Region} {l : Location}
    {cs : List Char} (h : ∃ t ∈ (ofText line? region l cs).tokens, t.kind = .closeTag) :
    Piece.closeTag.length ≤ cs.length ∧ Closes region l cs := by
  obtain ⟨t, ht, hk⟩ := h
  induction region, cs using piece_induction generalizing l with
  | nil region =>
    rw [ofText_nil] at ht
    obtain rfl := List.mem_singleton.1 ht
    cases hk
  | unrecognized region c r hp =>
    rw [ofText_unrecognized hp] at ht
    rcases List.mem_cons.1 ht with rfl | ht
    · cases hk
    · obtain rfl := List.mem_singleton.1 ht
      cases hk
  | cons region c r hp ih =>
    by_cases hclose : (Piece.next region c r).piece = .token .closeTag
    · have hlen := (Piece.next_closeTag hclose).length_le
      refine ⟨hlen, [], ⟨.closeTag, String.ofList (Piece.next region c r).text,
        ⟨l, l.after (Piece.next region c r).text⟩⟩, by simp, rfl, fun line? q => ?_⟩
      rw [ofText_append_tokens hp hlen (Or.inr hclose), hclose]
      exact ⟨_, rfl⟩
    · rw [ofText_cons hp, withPiece_tokens] at ht
      have hlater := (List.mem_append.1 ht).resolve_left fun hfirst => by
        rw [pieceTokens_kind hfirst, hk] at hclose
        exact hclose rfl
      obtain ⟨hlen, hcloses⟩ := ih hlater
      exact ⟨Nat.le_trans hlen (Nat.le_of_lt (Piece.next_of region c r).length_lt),
        closes_cons hp hclose hlen hcloses⟩

/-- A script begins with the open tag. -/
theorem ofText_openTag (line? : Int → Option String) (l : Location) (r : List Char) :
    ofText line? .ahead l (Piece.openTag ++ r)
      = (ofText line? .inside (l.after Piece.openTag) r).withToken
          ⟨.openTag, "<trans>", ⟨l, l.after Piece.openTag⟩⟩ := by
  have hnext : Piece.next .ahead '<' (Piece.openTag.tail ++ r)
      = ⟨.token .openTag, Piece.openTag, r⟩ := by
    rfl
  have hp : (Piece.next .ahead '<' (Piece.openTag.tail ++ r)).piece ≠ .unrecognized := by
    rw [hnext]
    simp
  have hsplit : Piece.openTag ++ r = '<' :: (Piece.openTag.tail ++ r) := rfl
  rw [hsplit, ofText_cons hp, hnext]
  rfl

/-- A script that is open ends with the close tag. -/
theorem ofText_closeTag (line? : Int → Option String) (l : Location) (r : List Char) :
    ofText line? .inside l (Piece.closeTag ++ r)
      = (ofText line? .past (l.after Piece.closeTag) r).withToken
          ⟨.closeTag, "</trans>", ⟨l, l.after Piece.closeTag⟩⟩ := by
  have hnext : Piece.next .inside '<' (Piece.closeTag.tail ++ r)
      = ⟨.token .closeTag, Piece.closeTag, r⟩ := by
    rfl
  have hp : (Piece.next .inside '<' (Piece.closeTag.tail ++ r)).piece ≠ .unrecognized := by
    rw [hnext]
    simp
  have hsplit : Piece.closeTag ++ r = '<' :: (Piece.closeTag.tail ++ r) := rfl
  rw [hsplit, ofText_cons hp, hnext]
  rfl

end Scan

end TemplateScript
