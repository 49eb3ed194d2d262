import TemplateScript.Proofs.ScanSeams

/-!
# Scans of lexemes set apart by spaces

A lexeme is a kind and a text that is cut off as one token wherever a space, a tag or a sign follows
it. A text of lexemes with single spaces between them is scanned as these tokens.
-/

namespace TemplateScript

namespace Piece

def parts (d : Char) : Bool := !isDigit d && !Text.isCased d && d ≠ '/' && d ≠ '*'

def Parts (rest : List Char) : Prop := ∀ d ∈ rest.head?, parts d = true

theorem parts_iff {d : Char} : parts d = true ↔
    isDigit d = false ∧ Text.isCased d = false ∧ d ≠ '/' ∧ d ≠ '*' := by
  simp only [parts, ne_eq, Bool.and_eq_true, Bool.not_eq_true', decide_eq_true_eq, and_assoc]

theorem Parts.nil : Parts [] := fun d hd => by cases hd

theorem Parts.cons {d : Char} (h : parts d = true) (rest : List Char) : Parts (d :: rest) := by
  intro e he
  rw [← Option.some.inj he]
  exact h

theorem Parts.takeWhile {p : Char → Bool} {rest : List Char} (h : Parts rest)
    (hp : ∀ d, parts d = true → p d = false) : rest.takeWhile p = [] := by
  cases rest with
  | nil => rfl
  | cons d rest =>
    have hd := hp d (h d rfl)
    exact List.takeWhile_cons_of_neg (by simp [hd])

theorem parts_isDigit {d : Char} (h : parts d = true) : isDigit d = false := (parts_iff.1 h).1

theorem parts_isCased {d : Char} (h : parts d = true) : Text.isCased d = false := (parts_iff.1 h).2.1

theorem next_eq_nextPlain {c : Char} {r : List Char} (hc : c ≠ '<')
    (hslash : c = '/' → ∀ d ∈ r.head?, d ≠ '/' ∧ d ≠ '*') (region : Region) :
    next region c r = nextPlain region c r := by
  have hline : ¬ (c = '/' ∧ r.head? = some '/') := fun h => (hslash h.1 '/' h.2).1 rfl
  have hblock : ¬ (c = '/' ∧ r.head? = some '*') := fun h => (hslash h.1 '*' h.2).2 rfl
  have htag : ∀ t : List Char, t.head? = some '<' → t.isPrefixOf (c :: r) ≠ true := by
    intro t ht hp
    obtain ⟨u, rfl⟩ := List.head?_eq_some_iff.1 ht
    exact hc (List.cons_prefix_cons.1 (List.isPrefixOf_iff_prefix.1 hp)).1.symm
  have hopen := htag openTag rfl
  have hclose := htag closeTag rfl
  rw [next, if_neg hline, if_neg hblock, if_neg fun h => hopen h.2, if_neg fun h => hclose h.2]

theorem next_of_parts {c : Char} {r rest : List Char} (hc : c ≠ '<')
    (hslash : c = '/' → r = []) (h : Parts rest) (region : Region) :
    next region c (r ++ rest) = nextPlain region c (r ++ rest) := by
  refine next_eq_nextPlain hc (fun hcs d hd => ?_) region
  rw [hslash hcs] at hd
  exact (parts_iff.1 (h d hd)).2.2

theorem next_layout {c : Char} (hc : isLayout c = true) (region : Region) (r : List Char) :
    next region c r = ⟨.layout, [c], r⟩ := by
  have hplain : c ≠ '<' ∧ c ≠ '/' ∧ punctuation? c = none ∧ isDigit c = false ∧
      Text.isCased c = false := by
    simp only [isLayout, Bool.or_eq_true, decide_eq_true_eq] at hc
    rcases hc with ((rfl | rfl) | rfl) | rfl <;> decide
  obtain ⟨htag, hslash, hsign, hdigit, hcased⟩ := hplain
  rw [next_eq_nextPlain htag (fun h => absurd h hslash), nextPlain, hsign]
  simp [hdigit, hcased, hc]

end Piece

/-- A kind and a text that is cut off as one token wherever it is set apart. -/
structure Lexeme (f : Face) : Prop where
  nonempty : f.2.toList ≠ []
  untagged : f.1 ≠ .openTag ∧ f.1 ≠ .closeTag
  cut : ∀ {c : Char} {r rest : List Char}, f.2.toList = c :: r → Piece.Parts rest →
    ∀ region, Piece.next region c (r ++ rest) = ⟨.token f.1, c :: r, rest⟩

theorem Lexeme.punctuation {c : Char} {k : Token.Kind} (hk : Piece.punctuation? c = some k) :
    Lexeme (k, String.ofList [c]) := by
  refine ⟨by simp, Piece.punctuation?_untagged hk, fun {d r rest} hcut hrest region => ?_⟩
  rw [String.toList_ofList] at hcut
  obtain ⟨rfl, rfl⟩ := List.cons.inj hcut
  have hc : c ≠ '<' := by
    rintro rfl
    cases hk
  rw [Piece.next_of_parts hc (fun _ => rfl) hrest, Piece.nextPlain, hk]
  rfl

/-- A character of a run is no token by itself. -/
theorem Piece.punctuation?_eq_none {p : Char → Bool} {c : Char} (h : p c = true)
    (hp : "()\x7b\x7d[]+-*/%=;:,.".toList.all (!p ·) = true) : punctuation? c = none := by
  cases hk : punctuation? c with
  | none => rfl
  | some k =>
    have hc : c ∈ "()\x7b\x7d[]+-*/%=;:,.".toList := by
      unfold punctuation? at hk
      split at hk
      case h_17 => cases hk
      all_goals decide
    have hno := List.all_eq_true.1 hp c hc
    rw [h] at hno
    cases hno

theorem Piece.isDigit_of_isCased {c : Char} (h : Text.isCased c = true) : isDigit c = false := by
  have hletters : ∀ r ∈ Text.casedRanges, '9'.toNat < r.1 := by decide +kernel
  obtain ⟨r, hr, hc⟩ := List.any_eq_true.1 h
  have hlow : r.1 ≤ c.toNat := by
    simp only [Bool.and_eq_true, decide_eq_true_eq] at hc
    exact hc.1
  have hc : ¬ c ≤ '9' := fun hle => Nat.not_lt.2 (Nat.le_trans hlow hle) (hletters r hr)
  simp [isDigit, hc]

theorem Piece.run_parted {p : Char → Bool} {cs rest : List Char} (f : List Char → Piece)
    (hcs : ∀ c ∈ cs, p c = true) (hrest : rest.takeWhile p = []) :
    run p f (cs ++ rest) = ⟨f cs, cs, rest⟩ := by
  have htake : (cs ++ rest).takeWhile p = cs := by
    rw [List.takeWhile_append_of_pos hcs, hrest, List.append_nil]
  have hdrop : (cs ++ rest).dropWhile p = rest := by
    have hall := List.takeWhile_append_dropWhile (p := p) (l := rest)
    rw [hrest, List.nil_append] at hall
    rw [List.dropWhile_append_of_pos hcs, hall]
  rw [run, htake, hdrop]

theorem Lexeme.digits {cs : List Char} (hne : cs ≠ []) (hd : ∀ c ∈ cs, Piece.isDigit c = true) :
    Lexeme (.number, String.ofList cs) := by
  refine ⟨by simpa using hne, by simp, fun {c r rest} hcut hrest region => ?_⟩
  rw [String.toList_ofList] at hcut
  subst hcut
  have hdigit := hd c List.mem_cons_self
  have hc : c ≠ '<' := by
    rintro rfl
    exact absurd hdigit (by decide)
  have hslash : c = '/' → r = [] := by
    rintro rfl
    exact absurd hdigit (by decide)
  have hrun := Piece.run_parted (fun _ => .token .number) hd
    (hrest.takeWhile fun _ => Piece.parts_isDigit)
  rw [Piece.next_of_parts hc hslash hrest, Piece.nextPlain,
    Piece.punctuation?_eq_none hdigit (by decide)]
  simp only [hdigit, if_true, ← List.cons_append, hrun]

theorem Lexeme.word {cs : List Char} (hne : cs ≠ []) (ha : ∀ c ∈ cs, Text.isCased c = true) :
    Lexeme (Piece.word cs, String.ofList cs) := by
  refine ⟨by simpa using hne, Piece.word_untagged cs, fun {c r rest} hcut hrest region => ?_⟩
  rw [String.toList_ofList] at hcut
  subst hcut
  have hcased := ha c List.mem_cons_self
  have hdigit := Piece.isDigit_of_isCased hcased
  have hc : c ≠ '<' := by
    rintro rfl
    exact absurd hcased (by decide)
  have hslash : c = '/' → r = [] := by
    rintro rfl
    exact absurd hcased (by decide)
  have hrun := Piece.run_parted (fun w => .token (Piece.word w)) ha
    (hrest.takeWhile fun _ => Piece.parts_isCased)
  rw [Piece.next_of_parts hc hslash hrest, Piece.nextPlain,
    Piece.punctuation?_eq_none hcased (by decide)]
  simp only [hdigit, hcased, Bool.false_eq_true, if_true, if_false, ← List.cons_append, hrun]

/-! ## Scanning -/

def spaced (fs : List Face) : List Char := [' '].intercalate (fs.map fun f => f.2.toList)

theorem spaced_cons (f g : Face) (fs : List Face) :
    spaced (f :: g :: fs) = f.2.toList ++ ' ' :: spaced (g :: fs) := by
  simp [spaced, List.intercalate_cons_cons]

namespace Scan

variable {line? : Int → Option String} {region : Region}

theorem ofText_lexeme {f : Face} (hf : Lexeme f) {rest : List Char} (hrest : Piece.Parts rest)
    (l : Location) : ∃ t, t.face = f ∧ ofText line? region l (f.2.toList ++ rest)
      = (ofText line? region (l.after f.2.toList) rest).prepend [t] := by
  obtain ⟨c, r, hcs⟩ := List.exists_cons_of_ne_nil hf.nonempty
  have hnext := hf.cut hcs hrest region
  have hp : (Piece.next region c (r ++ rest)).piece ≠ .unrecognized := by
    rw [hnext]
    simp
  have hplain : (Piece.token f.1).IsPlain := hf.untagged
  refine ⟨⟨f.1, f.2, ⟨l, l.after f.2.toList⟩⟩, rfl, ?_⟩
  rw [hcs, List.cons_append, ofText_cons hp, hnext]
  rw [regionAfter_plain hplain, withPiece_plain hplain, pieceTokens, ← hcs, String.ofList_toList]

theorem ofText_layout {c : Char} (hc : Piece.isLayout c = true) (l : Location) (rest : List Char) :
    ofText line? region l (c :: rest) = ofText line? region (l.after [c]) rest := by
  have hnext := Piece.next_layout hc region rest
  have hp : (Piece.next region c rest).piece ≠ .unrecognized := by
    rw [hnext]
    simp
  rw [ofText_cons hp, hnext]
  rfl

theorem ofText_spaced_cons {after : Region} {f : Face} {rest : List Char}
    (hrest : Piece.Parts rest) (hcut : ∀ {q}, Piece.Parts q → ∀ l, ∃ t, t.face = f ∧
      ofText line? region l (f.2.toList ++ q)
        = (ofText line? after (l.after f.2.toList) q).prepend [t]) (gs : List Face) (l : Location) :
    ∃ t w, t.face = f ∧ spaced (f :: gs) = w ++ spaced gs ∧
      ofText line? region l (spaced (f :: gs) ++ rest)
        = (ofText line? after (l.after w) (spaced gs ++ rest)).prepend [t] := by
  cases gs with
  | nil =>
    obtain ⟨t, ht, hscan⟩ := hcut hrest l
    have hspaced : spaced [f] = f.2.toList := by simp [spaced]
    refine ⟨t, f.2.toList, ht, by simp [spaced], ?_⟩
    rw [hspaced, hscan]
    rfl
  | cons g gs =>
    obtain ⟨t, ht, hscan⟩ := hcut (.cons (d := ' ') (by decide) (spaced (g :: gs) ++ rest)) l
    refine ⟨t, f.2.toList ++ [' '], ht, by simp [spaced_cons], ?_⟩
    rw [spaced_cons, List.append_assoc, List.cons_append, hscan, ofText_layout (by decide),
      Location.after_append]

end Scan

structure Lexed (cs : List Char) (fs : List Face) : Prop where
  unclosed : ∀ f ∈ fs, f.1 ≠ .closeTag
  scan : ∀ {line? : Int → Option String} {region : Region} {rest : List Char},
    Piece.Parts rest → ∀ l, ∃ ts, ts.map Token.face = fs ∧
      Scan.ofText line? region l (cs ++ rest)
        = (Scan.ofText line? region (l.after cs) rest).prepend ts

namespace Lexed

variable {cs ds : List Char} {fs gs : List Face}

theorem nil : Lexed [] [] where
  unclosed := by simp
  scan _ _ := ⟨[], rfl, rfl⟩

theorem lexeme {f : Face} (hf : Lexeme f) : Lexed f.2.toList [f] where
  unclosed := by simpa using hf.untagged.2
  scan hrest l := by
    obtain ⟨t, ht, hscan⟩ := Scan.ofText_lexeme hf hrest l
    exact ⟨[t], by rw [List.map_singleton, ht], hscan⟩

theorem space (h : Lexed cs fs) : Lexed (' ' :: cs) fs where
  unclosed := h.unclosed
  scan {_ _ rest} hrest l := by
    obtain ⟨ts, hts, hscan⟩ := h.scan hrest (l.after [' '])
    refine ⟨ts, hts, ?_⟩
    rw [List.cons_append, Scan.ofText_layout (by decide), hscan]
    rfl

theorem append {d : Char} (h : Lexed cs fs) (hd : Piece.parts d = true)
    (h' : Lexed (d :: ds) gs) : Lexed (cs ++ d :: ds) (fs ++ gs) where
  unclosed := List.forall_mem_append.2 ⟨h.unclosed, h'.unclosed⟩
  scan {_ _ rest} hrest l := by
    obtain ⟨ts, hts, hscan⟩ := h.scan (.cons hd (ds ++ rest)) l
    obtain ⟨us, hus, hmore⟩ := h'.scan hrest (l.after cs)
    rw [List.cons_append] at hmore
    refine ⟨ts ++ us, by rw [List.map_append, hts, hus], ?_⟩
    rw [List.append_assoc, List.cons_append, hscan, hmore, Scan.prepend_prepend,
      Location.after_append]

theorem spaced (h : ∀ f ∈ fs, Lexeme f) : Lexed (spaced fs) fs := by
  induction fs with
  | nil => exact .nil
  | cons f fs ih =>
    obtain ⟨hf, hfs⟩ := List.forall_mem_cons.1 h
    cases fs with
    | nil => simpa [TemplateScript.spaced] using lexeme hf
    | cons g fs =>
      rw [spaced_cons]
      exact (lexeme hf).append (by decide) (ih hfs).space

end Lexed

end TemplateScript
