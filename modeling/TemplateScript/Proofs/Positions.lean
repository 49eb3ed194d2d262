import TemplateScript.Proofs.ScanSteps

/-!
# Positions in a text

A location in a text has the line, the column and the offset of the characters ahead of it. A scan
keeps count as it goes along; what it places stands where the text that it has taken so far says,
and its tokens follow one another.
-/

namespace TemplateScript

structure Location.IsIn (l : Location) (text : List Char) : Prop where
  nonneg : 0 ≤ l.offset
  bound : l.offset ≤ text.length
  line : l.line = 1 + ((text.take l.offset.toNat).count '\n' : Nat)
  column : l.column
    = 1 + (((text.take l.offset.toNat).reverse.takeWhile (· ≠ '\n')).length : Nat)

structure Span.IsIn (s : Span) (text : List Char) : Prop where
  start : s.start.IsIn text
  stop : s.stop.IsIn text
  ordered : s.start.offset ≤ s.stop.offset

namespace Location

theorem after_snoc (l : Location) (w : List Char) (c : Char) :
    l.after (w ++ [c]) = (l.after w).step c := by
  rw [after_append]
  rfl

theorem first_after_reverse (file : Option String) (w : List Char) :
    (first file).after w.reverse
      = ⟨1 + (w.count '\n' : Nat), 1 + ((w.takeWhile (· ≠ '\n')).length : Nat), w.length, file⟩ := by
  induction w with
  | nil => rfl
  | cons c w ih =>
    rw [List.reverse_cons, after_snoc, ih]
    by_cases hc : c = '\n'
    · simp [step, hc, Int.add_assoc]
    · simp [step, hc, Int.add_assoc]

theorem first_after (file : Option String) (u : List Char) :
    (first file).after u
      = ⟨1 + (u.count '\n' : Nat), 1 + ((u.reverse.takeWhile (· ≠ '\n')).length : Nat), u.length,
        file⟩ := by
  have h := first_after_reverse file u.reverse
  rwa [List.reverse_reverse, List.count_reverse, List.length_reverse] at h

theorem isIn_first_after (file : Option String) (u v : List Char) :
    ((first file).after u).IsIn (u ++ v) := by
  have htake : (u ++ v).take ((u.length : Int)).toNat = u := by
    rw [Int.toNat_natCast, List.take_left]
  have hbound : (u.length : Int) ≤ ((u ++ v).length : Nat) := by
    rw [List.length_append]
    omega
  rw [first_after]
  exact ⟨Int.natCast_nonneg _, hbound, by rw [htake], by rw [htake]⟩

end Location

/-! ## Parts of a text -/

def Span.OfPart (l : Location) (cs : List Char) (s : Span) : Prop :=
  ∃ u w v, cs = u ++ (w ++ v) ∧ s = ⟨l.after u, (l.after u).after w⟩

namespace Span

variable {l : Location} {s : Span} {cs text rest : List Char}

theorem ofPart_front (l : Location) (text rest : List Char) :
    OfPart l (text ++ rest) ⟨l, l.after text⟩ := ⟨[], text, rest, rfl, rfl⟩

theorem OfPart.behind (h : OfPart (l.after text) rest s) : OfPart l (text ++ rest) s := by
  obtain ⟨u, w, v, rfl, rfl⟩ := h
  refine ⟨text ++ u, w, v, by rw [List.append_assoc], ?_⟩
  rw [Location.after_append]

theorem OfPart.start_le (h : OfPart l cs s) : l.offset ≤ s.start.offset := by
  obtain ⟨u, w, v, -, rfl⟩ := h
  rw [Scan.offset_after]
  omega

theorem OfPart.isIn {file : Option String} (h : OfPart (.first file) cs s) : s.IsIn cs := by
  obtain ⟨u, w, v, rfl, rfl⟩ := h
  refine ⟨Location.isIn_first_after file u (w ++ v), ?_, ?_⟩
  · rw [← Location.after_append, ← List.append_assoc]
    exact Location.isIn_first_after file (u ++ w) v
  · have hoffset := Scan.offset_after ((Location.first file).after u) w
    dsimp only
    omega

end Span

/-! ## Scans -/

def Token.Precedes (a b : Token) : Prop := a.span.stop.offset ≤ b.span.start.offset

namespace Scan

structure Placed (l : Location) (cs : List Char) (s : Scan) : Prop where
  tokens : ∀ t ∈ s.tokens, t.span.OfPart l cs
  ordered : s.tokens.Pairwise Token.Precedes
  reports : ∀ d ∈ s.journal.diagnostics, ∃ span, d.span = some span ∧ span.OfPart l cs

variable {l : Location} {text rest : List Char} {s : Scan}

theorem Placed.behind (h : Placed (l.after text) rest s) : Placed l (text ++ rest) s where
  tokens t ht := (h.tokens t ht).behind
  ordered := h.ordered
  reports d hd := by
    obtain ⟨span, hspan, hpart⟩ := h.reports d hd
    exact ⟨span, hspan, hpart.behind⟩

theorem Placed.withToken (h : Placed (l.after text) rest s) (kind : Token.Kind) (w : String) :
    Placed l (text ++ rest) (s.withToken ⟨kind, w, ⟨l, l.after text⟩⟩) where
  tokens := List.forall_mem_cons.2 ⟨Span.ofPart_front l text rest, h.behind.tokens⟩
  ordered := List.pairwise_cons.2 ⟨fun t ht => (h.tokens t ht).start_le, h.ordered⟩
  reports := h.behind.reports

theorem Placed.withWarnings (h : Placed l rest s) {ds : List Diagnostic}
    (hds : ∀ d ∈ ds, ∃ span, d.span = some span ∧ span.OfPart l rest) :
    Placed l rest (s.withWarnings ds) where
  tokens := by
    rw [withWarnings_tokens]
    exact h.tokens
  ordered := by
    rw [withWarnings_tokens]
    exact h.ordered
  reports := by
    rw [withWarnings_diagnostics]
    exact List.forall_mem_append.2 ⟨hds, h.reports⟩

/-- What is odd about a comment is reported over its opening mark or over all of it. -/
theorem commentWarnings_placed (line? : Int → Option String) (l : Location)
    (slashFirst closed : Bool) {body : List Char} (rest : List Char) :
    ∀ d ∈ commentWarnings line? l (l.after ('/' :: '*' :: body)) slashFirst closed,
      ∃ span, d.span = some span ∧ span.OfPart l ('/' :: '*' :: body ++ rest) := by
  have hmark := Span.ofPart_front l ['/', '*'] (body ++ rest)
  have hall := Span.ofPart_front l ('/' :: '*' :: body) rest
  intro d hd
  rcases List.mem_append.1 hd with hd | hd
  · split at hd
    · obtain rfl := List.mem_singleton.1 hd
      exact ⟨_, rfl, hmark⟩
    · cases hd
  · split at hd
    · cases hd
    · obtain rfl := List.mem_singleton.1 hd
      exact ⟨_, rfl, hall⟩

theorem Placed.withPiece (h : Placed (l.after text) rest s) {region : Region} {p : Piece}
    (hfits : Piece.Fits region p text rest) (line? : Int → Option String) :
    Placed l (text ++ rest) (s.withPiece line? l p text) := by
  cases p with
  | token k => exact h.withToken k _
  | blockComment slashFirst closed =>
    obtain ⟨body, rfl⟩ : ∃ body, text = '/' :: '*' :: body := by
      cases closed with
      | true =>
        obtain ⟨u, rfl, -⟩ := hfits
        exact ⟨_, rfl⟩
      | false =>
        obtain ⟨u, rfl, -⟩ := hfits
        exact ⟨_, rfl⟩
    exact h.behind.withWarnings (commentWarnings_placed line? l slashFirst closed rest)
  | lineComment | layout | template | unrecognized => exact h.behind

theorem placed_abort (region : Region) (c : String) (l : Location) (text rest : List Char)
    {d : Diagnostic} (hd : d.span = some ⟨l, l.after text⟩) :
    Placed l (text ++ rest) (abort region c ⟨l, l.after text⟩ d) where
  tokens := by
    have hend : (Span.point (l.after text)).OfPart l (text ++ rest) :=
      (Span.ofPart_front (l.after text) [] rest).behind
    refine List.forall_mem_cons.2 ⟨Span.ofPart_front l text rest, ?_⟩
    simpa [Token.abortAt] using hend
  ordered := by
    simp [abort, Token.abortAt, Span.point, Token.Precedes]
  reports := by
    intro e he
    obtain rfl := List.mem_singleton.1 he
    exact ⟨_, hd, Span.ofPart_front l text rest⟩

theorem ofText_placed (line? : Int → Option String) (region : Region) (l : Location)
    (cs : List Char) : Placed l cs (ofText line? region l cs) := by
  induction region, cs using piece_induction generalizing l with
  | nil region =>
    have hend : (Span.point l).OfPart l [] := Span.ofPart_front l [] []
    rw [ofText_nil]
    exact ⟨by simpa [atEnd, Token.endAt] using hend, List.pairwise_singleton _ _,
      by simp [atEnd]⟩
  | unrecognized region c r h =>
    have hplaced := placed_abort region (String.ofList (Piece.next region c r).text) l
      (Piece.next region c r).text (Piece.next region c r).rest
      (d := (Fault.unrecognizedCharacter c).diagnose
        (some ⟨l, l.after (Piece.next region c r).text⟩) (line? l.line)) rfl
    rw [(Piece.next_of region c r).1] at hplaced
    rw [ofText_unrecognized h]
    exact hplaced
  | cons region c r h ih =>
    have hplaced := (ih (l.after (Piece.next region c r).text)).withPiece
      (Piece.next_fits region c r) line?
    rw [(Piece.next_of region c r).1] at hplaced
    rw [ofText_cons h]
    exact hplaced

end Scan

theorem scan_placed (source : String) (file : Option String) :
    Scan.Placed (.first file) source.toList (scan source file) :=
  Scan.ofText_placed _ .ahead (.first file) source.toList

end TemplateScript
