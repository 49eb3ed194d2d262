import TemplateScript.Proofs.Collectors
import TemplateScript.Proofs.Lossless
import TemplateScript.Proofs.ReaderFaces

/-!
# Scans step by step

A scan of a text is what its first piece adds to the scan of the rest. Where the text stands decides
where the tokens and reports of the scan are placed, and nothing else.
-/

namespace TemplateScript

namespace Scan

def withPiece (line? : Int → Option String) (l : Location) (p : Piece) (text : List Char)
    (s : Scan) : Scan :=
  match p with
  | .token kind => s.withToken ⟨kind, String.ofList text, ⟨l, l.after text⟩⟩
  | .blockComment slashFirst closed =>
    s.withWarnings (commentWarnings line? l (l.after text) slashFirst closed)
  | _ => s

section
variable {line? : Int → Option String} {region : Region} {l : Location} {c : Char} {r : List Char}

theorem ofText_nil (line? : Int → Option String) (region : Region) (l : Location) :
    ofText line? region l [] = atEnd region l := by
  rw [ofText]

theorem ofText_cons (h : (Piece.next region c r).piece ≠ .unrecognized) :
    ofText line? region l (c :: r)
      = (ofText line? (Piece.regionAfter region (Piece.next region c r).piece)
          (l.after (Piece.next region c r).text) (Piece.next region c r).rest).withPiece line? l
            (Piece.next region c r).piece (Piece.next region c r).text := by
  rw [ofText]
  generalize Piece.next region c r = cut at h
  obtain ⟨p, text, rest⟩ := cut
  cases p with
  | unrecognized => exact absurd rfl h
  | _ => rfl

theorem ofText_unrecognized (h : (Piece.next region c r).piece = .unrecognized) :
    ofText line? region l (c :: r)
      = abort region (String.ofList (Piece.next region c r).text)
          ⟨l, l.after (Piece.next region c r).text⟩
          ((Fault.unrecognizedCharacter c).diagnose
            (some ⟨l, l.after (Piece.next region c r).text⟩) (line? l.line)) := by
  rw [ofText]
  simp only [h]

end

/-- Induction over the pieces of a text; a character that ends the scan ends the induction. -/
theorem piece_induction {motive : Region → List Char → Prop} (nil : ∀ region, motive region [])
    (unrecognized : ∀ region c r, (Piece.next region c r).piece = .unrecognized →
      motive region (c :: r))
    (cons : ∀ region c r, (Piece.next region c r).piece ≠ .unrecognized →
      motive (Piece.regionAfter region (Piece.next region c r).piece) (Piece.next region c r).rest →
      motive region (c :: r)) :
    ∀ (region : Region) (cs : List Char), motive region cs
  | region, [] => nil region
  | region, c :: r => by
    by_cases h : (Piece.next region c r).piece = .unrecognized
    · exact unrecognized region c r h
    · exact cons region c r h (piece_induction nil unrecognized cons _ (Piece.next region c r).rest)
  termination_by _ cs => cs.length
  decreasing_by exact (Piece.next_of region c r).length_lt

/-! ## What the steps leave -/

theorem withWarnings_diagnostics (ds : List Diagnostic) (s : Scan) :
    (s.withWarnings ds).journal.diagnostics = ds ++ s.journal.diagnostics := by
  induction ds with
  | nil => rfl
  | cons d ds ih => exact congrArg (d :: ·) ih

@[simp] theorem withPiece_aborted (line? : Int → Option String) (l : Location) (p : Piece)
    (text : List Char) (s : Scan) : (s.withPiece line? l p text).aborted = s.aborted := by
  cases p with
  | blockComment slashFirst closed => exact withWarnings_aborted _ s
  | _ => rfl

@[simp] theorem withPiece_region (line? : Int → Option String) (l : Location) (p : Piece)
    (text : List Char) (s : Scan) : (s.withPiece line? l p text).region = s.region := by
  cases p with
  | blockComment slashFirst closed => exact withWarnings_region _ s
  | _ => rfl

def pieceTokens (l : Location) (p : Piece) (text : List Char) : List Token :=
  match p with
  | .token kind => [⟨kind, String.ofList text, ⟨l, l.after text⟩⟩]
  | _ => []

theorem withPiece_tokens (line? : Int → Option String) (l : Location) (p : Piece)
    (text : List Char) (s : Scan) :
    (s.withPiece line? l p text).tokens = pieceTokens l p text ++ s.tokens := by
  cases p with
  | blockComment slashFirst closed => exact withWarnings_tokens _ s
  | _ => rfl

theorem ofText_last (line? : Int → Option String) (region : Region) (l : Location)
    (cs : List Char) : ∃ ts last, (ofText line? region l cs).tokens = ts ++ [last] ∧
      last.isAbortMark = (ofText line? region l cs).aborted := by
  induction region, cs using piece_induction generalizing l with
  | nil region =>
    rw [ofText_nil]
    exact ⟨[], .endAt l, rfl, rfl⟩
  | unrecognized region c r h =>
    rw [ofText_unrecognized h]
    exact ⟨[_], .abortAt _, rfl, rfl⟩
  | cons region c r h ih =>
    obtain ⟨ts, last, hts, hlast⟩ := ih (l.after (Piece.next region c r).text)
    rw [ofText_cons h, withPiece_aborted, withPiece_tokens, hts, ← List.append_assoc]
    exact ⟨_, last, rfl, hlast⟩

/-! ## Texts at other places -/

structure Alike (s s' : Scan) : Prop where
  faces : s.tokens.map Token.face = s'.tokens.map Token.face
  aborted : s.aborted = s'.aborted
  reports : s.journal.diagnostics.map Diagnostic.unplaced
    = s'.journal.diagnostics.map Diagnostic.unplaced

theorem commentWarnings_unplaced (line? line?' : Int → Option String) (l l' stop stop' : Location)
    (slashFirst closed : Bool) :
    (commentWarnings line? l stop slashFirst closed).map Diagnostic.unplaced
      = (commentWarnings line?' l' stop' slashFirst closed).map Diagnostic.unplaced := by
  cases slashFirst <;> cases closed <;> rfl

theorem Alike.withPiece {s s' : Scan} (h : s.Alike s') (line? line?' : Int → Option String)
    (l l' : Location) (p : Piece) (text : List Char) :
    (s.withPiece line? l p text).Alike (s'.withPiece line?' l' p text) := by
  cases p with
  | token kind =>
    refine ⟨?_, h.aborted, h.reports⟩
    simp only [Scan.withPiece, withToken, List.map_cons, h.faces, Token.face]
  | blockComment slashFirst closed =>
    refine ⟨?_, ?_, ?_⟩
    · simp only [Scan.withPiece, withWarnings_tokens, h.faces]
    · simp only [Scan.withPiece, withWarnings_aborted, h.aborted]
    · simp only [Scan.withPiece, withWarnings_diagnostics, List.map_append, h.reports]
      rw [commentWarnings_unplaced line? line?' l l' _ (l'.after text)]
  | _ => exact h

/-- A text is scanned alike wherever it stands. -/
theorem alike_ofText (line? line?' : Int → Option String) (region : Region) (l l' : Location)
    (cs : List Char) : (ofText line? region l cs).Alike (ofText line?' region l' cs) := by
  induction region, cs using piece_induction generalizing l l' with
  | nil region =>
    rw [ofText_nil, ofText_nil]
    exact ⟨rfl, rfl, rfl⟩
  | unrecognized region c r h =>
    rw [ofText_unrecognized h, ofText_unrecognized h]
    exact ⟨rfl, rfl, rfl⟩
  | cons region c r h ih =>
    rw [ofText_cons h, ofText_cons h]
    exact (ih _ _).withPiece line? line?' l l' _ _

end Scan

/-! ## Reports of scans -/

def Diagnostic.isScanWarning (d : Diagnostic) : Bool := d.code = "W001" || d.code = "W002"

namespace Scan

theorem commentWarnings_isScanWarning (line? : Int → Option String) (l stop : Location)
    (slashFirst closed : Bool) : ∀ d ∈ commentWarnings line? l stop slashFirst closed,
      d.isScanWarning = true ∧ d.isError = false := by
  cases slashFirst <;> cases closed <;>
    simp [commentWarnings, Diagnostic.isScanWarning, Diagnostic.isError, Fault.diagnose,
      Fault.diagnoseAt, Fault.code, Fault.severity]

/-- A scan reports warnings and, if it is given up, the error that ended it. -/
theorem ofText_diagnostics (line? : Int → Option String) (region : Region) (l : Location)
    (cs : List Char) : ∃ ws, (∀ w ∈ ws, w.isScanWarning = true ∧ w.isError = false) ∧
      ((ofText line? region l cs).aborted = false ∧
          (ofText line? region l cs).journal.diagnostics = ws ∨
        (ofText line? region l cs).aborted = true ∧ ∃ d, d.code = "E001" ∧ d.isError = true ∧
          (ofText line? region l cs).journal.diagnostics = ws ++ [d]) := by
  induction region, cs using piece_induction generalizing l with
  | nil region =>
    rw [ofText_nil]
    exact ⟨[], by simp, Or.inl ⟨rfl, rfl⟩⟩
  | unrecognized region c r h =>
    rw [ofText_unrecognized h]
    exact ⟨[], by simp, Or.inr ⟨rfl, _, rfl, rfl, rfl⟩⟩
  | cons region c r h ih =>
    obtain ⟨ws, hws, hend⟩ := ih (l.after (Piece.next region c r).text)
    rw [ofText_cons h, withPiece_aborted]
    generalize (Piece.next region c r).piece = p at hend ⊢
    cases p with
    | blockComment slashFirst closed =>
      have hcomment := commentWarnings_isScanWarning line? l
        (l.after (Piece.next region c r).text) slashFirst closed
      rw [withPiece, withWarnings_diagnostics]
      refine ⟨_ ++ ws, List.forall_mem_append.2 ⟨hcomment, hws⟩, ?_⟩
      rcases hend with ⟨ha, hd⟩ | ⟨ha, d, hcode, herror, hd⟩
      · exact Or.inl ⟨ha, by rw [hd]⟩
      · exact Or.inr ⟨ha, d, hcode, herror, by rw [hd, List.append_assoc]⟩
    | _ => exact ⟨ws, hws, hend⟩

theorem withWarnings_counted (ds : List Diagnostic) {s : Scan} (h : s.journal.collector.Counted) :
    (s.withWarnings ds).journal.collector.Counted := by
  induction ds with
  | nil => exact h
  | cons d ds ih => exact ih.addFirst d

theorem ofText_counted (line? : Int → Option String) (region : Region) (l : Location)
    (cs : List Char) : (ofText line? region l cs).journal.collector.Counted := by
  induction region, cs using piece_induction generalizing l with
  | nil region =>
    rw [ofText_nil]
    exact Collector.counted_empty
  | unrecognized region c r h =>
    rw [ofText_unrecognized h]
    exact Collector.counted_empty.add _
  | cons region c r h ih =>
    have hrest := ih (l.after (Piece.next region c r).text)
    rw [ofText_cons h]
    generalize (Piece.next region c r).piece = p at hrest ⊢
    cases p with
    | blockComment slashFirst closed => exact withWarnings_counted _ hrest
    | _ => exact hrest

end Scan

/-- A scan counts the errors that it reports. -/
theorem scan_counted (source : String) (file : Option String) :
    (scan source file).journal.collector.Counted := Scan.ofText_counted _ _ _ _

section
variable {source : String} {file : Option String}

/-- A scan that comes to the end of the text reports warnings alone. -/
theorem scan_warnings (h : (scan source file).aborted = false) :
    ∀ d ∈ (scan source file).journal.diagnostics, d.isScanWarning = true ∧ d.isError = false := by
  obtain ⟨ws, hws, hend⟩ := Scan.ofText_diagnostics (Text.line? (sourceLines source)) .ahead
    (.first file) source.toList
  rcases hend with ⟨-, hd⟩ | ⟨ha, -⟩
  · rw [scan, hd]
    exact hws
  · cases h.symm.trans ha

/-- A scan that is given up reports the error last. -/
theorem scan_abort (h : (scan source file).aborted = true) : ∃ ws d,
    (scan source file).journal.diagnostics = ws ++ [d] ∧
      (∀ w ∈ ws, w.isScanWarning = true ∧ w.isError = false) ∧ d.code = "E001" ∧
        d.isError = true := by
  obtain ⟨ws, hws, hend⟩ := Scan.ofText_diagnostics (Text.line? (sourceLines source)) .ahead
    (.first file) source.toList
  rcases hend with ⟨ha, -⟩ | ⟨-, d, hcode, herror, hd⟩
  · cases h.symm.trans ha
  · exact ⟨ws, d, hd, hws, hcode, herror⟩

end

/-- The mark at the end of the tokens tells whether the scan was given up. -/
theorem scan_mark (source : String) (file : Option String) :
    ∃ last, (scan source file).tokens.getLast? = some last ∧
      last.isAbortMark = (scan source file).aborted := by
  obtain ⟨ts, last, hts, hlast⟩ := Scan.ofText_last (Text.line? (sourceLines source)) .ahead
    (.first file) source.toList
  exact ⟨last, by rw [scan, hts, List.getLast?_concat], hlast⟩

theorem scanAborted_scan {source : String} {file : Option String} :
    Token.scanAborted (scan source file).tokens = (scan source file).aborted := by
  obtain ⟨last, hlast, hmark⟩ := scan_mark source file
  rw [Token.scanAborted, hlast, Option.any_some, hmark]

end TemplateScript
