import TemplateScript.Proofs.ScanSteps

/-!
# Texts further down a source

A text that stands some lines and characters further down, in the same column, gives the same tokens
and reports, moved down with it. A report quotes the line that it begins on, so only the quotes
depend on what else the source holds.
-/

namespace TemplateScript

def Location.moved (lines chars : Int) (l : Location) : Location :=
  { l with line := l.line + lines, offset := l.offset + chars }

def Span.moved (lines chars : Int) (s : Span) : Span :=
  ⟨s.start.moved lines chars, s.stop.moved lines chars⟩

def Token.moved (lines chars : Int) (t : Token) : Token :=
  { t with span := t.span.moved lines chars }

namespace Diagnostic

def moved (lines chars : Int) (d : Diagnostic) : Diagnostic :=
  { d with span := d.span.map (·.moved lines chars) }

def quoting (line? : Int → Option String) (d : Diagnostic) : Diagnostic :=
  { d with sourceLine := d.span.bind fun s => line? s.start.line }

end Diagnostic

variable {lines chars : Int}

namespace Location

theorem step_moved (l : Location) (c : Char) :
    (l.moved lines chars).step c = (l.step c).moved lines chars := by
  by_cases hc : c = '\n'
  · simp [step, moved, hc, Int.add_right_comm]
  · simp [step, moved, hc, Int.add_right_comm]

theorem after_moved (l : Location) (text : List Char) :
    (l.moved lines chars).after text = (l.after text).moved lines chars := by
  induction text generalizing l with
  | nil => rfl
  | cons c r ih => rw [after_cons, after_cons, step_moved, ih]

@[simp] theorem moved_zero (l : Location) : l.moved 0 0 = l := by
  simp [moved]

end Location

@[simp] theorem Token.moved_zero (t : Token) : t.moved 0 0 = t := by
  simp [moved, Span.moved]

@[simp] theorem Diagnostic.moved_zero (d : Diagnostic) : d.moved 0 0 = d := by
  have hspan : (fun s : Span => s.moved 0 0) = id := by
    funext s
    simp [Span.moved]
  simp [moved, hspan]

namespace Scan

structure MovedTo (line? : Int → Option String) (lines chars : Int) (s s' : Scan) : Prop where
  tokens : s'.tokens = s.tokens.map (Token.moved lines chars)
  region : s'.region = s.region
  aborted : s'.aborted = s.aborted
  reports : s'.journal.diagnostics
    = s.journal.diagnostics.map fun d => (d.moved lines chars).quoting line?

theorem commentWarnings_moved (line? line?' : Int → Option String) (l stop : Location)
    (slashFirst closed : Bool) :
    commentWarnings line?' (l.moved lines chars) (stop.moved lines chars) slashFirst closed
      = (commentWarnings line? l stop slashFirst closed).map
          fun d => (d.moved lines chars).quoting line?' := by
  cases slashFirst <;> cases closed <;>
    simp [commentWarnings, Fault.diagnose, Fault.diagnoseAt, Diagnostic.moved, Diagnostic.quoting,
      Span.moved, Location.step_moved]

theorem MovedTo.withPiece {line?' : Int → Option String} {s s' : Scan}
    (h : s.MovedTo line?' lines chars s') (line? : Int → Option String) (l : Location) (p : Piece)
    (text : List Char) :
    (s.withPiece line? l p text).MovedTo line?' lines chars
      (s'.withPiece line?' (l.moved lines chars) p text) := by
  cases p with
  | token kind =>
    refine ⟨?_, h.region, h.aborted, h.reports⟩
    simp only [Scan.withPiece, withToken, List.map_cons, h.tokens, Token.moved, Span.moved,
      Location.after_moved]
  | blockComment slashFirst closed =>
    refine ⟨?_, ?_, ?_, ?_⟩
    · simp only [Scan.withPiece, withWarnings_tokens, h.tokens]
    · simp only [Scan.withPiece, withWarnings_region, h.region]
    · simp only [Scan.withPiece, withWarnings_aborted, h.aborted]
    · simp only [Scan.withPiece, withWarnings_diagnostics, List.map_append, h.reports,
        Location.after_moved]
      rw [commentWarnings_moved line? line?']
  | _ => exact h

/-- A text further down a source is scanned to what it is scanned to where it stands first. -/
theorem ofText_moved (line? line?' : Int → Option String) (lines chars : Int) (region : Region)
    (l : Location) (cs : List Char) :
    (ofText line? region l cs).MovedTo line?' lines chars
      (ofText line?' region (l.moved lines chars) cs) := by
  induction region, cs using piece_induction generalizing l with
  | nil region =>
    rw [ofText_nil, ofText_nil]
    exact ⟨rfl, rfl, rfl, rfl⟩
  | unrecognized region c r h =>
    rw [ofText_unrecognized h, ofText_unrecognized h, Location.after_moved]
    exact ⟨rfl, rfl, rfl, rfl⟩
  | cons region c r h ih =>
    rw [ofText_cons h, ofText_cons h, Location.after_moved]
    exact (ih _).withPiece line? l _ _

/-! ## What reports quote -/

def Quotes (line? : Int → Option String) (l : Location) (cs : List Char) (d : Diagnostic) : Prop :=
  ∃ u c r, cs = u ++ c :: r ∧ d.quoting line? = d ∧
    d.span.map (·.start.line) = some (l.after u).line

theorem Quotes.behind {line? : Int → Option String} {l : Location} {text rest : List Char}
    {d : Diagnostic} (h : Quotes line? (l.after text) rest d) : Quotes line? l (text ++ rest) d := by
  obtain ⟨u, c, r, rfl, hquote, hline⟩ := h
  exact ⟨text ++ u, c, r, by rw [List.append_assoc], hquote, by rw [Location.after_append, hline]⟩

theorem commentWarnings_quote (line? : Int → Option String) (l stop : Location)
    (slashFirst closed : Bool) : ∀ d ∈ commentWarnings line? l stop slashFirst closed,
      d.quoting line? = d ∧ d.span.map (·.start.line) = some l.line := by
  cases slashFirst <;> cases closed <;>
    simp [commentWarnings, Fault.diagnose, Fault.diagnoseAt, Diagnostic.quoting]

theorem ofText_quotes (line? : Int → Option String) (region : Region) (l : Location)
    (cs : List Char) : ∀ d ∈ (ofText line? region l cs).journal.diagnostics, Quotes line? l cs d := by
  induction region, cs using piece_induction generalizing l with
  | nil region =>
    rw [ofText_nil]
    exact fun d hd => nomatch hd
  | unrecognized region c r h =>
    rw [ofText_unrecognized h]
    intro d hd
    obtain rfl := List.mem_singleton.1 hd
    exact ⟨[], c, r, rfl, rfl, rfl⟩
  | cons region c r h ih =>
    have hrest : ∀ d ∈ (ofText line? (Piece.regionAfter region (Piece.next region c r).piece)
        (l.after (Piece.next region c r).text)
        (Piece.next region c r).rest).journal.diagnostics, Quotes line? l (c :: r) d := by
      intro d hd
      have hbehind := (ih _ d hd).behind
      rwa [(Piece.next_of region c r).1] at hbehind
    rw [ofText_cons h]
    cases hp : (Piece.next region c r).piece with
    | blockComment slashFirst closed =>
      rw [hp] at hrest
      rw [withPiece, withWarnings_diagnostics]
      exact List.forall_mem_append.2
        ⟨fun d hd => ⟨[], c, r, rfl, commentWarnings_quote line? l _ slashFirst closed d hd⟩, hrest⟩
    | _ =>
      rw [hp] at hrest
      exact hrest

end Scan

end TemplateScript
