import TemplateScript.Journal
import TemplateScript.Text.Lines
import TemplateScript.Text.Truth
import TemplateScript.Token.Piece

/-!
# Scanning a source text

A scan cuts a source into pieces and keeps the tokens among them, with their spans. It reports
odd comments and goes on; a character that nothing in the region begins with ends it, and the token
list then closes with the abort mark.
-/

namespace TemplateScript

structure Scan where
  tokens : List Token
  region : Region
  aborted : Bool
  journal : Journal

namespace Scan

def atEnd (region : Region) (l : Location) : Scan := ⟨[.endAt l], region, false, .empty⟩

def withToken (t : Token) (s : Scan) : Scan := { s with tokens := t :: s.tokens }

/-- Reports a fault that does not end the scan. -/
def withWarning (d : Diagnostic) (s : Scan) : Scan :=
  { s with journal := s.journal.reportFirst d ⟨.warning, .scanner, d.render false⟩ }

def withWarnings (ds : List Diagnostic) (s : Scan) : Scan := ds.foldr withWarning s

/-- How far the scan had come, for the log. -/
def regionNote (region : Region) : String :=
  " (script region opened: " ++ Text.truth region.opened ++ ", closed: "
    ++ Text.truth region.closed ++ ")"

def abort (region : Region) (c : String) (s : Span) (d : Diagnostic) : Scan :=
  { tokens := [⟨.unknown, c, s⟩, .abortAt s.stop]
    region
    aborted := true
    journal := Journal.empty.report d ⟨.error, .scanner, d.render false ++ regionNote region⟩ }

/-- What is odd about a block comment. The slash is reported where the opening mark ends, the missing
end over the whole comment. -/
def commentWarnings (line? : Int → Option String) (l stop : Location) (slashFirst closed : Bool) :
    List Diagnostic :=
  let line := line? l.line
  (if slashFirst then
    [Fault.slashAfterOpening.diagnose (some ⟨l, l.after ['/', '*']⟩) line] else [])
    ++ if closed then [] else [Fault.unterminatedComment.diagnose (some ⟨l, stop⟩) line]

/-- Scans the text from a location on, the region being as given. -/
def ofText (line? : Int → Option String) (region : Region) (l : Location) : List Char → Scan
  | [] => atEnd region l
  | c :: r =>
    let cut := Piece.next region c r
    let stop := l.after cut.text
    match cut.piece with
    | .unrecognized =>
      abort region (String.ofList cut.text) ⟨l, stop⟩
        ((Fault.unrecognizedCharacter c).diagnose (some ⟨l, stop⟩) (line? l.line))
    | .token kind =>
      (ofText line? (Piece.regionAfter region (.token kind)) stop cut.rest).withToken
        ⟨kind, String.ofList cut.text, ⟨l, stop⟩⟩
    | .blockComment slashFirst closed =>
      (ofText line? region stop cut.rest).withWarnings
        (commentWarnings line? l stop slashFirst closed)
    | .lineComment | .layout | .template => ofText line? region stop cut.rest
  termination_by cs => cs.length
  decreasing_by all_goals exact (Piece.next_of region c r).length_lt

end Scan

def sourceLines (source : String) : List String :=
  (Text.lines source.toList).map String.ofList

def scan (source : String) (file : Option String) : Scan :=
  Scan.ofText (Text.line? (sourceLines source)) .ahead (.first file) source.toList

end TemplateScript
