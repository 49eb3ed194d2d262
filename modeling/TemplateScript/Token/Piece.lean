import TemplateScript.Token
import TemplateScript.Text.Cased

/-!
# Pieces of a source text

`Piece.next` names the piece of text at the front of a source and cuts it off. Which pieces there
are depends on the script region: each tag is recognized once, and a character that begins nothing
else is template text ahead of the region and an error from there on.
-/

namespace TemplateScript

/-- How far a scan has come: ahead of the open tag, behind it, or behind the close tag too. -/
inductive Region where
  | ahead
  | inside
  | past
  deriving DecidableEq, Repr, Inhabited

namespace Region

def opened : Region → Bool
  | ahead => false
  | _ => true

def closed : Region → Bool
  | past => true
  | _ => false

end Region

inductive Piece where
  | token (kind : Token.Kind)
  | lineComment
  | blockComment (slashFirst closed : Bool)
  | layout
  | template
  | unrecognized
  deriving DecidableEq, Repr

namespace Piece

def openTag : List Char := "<trans>".toList

def closeTag : List Char := "</trans>".toList

def isDigit (c : Char) : Bool := '0' ≤ c && c ≤ '9'

def isLayout (c : Char) : Bool := c = ' ' || c = '\t' || c = '\n' || c = '\r'

def punctuation? : Char → Option Token.Kind
  | '(' => some .openParen
  | ')' => some .closeParen
  | '{' => some .openBrace
  | '}' => some .closeBrace
  | '[' => some .openBracket
  | ']' => some .closeBracket
  | '+' | '-' | '*' | '/' | '%' => some .operator
  | '=' => some .assign
  | ';' => some .semicolon
  | ':' => some .colon
  | ',' => some .comma
  | '.' => some .dot
  | _ => none

def word (text : List Char) : Token.Kind :=
  if text = "let".toList then .letWord
  else if text = "const".toList then .constWord
  else .identifier

/-- Cuts the inside of a block comment off, up to and with its first closing mark. -/
def commentBody? : List Char → Option (List Char × List Char)
  | [] => none
  | '*' :: '/' :: r => some (['*', '/'], r)
  | c :: r => (commentBody? r).map fun (body, rest) => (c :: body, rest)

/-- The piece at the front of a text, its characters, and what follows them. -/
structure Cut where
  piece : Piece
  text : List Char
  rest : List Char

def run (p : Char → Bool) (piece : List Char → Piece) (cs : List Char) : Cut :=
  ⟨piece (cs.takeWhile p), cs.takeWhile p, cs.dropWhile p⟩

/-- The block comment whose text behind the opening mark is given; without a closing mark it takes
all of it. -/
def blockCommentOf (r : List Char) : Cut :=
  let slashFirst := r.head? = some '/'
  match commentBody? r with
  | some (body, rest) => ⟨.blockComment slashFirst true, '/' :: '*' :: body, rest⟩
  | none => ⟨.blockComment slashFirst false, '/' :: '*' :: r, []⟩

/-- The piece that begins with a character other than a comment mark or a tag. -/
def nextPlain (region : Region) (c : Char) (r : List Char) : Cut :=
  match punctuation? c with
  | some kind => ⟨.token kind, [c], r⟩
  | none =>
    if isDigit c then run isDigit (fun _ => .token .number) (c :: r)
    else if Text.isCased c then run Text.isCased (fun w => .token (word w)) (c :: r)
    else if isLayout c then ⟨.layout, [c], r⟩
    else if region = .ahead then ⟨.template, [c], r⟩
    else ⟨.unrecognized, [c], r⟩

def next (region : Region) (c : Char) (r : List Char) : Cut :=
  if c = '/' ∧ r.head? = some '/' then run (· ≠ '\n') (fun _ => .lineComment) (c :: r)
  else if c = '/' ∧ r.head? = some '*' then blockCommentOf r.tail
  else if region = .ahead ∧ openTag.isPrefixOf (c :: r) then
    ⟨.token .openTag, openTag, (c :: r).drop openTag.length⟩
  else if region = .inside ∧ closeTag.isPrefixOf (c :: r) then
    ⟨.token .closeTag, closeTag, (c :: r).drop closeTag.length⟩
  else nextPlain region c r

def regionAfter (region : Region) : Piece → Region
  | .token .openTag => .inside
  | .token .closeTag => .past
  | _ => region

theorem commentBody?_append {cs body rest : List Char} (h : commentBody? cs = some (body, rest)) :
    body ++ rest = cs := by
  fun_induction commentBody? cs generalizing body with
  | case1 => simp at h
  | case2 r =>
    simp only [Option.some.injEq, Prod.mk.injEq] at h
    obtain ⟨rfl, rfl⟩ := h
    rfl
  | case3 c r _ ih =>
    obtain ⟨⟨b, t⟩, hb, he⟩ := Option.map_eq_some_iff.1 h
    simp only [Prod.mk.injEq] at he
    obtain ⟨rfl, rfl⟩ := he
    simp [ih hb]

/-- A cut takes at least one character and loses none. -/
def Cut.Of (k : Cut) (cs : List Char) : Prop := k.text ++ k.rest = cs ∧ k.text ≠ []

theorem run_of (p : Char → Bool) (f : List Char → Piece) {c : Char} (r : List Char)
    (h : p c = true) : (run p f (c :: r)).Of (c :: r) :=
  ⟨List.takeWhile_append_dropWhile, by simp [run, h]⟩

theorem blockCommentOf_of (r : List Char) : (blockCommentOf r).Of ('/' :: '*' :: r) := by
  unfold blockCommentOf Cut.Of
  cases h : commentBody? r with
  | none => simp
  | some p => simp [commentBody?_append (show commentBody? r = some (p.1, p.2) from h)]

theorem single_of (p : Piece) (c : Char) (r : List Char) : (Cut.mk p [c] r).Of (c :: r) :=
  ⟨rfl, by simp⟩

theorem tag_of (p : Piece) {t cs : List Char} (h : t.isPrefixOf cs = true) (ht : t ≠ []) :
    (Cut.mk p t (cs.drop t.length)).Of cs := by
  obtain ⟨u, rfl⟩ := List.isPrefixOf_iff_prefix.1 h
  exact ⟨by simp, ht⟩

theorem nextPlain_of (region : Region) (c : Char) (r : List Char) :
    (nextPlain region c r).Of (c :: r) := by
  unfold nextPlain
  split
  · exact single_of ..
  split
  · rename_i h; exact run_of _ _ _ h
  split
  · rename_i h; exact run_of _ _ _ h
  split
  · exact single_of ..
  split <;> exact single_of ..

theorem next_of (region : Region) (c : Char) (r : List Char) : (next region c r).Of (c :: r) := by
  unfold next
  split
  · rename_i h
    exact run_of _ _ _ (by simp [h.1])
  split
  · rename_i h
    obtain ⟨rfl, h⟩ := h
    cases r with
    | nil => simp at h
    | cons d r =>
      simp only [List.head?_cons, Option.some.injEq] at h
      subst h
      exact blockCommentOf_of r
  split
  · rename_i h; exact tag_of _ h.2 (by decide)
  split
  · rename_i h; exact tag_of _ h.2 (by decide)
  exact nextPlain_of ..

theorem Cut.Of.length_lt {k : Cut} {cs : List Char} (h : k.Of cs) : k.rest.length < cs.length := by
  have hl := congrArg List.length h.1
  have := List.length_pos_iff.2 h.2
  simp only [List.length_append] at hl
  omega

end Piece

end TemplateScript
