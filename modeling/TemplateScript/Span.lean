/-!
# Locations and spans

A location counts lines and columns from one and characters from zero, and may name its file. A
span is a pair of locations. Trees and tokens are also made by hand, so nothing here forces the
order of the two or keeps the numbers from being negative.
-/

namespace TemplateScript

structure Location where
  line : Int
  column : Int
  offset : Int
  file : Option String := none
  deriving DecidableEq, Repr, Inhabited

namespace Location

def first (file : Option String) : Location := ⟨1, 1, 0, file⟩

/-- The location behind a character: only a line feed begins a new line. -/
def step (l : Location) (c : Char) : Location :=
  if c = '\n' then { l with line := l.line + 1, column := 1, offset := l.offset + 1 }
  else { l with column := l.column + 1, offset := l.offset + 1 }

def after (l : Location) (text : List Char) : Location := text.foldl step l

@[simp] theorem after_nil (l : Location) : l.after [] = l := rfl

@[simp] theorem after_cons (l : Location) (c : Char) (r : List Char) :
    l.after (c :: r) = (l.step c).after r := rfl

theorem after_append (l : Location) (r t : List Char) : l.after (r ++ t) = (l.after r).after t := by
  simp [after]

def numbers (l : Location) : String := toString l.line ++ ":" ++ toString l.column

def fileLabel (l : Location) : String :=
  match l.file with
  | none => ""
  | some f => if f = "" then "" else f ++ ":"

def render (l : Location) : String := l.fileLabel ++ l.numbers

end Location

structure Span where
  start : Location
  stop : Location
  deriving DecidableEq, Repr, Inhabited

namespace Span

/-- The empty span at a location. -/
def point (l : Location) : Span := ⟨l, l⟩

/-- From the start of one span to the end of another. -/
def through (s t : Span) : Span := ⟨s.start, t.stop⟩

def render (s : Span) : String :=
  s.start.fileLabel ++ s.start.numbers ++ "-" ++ s.stop.numbers

end Span

end TemplateScript
