import TemplateScript.Text.DecimalDigit

/-!
# Command line arguments

A command line names an action and its file; flags may stand around them. Long flags may be
shortened as long as they stay unique, a value may be attached with `=`, and behind `--` nothing is
a flag any more. Asking for help ends the reading at once; an unknown flag only spoils its result.
-/

namespace TemplateScript.Command

inductive Action where
  | tokens
  | tree
  | run
  deriving DecidableEq, Repr

def Action.ofName? : String → Option Action
  | "tokens" => some tokens
  | "ast" => some tree
  | "run" => some run
  | _ => none

inductive Flag where
  | help
  | logLevel
  | permissive
  | json
  deriving DecidableEq, Repr

abbrev Flags := List (String × Flag)

def leadingFlags : Flags := [("-h", .help), ("--help", .help), ("--log-level", .logLevel)]

def Action.flags : Action → Flags
  | run => [("-h", .help), ("--help", .help), ("--permissive", .permissive), ("--json", .json)]
  | _ => [("-h", .help), ("--help", .help)]

/-- What an argument is taken for. -/
inductive Role where
  | plain
  | divider
  | flag (f : Flag) (attached : Option String)
  | unknown
  | misuse
  | ambiguous
  deriving DecidableEq, Repr

/-- The role of `-h` with letters joined to it: each must be a short flag of its own, and help is the
only one there is. -/
def clusterRole (letters : List Char) : Role :=
  if letters.all (· = 'h') then .flag .help none else .misuse

def allDigits (cs : List Char) : Bool := !cs.isEmpty && cs.all fun c => (Text.digitValue? c).isSome

def isNumber (cs : List Char) : Bool :=
  let cs := if cs.getLast? = some '\n' then cs.dropLast else cs
  let whole := cs.takeWhile (· ≠ '.')
  match cs.dropWhile (· ≠ '.') with
  | [] => allDigits whole
  | _ :: fraction => (whole.isEmpty || allDigits whole) && allDigits fraction

/-- An argument with a minus sign that no flag begins with. -/
def strangeRole (cs : List Char) : Role :=
  if isNumber cs.tail || ' ' ∈ cs then .plain else .unknown

/-- The role of a flag that is written in full or shortened, with what is attached to it. -/
def longRole (flags : Flags) (cs : List Char) : Role :=
  let name := cs.takeWhile (· ≠ '=')
  let attached :=
    match cs.dropWhile (· ≠ '=') with
    | [] => none
    | _ :: v => some (String.ofList v)
  match flags.lookup (String.ofList name) with
  | some f => .flag f attached
  | none =>
    match flags.filter fun p => name.isPrefixOf p.1.toList with
    | [] => strangeRole cs
    | [p] => .flag p.2 attached
    | _ => .ambiguous

def role (flags : Flags) (s : String) : Role :=
  match s.toList with
  | ['-', '-'] => .divider
  | '-' :: '-' :: r => longRole flags ('-' :: '-' :: r)
  | ['-', 'h'] => .flag .help none
  | ['-', 'h', '='] => .misuse
  | '-' :: 'h' :: '=' :: r => clusterRole r
  | '-' :: 'h' :: r => clusterRole r
  | '-' :: c :: r => strangeRole ('-' :: c :: r)
  | _ => .plain

/-- The arguments with their roles; behind a divider all are plain. -/
def roles (flags : Flags) : List String → List (String × Role)
  | [] => []
  | s :: ss =>
    match role flags s with
    | .divider => (s, .divider) :: ss.map (·, .plain)
    | r => (s, r) :: roles flags ss

/-- Why a command line is not carried out. -/
inductive Usage where
  | help
  | wrong
  deriving DecidableEq, Repr

structure Invocation where
  action : Action
  file : String
  logLevel : Option String
  permissive : Bool
  json : Bool
  deriving DecidableEq, Repr

structure Request where
  file : Option String := none
  permissive : Bool := false
  json : Bool := false
  spoiled : Bool := false

def readRequest (r : Request) : List (String × Role) → Except Usage Request
  | [] => .ok r
  | (s, .plain) :: (d, .divider) :: rest =>
    if r.file.isNone then readRequest { r with file := some s } rest
    else readRequest { r with spoiled := true } ((d, .divider) :: rest)
  | (s, .plain) :: rest =>
    if r.file.isNone then readRequest { r with file := some s } rest
    else readRequest { r with spoiled := true } rest
  | (_, .divider) :: (s, .plain) :: rest =>
    if r.file.isNone then readRequest { r with file := some s } rest
    else readRequest { r with spoiled := true } rest
  | (_, .divider) :: rest => readRequest { r with spoiled := true } rest
  | (_, .flag .help none) :: _ => .error .help
  | (_, .flag .permissive none) :: rest => readRequest { r with permissive := true } rest
  | (_, .flag .json none) :: rest => readRequest { r with json := true } rest
  | (_, .unknown) :: rest => readRequest { r with spoiled := true } rest
  | _ => .error .wrong

def readAction (logLevel : Option String) (spoiled : Bool) (name : String) (args : List String) :
    Except Usage Invocation :=
  match Action.ofName? name with
  | none => .error .wrong
  | some action => do
    let r ← readRequest {} (roles action.flags args)
    match r.file with
    | none => .error .wrong
    | some file =>
      if spoiled || r.spoiled then .error .wrong
      else .ok ⟨action, file, logLevel, r.permissive, r.json⟩

/-- Reads up to the action and from there on. A divider attached to the level means no level, also in
place of an earlier one. -/
def readLeading (logLevel : Option String) (spoiled : Bool) :
    List (String × Role) → Except Usage Invocation
  | (name, .plain) :: rest => readAction logLevel spoiled name (rest.map Prod.fst)
  | (_, .flag .help none) :: _ => .error .help
  | (_, .flag .logLevel (some "--")) :: rest => readLeading none spoiled rest
  | (_, .flag .logLevel (some v)) :: rest => readLeading (some v) spoiled rest
  | (_, .flag .logLevel none) :: (v, .plain) :: rest => readLeading (some v) spoiled rest
  | (_, .unknown) :: rest => readLeading logLevel true rest
  | _ => .error .wrong

def readArguments (args : List String) : Except Usage Invocation :=
  let rs := roles leadingFlags args
  if rs.any fun p => p.2 = .ambiguous then .error .wrong else readLeading none false rs

end TemplateScript.Command
