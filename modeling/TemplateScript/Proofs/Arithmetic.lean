import TemplateScript.Proofs.ExpressionScript

/-!
# Arithmetic on whole numbers

The script of an arithmetic tree over literals gives the value of the tree over the whole numbers,
exactly and whatever its size, as long as no division leaves a remainder; the first division by zero
on the way is reported.
-/

namespace TemplateScript

/-! ## Trees and their values -/

structure Literal where
  digits : List Char
  nonempty : digits ≠ []
  decimal : ∀ c ∈ digits, c.isDigit = true
  short : digits.length ≤ Numeral.digitLimit

def Literal.value (l : Literal) : Nat := Nat.ofDigitChars 10 l.digits 0

namespace Arithmetic

inductive Operator where
  | add
  | sub
  | mul
  | div
  | rem
  deriving DecidableEq, Repr

inductive Stop where
  | zeroDivisor (operator : Operator)
  | inexact
  deriving DecidableEq, Repr

namespace Operator

def symbol : Operator → String
  | add => "+"
  | sub => "-"
  | mul => "*"
  | div => "/"
  | rem => "%"

def binding : Operator → Nat
  | add | sub => 1
  | mul | div | rem => 2

/-- The quotient must be exact. The remainder is what a quotient cut off towards zero leaves. -/
def apply (operator : Operator) (a b : Int) : Except Stop Int :=
  match operator with
  | add => .ok (a + b)
  | sub => .ok (a - b)
  | mul => .ok (a * b)
  | div => if b = 0 then .error (.zeroDivisor div) else if b ∣ a then .ok (a / b) else .error .inexact
  | rem => if b = 0 then .error (.zeroDivisor rem) else .ok (a - b * a.tdiv b)

def complaint : Operator → String
  | rem => "modulo by zero"
  | _ => "division by zero"

end Operator

end Arithmetic

inductive Arithmetic where
  | literal (l : Literal)
  | operation (left : Arithmetic) (operator : Arithmetic.Operator) (right : Arithmetic)

namespace Arithmetic

def value : Arithmetic → Except Stop Int
  | literal l => .ok l.value
  | operation left operator right => do
    let a ← left.value
    let b ← right.value
    operator.apply a b

def binding : Arithmetic → Nat
  | literal _ => 3
  | operation _ operator _ => operator.binding

def parenthesized (fs : List Face) : List Face :=
  (.openParen, "(") :: (fs ++ [(.closeParen, ")")])

/-- The lexemes of a tree, with parentheses only where an operand binds less tightly than its place
requires: operators of one kind group to the left. -/
def lexemes : Arithmetic → List Face
  | literal l => [(.number, String.ofList l.digits)]
  | operation left operator right =>
    (if left.binding < operator.binding then parenthesized left.lexemes else left.lexemes)
      ++ (.operator, operator.symbol) ::
        if right.binding ≤ operator.binding then parenthesized right.lexemes else right.lexemes

def script (e : Arithmetic) : String := spacedScript e.lexemes

/-! ## Trees as expressions -/

def toNode : Arithmetic → Node
  | literal l => .literal none (.int l.value)
  | operation left operator right => .binary none left.toNode operator.symbol right.toNode

open Grammar (Level)

namespace Operator

def level : Operator → Level
  | add | sub => .additive
  | mul | div | rem => .multiplicative

theorem symbol_mem (operator : Operator) : operator.symbol ∈ operator.level.operators := by
  cases operator <;> decide

theorem level_binary (s : Option Span) (a b : Node) (operator : Operator) :
    (Node.binary s a operator.symbol b).level = operator.level := by
  cases operator <;> rfl

end Operator

theorem enclosed_left (left : Arithmetic) (operator : Operator) (fs : List Face) :
    left.toNode.enclosed operator.level fs
      = if left.binding < operator.binding then parenthesized fs else fs := by
  cases left with
  | literal l => cases operator <;> rfl
  | operation a o b =>
    rw [toNode, Node.enclosed, Operator.level_binary]
    cases operator <;> cases o <;> rfl

theorem enclosed_right (right : Arithmetic) (operator : Operator) (fs : List Face) :
    right.toNode.enclosed operator.level.below fs
      = if right.binding ≤ operator.binding then parenthesized fs else fs := by
  cases right with
  | literal l => cases operator <;> rfl
  | operation a o b =>
    rw [toNode, Node.enclosed, Operator.level_binary]
    cases operator <;> cases o <;> rfl

theorem renders_toNode (e : Arithmetic) : Grammar.Renders e.toNode.level e.lexemes e.toNode := by
  induction e with
  | literal l =>
    exact .numeral none (Numeral.read?_of_isDigit l.nonempty l.decimal l.short)
  | operation left operator right hl hr =>
    rw [lexemes, ← enclosed_left, ← enclosed_right, toNode, Operator.level_binary]
    exact .binary none (hl.enclosed _) operator.symbol_mem (hr.enclosed _)

/-! ## Lexemes -/

theorem lexeme_symbol (operator : Operator) : Lexeme (.operator, operator.symbol) := by
  cases operator
  case add => exact .punctuation (c := '+') rfl
  case sub => exact .punctuation (c := '-') rfl
  case mul => exact .punctuation (c := '*') rfl
  case div => exact .punctuation (c := '/') rfl
  case rem => exact .punctuation (c := '%') rfl

theorem lexeme_parenthesized {fs : List Face} (h : ∀ f ∈ fs, Lexeme f) :
    ∀ f ∈ parenthesized fs, Lexeme f := by
  intro f hf
  rcases List.mem_cons.1 hf with rfl | hf
  · exact .punctuation (c := '(') rfl
  rcases List.mem_append.1 hf with hf | hf
  · exact h f hf
  · obtain rfl := List.mem_singleton.1 hf
    exact .punctuation (c := ')') rfl

theorem lexeme_lexemes (e : Arithmetic) : ∀ f ∈ e.lexemes, Lexeme f := by
  induction e with
  | literal l =>
    intro f hf
    obtain rfl := List.mem_singleton.1 hf
    exact .digits l.nonempty l.decimal
  | operation left operator right hl hr =>
    intro f hf
    rcases List.mem_append.1 hf with hf | hf
    · split at hf
      · exact lexeme_parenthesized hl f hf
      · exact hl f hf
    rcases List.mem_cons.1 hf with rfl | hf
    · exact lexeme_symbol operator
    split at hf
    · exact lexeme_parenthesized hr f hf
    · exact hr f hf

/-! ## Evaluation -/

namespace Operator

section
variable {operator o : Operator} {a b n : Int}

/-- Whole operands meet as whole numbers where the reference has a value. -/
theorem apply_ok (h : operator.apply a b = .ok n) :
    Number.apply operator.symbol (.int a) (.int b) = .ok (.int n) := by
  cases operator with
  | add | sub | mul =>
    cases h
    rfl
  | div =>
    simp only [apply] at h
    split at h
    · cases h
    rename_i hb
    split at h
    · rename_i hdvd
      cases h
      have hexact : a.tmod b = 0 := Int.dvd_iff_tmod_eq_zero.1 hdvd
      simp [symbol, Number.apply, Number.div, Number.isZero, hb, hexact,
        Int.tdiv_eq_ediv_of_dvd hdvd]
    · cases h
  | rem =>
    simp only [apply] at h
    split at h
    · cases h
    rename_i hb
    cases h
    simp [symbol, Number.apply, Number.mod, Number.isZero, hb, Int.tmod_def]

theorem apply_zeroDivisor (h : operator.apply a b = .error (.zeroDivisor o)) :
    o = operator ∧ Number.apply operator.symbol (.int a) (.int b) = .error .zeroDivisor := by
  cases operator with
  | add | sub | mul => cases h
  | div =>
    simp only [apply] at h
    split at h
    · rename_i hb
      cases h
      simp [symbol, Number.apply, Number.div, Number.isZero, hb]
    · split at h <;> cases h
  | rem =>
    simp only [apply] at h
    split at h
    · rename_i hb
      cases h
      simp [symbol, Number.apply, Number.mod, Number.isZero, hb]
    · cases h

end

end Operator

structure Agrees (e : Arithmetic) (mode : Mode) (scope : Nat) : Prop where
  ok : ∀ {n : Int}, e.value = .ok n → ∀ st,
    e.toNode.eval mode scope st = (.ok (.number (.int n)), st)
  zeroDivisor : ∀ {o : Operator}, e.value = .error (.zeroDivisor o) → ∀ st,
    e.toNode.eval mode scope st
      = (.error (.fault ((Fault.zeroDivisor o.symbol).diagnoseAt none)), st)

section
variable {left right : Arithmetic} {operator : Operator} {mode : Mode} {scope : Nat}

theorem value_operation (left : Arithmetic) (operator : Operator) (right : Arithmetic) :
    (operation left operator right).value
      = left.value >>= fun a => right.value >>= fun b => operator.apply a b := rfl

theorem agrees_of_left_stops {s : Stop} (hl : left.Agrees mode scope) (h : left.value = .error s) :
    (operation left operator right).Agrees mode scope := by
  have hv : (operation left operator right).value = .error s := by
    rw [value_operation, h]
    rfl
  refine ⟨fun hn => ?_, fun ho st => ?_⟩
  · rw [hv] at hn
    cases hn
  · rw [hv] at ho
    cases ho
    simp only [toNode, Node.eval]
    rw [Eval.bind_error (hl.zeroDivisor h st)]

theorem agrees_of_right_stops {a : Int} {s : Stop} (hl : left.Agrees mode scope)
    (hr : right.Agrees mode scope) (ha : left.value = .ok a) (h : right.value = .error s) :
    (operation left operator right).Agrees mode scope := by
  have hv : (operation left operator right).value = .error s := by
    rw [value_operation, ha, h]
    rfl
  refine ⟨fun hn => ?_, fun ho st => ?_⟩
  · rw [hv] at hn
    cases hn
  · rw [hv] at ho
    cases ho
    simp only [toNode, Node.eval]
    rw [Eval.bind_ok (hl.ok ha st), Eval.bind_error (hr.zeroDivisor h st)]

theorem agrees_of_values {a b : Int} (hl : left.Agrees mode scope) (hr : right.Agrees mode scope)
    (ha : left.value = .ok a) (hb : right.value = .ok b) :
    (operation left operator right).Agrees mode scope := by
  have hv : (operation left operator right).value = operator.apply a b := by
    rw [value_operation, ha, hb]
    rfl
  refine ⟨fun hn st => ?_, fun ho st => ?_⟩
  · rw [hv] at hn
    simp only [toNode, Node.eval]
    rw [Eval.bind_ok (hl.ok ha st), Eval.bind_ok (hr.ok hb st)]
    simp only [Eval.operate, Operator.apply_ok hn]
    rfl
  · rw [hv] at ho
    obtain ⟨rfl, happly⟩ := Operator.apply_zeroDivisor ho
    simp only [toNode, Node.eval]
    rw [Eval.bind_ok (hl.ok ha st), Eval.bind_ok (hr.ok hb st)]
    simp only [Eval.operate, happly]
    rfl

end

/-- Evaluating a tree as an expression agrees with the reference. -/
theorem agrees (e : Arithmetic) (mode : Mode) (scope : Nat) : e.Agrees mode scope := by
  induction e with
  | literal l =>
    refine ⟨fun h st => ?_, fun h => nomatch h⟩
    cases h
    rfl
  | operation left operator right hl hr =>
    cases ha : left.value with
    | error s => exact agrees_of_left_stops hl ha
    | ok a =>
      cases hb : right.value with
      | error s => exact agrees_of_right_stops hl hr ha hb
      | ok b => exact agrees_of_values hl hr ha hb

/-! ## Runs -/

theorem run_script (e : Arithmetic) (mode : Mode) (file : Option String) (scope : Nat)
    (f : Forest) : (run mode file e.script scope f).seen Diagnostics.unplaced
      = (execute mode scope (.program none [e.toNode]) f).seen Diagnostics.unplaced := by
  have hrenders : Grammar.Renders .assignment e.lexemes e.toNode := by
    intro ts hts
    obtain ⟨m, hm, hmn⟩ := renders_toNode e ts hts
    exact ⟨m, hm.rise _ (by cases e.toNode.level <;> decide), hmn⟩
  exact run_spacedScript (lexeme_lexemes e) hrenders mode file scope f

theorem message_zeroDivisor (o : Operator) :
    (Fault.zeroDivisor o.symbol).message = o.complaint := by
  cases o <;> rfl

/-- Scripts of arithmetic are exact. Where the reference has a value, a run succeeds with it and
reports nothing; where it comes to a divisor of zero, a run fails, and the zero divisor is all that is
reported. -/
theorem arithmetic_exact (e : Arithmetic) (mode : Mode) (file : Option String) (scope : Nat)
    (f : Forest) :
    (∀ n, e.value = .ok n →
      (run mode file e.script scope f).outcome = .ok ⟨true, .number (.int n), .empty, none⟩) ∧
    ∀ o, e.value = .error (.zeroDivisor o) → ∃ d, (run mode file e.script scope f).outcome
        = .ok ⟨false, .null, Collector.empty.add d, mode.message d⟩ ∧
      d.code = "E406" ∧ d.severity = .error ∧ d.message = o.complaint := by
  have hrun := run_script e mode file scope f
  refine ⟨fun n hn => ?_, fun o ho => ?_⟩
  · rw [execute_sole_ok ((e.agrees mode scope).ok hn ⟨f, .empty⟩)] at hrun
    obtain ⟨ds, houtcome, hds⟩ := run_of_seen hrun
    obtain rfl : ds = [] := List.map_eq_nil_iff.1 hds
    exact houtcome
  · obtain ⟨log, hexec⟩ :=
      execute_sole_fault rfl ((e.agrees mode scope).zeroDivisor ho ⟨f, .empty⟩)
    rw [hexec] at hrun
    obtain ⟨ds, houtcome, hds⟩ := run_of_seen hrun
    obtain ⟨d, rest, rfl, hd, hrest⟩ := List.map_eq_cons_iff.1 hds
    obtain rfl := List.map_eq_nil_iff.1 hrest
    have hmessage : d.message = (Fault.zeroDivisor o.symbol).message := message_unplaced hd
    refine ⟨d, ?_, ?_, ?_, hmessage.trans (message_zeroDivisor o)⟩
    · rw [houtcome, Collector.add_empty d]
      cases mode with
      | strict => rw [Mode.message, Mode.message, hmessage]; rfl
      | permissive => rfl
    · exact congrArg Diagnostic.code hd
    · exact congrArg Diagnostic.severity hd

def digit (c : Char) (h : c.isDigit = true) : Arithmetic :=
  .literal ⟨[c], by simp, by simpa using h, by simp [Numeral.digitLimit]⟩

def negativeRemainder : Arithmetic :=
  .operation (.operation (.operation (digit '3' rfl) .sub (digit '8' rfl)) .rem (digit '3' rfl)) .div
    (digit '2' rfl)

def zeroModulo : Arithmetic :=
  .operation (.operation (digit '4' rfl) .rem (.operation (digit '2' rfl) .sub (digit '2' rfl))) .div
    (digit '0' rfl)

example : negativeRemainder.script = "<trans>( 3 - 8 ) % 3 / 2</trans>" := by decide +kernel

theorem negativeRemainder_exact :
    (run .strict none negativeRemainder.script 0 .start).outcome
        = .ok ⟨true, .number (.int (-1)), .empty, none⟩ ∧
      ∃ d, (run .strict none zeroModulo.script 0 .start).outcome
          = .ok ⟨false, .null, Collector.empty.add d, some d.message⟩ ∧
        d.code = "E406" ∧ d.severity = .error ∧ d.message = "modulo by zero" := by
  have hvalue : negativeRemainder.value = .ok (-1) := rfl
  have hstop : zeroModulo.value = .error (.zeroDivisor .rem) := rfl
  exact ⟨(arithmetic_exact negativeRemainder .strict none 0 .start).1 _ hvalue,
    (arithmetic_exact zeroModulo .strict none 0 .start).2 _ hstop⟩

end Arithmetic

end TemplateScript
