/-!
# Breakdowns

What ends an operation without a diagnostic: a whole number with too many digits to be written, a
remainder that no double is, a tree made by hand that lacks a part, a node that a visitor has no case
for, and a file name that no file can have.
-/

namespace TemplateScript

inductive Breakdown where
  | digitLimit
  | domain
  | missing (kind part : String)
  | noCase (kind : String)
  | nullInName
  deriving DecidableEq, Repr

def Breakdown.message : Breakdown → String
  | digitLimit =>
    "Exceeds the limit (4300 digits) for integer string conversion; "
      ++ "use sys.set_int_max_str_digits() to increase the limit"
  | domain => "math domain error"
  | missing kind part => "'" ++ kind ++ "' object has no attribute '" ++ part ++ "'"
  | noCase kind => "No visitor for " ++ kind
  | nullInName => "embedded null byte"

def orDigitLimit {α : Type} : Option α → Except Breakdown α
  | some a => .ok a
  | none => .error .digitLimit

/-! ## Results that may be failures -/

section
variable {ε α β : Type} {r : Except ε α} {a : α} {b : β} {e : ε}

theorem ok_of_map {f : α → β} (h : r.map f = .ok b) : ∃ a, r = .ok a ∧ f a = b := by
  cases r with
  | error e => cases h
  | ok a => exact ⟨a, rfl, Except.ok.inj h⟩

theorem ok_of_bind {k : α → Except ε β} (h : r >>= k = .ok b) : ∃ a, r = .ok a ∧ k a = .ok b := by
  cases r with
  | error e => cases h
  | ok a => exact ⟨a, rfl, h⟩

theorem eq_ok_of_toOption (h : r.toOption = some a) : r = .ok a := by
  cases r with
  | error e => cases h
  | ok b => exact congrArg Except.ok (Option.some.inj h)

theorem eq_error_of_match (h : (match r with | .ok _ => none | .error e => some e) = some e) :
    r = .error e := by
  cases r with
  | ok a => cases h
  | error e' => exact congrArg Except.error (Option.some.inj h)

end

end TemplateScript
