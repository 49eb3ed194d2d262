import TemplateScript.Proofs.CursorReadings
import TemplateScript.Proofs.NodeSpans

/-!
# Faults of reading

Whatever tokens are read, a reading that fails reports a fault of reading, and so an error with one
of six codes, over some of the tokens. A list that no aborted scan left is never found incomplete.
-/

namespace TemplateScript

def Fault.isReading : Fault → Bool
  | unexpectedToken .. | unexpectedEnd _ | constantWithoutValue _ | literalTooLarge _ => true
  | _ => false

theorem Fault.code_of_isReading {f : Fault} (h : f.isReading = true) :
    f.code ∈ ["E101", "E102", "E106", "E107"] ∧ f.severity = .error := by
  cases f
  case unexpectedToken | unexpectedEnd | constantWithoutValue | literalTooLarge =>
    exact ⟨by simp [code], rfl⟩
  all_goals cases h

open TokenReader

namespace Reader

variable {α β : Type} {us : List Token}

inductive Settles (us ts : List Token) : Except Diagnostic α × List Token → Prop
  | ok {a : α} {rest : List Token} : rest <:+ ts → Settles us ts (.ok a, rest)
  | fault {f : Fault} {s : Span} {rest : List Token} : f.isReading = true → s.Joins us →
      Settles us ts (.error (f.diagnoseAt s), rest)

theorem Settles.mono {ts us' ts' : List Token} {r : Except Diagnostic α × List Token}
    (h : Settles us ts r) (hus : us.Sublist us') (hts : ts <:+ ts') : Settles us' ts' r := by
  cases h with
  | ok hrest => exact .ok (hrest.trans hts)
  | fault hf hs => exact .fault hf (hs.mono hus)

/-- A reader that fails reports a fault of reading over tokens: some that were taken ahead of it,
the ones that it is given and the one behind these. -/
structure FailsReading (us : List Token) (p : Reader α) : Prop where
  settles : ∀ stop ts, Settles (us ++ (ts ++ [stop])) ts (p stop ts)

theorem FailsReading.taken {t : Token} {p : Reader α} (h : FailsReading (us ++ [t]) p)
    (stop : Token) (ts : List Token) :
    Settles (us ++ (t :: ts ++ [stop])) (t :: ts) (p stop ts) := by
  have hsettles := h.settles stop ts
  rw [List.append_assoc] at hsettles
  exact hsettles.mono (List.Sublist.refl _) (List.suffix_cons t ts)

theorem FailsReading.mono {p : Reader α} (h : FailsReading us p) {vs : List Token}
    (hus : us.Sublist vs) : FailsReading vs p :=
  ⟨fun stop ts => (h.settles stop ts).mono (hus.append_right _) (List.suffix_refl ts)⟩

theorem FailsReading.left {p : Reader α} (h : FailsReading us p) {stop : Token}
    {ts rest : List Token} {a : α} (hr : p stop ts = (.ok a, rest)) : rest <:+ ts := by
  have hsettles := h.settles stop ts
  rw [hr] at hsettles
  cases hsettles with
  | ok hrest => exact hrest

theorem failsReading_pure (a : α) : FailsReading us (pure a : Reader α) :=
  ⟨fun _ ts => .ok (List.suffix_refl ts)⟩

theorem failsReading_bind_of_ok {p : Reader α} {k : α → Reader β} (hp : FailsReading us p)
    (hk : ∀ {stop ts a mid}, p stop ts = (.ok a, mid) →
      Settles (us ++ (ts ++ [stop])) ts (k a stop mid)) : FailsReading us (p >>= k) := by
  refine ⟨fun stop ts => ?_⟩
  have hsettles := hp.settles stop ts
  cases hr : p stop ts with
  | mk r mid =>
    rw [hr] at hsettles
    cases hsettles with
    | ok =>
      rw [bind_ok hr]
      exact hk hr
    | fault hf hs =>
      rw [bind_error hr]
      exact .fault hf hs

theorem failsReading_bind {p : Reader α} {k : α → Reader β} (hp : FailsReading us p)
    (hk : ∀ a, FailsReading us (k a)) : FailsReading us (p >>= k) := by
  refine failsReading_bind_of_ok hp fun {stop ts a mid} h => ?_
  have hmid : mid <:+ ts := hp.left h
  have hend : (mid ++ [stop]).Sublist (ts ++ [stop]) := hmid.sublist.append_right [stop]
  exact ((hk a).settles stop mid).mono (hend.append_left us) hmid

theorem failsReading_optional {p : Reader (Option α)} {k : Option α → Reader β}
    (hp : FailsReading us p) (hsome : ∀ a, FailsReading us (k (some a)))
    (hnone : FailsReading us (k none)) : FailsReading us (p >>= k) := by
  refine failsReading_bind hp fun o => ?_
  cases o with
  | none => exact hnone
  | some a => exact hsome a

theorem failsReading_fail {f : Fault} (hf : f.isReading = true) {s : Span} (hs : s.Joins us) :
    FailsReading us (fail f s : Reader α) :=
  ⟨fun _ _ => .fault hf (hs.mono (List.sublist_append_left us _))⟩

theorem failsReading_peek : FailsReading us peek := ⟨fun _ ts => .ok (List.suffix_refl ts)⟩

theorem failsReading_current : FailsReading us current := ⟨fun _ ts => .ok (List.suffix_refl ts)⟩

theorem failsReading_left : FailsReading us left := ⟨fun _ ts => .ok (List.suffix_refl ts)⟩

theorem failsReading_takeIf (p : Token → Bool) : FailsReading us (takeIf p) := by
  refine ⟨fun stop ts => ?_⟩
  cases ts with
  | nil => exact .ok (List.suffix_refl [])
  | cons t ts =>
    rw [takeIf_cons]
    split
    · exact .ok (List.suffix_cons t ts)
    · exact .ok (List.suffix_refl (t :: ts))

theorem failsReading_accept (k : Token.Kind) : FailsReading us (accept k) := failsReading_takeIf _

theorem failsReading_taken {p : Token → Bool} {k : Option Token → Reader β}
    (hsome : ∀ t, FailsReading (us ++ [t]) (k (some t))) (hnone : FailsReading us (k none)) :
    FailsReading us (takeIf p >>= k) := by
  refine failsReading_bind_of_ok (failsReading_takeIf p) fun {stop ts o mid} h => ?_
  cases o with
  | none =>
    obtain ⟨rfl, -⟩ := takeIf_eq_none h
    exact hnone.settles stop mid
  | some t =>
    obtain ⟨rfl, -⟩ := takeIf_eq_some h
    exact (hsome t).taken stop mid

theorem failsReading_unexpected (expected : String) :
    FailsReading us (unexpected expected : Reader α) := by
  refine ⟨fun stop ts => ?_⟩
  cases ts with
  | nil => exact .fault rfl (Span.joins_last us stop)
  | cons t ts => exact .fault rfl (Span.joins_token (List.mem_append_right us List.mem_cons_self))

theorem failsReading_expect (k : Token.Kind) (expected : String) :
    FailsReading us (expect k expected) :=
  failsReading_optional (failsReading_accept k) failsReading_pure (failsReading_unexpected expected)

theorem failsReading_acceptSpan (k : Token.Kind) : FailsReading us (acceptSpan k) :=
  failsReading_optional (failsReading_accept k)
    (fun _ => ⟨fun _ ts => .ok (List.suffix_refl ts)⟩) (failsReading_pure none)

theorem failsReading_spanTaken {c : Token.Kind} {k : Option Span → Reader β}
    (hsome : ∀ t : Token, FailsReading (us ++ [t]) (k (some t.span)))
    (hnone : FailsReading us (k none)) : FailsReading us (acceptSpan c >>= k) := by
  refine failsReading_bind_of_ok (failsReading_acceptSpan c) fun {stop ts o mid} h => ?_
  cases o with
  | none =>
    obtain ⟨rfl, -⟩ := acceptSpan_eq_none h
    exact hnone.settles stop mid
  | some s =>
    obtain ⟨t, rfl, -, rfl⟩ := acceptSpan_eq_some h
    exact (hsome t).taken stop mid

theorem failsReading_expectSpan (k : Token.Kind) (expected : String) :
    FailsReading us (expectSpan k expected) :=
  failsReading_optional (failsReading_acceptSpan k) failsReading_pure
    (failsReading_unexpected expected)

theorem failsReading_exhausted : FailsReading us (exhausted : Reader α) := by
  rw [exhausted_eq]
  exact failsReading_unexpected "expression"

theorem failsReading_manyWithin {item : Reader (Option α)} (h : FailsReading us item)
    (bound : Nat) : FailsReading us (manyWithin item bound) := by
  induction bound with
  | zero => exact failsReading_exhausted
  | succ bound ih =>
    exact failsReading_optional h
      (fun _ => failsReading_bind ih fun _ => failsReading_pure _) (failsReading_pure _)

theorem failsReading_many {item : Reader (Option α)} (h : FailsReading us item) :
    FailsReading us (many item) :=
  failsReading_bind failsReading_left fun n => failsReading_manyWithin h (n + 1)

end Reader

namespace Grammar

open Reader

section
variable {us : List Token}

theorem failsReading_number (t : Token) : FailsReading (us ++ [t]) (number t) := by
  unfold number
  split
  · exact failsReading_pure _
  · exact failsReading_fail rfl (Span.joins_last us t)

section
variable {inner : Reader Node} (hi : FailsReading us inner)
include hi

theorem failsReading_grouped : FailsReading us (grouped inner) :=
  failsReading_bind hi fun n => failsReading_bind (failsReading_expect _ _) fun _ =>
    failsReading_pure n

theorem failsReading_primary : FailsReading us (primary inner) := by
  refine ⟨fun stop ts => ?_⟩
  cases ts with
  | nil => exact (failsReading_unexpected "expression").settles stop []
  | cons t ts =>
    rw [primary_cons]
    split
    · exact .ok (List.suffix_cons t ts)
    · exact (failsReading_number t).taken stop ts
    · exact ((failsReading_grouped hi).mono (List.sublist_append_left us [t])).taken stop ts
    · exact (failsReading_unexpected "expression").settles stop (t :: ts)

variable (hs : Sound inner (Derives .assignment))
include hs

theorem failsReading_fieldAccess : FailsReading us (fieldAccess inner) := by
  refine failsReading_bind_of_ok (failsReading_primary hi) fun {stop ts n mid} h => ?_
  obtain ⟨used, rfl, hd⟩ := primary_sound hs h
  -- What is read in place of a name is a tree, and the fault stands where the tree does.
  obtain ⟨s, hspan, hjoins⟩ := hd.spanned.span
  have hused : used.Sublist (us ++ (used ++ mid ++ [stop])) := by
    rw [List.append_assoc]
    exact (List.sublist_append_left used _).trans (List.sublist_append_right us _)
  split
  · exact .ok (List.suffix_append used mid)
  · rw [hspan]
    exact .fault rfl (hjoins.mono hused)

omit hs in
theorem failsReading_indexAccess : FailsReading us (indexAccess inner) :=
  failsReading_bind hi fun _ => failsReading_bind (failsReading_expectSpan _ _) fun _ =>
    failsReading_pure _

theorem failsReading_access : FailsReading us (access inner) :=
  failsReading_optional (failsReading_accept _) (fun _ => failsReading_fieldAccess hi hs) <|
    failsReading_optional (failsReading_accept _) (fun _ => failsReading_indexAccess hi)
      (failsReading_pure none)

theorem failsReading_member : FailsReading us (member inner) :=
  failsReading_bind (failsReading_primary hi) fun _ =>
    failsReading_bind (failsReading_many (failsReading_access hi hs)) fun _ => failsReading_pure _

omit hs in
theorem failsReading_argument : FailsReading us (argument inner) :=
  failsReading_optional (failsReading_accept _)
    (fun _ => failsReading_bind hi fun n => failsReading_pure (some n)) (failsReading_pure none)

omit hs in
theorem failsReading_arguments : FailsReading us (arguments inner) := by
  refine failsReading_bind failsReading_peek fun k => ?_
  split
  · exact failsReading_pure _
  · exact failsReading_bind hi fun _ =>
      failsReading_bind (failsReading_many (failsReading_argument hi)) fun _ => failsReading_pure _

omit hs in
theorem failsReading_callArguments : FailsReading us (callArguments inner) :=
  failsReading_optional (failsReading_accept _)
    (fun _ => failsReading_bind (failsReading_arguments hi) fun _ =>
      failsReading_bind (failsReading_expectSpan _ _) fun _ => failsReading_pure _)
    (failsReading_pure none)

theorem failsReading_call : FailsReading us (call inner) :=
  failsReading_bind (failsReading_member hi hs) fun _ =>
    failsReading_bind (failsReading_many (failsReading_callArguments hi)) fun _ =>
      failsReading_pure _

omit hi hs in
theorem failsReading_chain {operand : Reader Node} (ho : FailsReading us operand)
    (ops : List String) : FailsReading us (chain ops operand) := by
  have hoperation : FailsReading us (operation ops operand) :=
    failsReading_optional (failsReading_takeIf _)
      (fun t => failsReading_bind ho fun n => failsReading_pure (some (t.text, n)))
      (failsReading_pure none)
  exact failsReading_bind ho fun _ =>
    failsReading_bind (failsReading_many hoperation) fun _ => failsReading_pure _

theorem failsReading_additive : FailsReading us (additive inner) :=
  failsReading_chain (failsReading_chain (failsReading_call hi hs) _) _

omit hi hs in
theorem failsReading_separator : FailsReading us separator := by
  refine failsReading_bind failsReading_peek fun k => ?_
  split
  · exact failsReading_pure _
  · exact failsReading_bind (failsReading_expect _ _) fun _ => failsReading_pure _

omit hs in
theorem failsReading_keyValue (key : Token) : FailsReading us (keyValue inner key) :=
  failsReading_bind (failsReading_expect _ _) fun _ => failsReading_bind hi fun _ =>
    failsReading_bind failsReading_separator fun _ => failsReading_pure _

omit hs in
theorem failsReading_property : FailsReading us (property inner) := by
  refine failsReading_bind failsReading_peek fun k => ?_
  split
  · exact failsReading_pure _
  · refine failsReading_bind (failsReading_expect _ _) fun key =>
      failsReading_optional (failsReading_accept _) (fun _ => failsReading_pure _) ?_
    refine failsReading_bind failsReading_peek fun k => ?_
    split
    · exact failsReading_pure _
    · exact failsReading_keyValue hi key

theorem failsReading_object : FailsReading us (object inner) :=
  failsReading_optional (failsReading_accept _)
    (fun _ => failsReading_bind (failsReading_many (failsReading_property hi)) fun _ =>
      failsReading_bind (failsReading_expectSpan _ _) fun _ => failsReading_pure _)
    (failsReading_additive hi hs)

theorem failsReading_assignment : FailsReading us (assignment inner) :=
  failsReading_bind (failsReading_object hi hs) fun target =>
    failsReading_optional (failsReading_accept _)
      (fun _ => failsReading_bind hi fun _ => failsReading_pure _) (failsReading_pure target)

end

theorem failsReading_expressionWithin (bound : Nat) :
    FailsReading us (expressionWithin bound) := by
  induction bound with
  | zero => exact failsReading_exhausted
  | succ bound ih => exact failsReading_assignment ih (expressionWithin_sound bound)

theorem failsReading_expression : FailsReading us expression :=
  failsReading_bind failsReading_left fun n => failsReading_expressionWithin (n + 1)

/-- A constant without a value is reported from its first word to the semicolon. -/
theorem failsReading_declaration (start : Token) :
    FailsReading (us ++ [start]) (declaration start) := by
  refine failsReading_bind (failsReading_expect _ _) fun name =>
    failsReading_spanTaken (fun semi => ?_) ?_
  · have hconstant : (start.span.through semi.span).Joins (us ++ [start] ++ [semi]) :=
      (Span.joins_last us start).through (Span.joins_self semi)
    dsimp only
    split
    · exact failsReading_fail rfl hconstant
    · exact failsReading_pure _
  · exact failsReading_bind (failsReading_expect _ _) fun _ =>
      failsReading_bind failsReading_expression fun _ =>
        failsReading_bind (failsReading_expectSpan _ _) fun _ => failsReading_pure _

theorem failsReading_statement : FailsReading us statement :=
  failsReading_taken failsReading_declaration
    (failsReading_bind failsReading_expression fun n =>
      failsReading_bind (failsReading_accept _) fun _ => failsReading_pure n)

theorem failsReading_nextStatement : FailsReading us nextStatement := by
  refine failsReading_bind failsReading_peek fun k => ?_
  split
  · exact failsReading_pure _
  · exact failsReading_bind failsReading_statement fun _ => failsReading_pure _

theorem failsReading_program : FailsReading us program :=
  failsReading_bind failsReading_current fun _ =>
    failsReading_bind (failsReading_many failsReading_nextStatement) fun _ => failsReading_pure _

end

end Grammar

/-! ## Whole token lists -/

namespace Cursor

variable {c c' : Cursor}

theorem enter_fault {d : Diagnostic} (h : c.enter = .error (.fault d)) :
    ∃ (f : Fault) (s : Span), d = f.diagnoseAt s ∧ s.Joins c.tokens ∧
      (f = .missingCloseTag ∨ f = .incompleteTokens ∧ Token.scanAborted c.tokens = true) := by
  unfold enter at h
  split at h
  · cases h
  · rename_i last hlast
    have hjoins : last.span.Joins c.tokens := Span.joins_token (List.mem_of_getLast? hlast)
    split at h
    · rename_i hmark
      cases h
      exact ⟨_, _, rfl, hjoins, Or.inr ⟨rfl, by simpa [Token.scanAborted, hlast] using hmark⟩⟩
    · split at h
      · cases h
      · cases h
        exact ⟨_, _, rfl, hjoins, Or.inl rfl⟩
      · cases h

theorem rest_sublist {stop : Token} (h : c.tokens[c.stop]? = some stop) :
    (c.rest ++ [stop]).Sublist c.tokens := by
  have htake : c.tokens.take (c.stop + 1) = c.tokens.take c.stop ++ [stop] := by
    rw [List.take_add_one, h]
    rfl
  have hrest : (c.rest ++ [stop]).Sublist (c.tokens.take (c.stop + 1)) := by
    rw [htake]
    exact (List.drop_sublist c.pos _).append_right [stop]
  exact hrest.trans (List.take_sublist _ _)

/-- What is reported where a reading fails: a fault of reading, a region without its end, or tokens
that an aborted scan left. -/
theorem InRange.read_fault {d : Diagnostic} (hrange : c.InRange)
    (h : c.read.1 = .error (.fault d)) :
    ∃ (f : Fault) (s : Span), d = f.diagnoseAt s ∧ s.Joins c.tokens ∧
      (f.isReading = true ∨ f = .missingCloseTag ∨
        f = .incompleteTokens ∧ Token.scanAborted c.tokens = true) := by
  cases he : c.enter with
  | error e =>
    unfold read at h
    rw [he] at h
    cases h
    obtain ⟨f, s, hd, hs, hf⟩ := enter_fault he
    exact ⟨f, s, hd, hs, Or.inr hf⟩
  | ok c' =>
    obtain ⟨stop, hstop⟩ := (hrange.enter he).exists_stop
    have hjoins := rest_sublist hstop
    rw [enter_tokens he] at hjoins
    have hreader : Reader.FailsReading [] Grammar.program := Grammar.failsReading_program
    have hsettles := hreader.settles stop c'.rest
    rw [(hrange.read_entered he hstop).1] at h
    generalize (Grammar.program : Reader _) stop c'.rest = r at h hsettles
    cases hsettles with
    | ok => cases h
    | @fault f s _ hf hs =>
      cases h
      exact ⟨f, s, rfl, hs.mono hjoins, Or.inl hf⟩

end Cursor

theorem Node.ofTokens_fault {ts : List Token} {d : Diagnostic}
    (h : ofTokens ts = .error (.fault d)) :
    ∃ (f : Fault) (s : Span), d = f.diagnoseAt s ∧ s.Joins ts ∧
      (f.isReading = true ∨ f = .missingCloseTag ∨
        f = .incompleteTokens ∧ Token.scanAborted ts = true) := by
  have hts : ts ≠ [] := by
    rintro rfl
    cases h
  exact (Cursor.inRange_ofTokens hts).read_fault h

theorem Node.isError_of_ofTokens {ts : List Token} {d : Diagnostic}
    (h : ofTokens ts = .error (.fault d)) : d.isError = true := by
  obtain ⟨f, s, rfl, -, hf⟩ := ofTokens_fault h
  have hseverity : f.severity = .error := by
    rcases hf with hf | rfl | ⟨rfl, -⟩
    · exact (Fault.code_of_isReading hf).2
    · rfl
    · rfl
  simp [Diagnostic.isError, Fault.diagnoseAt, hseverity]

end TemplateScript
