import TemplateScript.Proofs.OutcomeReports
import TemplateScript.Proofs.ScriptTrees

/-!
# What scripts report

Some faults and warnings of evaluation are about trees that are made by hand. The scanner and the
reader leave no way to them, so a run of a source reports none of them.
-/

namespace TemplateScript

def Fault.isScripted : Fault → Bool
  | undeclared _ | alreadyDeclared _ | constantReassigned _ | invalidTarget _
  | unsupportedOperands .. | zeroDivisor _ | overflow _ => true
  | unhandled kind => kind = "MemberExpr" || kind = "CallExpr"
  | _ => false

theorem Fault.code_of_isScripted {f : Fault} (h : f.isScripted = true) :
    f.code ∈ ["E401", "E402", "E403", "E404", "E405", "E406", "E409"] ∨
      f = .unhandled "MemberExpr" ∨ f = .unhandled "CallExpr" := by
  cases f
  case unhandled kind => exact Or.inr (by simpa [isScripted] using h)
  case undeclared | alreadyDeclared | constantReassigned | invalidTarget | unsupportedOperands
      | zeroDivisor | overflow => exact Or.inl (by simp [code])
  all_goals cases h

def Diagnostic.IsScripted (T : Option Span → Prop) (d : Diagnostic) : Prop :=
  ∃ (f : Fault) (s : Option Span), d = f.diagnoseAt s ∧ f.isScripted = true ∧ T s

def EvalFailure.FaultIs (Q : Diagnostic → Prop) : EvalFailure → Prop
  | .fault d => Q d
  | .breakdown _ => True

namespace Eval

variable {α β : Type} {Q : Diagnostic → Prop}

structure Tells (Q : Diagnostic → Prop) (e : Eval α) : Prop where
  fails : FailsWith (EvalFailure.FaultIs Q) e
  journal : ∀ st : EvalState, (∀ d ∈ st.journal.diagnostics, Q d) →
    ∀ d ∈ (e st).2.journal.diagnostics, Q d

theorem tells_pure (a : α) : Tells Q (pure a : Eval α) := ⟨failsWith_pure a, fun _ hst => hst⟩

theorem tells_bind {e : Eval α} {k : α → Eval β} (he : Tells Q e) (hk : ∀ a, Tells Q (k a)) :
    Tells Q (e >>= k) := by
  refine ⟨failsWith_bind he.fails fun a => (hk a).fails, fun st hst => ?_⟩
  have hmid := he.journal st hst
  cases h : e st with
  | mk r st' =>
    rw [h] at hmid
    cases r with
    | ok a =>
      rw [bind_ok h]
      exact (hk a).journal st' hmid
    | error x =>
      rw [bind_error h]
      exact hmid

theorem tells_fail {f : Fault} {s : Option Span} (hf : Q (f.diagnoseAt s)) :
    Tells Q (fail f s : Eval α) := ⟨failsWith_fail hf, fun _ hst => hst⟩

theorem tells_breakDown (b : Breakdown) : Tells Q (breakDown b : Eval α) :=
  ⟨fun _ _ h => by cases h; trivial, fun _ hst => hst⟩

theorem tells_report {d : Diagnostic} (hd : Q d) : Tells Q (report d) :=
  ⟨failsWith_report d, fun _ hst => List.forall_mem_append.2 ⟨hst, by simpa using hd⟩⟩

theorem tells_query {s : Option Span} {q : Forest → Except Fault α}
    (hq : ∀ f y, q f = .error y → Q (y.diagnoseAt s)) : Tells Q (query s q) := by
  refine ⟨failsWith_query hq, fun st hst => ?_⟩
  unfold query
  split <;> exact hst

theorem tells_change {s : Option Span} {q : Forest → Except Fault Forest}
    (hq : ∀ f y, q f = .error y → Q (y.diagnoseAt s)) : Tells Q (change s q) := by
  refine ⟨failsWith_change hq, fun st hst => ?_⟩
  unfold change
  split <;> exact hst

theorem tells_unhandled {kind : String} {s : Option Span}
    (h : Q ((Fault.unhandled kind).diagnoseAt s)) : Tells Q (unhandled kind s) :=
  tells_bind (tells_report h) fun _ => tells_pure _

theorem tells_attempt (mode : Mode) {e : Eval Value} (he : Tells Q e) : Tells Q (attempt mode e) := by
  refine ⟨failsWith_attempt mode he.fails, fun st hst => ?_⟩
  have hmid := he.journal st hst
  rcases result_cases e st with ⟨v, st', h⟩ | ⟨d, st', h⟩ | ⟨b, st', h⟩
  · cases mode <;> simpa [attempt, h] using hmid
  · have hd : Q d := he.fails st (.fault d) (by rw [h])
    rw [h] at hmid
    cases mode with
    | strict => simpa [attempt, h] using hmid
    | permissive =>
      -- The fault is caught and stands in the journal instead.
      simp only [attempt, h]
      exact (tells_report hd).journal st' hmid
  · cases mode <;> simpa [attempt, h] using hmid

end Eval

/-! ## Evaluating a script -/

theorem Number.mod_ne_unknownOperator (a b : Number) : a.mod b ≠ .error .unknownOperator := by
  unfold mod
  split
  · simp
  split
  · simp
  · intro h
    obtain ⟨p, -, hp⟩ := (bind_eq_error (asFloats_ne (by decide) _ _)).1 h
    split at hp <;> cases hp

theorem Number.apply_eq_unknownOperator {operator : String} {a b : Number} :
    apply operator a b = .error .unknownOperator ↔ operator ∉ Node.operators := by
  unfold apply
  split
  · simp [add_ne, Node.operators]
  · simp [sub_ne, Node.operators]
  · simp [mul_ne, Node.operators]
  · simp [div_ne, Node.operators]
  · simp [mod_ne_unknownOperator, Node.operators]
  · simp_all [Node.operators]

namespace Eval

variable (scope : Nat) (x : String) (v w : Value) (c : Bool) {s : Option Span}
  {T : Option Span → Prop} (hs : T s)
include hs

theorem tells_lookup : Tells (Diagnostic.IsScripted T) (lookup scope x s) :=
  tells_query fun _ _ h => ⟨_, s, rfl, lookup_eq_error h ▸ rfl, hs⟩

theorem tells_declare : Tells (Diagnostic.IsScripted T) (declare scope x v c s) :=
  tells_bind (tells_change fun _ _ h => ⟨_, s, rfl, declare_eq_error h ▸ rfl, hs⟩)
    fun _ => tells_pure v

theorem tells_assign : Tells (Diagnostic.IsScripted T) (assign scope x v s) := by
  refine tells_bind (tells_change fun f y h => ?_) fun _ => tells_pure v
  rcases assign_eq_error h with rfl | rfl
  · exact ⟨_, s, rfl, rfl, hs⟩
  · exact ⟨_, s, rfl, rfl, hs⟩

theorem tells_operate {op : String} (h : op ∈ Node.operators) :
    Tells (Diagnostic.IsScripted T) (operate op v w s) := by
  unfold operate
  split
  · split
    · exact tells_pure _
    · exact tells_fail ⟨_, s, rfl, rfl, hs⟩
    · exact tells_fail ⟨_, s, rfl, rfl, hs⟩
    · rename_i hunknown
      exact absurd h (Number.apply_eq_unknownOperator.1 hunknown)
    · exact tells_breakDown _
  · exact tells_fail ⟨_, s, rfl, rfl, hs⟩

end Eval

namespace Node

open Eval

variable {mode : Mode} {scope : Nat} {P : Int → Prop} {T : Option Span → Prop}

def EntryTells (T : Option Span → Prop) (mode : Mode) (scope : Nat) (p : Node) : Prop :=
  ∃ s key value, p = .property s key value ∧
    Tells (Diagnostic.IsScripted T) (entryValue mode scope s key value)

theorem tells_evalProperties {ps : List Node} (h : ∀ p ∈ ps, EntryTells T mode scope p)
    (table : Table Value) :
    Tells (Diagnostic.IsScripted T) (evalProperties mode scope table ps) := by
  induction ps generalizing table with
  | nil =>
    rw [evalProperties]
    exact tells_pure table
  | cons p ps ih =>
    obtain ⟨s, key, value, rfl, hvalue⟩ := h p List.mem_cons_self
    rw [evalProperties_property]
    exact tells_bind hvalue fun v => ih (fun q hq => h q (List.mem_cons_of_mem _ hq)) _

mutual

theorem IsExpression.tells {n : Node} : IsExpression P n → n.SpansAre T →
    Tells (Diagnostic.IsScripted T) (n.eval mode scope)
  | .identifier s x, hT => by
    rw [eval]
    exact tells_lookup scope x (hT _ List.mem_cons_self)
  | .literal s _, _ => by
    rw [eval]
    exact tells_pure _
  | .binary s ha hop hb, hT => by
    have hleft := ha.tells (hT.child (by simp [children]))
    have hright := hb.tells (hT.child (by simp [children]))
    rw [eval]
    exact tells_bind hleft fun v => tells_bind hright fun w =>
      tells_operate v w (hT _ List.mem_cons_self) hop
  | @IsExpression.assignment _ s target value ht hv, hT => by
    have hspan : T s := hT _ List.mem_cons_self
    have hvalue := hv.tells (hT.child (by simp [children]))
    cases target
    case identifier s' x =>
      simp only [eval]
      exact tells_bind hvalue fun v => tells_assign scope x v hspan
    -- Any other target is refused before its value is looked at.
    all_goals
      simp only [eval]
      exact tells_fail ⟨_, s, rfl, rfl, hspan⟩
  | .field s _ _ _, hT | .index s _ _, hT | .call s _ _, hT => by
    rw [eval]
    exact tells_unhandled ⟨_, s, rfl, rfl, hT _ List.mem_cons_self⟩
  | .object s hps, hT => by
    rw [eval]
    exact tells_bind (tells_evalProperties (fun p hp => (hps p hp).tells (hT.child hp)) [])
      fun table => tells_pure _

theorem IsEntry.tells {p : Node} : IsEntry P p → p.SpansAre T → EntryTells T mode scope p
  | .shorthand s key, hT => ⟨s, key, _, rfl, by
    rw [entryValue, if_pos isAbsent_absent]
    exact tells_lookup scope key (hT _ List.mem_cons_self)⟩
  | .keyed s key hv, hT => ⟨s, key, _, rfl, by
    rw [entryValue, if_neg (by simp [hv.isAbsent])]
    exact hv.tells (hT.child (by simp [children]))⟩

end

theorem IsStatement.tells {n : Node} (h : IsStatement P n) (hT : n.SpansAre T) :
    Tells (Diagnostic.IsScripted T) (n.eval mode scope) := by
  cases h with
  | expression h => exact h.tells hT
  | declaration s x =>
    rw [eval, if_pos isAbsent_absent]
    exact tells_declare scope x .null false (hT _ List.mem_cons_self)
  | @initialised s constant x value hv =>
    have hvalue : value.SpansAre T := hT.child (by simp [children])
    rw [eval, if_neg (by simp [hv.isAbsent])]
    exact tells_bind (hv.tells hvalue) fun v =>
      tells_declare scope x v constant (hT _ List.mem_cons_self)

theorem tells_evalBody {body : List Node} (h : ∀ n ∈ body, IsStatement P n ∧ n.SpansAre T)
    (last : Value) : Tells (Diagnostic.IsScripted T) (evalBody mode scope last body) := by
  induction body generalizing last with
  | nil =>
    rw [evalBody]
    exact tells_pure last
  | cons n body ih =>
    obtain ⟨hn, hT⟩ := h n List.mem_cons_self
    rw [evalBody]
    exact tells_bind (tells_attempt mode (hn.tells hT)) fun v =>
      ih (fun m hm => h m (List.mem_cons_of_mem _ hm)) v

theorem IsScript.tells {n : Node} (h : IsScript P n) (hT : n.SpansAre T) :
    Tells (Diagnostic.IsScripted T) (n.evaluate mode scope) := by
  obtain ⟨s, body, rfl, hbody⟩ := h
  refine tells_attempt mode ?_
  rw [eval]
  exact tells_evalBody (fun n hn => ⟨hbody n hn, hT.child hn⟩) .null

end Node

/-! ## Running a source -/

theorem execute_scripted {mode : Mode} {scope : Nat} {n : Node} {f : Forest} {o : Outcome}
    {P : Int → Prop} {T : Option Span → Prop} (hn : n.IsScript P) (hT : n.SpansAre T)
    (h : (execute mode scope n f).outcome = .ok o) : ∀ d ∈ o.diagnostics, d.IsScripted T := by
  have htells : Eval.Tells (Diagnostic.IsScripted T) (n.evaluate mode scope) := hn.tells hT
  have hjournal := htells.journal ⟨f, .empty⟩ (by simp)
  rcases Eval.result_cases (n.evaluate mode scope) ⟨f, .empty⟩ with
    ⟨v, st, he⟩ | ⟨d, st, he⟩ | ⟨b, st, he⟩
  · rw [execute_ok he] at h
    cases h
    rw [he] at hjournal
    exact hjournal
  · have hd : d.IsScripted T := htells.fails ⟨f, .empty⟩ (.fault d) (by rw [he])
    rw [execute_fault he] at h
    cases h
    rw [he] at hjournal
    exact List.forall_mem_append.2 ⟨hjournal, by simpa using hd⟩
  · rw [execute_breakdown he] at h
    cases h

/-- A diagnostic that no tree made by hand is needed for. -/
structure Diagnostic.OfSource (d : Diagnostic) : Prop where
  codes : d.code ≠ "E105" ∧ d.code ≠ "E407" ∧ d.code ≠ "E408"
  unhandled : d.code = "W401" → d.message = (Fault.unhandled "MemberExpr").message ∨
    d.message = (Fault.unhandled "CallExpr").message

namespace Diagnostic

variable {d : Diagnostic}

theorem ofSource_of_code {codes : List String} (h : d.code ∈ codes)
    (hcodes : ∀ c ∈ ["E105", "E407", "E408", "W401"], c ∉ codes) : d.OfSource := by
  have hne : ∀ c ∈ ["E105", "E407", "E408", "W401"], d.code ≠ c := by
    rintro c hc rfl
    exact hcodes _ hc h
  exact ⟨⟨hne _ (by simp), hne _ (by simp), hne _ (by simp)⟩,
    fun hw => absurd hw (hne _ (by simp))⟩

theorem ofSource_attach (line? : Int → Option String) :
    (d.attach line?).OfSource ↔ d.OfSource := by
  constructor
  · rintro ⟨hcodes, hunhandled⟩
    exact ⟨by simpa using hcodes, by simpa using hunhandled⟩
  · rintro ⟨hcodes, hunhandled⟩
    exact ⟨by simpa using hcodes, by simpa using hunhandled⟩

theorem IsScripted.ofSource {T : Option Span → Prop} (h : d.IsScripted T) : d.OfSource := by
  obtain ⟨f, s, rfl, hf, -⟩ := h
  rcases Fault.code_of_isScripted hf with hcode | rfl | rfl
  · exact ofSource_of_code hcode (by decide)
  · exact ⟨by simp [Fault.diagnoseAt, Fault.code], fun _ => Or.inl rfl⟩
  · exact ⟨by simp [Fault.diagnoseAt, Fault.code], fun _ => Or.inr rfl⟩

theorem ofSource_of_isScanWarning (h : d.isScanWarning = true) : d.OfSource := by
  have hcode : d.code ∈ ["W001", "W002"] := by simpa using code_of_isScanWarning h
  exact ofSource_of_code hcode (by decide)

end Diagnostic

section
variable {mode : Mode} {file : Option String} {source : String} {scope : Nat} {f : Forest}
  {o : Outcome}

theorem unread_ofSource {d : Diagnostic} (ha : (scan source file).aborted = false)
    (h : Node.ofTokens (scan source file).tokens = .error (.fault d)) : d.OfSource := by
  obtain ⟨fault, s, rfl, -, hf | rfl | ⟨-, habort⟩⟩ := Node.ofTokens_fault h
  · exact Diagnostic.ofSource_of_code (Fault.code_of_isReading hf).1 (by decide)
  · have hcode : (Fault.missingCloseTag.diagnoseAt (some s)).code ∈ ["E104"] :=
      List.mem_singleton.2 rfl
    exact Diagnostic.ofSource_of_code hcode (by decide)
  · rw [scanAborted_scan, ha] at habort
    cases habort

theorem scan_ofSource : ∀ d ∈ (scan source file).journal.diagnostics, d.OfSource := by
  cases ha : (scan source file).aborted with
  | true =>
    obtain ⟨ws, d, hds, hws, hcode, -⟩ := scan_abort ha
    have hd : d.OfSource := Diagnostic.ofSource_of_code (List.mem_singleton.2 hcode) (by decide)
    simp only [hds, List.forall_mem_append, List.forall_mem_singleton]
    exact ⟨fun w hw => Diagnostic.ofSource_of_isScanWarning (hws w hw).1, hd⟩
  | false => exact fun w hw => Diagnostic.ofSource_of_isScanWarning (scan_warnings ha w hw).1

theorem RunsTo.ofSource (h : RunsTo mode file source scope f o) :
    ∀ d ∈ o.diagnostics, d.OfSource := by
  refine h.forall_diagnostics (fun d => (Diagnostic.ofSource_attach _).2) scan_ofSource
    (fun d => unread_ofSource) fun n o₁ hn ho d hd => ?_
  have hany : n.SpansAre fun _ => True := fun _ _ => trivial
  exact (execute_scripted hn.isScript hany ho d hd).ofSource

/-- A source that is read gives a script, in which every node stands where it may stand and has what
its evaluation needs; so no run of a source reports what only trees made by hand can cause. -/
theorem sources_are_scripts (source : String) (file : Option String) :
    (∀ n, Evaluates source file n →
      n.IsScript (0 ≤ ·) ∧ ∀ m ∈ n.preorder, m.InPlace (0 ≤ ·)) ∧
    ∀ mode scope f o, (run mode file source scope f).outcome = .ok o →
      ∀ d ∈ o.diagnostics, d.OfSource :=
  ⟨fun _ hn => ⟨hn.isScript_nonneg, hn.isScript_nonneg.inPlace⟩,
    fun _ _ _ _ ho => (run_runsTo ho).ofSource⟩

end

end TemplateScript
