import TemplateScript.Proofs.ListReader
import TemplateScript.Proofs.Rendering

/-!
# Reading looks at kinds and texts

Two token lists of the same faces are read alike, wherever their tokens stand: the trees are the
same up to spans, the diagnostics up to their places, and as many tokens are left. A reader is
compared with one that may know other spans, and what it gives through a view that hides them.
-/

namespace TemplateScript

def Diagnostic.unplaced (d : Diagnostic) : Diagnostic := { d with span := none, sourceLine := none }

namespace Reader

open TokenReader

variable {α β γ δ : Type}

inductive Alike (V : α → γ) : Except Diagnostic α × List Token → Except Diagnostic α × List Token →
    Prop
  | ok {a b : α} {ts us : List Token} : V a = V b → ts.map Token.face = us.map Token.face →
      Alike V (.ok a, ts) (.ok b, us)
  | error {d e : Diagnostic} {ts us : List Token} : d.unplaced = e.unplaced →
      ts.map Token.face = us.map Token.face → Alike V (.error d, ts) (.error e, us)

structure Faced (V : α → γ) (p q : Reader α) : Prop where
  alike : ∀ {stop stop' : Token} {ts us : List Token}, stop.face = stop'.face →
    ts.map Token.face = us.map Token.face → Alike V (p stop ts) (q stop' us)

variable {V : α → γ} {W : β → δ} {p q : Reader α}

theorem faced_pure {a b : α} (h : V a = V b) : Faced V (pure a) (pure b) :=
  ⟨fun _ hts => .ok h hts⟩

theorem faced_bind {k m : α → Reader β} (hp : Faced V p q)
    (hk : ∀ a b, V a = V b → Faced W (k a) (m b)) : Faced W (p >>= k) (q >>= m) := by
  refine ⟨fun {stop stop' ts us} hstop hts => ?_⟩
  have h := hp.alike hstop hts
  generalize hx : p stop ts = x at h
  generalize hy : q stop' us = y at h
  cases h with
  | ok hab hrest =>
    rw [bind_ok hx, bind_ok hy]
    exact (hk _ _ hab).alike hstop hrest
  | error hde hrest =>
    rw [bind_error hx, bind_error hy]
    exact .error hde hrest

theorem faced_optional {p q : Reader (Option α)} {k m : Option α → Reader β}
    (hp : Faced (Option.map V) p q) (hsome : ∀ a b, V a = V b → Faced W (k (some a)) (m (some b)))
    (hnone : Faced W (k none) (m none)) : Faced W (p >>= k) (q >>= m) := by
  refine faced_bind hp fun a b hab => ?_
  cases a with
  | none =>
    cases b with
    | none => exact hnone
    | some b => cases hab
  | some a =>
    cases b with
    | none => cases hab
    | some b => exact hsome a b (Option.some.inj hab)

theorem faced_fail (f : Fault) (s s' : Option Span) : Faced V (fail f s) (fail f s') :=
  ⟨fun _ hts => .error rfl hts⟩

theorem faces_cases {ts us : List Token} (h : ts.map Token.face = us.map Token.face) :
    ts = [] ∧ us = [] ∨ ∃ t ts' u us', ts = t :: ts' ∧ us = u :: us' ∧ t.face = u.face ∧
      ts'.map Token.face = us'.map Token.face := by
  cases ts with
  | nil => exact Or.inl ⟨rfl, List.map_eq_nil_iff.1 h.symm⟩
  | cons t ts =>
    obtain ⟨u, us', rfl, hu, hus⟩ := List.map_eq_cons_iff.1 h.symm
    exact Or.inr ⟨t, ts, u, us', rfl, rfl, hu.symm, hus.symm⟩

theorem faced_peek : Faced id peek peek := by
  refine ⟨fun {stop stop' ts us} _ hts => ?_⟩
  rcases faces_cases hts with ⟨rfl, rfl⟩ | ⟨t, ts, u, us, rfl, rfl, ht, _⟩
  · exact .ok rfl rfl
  · exact .ok (by simpa using (Grammar.face_eq ht).1) hts

theorem faced_current : Faced Token.face current current := by
  refine ⟨fun {stop stop' ts us} hstop hts => ?_⟩
  rcases faces_cases hts with ⟨rfl, rfl⟩ | ⟨t, ts, u, us, rfl, rfl, ht, _⟩
  · exact .ok hstop rfl
  · exact .ok ht hts

def Tests (test : Token → Bool) : Prop := ∀ t u : Token, t.face = u.face → test t = test u

theorem faced_takeIf {test : Token → Bool} (h : Tests test) :
    Faced (Option.map Token.face) (takeIf test) (takeIf test) := by
  refine ⟨fun {stop stop' ts us} hstop hts => ?_⟩
  rcases faces_cases hts with ⟨rfl, rfl⟩ | ⟨t, ts, u, us, rfl, rfl, ht, hrest⟩
  · exact .ok rfl rfl
  · rw [takeIf_cons, takeIf_cons, h t u ht]
    split
    · exact .ok (congrArg some ht) hrest
    · exact .ok rfl hts

theorem faced_accept (k : Token.Kind) : Faced (Option.map Token.face) (accept k) (accept k) :=
  faced_takeIf fun t u h => by simp [(Grammar.face_eq h).1]

theorem faced_left : Faced id left left :=
  ⟨fun _ hts => .ok (by simpa using congrArg List.length hts) hts⟩

theorem faced_unexpected (expected : String) :
    Faced V (unexpected expected) (unexpected expected) := by
  refine ⟨fun {stop stop' ts us} _ hts => ?_⟩
  rcases faces_cases hts with ⟨rfl, rfl⟩ | ⟨t, ts, u, us, rfl, rfl, ht, _⟩
  · exact .error rfl rfl
  · obtain ⟨hk, htext⟩ := Grammar.face_eq ht
    rw [unexpected_cons, unexpected_cons, Token.describe, Token.describe, hk, htext]
    exact .error rfl hts

theorem faced_exhausted : Faced V exhausted exhausted := by
  rw [exhausted_eq]
  exact faced_unexpected "expression"

theorem faced_expect (k : Token.Kind) (expected : String) :
    Faced Token.face (expect k expected) (expect k expected) :=
  faced_optional (faced_accept k) (fun _ _ h => faced_pure h) (faced_unexpected expected)

/-- A span is taken along with the token that it is of, and may be any. -/
theorem faced_acceptSpan (k : Token.Kind) :
    Faced (Option.map fun _ => ()) (acceptSpan k) (acceptSpan k) :=
  faced_optional (faced_accept k) (fun _ _ _ => ⟨fun _ hts => .ok rfl hts⟩) (faced_pure rfl)

theorem faced_expectSpan (k : Token.Kind) (expected : String) :
    Faced (fun _ => ()) (expectSpan k expected) (expectSpan k expected) :=
  faced_optional (faced_acceptSpan k) (fun _ _ h => faced_pure h) (faced_unexpected expected)

theorem faced_manyWithin {item item' : Reader (Option α)} (h : Faced (Option.map V) item item')
    (bound : Nat) : Faced (List.map V) (manyWithin item bound) (manyWithin item' bound) := by
  induction bound with
  | zero => exact faced_exhausted
  | succ bound ih =>
    refine faced_optional h (fun a b hab => ?_) (faced_pure rfl)
    refine faced_bind ih fun as bs has => faced_pure ?_
    rw [List.map_cons, List.map_cons, hab, has]

theorem faced_many {item item' : Reader (Option α)} (h : Faced (Option.map V) item item') :
    Faced (List.map V) (many item) (many item') := by
  refine faced_bind faced_left fun n m hnm => ?_
  obtain rfl : n = m := hnm
  exact faced_manyWithin h (n + 1)

end Reader

/-! ## The grammar -/

namespace Node

theorem kindName_unspanned (n : Node) : n.unspanned.kindName = n.kindName := by
  cases n <;> rfl

theorem isAbsent_unspanned (n : Node) : n.unspanned.isAbsent = n.isAbsent := by
  cases n with
  | filler f => rfl
  | _ => rfl

theorem unspanned_eq_identifier {n : Node} {s : Option Span} {x : String}
    (h : n.unspanned = identifier s x) : ∃ s', n = identifier s' x := by
  cases n <;> cases h
  exact ⟨_, rfl⟩

end Node

namespace Grammar

open Reader TokenReader

abbrev FacedNode (p q : Reader Node) : Prop := Faced Node.unspanned p q

theorem unspanned_foldl {α γ : Type} {effect : α → γ} {apply : Node → α → Node}
    (happly : ∀ {n m : Node} {a b : α}, n.unspanned = m.unspanned → effect a = effect b →
      (apply n a).unspanned = (apply m b).unspanned) {as bs : List α}
    (h : as.map effect = bs.map effect) {n m : Node} (hnm : n.unspanned = m.unspanned) :
    (as.foldl apply n).unspanned = (bs.foldl apply m).unspanned := by
  induction as generalizing bs n m with
  | nil =>
    rw [List.map_eq_nil_iff.1 h.symm]
    exact hnm
  | cons a as ih =>
    obtain ⟨b, bs, rfl, hb, hbs⟩ := List.map_eq_cons_iff.1 h.symm
    exact ih hbs.symm (happly hnm hb.symm)

theorem faced_number {t u : Token} (h : t.face = u.face) : FacedNode (number t) (number u) := by
  unfold number
  rw [(face_eq h).2]
  split
  · exact faced_pure rfl
  · exact faced_fail _ _ _

section
variable {inner inner' : Reader Node} (hi : FacedNode inner inner')
include hi

theorem faced_grouped : FacedNode (grouped inner) (grouped inner') :=
  faced_bind hi fun _ _ hn => faced_bind (faced_expect _ _) fun _ _ _ => faced_pure hn

theorem faced_primary : FacedNode (primary inner) (primary inner') := by
  refine ⟨fun {stop stop' ts us} hstop hts => ?_⟩
  rcases faces_cases hts with ⟨rfl, rfl⟩ | ⟨t, ts, u, us, rfl, rfl, ht, hrest⟩
  · exact (faced_unexpected "expression").alike hstop hts
  · obtain ⟨hk, htext⟩ := face_eq ht
    rw [primary_cons, primary_cons, hk]
    split
    · exact .ok (by simp only [Node.unspanned, htext]) hrest
    · exact (faced_number ht).alike hstop hrest
    · exact (faced_grouped hi).alike hstop hrest
    · exact (faced_unexpected _).alike hstop hts

def Access.effect (a : Access) : Node × Bool := (a.property.unspanned, a.computed)

theorem faced_fieldAccess :
    Faced (Option.map Access.effect) (fieldAccess inner) (fieldAccess inner') := by
  refine faced_bind (faced_primary hi) fun n m hnm => ?_
  split
  · obtain ⟨s, rfl⟩ := Node.unspanned_eq_identifier hnm.symm
    exact faced_pure rfl
  · rename_i hno
    split
    · obtain ⟨s, rfl⟩ := Node.unspanned_eq_identifier hnm
      exact absurd rfl (hno _ _)
    · have hkind : n.kindName = m.kindName := by
        rw [← Node.kindName_unspanned, hnm, Node.kindName_unspanned]
      rw [hkind]
      exact faced_fail _ _ _

theorem faced_indexAccess :
    Faced (Option.map Access.effect) (indexAccess inner) (indexAccess inner') :=
  faced_bind hi fun n m hnm => faced_bind (faced_expectSpan _ _) fun _ _ _ =>
    faced_pure (by simp only [Option.map_some, Access.effect, hnm])

theorem faced_access : Faced (Option.map Access.effect) (access inner) (access inner') :=
  faced_optional (faced_accept _) (fun _ _ _ => faced_fieldAccess hi) <|
    faced_optional (faced_accept _) (fun _ _ _ => faced_indexAccess hi) (faced_pure rfl)

omit hi in
theorem Access.unspanned_apply {n m : Node} {a b : Access} (hnm : n.unspanned = m.unspanned)
    (h : a.effect = b.effect) : (a.apply n).unspanned = (b.apply m).unspanned := by
  obtain ⟨hp, hc⟩ := Prod.mk.inj h
  simp only [Access.apply, Node.unspanned, hnm, hp, hc]

theorem faced_member : FacedNode (member inner) (member inner') :=
  faced_bind (faced_primary hi) fun _ _ hn => faced_bind (faced_many (faced_access hi))
    fun _ _ has => faced_pure (unspanned_foldl Access.unspanned_apply has hn)

theorem faced_argument :
    Faced (Option.map Node.unspanned) (argument inner) (argument inner') :=
  faced_optional (faced_accept _)
    (fun _ _ _ => faced_bind hi fun _ _ hn => faced_pure (congrArg some hn)) (faced_pure rfl)

theorem faced_arguments : Faced (List.map Node.unspanned) (arguments inner) (arguments inner') := by
  refine faced_bind faced_peek fun k k' hk => ?_
  obtain rfl : k = k' := hk
  split
  · exact faced_pure rfl
  · refine faced_bind hi fun n m hnm =>
      faced_bind (faced_many (faced_argument hi)) fun ns ms hns => ?_
    exact faced_pure (by rw [List.map_cons, List.map_cons, hnm, hns])

def Call.effect (c : Call) : List Node := c.arguments.map Node.unspanned

theorem faced_callArguments :
    Faced (Option.map Call.effect) (callArguments inner) (callArguments inner') :=
  faced_optional (faced_accept _) (fun _ _ _ => faced_bind (faced_arguments hi) fun _ _ has =>
    faced_bind (faced_expectSpan _ _) fun _ _ _ => faced_pure (congrArg some has)) (faced_pure rfl)

omit hi in
theorem Call.unspanned_apply {n m : Node} {c d : Call} (hnm : n.unspanned = m.unspanned)
    (h : c.effect = d.effect) : (c.apply n).unspanned = (d.apply m).unspanned := by
  simp only [Call.effect] at h
  simp only [Call.apply, Node.unspanned, Node.unspannedEach_eq, hnm, h]

theorem faced_call : FacedNode (call inner) (call inner') :=
  faced_bind (faced_member hi) fun _ _ hn => faced_bind (faced_many (faced_callArguments hi))
    fun _ _ hcs => faced_pure (unspanned_foldl Call.unspanned_apply hcs hn)

end

theorem tests_isOperator (ops : List String) : Tests (isOperator ops) := by
  intro t u h
  obtain ⟨hk, htext⟩ := face_eq h
  rw [isOperator, isOperator, hk, htext]

def operationEffect (o : String × Node) : String × Node := (o.1, o.2.unspanned)

theorem unspanned_applyOperation {n m : Node} {o p : String × Node}
    (hnm : n.unspanned = m.unspanned) (h : operationEffect o = operationEffect p) :
    (applyOperation n o).unspanned = (applyOperation m p).unspanned := by
  obtain ⟨hop, hoperand⟩ := Prod.mk.inj h
  simp only [applyOperation, Node.unspanned, hnm, hop, hoperand]

section
variable {operand operand' : Reader Node} (hi : FacedNode operand operand')
include hi

theorem faced_operation (ops : List String) :
    Faced (Option.map operationEffect) (operation ops operand) (operation ops operand') := by
  refine faced_optional (faced_takeIf (tests_isOperator ops)) (fun t u ht => ?_) (faced_pure rfl)
  refine faced_bind hi fun n m hnm => faced_pure ?_
  simp only [Option.map_some, operationEffect, (face_eq ht).2, hnm]

theorem faced_chain (ops : List String) : FacedNode (chain ops operand) (chain ops operand') :=
  faced_bind hi fun _ _ hn => faced_bind (faced_many (faced_operation hi ops)) fun _ _ hos =>
    faced_pure (unspanned_foldl unspanned_applyOperation hos hn)

end

theorem faced_separator : Faced id separator separator := by
  refine faced_bind faced_peek fun k k' hk => ?_
  obtain rfl : k = k' := hk
  split
  · exact faced_pure rfl
  · exact faced_bind (faced_expect _ _) fun _ _ _ => faced_pure rfl

section
variable {inner inner' : Reader Node} (hi : FacedNode inner inner')
include hi

theorem faced_additive : FacedNode (additive inner) (additive inner') :=
  faced_chain (faced_chain (faced_call hi) _) _

theorem faced_keyValue {key key' : Token} (hkey : key.face = key'.face) :
    Faced (Option.map Node.unspanned) (keyValue inner key) (keyValue inner' key') := by
  refine faced_bind (faced_expect _ _) fun _ _ _ => faced_bind hi fun n m hnm => ?_
  refine faced_bind faced_separator fun _ _ _ => faced_pure ?_
  simp only [Option.map_some, Node.unspanned, hnm, (face_eq hkey).2]

theorem faced_property : Faced (Option.map Node.unspanned) (property inner) (property inner') := by
  refine faced_bind faced_peek fun k k' hk => ?_
  obtain rfl : k = k' := hk
  split
  · exact faced_pure rfl
  refine faced_bind (faced_expect _ _) fun key key' hkey => ?_
  have halone : Faced (Option.map Node.unspanned)
      (pure (some (.property key.span key.text .absent)))
      (pure (some (.property key'.span key'.text .absent))) :=
    faced_pure (by simp only [Option.map_some, Node.unspanned, (face_eq hkey).2])
  refine faced_optional (faced_accept _) (fun _ _ _ => halone) ?_
  refine faced_bind faced_peek fun j j' hj => ?_
  obtain rfl : j = j' := hj
  split
  · exact halone
  · exact faced_keyValue hi hkey

theorem faced_object : FacedNode (object inner) (object inner') := by
  refine faced_optional (faced_accept _) (fun _ _ _ => ?_) (faced_additive hi)
  refine faced_bind (faced_many (faced_property hi)) fun ps qs hps => ?_
  refine faced_bind (faced_expectSpan _ _) fun _ _ _ => faced_pure ?_
  simp only [Node.unspanned, Node.unspannedEach_eq, hps]

theorem faced_assignment : FacedNode (assignment inner) (assignment inner') := by
  refine faced_bind (faced_object hi) fun n m hnm => ?_
  refine faced_optional (faced_accept _) (fun _ _ _ => ?_) (faced_pure hnm)
  refine faced_bind hi fun v w hvw => faced_pure ?_
  simp only [Node.unspanned, hnm, hvw]

end

theorem faced_expressionWithin (bound : Nat) :
    FacedNode (expressionWithin bound) (expressionWithin bound) := by
  induction bound with
  | zero => exact faced_exhausted
  | succ bound ih => exact faced_assignment ih

theorem faced_expression : FacedNode expression expression := by
  refine faced_bind faced_left fun n m hnm => ?_
  obtain rfl : n = m := hnm
  exact faced_expressionWithin (n + 1)

/-! ## Statements and programs -/

theorem faced_declaration {start start' : Token} (h : start.face = start'.face) :
    FacedNode (declaration start) (declaration start') := by
  unfold declaration
  rw [(face_eq h).1]
  refine faced_bind (faced_expect _ _) fun name name' hname => ?_
  rw [(face_eq hname).2]
  refine faced_optional (faced_acceptSpan _) (fun semi semi' _ => ?_) ?_
  · by_cases hc : start'.kind = .constWord
    · simp only [hc, decide_true, if_true]
      exact faced_fail _ _ _
    · simp only [hc, decide_false, Bool.false_eq_true, if_false]
      exact faced_pure rfl
  · refine faced_bind (faced_expect _ _) fun _ _ _ => faced_bind faced_expression fun v w hvw => ?_
    refine faced_bind (faced_expectSpan _ _) fun _ _ _ => faced_pure ?_
    simp only [Node.unspanned, hvw]

theorem faced_expressionStatement : FacedNode expressionStatement expressionStatement :=
  faced_bind faced_expression fun _ _ hn => faced_bind (faced_accept _) fun _ _ _ => faced_pure hn

theorem faced_statement : FacedNode statement statement := by
  have htest : Tests fun t => t.kind = .letWord || t.kind = .constWord := by
    intro t u h
    simp only [(face_eq h).1]
  exact faced_optional (faced_takeIf htest) (fun _ _ h => faced_declaration h)
    faced_expressionStatement

theorem faced_nextStatement : Faced (Option.map Node.unspanned) nextStatement nextStatement := by
  refine faced_bind faced_peek fun k k' hk => ?_
  obtain rfl : k = k' := hk
  split
  · exact faced_pure rfl
  · exact faced_bind faced_statement fun _ _ hn => faced_pure (congrArg some hn)

/-- Programs of the same faces are read alike. -/
theorem faced_program : FacedNode program program := by
  refine faced_bind faced_current fun _ _ _ => ?_
  refine faced_bind (faced_many faced_nextStatement) fun body body' hbody => faced_pure ?_
  simp only [Node.unspanned, Node.unspannedEach_eq, hbody]

end Grammar

end TemplateScript
