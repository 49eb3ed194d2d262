import TemplateScript.Proofs.GrammarComplete

/-!
# Readers in step

A grammar is the same whatever reads the tokens, so two readers of it go through the same operations.
A relation between them that every operation keeps holds between what they make of each rule.
`InStep` is the list of these operations, with a list reader on one side, by which the tokens that are
left are counted: behind a token there are fewer, and so no bound on a loop or on the nesting is come
to as long as it is above their number.
-/

namespace TemplateScript

open TokenReader

/-- A relation between readers and list readers where so many tokens are left, which every operation
keeps. -/
structure InStep (m : Type → Type) [Monad m] [TokenReader m]
    (R : ∀ α : Type, Nat → m α → Reader α → Prop) : Prop where
  mono : ∀ {α : Type} {n l : Nat} {p : m α} {q : Reader α}, R α n p q → l ≤ n → R α l p q
  pure : ∀ {α : Type} {n : Nat} (a : α), R α n (Pure.pure a) (Pure.pure a)
  bind : ∀ {α β : Type} {n : Nat} {p : m α} {q : Reader α} {k : α → m β} {k' : α → Reader β},
    R α n p q → (∀ a, R β n (k a) (k' a)) → R β n (p >>= k) (q >>= k')
  optional : ∀ {α β : Type} {n : Nat} {p : m (Option α)} {q : Reader (Option α)}
    {k : Option α → m β} {k' : Option α → Reader β}, Reader.Progress q → R (Option α) n p q →
    (∀ a, ∀ l < n, R β l (k (some a)) (k' (some a))) → R β n (k none) (k' none) →
    R β n (p >>= k) (q >>= k')
  takeIf : ∀ {n : Nat} (test : Token → Bool), R (Option Token) n (takeIf test) (takeIf test)
  acceptSpan : ∀ {n : Nat} (k : Token.Kind), R (Option Span) n (acceptSpan k) (acceptSpan k)
  peek : ∀ {n : Nat}, R (Option Token.Kind) n peek peek
  current : ∀ {n : Nat}, R Token n current current
  fail : ∀ {α : Type} {n : Nat} (f : Fault) (s : Option Span), R α n (fail f s) (fail f s)
  /-- What is behind the list may count on one side. -/
  left : ∀ {α : Type} {n : Nat} {k : Nat → m α} {k' : Nat → Reader α},
    (∀ l l', l ≤ n → l ≤ l' → R α l (k l') (k' l)) → R α n (left >>= k) (left >>= k')

theorem Reader.takeIf_progress (test : Token → Bool) :
    Progress (TokenReader.takeIf test : Reader (Option Token)) := by
  refine ⟨fun {stop ts t rest} h => ?_⟩
  obtain ⟨rfl, -⟩ := takeIf_eq_some h
  exact Nat.lt_succ_self _

namespace InStep

open Grammar Reader

variable {m : Type → Type} [Monad m] [TokenReader m] {R : ∀ α : Type, Nat → m α → Reader α → Prop}
  {α β : Type} {n : Nat}

section
variable (h : InStep m R)
include h

theorem taken {test : Token → Bool} {k : Option Token → m β} {k' : Option Token → Reader β}
    (hsome : ∀ t, ∀ l < n, R β l (k (some t)) (k' (some t))) (hnone : R β n (k none) (k' none)) :
    R β n (TokenReader.takeIf test >>= k) (TokenReader.takeIf test >>= k') :=
  h.optional (takeIf_progress test) (h.takeIf test) hsome hnone

theorem unexpected (expected : String) : R α n (unexpected expected) (unexpected expected) := by
  refine h.bind h.current fun t => h.bind h.peek fun k => ?_
  split
  · exact h.fail _ _
  · exact h.fail _ _

theorem expect (k : Token.Kind) (expected : String) :
    R Token n (expect k expected) (expect k expected) := by
  refine h.bind (h.takeIf _) fun o => ?_
  cases o with
  | none => exact h.unexpected expected
  | some t => exact h.pure t

theorem expectSpan (k : Token.Kind) (expected : String) :
    R Span n (expectSpan k expected) (expectSpan k expected) := by
  refine h.bind (h.acceptSpan k) fun o => ?_
  cases o with
  | none => exact h.unexpected expected
  | some s => exact h.pure s

/-! ## Repeated items -/

theorem manyWithin {item : m (Option α)} {item' : Reader (Option α)} (hp : Progress item')
    {b : Nat} : ∀ {n b' : Nat}, R (Option α) n item item' → n < b → n < b' →
      R (List α) n (manyWithin item b) (manyWithin item' b') := by
  induction b with
  | zero => intro n b' _ hb; omega
  | succ b ih =>
    intro n b' hi hb hb'
    cases b' with
    | zero => omega
    | succ b' =>
      refine h.optional hp hi (fun a l hl => ?_) (h.pure [])
      have hbehind : R (Option α) l item item' := h.mono hi (Nat.le_of_lt hl)
      exact h.bind (ih hbehind (by omega) (by omega)) fun as => h.pure (a :: as)

theorem many {item : m (Option α)} {item' : Reader (Option α)} (hp : Progress item')
    (hi : R (Option α) n item item') : R (List α) n (many item) (many item') :=
  h.left fun _ _ hl hll' =>
    h.manyWithin hp (h.mono hi hl) (Nat.lt_succ_of_le hll') (Nat.lt_succ_self _)

end

/-! ## The grammar -/

section
variable (h : InStep m R) {inner : m Node} {inner' : Reader Node}
include h

theorem number (t : Token) : R Node n (number t) (number t) := by
  unfold Grammar.number
  split
  · exact h.pure _
  · exact h.fail _ _

theorem grouped (hi : R Node n inner inner') : R Node n (grouped inner) (grouped inner') :=
  h.bind hi fun a => h.bind (h.expect _ _) fun _ => h.pure a

theorem primary (hi : ∀ l < n, R Node l inner inner') :
    R Node n (primary inner) (primary inner') :=
  h.taken (fun _ _ _ => h.pure _) <| h.taken (fun t _ _ => h.number t) <|
    h.taken (fun _ l hl => h.grouped (hi l hl)) (h.unexpected _)

theorem fieldAccess (hi : ∀ l < n, R Node l inner inner') :
    R (Option Access) n (fieldAccess inner) (fieldAccess inner') :=
  h.bind (h.primary hi) fun a => by
    split
    · exact h.pure _
    · exact h.fail _ _

theorem indexAccess (hi : R Node n inner inner') :
    R (Option Access) n (indexAccess inner) (indexAccess inner') :=
  h.bind hi fun _ => h.bind (h.expectSpan _ _) fun _ => h.pure _

theorem access (hi : ∀ l < n, R Node l inner inner') :
    R (Option Access) n (access inner) (access inner') := by
  refine h.taken (fun _ l hl => ?_) (h.taken (fun _ l hl => ?_) (h.pure none))
  · exact h.fieldAccess fun k hk => hi k (Nat.lt_trans hk hl)
  · exact h.indexAccess (hi l hl)

theorem argument (hi : ∀ l < n, R Node l inner inner') :
    R (Option Node) n (argument inner) (argument inner') :=
  h.taken (fun _ l hl => h.bind (hi l hl) fun a => h.pure (some a)) (h.pure none)

theorem keyValue (hi : R Node n inner inner') (key : Token) :
    R (Option Node) n (keyValue inner key) (keyValue inner' key) := by
  refine h.bind (h.expect _ _) fun _ => h.bind hi fun v => h.bind ?_ fun _ => h.pure _
  refine h.bind h.peek fun k => ?_
  split
  · exact h.pure ()
  · exact h.bind (h.expect _ _) fun _ => h.pure ()

theorem property (hi : R Node n inner inner') :
    R (Option Node) n (property inner) (property inner') := by
  refine h.bind h.peek fun k => ?_
  split
  · exact h.pure none
  refine h.bind (h.expect _ _) fun key => h.bind (h.takeIf _) fun o => ?_
  cases o with
  | some _ => exact h.pure _
  | none =>
    refine h.bind h.peek fun j => ?_
    split
    · exact h.pure _
    · exact h.keyValue hi key

theorem chain {l : Level} {operand : m Node} {operand' : Reader Node}
    (ho : Sound operand' (Derives l.below)) (hi : R Node n operand operand') :
    R Node n (chain l.operators operand) (chain l.operators operand') := by
  refine h.bind hi fun _ => h.bind (h.many (operation_progress ho) ?_) fun _ => h.pure _
  exact h.taken (fun _ _ hl => h.bind (h.mono hi (Nat.le_of_lt hl)) fun _ => h.pure _) (h.pure none)

variable (hs : Sound inner' (Derives .assignment))
include hs

theorem member (hi : ∀ l < n, R Node l inner inner') : R Node n (member inner) (member inner') :=
  h.bind (h.primary hi) fun _ => h.bind (h.many (access_progress hs) (h.access hi)) fun _ =>
    h.pure _

theorem arguments (hi : R Node n inner inner') :
    R (List Node) n (arguments inner) (arguments inner') := by
  refine h.bind h.peek fun k => ?_
  split
  · exact h.pure []
  · have hmore := h.argument (n := n) fun l hl => h.mono hi (Nat.le_of_lt hl)
    exact h.bind hi fun a => h.bind (h.many (argument_progress hs) hmore) fun as => h.pure (a :: as)

theorem callArguments (hi : ∀ l < n, R Node l inner inner') :
    R (Option Call) n (callArguments inner) (callArguments inner') :=
  h.taken (fun _ l hl => h.bind (h.arguments hs (hi l hl)) fun _ =>
    h.bind (h.expectSpan _ _) fun _ => h.pure _) (h.pure none)

theorem call (hi : ∀ l < n, R Node l inner inner') : R Node n (call inner) (call inner') :=
  h.bind (h.member hs hi) fun _ =>
    h.bind (h.many (callArguments_progress hs) (h.callArguments hs hi)) fun _ => h.pure _

theorem additive (hi : ∀ l < n, R Node l inner inner') :
    R Node n (additive inner) (additive inner') := by
  have hproducts : R Node n (multiplicative inner) (multiplicative inner') :=
    h.chain (l := .multiplicative) (call_sound hs) (h.call hs hi)
  exact h.chain (l := .additive) (multiplicative_sound hs) hproducts

theorem object (hi : ∀ l < n, R Node l inner inner') : R Node n (object inner) (object inner') := by
  refine h.taken (fun _ l hl => ?_) (h.additive hs hi)
  refine h.bind (h.many (property_progress hs) (h.property (hi l hl))) fun _ => ?_
  exact h.bind (h.expectSpan _ _) fun _ => h.pure _

theorem assignment (hi : ∀ l < n, R Node l inner inner') :
    R Node n (assignment inner) (assignment inner') :=
  h.bind (h.object hs hi) fun target =>
    h.taken (fun _ l hl => h.bind (hi l hl) fun _ => h.pure _) (h.pure target)

end

section
variable (h : InStep m R)
include h

/-- The bound on the nesting is above the number of tokens: behind an expression's own first token it
is so again. -/
theorem expressionWithin {b : Nat} : ∀ {n b' : Nat}, n < b → n < b' →
    R Node n (expressionWithin b) (expressionWithin b') := by
  induction b with
  | zero => intro n b' hb; omega
  | succ b ih =>
    intro n b' hb hb'
    cases b' with
    | zero => omega
    | succ b' =>
      exact h.assignment (expressionWithin_sound b') fun l hl => ih (by omega) (by omega)

theorem expression : R Node n expression expression :=
  h.left fun _ _ _ hll' => h.expressionWithin (Nat.lt_succ_of_le hll') (Nat.lt_succ_self _)

theorem declaration (start : Token) : R Node n (declaration start) (declaration start) := by
  refine h.bind (h.expect _ _) fun name => h.bind (h.acceptSpan _) fun o => ?_
  cases o with
  | some semi =>
    dsimp only
    split
    · exact h.fail _ _
    · exact h.pure _
  | none =>
    exact h.bind (h.expect _ _) fun _ => h.bind h.expression fun _ =>
      h.bind (h.expectSpan _ _) fun _ => h.pure _

theorem statement : R Node n statement statement := by
  refine h.bind (h.takeIf _) fun o => ?_
  cases o with
  | some start => exact h.declaration start
  | none => exact h.bind h.expression fun a => h.bind (h.takeIf _) fun _ => h.pure a

theorem nextStatement : R (Option Node) n nextStatement nextStatement := by
  refine h.bind h.peek fun k => ?_
  split
  · exact h.pure none
  · exact h.bind h.statement fun a => h.pure (some a)

theorem program : R Node n program program :=
  h.bind h.current fun _ => h.bind (h.many nextStatement_progress h.nextStatement) fun _ => h.pure _

end

end InStep

end TemplateScript
