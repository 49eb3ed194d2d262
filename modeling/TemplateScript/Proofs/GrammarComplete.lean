import TemplateScript.Proofs.GrammarSound

/-!
# What is derived is read

A reader of a level takes the whole of what is derived at the level when no token that goes on with
a tighter level follows. What it does behind that, its tail, is the same as behind a tree it has just
read; left recursion of the grammar becomes repetition in the reader there. The nesting is within the
bound, since an inner expression is shorter than what it stands in.
-/

namespace TemplateScript.Grammar

open Reader TokenReader

namespace Level

def rank : Level → Nat
  | primary => 0
  | member => 1
  | call => 2
  | multiplicative => 3
  | additive => 4
  | object => 5
  | assignment => 6

theorem rank_below_le (l : Level) : l.below.rank ≤ l.rank := by
  cases l <;> simp [below, rank]

def Continues : Level → Token → Prop
  | primary, _ => False
  | member, t => t.kind = .dot ∨ t.kind = .openBracket
  | call, t => t.kind = .openParen
  | multiplicative, t => t.kind = .operator ∧ t.text ∈ multiplicative.operators
  | additive, t => t.kind = .operator ∧ t.text ∈ additive.operators
  | object, _ => False
  | assignment, t => t.kind = .assign

def Ends (l : Level) (ts : List Token) : Prop :=
  ∀ t ∈ ts.head?, ∀ m : Level, m.rank ≤ l.rank → ¬ m.Continues t

theorem Ends.below {l : Level} {ts : List Token} (h : l.Ends ts) : l.below.Ends ts := by
  intro t ht m hm
  exact h t ht m (Nat.le_trans hm l.rank_below_le)

theorem ends_cons {l : Level} {t : Token} {ts : List Token}
    (h : ∀ m : Level, m.rank ≤ l.rank → ¬ m.Continues t) : l.Ends (t :: ts) := by
  intro u hu
  obtain rfl : t = u := by simpa using hu
  exact h

/-- What must not follow for a reader of a level to take all of an expression. -/
def needed : Level → Level
  | assignment => assignment
  | l => l.below

theorem Ends.needed {l : Level} {ts : List Token} (h : l.Ends ts) : l.needed.Ends ts := by
  cases l
  case assignment => exact h
  all_goals exact h.below

def Closes (k : Token.Kind) : Prop :=
  k = .closeParen ∨ k = .closeBracket ∨ k = .closeBrace ∨ k = .comma ∨ k = .semicolon

theorem ends_of_closes {l : Level} {t : Token} (h : Closes t.kind) (ts : List Token) :
    l.Ends (t :: ts) := by
  apply ends_cons
  intro m _ hm
  cases m <;> simp only [Continues] at hm <;> rcases h with h | h | h | h | h <;> simp [h] at hm

theorem ends_of_continues {l : Level} {t : Token} (h : l.Continues t) (ts : List Token) :
    l.below.Ends (t :: ts) := by
  apply ends_cons
  intro m hm hc
  cases l <;> cases m <;> simp_all [below, rank, operators, Continues]
  -- No operator joins both sums and products.
  rcases h.2 with h | h <;> simp [h] at hc

theorem ends_of_operator {l : Level} {t : Token} (hk : t.kind = .operator)
    (ht : t.text ∈ l.operators) (ts : List Token) : l.needed.Ends (t :: ts) := by
  cases l
  case multiplicative => exact ends_of_continues (l := multiplicative) ⟨hk, ht⟩ ts
  case additive => exact ends_of_continues (l := additive) ⟨hk, ht⟩ ts
  all_goals simp [operators] at ht

def reader (inner : Reader Node) : Level → Reader Node
  | primary => Grammar.primary inner
  | member => Grammar.member inner
  | call => Grammar.call inner
  | multiplicative => Grammar.multiplicative inner
  | additive => Grammar.additive inner
  | object => Grammar.object inner
  | assignment => Grammar.assignment inner

theorem reader_sound {inner : Reader Node} (hin : Sound inner (Derives assignment)) (l : Level) :
    Sound (l.reader inner) (Derives l) := by
  cases l
  case primary => exact primary_sound hin
  case member => exact member_sound hin
  case call => exact call_sound hin
  case multiplicative => exact multiplicative_sound hin
  case additive => exact additive_sound hin
  case object => exact object_sound hin
  case assignment => exact assignment_sound hin

def joining {α : Type} (item : Reader (Option α)) (apply : Node → α → Node) (n : Node) :
    Reader Node := do
  let as ← many item
  return as.foldl apply n

def tail (inner : Reader Node) : Level → Node → Reader Node
  | member => joining (access inner) Access.apply
  | call => joining (callArguments inner) Call.apply
  | multiplicative => joining (operation multiplicative.operators (call.reader inner)) applyOperation
  | additive => joining (operation additive.operators (multiplicative.reader inner)) applyOperation
  | _ => fun n => return n

end Level

section
variable {α : Type} {item : Reader (Option α)} {apply : Node → α → Node} {n : Node} {stop : Token}
  {ts : List Token}

theorem joining_of_none (h : item stop ts = (.ok none, ts)) :
    Level.joining item apply n stop ts = (.ok n, ts) := by
  unfold Level.joining
  rw [bind_ok (many_of_none h)]
  rfl

theorem joining_of_some (hp : Progress item) {a : α} {mid : List Token}
    (h : item stop ts = (.ok (some a), mid)) :
    Level.joining item apply n stop ts = Level.joining item apply (apply n a) stop mid := by
  unfold Level.joining
  simp only [bind, many_step hp h]
  cases many item stop mid with
  | mk r rest => cases r <;> rfl

end

/-! ## Items that are not there -/

section
variable {inner : Reader Node} {stop : Token} {ts : List Token}

theorem access_of_ends (h : Level.member.Ends ts) : access inner stop ts = (.ok none, ts) := by
  have hc : ∀ t ∈ ts.head?, ¬ Level.member.Continues t := fun t ht => h t ht _ (Nat.le_refl _)
  have hdot : ∀ t ∈ ts.head?, t.kind ≠ .dot := fun t ht hk => hc t ht (Or.inl hk)
  have hopen : ∀ t ∈ ts.head?, t.kind ≠ .openBracket := fun t ht hk => hc t ht (Or.inr hk)
  unfold access
  rw [bind_ok (accept_of_head hdot)]
  dsimp only
  rw [bind_ok (accept_of_head hopen)]
  rfl

theorem callArguments_of_ends (h : Level.call.Ends ts) :
    callArguments inner stop ts = (.ok none, ts) := by
  have hopen : ∀ t ∈ ts.head?, t.kind ≠ .openParen := fun t ht => h t ht _ (Nat.le_refl _)
  unfold callArguments
  rw [bind_ok (accept_of_head hopen)]
  rfl

theorem operation_of_head {ops : List String} {operand : Reader Node}
    (h : ∀ t ∈ ts.head?, ¬ (t.kind = .operator ∧ t.text ∈ ops)) :
    operation ops operand stop ts = (.ok none, ts) := by
  have hop : ∀ t ∈ ts.head?, isOperator ops t = false := by simpa [isOperator] using h
  unfold operation
  rw [bind_ok (takeIf_of_head hop)]
  rfl

theorem Level.tail_of_ends {l : Level} (h : l.Ends ts) (n : Node) :
    l.tail inner n stop ts = (.ok n, ts) := by
  cases l
  case member => exact joining_of_none (access_of_ends h)
  case call => exact joining_of_none (callArguments_of_ends h)
  case multiplicative => exact joining_of_none (operation_of_head fun t ht => h t ht _ (Nat.le_refl _))
  case additive => exact joining_of_none (operation_of_head fun t ht => h t ht _ (Nat.le_refl _))
  all_goals rfl

end

/-! ## Whole expressions -/

/-- The tokens are read at a level as the tree, within any bound they fit in. -/
def Complete (l : Level) (ts : List Token) (n : Node) : Prop :=
  ∀ bound stop rest, ts.length ≤ bound + 1 → l.needed.Ends rest →
    l.reader (expressionWithin bound) stop (ts ++ rest)
      = l.tail (expressionWithin bound) n stop rest

section
variable {bound : Nat} {ts rest : List Token} {stop : Token} {n : Node}

theorem Complete.operand {l : Level} (h : Complete l ts n) (hl : ts.length ≤ bound + 1)
    (he : l.Ends rest) :
    l.reader (expressionWithin bound) stop (ts ++ rest) = (.ok n, rest) := by
  rw [h bound stop rest hl he.needed]
  exact Level.tail_of_ends he n

theorem Complete.inner (h : Complete .assignment ts n) (hd : Derives .assignment ts n)
    (hl : ts.length ≤ bound) (he : Level.assignment.Ends rest) :
    (expressionWithin bound : Reader _) stop (ts ++ rest) = (.ok n, rest) := by
  have hpos := List.length_pos_iff.2 hd.ne_nil
  cases bound with
  | zero => omega
  | succ bound => exact h.operand hl he

end

section
variable {ts us : List Token} {n : Node}

theorem Complete.identifier {t : Token} (h : t.kind = .identifier) :
    Complete .primary [t] (.identifier t.span t.text) := by
  intro bound stop rest _ _
  simp only [Level.reader, primary_cons, List.cons_append, List.nil_append, h]
  rfl

theorem Complete.number {t : Token} {k : Int} (h : t.kind = .number)
    (hk : Numeral.read? t.text = some k) :
    Complete .primary [t] (.literal t.span (.int k)) := by
  intro bound stop rest _ _
  simp only [Level.reader, primary_cons, List.cons_append, List.nil_append, h, Grammar.number, hk]
  rfl

theorem Complete.grouped {o c : Token} (ho : o.kind = .openParen) (hd : Derives .assignment ts n)
    (h : Complete .assignment ts n) (hc : c.kind = .closeParen) :
    Complete .primary (o :: (ts ++ [c])) n := by
  intro bound stop rest hl _
  simp only [List.length_cons, List.length_append, List.length_nil] at hl
  have hn : (expressionWithin bound : Reader _) stop (ts ++ c :: rest) = (.ok n, c :: rest) :=
    h.inner hd (by omega) (Level.ends_of_closes (Or.inl hc) _)
  simp only [Level.reader, primary_cons, List.cons_append, List.append_assoc, List.nil_append, ho]
  unfold Grammar.grouped
  rw [bind_ok hn, bind_ok (expect_of_kind hc _)]
  rfl

theorem Complete.lift {l : Level} (hd : Derives l.below ts n) (h : Complete l.below ts n) :
    Complete l ts n := by
  intro bound stop rest hl he
  cases l
  case primary => exact h bound stop rest hl he
  case object =>
    obtain ⟨t, us, rfl, ht⟩ := hd.begins
    have hopen : t.kind ≠ .openBrace := by
      rcases ht with ht | ht | ht | ⟨hl, -⟩
      · simp [ht]
      · simp [ht]
      · simp [ht]
      · simp [Level.below] at hl
    have hnone : (accept .openBrace : Reader _) stop (t :: us ++ rest)
        = (.ok none, t :: us ++ rest) := accept_of_head (by simpa using hopen)
    simp only [Level.reader]
    unfold object
    rw [bind_ok hnone]
    exact h.operand hl he
  case assignment =>
    have hassign : (accept .assign : Reader _) stop rest = (.ok none, rest) :=
      accept_of_head fun t ht => he t ht .assignment (Nat.le_refl _)
    have hn : object (expressionWithin bound : Reader _) stop (ts ++ rest) = (.ok n, rest) :=
      h.operand hl he.below
    simp only [Level.reader]
    unfold assignment
    rw [bind_ok hn, bind_ok hassign]
    rfl
  all_goals exact bind_ok (h.operand hl he) _

/-! ## Steps to larger expressions -/

variable {bound : Nat}

theorem access_progress {inner : Reader Node} (hin : Sound inner (Derives .assignment)) :
    Progress (access inner) :=
  progress_of_sound (access_sound hin) fun h => h.1

theorem Complete.field {d : Token} {o : Node} {s : Option Span} {x : String}
    (ho : Complete .member ts o) (hd : d.kind = .dot)
    (hx : Complete .primary us (.identifier s x)) :
    Complete .member (ts ++ d :: us) (.member (spanTo o s) o (.identifier s x) false) := by
  intro bound stop rest hl he
  simp only [List.length_cons, List.length_append] at hl
  have hp : primary (expressionWithin bound : Reader _) stop (us ++ rest)
      = (.ok (.identifier s x), rest) := hx.operand (by omega) he
  have hitem : access (expressionWithin bound : Reader _) stop (d :: (us ++ rest))
      = (.ok (some ⟨.identifier s x, false, s⟩), rest) := by
    unfold access
    rw [bind_ok (accept_of_kind hd)]
    dsimp only
    unfold fieldAccess
    rw [bind_ok hp]
    rfl
  have hends : Level.member.needed.Ends (d :: (us ++ rest)) :=
    Level.ends_of_continues (l := .member) (Or.inl hd) _
  rw [List.append_assoc, List.cons_append, ho bound stop _ (by omega) hends]
  exact joining_of_some (access_progress (expressionWithin_sound bound)) hitem

theorem Complete.index {b c : Token} {o p : Node} (ho : Complete .member ts o)
    (hb : b.kind = .openBracket) (hd : Derives .assignment us p) (hp : Complete .assignment us p)
    (hc : c.kind = .closeBracket) :
    Complete .member (ts ++ b :: (us ++ [c])) (.member (spanTo o c.span) o p true) := by
  intro bound stop rest hl he
  simp only [List.length_cons, List.length_append, List.length_nil] at hl
  have hn : (expressionWithin bound : Reader _) stop (us ++ c :: rest) = (.ok p, c :: rest) :=
    hp.inner hd (by omega) (Level.ends_of_closes (Or.inr (Or.inl hc)) _)
  have hdot : ∀ t ∈ (b :: (us ++ c :: rest)).head?, t.kind ≠ .dot := by simp [hb]
  have hitem : access (expressionWithin bound : Reader _) stop (b :: (us ++ c :: rest))
      = (.ok (some ⟨p, true, c.span⟩), rest) := by
    unfold access
    rw [bind_ok (accept_of_head hdot)]
    dsimp only
    rw [bind_ok (accept_of_kind hb)]
    dsimp only
    unfold indexAccess
    rw [bind_ok hn, bind_ok (expectSpan_of_kind hc _)]
    rfl
  have hends : Level.member.needed.Ends (b :: (us ++ c :: rest)) :=
    Level.ends_of_continues (l := .member) (Or.inr hb) _
  simp only [List.append_assoc, List.cons_append, List.nil_append]
  rw [ho bound stop _ (by omega) hends]
  exact joining_of_some (access_progress (expressionWithin_sound bound)) hitem

theorem operation_progress {l : Level} {operand : Reader Node}
    (ho : Sound operand (Derives l.below)) : Progress (operation l.operators operand) := by
  refine progress_of_sound (operation_sound ho) ?_
  rintro us o ⟨t, ts, rfl, -⟩
  simp

theorem Level.tail_of_operator {l : Level} {inner : Reader Node} {op : String}
    (h : op ∈ l.operators) : l.tail inner
      = Level.joining (operation l.operators (l.below.reader inner)) applyOperation := by
  cases l <;> first | rfl | simp [Level.operators] at h

theorem Complete.chain {l : Level} {t : Token} {a b : Node} (ha : Complete l ts a)
    (ht : t.kind = .operator) (hop : t.text ∈ l.operators) (hb : Complete l.below us b) :
    Complete l (ts ++ t :: us) (.binary (spanTo a b.span) a t.text b) := by
  intro bound stop rest hl he
  simp only [List.length_cons, List.length_append] at hl
  have hbelow : l.below.Ends rest := by
    cases l <;> first | exact he | simp [Level.operators] at hop
  have hn : l.below.reader (expressionWithin bound) stop (us ++ rest) = (.ok b, rest) :=
    hb.operand (by omega) hbelow
  have hitem : operation l.operators (l.below.reader (expressionWithin bound)) stop
      (t :: (us ++ rest)) = (.ok (some (t.text, b)), rest) := by
    unfold operation
    rw [bind_ok (takeIf_of_pos (by simp [isOperator, ht, hop]))]
    dsimp only
    rw [bind_ok hn]
    rfl
  rw [List.append_assoc, List.cons_append, ha bound stop _ (by omega) (Level.ends_of_operator ht hop _),
    Level.tail_of_operator hop]
  exact joining_of_some
    (operation_progress (Level.reader_sound (expressionWithin_sound bound) l.below)) hitem

theorem peek_cons {stop t : Token} {ts : List Token} :
    (peek : Reader _) stop (t :: ts) = (.ok (some t.kind), t :: ts) := rfl

def CompleteArguments (ts : List Token) (ns : List Node) : Prop :=
  ∀ bound stop c rest, ts.length ≤ bound → c.kind = .closeParen →
    arguments (expressionWithin bound : Reader _) stop (ts ++ c :: rest) = (.ok ns, c :: rest)

theorem CompleteArguments.none : CompleteArguments [] [] := by
  intro bound stop c rest _ hc
  unfold arguments
  have hp : (peek : Reader _) stop (c :: rest)
      = (.ok (some .closeParen), c :: rest) := by rw [peek_cons, hc]
  rw [List.nil_append, bind_ok hp]
  rfl

def CompleteItems (ts : List Token) (ns : List Node) : Prop :=
  ∀ bound stop c rest, ts.length ≤ bound → c.kind = .closeParen →
    ∃ m ms mid, ns = m :: ms ∧
      (expressionWithin bound : Reader _) stop (ts ++ c :: rest) = (.ok m, mid) ∧
      many (argument (expressionWithin bound : Reader Node)) stop mid = (.ok ms, c :: rest)

theorem argument_progress {inner : Reader Node} (hin : Sound inner (Derives .assignment)) :
    Progress (argument inner) := by
  refine progress_of_sound (argument_sound hin) ?_
  rintro us n ⟨c, ts, rfl, -⟩
  simp

theorem argument_of_head {inner : Reader Node} {stop c : Token} {ts : List Token}
    (h : c.kind ≠ .comma) : argument inner stop (c :: ts) = (.ok none, c :: ts) := by
  unfold argument
  rw [bind_ok (accept_of_head (by simpa using h))]
  rfl

theorem argument_of_comma {inner : Reader Node} {stop c : Token} {ts rest : List Token}
    (hc : c.kind = .comma) (hn : inner stop ts = (.ok n, rest)) :
    argument inner stop (c :: ts) = (.ok (some n), rest) := by
  unfold argument
  rw [bind_ok (accept_of_kind hc)]
  dsimp only
  rw [bind_ok hn]
  rfl

theorem CompleteItems.last (hd : Derives .assignment ts n) (h : Complete .assignment ts n) :
    CompleteItems ts [n] := by
  intro bound stop c rest hl hc
  have hn : (expressionWithin bound : Reader _) stop (ts ++ c :: rest) = (.ok n, c :: rest) :=
    h.inner hd hl (Level.ends_of_closes (Or.inl hc) _)
  exact ⟨n, [], _, rfl, hn, many_of_none (argument_of_head (by simp [hc]))⟩

theorem CompleteItems.more {c : Token} {ns : List Node} (hd : Derives .assignment ts n)
    (h : Complete .assignment ts n) (hc : c.kind = .comma) (hs : CompleteItems us ns) :
    CompleteItems (ts ++ c :: us) (n :: ns) := by
  intro bound stop d rest hl hdk
  simp only [List.length_cons, List.length_append] at hl
  obtain ⟨m, ms, mid, rfl, hm, hms⟩ := hs bound stop d rest (by omega) hdk
  have hn : (expressionWithin bound : Reader _) stop (ts ++ c :: (us ++ d :: rest))
      = (.ok n, c :: (us ++ d :: rest)) :=
    h.inner hd (by omega) (Level.ends_of_closes (by simp [Level.Closes, hc]) _)
  refine ⟨n, m :: ms, _, rfl, by simpa using hn, ?_⟩
  exact many_of_some (argument_progress (expressionWithin_sound bound)) (argument_of_comma hc hm) hms

theorem CompleteArguments.some {ns : List Node} (hd : DerivesItems ts ns)
    (h : CompleteItems ts ns) : CompleteArguments ts ns := by
  intro bound stop c rest hl hc
  obtain ⟨m, ms, mid, rfl, hm, hms⟩ := h bound stop c rest hl hc
  obtain ⟨t, us, rfl, ht⟩ := hd.begins
  have hk : t.kind ≠ .closeParen := fun hk => by simp [Level.Begins, hk] at ht
  unfold arguments
  rw [List.cons_append] at hm ⊢
  rw [bind_ok peek_cons, if_neg (by simpa using hk), bind_ok hm, bind_ok hms]
  rfl

theorem callArguments_progress {inner : Reader Node} (hin : Sound inner (Derives .assignment)) :
    Progress (callArguments inner) :=
  progress_of_sound (callArguments_sound hin) fun h => h.1

theorem Complete.call {b c : Token} {callee : Node} {args : List Node}
    (hn : Complete .call ts callee) (hb : b.kind = .openParen) (ha : CompleteArguments us args)
    (hc : c.kind = .closeParen) :
    Complete .call (ts ++ b :: (us ++ [c])) (.call (spanTo callee c.span) callee args) := by
  intro bound stop rest hl he
  simp only [List.length_cons, List.length_append, List.length_nil] at hl
  have has : arguments (expressionWithin bound : Reader _) stop (us ++ c :: rest)
      = (.ok args, c :: rest) := ha bound stop c rest (by omega) hc
  have hitem : callArguments (expressionWithin bound : Reader _) stop (b :: (us ++ c :: rest))
      = (.ok (some ⟨args, c.span⟩), rest) := by
    unfold callArguments
    rw [bind_ok (accept_of_kind hb)]
    dsimp only
    rw [bind_ok has, bind_ok (expectSpan_of_kind hc _)]
    rfl
  have hends : Level.call.needed.Ends (b :: (us ++ c :: rest)) :=
    Level.ends_of_continues (l := .call) hb _
  simp only [List.append_assoc, List.cons_append, List.nil_append]
  rw [hn bound stop _ (by omega) hends]
  exact joining_of_some (callArguments_progress (expressionWithin_sound bound)) hitem

/-! ## Object literals and assignments -/

def CompleteEntry (ts : List Token) (p : Node) : Prop :=
  ∀ bound stop d rest, ts.length ≤ bound →
    (d.kind = .comma →
      property (expressionWithin bound : Reader _) stop (ts ++ d :: rest)
        = (.ok (some p), rest)) ∧
    (d.kind = .closeBrace →
      property (expressionWithin bound : Reader _) stop (ts ++ d :: rest)
        = (.ok (some p), d :: rest))

theorem CompleteEntry.shorthand {k : Token} (hk : k.kind = .identifier) :
    CompleteEntry [k] (.property k.span k.text .absent) := by
  intro bound stop d rest _
  rw [List.cons_append, List.nil_append]
  constructor
  · intro hd
    unfold property
    rw [bind_ok peek_cons, if_neg (by simp [hk]), bind_ok (expect_of_kind hk _)]
    rw [bind_ok (accept_of_kind hd)]
    rfl
  · intro hd
    have hcomma : (accept .comma : Reader _) stop (d :: rest) = (.ok none, d :: rest) :=
      accept_of_head (by simp [hd])
    unfold property
    rw [bind_ok peek_cons, if_neg (by simp [hk]), bind_ok (expect_of_kind hk _)]
    rw [bind_ok hcomma]
    dsimp only
    rw [bind_ok peek_cons, if_pos (by simp [hd])]
    rfl

theorem separator_of_comma {stop d : Token} {rest : List Token} (hd : d.kind = .comma) :
    (separator : Reader _) stop (d :: rest) = (.ok (), rest) := by
  unfold separator
  rw [bind_ok peek_cons, if_neg (by simp [hd]), bind_ok (expect_of_kind hd _)]
  rfl

theorem separator_of_closeBrace {stop d : Token} {rest : List Token} (hd : d.kind = .closeBrace) :
    (separator : Reader _) stop (d :: rest) = (.ok (), d :: rest) := by
  unfold separator
  rw [bind_ok peek_cons, if_pos (by simp [hd])]
  rfl

theorem property_of_colon {inner : Reader Node} {stop k c : Token} {mid rest : List Token} {v : Node}
    (hk : k.kind = .identifier) (hc : c.kind = .colon) (hv : inner stop ts = (.ok v, mid))
    (hs : (separator : Reader _) stop mid = (.ok (), rest)) :
    property inner stop (k :: c :: ts)
      = (.ok (some (.property (v.span.map k.span.through) k.text v)), rest) := by
  have hcomma : (accept .comma : Reader _) stop (c :: ts) = (.ok none, c :: ts) :=
    accept_of_head (by simp [hc])
  unfold property
  rw [bind_ok peek_cons, if_neg (by simp [hk]), bind_ok (expect_of_kind hk _)]
  rw [bind_ok hcomma]
  dsimp only
  rw [bind_ok peek_cons, if_neg (by simp [hc])]
  unfold keyValue
  rw [bind_ok (expect_of_kind hc _), bind_ok hv, bind_ok hs]
  rfl

theorem CompleteEntry.keyed {k c : Token} {v : Node} (hk : k.kind = .identifier)
    (hc : c.kind = .colon) (hd : Derives .assignment ts v) (h : Complete .assignment ts v) :
    CompleteEntry (k :: c :: ts) (.property (v.span.map k.span.through) k.text v) := by
  intro bound stop d rest hl
  simp only [List.length_cons] at hl
  have hv : Level.Closes d.kind →
      (expressionWithin bound : Reader _) stop (ts ++ d :: rest) = (.ok v, d :: rest) :=
    fun hd' => h.inner hd (by omega) (Level.ends_of_closes hd' _)
  constructor
  · intro hd
    exact property_of_colon hk hc (hv (by simp [Level.Closes, hd])) (separator_of_comma hd)
  · intro hd
    exact property_of_colon hk hc (hv (by simp [Level.Closes, hd])) (separator_of_closeBrace hd)

def CompleteEntries (ts : List Token) (ps : List Node) : Prop :=
  ∀ bound stop c rest, ts.length ≤ bound → c.kind = .closeBrace →
    many (property (expressionWithin bound : Reader Node)) stop (ts ++ c :: rest) = (.ok ps, c :: rest)

theorem property_progress {inner : Reader Node} (hin : Sound inner (Derives .assignment)) :
    Progress (property inner) := by
  refine ⟨fun {stop ts a rest} h => ?_⟩
  rcases property_sound hin h with ⟨hn, -⟩ | ⟨p, -, used, hd, hu⟩
  · cases hn
  obtain ⟨t, us, rfl, -⟩ := hd.begins
  rcases hu with ⟨c, rfl, -⟩ | ⟨rfl, -⟩
  · simp only [List.length_append, List.length_cons]
    omega
  · simp only [List.length_append, List.length_cons]
    omega

theorem property_of_closeBrace {inner : Reader Node} {stop c : Token} {rest : List Token}
    (hc : c.kind = .closeBrace) : property inner stop (c :: rest) = (.ok none, c :: rest) := by
  unfold property
  rw [bind_ok peek_cons, if_pos (by simp [hc])]
  rfl

theorem CompleteEntries.none : CompleteEntries [] [] := by
  intro bound stop c rest _ hc
  exact many_of_none (property_of_closeBrace hc)

theorem CompleteEntries.last {p : Node} (h : CompleteEntry ts p) : CompleteEntries ts [p] := by
  intro bound stop c rest hl hc
  have hp := (h bound stop c rest hl).2 hc
  exact many_of_some (property_progress (expressionWithin_sound bound)) hp
    (many_of_none (property_of_closeBrace hc))

theorem CompleteEntries.more {d : Token} {p : Node} {ps : List Node} (h : CompleteEntry ts p)
    (hd : d.kind = .comma) (hs : CompleteEntries us ps) :
    CompleteEntries (ts ++ d :: us) (p :: ps) := by
  intro bound stop c rest hl hc
  simp only [List.length_cons, List.length_append] at hl
  have hp := (h bound stop d (us ++ c :: rest) (by omega)).1 hd
  rw [List.append_assoc, List.cons_append]
  exact many_of_some (property_progress (expressionWithin_sound bound)) hp
    (hs bound stop c rest (by omega) hc)

theorem Complete.object {b c : Token} {ps : List Node} (hb : b.kind = .openBrace)
    (h : CompleteEntries ts ps) (hc : c.kind = .closeBrace) :
    Complete .object (b :: (ts ++ [c])) (.object (b.span.through c.span) ps) := by
  intro bound stop rest hl _
  simp only [List.length_cons, List.length_append, List.length_nil] at hl
  have hps := h bound stop c rest (by omega) hc
  simp only [Level.reader, List.cons_append, List.append_assoc, List.nil_append]
  unfold Grammar.object
  rw [bind_ok (accept_of_kind hb)]
  dsimp only
  rw [bind_ok hps, bind_ok (expectSpan_of_kind hc _)]
  rfl

theorem Complete.assignment {e : Token} {t v : Node} (ht : Complete .object ts t)
    (he : e.kind = .assign) (hd : Derives .assignment us v) (hv : Complete .assignment us v)
    (hpos : ts ≠ []) :
    Complete .assignment (ts ++ e :: us) (.assignment (spanTo t v.span) t v) := by
  intro bound stop rest hl hends
  have := List.length_pos_iff.2 hpos
  simp only [List.length_cons, List.length_append] at hl
  have hobject : Level.object.Ends (e :: (us ++ rest)) :=
    Level.ends_of_continues (l := .assignment) he _
  have hn : Grammar.object (expressionWithin bound : Reader _) stop (ts ++ e :: (us ++ rest))
      = (.ok t, e :: (us ++ rest)) := ht.operand (by omega) hobject
  have hval : (expressionWithin bound : Reader _) stop (us ++ rest) = (.ok v, rest) :=
    hv.inner hd (by omega) hends
  simp only [Level.reader, List.append_assoc, List.cons_append]
  unfold Grammar.assignment
  rw [bind_ok hn, bind_ok (accept_of_kind he)]
  dsimp only
  rw [bind_ok hval]
  rfl

end

mutual

theorem Derives.complete {l : Level} {ts : List Token} {n : Node} :
    Derives l ts n → Complete l ts n
  | .identifier h => .identifier h
  | .number h hn => .number h hn
  | .grouped ho h hc => .grouped ho h h.complete hc
  | .lift h => .lift h h.complete
  | .field h hd hx => .field h.complete hd hx.complete
  | .index h hb hp hc => .index h.complete hb hp hp.complete hc
  | .call h hb ha hc => .call h.complete hb ha.complete hc
  | .chain h ht ho hb => .chain h.complete ht ho hb.complete
  | .object hb h hc => .object hb h.complete hc
  | .assignment h he hv => .assignment h.complete he hv hv.complete h.ne_nil

theorem DerivesArguments.complete {ts : List Token} {ns : List Node} :
    DerivesArguments ts ns → CompleteArguments ts ns
  | .none => .none
  | .some h => .some h h.complete

theorem DerivesItems.complete {ts : List Token} {ns : List Node} :
    DerivesItems ts ns → CompleteItems ts ns
  | .last h => .last h h.complete
  | .more h hc hs => .more h h.complete hc hs.complete

theorem DerivesEntries.complete {ts : List Token} {ps : List Node} :
    DerivesEntries ts ps → CompleteEntries ts ps
  | .none => .none
  | .last h => .last h.complete
  | .more h hc hs => .more h.complete hc hs.complete

theorem DerivesEntry.complete {ts : List Token} {p : Node} :
    DerivesEntry ts p → CompleteEntry ts p
  | .shorthand hk => .shorthand hk
  | .keyed hk hc h => .keyed hk hc h h.complete

end

theorem expression_complete {stop : Token} {ts rest : List Token} {n : Node}
    (h : Derives .assignment ts n) (he : Level.assignment.Ends rest) :
    (expression : Reader _) stop (ts ++ rest) = (.ok n, rest) :=
  h.complete.inner h (by simp only [List.length_append]; omega) he

theorem nextStatement_progress : Progress nextStatement := by
  refine progress_of_sound nextStatement_sound ?_
  intro us n h
  cases h with
  | declaration => simp
  | initialised => simp
  | expression h => exact h.ne_nil
  | ended => simp

end TemplateScript.Grammar
