import TemplateScript.Proofs.GrammarComplete
import TemplateScript.Proofs.NumeralReadBack

/-!
# Rendering of trees

A tree is rendered as the kinds and texts of tokens, with parentheses around a part exactly when the
level of the part is lower than its place requires. Tokens with these kinds and texts derive the tree
again, up to spans.
-/

namespace TemplateScript

abbrev Face := Token.Kind × String

def Token.face (t : Token) : Face := (t.kind, t.text)

namespace Node

open Grammar (Level)

def level : Node → Level
  | assignment .. => .assignment
  | object .. => .object
  | binary _ _ op _ => if op ∈ Level.additive.operators then .additive else .multiplicative
  | call .. => .call
  | member .. => .member
  | _ => .primary

def enclosed (l : Level) (n : Node) (fs : List Face) : List Face :=
  if l.rank < n.level.rank then (.openParen, "(") :: (fs ++ [(.closeParen, ")")]) else fs

def separated : List (List Face) → List Face
  | [] => []
  | [fs] => fs
  | fs :: gs => fs ++ (.comma, ",") :: separated gs

mutual

def faces : Node → List Face
  | identifier _ x => [(.identifier, x)]
  | literal _ (.int n) => [(.number, toString n)]
  | binary s a op b =>
    let l := level (binary s a op b)
    enclosed l a (faces a) ++ (.operator, op) :: enclosed l.below b (faces b)
  | assignment _ t v =>
    enclosed .object t (faces t) ++ (.assign, "=") :: enclosed .assignment v (faces v)
  | member _ o p computed =>
    enclosed .member o (faces o) ++
      if computed then
        (.openBracket, "[") :: (enclosed .assignment p (faces p) ++ [(.closeBracket, "]")])
      else (.dot, ".") :: faces p
  | call _ callee args =>
    enclosed .call callee (faces callee) ++
      (.openParen, "(") :: (separated (facesEach args) ++ [(.closeParen, ")")])
  | object _ ps =>
    (.openBrace, "\x7b") :: (separated (facesEach ps) ++ [(.closeBrace, "\x7d")])
  | property _ key v =>
    (.identifier, key) ::
      if v.isAbsent then [] else (.colon, ":") :: enclosed .assignment v (faces v)
  | declaration _ constant x v =>
    (if constant then (.constWord, "const") else (.letWord, "let")) :: (.identifier, x) ::
      if v.isAbsent then [] else (.assign, "=") :: faces v
  | literal _ (.real _) | program .. | bare .. | filler _ => []

def facesEach : List Node → List (List Face)
  | [] => []
  | n :: ns => enclosed .assignment n (faces n) :: facesEach ns

end

def statementFaces (body : List Node) : List Face :=
  body.flatMap fun n => n.faces ++ [(.semicolon, ";")]

mutual

def unspanned : Node → Node
  | program _ body => program none (unspannedEach body)
  | declaration _ c x v => declaration none c x (unspanned v)
  | assignment _ t v => assignment none (unspanned t) (unspanned v)
  | binary _ a op b => binary none (unspanned a) op (unspanned b)
  | member _ o p computed => member none (unspanned o) (unspanned p) computed
  | call _ callee args => call none (unspanned callee) (unspannedEach args)
  | identifier _ x => identifier none x
  | literal _ v => literal none v
  | property _ key v => property none key (unspanned v)
  | object _ ps => object none (unspannedEach ps)
  | bare _ k => bare none k
  | filler f => filler f

def unspannedEach : List Node → List Node
  | [] => []
  | n :: ns => unspanned n :: unspannedEach ns

end

@[simp] theorem unspannedEach_eq (ns : List Node) : unspannedEach ns = ns.map unspanned := by
  induction ns with
  | nil => rfl
  | cons n ns ih => rw [unspannedEach, ih, List.map_cons]

end Node

namespace Grammar

/-! ## Levels may rise -/

theorem Level.rank_below (m : Level) (h : 0 < m.rank) : m.below.rank + 1 = m.rank := by
  cases m
  case primary => exact absurd h (by decide)
  all_goals rfl

theorem Derives.rise {l : Level} {ts : List Token} {n : Node} (h : Derives l ts n) :
    ∀ m : Level, l.rank ≤ m.rank → Derives m ts n := by
  have key : ∀ k (m : Level), m.rank = l.rank + k → Derives m ts n := by
    intro k
    induction k with
    | zero =>
      intro m hm
      have : m = l := by cases m <;> cases l <;> simp_all [Level.rank]
      rw [this]
      exact h
    | succ k ih =>
      intro m hm
      have hb := m.rank_below (by omega)
      exact .lift (ih _ (by omega))
  intro m hm
  exact key (m.rank - l.rank) m (by omega)

/-! ## Tokens with given kinds and texts -/

/-- Tokens that look as given derive the tree, up to spans. -/
def Renders (l : Level) (fs : List Face) (n : Node) : Prop :=
  ∀ ts : List Token, ts.map Token.face = fs → ∃ m, Derives l ts m ∧ m.unspanned = n.unspanned

theorem face_eq {t : Token} {k : Token.Kind} {s : String} (h : t.face = (k, s)) :
    t.kind = k ∧ t.text = s := by
  simpa [Token.face] using h

theorem map_eq_snoc {ts : List Token} {fs : List Face} {f : Face}
    (h : ts.map Token.face = fs ++ [f]) :
    ∃ us t, ts = us ++ [t] ∧ us.map Token.face = fs ∧ t.face = f := by
  obtain ⟨us, vs, rfl, hus, hvs⟩ := List.map_eq_append_iff.1 h
  obtain ⟨t, ws, rfl, ht, hws⟩ := List.map_eq_cons_iff.1 hvs
  obtain rfl := List.map_eq_nil_iff.1 hws
  exact ⟨us, t, rfl, hus, ht⟩

theorem map_eq_middle {ts : List Token} {fs gs : List Face} {f : Face}
    (h : ts.map Token.face = fs ++ f :: gs) :
    ∃ us t vs, ts = us ++ t :: vs ∧ us.map Token.face = fs ∧ t.face = f ∧
      vs.map Token.face = gs := by
  obtain ⟨us, ws, rfl, hus, hws⟩ := List.map_eq_append_iff.1 h
  obtain ⟨t, vs, rfl, ht, hvs⟩ := List.map_eq_cons_iff.1 hws
  exact ⟨us, t, vs, rfl, hus, ht, hvs⟩

theorem Renders.enclosed {n : Node} {fs : List Face} (h : Renders n.level fs n) (l : Level) :
    Renders l (n.enclosed l fs) n := by
  intro ts hts
  unfold Node.enclosed at hts
  split at hts
  · obtain ⟨o, us, rfl, ho, hus⟩ := List.map_eq_cons_iff.1 hts
    obtain ⟨vs, c, rfl, hvs, hc⟩ := map_eq_snoc hus
    obtain ⟨m, hd, hm⟩ := h vs hvs
    have hin : Derives .assignment vs m := hd.rise _ (by cases n.level <;> simp [Level.rank])
    have hp : Derives .primary (o :: (vs ++ [c])) m := .grouped (face_eq ho).1 hin (face_eq hc).1
    exact ⟨m, hp.rise l (by simp [Level.rank]), hm⟩
  · obtain ⟨m, hd, hm⟩ := h ts hts
    exact ⟨m, hd.rise l (by omega), hm⟩

/-! ## What is rendered is derived -/

theorem Renders.identifier (s : Option Span) (x : String) :
    Renders .primary [(.identifier, x)] (.identifier s x) := by
  intro ts hts
  obtain ⟨t, us, rfl, ht, hus⟩ := List.map_eq_cons_iff.1 hts
  obtain rfl := List.map_eq_nil_iff.1 hus
  obtain ⟨hk, rfl⟩ := face_eq ht
  exact ⟨_, .identifier hk, rfl⟩

theorem Renders.numeral (s : Option Span) {text : String} {n : Int}
    (hn : Numeral.read? text = some n) : Renders .primary [(.number, text)] (.literal s (.int n)) := by
  intro ts hts
  obtain ⟨t, us, rfl, ht, hus⟩ := List.map_eq_cons_iff.1 hts
  obtain rfl := List.map_eq_nil_iff.1 hus
  obtain ⟨hk, rfl⟩ := face_eq ht
  exact ⟨_, .number hk hn, rfl⟩

theorem Renders.literal (s : Option Span) {n : Int} (hn : Numeral.IsLiteral n) :
    Renders .primary [(.number, toString n)] (.literal s (.int n)) := .numeral s hn.read?

section
variable {fs gs : List Face}

theorem Renders.binary {l : Level} (s : Option Span) {a b : Node} {op : String}
    (ha : Renders l fs a) (hop : op ∈ l.operators) (hb : Renders l.below gs b) :
    Renders l (fs ++ (.operator, op) :: gs) (.binary s a op b) := by
  intro ts hts
  obtain ⟨us, t, vs, rfl, hus, ht, hvs⟩ := map_eq_middle hts
  obtain ⟨hk, rfl⟩ := face_eq ht
  obtain ⟨m, hm, hme⟩ := ha us hus
  obtain ⟨k, hkd, hke⟩ := hb vs hvs
  exact ⟨_, .chain hm hk hop hkd, by simp [Node.unspanned, hme, hke]⟩

theorem Renders.assignment (s : Option Span) {t v : Node} (ht : Renders .object fs t)
    (hv : Renders .assignment gs v) :
    Renders .assignment (fs ++ (.assign, "=") :: gs) (.assignment s t v) := by
  intro ts hts
  obtain ⟨us, e, vs, rfl, hus, he, hvs⟩ := map_eq_middle hts
  obtain ⟨m, hm, hme⟩ := ht us hus
  obtain ⟨k, hkd, hke⟩ := hv vs hvs
  exact ⟨_, .assignment hm (face_eq he).1 hkd, by simp [Node.unspanned, hme, hke]⟩

theorem Renders.field (s s' : Option Span) {o : Node} (x : String) (ho : Renders .member fs o) :
    Renders .member (fs ++ [(.dot, "."), (.identifier, x)])
      (.member s o (.identifier s' x) false) := by
  intro ts hts
  obtain ⟨us, d, vs, rfl, hus, hd, hvs⟩ := map_eq_middle hts
  obtain ⟨t, ws, rfl, ht, hws⟩ := List.map_eq_cons_iff.1 hvs
  obtain rfl := List.map_eq_nil_iff.1 hws
  obtain ⟨hk, rfl⟩ := face_eq ht
  obtain ⟨m, hm, hme⟩ := ho us hus
  exact ⟨_, .field hm (face_eq hd).1 (.identifier hk), by simp [Node.unspanned, hme]⟩

theorem Renders.index (s : Option Span) {o p : Node} (ho : Renders .member fs o)
    (hp : Renders .assignment gs p) :
    Renders .member (fs ++ (.openBracket, "[") :: (gs ++ [(.closeBracket, "]")]))
      (.member s o p true) := by
  intro ts hts
  obtain ⟨us, b, ws, rfl, hus, hb, hws⟩ := map_eq_middle hts
  obtain ⟨vs, c, rfl, hvs, hc⟩ := map_eq_snoc hws
  obtain ⟨m, hm, hme⟩ := ho us hus
  obtain ⟨k, hkd, hke⟩ := hp vs hvs
  exact ⟨_, .index hm (face_eq hb).1 hkd (face_eq hc).1, by simp [Node.unspanned, hme, hke]⟩

end

theorem items_of_separated : ∀ {a : Node} {args : List Node} {ts : List Token},
    (∀ b ∈ a :: args, Renders b.level b.faces b) →
    ts.map Token.face = Node.separated (Node.facesEach (a :: args)) →
    ∃ ms, DerivesItems ts ms ∧ ms.map Node.unspanned = (a :: args).map Node.unspanned
  | a, [], ts, h, hts => by
    obtain ⟨m, hm, hme⟩ := (h a (by simp)).enclosed .assignment ts hts
    exact ⟨[m], .last hm, by simp [hme]⟩
  | a, b :: args, ts, h, hts => by
    obtain ⟨us, c, vs, rfl, hus, hc, hvs⟩ := map_eq_middle hts
    obtain ⟨m, hm, hme⟩ := (h a (by simp)).enclosed .assignment us hus
    obtain ⟨ms, hms, hmse⟩ := items_of_separated (fun d hd => h d (List.mem_cons_of_mem _ hd)) hvs
    exact ⟨m :: ms, .more hm (face_eq hc).1 hms, by rw [List.map_cons, hme, hmse, ← List.map_cons]⟩

theorem arguments_of_separated {args : List Node} {ts : List Token}
    (h : ∀ a ∈ args, Renders a.level a.faces a)
    (hts : ts.map Token.face = Node.separated (Node.facesEach args)) :
    ∃ ms, DerivesArguments ts ms ∧ ms.map Node.unspanned = args.map Node.unspanned := by
  cases args with
  | nil =>
    obtain rfl := List.map_eq_nil_iff.1 hts
    exact ⟨[], .none, rfl⟩
  | cons a args =>
    obtain ⟨ms, hms, he⟩ := items_of_separated h hts
    exact ⟨ms, .some hms, he⟩

theorem Renders.call (s : Option Span) {callee : Node} {args : List Node} {fs : List Face}
    (hc : Renders .call fs callee) (ha : ∀ a ∈ args, Renders a.level a.faces a) :
    Renders .call
      (fs ++ (.openParen, "(") :: (Node.separated (Node.facesEach args) ++ [(.closeParen, ")")]))
      (.call s callee args) := by
  intro ts hts
  obtain ⟨us, o, ws, rfl, hus, ho, hws⟩ := map_eq_middle hts
  obtain ⟨vs, c, rfl, hvs, hcl⟩ := map_eq_snoc hws
  obtain ⟨m, hm, hme⟩ := hc us hus
  obtain ⟨ms, hms, hmse⟩ := arguments_of_separated ha hvs
  exact ⟨_, .call hm (face_eq ho).1 hms (face_eq hcl).1, by simp [Node.unspanned, hme, hmse]⟩

def RendersEntry (fs : List Face) (p : Node) : Prop :=
  ∀ ts : List Token, ts.map Token.face = fs → ∃ q, DerivesEntry ts q ∧ q.unspanned = p.unspanned

theorem RendersEntry.shorthand (s : Option Span) (key : String) :
    RendersEntry [(.identifier, key)] (.property s key .absent) := by
  intro ts hts
  obtain ⟨t, us, rfl, ht, hus⟩ := List.map_eq_cons_iff.1 hts
  obtain rfl := List.map_eq_nil_iff.1 hus
  obtain ⟨hk, rfl⟩ := face_eq ht
  exact ⟨_, .shorthand hk, rfl⟩

theorem RendersEntry.keyed (s : Option Span) (key : String) {v : Node} {fs : List Face}
    (hv : Renders .assignment fs v) :
    RendersEntry ((.identifier, key) :: (.colon, ":") :: fs) (.property s key v) := by
  intro ts hts
  obtain ⟨t, us, rfl, ht, hus⟩ := List.map_eq_cons_iff.1 hts
  obtain ⟨c, vs, rfl, hc, hvs⟩ := List.map_eq_cons_iff.1 hus
  obtain ⟨hk, rfl⟩ := face_eq ht
  obtain ⟨m, hm, hme⟩ := hv vs hvs
  exact ⟨_, .keyed hk (face_eq hc).1 hm, by simp [Node.unspanned, hme]⟩

theorem entries_of_separated : ∀ {ps : List Node} {ts : List Token},
    (∀ p ∈ ps, RendersEntry (p.enclosed .assignment p.faces) p) →
    ts.map Token.face = Node.separated (Node.facesEach ps) →
    ∃ qs, DerivesEntries ts qs ∧ qs.map Node.unspanned = ps.map Node.unspanned
  | [], ts, _, hts => by
    obtain rfl := List.map_eq_nil_iff.1 hts
    exact ⟨[], .none, rfl⟩
  | [p], ts, h, hts => by
    obtain ⟨q, hq, hqe⟩ := h p (by simp) ts hts
    exact ⟨[q], .last hq, by simp [hqe]⟩
  | p :: p' :: ps, ts, h, hts => by
    obtain ⟨us, c, vs, rfl, hus, hc, hvs⟩ := map_eq_middle hts
    obtain ⟨q, hq, hqe⟩ := h p (by simp) us hus
    have hps : ∀ d ∈ p' :: ps, RendersEntry (d.enclosed .assignment d.faces) d :=
      fun d hd => h d (List.mem_cons_of_mem _ hd)
    obtain ⟨qs, hqs, hqse⟩ := entries_of_separated hps hvs
    exact ⟨q :: qs, .more hq (face_eq hc).1 hqs, by rw [List.map_cons, hqe, hqse, ← List.map_cons]⟩

theorem Renders.object (s : Option Span) {ps : List Node}
    (h : ∀ p ∈ ps, RendersEntry (p.enclosed .assignment p.faces) p) :
    Renders .object
      ((.openBrace, "\x7b") :: (Node.separated (Node.facesEach ps) ++ [(.closeBrace, "\x7d")]))
      (.object s ps) := by
  intro ts hts
  obtain ⟨b, ws, rfl, hb, hws⟩ := List.map_eq_cons_iff.1 hts
  obtain ⟨vs, c, rfl, hvs, hc⟩ := map_eq_snoc hws
  obtain ⟨qs, hqs, hqse⟩ := entries_of_separated h hvs
  exact ⟨_, .object (face_eq hb).1 hqs (face_eq hc).1, by simp [Node.unspanned, hqse]⟩

theorem operators_of_level (s : Option Span) (a b : Node) {op : String} (h : op ∈ Node.operators) :
    op ∈ (Node.binary s a op b).level.operators := by
  rw [Node.level]
  split
  · assumption
  · simp_all [Node.operators, Level.operators]

mutual

theorem renders_expression {n : Node} : Node.IsExpression Numeral.IsLiteral n →
    Renders n.level n.faces n
  | .identifier s x => by
    rw [Node.faces]
    exact .identifier s x
  | .literal s h => by
    rw [Node.faces]
    exact .literal s h
  | .binary s ha hop hb => by
    rw [Node.faces]
    exact .binary s ((renders_expression ha).enclosed _) (operators_of_level s _ _ hop)
      ((renders_expression hb).enclosed _)
  | .assignment s ht hv => by
    rw [Node.faces]
    exact .assignment s ((renders_expression ht).enclosed _) ((renders_expression hv).enclosed _)
  | .field s s' x ho => by
    rw [Node.faces]
    exact .field s s' x ((renders_expression ho).enclosed _)
  | .index s ho hp => by
    rw [Node.faces]
    exact .index s ((renders_expression ho).enclosed _) ((renders_expression hp).enclosed _)
  | .call s hc ha => by
    rw [Node.faces]
    exact .call s ((renders_expression hc).enclosed _) fun a h => renders_expression (ha a h)
  | .object s hps => by
    rw [Node.faces]
    exact .object s fun p h => renders_entry (hps p h)

theorem renders_entry {p : Node} : Node.IsEntry Numeral.IsLiteral p →
    RendersEntry (p.enclosed .assignment p.faces) p
  | .shorthand s key => by
    rw [Node.faces]
    exact .shorthand s key
  | .keyed s key hv => by
    rw [Node.faces, hv.isAbsent]
    exact .keyed s key ((renders_expression hv).enclosed _)

end

end Grammar

end TemplateScript
