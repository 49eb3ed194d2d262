import TemplateScript.Proofs.CursorReadings
import TemplateScript.Proofs.Rendering

/-!
# Rendered scripts are read back

Statements that are rendered one after the other, each ended by a semicolon, are the program that the
tokens are read as: between tags, or alone ahead of the token that ends the list.
-/

namespace TemplateScript

namespace Grammar

open Reader TokenReader

def Closed (ts : List Token) (n : Node) : Prop :=
  ∀ stop rest, (statement : Reader _) stop (ts ++ rest) = (.ok n, rest)

theorem Closed.declaration {k x s : Token} (hk : k.kind = .letWord) (hx : x.kind = .identifier)
    (hs : s.kind = .semicolon) :
    Closed [k, x, s] (.declaration (k.span.through s.span) false x.text .absent) := by
  intro stop rest
  simp only [List.cons_append, List.nil_append]
  unfold statement
  rw [bind_ok (takeIf_of_pos (by simp [hk]))]
  dsimp only
  unfold Grammar.declaration
  rw [bind_ok (expect_of_kind hx _), bind_ok (acceptSpan_of_kind hs)]
  dsimp only
  rw [if_neg (by simp [hk])]
  rfl

theorem Closed.initialised {k x e s : Token} {ts : List Token} {v : Node}
    (hk : k.kind = .letWord ∨ k.kind = .constWord) (hx : x.kind = .identifier)
    (he : e.kind = .assign) (hv : Derives .assignment ts v) (hs : s.kind = .semicolon) :
    Closed (k :: x :: e :: (ts ++ [s]))
      (.declaration (k.span.through s.span) (k.kind = .constWord) x.text v) := by
  intro stop rest
  have hends : Level.assignment.Ends (s :: rest) :=
    Level.ends_of_closes (by simp [Level.Closes, hs]) _
  have hread : (expression : Reader _) stop (ts ++ s :: rest) = (.ok v, s :: rest) :=
    expression_complete hv hends
  have hnone : (acceptSpan .semicolon : Reader _) stop (e :: (ts ++ s :: rest))
      = (.ok none, e :: (ts ++ s :: rest)) := acceptSpan_of_head (by simp [he])
  simp only [List.cons_append, List.append_assoc, List.nil_append]
  unfold statement
  rw [bind_ok (takeIf_of_pos (by simpa using hk))]
  dsimp only
  unfold Grammar.declaration
  rw [bind_ok (expect_of_kind hx _), bind_ok hnone]
  dsimp only
  rw [bind_ok (expect_of_kind he _), bind_ok hread, bind_ok (expectSpan_of_kind hs _)]
  rfl

/-- No expression begins with the word of a declaration. -/
theorem statement_of_derives {ts : List Token} {n : Node} (hn : Derives .assignment ts n)
    (stop : Token) (rest : List Token) :
    (statement : Reader _) stop (ts ++ rest) = (expressionStatement : Reader _) stop (ts ++ rest) := by
  obtain ⟨t, us, rfl, ht⟩ := hn.begins
  have hword : ¬ (t.kind = .letWord ∨ t.kind = .constWord) := by
    rintro (hk | hk) <;> simp [Level.Begins, hk] at ht
  unfold statement
  rw [List.cons_append, bind_ok (takeIf_of_head (by simpa using hword))]

theorem Closed.ended {s : Token} {ts : List Token} {n : Node} (hn : Derives .assignment ts n)
    (hs : s.kind = .semicolon) : Closed (ts ++ [s]) n := by
  intro stop rest
  have hends : Level.assignment.Ends (s :: rest) :=
    Level.ends_of_closes (by simp [Level.Closes, hs]) _
  have hread : (expression : Reader _) stop (ts ++ s :: rest) = (.ok n, s :: rest) :=
    expression_complete hn hends
  rw [List.append_assoc, List.singleton_append, statement_of_derives hn]
  unfold expressionStatement
  rw [bind_ok hread, bind_ok (accept_of_kind hs)]
  rfl

theorem renders_statement {n : Node} (h : Node.IsStatement Numeral.IsLiteral n) {ts : List Token}
    (hts : ts.map Token.face = n.faces ++ [(.semicolon, ";")]) :
    ∃ m, Closed ts m ∧ m.unspanned = n.unspanned := by
  obtain ⟨us, s, rfl, hus, hs⟩ := map_eq_snoc hts
  cases h with
  | expression hn =>
    obtain ⟨m, hm, hme⟩ := renders_expression hn us hus
    exact ⟨m, .ended (hm.rise _ (by cases n.level <;> simp [Level.rank])) (face_eq hs).1, hme⟩
  | declaration sp x =>
    obtain ⟨k, vs, rfl, hk, hvs⟩ := List.map_eq_cons_iff.1 hus
    obtain ⟨y, ws, rfl, hy, hws⟩ := List.map_eq_cons_iff.1 hvs
    obtain rfl := List.map_eq_nil_iff.1 hws
    obtain ⟨hid, rfl⟩ := face_eq hy
    exact ⟨_, .declaration (face_eq hk).1 hid (face_eq hs).1, rfl⟩
  | initialised sp constant x hv =>
    rw [Node.faces, hv.isAbsent] at hus
    obtain ⟨k, vs, rfl, hk, hvs⟩ := List.map_eq_cons_iff.1 hus
    obtain ⟨y, ws, rfl, hy, hws⟩ := List.map_eq_cons_iff.1 hvs
    obtain ⟨e, zs, rfl, he, hzs⟩ := List.map_eq_cons_iff.1 hws
    obtain ⟨hid, rfl⟩ := face_eq hy
    obtain ⟨m, hm, hme⟩ := renders_expression hv zs hzs
    have hword : (k.kind = .letWord ∨ k.kind = .constWord) ∧
        decide (k.kind = .constWord) = constant := by
      cases constant
      · simp [(face_eq hk).1]
      · simp [(face_eq hk).1]
    have hd := hm.rise .assignment (by cases (Node.level _) <;> simp [Level.rank])
    refine ⟨_, .initialised hword.1 hid (face_eq he).1 hd (face_eq hs).1, ?_⟩
    simp [Node.unspanned, hme, hword.2]

theorem nextStatement_of_closed {stop : Token} {ts rest : List Token} {n : Node} (h : Closed ts n)
    (hne : ts ≠ []) : (nextStatement : Reader _) stop (ts ++ rest) = (.ok (some n), rest) := by
  obtain ⟨t, us, rfl⟩ := List.exists_cons_of_ne_nil hne
  have hn := h stop rest
  rw [List.cons_append] at hn ⊢
  unfold nextStatement
  rw [bind_ok peek_cons, if_neg (by simp), bind_ok hn]
  rfl

theorem renders_body : ∀ {body : List Node} {ts : List Token},
    (∀ n ∈ body, Node.IsStatement Numeral.IsLiteral n) →
    ts.map Token.face = Node.statementFaces body →
    ∃ ms, (∀ stop, (many nextStatement : Reader _) stop ts = (.ok ms, [])) ∧
      ms.map Node.unspanned = body.map Node.unspanned
  | [], ts, _, hts => by
    obtain rfl := List.map_eq_nil_iff.1 hts
    exact ⟨[], fun _ => rfl, rfl⟩
  | n :: body, ts, h, hts => by
    obtain ⟨us, vs, rfl, hus, hvs⟩ := List.map_eq_append_iff.1 hts
    obtain ⟨m, hm, hme⟩ := renders_statement (h n (by simp)) hus
    obtain ⟨ms, hms, hmse⟩ := renders_body (fun k hk => h k (List.mem_cons_of_mem _ hk)) hvs
    have hne : us ≠ [] := by
      rintro rfl
      simp at hus
    refine ⟨m :: ms, fun stop => ?_, by rw [List.map_cons, hme, hmse, ← List.map_cons]⟩
    exact many_of_some nextStatement_progress (nextStatement_of_closed hm hne) (hms stop)

theorem renders_program {body : List Node} {ts : List Token}
    (h : ∀ n ∈ body, Node.IsStatement Numeral.IsLiteral n)
    (hts : ts.map Token.face = Node.statementFaces body) (stop : Token) :
    ∃ n, (program : Reader _) stop ts = (.ok n, []) ∧
      n.unspanned = (Node.program none body).unspanned := by
  obtain ⟨ms, hms, he⟩ := renders_body h hts
  have hcurrent : (current : Reader _) stop ts = (.ok (ts.headD stop), ts) := rfl
  refine ⟨.program (programSpan (ts.headD stop) ms) ms, ?_, by simp [Node.unspanned, he]⟩
  unfold program
  rw [bind_ok hcurrent, bind_ok (hms stop)]
  rfl

end Grammar

/-! ## No tags in renderings -/

def Untagged (fs : List Face) : Prop := ∀ f ∈ fs, f.1 ≠ .openTag ∧ f.1 ≠ .closeTag

@[simp] theorem untagged_nil : Untagged [] := by simp [Untagged]

@[simp] theorem untagged_cons {f : Face} {fs : List Face} :
    Untagged (f :: fs) ↔ (f.1 ≠ .openTag ∧ f.1 ≠ .closeTag) ∧ Untagged fs := by
  simp [Untagged]

@[simp] theorem untagged_append {fs gs : List Face} :
    Untagged (fs ++ gs) ↔ Untagged fs ∧ Untagged gs := by
  unfold Untagged
  exact List.forall_mem_append

namespace Node

@[simp] theorem untagged_enclosed {l : Grammar.Level} {n : Node} {fs : List Face} :
    Untagged (enclosed l n fs) ↔ Untagged fs := by
  unfold enclosed
  split <;> simp

theorem untagged_separated : ∀ {fss : List (List Face)}, (∀ fs ∈ fss, Untagged fs) →
    Untagged (separated fss)
  | [], _ => by simp [separated]
  | [fs], h => h fs (by simp)
  | fs :: gs :: fss, h => by
    have hr := untagged_separated fun hs hm => h hs (List.mem_cons_of_mem fs hm)
    have hfs := h fs (by simp)
    simp [separated, hfs, hr]

mutual

theorem untagged_faces : ∀ n : Node, Untagged n.faces
  | identifier .. => by simp [faces]
  | literal _ (.int _) => by simp [faces]
  | binary _ a _ b => by simp [faces, untagged_faces a, untagged_faces b]
  | assignment _ t v => by simp [faces, untagged_faces t, untagged_faces v]
  | member _ o p computed => by
    cases computed <;> simp [faces, untagged_faces o, untagged_faces p]
  | call _ callee args => by
    have hargs := untagged_separated (untagged_facesEach args)
    simp [faces, untagged_faces callee, hargs]
  | object _ ps => by
    have hps := untagged_separated (untagged_facesEach ps)
    simp [faces, hps]
  | property _ _ v => by
    rw [faces]
    split <;> simp [untagged_faces v]
  | declaration _ constant _ v => by
    have hv : Untagged (if v.isAbsent then [] else (.assign, "=") :: v.faces) := by
      split <;> simp [untagged_faces v]
    rw [faces]
    cases constant <;> simp [hv]
  | literal _ (.real _) | program .. | bare .. | filler _ => by simp [faces]

theorem untagged_facesEach : ∀ ns : List Node, ∀ fs ∈ facesEach ns, Untagged fs
  | [] => by simp [facesEach]
  | n :: ns => by
    have hn := untagged_faces n
    have hns := untagged_facesEach ns
    simpa [facesEach, hn] using hns

end

theorem untagged_statementFaces (body : List Node) : Untagged (statementFaces body) := by
  induction body with
  | nil => simp [statementFaces]
  | cons n body ih =>
    have hn := untagged_faces n
    unfold statementFaces at ih ⊢
    simpa [hn] using ih

end Node

theorem untagged_tokens {ts : List Token} {fs : List Face} (hts : ts.map Token.face = fs)
    (h : Untagged fs) : ∀ t ∈ ts, t.kind ≠ .openTag ∧ t.kind ≠ .closeTag := by
  intro t ht
  refine h t.face ?_
  rw [← hts]
  exact List.mem_map_of_mem ht

/-! ## Token lists -/

namespace Cursor

theorem region?_of_untagged {ts : List Token} (h : ∀ t ∈ ts, t.kind ≠ .openTag) :
    region? ts = none := by
  have hnone : ts.findIdx? (·.kind = .openTag) = none := by simpa using h
  rw [region?, hnone]
  rfl

theorem region?_of_tags {before ts after : List Token} {o c : Token}
    (hb : ∀ t ∈ before, t.kind ≠ .openTag) (ho : o.kind = .openTag)
    (hts : ∀ t ∈ ts, t.kind ≠ .closeTag) (hc : c.kind = .closeTag) :
    region? (before ++ o :: (ts ++ c :: after))
      = some (before.length + 1, some (before.length + 1 + ts.length)) := by
  have hopen : (before ++ o :: (ts ++ c :: after)).findIdx? (·.kind = .openTag)
      = some before.length := by
    have hnone : before.findIdx? (·.kind = .openTag) = none := by simpa using hb
    rw [List.findIdx?_append, hnone]
    simp [List.findIdx?_cons, ho]
  have hclose : (ts ++ c :: after).findIdx? (·.kind = .closeTag) = some ts.length := by
    have hnone : ts.findIdx? (·.kind = .closeTag) = none := by simpa using hts
    rw [List.findIdx?_append, hnone]
    simp [List.findIdx?_cons, hc]
  have hdrop : (before ++ o :: (ts ++ c :: after)).drop (before.length + 1) = ts ++ c :: after := by
    rw [List.drop_append]
    simp
  rw [region?, hopen, Option.map_some, hdrop, hclose]
  rfl

theorem read_of_enter {c d : Cursor} {stop : Token} {n : Node} (hc : c.InRange)
    (he : c.enter = .ok d) (hs : d.tokens[d.stop]? = some stop)
    (hn : (Grammar.program : Reader _) stop d.rest = (.ok n, [])) : c.read.1 = .ok n := by
  rw [(hc.read_entered he hs).1, hn]
  rfl

end Cursor

namespace Node

theorem ofTokens_of_end {ts : List Token} {stop : Token} {n : Node}
    (h : ∀ t ∈ ts, t.kind ≠ .openTag) (hs : stop.kind ≠ .openTag) (hm : stop.isAbortMark = false)
    (hn : (Grammar.program : Reader _) stop ts = (.ok n, [])) : ofTokens (ts ++ [stop]) = .ok n := by
  have hregion : Cursor.region? (ts ++ [stop]) = none := by
    apply Cursor.region?_of_untagged
    intro t ht
    rcases List.mem_append.1 ht with ht | ht
    · exact h t ht
    · obtain rfl := List.mem_singleton.1 ht
      exact hs
  have henter : (Cursor.ofTokens (ts ++ [stop])).enter = .ok ⟨ts ++ [stop], 0, ts.length⟩ := by
    simp [Cursor.ofTokens, Cursor.enter, hm, hregion]
  have hstop : (ts ++ [stop])[ts.length]? = some stop := by simp
  have hrest : Cursor.rest ⟨ts ++ [stop], 0, ts.length⟩ = ts := by simp [Cursor.rest]
  refine Cursor.read_of_enter (Cursor.inRange_ofTokens (by simp)) henter hstop ?_
  rw [hrest]
  exact hn

theorem ofTokens_of_tags {before ts after : List Token} {o c : Token} {n : Node}
    (hb : ∀ t ∈ before, t.kind ≠ .openTag) (ho : o.kind = .openTag)
    (h : ∀ t ∈ ts, t.kind ≠ .closeTag) (hc : c.kind = .closeTag)
    (hm : Token.scanAborted (before ++ o :: (ts ++ c :: after)) = false)
    (hn : (Grammar.program : Reader _) c ts = (.ok n, [])) :
    ofTokens (before ++ o :: (ts ++ c :: after)) = .ok n := by
  have hregion : Cursor.region? (before ++ o :: (ts ++ c :: after))
      = some (before.length + 1, some (before.length + 1 + ts.length)) :=
    Cursor.region?_of_tags hb ho h hc
  have henter : (Cursor.ofTokens (before ++ o :: (ts ++ c :: after))).enter
      = .ok ⟨before ++ o :: (ts ++ c :: after), before.length + 1,
          before.length + 1 + ts.length⟩ := by
    cases hl : (before ++ o :: (ts ++ c :: after)).getLast? with
    | none => simp at hl
    | some last =>
      have habort : last.isAbortMark = false := by simpa [Token.scanAborted, hl] using hm
      simp only [Cursor.ofTokens, Cursor.enter, hl, habort, hregion]
      rfl
  have hsplit : before ++ o :: (ts ++ c :: after) = (before ++ o :: ts) ++ c :: after := by simp
  have hlen : before.length + 1 + ts.length = (before ++ o :: ts).length := by
    simp only [List.length_append, List.length_cons]
    omega
  have hstop : (before ++ o :: (ts ++ c :: after))[before.length + 1 + ts.length]? = some c := by
    rw [hsplit, hlen, List.getElem?_append_right (Nat.le_refl _)]
    simp
  have hrest : Cursor.rest ⟨before ++ o :: (ts ++ c :: after), before.length + 1,
      before.length + 1 + ts.length⟩ = ts := by
    simp only [Cursor.rest]
    rw [hsplit, hlen, List.take_left, List.drop_append]
    simp
  refine Cursor.read_of_enter (Cursor.inRange_ofTokens (by simp)) henter hstop ?_
  rw [hrest]
  exact hn

/-- Tokens that look like rendered statements are read as the program of these statements, up to
spans: ahead of any token that may end a list, and between tags in any list. -/
theorem rendered_statements_read_back {body : List Node}
    (hbody : ∀ n ∈ body, IsStatement Numeral.IsLiteral n) {ts : List Token}
    (hts : ts.map Token.face = statementFaces body) :
    (∀ stop : Token, stop.kind ≠ .openTag → stop.isAbortMark = false →
      ∃ n, ofTokens (ts ++ [stop]) = .ok n ∧ n.unspanned = (program none body).unspanned) ∧
    ∀ (before after : List Token) (o c : Token), (∀ t ∈ before, t.kind ≠ .openTag) →
      o.kind = .openTag → c.kind = .closeTag →
      Token.scanAborted (before ++ o :: (ts ++ c :: after)) = false →
      ∃ n, ofTokens (before ++ o :: (ts ++ c :: after)) = .ok n ∧
        n.unspanned = (program none body).unspanned := by
  have hplain := untagged_tokens hts (untagged_statementFaces body)
  constructor
  · intro stop hs hm
    obtain ⟨n, hn, he⟩ := Grammar.renders_program hbody hts stop
    exact ⟨n, ofTokens_of_end (fun t ht => (hplain t ht).1) hs hm hn, he⟩
  · intro before after o c hb ho hc hm
    obtain ⟨n, hn, he⟩ := Grammar.renders_program hbody hts c
    exact ⟨n, ofTokens_of_tags hb ho (fun t ht => (hplain t ht).2) hc hm hn, he⟩

/-- The tree of `let p = (1 + x) * 2;`, where the sum is looser than its place requires. -/
def productOfSum : Node :=
  .declaration none false "p"
    (.binary none (.binary none (.literal none (.int 1)) "+" (.identifier none "x")) "*"
      (.literal none (.int 2)))

def productTokens : List Token :=
  [(.letWord, "let"), (.identifier, "p"), (.assign, "="), (.openParen, "("), (.number, "1"),
    (.operator, "+"), (.identifier, "x"), (.closeParen, ")"), (.operator, "*"), (.number, "2"),
    (.semicolon, ";")].map fun f => ⟨f.1, f.2, .point (.first none)⟩

theorem productOfSum_read_back :
    productTokens.map Token.face = statementFaces [productOfSum] ∧
      ∃ n, ofTokens (productTokens ++ [.endAt (.first none)]) = .ok n ∧
        n.unspanned = (program none [productOfSum]).unspanned := by
  have hsum : IsExpression Numeral.IsLiteral
      (.binary none (.literal none (.int 1)) "+" (.identifier none "x")) :=
    .binary _ (.literal _ (by decide)) (by decide) (.identifier _ _)
  have hproduct : IsStatement Numeral.IsLiteral productOfSum :=
    .initialised _ _ _ (.binary _ hsum (by decide) (.literal _ (by decide)))
  have hbody : ∀ n ∈ [productOfSum], IsStatement Numeral.IsLiteral n := by simpa using hproduct
  have hts : productTokens.map Token.face = statementFaces [productOfSum] := by decide +kernel
  exact ⟨hts, (rendered_statements_read_back hbody hts).1 _ (by decide) (by decide)⟩

end Node

end TemplateScript
