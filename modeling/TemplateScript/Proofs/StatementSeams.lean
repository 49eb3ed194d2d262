import TemplateScript.Proofs.NestedSpans
import TemplateScript.Proofs.ProgramRegion
import TemplateScript.Proofs.ReaderExtension

/-!
# Programs statement by statement

No expression holds a semicolon, so statements that end in one are read alike whatever stands behind
them. A program whose first part ends so is read as the statements of both parts in turn, and fails
where the second part alone does.
-/

namespace TemplateScript

namespace Grammar

open Reader TokenReader

def Ended (ts : List Token) : Prop := ∀ t ∈ ts.getLast?, t.kind = .semicolon

theorem Ended.of_suffix {ts us : List Token} (h : Ended ts) (hs : us <:+ ts) : Ended us := by
  intro t ht
  obtain ⟨vs, rfl⟩ := hs
  exact h t (by rw [List.getLast?_append, Option.mem_def.1 ht]; rfl)

/-- A statement that ends in a semicolon is read whatever follows. -/
theorem DerivesStatement.closed {ts : List Token} {n : Node} (h : DerivesStatement ts n)
    (hend : Ended ts) : Closed ts n := by
  cases h with
  | declaration hk hx hs => exact .declaration hk hx hs
  | initialised hk hx he hv hs => exact .initialised hk hx he hv hs
  | ended hn hs => exact .ended hn hs
  | expression hn =>
    have hlast := List.getLast?_eq_some_getLast hn.ne_nil
    exact absurd (hend _ hlast) (hn.whole.unended _ (List.getLast_mem hn.ne_nil))

variable {stop stop' : Token} {ts us rest : List Token} {n : Node} {body : List Node}

/-- One statement of tokens that end in a semicolon, with more tokens behind these. -/
theorem nextStatement_append (hend : Ended ts)
    (h : (nextStatement : Reader _) stop ts = (.ok (some n), rest)) :
    (nextStatement : Reader _) stop' (ts ++ us) = (.ok (some n), rest ++ us) := by
  by_cases hrest : rest = []
  · subst hrest
    obtain ⟨used, rfl, hn⟩ := nextStatement_sound.some h
    rw [List.append_nil] at hend h ⊢
    have hne : used ≠ [] := by
      rintro rfl
      cases h
    exact nextStatement_of_closed (hn.closed hend) hne
  · have hread : Extends stop stop' us ts.length nextStatement nextStatement :=
      extends_inStep.nextStatement
    exact hread.read (Nat.le_refl _) h hrest

/-- Statements one after the other: those of tokens that end in a semicolon, and then the others. -/
theorem statements_append : ∀ {ts : List Token} {body : List Node}, Ended ts →
    (many nextStatement : Reader _) stop ts = (.ok body, rest) →
      (many nextStatement : Reader _) stop' (ts ++ us)
        = (many nextStatement >>= fun more => pure (body ++ more) : Reader _) stop' us := by
  intro ts body hend h
  rcases many_eq_ok nextStatement_progress h with ⟨rfl, hitem⟩ | ⟨n, more, mid, rfl, hitem, hmore⟩
  · obtain rfl := nextStatement_none hitem
    obtain rfl := nextStatement_sound.none hitem
    simp only [List.nil_append, bind]
    cases (many nextStatement : Reader _) stop' us with
    | mk r left => cases r <;> rfl
  · have hshort := nextStatement_progress.shorter hitem
    have hmid : mid <:+ ts := by
      obtain ⟨used, rfl, -⟩ := nextStatement_sound.some hitem
      exact List.suffix_append used mid
    rw [many_step nextStatement_progress (nextStatement_append hend hitem)]
    simp only [bind, statements_append (hend.of_suffix hmid) hmore]
    cases (many nextStatement : Reader _) stop' us with
    | mk r left => cases r <;> rfl
  termination_by ts => ts.length

def programOf (start : Token) (body : List Node) : Node := .program (programSpan start body) body

theorem program_result (stop : Token) (ts : List Token) :
    ((program : Reader _) stop ts).1
      = ((many nextStatement : Reader _) stop ts).1.map (programOf (ts.headD stop)) := by
  have hcurrent : (current : Reader _) stop ts = (.ok (ts.headD stop), ts) := rfl
  unfold program
  rw [bind_ok hcurrent]
  simp only [bind]
  cases (many nextStatement : Reader _) stop ts with
  | mk r left => cases r <;> rfl

end Grammar

namespace Node

open Grammar Reader TokenReader

variable {ts us : List Token} {stop : Token}

theorem ofTokens_untagged (h : ∀ t ∈ ts, t.kind ≠ .openTag) (hs : stop.kind ≠ .openTag)
    (hm : stop.isAbortMark = false) : ofTokens (ts ++ [stop])
      = (((many nextStatement : Reader _) stop ts).1.map (programOf (ts.headD stop))).mapError
        .fault := by
  have hany : (ts ++ [stop]).any (·.kind = .openTag) = false := by
    simpa [hs] using h
  have hstop : programStop? (ts ++ [stop]) = some stop := by
    rw [programStop?, if_neg (by simp [hany]), List.getLast?_concat]
  have hprogram : programTokens (ts ++ [stop]) = ts := by
    rw [programTokens, if_neg (by simp [hany]), List.dropLast_concat]
  rw [ofTokens_of_stop List.getLast?_concat hm hstop, hprogram, ofProgram, program_result]

/-- Reading goes by statements: behind tokens that are read and end in a semicolon, other tokens give
the statements or the fault that they give alone. -/
theorem statements_compose (huntagged : ∀ t ∈ ts ++ us, t.kind ≠ .openTag)
    (hs : stop.kind ≠ .openTag) (hm : stop.isAbortMark = false)
    (hend : ∀ t ∈ ts.getLast?, t.kind = .semicolon) {s : Option Span} {body : List Node}
    (h : ofTokens (ts ++ [stop]) = .ok (.program s body)) :
    (∀ s' body', ofTokens (us ++ [stop]) = .ok (.program s' body') →
      ∃ s'', ofTokens (ts ++ us ++ [stop]) = .ok (.program s'' (body ++ body'))) ∧
    ∀ f, ofTokens (us ++ [stop]) = .error f → ofTokens (ts ++ us ++ [stop]) = .error f := by
  obtain ⟨hts, hus⟩ := List.forall_mem_append.1 huntagged
  rw [ofTokens_untagged hts hs hm] at h
  rw [ofTokens_untagged hus hs hm, ofTokens_untagged huntagged hs hm]
  cases hfirst : (many nextStatement : Reader _) stop ts with
  | mk r left =>
    rw [hfirst] at h
    cases r with
    | error d => cases h
    | ok b =>
      cases h
      rw [statements_append hend hfirst]
      simp only [bind]
      cases (many nextStatement : Reader _) stop us with
      | mk r' left' =>
        cases r' with
        | error d =>
          refine ⟨fun s' body' h' => (nomatch h'), fun f hf => hf⟩
        | ok b' =>
          refine ⟨fun s' body' h' => ?_, fun f hf => (nomatch hf)⟩
          cases h'
          exact ⟨_, rfl⟩

/-- The tokens of `{a} (b);`, an object literal ahead of a grouped name, which is no call. -/
def literalAndGroup : List Token :=
  [(.openBrace, "\x7b"), (.identifier, "a"), (.closeBrace, "\x7d"), (.openParen, "("),
    (.identifier, "b"), (.closeParen, ")"), (.semicolon, ";")].map fun f =>
      ⟨f.1, f.2, .point (.first none)⟩

/-- The tokens of `c =`. -/
def assignmentCutShort : List Token :=
  [(.identifier, "c"), (.assign, "=")].map fun f => ⟨f.1, f.2, .point (.first none)⟩

/-- Two statements of which the first has no semicolon, ahead of themselves and of a fault. -/
theorem literal_and_group_compose :
    (∃ s body, ofTokens (literalAndGroup ++ [.endAt (.first none)]) = .ok (.program s body) ∧
      body.length = 2 ∧
      ∃ s', ofTokens (literalAndGroup ++ literalAndGroup ++ [.endAt (.first none)])
        = .ok (.program s' (body ++ body))) ∧
    ∃ f, ofTokens (assignmentCutShort ++ [.endAt (.first none)]) = .error f ∧
      ofTokens (literalAndGroup ++ assignmentCutShort ++ [.endAt (.first none)]) = .error f := by
  have hread : ∃ s body, ofTokens (literalAndGroup ++ [.endAt (.first none)])
      = .ok (.program s body) ∧ body.length = 2 := ⟨_, _, rfl, rfl⟩
  have hfault : ∃ f, ofTokens (assignmentCutShort ++ [.endAt (.first none)]) = .error f := ⟨_, rfl⟩
  obtain ⟨s, body, hread, hlength⟩ := hread
  obtain ⟨f, hfault⟩ := hfault
  have htwice : ∀ t ∈ literalAndGroup ++ literalAndGroup, t.kind ≠ .openTag := by decide
  have hshort : ∀ t ∈ literalAndGroup ++ assignmentCutShort, t.kind ≠ .openTag := by decide
  have hgiven := statements_compose htwice (by decide) (by decide) (by decide) hread
  have hfails := statements_compose hshort (by decide) (by decide) (by decide) hread
  exact ⟨⟨s, body, hread, hlength, hgiven.1 s body hread⟩, f, hfault, hfails.2 f hfault⟩

end Node

end TemplateScript
