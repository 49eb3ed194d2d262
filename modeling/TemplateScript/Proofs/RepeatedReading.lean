import TemplateScript.Proofs.ReadBack
import TemplateScript.Proofs.ReadingFaults

/-!
# One reading after another

Tokens may be read any number of times, whatever they are and wherever a reading that failed has left
the cursor. Each reading ends short of the bounds on loops and on the nesting and looks up no token
that is not there; it gives a program or reports a fault, and it leaves the cursor among the tokens.
Between tags it starts over each time.
-/

namespace TemplateScript

namespace Cursor

def afterReads (c : Cursor) : Nat → Cursor
  | 0 => c
  | k + 1 => (c.afterReads k).read.2

variable {c c' : Cursor} {ts : List Token}

/-! ## Where a reading leaves the cursor -/

theorem read_of_enter_error {e : ParseFailure} (h : c.enter = .error e) : c.read = (.error e, c) := by
  unfold read
  rw [h]

/-- A reading moves the cursor on from where the program begins, or leaves it where it is. -/
theorem InRange.read_moves (hc : c.InRange) :
    (∃ c', c.enter = .ok c' ∧ c'.Onward c.read.2) ∨ c.read.2 = c := by
  cases he : c.enter with
  | error e => exact Or.inr (by rw [read_of_enter_error he])
  | ok c' =>
    obtain ⟨stop, hs⟩ := (hc.enter he).exists_stop
    exact Or.inl ⟨c', rfl, (hc.read_entered he hs).2.1⟩

theorem InRange.read (hc : c.InRange) : c.read.2.InRange := by
  rcases hc.read_moves with ⟨c', he, honward⟩ | heq
  · exact honward.inRange (hc.enter he)
  · rw [heq]
    exact hc

theorem InRange.read_tokens (hc : c.InRange) : c.read.2.tokens = c.tokens := by
  rcases hc.read_moves with ⟨c', he, honward⟩ | heq
  · exact honward.tokens.trans (enter_tokens he)
  · rw [heq]

theorem afterReads_inRange (hts : ts ≠ []) (k : Nat) :
    ((ofTokens ts).afterReads k).tokens = ts ∧ ((ofTokens ts).afterReads k).InRange := by
  induction k with
  | zero => exact ⟨rfl, inRange_ofTokens hts⟩
  | succ k ih => exact ⟨ih.2.read_tokens.trans ih.1, ih.2.read⟩

/-! ## Outcomes -/

theorem InRange.read_outcome (hc : c.InRange) :
    (∃ s body, c.read.1 = .ok (.program s body)) ∨ ∃ d, c.read.1 = .error (.fault d) ∧
      d.code ∈ ["E101", "E102", "E104", "E105", "E106", "E107"] := by
  cases hr : c.read.1 with
  | ok n =>
    obtain ⟨c', stop, -, -, hprogram⟩ := hc.read_ok hr
    obtain ⟨-, body, rfl, -⟩ := Grammar.program_sound hprogram
    exact Or.inl ⟨_, body, rfl⟩
  | error e =>
    obtain ⟨d, rfl⟩ := hc.read_error hr
    refine Or.inr ⟨d, rfl, ?_⟩
    obtain ⟨f, s, rfl, -, hf | rfl | ⟨rfl, -⟩⟩ := hc.read_fault hr
    · have hsub : ["E101", "E102", "E106", "E107"]
          ⊆ ["E101", "E102", "E104", "E105", "E106", "E107"] := by decide
      exact hsub (Fault.code_of_isReading hf).1
    · simp [Fault.diagnoseAt, Fault.code]
    · simp [Fault.diagnoseAt, Fault.code]

/-- A reading that gives a program comes to the end of it. -/
theorem InRange.read_to_end {n : Node} (hc : c.InRange) (h : c.read.1 = .ok n) :
    c.read.2.pos = c.read.2.stop := by
  obtain ⟨c', stop, he, hs, hprogram⟩ := hc.read_ok h
  have hrest : c.read.2.rest = [] := by
    rw [(hc.read_entered he hs).2.2, hprogram]
  have hlength := hc.read.length_rest
  have hle := hc.read.pos_le
  rw [hrest, List.length_nil] at hlength
  omega

/-! ## Readings in turn -/

theorem enter_untagged (h : ∀ t ∈ c.tokens, t.kind ≠ .openTag) (he : c.enter = .ok c') :
    c' = c := by
  unfold enter at he
  rw [region?_of_untagged h] at he
  split at he
  · cases he
  split at he
  · cases he
  · cases he
    rfl

theorem enter_tagged (h : c.tokens = c'.tokens) (ho : ∃ t ∈ c.tokens, t.kind = .openTag) :
    c.enter = c'.enter := by
  obtain ⟨t, ht, hk⟩ := ho
  have hregion : region? c.tokens ≠ none := by
    intro hnone
    have hall : ∀ u ∈ c.tokens, u.kind ≠ .openTag := by simpa [region?] using hnone
    exact hall t ht hk
  unfold enter
  rw [← h]
  cases hr : region? c.tokens with
  | none => exact absurd hr hregion
  | some r =>
    obtain ⟨pos, stop?⟩ := r
    cases stop? <;> rfl

theorem read_tagged (h : c.tokens = c'.tokens) (ho : ∃ t ∈ c.tokens, t.kind = .openTag) :
    c.read.1 = c'.read.1 := by
  unfold read
  rw [enter_tagged h ho]
  split
  · rfl
  · rfl

theorem InRange.read_onward (hc : c.InRange) (hu : ∀ t ∈ c.tokens, t.kind ≠ .openTag) :
    c.Onward c.read.2 := by
  rcases hc.read_moves with ⟨c', he, honward⟩ | heq
  · obtain rfl := enter_untagged hu he
    exact honward
  · rw [heq]
    exact hc.onward_refl

/-- A cursor among some tokens, and what is read there. Without tags a reading goes on where the one
ahead of it stopped, and never back. -/
structure Reads (ts : List Token) (c : Cursor) : Prop where
  tokens : c.tokens = ts
  before : c.InRange
  after : c.read.2.InRange
  ends : c.read.1 ≠ .error .exhausted
  among : c.read.1 ≠ .error .outOfRange
  outcome : (∃ s body, c.read.1 = .ok (.program s body)) ∨ ∃ d, c.read.1 = .error (.fault d) ∧
    d.code ∈ ["E101", "E102", "E104", "E105", "E106", "E107"]
  whole : ∀ n, c.read.1 = .ok n → c.read.2.pos = c.read.2.stop
  onward : (∀ t ∈ ts, t.kind ≠ .openTag) → c.Onward c.read.2
  again : (∃ t ∈ ts, t.kind = .openTag) → c.read.1 = Node.ofTokens ts

/-- Any tokens can be read, time after time: each time to an end, with a program or a fault of
reading, and never beside the tokens. -/
theorem any_tokens_read (hts : ts ≠ []) (k : Nat) : ((ofTokens ts).afterReads k).Reads ts := by
  obtain ⟨htokens, hrange⟩ := afterReads_inRange hts k
  have hfault {e : ParseFailure} (he : ∀ d, e ≠ .fault d) :
      ((ofTokens ts).afterReads k).read.1 ≠ .error e := by
    intro h
    obtain ⟨d, hd⟩ := hrange.read_error h
    exact he d hd
  exact {
    tokens := htokens
    before := hrange
    after := hrange.read
    ends := hfault fun _ h => nomatch h
    among := hfault fun _ h => nomatch h
    outcome := hrange.read_outcome
    whole := fun _ h => hrange.read_to_end h
    onward := fun hu => hrange.read_onward (by rwa [htokens])
    again := fun ho => read_tagged htokens (by rwa [htokens]) }

/-- The tokens of `x.1 y`, without a mark at their end. -/
def strayNumber : List Token :=
  [(.identifier, "x"), (.dot, "."), (.number, "1"), (.identifier, "y"), (.semicolon, ";")].map
    fun f => ⟨f.1, f.2, .point (.first none)⟩

/-- A fault in the middle of a statement, and what is read behind it. -/
theorem stray_number_read : (∀ k, ((ofTokens strayNumber).afterReads k).Reads strayNumber) ∧
    (∃ d, (ofTokens strayNumber).read.1 = .error (.fault d) ∧ d.code = "E101") ∧
      ∃ s n, ((ofTokens strayNumber).afterReads 1).read.1 = .ok (.program s [n]) := by
  have hreads : ∀ k, ((ofTokens strayNumber).afterReads k).Reads strayNumber :=
    any_tokens_read (by decide)
  have hfirst : (match (ofTokens strayNumber).read.1 with
      | .error (.fault d) => some d.code
      | _ => none) = some "E101" := by decide +kernel
  have hsecond : (match ((ofTokens strayNumber).afterReads 1).read.1 with
      | .ok (.program _ body) => body.length
      | _ => 0) = 1 := by decide +kernel
  refine ⟨hreads, ?_, ?_⟩
  · generalize (ofTokens strayNumber).read.1 = r at hfirst
    split at hfirst
    · exact ⟨_, rfl, Option.some.inj hfirst⟩
    · cases hfirst
  · generalize ((ofTokens strayNumber).afterReads 1).read.1 = r at hsecond
    split at hsecond
    · rename_i s body
      obtain ⟨n, rfl⟩ := List.length_eq_one_iff.1 hsecond
      exact ⟨s, n, rfl⟩
    · cases hsecond

end Cursor

end TemplateScript
