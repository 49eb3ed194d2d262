import TemplateScript.Node.Cursor
import TemplateScript.Proofs.ReadersInStep

/-!
# Readings of cursors

What a cursor reads is what a list reader makes of the tokens between the cursor and the one that ends
the program, and it moves past the tokens that the list reader takes. As that is so of every operation
it is so of the grammar, and therefore no reading comes to a bound or looks beside the tokens.
-/

namespace TemplateScript

open TokenReader

namespace Cursor

/-- A cursor at a token of its list, the one that ends the program or one ahead of it. -/
structure InRange (c : Cursor) : Prop where
  pos_le : c.pos ≤ c.stop
  stop_lt : c.stop < c.tokens.length

def rest (c : Cursor) : List Token := (c.tokens.take c.stop).drop c.pos

structure Onward (c c' : Cursor) : Prop where
  tokens : c'.tokens = c.tokens
  stop : c'.stop = c.stop
  pos_le : c.pos ≤ c'.pos
  le_stop : c'.pos ≤ c.stop

variable {c c' c'' d : Cursor} {stop : Token} {ts : List Token}

theorem InRange.onward_refl (h : c.InRange) : c.Onward c := ⟨rfl, rfl, Nat.le_refl _, h.pos_le⟩

theorem Onward.trans (h : c.Onward c') (h' : c'.Onward c'') : c.Onward c'' where
  tokens := h'.tokens.trans h.tokens
  stop := h'.stop.trans h.stop
  pos_le := Nat.le_trans h.pos_le h'.pos_le
  le_stop := h.stop ▸ h'.le_stop

theorem Onward.inRange (h : c.Onward c') (hc : c.InRange) : c'.InRange where
  pos_le := by rw [h.stop]; exact h.le_stop
  stop_lt := by rw [h.stop, h.tokens]; exact hc.stop_lt

theorem Onward.stopToken (h : c.Onward c') : c'.tokens[c'.stop]? = c.tokens[c.stop]? := by
  rw [h.stop, h.tokens]

theorem InRange.length_rest (h : c.InRange) : c.rest.length = c.stop - c.pos := by
  rw [rest, List.length_drop, List.length_take, Nat.min_eq_left (Nat.le_of_lt h.stop_lt)]

/-- A cursor is at the end of the program, or at a token ahead of the others. -/
theorem InRange.rest_cases (h : c.InRange) : c.pos = c.stop ∧ c.rest = [] ∨
    c.pos < c.stop ∧ ∃ t, c.tokens[c.pos]? = some t ∧
      c.rest = t :: ({ c with pos := c.pos + 1 } : Cursor).rest := by
  rcases Nat.eq_or_lt_of_le h.pos_le with heq | hlt
  · left
    refine ⟨heq, List.eq_nil_of_length_eq_zero ?_⟩
    rw [h.length_rest, heq, Nat.sub_self]
  · right
    have hpos : c.pos < (c.tokens.take c.stop).length := by
      rw [List.length_take, Nat.min_eq_left (Nat.le_of_lt h.stop_lt)]
      exact hlt
    refine ⟨hlt, (c.tokens.take c.stop)[c.pos], ?_, List.drop_eq_getElem_cons hpos⟩
    rw [List.getElem_take, ← List.getElem?_eq_getElem]

theorem onward_succ (hlt : c.pos < c.stop) :
    c.Onward { c with pos := c.pos + 1 } := ⟨rfl, rfl, Nat.le_succ _, hlt⟩

end Cursor

namespace Parser

variable {α β : Type} {c c' : Cursor} {stop t : Token} {n l : Nat}

theorem bind_ok {p : Parser α} {a : α} (h : p c = (.ok a, c')) (k : α → Parser β) :
    (p >>= k) c = k a c' := by
  simp only [bind, h]

theorem bind_error {p : Parser α} {e : ParseFailure} (h : p c = (.error e, c')) (k : α → Parser β) :
    (p >>= k) c = (.error e, c') := by
  simp only [bind, h]

/-! ## Looking tokens up -/

theorem tokenAt_of_some {i : Nat} (h : c.tokens[i]? = some t) : tokenAt i c = (.ok t, c) := by
  simp only [tokenAt, h]

theorem current_at_end (h : c.pos = c.stop) (hs : c.tokens[c.stop]? = some stop) :
    Parser.current c = (.ok stop, c) := by
  unfold Parser.current
  rw [if_pos (Nat.le_of_eq h.symm), tokenAt_of_some hs]

theorem current_ahead (h : c.pos < c.stop) (ht : c.tokens[c.pos]? = some t) :
    Parser.current c = (.ok t, c) := by
  unfold Parser.current
  rw [if_neg (Nat.not_le_of_lt h), tokenAt_of_some ht]

theorem peek_at_end (h : c.pos = c.stop) (hs : c.tokens[c.stop]? = some stop) :
    (peek : Parser (Option Token.Kind)) c = (.ok none, c) := by
  have hend : atEnd c = (.ok true, c) := by simp [atEnd, h]
  simp only [peek]
  rw [bind_ok (current_at_end h hs), bind_ok hend]
  rfl

theorem peek_ahead (h : c.pos < c.stop) (ht : c.tokens[c.pos]? = some t) :
    (peek : Parser (Option Token.Kind)) c = (.ok (some t.kind), c) := by
  have hend : atEnd c = (.ok false, c) := by simp [atEnd, h]
  simp only [peek]
  rw [bind_ok (current_ahead h ht), bind_ok hend]
  rfl

theorem takeIf_at_end (test : Token → Bool) (h : c.pos = c.stop)
    (hs : c.tokens[c.stop]? = some stop) :
    (takeIf test : Parser (Option Token)) c = (.ok none, c) := by
  have hend : atEnd c = (.ok true, c) := by simp [atEnd, h]
  simp only [takeIf]
  rw [bind_ok (current_at_end h hs), bind_ok hend]
  rfl

theorem takeIf_ahead (test : Token → Bool) (h : c.pos < c.stop)
    (ht : c.tokens[c.pos]? = some t) : (takeIf test : Parser (Option Token)) c
      = if test t then (.ok (some t), { c with pos := c.pos + 1 }) else (.ok none, c) := by
  have hend : atEnd c = (.ok false, c) := by simp [atEnd, h]
  simp only [takeIf]
  rw [bind_ok (current_ahead h ht), bind_ok hend]
  cases test t <;> rfl

theorem acceptSpan_at_end (k : Token.Kind) (h : c.pos = c.stop)
    (hs : c.tokens[c.stop]? = some stop) :
    (acceptSpan k : Parser (Option Span)) c = (.ok none, c) := by
  have htake : (accept k : Parser (Option Token)) c = (.ok none, c) := takeIf_at_end _ h hs
  unfold acceptSpan
  rw [bind_ok htake]
  rfl

/-- The token behind the cursor is the one that was taken. -/
theorem acceptSpan_ahead (k : Token.Kind) (h : c.pos < c.stop) (ht : c.tokens[c.pos]? = some t) :
    (acceptSpan k : Parser (Option Span)) c
      = if t.kind = k then (.ok (some t.span), { c with pos := c.pos + 1 }) else (.ok none, c) := by
  have htake : (accept k : Parser (Option Token)) c
      = if t.kind = k then (.ok (some t), { c with pos := c.pos + 1 }) else (.ok none, c) := by
    rw [accept, takeIf_ahead _ h ht]
    simp only [decide_eq_true_eq]
  unfold acceptSpan
  by_cases hk : t.kind = k
  · have hback : (lookBack t : Parser Token) { c with pos := c.pos + 1 }
        = (.ok t, { c with pos := c.pos + 1 }) := tokenAt_of_some ht
    rw [if_pos hk] at htake ⊢
    rw [bind_ok htake]
    dsimp only
    rw [bind_ok hback]
    rfl
  · rw [if_neg hk] at htake ⊢
    rw [bind_ok htake]
    rfl

/-! ## Following a list reader -/

/-- Where so many tokens are left, a cursor reads what a list reader makes of them and moves past
those that the list reader takes. -/
structure Follows (n : Nat) (p : Parser α) (q : Reader α) : Prop where
  reading : ∀ {c : Cursor} {stop : Token}, c.InRange → c.tokens[c.stop]? = some stop →
    c.rest.length ≤ n → ∃ c', p c = ((q stop c.rest).1.mapError .fault, c') ∧ c.Onward c' ∧
      c'.rest = (q stop c.rest).2

theorem Follows.mono {p : Parser α} {q : Reader α} (h : Follows n p q) (hl : l ≤ n) :
    Follows l p q :=
  ⟨fun hc hs hlen => h.reading hc hs (Nat.le_trans hlen hl)⟩

/-- A cursor that stays where it is. -/
theorem follows_of_eq {p : Parser α} {q : Reader α}
    (h : ∀ {c : Cursor} {stop : Token}, c.InRange → c.tokens[c.stop]? = some stop →
      p c = ((q stop c.rest).1.mapError .fault, c) ∧ (q stop c.rest).2 = c.rest) :
    Follows n p q :=
  ⟨fun hc hs _ => ⟨_, (h hc hs).1, hc.onward_refl, (h hc hs).2.symm⟩⟩

theorem follows_pure (a : α) : Follows n (pure a) (pure a) :=
  follows_of_eq fun _ _ => ⟨rfl, rfl⟩

theorem follows_bind_of_ok {p : Parser α} {q : Reader α} {k : α → Parser β} {k' : α → Reader β}
    (hp : Follows n p q)
    (hk : ∀ {stop ts a mid}, ts.length ≤ n → q stop ts = (.ok a, mid) → mid.length ≤ ts.length →
      Follows mid.length (k a) (k' a)) : Follows n (p >>= k) (q >>= k') := by
  refine ⟨fun {c stop} hc hs hlen => ?_⟩
  obtain ⟨c₁, hread, honward, hrest⟩ := hp.reading hc hs hlen
  have hc₁ := honward.inRange hc
  have hs₁ := honward.stopToken.trans hs
  cases hq : q stop c.rest with
  | mk r mid =>
    rw [hq] at hread hrest
    subst hrest
    cases r with
    | error d =>
      rw [bind_error hread, Reader.bind_error hq]
      exact ⟨c₁, rfl, honward, rfl⟩
    | ok a =>
      have hshort : c₁.rest.length ≤ c.rest.length := by
        rw [hc₁.length_rest, hc.length_rest, honward.stop]
        exact Nat.sub_le_sub_left honward.pos_le _
      rw [bind_ok hread, Reader.bind_ok hq]
      obtain ⟨c₂, hread₂, honward₂, hrest₂⟩ :=
        (hk hlen hq hshort).reading hc₁ hs₁ (Nat.le_refl _)
      exact ⟨c₂, hread₂, honward.trans honward₂, hrest₂⟩

theorem follows_bind {p : Parser α} {q : Reader α} {k : α → Parser β} {k' : α → Reader β}
    (hp : Follows n p q) (hk : ∀ a, Follows n (k a) (k' a)) : Follows n (p >>= k) (q >>= k') :=
  follows_bind_of_ok hp fun {_ _ a _} hlen _ hshort => (hk a).mono (Nat.le_trans hshort hlen)

theorem follows_optional {p : Parser (Option α)} {q : Reader (Option α)} {k : Option α → Parser β}
    {k' : Option α → Reader β} (hprogress : Reader.Progress q) (hp : Follows n p q)
    (hsome : ∀ a, ∀ l < n, Follows l (k (some a)) (k' (some a)))
    (hnone : Follows n (k none) (k' none)) : Follows n (p >>= k) (q >>= k') := by
  refine follows_bind_of_ok hp fun {stop ts o mid} hlen hq hshort => ?_
  cases o with
  | none => exact hnone.mono (Nat.le_trans hshort hlen)
  | some a => exact hsome a _ (Nat.lt_of_lt_of_le (hprogress.shorter hq) hlen)

theorem follows_peek : Follows n peek peek := by
  refine follows_of_eq fun {c stop} hc hs => ⟨?_, rfl⟩
  rcases hc.rest_cases with ⟨hend, hrest⟩ | ⟨hlt, t, ht, hrest⟩
  · rw [peek_at_end hend hs, hrest]
    rfl
  · rw [peek_ahead hlt ht, hrest]
    rfl

theorem follows_current : Follows n TokenReader.current TokenReader.current := by
  refine follows_of_eq fun {c stop} hc hs => ⟨?_, rfl⟩
  rcases hc.rest_cases with ⟨hend, hrest⟩ | ⟨hlt, t, ht, hrest⟩
  · rw [hrest]
    exact current_at_end hend hs
  · rw [hrest]
    exact current_ahead hlt ht

theorem follows_takeIf (test : Token → Bool) : Follows n (takeIf test) (takeIf test) := by
  refine ⟨fun {c stop} hc hs _ => ?_⟩
  rcases hc.rest_cases with ⟨hend, hrest⟩ | ⟨hlt, t, ht, hrest⟩
  · rw [takeIf_at_end test hend hs, hrest]
    exact ⟨c, rfl, hc.onward_refl, hrest⟩
  · rw [takeIf_ahead test hlt ht, hrest, Reader.takeIf_cons]
    split
    · exact ⟨_, rfl, Cursor.onward_succ hlt, rfl⟩
    · exact ⟨c, rfl, hc.onward_refl, hrest⟩

theorem follows_acceptSpan (k : Token.Kind) : Follows n (acceptSpan k) (acceptSpan k) := by
  refine ⟨fun {c stop} hc hs _ => ?_⟩
  rcases hc.rest_cases with ⟨hend, hrest⟩ | ⟨hlt, t, ht, hrest⟩
  · rw [acceptSpan_at_end k hend hs, hrest, Reader.acceptSpan_of_head (by simp)]
    exact ⟨c, rfl, hc.onward_refl, hrest⟩
  · rw [acceptSpan_ahead k hlt ht, hrest]
    by_cases hk : t.kind = k
    · rw [if_pos hk, Reader.acceptSpan_of_kind hk]
      exact ⟨_, rfl, Cursor.onward_succ hlt, rfl⟩
    · rw [if_neg hk, Reader.acceptSpan_of_head (by simpa using hk)]
      exact ⟨c, rfl, hc.onward_refl, hrest⟩

/-- Cursors read any grammar as list readers do. -/
theorem follows_inStep : InStep Parser fun _ n p q => Follows n p q where
  mono := Follows.mono
  pure := follows_pure
  bind := follows_bind
  optional := follows_optional
  takeIf := follows_takeIf
  acceptSpan := follows_acceptSpan
  peek := follows_peek
  current := follows_current
  fail _ _ := follows_of_eq fun _ _ => ⟨rfl, rfl⟩
  left hk := by
    refine ⟨fun {c stop} hc hs hlen => ?_⟩
    have hsame := (hk c.rest.length c.rest.length hlen (Nat.le_refl _)).reading hc hs (Nat.le_refl _)
    have hleft : (left : Parser Nat) c = (.ok c.rest.length, c) := by
      rw [hc.length_rest]
      rfl
    rw [bind_ok hleft]
    exact hsame

end Parser

/-! ## Whole token lists -/

namespace Cursor

variable {c c' : Cursor} {stop : Token} {ts : List Token}

theorem InRange.exists_stop (h : c.InRange) : ∃ stop, c.tokens[c.stop]? = some stop :=
  ⟨_, List.getElem?_eq_getElem h.stop_lt⟩

/-- What a cursor reads where a program begins. -/
theorem InRange.program_read (h : c.InRange) (hs : c.tokens[c.stop]? = some stop) :
    ∃ c', (Grammar.program : Parser Node) c
        = (((Grammar.program : Reader _) stop c.rest).1.mapError .fault, c') ∧
      c.Onward c' ∧ c'.rest = ((Grammar.program : Reader _) stop c.rest).2 := by
  have hprogram : Parser.Follows c.rest.length (Grammar.program : Parser Node) Grammar.program :=
    Parser.follows_inStep.program
  exact hprogram.reading h hs (Nat.le_refl _)

theorem region?_bounds {ts : List Token} {pos stop : Nat}
    (h : region? ts = some (pos, some stop)) : pos ≤ stop ∧ stop < ts.length := by
  obtain ⟨i, -, hi⟩ := Option.map_eq_some_iff.1 h
  obtain ⟨rfl, hj⟩ := Prod.mk.inj hi
  obtain ⟨j, hfind, rfl⟩ := Option.map_eq_some_iff.1 hj
  have hlt := (List.findIdx?_eq_some_iff_getElem.1 hfind).1
  rw [List.length_drop] at hlt
  omega

theorem inRange_ofTokens (hts : ts ≠ []) : (ofTokens ts).InRange where
  pos_le := Nat.zero_le _
  stop_lt := Nat.sub_lt (List.length_pos_iff.2 hts) Nat.one_pos

theorem enter_tokens (h : c.enter = .ok c') : c'.tokens = c.tokens := by
  unfold enter at h
  split at h
  · cases h
  · split at h
    · cases h
    · split at h
      · cases h
        rfl
      · cases h
      · cases h
        rfl

theorem InRange.enter (hc : c.InRange) (h : c.enter = .ok c') : c'.InRange := by
  unfold Cursor.enter at h
  split at h
  · cases h
  split at h
  · cases h
  split at h
  · cases h
    exact hc
  · cases h
  · rename_i hregion
    cases h
    obtain ⟨hle, hlt⟩ := region?_bounds hregion
    exact ⟨hle, hlt⟩

/-- A reading that enters the program gives what a list reader makes of it, and leaves what the list
reader leaves. -/
theorem InRange.read_entered (hc : c.InRange) (he : c.enter = .ok c')
    (hs : c'.tokens[c'.stop]? = some stop) :
    c.read.1 = ((Grammar.program : Reader _) stop c'.rest).1.mapError .fault ∧
      c'.Onward c.read.2 ∧ c.read.2.rest = ((Grammar.program : Reader _) stop c'.rest).2 := by
  obtain ⟨c₂, hread, honward, hrest⟩ := (hc.enter he).program_read hs
  have hwhole : c.read = (Grammar.program : Parser Node) c' := by
    unfold Cursor.read
    rw [he]
  rw [hwhole, hread]
  exact ⟨rfl, honward, hrest⟩

/-- A reading that gives a program has read all of its tokens. -/
theorem InRange.read_ok {n : Node} (hc : c.InRange) (h : c.read.1 = .ok n) :
    ∃ c' stop, c.enter = .ok c' ∧ c'.tokens[c'.stop]? = some stop ∧
      (Grammar.program : Reader _) stop c'.rest = (.ok n, []) := by
  cases he : c.enter with
  | error e =>
    unfold Cursor.read at h
    rw [he] at h
    cases h
  | ok c' =>
    obtain ⟨stop, hs⟩ := (hc.enter he).exists_stop
    rw [(hc.read_entered he hs).1] at h
    refine ⟨c', stop, rfl, hs, ?_⟩
    cases hr : (Grammar.program : Reader _) stop c'.rest with
    | mk r rest =>
      rw [hr] at h
      cases r with
      | error d => cases h
      | ok m =>
        cases h
        rw [(Grammar.program_sound hr).1]

theorem InRange.enter_error {e : ParseFailure} (hc : c.InRange) (h : c.enter = .error e) :
    ∃ d, e = .fault d := by
  unfold Cursor.enter at h
  split at h
  · rename_i hlast
    have hlt := hc.stop_lt
    rw [List.getLast?_eq_none_iff.1 hlast] at hlt
    cases hlt
  split at h
  · cases h
    exact ⟨_, rfl⟩
  split at h
  · cases h
  · cases h
    exact ⟨_, rfl⟩
  · cases h

/-- A reading comes to no bound, and it looks no token up where there is none. -/
theorem InRange.read_error {e : ParseFailure} (hc : c.InRange) (h : c.read.1 = .error e) :
    ∃ d, e = .fault d := by
  cases he : c.enter with
  | error f =>
    obtain ⟨d, rfl⟩ := hc.enter_error he
    unfold Cursor.read at h
    rw [he] at h
    cases h
    exact ⟨d, rfl⟩
  | ok c' =>
    obtain ⟨stop, hs⟩ := (hc.enter he).exists_stop
    rw [(hc.read_entered he hs).1] at h
    cases hr : ((Grammar.program : Reader _) stop c'.rest).1 with
    | ok n =>
      rw [hr] at h
      cases h
    | error d =>
      rw [hr] at h
      cases h
      exact ⟨d, rfl⟩

end Cursor

namespace Node

variable {ts : List Token}

theorem ofTokens_ok {n : Node} (h : ofTokens ts = .ok n) :
    ∃ c stop, (Cursor.ofTokens ts).enter = .ok c ∧ c.tokens[c.stop]? = some stop ∧
      (Grammar.program : Reader _) stop c.rest = (.ok n, []) := by
  have hts : ts ≠ [] := by
    rintro rfl
    cases h
  exact (Cursor.inRange_ofTokens hts).read_ok h

theorem ofTokens_error {e : ParseFailure} (hts : ts ≠ []) (h : ofTokens ts = .error e) :
    ∃ d, e = .fault d := (Cursor.inRange_ofTokens hts).read_error h

end Node

end TemplateScript
