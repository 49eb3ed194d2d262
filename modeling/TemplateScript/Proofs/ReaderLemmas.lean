import TemplateScript.Proofs.ListReader

/-!
# Readers that succeed

What a reader that gave a result has taken, primitive by primitive: forwards, from the tokens to the
result, and backwards. A repeated item that takes a token each time is read to the end whatever the
bound on the number of items is, as long as there are fewer tokens.
-/

namespace TemplateScript.Reader

open TokenReader

variable {α β : Type} {stop : Token} {ts rest : List Token}

theorem bind_eq_ok {p : Reader α} {k : α → Reader β} {b : β}
    (h : (p >>= k) stop ts = (.ok b, rest)) :
    ∃ a mid, p stop ts = (.ok a, mid) ∧ k a stop mid = (.ok b, rest) := by
  cases hp : p stop ts with
  | mk r mid =>
    cases r with
    | ok a => rw [bind_ok hp] at h; exact ⟨a, mid, rfl, h⟩
    | error d => rw [bind_error hp] at h; cases h

theorem pure_eq_ok {a b : α} (h : (pure a : Reader α) stop ts = (.ok b, rest)) :
    a = b ∧ rest = ts := by
  cases h
  exact ⟨rfl, rfl⟩

/-! ## Single tokens -/

theorem takeIf_of_pos {p : Token → Bool} {t : Token} (h : p t = true) :
    (takeIf p : Reader _) stop (t :: ts) = (.ok (some t), ts) := by
  rw [takeIf_cons, if_pos h]

theorem takeIf_of_head {p : Token → Bool} (h : ∀ t ∈ ts.head?, p t = false) :
    (takeIf p : Reader _) stop ts = (.ok none, ts) := by
  cases ts with
  | nil => rfl
  | cons t ts => rw [takeIf_cons, if_neg (by simp [h t (by simp)])]

theorem takeIf_eq_some {p : Token → Bool} {t : Token}
    (h : (takeIf p : Reader _) stop ts = (.ok (some t), rest)) :
    ts = t :: rest ∧ p t = true := by
  cases ts with
  | nil => cases h
  | cons u ts =>
    rw [takeIf_cons] at h
    split at h
    · rename_i hp
      cases h
      exact ⟨rfl, hp⟩
    · cases h

theorem takeIf_eq_none {p : Token → Bool}
    (h : (takeIf p : Reader _) stop ts = (.ok none, rest)) :
    rest = ts ∧ ∀ t ∈ ts.head?, p t = false := by
  cases ts with
  | nil => cases h; simp
  | cons u ts =>
    rw [takeIf_cons] at h
    split at h
    · cases h
    · rename_i hp
      cases h
      exact ⟨rfl, by simpa using hp⟩

theorem accept_of_kind {k : Token.Kind} {t : Token} (h : t.kind = k) :
    (accept k : Reader _) stop (t :: ts) = (.ok (some t), ts) :=
  takeIf_of_pos (by simpa using h)

theorem accept_of_head {k : Token.Kind} (h : ∀ t ∈ ts.head?, t.kind ≠ k) :
    (accept k : Reader _) stop ts = (.ok none, ts) :=
  takeIf_of_head (by simpa using h)

theorem accept_eq_some {k : Token.Kind} {t : Token}
    (h : (accept k : Reader _) stop ts = (.ok (some t), rest)) :
    ts = t :: rest ∧ t.kind = k := by
  simpa using takeIf_eq_some h

theorem accept_eq_none {k : Token.Kind}
    (h : (accept k : Reader _) stop ts = (.ok none, rest)) :
    rest = ts ∧ ∀ t ∈ ts.head?, t.kind ≠ k := by
  simpa using takeIf_eq_none h

theorem unexpected_ne_ok (expected : String) (a : α) :
    (unexpected expected : Reader α) stop ts ≠ (.ok a, rest) := by
  intro h
  cases ts <;> cases h

theorem expect_of_kind {k : Token.Kind} {t : Token} (h : t.kind = k) (expected : String) :
    (expect k expected : Reader _) stop (t :: ts) = (.ok t, ts) := by
  unfold expect
  rw [bind_ok (accept_of_kind h)]
  rfl

theorem expect_eq_ok {k : Token.Kind} {expected : String} {t : Token}
    (h : (expect k expected : Reader _) stop ts = (.ok t, rest)) :
    ts = t :: rest ∧ t.kind = k := by
  obtain ⟨o, mid, ha, hk⟩ := bind_eq_ok h
  cases o with
  | none => exact absurd hk (unexpected_ne_ok _ _)
  | some u =>
    obtain ⟨rfl, rfl⟩ := pure_eq_ok hk
    exact accept_eq_some ha

theorem acceptSpan_of_kind {k : Token.Kind} {t : Token} (h : t.kind = k) :
    (acceptSpan k : Reader _) stop (t :: ts) = (.ok (some t.span), ts) := by
  unfold acceptSpan
  rw [bind_ok (accept_of_kind h)]
  rfl

theorem acceptSpan_of_head {k : Token.Kind} (h : ∀ t ∈ ts.head?, t.kind ≠ k) :
    (acceptSpan k : Reader _) stop ts = (.ok none, ts) := by
  unfold acceptSpan
  rw [bind_ok (accept_of_head h)]
  rfl

theorem acceptSpan_eq_some {k : Token.Kind} {s : Span}
    (h : (acceptSpan k : Reader _) stop ts = (.ok (some s), rest)) :
    ∃ t, ts = t :: rest ∧ t.kind = k ∧ t.span = s := by
  obtain ⟨o, mid, ha, hk⟩ := bind_eq_ok h
  cases o with
  | none => cases hk
  | some t =>
    obtain ⟨rfl, hkind⟩ := accept_eq_some ha
    cases hk
    exact ⟨t, rfl, hkind, rfl⟩

theorem acceptSpan_eq_none {k : Token.Kind}
    (h : (acceptSpan k : Reader _) stop ts = (.ok none, rest)) :
    rest = ts ∧ ∀ t ∈ ts.head?, t.kind ≠ k := by
  obtain ⟨o, mid, ha, hk⟩ := bind_eq_ok h
  cases o with
  | none =>
    cases hk
    exact accept_eq_none ha
  | some t => cases hk

theorem expectSpan_of_kind {k : Token.Kind} {t : Token} (h : t.kind = k) (expected : String) :
    (expectSpan k expected : Reader _) stop (t :: ts) = (.ok t.span, ts) := by
  unfold expectSpan
  rw [bind_ok (acceptSpan_of_kind h)]
  rfl

theorem expectSpan_eq_ok {k : Token.Kind} {expected : String} {s : Span}
    (h : (expectSpan k expected : Reader _) stop ts = (.ok s, rest)) :
    ∃ t, ts = t :: rest ∧ t.kind = k ∧ t.span = s := by
  obtain ⟨o, mid, ha, hk⟩ := bind_eq_ok h
  cases o with
  | none => exact absurd hk (unexpected_ne_ok _ _)
  | some u =>
    obtain ⟨rfl, rfl⟩ := pure_eq_ok hk
    exact acceptSpan_eq_some ha

/-! ## Repeated items -/

theorem exhausted_ne_ok (a : α) : (exhausted : Reader α) stop ts ≠ (.ok a, rest) := by
  rw [exhausted_eq]
  exact unexpected_ne_ok _ _

/-- What holds of no items, and with each item ahead of the others, holds of what is read. -/
theorem manyWithin_rec {item : Reader (Option α)} {M : List Token → List α → List Token → Prop}
    (hnone : ∀ ts rest, item stop ts = (.ok none, rest) → M ts [] rest)
    (hsome : ∀ ts a mid as rest, item stop ts = (.ok (some a), mid) → M mid as rest →
      M ts (a :: as) rest) :
    ∀ (bound : Nat) {ts rest : List Token} {as : List α},
      manyWithin item bound stop ts = (.ok as, rest) → M ts as rest
  | 0, ts, rest, as, h => absurd h (exhausted_ne_ok as)
  | bound + 1, ts, rest, as, h => by
    obtain ⟨o, mid, hi, hk⟩ := bind_eq_ok h
    cases o with
    | none =>
      obtain ⟨rfl, rfl⟩ := pure_eq_ok hk
      exact hnone _ _ hi
    | some a =>
      obtain ⟨bs, mid', hm, hk⟩ := bind_eq_ok hk
      obtain ⟨rfl, rfl⟩ := pure_eq_ok hk
      exact hsome _ _ _ _ _ hi (manyWithin_rec hnone hsome bound hm)

structure Progress (item : Reader (Option α)) : Prop where
  shorter : ∀ {stop ts a rest}, item stop ts = (.ok (some a), rest) → rest.length < ts.length

theorem manyWithin_eq {item : Reader (Option α)} (hp : Progress item) (b₁ : Nat) :
    ∀ (b₂ : Nat) (ts : List Token), ts.length < b₁ → ts.length < b₂ →
      manyWithin item b₁ stop ts = manyWithin item b₂ stop ts := by
  induction b₁ with
  | zero => intro b₂ ts h₁ _; omega
  | succ b₁ ih =>
    intro b₂ ts h₁ h₂
    cases b₂ with
    | zero => omega
    | succ b₂ =>
      simp only [manyWithin]
      cases hi : item stop ts with
      | mk r mid =>
        cases r with
        | error d => rw [bind_error hi, bind_error hi]
        | ok o =>
          rw [bind_ok hi, bind_ok hi]
          cases o with
          | none => rfl
          | some a =>
            have hm := hp.shorter hi
            have hr := ih b₂ mid (by omega) (by omega)
            simp only [bind, hr]

theorem many_of_none {item : Reader (Option α)} (h : item stop ts = (.ok none, rest)) :
    many item stop ts = (.ok [], rest) := by
  rw [many_apply, manyWithin, bind_ok h]
  rfl

theorem many_step {item : Reader (Option α)} (hp : Progress item) {a : α} {mid : List Token}
    (h : item stop ts = (.ok (some a), mid)) :
    many item stop ts = (many item >>= fun as => pure (a :: as)) stop mid := by
  have hl := hp.shorter h
  have hb : manyWithin item ts.length stop mid = many item stop mid :=
    manyWithin_eq hp _ _ mid hl (Nat.lt_succ_self _)
  rw [many_apply, manyWithin, bind_ok h]
  simp only [bind, hb]

theorem many_of_some {item : Reader (Option α)} (hp : Progress item) {a : α} {as : List α}
    {mid : List Token} (h : item stop ts = (.ok (some a), mid))
    (hm : many item stop mid = (.ok as, rest)) : many item stop ts = (.ok (a :: as), rest) := by
  rw [many_step hp h, bind_ok hm]
  rfl

theorem many_eq_ok {item : Reader (Option α)} (hp : Progress item) {as : List α}
    (h : many item stop ts = (.ok as, rest)) :
    as = [] ∧ item stop ts = (.ok none, rest) ∨ ∃ a bs mid, as = a :: bs ∧
      item stop ts = (.ok (some a), mid) ∧ many item stop mid = (.ok bs, rest) := by
  cases hi : item stop ts with
  | mk r mid =>
    rcases r with d | (_ | a)
    · rw [many_apply, manyWithin, bind_error hi] at h
      cases h
    · rw [many_of_none hi] at h
      cases h
      exact Or.inl ⟨rfl, rfl⟩
    · rw [many_step hp hi] at h
      obtain ⟨bs, mid', hm, hk⟩ := bind_eq_ok h
      obtain ⟨rfl, rfl⟩ := pure_eq_ok hk
      exact Or.inr ⟨a, bs, mid, rfl, rfl, hm⟩

end TemplateScript.Reader
