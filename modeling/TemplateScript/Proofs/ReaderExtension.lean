import TemplateScript.Proofs.ReadersInStep

/-!
# Readers with more tokens behind

A reader looks at the token in front of it and at nothing further on. So what it gives of some tokens
it gives with more of them behind, unless it has come to their end.
-/

namespace TemplateScript

open TokenReader

namespace Reader

variable {α β : Type}

/-- What a reader gives of tokens up to a number, where it leaves some, another one gives with more
tokens behind. -/
structure Extends (stop stop' : Token) (q : List Token) (n : Nat) (p p' : Reader α) : Prop where
  left : ∀ {ts rest : List Token} {r : Except Diagnostic α}, ts.length ≤ n →
    p stop ts = (r, rest) → rest <:+ ts
  read : ∀ {ts rest : List Token} {r : Except Diagnostic α}, ts.length ≤ n →
    p stop ts = (r, rest) → rest ≠ [] → p' stop' (ts ++ q) = (r, rest ++ q)

variable {stop stop' : Token} {q : List Token} {m n : Nat}

theorem Extends.mono {p p' : Reader α} (h : Extends stop stop' q n p p') (hmn : m ≤ n) :
    Extends stop stop' q m p p' :=
  ⟨fun hlen => h.left (Nat.le_trans hlen hmn), fun hlen => h.read (Nat.le_trans hlen hmn)⟩

theorem extends_pure (a : α) : Extends stop stop' q n (pure a : Reader α) (pure a) where
  left _ h := by
    cases h
    exact List.suffix_refl _
  read _ h _ := by
    cases h
    rfl

/-- Readers that know where the first of some tokens goes, whatever is behind it. -/
theorem extends_of_cons {p : Reader α} (hleft : ∀ ts, (p stop ts).2 <:+ ts)
    (hcons : ∀ t ts, p stop' (t :: (ts ++ q)) = ((p stop (t :: ts)).1, (p stop (t :: ts)).2 ++ q)) :
    Extends stop stop' q n p p := by
  have hleft : ∀ {ts rest r}, p stop ts = (r, rest) → rest <:+ ts := by
    intro ts rest r h
    have hsuffix := hleft ts
    rwa [h] at hsuffix
  refine ⟨fun _ => hleft, fun {ts rest r} _ h hrest => ?_⟩
  cases ts with
  | nil => exact absurd (List.suffix_nil.1 (hleft h)) hrest
  | cons t ts => rw [List.cons_append, hcons, h]

/-- Behind a first reader a second one, for as many tokens as the first one leaves. -/
theorem extends_bind_of_ok {p p' : Reader α} {k k' : α → Reader β}
    (hp : Extends stop stop' q n p p')
    (hk : ∀ {ts a mid}, ts.length ≤ n → p stop ts = (.ok a, mid) →
      Extends stop stop' q mid.length (k a) (k' a)) :
    Extends stop stop' q n (p >>= k) (p' >>= k') where
  left {ts rest r} hlen h := by
    cases hr : p stop ts with
    | mk o mid =>
      cases o with
      | error d =>
        rw [bind_error hr] at h
        cases h
        exact hp.left hlen hr
      | ok a =>
        rw [bind_ok hr] at h
        exact ((hk hlen hr).left (Nat.le_refl _) h).trans (hp.left hlen hr)
  read {ts rest r} hlen h hrest := by
    cases hr : p stop ts with
    | mk o mid =>
      cases o with
      | error d =>
        rw [bind_error hr] at h
        cases h
        exact bind_error (hp.read hlen hr hrest) _
      | ok a =>
        rw [bind_ok hr] at h
        have hmid : mid ≠ [] := by
          rintro rfl
          exact hrest (List.suffix_nil.1 ((hk hlen hr).left (Nat.le_refl _) h))
        rw [bind_ok (hp.read hlen hr hmid)]
        exact (hk hlen hr).read (Nat.le_refl _) h hrest

theorem extends_bind {p p' : Reader α} {k k' : α → Reader β} (hp : Extends stop stop' q n p p')
    (hk : ∀ a, Extends stop stop' q n (k a) (k' a)) :
    Extends stop stop' q n (p >>= k) (p' >>= k') :=
  extends_bind_of_ok hp fun {_ a _} hlen hr =>
    (hk a).mono (Nat.le_trans (hp.left hlen hr).length_le hlen)

/-- Behind something optional that takes a token where it is there. -/
theorem extends_optional {p p' : Reader (Option α)} {k k' : Option α → Reader β}
    (hprogress : Progress p) (hp : Extends stop stop' q n p p')
    (hsome : ∀ a, ∀ l < n, Extends stop stop' q l (k (some a)) (k' (some a)))
    (hnone : Extends stop stop' q n (k none) (k' none)) :
    Extends stop stop' q n (p >>= k) (p' >>= k') := by
  refine extends_bind_of_ok hp fun {ts o mid} hlen hr => ?_
  cases o with
  | none => exact hnone.mono (Nat.le_trans (hp.left hlen hr).length_le hlen)
  | some a => exact hsome a _ (Nat.lt_of_lt_of_le (hprogress.shorter hr) hlen)

theorem extends_takeIf (test : Token → Bool) :
    Extends stop stop' q n (takeIf test) (takeIf test) := by
  refine extends_of_cons (fun ts => ?_) fun t ts => ?_
  · cases ts with
    | nil => exact List.suffix_refl _
    | cons t ts =>
      rw [takeIf_cons]
      split
      · exact List.suffix_cons t ts
      · exact List.suffix_refl _
  · rw [takeIf_cons, takeIf_cons]
    split <;> rfl

theorem extends_acceptSpan (k : Token.Kind) :
    Extends stop stop' q n (acceptSpan k) (acceptSpan k) :=
  extends_bind (extends_takeIf _) fun o => by
    cases o with
    | none => exact extends_pure none
    | some t => exact extends_of_cons (fun ts => List.suffix_refl ts) fun _ _ => rfl

/-- Any readers of a grammar compare so, the one with more tokens behind being the further one. -/
theorem extends_inStep :
    InStep Reader fun _ n further reader => Extends stop stop' q n reader further where
  mono := Extends.mono
  pure := extends_pure
  bind := extends_bind
  optional := extends_optional
  takeIf := extends_takeIf
  acceptSpan := extends_acceptSpan
  peek := extends_of_cons (fun ts => List.suffix_refl ts) fun _ _ => rfl
  current := extends_of_cons (fun ts => List.suffix_refl ts) fun _ _ => rfl
  fail _ _ := extends_of_cons (fun ts => List.suffix_refl ts) fun _ _ => rfl
  left hk := {
    left := fun {ts _ _} hlen h => (hk ts.length _ hlen (Nat.le_refl _)).left (Nat.le_refl _) h
    read := fun {ts _ _} hlen h hrest =>
      (hk ts.length (ts ++ q).length hlen (by simp)).read (Nat.le_refl _) h hrest }

end Reader

end TemplateScript
