import TemplateScript.Node.Grammar

/-!
# Readers of token lists

A grammar can also be read off a list from which the tokens are taken away, the token behind it being
known for it is where a missing token is reported. Such a reader says which tokens it leaves, so what
it does can be told by the tokens alone.
-/

namespace TemplateScript

open TokenReader

def Reader (α : Type) := Token → List Token → Except Diagnostic α × List Token

namespace Reader

variable {α : Type} {stop t : Token} {ts rest : List Token}

instance : Monad Reader where
  pure a := fun _ ts => (.ok a, ts)
  bind p f := fun stop ts =>
    match p stop ts with
    | (.ok a, rest) => f a stop rest
    | (.error d, rest) => (.error d, rest)

theorem bind_ok {β : Type} {p : Reader α} {stop : Token} {ts rest : List Token} {a : α}
    (h : p stop ts = (.ok a, rest)) (f : α → Reader β) : (p >>= f) stop ts = f a stop rest := by
  simp only [bind, h]

theorem bind_error {β : Type} {p : Reader α} {stop : Token} {ts rest : List Token} {d : Diagnostic}
    (h : p stop ts = (.error d, rest)) (f : α → Reader β) :
    (p >>= f) stop ts = (.error d, rest) := by
  simp only [bind, h]

/-- No reading of a list comes to a bound, so what is given there is of no account: the fault of a
missing expression. -/
instance : TokenReader Reader where
  peek _ ts := (.ok (ts.head?.map (·.kind)), ts)
  current stop ts := (.ok (ts.headD stop), ts)
  takeIf p _ ts :=
    match ts with
    | [] => (.ok none, [])
    | t :: rest => if p t then (.ok (some t), rest) else (.ok none, t :: rest)
  lookBack t _ ts := (.ok t, ts)
  left _ ts := (.ok ts.length, ts)
  fail f s _ ts := (.error (f.diagnoseAt s), ts)
  exhausted stop ts :=
    match ts with
    | [] => (.error ((Fault.unexpectedEnd "expression").diagnoseAt stop.span), [])
    | t :: rest =>
      (.error ((Fault.unexpectedToken "expression" t.describe).diagnoseAt t.span), t :: rest)

theorem unexpected_cons (expected : String) : (unexpected expected : Reader α) stop (t :: ts)
    = (.error ((Fault.unexpectedToken expected t.describe).diagnoseAt t.span), t :: ts) := rfl

theorem exhausted_eq : (exhausted : Reader α) = unexpected "expression" := by
  funext stop ts
  cases ts <;> rfl

theorem takeIf_cons (p : Token → Bool) : (takeIf p : Reader _) stop (t :: ts)
    = if p t then (.ok (some t), ts) else (.ok none, t :: ts) := rfl

theorem many_apply (item : Reader (Option α)) :
    many item stop ts = manyWithin item (ts.length + 1) stop ts := rfl

end Reader

namespace Grammar

variable {inner : Reader Node} {stop t : Token} {ts : List Token}

theorem primary_cons : primary inner stop (t :: ts) =
    match t.kind with
    | .identifier => (.ok (.identifier t.span t.text), ts)
    | .number => (number t : Reader _) stop ts
    | .openParen => grouped inner stop ts
    | _ => (unexpected "expression" : Reader _) stop (t :: ts) := by
  obtain ⟨k, text, span⟩ := t
  cases k <;> rfl

end Grammar

end TemplateScript
