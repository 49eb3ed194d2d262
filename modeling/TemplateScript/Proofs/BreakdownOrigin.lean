import TemplateScript.Proofs.Failures
import TemplateScript.Proofs.Remainder
import TemplateScript.Proofs.TreeShape
import TemplateScript.Proofs.Visits

/-!
# Where evaluations of scripts break down

A script breaks down at one kind of place: a remainder that is visited with an infinite dividend.
Every other operation gives a value or a diagnostic.
-/

namespace TemplateScript

namespace Eval

theorem attempt_eq_breakdown {mode : Mode} {e : Eval Value} {st st' : EvalState} {b : Breakdown} :
    attempt mode e st = (.error (.breakdown b), st') ↔ e st = (.error (.breakdown b), st') := by
  cases mode with
  | strict => exact Iff.rfl
  | permissive =>
    rcases result_cases e st with ⟨v, st₁, h⟩ | ⟨d, st₁, h⟩ | ⟨b', st₁, h⟩
    · simp [attempt, h]
    · simp only [attempt, h]
      constructor <;> intro h' <;> cases h'
    · simp [attempt, h]

theorem operate_eq_breakdown {op : String} {v w : Value} {s : Option Span} {st st' : EvalState}
    {b : Breakdown} : operate op v w s st = (.error (.breakdown b), st') ↔
      b = .domain ∧ st' = st ∧ op = "%" ∧
        ∃ x y, v = .number x ∧ w = .number y ∧ x.InfiniteRemainder y := by
  constructor
  · intro h
    unfold operate at h
    split at h
    · rename_i x y
      cases hxy : Number.apply op x y with
      | ok r =>
        simp only [hxy] at h
        exact absurd h (failsWith_pure _).not_breakdown
      | error e =>
        simp only [hxy] at h
        cases e
        case domain =>
          obtain ⟨hop, hr⟩ := Number.apply_eq_domain.1 hxy
          cases h
          exact ⟨rfl, rfl, hop, x, y, rfl, rfl, hr⟩
        all_goals cases h
    · cases h
  · rintro ⟨rfl, rfl, rfl, x, y, rfl, rfl, hr⟩
    have hxy : Number.apply "%" x y = .error .domain := Number.apply_eq_domain.2 ⟨rfl, hr⟩
    simp only [operate, hxy]
    rfl

end Eval

namespace Node

open Eval

/-- Somewhere in the evaluation of a node the remainder of an infinite double is asked for. -/
def TakesInfiniteRemainder (mode : Mode) (scope : Nat) (n : Node) (st : EvalState) : Prop :=
  ∃ s left right st₁ st₂ st₃ x y, Visits mode scope n st (.binary s left "%" right) st₁ ∧
    left.eval mode scope st₁ = (.ok (.number x), st₂) ∧
    right.eval mode scope st₂ = (.ok (.number y), st₃) ∧ x.InfiniteRemainder y

section
variable {mode : Mode} {scope : Nat} {P : Int → Prop} {n m : Node} {st st' : EvalState}
variable {b : Breakdown}

theorem TakesInfiniteRemainder.of_part
    (h : ∀ {l : Node} {st₁ : EvalState}, Visits mode scope m st' l st₁ →
      Visits mode scope n st l st₁)
    (hm : m.TakesInfiniteRemainder mode scope st') : n.TakesInfiniteRemainder mode scope st := by
  obtain ⟨s, left, right, st₁, st₂, st₃, x, y, hv, hl, hr, hxy⟩ := hm
  exact ⟨s, left, right, st₁, st₂, st₃, x, y, h hv, hl, hr, hxy⟩

theorem TakesInfiniteRemainder.breaksDown (h : n.TakesInfiniteRemainder mode scope st) :
    (n.eval mode scope st).1 = .error (.breakdown .domain) := by
  obtain ⟨s, left, right, st₁, st₂, st₃, x, y, hv, hl, hr, hxy⟩ := h
  refine hv.breakdown ?_
  have hop : operate "%" (.number x) (.number y) s st₃ = (.error (.breakdown .domain), st₃) :=
    operate_eq_breakdown.2 ⟨rfl, rfl, rfl, x, y, rfl, rfl, hxy⟩
  rw [eval, bind_ok hl, bind_ok hr, hop]

-- The recursion is that of `eval`: a breakdown comes from the first part that breaks down, and where
-- all parts have values it is the operation's own.
mutual

theorem eval_breakdown : ∀ {n : Node} {st st' : EvalState}, IsExpression P n →
    n.eval mode scope st = (.error (.breakdown b), st') →
    b = .domain ∧ n.TakesInfiniteRemainder mode scope st
  | .literal _ n, st, st', _, h => by
    rw [eval] at h
    exact absurd h (failsWith_pure _).not_breakdown
  | .identifier s x, st, st', _, h => by
    rw [eval] at h
    exact absurd h (faults_lookup scope x s).not_breakdown
  | .object s ps, st, st', hn, h => by
    cases hn with
    | object _ hps =>
      rw [eval] at h
      rcases bind_eq_error h with htable | ⟨table, st₁, -, hpure⟩
      · obtain ⟨hb, before, s', key, value, after, table, st₁, rfl, hbefore, habsent, hvalue⟩ :=
          evalProperties_breakdown hps htable
        exact ⟨hb, hvalue.of_part (.entry hbefore habsent)⟩
      · exact absurd hpure (failsWith_pure _).not_breakdown
  | .assignment s target value, st, st', hn, h => by
    have hvalue : IsExpression P value := by
      cases hn with
      | assignment _ _ hvalue => exact hvalue
    cases target
    case identifier s' x =>
      simp only [eval] at h
      rcases bind_eq_error h with hv | ⟨v, st₁, -, hassign⟩
      · obtain ⟨hb, ht⟩ := eval_breakdown hvalue hv
        exact ⟨hb, ht.of_part .assigned⟩
      · exact absurd hassign (faults_assign scope x v s).not_breakdown
    all_goals
      simp only [eval] at h
      cases h
  | .binary s left op right, st, st', hn, h => by
    cases hn with
    | binary _ hleft _ hright =>
      rw [eval] at h
      rcases bind_eq_error h with hl | ⟨v, st₁, hv, h₁⟩
      · obtain ⟨hb, ht⟩ := eval_breakdown hleft hl
        exact ⟨hb, ht.of_part .left⟩
      rcases bind_eq_error h₁ with hr | ⟨w, st₂, hw, h₂⟩
      · obtain ⟨hb, ht⟩ := eval_breakdown hright hr
        exact ⟨hb, ht.of_part (.right hv)⟩
      · obtain ⟨hb, -, rfl, x, y, rfl, rfl, hxy⟩ := operate_eq_breakdown.1 h₂
        exact ⟨hb, s, left, right, st, st₁, st₂, x, y, .refl _ _, hv, hw, hxy⟩
  | .member s _ _ _, st, st', _, h | .call s _ _, st, st', _, h => by
    rw [eval] at h
    exact absurd h (failsWith_unhandled _ s).not_breakdown
  | .program .., _, _, hn, _ | .declaration .., _, _, hn, _ | .property .., _, _, hn, _
  | .bare .., _, _, hn, _ | .filler _, _, _, hn, _ => by cases hn

theorem evalProperties_breakdown : ∀ {ns : List Node} {table : Table Value} {st st' : EvalState},
    (∀ p ∈ ns, IsEntry P p) → evalProperties mode scope table ns st = (.error (.breakdown b), st') →
    b = .domain ∧ ∃ before s key value after table' st₁,
      ns = before ++ .property s key value :: after ∧
      evalProperties mode scope table before st = (.ok table', st₁) ∧
      value.isAbsent = false ∧ value.TakesInfiniteRemainder mode scope st₁
  | [], table, st, st', _, h => by
    rw [evalProperties] at h
    exact absurd h (failsWith_pure _).not_breakdown
  | .property s key value :: ns, table, st, st', hns, h => by
    rw [evalProperties_property] at h
    rcases bind_eq_error h with hv | ⟨v, st₁, hv, hrest⟩
    · rw [entryValue] at hv
      cases hns _ List.mem_cons_self with
      | shorthand =>
        rw [isAbsent_absent] at hv
        exact absurd hv (faults_lookup scope key s).not_breakdown
      | keyed _ _ hvalue =>
        rw [hvalue.isAbsent] at hv
        obtain ⟨hb, ht⟩ := eval_breakdown hvalue hv
        refine ⟨hb, [], s, key, value, ns, table, st, rfl, ?_, hvalue.isAbsent, ht⟩
        rw [evalProperties, pure_apply]
    · obtain ⟨hb, before, s', key', value', after, table', st₂, rfl, hbefore, ht⟩ :=
        evalProperties_breakdown (fun p hp => hns p (List.mem_cons_of_mem _ hp)) hrest
      refine ⟨hb, .property s key value :: before, s', key', value', after, table', st₂, rfl, ?_, ht⟩
      rw [evalProperties_property, bind_ok hv]
      exact hbefore
  | .program .. :: _, _, _, _, hns, _ | .declaration .. :: _, _, _, _, hns, _
  | .assignment .. :: _, _, _, _, hns, _ | .binary .. :: _, _, _, _, hns, _
  | .member .. :: _, _, _, _, hns, _ | .call .. :: _, _, _, _, hns, _
  | .identifier .. :: _, _, _, _, hns, _ | .literal .. :: _, _, _, _, hns, _
  | .object .. :: _, _, _, _, hns, _ | .bare .. :: _, _, _, _, hns, _
  | .filler _ :: _, _, _, _, hns, _ => by
    cases hns _ List.mem_cons_self

end

theorem statement_breakdown (hn : IsStatement P n)
    (h : n.eval mode scope st = (.error (.breakdown b), st')) :
    b = .domain ∧ n.TakesInfiniteRemainder mode scope st := by
  cases hn with
  | expression hn => exact eval_breakdown hn h
  | declaration s x =>
    rw [eval, isAbsent_absent] at h
    exact absurd h (faults_declare scope x _ _ s).not_breakdown
  | initialised s c x hvalue =>
    rw [eval, hvalue.isAbsent] at h
    rcases bind_eq_error h with hv | ⟨v, st₁, -, hdeclare⟩
    · obtain ⟨hb, ht⟩ := eval_breakdown hvalue hv
      exact ⟨hb, ht.of_part (.declared hvalue.isAbsent)⟩
    · exact absurd hdeclare (faults_declare scope x v c s).not_breakdown

theorem evalBody_breakdown : ∀ {ns : List Node} {last : Value} {st st' : EvalState},
    (∀ n ∈ ns, IsStatement P n) → evalBody mode scope last ns st = (.error (.breakdown b), st') →
    b = .domain ∧ ∃ before n after v st₁, ns = before ++ n :: after ∧
      evalBody mode scope last before st = (.ok v, st₁) ∧ n.TakesInfiniteRemainder mode scope st₁
  | [], last, st, st', _, h => by
    rw [evalBody] at h
    exact absurd h (failsWith_pure _).not_breakdown
  | n :: ns, last, st, st', hns, h => by
    rw [evalBody] at h
    rcases bind_eq_error h with hn | ⟨v, st₁, hn, hrest⟩
    · obtain ⟨hb, ht⟩ := statement_breakdown (hns n List.mem_cons_self) (attempt_eq_breakdown.1 hn)
      refine ⟨hb, [], n, ns, last, st, rfl, ?_, ht⟩
      rw [evalBody, pure_apply]
    · obtain ⟨hb, before, m, after, w, st₂, rfl, hbefore, ht⟩ :=
        evalBody_breakdown (fun m hm => hns m (List.mem_cons_of_mem _ hm)) hrest
      refine ⟨hb, n :: before, m, after, w, st₂, rfl, ?_, ht⟩
      rw [evalBody, bind_ok hn]
      exact hbefore

/-- A script breaks down if and only if it takes the remainder of an infinite double. -/
theorem IsScript.breakdown_iff (hn : IsScript P n) :
    (n.evaluate mode scope st).1 = .error (.breakdown b) ↔
      b = .domain ∧ n.TakesInfiniteRemainder mode scope st := by
  obtain ⟨s, body, rfl, hbody⟩ := hn
  constructor
  · intro h
    have hst : (program s body).evaluate mode scope st = (.error (.breakdown b), _) := Prod.ext h rfl
    have heval := attempt_eq_breakdown.1 hst
    rw [eval] at heval
    obtain ⟨hb, before, n, after, v, st₁, rfl, hbefore, ht⟩ := evalBody_breakdown hbody heval
    exact ⟨hb, ht.of_part (.statement hbefore)⟩
  · rintro ⟨rfl, ht⟩
    have heval : (program s body).eval mode scope st = (.error (.breakdown .domain), _) :=
      Prod.ext ht.breaksDown rfl
    exact congrArg Prod.fst (attempt_eq_breakdown.2 heval)

end

end Node

end TemplateScript
