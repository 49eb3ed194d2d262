import TemplateScript.Proofs.Derivation
import TemplateScript.Proofs.ReaderLemmas

/-!
# What is read is derived

A reader that gives a tree has taken tokens from which the grammar derives the tree. Each level is
sound where the reader of inner expressions is; the knot is tied by induction on the bound.
-/

namespace TemplateScript.Grammar

open Reader TokenReader

def Sound {α : Type} (p : Reader α) (D : List Token → α → Prop) : Prop :=
  ∀ {stop ts a rest}, p stop ts = (.ok a, rest) → ∃ used, ts = used ++ rest ∧ D used a

structure SoundItem {α : Type} (item : Reader (Option α)) (D : List Token → α → Prop) : Prop where
  none : ∀ {stop ts rest}, item stop ts = (.ok none, rest) → rest = ts
  some : ∀ {stop ts a rest}, item stop ts = (.ok (some a), rest) →
    ∃ used, ts = used ++ rest ∧ D used a

theorem progress_of_sound {α : Type} {item : Reader (Option α)} {D : List Token → α → Prop}
    (hi : SoundItem item D) (hD : ∀ {us a}, D us a → us ≠ []) : Progress item := by
  refine ⟨fun {stop ts a rest} h => ?_⟩
  obtain ⟨used, rfl, hd⟩ := hi.some h
  have := List.length_pos_iff.2 (hD hd)
  rw [List.length_append]
  omega

/-- Steps from an object, call or operand to a larger one keep what was read so far derived. -/
theorem many_fold_sound {α : Type} {item : Reader (Option α)} {D : List Token → α → Prop}
    {E : List Token → Node → Prop} {apply : Node → α → Node} (hi : SoundItem item D)
    (hE : ∀ {ts us n a}, E ts n → D us a → E (ts ++ us) (apply n a)) {stop : Token}
    {ts rest : List Token} {as : List α} (h : many item stop ts = (.ok as, rest))
    {before : List Token} {n : Node} (hn : E before n) :
    ∃ used, ts = used ++ rest ∧ E (before ++ used) (as.foldl apply n) := by
  let M (ts : List Token) (as : List α) (rest : List Token) : Prop :=
    ∀ before n, E before n → ∃ used, ts = used ++ rest ∧ E (before ++ used) (as.foldl apply n)
  have hM : M ts as rest := by
    refine manyWithin_rec ?_ ?_ (ts.length + 1) h
    · intro ts rest h before n hn
      obtain rfl := hi.none h
      exact ⟨[], rfl, by simpa using hn⟩
    · intro ts a mid as rest h ih before n hn
      obtain ⟨used, rfl, hd⟩ := hi.some h
      obtain ⟨more, rfl, hm⟩ := ih _ _ (hE hn hd)
      exact ⟨used ++ more, by simp, by simpa using hm⟩
  exact hM before n hn

section
variable {inner : Reader Node} (hin : Sound inner (Derives .assignment))
include hin

theorem grouped_sound {stop o : Token} {ts rest : List Token} {n : Node} (ho : o.kind = .openParen)
    (h : grouped inner stop ts = (.ok n, rest)) :
    ∃ used, o :: ts = used ++ rest ∧ Derives .primary used n := by
  obtain ⟨m, mid, hm, hk⟩ := bind_eq_ok h
  obtain ⟨c, mid', he, hk⟩ := bind_eq_ok hk
  obtain ⟨rfl, rfl⟩ := pure_eq_ok hk
  obtain ⟨rfl, hc⟩ := expect_eq_ok he
  obtain ⟨used, rfl, hd⟩ := hin hm
  exact ⟨o :: (used ++ [c]), by simp, .grouped ho hd hc⟩

omit hin in
theorem number_sound {stop t : Token} {ts rest : List Token} {n : Node} (ht : t.kind = .number)
    (h : (number t : Reader _) stop ts = (.ok n, rest)) :
    ∃ used, t :: ts = used ++ rest ∧ Derives .primary used n := by
  cases hr : Numeral.read? t.text with
  | none => simp only [number, hr] at h; cases h
  | some k =>
    simp only [number, hr] at h
    obtain ⟨rfl, rfl⟩ := pure_eq_ok h
    exact ⟨[t], rfl, .number ht hr⟩

theorem primary_sound : Sound (primary inner) (Derives .primary) := by
  intro stop ts n rest h
  cases ts with
  | nil => cases h
  | cons t ts =>
    rw [primary_cons] at h
    split at h
    · rename_i ht
      cases h
      exact ⟨[t], rfl, .identifier ht⟩
    · rename_i ht
      exact number_sound ht h
    · rename_i ht
      exact grouped_sound hin ht h
    · exact absurd h (unexpected_ne_ok "expression" n)

def DerivesAccess (us : List Token) (a : Access) : Prop :=
  us ≠ [] ∧ ∀ ts o, Derives .member ts o → Derives .member (ts ++ us) (a.apply o)

theorem fieldAccess_sound {stop d : Token} {ts rest : List Token} {o : Option Access}
    (hd : d.kind = .dot) (h : fieldAccess inner stop ts = (.ok o, rest)) :
    ∃ a used, o = some a ∧ d :: ts = used ++ rest ∧ DerivesAccess used a := by
  obtain ⟨n, mid, hn, hk⟩ := bind_eq_ok h
  obtain ⟨used, rfl, hu⟩ := primary_sound hin hn
  cases n
  case identifier s x =>
    obtain ⟨rfl, rfl⟩ := pure_eq_ok hk
    exact ⟨_, d :: used, rfl, by simp, by simp, fun ts o ho => .field ho hd hu⟩
  all_goals cases hk

theorem indexAccess_sound {stop b : Token} {ts rest : List Token} {o : Option Access}
    (hb : b.kind = .openBracket) (h : indexAccess inner stop ts = (.ok o, rest)) :
    ∃ a used, o = some a ∧ b :: ts = used ++ rest ∧ DerivesAccess used a := by
  obtain ⟨n, mid, hn, hk⟩ := bind_eq_ok h
  obtain ⟨s, mid', he, hk⟩ := bind_eq_ok hk
  obtain ⟨rfl, rfl⟩ := pure_eq_ok hk
  obtain ⟨c, rfl, hc, rfl⟩ := expectSpan_eq_ok he
  obtain ⟨used, rfl, hu⟩ := hin hn
  exact ⟨_, b :: (used ++ [c]), rfl, by simp, by simp, fun ts o ho => .index ho hb hu hc⟩

theorem access_sound : SoundItem (access inner) DerivesAccess := by
  have key : ∀ {stop ts rest} {o : Option Access}, access inner stop ts = (.ok o, rest) →
      o = none ∧ rest = ts ∨ ∃ a used, o = some a ∧ ts = used ++ rest ∧ DerivesAccess used a := by
    intro stop ts rest o h
    obtain ⟨d, mid, hd, hk⟩ := bind_eq_ok h
    cases d with
    | some d =>
      obtain ⟨rfl, hdot⟩ := accept_eq_some hd
      exact Or.inr (fieldAccess_sound hin hdot hk)
    | none =>
      obtain ⟨rfl, -⟩ := accept_eq_none hd
      obtain ⟨b, mid', hb, hk'⟩ := bind_eq_ok hk
      cases b with
      | some b =>
        obtain ⟨rfl, hopen⟩ := accept_eq_some hb
        exact Or.inr (indexAccess_sound hin hopen hk')
      | none =>
        obtain ⟨rfl, -⟩ := accept_eq_none hb
        obtain ⟨rfl, rfl⟩ := pure_eq_ok hk'
        exact Or.inl ⟨rfl, rfl⟩
  refine ⟨fun h => ?_, fun h => ?_⟩
  · rcases key h with ⟨-, hr⟩ | ⟨a, used, ho, -⟩
    · exact hr
    · cases ho
  · rcases key h with ⟨ho, -⟩ | ⟨a, used, ho, hu⟩
    · cases ho
    · cases ho
      exact ⟨used, hu⟩

theorem member_sound : Sound (member inner) (Derives .member) := by
  intro stop ts n rest h
  obtain ⟨o, mid, ho, hk⟩ := bind_eq_ok h
  obtain ⟨as, mid', has, hk'⟩ := bind_eq_ok hk
  obtain ⟨rfl, rfl⟩ := pure_eq_ok hk'
  obtain ⟨used, rfl, hd⟩ := primary_sound hin ho
  have hstep : ∀ {ts us n a}, Derives .member ts n → DerivesAccess us a →
      Derives .member (ts ++ us) (Access.apply n a) := fun hn ha => ha.2 _ _ hn
  have hd : Derives .member used o := .lift hd
  obtain ⟨more, rfl, hm⟩ := many_fold_sound (access_sound hin) hstep has hd
  exact ⟨used ++ more, by simp, hm⟩

theorem argument_sound : SoundItem (argument inner)
    fun us n => ∃ c ts, us = c :: ts ∧ c.kind = .comma ∧ Derives .assignment ts n := by
  refine ⟨fun {stop ts rest} h => ?_, fun {stop ts n rest} h => ?_⟩
  · obtain ⟨c, mid, hc, hk⟩ := bind_eq_ok h
    cases c with
    | some c =>
      obtain ⟨n, mid', hn, hk'⟩ := bind_eq_ok hk
      cases hk'
    | none =>
      obtain ⟨rfl, -⟩ := accept_eq_none hc
      exact (pure_eq_ok hk).2
  · obtain ⟨c, mid, hc, hk⟩ := bind_eq_ok h
    cases c with
    | none => cases hk
    | some c =>
      obtain ⟨rfl, hcomma⟩ := accept_eq_some hc
      obtain ⟨m, mid', hm, hk'⟩ := bind_eq_ok hk
      cases hk'
      obtain ⟨used, rfl, hd⟩ := hin hm
      exact ⟨c :: used, rfl, c, used, rfl, hcomma, hd⟩

theorem moreArguments_sound {stop : Token} {ts rest : List Token} {ns : List Node}
    (h : many (argument inner) stop ts = (.ok ns, rest)) {before : List Token} {n : Node}
    (hn : Derives .assignment before n) :
    ∃ used, ts = used ++ rest ∧ DerivesItems (before ++ used) (n :: ns) := by
  let M (ts : List Token) (ns : List Node) (rest : List Token) : Prop :=
    ∀ before n, Derives .assignment before n →
      ∃ used, ts = used ++ rest ∧ DerivesItems (before ++ used) (n :: ns)
  have hM : M ts ns rest := by
    refine manyWithin_rec ?_ ?_ (ts.length + 1) h
    · intro ts rest h before n hn
      obtain rfl := (argument_sound hin).none h
      exact ⟨[], rfl, by simpa using .last hn⟩
    · intro ts m mid ns rest h ih before n hn
      obtain ⟨_, rfl, c, us, rfl, hc, hm⟩ := (argument_sound hin).some h
      obtain ⟨used, rfl, hd⟩ := ih us m hm
      exact ⟨c :: (us ++ used), by simp, .more hn hc hd⟩
  exact hM before n hn

theorem arguments_sound : Sound (arguments inner) DerivesArguments := by
  intro stop ts ns rest h
  obtain ⟨k, mid, hp, hk⟩ := bind_eq_ok h
  cases hp
  split at hk
  · obtain ⟨rfl, rfl⟩ := pure_eq_ok hk
    exact ⟨[], rfl, .none⟩
  · obtain ⟨n, mid, hn, hk'⟩ := bind_eq_ok hk
    obtain ⟨ms, mid', hms, hk''⟩ := bind_eq_ok hk'
    obtain ⟨rfl, rfl⟩ := pure_eq_ok hk''
    obtain ⟨used, rfl, hd⟩ := hin hn
    obtain ⟨more, rfl, hi⟩ := moreArguments_sound hin hms hd
    exact ⟨used ++ more, by simp, .some hi⟩

def DerivesCall (us : List Token) (c : Call) : Prop :=
  us ≠ [] ∧ ∀ ts n, Derives .call ts n → Derives .call (ts ++ us) (c.apply n)

theorem callArguments_sound : SoundItem (callArguments inner) DerivesCall := by
  refine ⟨fun {stop ts rest} h => ?_, fun {stop ts c rest} h => ?_⟩
  · obtain ⟨b, mid, hb, hk⟩ := bind_eq_ok h
    cases b with
    | some b =>
      obtain ⟨as, mid', has, hk'⟩ := bind_eq_ok hk
      obtain ⟨c, mid'', hc, hk''⟩ := bind_eq_ok hk'
      cases hk''
    | none =>
      obtain ⟨rfl, -⟩ := accept_eq_none hb
      exact (pure_eq_ok hk).2
  · obtain ⟨b, mid, hb, hk⟩ := bind_eq_ok h
    cases b with
    | none => cases hk
    | some b =>
      obtain ⟨rfl, hopen⟩ := accept_eq_some hb
      obtain ⟨as, mid', has, hk'⟩ := bind_eq_ok hk
      obtain ⟨s, mid'', he, hk''⟩ := bind_eq_ok hk'
      cases hk''
      obtain ⟨e, rfl, hclose, rfl⟩ := expectSpan_eq_ok he
      obtain ⟨used, rfl, hd⟩ := arguments_sound hin has
      exact ⟨b :: (used ++ [e]), by simp, by simp, fun ts n hn => .call hn hopen hd hclose⟩

theorem call_sound : Sound (call inner) (Derives .call) := by
  intro stop ts n rest h
  obtain ⟨o, mid, ho, hk⟩ := bind_eq_ok h
  obtain ⟨cs, mid', hcs, hk'⟩ := bind_eq_ok hk
  obtain ⟨rfl, rfl⟩ := pure_eq_ok hk'
  obtain ⟨used, rfl, hd⟩ := member_sound hin ho
  have hstep : ∀ {ts us n a}, Derives .call ts n → DerivesCall us a →
      Derives .call (ts ++ us) (Call.apply n a) := fun hn ha => ha.2 _ _ hn
  have hd : Derives .call used o := .lift hd
  obtain ⟨more, rfl, hm⟩ := many_fold_sound (callArguments_sound hin) hstep hcs hd
  exact ⟨used ++ more, by simp, hm⟩

end

/-! ## Operators -/

section
variable {operand : Reader Node} {l : Level} (ho : Sound operand (Derives l.below))
include ho

theorem operation_sound : SoundItem (operation l.operators operand)
    fun us o => ∃ t ts, us = t :: ts ∧ t.kind = .operator ∧ t.text ∈ l.operators ∧ o.1 = t.text ∧
      Derives l.below ts o.2 := by
  refine ⟨fun {stop ts rest} h => ?_, fun {stop ts o rest} h => ?_⟩
  · obtain ⟨t, mid, ht, hk⟩ := bind_eq_ok h
    cases t with
    | some t =>
      obtain ⟨n, mid', hn, hk'⟩ := bind_eq_ok hk
      cases hk'
    | none =>
      obtain ⟨rfl, -⟩ := takeIf_eq_none ht
      exact (pure_eq_ok hk).2
  · obtain ⟨t, mid, ht, hk⟩ := bind_eq_ok h
    cases t with
    | none => cases hk
    | some t =>
      obtain ⟨rfl, hop⟩ := takeIf_eq_some ht
      obtain ⟨n, mid', hn, hk'⟩ := bind_eq_ok hk
      cases hk'
      obtain ⟨used, rfl, hd⟩ := ho hn
      simp only [isOperator, Bool.and_eq_true, decide_eq_true_eq] at hop
      exact ⟨t :: used, rfl, t, used, rfl, hop.1, hop.2, rfl, hd⟩

theorem chain_sound : Sound (chain l.operators operand) (Derives l) := by
  intro stop ts n rest h
  obtain ⟨a, mid, ha, hk⟩ := bind_eq_ok h
  obtain ⟨os, mid', hos, hk'⟩ := bind_eq_ok hk
  obtain ⟨rfl, rfl⟩ := pure_eq_ok hk'
  obtain ⟨used, rfl, hd⟩ := ho ha
  have hstep : ∀ {ts us n o}, Derives l ts n →
      (∃ t vs, us = t :: vs ∧ t.kind = .operator ∧ t.text ∈ l.operators ∧ o.1 = t.text ∧
        Derives l.below vs o.2) → Derives l (ts ++ us) (applyOperation n o) := by
    rintro ts us n ⟨op, b⟩ hn ⟨t, vs, rfl, ht, hop, rfl, hb⟩
    exact .chain hn ht hop hb
  have hd : Derives l used a := .lift hd
  obtain ⟨more, rfl, hm⟩ := many_fold_sound (operation_sound ho) hstep hos hd
  exact ⟨used ++ more, by simp, hm⟩

end

/-! ## Object literals and assignments -/

section
variable {inner : Reader Node} (hin : Sound inner (Derives .assignment))

theorem separator_sound {stop : Token} {ts rest : List Token}
    (h : (separator : Reader _) stop ts = (.ok (), rest)) :
    (∃ c, ts = c :: rest ∧ c.kind = .comma) ∨
      ts = rest ∧ rest.head?.map (·.kind) = some .closeBrace := by
  obtain ⟨k, mid, hp, hk⟩ := bind_eq_ok h
  cases hp
  split at hk
  · rename_i hb
    obtain ⟨-, rfl⟩ := pure_eq_ok hk
    exact Or.inr ⟨rfl, hb⟩
  · obtain ⟨c, mid', hc, hk'⟩ := bind_eq_ok hk
    obtain ⟨-, rfl⟩ := pure_eq_ok hk'
    exact Or.inl ⟨c, expect_eq_ok hc⟩

def EntryRead (ts rest : List Token) (p : Node) : Prop :=
  ∃ used, DerivesEntry used p ∧ ((∃ c, ts = used ++ c :: rest ∧ c.kind = .comma) ∨
    ts = used ++ rest ∧ rest.head?.map (·.kind) = some .closeBrace)

include hin in
theorem keyValue_sound {stop k : Token} {ts rest : List Token} {o : Option Node}
    (hk : k.kind = .identifier) (h : keyValue inner k stop ts = (.ok o, rest)) :
    ∃ p, o = some p ∧ EntryRead (k :: ts) rest p := by
  obtain ⟨c, mid, hc, h'⟩ := bind_eq_ok h
  obtain ⟨v, mid', hv, h''⟩ := bind_eq_ok h'
  obtain ⟨u, mid'', hs, hp⟩ := bind_eq_ok h''
  obtain ⟨rfl, rfl⟩ := pure_eq_ok hp
  obtain ⟨rfl, hcolon⟩ := expect_eq_ok hc
  obtain ⟨used, rfl, hd⟩ := hin hv
  refine ⟨_, rfl, k :: c :: used, .keyed hk hcolon hd, ?_⟩
  rcases separator_sound hs with ⟨d, rfl, hd'⟩ | ⟨rfl, hb⟩
  · exact Or.inl ⟨d, by simp, hd'⟩
  · exact Or.inr ⟨by simp, hb⟩

include hin in
theorem property_sound {stop : Token} {ts rest : List Token} {o : Option Node}
    (h : property inner stop ts = (.ok o, rest)) :
    o = none ∧ rest = ts ∨ ∃ p, o = some p ∧ EntryRead ts rest p := by
  obtain ⟨k, mid, hp, h'⟩ := bind_eq_ok h
  cases hp
  split at h'
  · obtain ⟨rfl, rfl⟩ := pure_eq_ok h'
    exact Or.inl ⟨rfl, rfl⟩
  obtain ⟨key, mid, hkey, h''⟩ := bind_eq_ok h'
  obtain ⟨rfl, hid⟩ := expect_eq_ok hkey
  obtain ⟨c, mid', hc, hrest⟩ := bind_eq_ok h''
  right
  cases c with
  | some c =>
    obtain ⟨rfl, hcomma⟩ := accept_eq_some hc
    obtain ⟨rfl, rfl⟩ := pure_eq_ok hrest
    exact ⟨_, rfl, [key], .shorthand hid, Or.inl ⟨c, rfl, hcomma⟩⟩
  | none =>
    obtain ⟨rfl, -⟩ := accept_eq_none hc
    obtain ⟨k, mid, hp, hlast⟩ := bind_eq_ok hrest
    cases hp
    split at hlast
    · rename_i hb
      obtain ⟨rfl, rfl⟩ := pure_eq_ok hlast
      exact ⟨_, rfl, [key], .shorthand hid, Or.inr ⟨rfl, hb⟩⟩
    · exact keyValue_sound hin hid hlast

/-- Ahead of a closing brace no entry is read. -/
theorem EntryRead.ne_closeBrace {ts rest : List Token} {p : Node} (h : EntryRead ts rest p) :
    ts.head?.map (·.kind) ≠ some .closeBrace := by
  obtain ⟨used, hd, hu⟩ := h
  obtain ⟨t, us, rfl, ht⟩ := hd.begins
  rcases hu with ⟨c, rfl, -⟩ | ⟨rfl, -⟩ <;> simp [ht]

include hin in
theorem properties_sound : Sound (many (property inner)) DerivesEntries := by
  intro stop ts ps rest h
  -- Ahead of a closing brace there are no more entries, so the last entry may go without a comma.
  let M (ts : List Token) (ps : List Node) (rest : List Token) : Prop :=
    (∃ used, ts = used ++ rest ∧ DerivesEntries used ps) ∧
      (ts.head?.map (·.kind) = some .closeBrace → ps = [] ∧ rest = ts)
  have hM : M ts ps rest := by
    refine manyWithin_rec ?_ ?_ (ts.length + 1) h
    · intro ts rest h
      rcases property_sound hin h with ⟨-, rfl⟩ | ⟨p, hp, -⟩
      · exact ⟨⟨[], rfl, .none⟩, fun _ => ⟨rfl, rfl⟩⟩
      · cases hp
    · intro ts p mid ps rest h ih
      rcases property_sound hin h with ⟨hn, -⟩ | ⟨q, hq, hr⟩
      · cases hn
      cases hq
      refine ⟨?_, fun hb => absurd hb hr.ne_closeBrace⟩
      obtain ⟨used, hd, hu⟩ := hr
      obtain ⟨⟨more, hmid, hm⟩, hlast⟩ := ih
      rcases hu with ⟨c, rfl, hc⟩ | ⟨rfl, hb⟩
      · exact ⟨used ++ c :: more, by simp [hmid], .more hd hc hm⟩
      · obtain ⟨rfl, rfl⟩ := hlast hb
        exact ⟨used, rfl, .last hd⟩
  exact hM.1

include hin

theorem multiplicative_sound : Sound (multiplicative inner) (Derives .multiplicative) := by
  have hcall : Sound (call inner) (Derives Level.multiplicative.below) := call_sound hin
  intro stop ts n rest h
  exact chain_sound hcall h

theorem additive_sound : Sound (additive inner) (Derives .additive) := by
  have hmul : Sound (multiplicative inner) (Derives Level.additive.below) :=
    multiplicative_sound hin
  intro stop ts n rest h
  exact chain_sound hmul h

theorem object_sound : Sound (object inner) (Derives .object) := by
  intro stop ts n rest h
  obtain ⟨b, mid, hb, h'⟩ := bind_eq_ok h
  cases b with
  | some b =>
    obtain ⟨rfl, hopen⟩ := accept_eq_some hb
    obtain ⟨ps, mid', hps, h''⟩ := bind_eq_ok h'
    obtain ⟨s, mid'', hc, hp⟩ := bind_eq_ok h''
    obtain ⟨rfl, rfl⟩ := pure_eq_ok hp
    obtain ⟨c, rfl, hclose, rfl⟩ := expectSpan_eq_ok hc
    obtain ⟨used, rfl, hd⟩ := properties_sound hin hps
    exact ⟨b :: (used ++ [c]), by simp, .object hopen hd hclose⟩
  | none =>
    obtain ⟨rfl, -⟩ := accept_eq_none hb
    obtain ⟨used, rfl, hd⟩ := additive_sound hin h'
    exact ⟨used, rfl, .lift hd⟩

theorem assignment_sound : Sound (assignment inner) (Derives .assignment) := by
  intro stop ts n rest h
  obtain ⟨target, mid, ht, h'⟩ := bind_eq_ok h
  obtain ⟨e, mid', he, h''⟩ := bind_eq_ok h'
  obtain ⟨used, rfl, hd⟩ := object_sound hin ht
  cases e with
  | some e =>
    obtain ⟨rfl, hassign⟩ := accept_eq_some he
    obtain ⟨v, mid, hv, hp⟩ := bind_eq_ok h''
    obtain ⟨rfl, rfl⟩ := pure_eq_ok hp
    obtain ⟨more, rfl, hm⟩ := hin hv
    exact ⟨used ++ e :: more, by simp, .assignment hd hassign hm⟩
  | none =>
    obtain ⟨rfl, -⟩ := accept_eq_none he
    obtain ⟨rfl, rfl⟩ := pure_eq_ok h''
    exact ⟨used, rfl, .lift hd⟩

end

theorem expressionWithin_sound (bound : Nat) :
    Sound (expressionWithin bound) (Derives .assignment) := by
  induction bound with
  | zero => intro stop ts n rest h; exact absurd h (exhausted_ne_ok n)
  | succ bound ih => exact assignment_sound ih

theorem expression_sound : Sound expression (Derives .assignment) := by
  intro stop ts n rest h
  exact expressionWithin_sound _ h

/-! ## Statements -/

theorem declaration_sound {stop k : Token} {ts rest : List Token} {n : Node}
    (hk : k.kind = .letWord ∨ k.kind = .constWord)
    (h : (declaration k : Reader _) stop ts = (.ok n, rest)) :
    ∃ used, k :: ts = used ++ rest ∧ DerivesStatement used n := by
  obtain ⟨x, mid, hx, h'⟩ := bind_eq_ok h
  obtain ⟨rfl, hid⟩ := expect_eq_ok hx
  obtain ⟨s, mid', hs, h''⟩ := bind_eq_ok h'
  cases s with
  | some s =>
    obtain ⟨semi, rfl, hsemi, rfl⟩ := acceptSpan_eq_some hs
    dsimp only at h''
    split at h''
    · cases h''
    · rename_i hconst
      obtain ⟨rfl, rfl⟩ := pure_eq_ok h''
      have hlet : k.kind = .letWord := hk.resolve_right (by simpa using hconst)
      exact ⟨[k, x, semi], rfl, .declaration hlet hid hsemi⟩
  | none =>
    obtain ⟨rfl, -⟩ := acceptSpan_eq_none hs
    obtain ⟨e, mid, he, h₁⟩ := bind_eq_ok h''
    obtain ⟨v, mid', hv, h₂⟩ := bind_eq_ok h₁
    obtain ⟨s, mid'', hend, h₃⟩ := bind_eq_ok h₂
    obtain ⟨rfl, rfl⟩ := pure_eq_ok h₃
    obtain ⟨rfl, hassign⟩ := expect_eq_ok he
    obtain ⟨semi, rfl, hsemi, rfl⟩ := expectSpan_eq_ok hend
    obtain ⟨used, rfl, hd⟩ := expression_sound hv
    exact ⟨k :: x :: e :: (used ++ [semi]), by simp, .initialised hk hid hassign hd hsemi⟩

theorem expressionStatement_sound : Sound expressionStatement DerivesStatement := by
  intro stop ts n rest h
  obtain ⟨m, mid, hm, h'⟩ := bind_eq_ok h
  obtain ⟨s, mid', hs, h''⟩ := bind_eq_ok h'
  obtain ⟨rfl, rfl⟩ := pure_eq_ok h''
  obtain ⟨used, rfl, hd⟩ := expression_sound hm
  cases s with
  | some s =>
    obtain ⟨rfl, hsemi⟩ := accept_eq_some hs
    exact ⟨used ++ [s], by simp, .ended hd hsemi⟩
  | none =>
    obtain ⟨rfl, -⟩ := accept_eq_none hs
    exact ⟨used, rfl, .expression hd⟩

theorem statement_sound : Sound statement DerivesStatement := by
  intro stop ts n rest h
  obtain ⟨k, mid, hk, h'⟩ := bind_eq_ok h
  cases k with
  | some k =>
    obtain ⟨rfl, hword⟩ := takeIf_eq_some hk
    exact declaration_sound (by simpa using hword) h'
  | none =>
    obtain ⟨rfl, -⟩ := takeIf_eq_none hk
    exact expressionStatement_sound h'

theorem nextStatement_sound : SoundItem nextStatement DerivesStatement := by
  refine ⟨fun {stop ts rest} h => ?_, fun {stop ts n rest} h => ?_⟩
  · obtain ⟨k, mid, hp, h'⟩ := bind_eq_ok h
    cases hp
    split at h'
    · exact (pure_eq_ok h').2
    · obtain ⟨m, mid, hm, h''⟩ := bind_eq_ok h'
      cases h''
  · obtain ⟨k, mid, hp, h'⟩ := bind_eq_ok h
    cases hp
    split at h'
    · cases h'
    · obtain ⟨m, mid, hm, h''⟩ := bind_eq_ok h'
      cases h''
      exact statement_sound hm

theorem nextStatement_none {stop : Token} {ts rest : List Token}
    (h : (nextStatement : Reader _) stop ts = (.ok none, rest)) : rest = [] := by
  obtain ⟨k, mid, hp, hk⟩ := bind_eq_ok h
  cases hp
  cases ts with
  | nil => exact (pure_eq_ok hk).2
  | cons t ts =>
    obtain ⟨n, mid', -, hn⟩ := bind_eq_ok hk
    cases hn

/-- Statements are read to the end of the tokens. -/
theorem body_sound {stop : Token} {ts rest : List Token} {ns : List Node}
    (h : (many nextStatement : Reader _) stop ts = (.ok ns, rest)) :
    rest = [] ∧ DerivesBody ts ns := by
  refine manyWithin_rec (M := fun ts ns rest => rest = [] ∧ DerivesBody ts ns) ?_ ?_ _ h
  · intro ts rest h
    obtain rfl := nextStatement_none h
    obtain rfl := nextStatement_sound.none h
    exact ⟨rfl, .nil⟩
  · intro ts n mid ns rest h ih
    obtain ⟨used, rfl, hd⟩ := nextStatement_sound.some h
    exact ⟨ih.1, .cons hd ih.2⟩

theorem program_sound {stop : Token} {ts rest : List Token} {n : Node}
    (h : (program : Reader _) stop ts = (.ok n, rest)) :
    rest = [] ∧ ∃ body, n = .program (programSpan (ts.headD stop) body) body ∧
      DerivesBody ts body := by
  obtain ⟨start, mid, hs, h'⟩ := bind_eq_ok h
  cases hs
  obtain ⟨body, mid', hb, h''⟩ := bind_eq_ok h'
  obtain ⟨rfl, rfl⟩ := pure_eq_ok h''
  obtain ⟨hrest, hd⟩ := body_sound hb
  exact ⟨hrest, body, rfl, hd⟩

end TemplateScript.Grammar
