import TemplateScript.Proofs.DumpedRows
import TemplateScript.Proofs.ScriptTrees

/-!
# Dumped trees

A tree that is read is dumped, since none of its literals is too long to be written, and its dump
tells the tree but for its spans: no row of it holds a line feed, so the text tells the rows.
-/

namespace TemplateScript

/-! ## Literals that are read can be written -/

namespace Numeral

theorem digitValue?_lt {c : Char} {d : Nat} (h : Text.digitValue? c = some d) : d < 10 := by
  obtain ⟨z, hz, rfl⟩ := Option.map_eq_some_iff.1 h
  have hrange := List.find?_some hz
  simp only [Bool.and_eq_true, decide_eq_true_eq] at hrange
  omega

theorem digits?_lt {cs : List Char} {ds : List Nat} (h : digits? cs = some ds) :
    ∀ d ∈ ds, d < 10 := by
  have hcons : ∀ {c : Char} {r? : Option (List Nat)} {ds : List Nat},
      (∀ {es}, r? = some es → ∀ d ∈ es, d < 10) →
      ((Text.digitValue? c).bind fun d => r?.map (d :: ·)) = some ds → ∀ d ∈ ds, d < 10 := by
    intro c r? ds hr h
    obtain ⟨d, hd, h⟩ := Option.bind_eq_some_iff.1 h
    obtain ⟨es, hes, rfl⟩ := Option.map_eq_some_iff.1 h
    exact List.forall_mem_cons.2 ⟨digitValue?_lt hd, hr hes⟩
  fun_induction digits? cs generalizing ds with
  | case1 => cases h
  | case2 c =>
    obtain ⟨d, hd, rfl⟩ := Option.map_eq_some_iff.1 h
    exact List.forall_mem_singleton.2 (digitValue?_lt hd)
  | case3 c r ih => exact hcons ih h
  | case4 c r _ _ ih => exact hcons ih h

theorem foldl_digits_lt {ds : List Nat} (h : ∀ d ∈ ds, d < 10) (n : Nat) :
    ds.foldl (fun n d => 10 * n + d) n < (n + 1) * 10 ^ ds.length := by
  induction ds generalizing n with
  | nil => simp
  | cons d ds ih =>
    obtain ⟨hd, hds⟩ := List.forall_mem_cons.1 h
    have hstep : 10 * n + d + 1 ≤ (n + 1) * 10 := by omega
    calc ds.foldl (fun n d => 10 * n + d) (10 * n + d)
        < (10 * n + d + 1) * 10 ^ ds.length := ih hds _
      _ ≤ (n + 1) * 10 * 10 ^ ds.length := Nat.mul_le_mul_right _ hstep
      _ = (n + 1) * 10 ^ (d :: ds).length := by
        rw [List.length_cons, Nat.pow_succ', Nat.mul_assoc]

theorem magnitude?_lt {cs : List Char} {n : Nat} (h : magnitude? cs = some n) :
    n < 10 ^ digitLimit := by
  obtain ⟨ds, hds, h⟩ := Option.bind_eq_some_iff.1 h
  split at h
  · rename_i hle
    obtain rfl := Option.some.inj h
    have hlt := foldl_digits_lt (digits?_lt hds) 0
    rw [Nat.zero_add, Nat.one_mul] at hlt
    exact Nat.lt_of_lt_of_le hlt (Nat.pow_le_pow_right (by decide) hle)
  · cases h

/-- A numeral that can be read is of a number that can be written. -/
theorem write?_of_read? {s : String} {n : Int} (h : read? s = some n) :
    write? n = some (toString n) := by
  have hmagnitude : ∃ cs, magnitude? cs = some n.natAbs := by
    unfold read? at h
    split at h
    · obtain ⟨i, hi, rfl⟩ := Option.map_eq_some_iff.1 h
      obtain ⟨k, hk, hcast⟩ := Option.bind_eq_some_iff.1 hi
      cases hcast
      rw [Int.natAbs_neg]
      exact ⟨_, hk⟩
    all_goals
      obtain ⟨k, hk, rfl⟩ := Option.map_eq_some_iff.1 h
      exact ⟨_, hk⟩
  obtain ⟨cs, hcs⟩ := hmagnitude
  rw [write?, tenTo, Int.toNat_natCast, Nat.pow_eq, if_pos (magnitude?_lt hcs)]

end Numeral

/-! ## Rows of trees that are read -/

namespace Node

open Rows

def Lined (r : Rows) : Prop := ∃ a, r = .ok a ∧ ∀ x ∈ a, '\n' ∉ x.toList

section
variable {p q : Rows} {d : Int} {n : Node} {x name : String}

theorem lined_one (hx : '\n' ∉ x.toList) : Lined (one x) :=
  ⟨[x], rfl, List.forall_mem_singleton.2 hx⟩

theorem Lined.cat (hp : Lined p) (hq : Lined q) : Lined (cat p q) := by
  obtain ⟨a, rfl, ha⟩ := hp
  obtain ⟨b, rfl, hb⟩ := hq
  exact ⟨a ++ b, rfl, List.forall_mem_append.2 ⟨ha, hb⟩⟩

theorem newline_not_mem_row (hx : '\n' ∉ x.toList) : '\n' ∉ (row d x).toList := by
  simp [row, Text.blanks, hx]

theorem lined_field (hname : '\n' ∉ name.toList) (hx : '\n' ∉ x.toList) :
    Lined (one (fieldRow d name x)) :=
  lined_one (newline_not_mem_row (by simp [hname, hx]))

theorem lined_absent (hname : '\n' ∉ name.toList) : Lined (partAt d name absent) :=
  lined_field hname (by decide)

theorem Lined.not_filler (h : Lined (rows d n)) : ∀ f, n ≠ .filler f := by
  rintro f rfl
  obtain ⟨a, ha, -⟩ := h
  cases ha

theorem lined_part (hname : '\n' ∉ name.toList) (h : Lined (rows (d + 2) n)) :
    Lined (partAt d name n) := by
  rw [partAt, partRows_eq h.not_filler]
  exact (lined_one (newline_not_mem_row (by simp [hname]))).cat h

theorem lined_list (hname : '\n' ∉ name.toList) {ns : List Node}
    (h : ∀ n ∈ ns, Lined (rows (d + 2) n)) : Lined (listAt d name ns) := by
  have hitems : Lined (bracketed d ns) := by
    induction ns with
    | nil =>
      rw [bracketed_nil]
      exact lined_one (newline_not_mem_row (by decide))
    | cons n ns ih =>
      obtain ⟨hn, hns⟩ := List.forall_mem_cons.1 h
      rw [bracketed_cons, itemAt, itemRows_eq hn.not_filler]
      exact hn.cat (ih hns)
  rw [listAt_eq]
  exact (lined_one (newline_not_mem_row (by simp [hname]))).cat hitems

theorem lined_of_fields (h : Lined (n.fieldRows d)) : Lined (rows d n) := by
  have hkinds : ∀ s ∈ nodeKinds, '\n' ∉ s.toList := by decide
  have hn : ∀ f, n ≠ .filler f := by
    rintro f rfl
    obtain ⟨a, ha, -⟩ := h
    cases ha
  rw [rows_eq]
  exact (lined_one (newline_not_mem_row (hkinds _ (kindName_mem hn)))).cat h

end

def IsWritten (k : Int) : Prop := Numeral.write? k = some (toString k)

theorem newline_not_mem_number (k : Int) : '\n' ∉ (toString k).toList := fun h =>
  absurd ((Json.toString_isNumber k).inNumber _ h) (by decide)

theorem lined_quoted {d : Int} {name : String} (hname : '\n' ∉ name.toList) (x : String) :
    Lined (one (fieldRow d name (Text.quote x))) :=
  lined_field hname (Text.newline_not_mem_quote x)

theorem lined_truth {d : Int} {name : String} (hname : '\n' ∉ name.toList) (b : Bool) :
    Lined (one (fieldRow d name (Text.truth b))) :=
  lined_field hname (by cases b <;> decide)

theorem lined_identifier (s : Option Span) (x : String) (d : Int) :
    Lined (rows d (.identifier s x)) :=
  lined_of_fields (lined_quoted (by decide) x)

mutual

theorem IsExpression.lined : ∀ {n : Node}, IsExpression IsWritten n → ∀ d, Lined (rows d n)
  | _, .identifier s x, d => lined_identifier s x d
  | _, .literal s h, d => by
    refine lined_of_fields ?_
    rw [fieldRows, Number.text?, h]
    exact lined_field (by decide) (newline_not_mem_number _)
  | _, .binary s ha hop hb, d => by
    refine lined_of_fields ((lined_part (by decide) (ha.lined _)).cat ?_)
    exact (lined_quoted (by decide) _).cat (lined_part (by decide) (hb.lined _))
  | _, .assignment s ht hv, d => by
    refine lined_of_fields ((lined_part (by decide) (ht.lined _)).cat ?_)
    exact lined_part (by decide) (hv.lined _)
  | _, .field s s' x ho, d => by
    refine lined_of_fields ((lined_part (by decide) (ho.lined _)).cat ?_)
    exact (lined_part (by decide) (lined_identifier s' x _)).cat (lined_truth (by decide) false)
  | _, .index s ho hp, d => by
    refine lined_of_fields ((lined_part (by decide) (ho.lined _)).cat ?_)
    exact (lined_part (by decide) (hp.lined _)).cat (lined_truth (by decide) true)
  | _, .call s hc has, d => by
    refine lined_of_fields ((lined_part (by decide) (hc.lined _)).cat ?_)
    exact lined_list (by decide) fun a ha => (has a ha).lined _
  | _, .object s hps, d =>
    lined_of_fields (lined_list (by decide) fun p hp => (hps p hp).lined _)

theorem IsEntry.lined : ∀ {n : Node}, IsEntry IsWritten n → ∀ d, Lined (rows d n)
  | _, .shorthand s key, d =>
    lined_of_fields ((lined_quoted (by decide) key).cat (lined_absent (by decide)))
  | _, .keyed s key hv, d =>
    lined_of_fields ((lined_quoted (by decide) key).cat (lined_part (by decide) (hv.lined _)))

end

variable {n m : Node}

theorem IsStatement.lined (h : IsStatement IsWritten n) (d : Int) : Lined (rows d n) := by
  cases h with
  | expression h => exact h.lined d
  | declaration s x =>
    refine lined_of_fields ((lined_truth (by decide) false).cat ?_)
    exact (lined_quoted (by decide) x).cat (lined_absent (by decide))
  | initialised s constant x hv =>
    refine lined_of_fields ((lined_truth (by decide) constant).cat ?_)
    exact (lined_quoted (by decide) x).cat (lined_part (by decide) (hv.lined _))

theorem IsScript.lined (h : IsScript IsWritten n) (d : Int) : Lined (rows d n) := by
  obtain ⟨s, body, rfl, hbody⟩ := h
  exact lined_of_fields (lined_list (by decide) fun m hm => (hbody m hm).lined _)

theorem IsScript.hasWhole (h : IsScript IsWritten n) : ∀ k ∈ n.preorder, k.HasWhole := by
  intro k hk
  have hproper := (h.inPlace k hk).proper
  cases k with
  | literal s v =>
    obtain ⟨i, rfl, -⟩ := hproper
    exact ⟨i, rfl⟩
  | _ => trivial

theorem ofTokens_isWritten {ts : List Token} (h : ofTokens ts = .ok n) : n.IsScript IsWritten := by
  obtain ⟨s, body, rfl, hbody⟩ := ofTokens_derives h
  exact ⟨s, body, rfl, hbody.isStatement fun t _ _ k hk => Numeral.write?_of_read? hk⟩

/-! ## Trees without spans -/

theorem partRows_unspanned (d : Int) (name : String) (n : Node) (r : Rows) :
    partRows d name n.unspanned r = partRows d name n r := by
  cases n <;> simp only [unspanned] <;> rfl

theorem itemRows_unspanned (d : Int) (n : Node) (r : Rows) :
    itemRows d n.unspanned r = itemRows d n r := by
  cases n <;> simp only [unspanned] <;> rfl

mutual

/-- Dumps do not say spans. -/
theorem rows_unspanned (d : Int) : ∀ n : Node, rows d n.unspanned = rows d n
  | .program .. | .object .. => by
    simp only [unspanned, rows, rowsOfList_unspanned d]
  | .declaration .. | .property .. | .assignment .. | .binary .. | .member .. => by
    simp only [unspanned, rows, partRows_unspanned, rows_unspanned (d + 2)]
  | .call .. => by
    simp only [unspanned, rows, partRows_unspanned, rows_unspanned (d + 2), rowsOfList_unspanned d]
  | .identifier .. | .literal .. | .bare .. | .filler _ => by
    simp only [unspanned, rows]

theorem rowsOfList_unspanned (d : Int) : ∀ ns : List Node,
    rowsOfList d (unspannedEach ns) = rowsOfList d ns
  | [] => rfl
  | n :: ns => by
    simp only [unspannedEach, rowsOfList, itemRows_unspanned, rows_unspanned (d + 2) n,
      rowsOfList_unspanned d ns]

end

/-! ## Dumps -/

theorem joined_inj {a b : List String} (ha : a ≠ []) (hb : b ≠ []) (hla : ∀ x ∈ a, '\n' ∉ x.toList)
    (hlb : ∀ x ∈ b, '\n' ∉ x.toList) (h : "\n".intercalate a = "\n".intercalate b) : a = b := by
  have hjoined := congrArg (fun t => t.toList.splitOn '\n') h
  have hsplit : ∀ {c : List String}, c ≠ [] → (∀ x ∈ c, '\n' ∉ x.toList) →
      ("\n".intercalate c).toList.splitOn '\n' = c.map String.toList := by
    intro c hc hlc
    rw [String.toList_intercalate]
    exact List.splitOn_intercalate '\n' (List.forall_mem_map.2 hlc) (by simpa using hc)
  simp only [hsplit ha hla, hsplit hb hlb] at hjoined
  exact (List.map_inj_right fun _ _ => String.toList_inj.1).1 hjoined

theorem rows_ne_nil {d : Int} {a : List String} (h : rows d n = .ok a) : a ≠ [] := by
  rw [rows_eq] at h
  obtain ⟨b, c, hb, -, rfl⟩ := cat_eq_ok h
  cases hb
  exact List.cons_ne_nil _ _

/-- Programs that are read are dumped, and their dumps are alike if and only if they are the same
tree but for their spans. -/
theorem dump_eq_iff {ts us : List Token} (hn : ofTokens ts = .ok n) (hm : ofTokens us = .ok m) :
    ∃ t u, n.dump = .ok t ∧ m.dump = .ok u ∧ (t = u ↔ n.unspanned = m.unspanned) := by
  have hns := ofTokens_isWritten hn
  have hms := ofTokens_isWritten hm
  obtain ⟨a, ha, hla⟩ := hns.lined 0
  obtain ⟨b, hb, hlb⟩ := hms.lined 0
  refine ⟨"\n".intercalate a, "\n".intercalate b, by rw [dump, ha]; rfl, by rw [dump, hb]; rfl, ?_⟩
  constructor
  · intro h
    have hab : a = b := joined_inj (rows_ne_nil ha) (rows_ne_nil hb) hla hlb h
    have htell := tell_rows n m (Int.le_refl 0) hns.hasWhole hms.hasWhole
    exact (htell.apart (r := []) (s := []) ha hb (by rw [hab])).1
  · intro h
    have hrows : rows 0 n = rows 0 m := by rw [← rows_unspanned, h, rows_unspanned]
    obtain rfl : a = b := Except.ok.inj (ha.symm.trans (hrows.trans hb))
    rfl

def sumDump : String :=
  "Program\n  body: [\n    BinaryExpr\n      left:\n        NumericLiteral\n          value: 1\n"
    ++ "      operator: '+'\n      right:\n        Identifier\n          symbol: 'a'\n  ]"

/-- A sum, and the same sum over two lines and with a semicolon. -/
theorem sum_dumped : ∃ n m, ofTokens (scan "1+a" none).tokens = .ok n ∧
    ofTokens (scan "1 +\na;" none).tokens = .ok m ∧ n.dump = .ok sumDump ∧
      n.unspanned = m.unspanned ∧
      ∃ t u, n.dump = .ok t ∧ m.dump = .ok u ∧ (t = u ↔ n.unspanned = m.unspanned) := by
  have hdump : ∀ source ∈ ["1+a", "1 +\na;"], ((ofTokens (scan source none).tokens).toOption.bind
      fun n => n.dump.toOption) = some sumDump := by decide +kernel
  obtain ⟨n, hn, hndump⟩ := Option.bind_eq_some_iff.1 (hdump "1+a" (by simp))
  obtain ⟨m, hm, hmdump⟩ := Option.bind_eq_some_iff.1 (hdump "1 +\na;" (by simp))
  have hn := eq_ok_of_toOption hn
  have hm := eq_ok_of_toOption hm
  have hsame := dump_eq_iff hn hm
  have hunspanned : n.unspanned = m.unspanned := by
    obtain ⟨t, u, ht, hu, hiff⟩ := hsame
    obtain rfl : sumDump = t := Except.ok.inj ((eq_ok_of_toOption hndump).symm.trans ht)
    exact hiff.1 (Except.ok.inj ((eq_ok_of_toOption hmdump).symm.trans hu))
  exact ⟨n, m, hn, hm, eq_ok_of_toOption hndump, hunspanned, hsame⟩

end Node

end TemplateScript
