import Mathlib.Data.List.DropRight
import TemplateScript.Proofs.LineSeams
import TemplateScript.Proofs.RunPositions

/-!
# Quoted lines

A report has the number of its line counted by line feeds, and quotes the line with this number of
the text, where lines end at other breaks too. The two are the same line if and only if no other
break stands in the text up to the end of the line; otherwise what is quoted stands elsewhere, and
only by chance has the same characters.
-/

namespace TemplateScript

namespace Text

/-- Every line break is a line feed, or a carriage return with a line feed or the end behind it. -/
def PlainlyBroken : List Char → Prop
  | [] => True
  | c :: r => (isLineBreak c = true → c = '\n' ∨ c = '\r' ∧ ∀ d ∈ r.head?, d = '\n') ∧
      PlainlyBroken r

def aheadOfLine (text : List Char) (k : Nat) : List Char :=
  (text.take k).rdropWhile (· ≠ '\n')

def lineAround (text : List Char) (k : Nat) : List Char :=
  (text.take k).rtakeWhile (· ≠ '\n') ++ (text.drop k).takeWhile (· ≠ '\n')

def withoutReturn (line : List Char) : List Char :=
  if line.getLast? = some '\r' then line.dropLast else line

variable {c : Char} {r a b w : List Char}

/-! ## Lines one character at a time -/

theorem lines_step (c : Char) (r : List Char) : lines (c :: r) =
    if c = '\r' ∧ r.head? = some '\n' then lines r
    else if isLineBreak c then [] :: lines r else onFirst c (lines r) := by
  by_cases hpair : c = '\r' ∧ r.head? = some '\n'
  · rw [if_pos hpair]
    obtain ⟨rfl, hhead⟩ := hpair
    obtain ⟨t, rfl⟩ := List.head?_eq_some_iff.1 hhead
    rw [lines_return_newline, lines_newline]
  · rw [if_neg hpair, lines_cons fun t hc hr => hpair ⟨hc, by rw [hr]; rfl⟩]

theorem head?_lines (h : r ≠ []) :
    (lines r).head? = some (r.takeWhile fun c => !isLineBreak c) := by
  induction r with
  | nil => exact absurd rfl h
  | cons c r ih =>
    rw [lines_step]
    split
    · rename_i hpair
      obtain ⟨t, rfl⟩ := List.head?_eq_some_iff.1 hpair.2
      rw [ih (by simp), hpair.1]
      rfl
    split
    · rename_i hc
      simp [hc]
    · rename_i hc
      cases r with
      | nil => simp [lines, onFirst, hc]
      | cons d r =>
        obtain ⟨ls, hls⟩ := List.head?_eq_some_iff.1 (ih (by simp))
        simp [hls, onFirst, hc]

theorem onFirst_append {ls : List (List Char)} (h : ls ≠ []) (ms : List (List Char)) :
    onFirst c (ls ++ ms) = onFirst c ls ++ ms := by
  obtain ⟨l, ls, rfl⟩ := List.exists_cons_of_ne_nil h
  rfl

theorem lines_ne_nil (h : r ≠ []) : lines r ≠ [] := by
  obtain ⟨c, r, rfl⟩ := List.exists_cons_of_ne_nil h
  exact List.length_pos_iff.1 (length_lines_cons c r).1

theorem lines_append_newline (a b : List Char) :
    lines (a ++ '\n' :: b) = lines (a ++ ['\n']) ++ lines b := by
  induction a with
  | nil => rw [List.nil_append, List.nil_append, lines_newline, lines_newline]; rfl
  | cons c a ih =>
    have hhead : (a ++ '\n' :: b).head? = (a ++ ['\n']).head? := by cases a <;> rfl
    rw [List.cons_append, List.cons_append, lines_step, lines_step, hhead, ih]
    split
    · rfl
    split
    · rfl
    · exact onFirst_append (lines_ne_nil (by simp)) _

theorem length_onFirst_of_ne_nil {ls : List (List Char)} (h : ls ≠ []) :
    (onFirst c ls).length = ls.length := by
  obtain ⟨l, ls, rfl⟩ := List.exists_cons_of_ne_nil h
  rfl

/-- There are as many lines as line feeds if and only if there is no other line break. -/
theorem length_lines_snoc (a : List Char) : a.count '\n' + 1 ≤ (lines (a ++ ['\n'])).length ∧
    ((lines (a ++ ['\n'])).length = a.count '\n' + 1 ↔ PlainlyBroken a) := by
  induction a with
  | nil => simp [lines_newline, lines, PlainlyBroken]
  | cons c a ih =>
    have hhead : (a ++ ['\n']).head? = some '\n' ↔ ∀ d ∈ a.head?, d = '\n' := by
      cases a <;> simp
    rw [List.cons_append, lines_step, PlainlyBroken]
    simp only [hhead]
    split
    · rename_i hpair
      have hcount : (c :: a).count '\n' = a.count '\n' := by simp [hpair.1]
      rw [hcount, ih.2]
      exact ⟨ih.1, (and_iff_right fun _ => Or.inr hpair).symm⟩
    rename_i hpair
    split
    · rename_i hbreak
      by_cases hc : c = '\n'
      · have hcount : (c :: a).count '\n' = a.count '\n' + 1 := by simp [hc]
        rw [hcount, List.length_cons, ← ih.2]
        simp only [hc, true_or, implies_true, true_and]
        omega
      · have hcount : (c :: a).count '\n' = a.count '\n' := List.count_cons_of_ne hc
        have hstray : ¬ (isLineBreak c = true → c = '\n' ∨ c = '\r' ∧ ∀ d ∈ a.head?, d = '\n') :=
          fun h => (h hbreak).elim hc hpair
        rw [hcount, List.length_cons, iff_false_right fun h => hstray h.1]
        omega
    · rename_i hbreak
      have hc : c ≠ '\n' := fun hc => hbreak (hc ▸ by decide)
      have hcount : (c :: a).count '\n' = a.count '\n' := List.count_cons_of_ne hc
      rw [hcount, length_onFirst_of_ne_nil (lines_ne_nil (by simp)), ih.2]
      exact ⟨ih.1, (and_iff_right fun h => absurd h hbreak).symm⟩

/-! ## Plain breaks -/

theorem plainlyBroken_append_newline (a b : List Char) :
    PlainlyBroken (a ++ '\n' :: b) ↔ PlainlyBroken a ∧ PlainlyBroken b := by
  induction a with
  | nil => simp [PlainlyBroken]
  | cons c a ih =>
    have hhead : (∀ d ∈ (a ++ '\n' :: b).head?, d = '\n') ↔ ∀ d ∈ a.head?, d = '\n' := by
      cases a <;> simp
    rw [List.cons_append, PlainlyBroken, PlainlyBroken, hhead, ih, and_assoc]

/-- Up to its first break, a line is all but its carriage return, if it has no other break. -/
theorem takeWhile_eq_withoutReturn (h : '\n' ∉ w) :
    w.takeWhile (fun c => !isLineBreak c) = withoutReturn w ↔ PlainlyBroken w := by
  induction w with
  | nil => simp [withoutReturn, PlainlyBroken]
  | cons c w ih =>
    obtain ⟨hc, hw⟩ := not_or.1 (mt List.mem_cons.2 h)
    have ih := ih hw
    cases w with
    | nil =>
      by_cases hbreak : isLineBreak c = true
      · by_cases hreturn : c = '\r'
        · simp [withoutReturn, PlainlyBroken, hreturn, isLineBreak]
        · simp [withoutReturn, PlainlyBroken, hbreak, hreturn, Ne.symm hc]
      · have hreturn : c ≠ '\r' := fun hr => hbreak (hr ▸ by decide)
        simp [withoutReturn, PlainlyBroken, hbreak, hreturn]
    | cons d w =>
      have hrest : withoutReturn (c :: d :: w) = c :: withoutReturn (d :: w) := by
        unfold withoutReturn
        rw [List.getLast?_cons_cons]
        split <;> rfl
      have hd : d ≠ '\n' := fun heq => hw (heq ▸ List.mem_cons_self)
      rw [hrest, PlainlyBroken, ← ih]
      by_cases hbreak : isLineBreak c = true
      · simp [hbreak, Ne.symm hc, hd]
      · simp [hbreak]

/-! ## The line of a place -/

def OfWholeLines (a : List Char) : Prop := a = [] ∨ ∃ b, a = b ++ ['\n']

namespace OfWholeLines

theorem lines_append (ha : OfWholeLines a) (r : List Char) : lines (a ++ r) = lines a ++ lines r := by
  rcases ha with rfl | ⟨b, rfl⟩
  · rfl
  · rw [List.append_assoc, List.singleton_append, lines_append_newline]

theorem length_lines (ha : OfWholeLines a) : a.count '\n' ≤ (lines a).length ∧
    ((lines a).length = a.count '\n' ↔ PlainlyBroken a) := by
  rcases ha with rfl | ⟨b, rfl⟩
  · simp [lines, PlainlyBroken]
  · rw [List.count_append, plainlyBroken_append_newline]
    exact ⟨(length_lines_snoc b).1, (length_lines_snoc b).2.trans (and_iff_left trivial).symm⟩

theorem plainlyBroken_append (ha : OfWholeLines a) (r : List Char) :
    PlainlyBroken (a ++ r) ↔ PlainlyBroken a ∧ PlainlyBroken r := by
  rcases ha with rfl | ⟨b, rfl⟩
  · exact (and_iff_right trivial).symm
  · rw [List.append_assoc, List.singleton_append, plainlyBroken_append_newline,
      plainlyBroken_append_newline, and_iff_left (show PlainlyBroken [] from trivial)]

/-- The line behind as many line feeds is the line with this number, if the text up to its end is
plainly broken. If it is not so ahead of the line, the line with the number stands further ahead. -/
theorem getElem?_lines {l : List Char} (ha : OfWholeLines a) (hw : '\n' ∉ w)
    (hr : ∀ c ∈ r.head?, c = '\n') (hl : (lines (a ++ (w ++ r)))[a.count '\n']? = some l) :
    l = withoutReturn w ↔ PlainlyBroken (a ++ w) ∨
      ¬ PlainlyBroken a ∧ (lines a)[a.count '\n']? = some (withoutReturn w) := by
  obtain ⟨hle, hplain⟩ := ha.length_lines
  rw [ha.lines_append] at hl
  rw [ha.plainlyBroken_append]
  by_cases hp : PlainlyBroken a
  · rw [List.getElem?_append_right (hplain.2 hp).le, hplain.2 hp, Nat.sub_self,
      ← List.head?_eq_getElem?] at hl
    have hne : w ++ r ≠ [] := by
      intro h
      rw [h] at hl
      cases hl
    have hfirst : l = w.takeWhile fun c => !isLineBreak c := by
      rw [head?_lines hne] at hl
      obtain rfl := Option.some.inj hl
      cases r with
      | nil => rw [List.append_nil]
      | cons d r =>
        obtain rfl : d = '\n' := hr d rfl
        rw [List.takeWhile_append, List.takeWhile_cons_of_neg (by decide), List.append_nil]
        split
        · rename_i hlen
          exact ((List.takeWhile_prefix _).eq_of_length hlen).symm
        · rfl
    rw [hfirst, takeWhile_eq_withoutReturn hw]
    simp [hp]
  · have hlt : a.count '\n' < (lines a).length := lt_of_le_of_ne hle fun h => hp (hplain.1 h.symm)
    rw [List.getElem?_append_left hlt] at hl
    simp [hp, hl]

end OfWholeLines

section
variable (text : List Char) (k : Nat)

theorem ofWholeLines_aheadOfLine : OfWholeLines (aheadOfLine text k) := by
  refine or_iff_not_imp_left.2 fun h => ⟨(aheadOfLine text k).dropLast, ?_⟩
  have hlast : (aheadOfLine text k).getLast h = '\n' := by
    simpa [aheadOfLine] using List.rdropWhile_last_not (· ≠ '\n') (text.take k) h
  rw [← hlast, List.dropLast_append_getLast]

theorem newline_not_mem_lineAround : '\n' ∉ lineAround text k := by
  intro h
  rcases List.mem_append.1 h with h | h
  · simpa using List.mem_rtakeWhile_imp h
  · simpa using List.mem_takeWhile_imp h

theorem count_aheadOfLine : (aheadOfLine text k).count '\n' = (text.take k).count '\n' := by
  have hnone : ((text.take k).rtakeWhile (· ≠ '\n')).count '\n' = 0 :=
    List.count_eq_zero.2 fun h => newline_not_mem_lineAround text k (List.mem_append_left _ h)
  rw [aheadOfLine, ← Nat.add_zero (List.count _ _), ← hnone, ← List.count_append,
    List.rdropWhile_append_rtakeWhile]

theorem append_lineAround :
    ∃ r, text = aheadOfLine text k ++ (lineAround text k ++ r) ∧ ∀ c ∈ r.head?, c = '\n' := by
  refine ⟨(text.drop k).dropWhile (· ≠ '\n'), ?_, fun c hc => ?_⟩
  · rw [aheadOfLine, lineAround, List.append_assoc, List.takeWhile_append_dropWhile,
      ← List.append_assoc, List.rdropWhile_append_rtakeWhile, List.take_append_drop]
  · have hfirst := List.head?_dropWhile_not (· ≠ '\n') (text.drop k)
    rw [hc] at hfirst
    simpa using hfirst

end

end Text

/-! ## Diagnostics of a run -/

/-- The source line of a diagnostic, if it has one, is the line with the number of its start. -/
def Diagnostic.QuotesLine (source : String) (d : Diagnostic) : Prop :=
  ∀ l, d.sourceLine = some l →
    ∃ s, d.span = some s ∧ Text.line? (sourceLines source) s.start.line = some l

theorem Diagnostic.quotesLine_attach {source : String} {d : Diagnostic} (h : d.QuotesLine source) :
    (d.attach (Text.line? (sourceLines source))).QuotesLine source := by
  unfold attach
  split
  · rename_i s _ hs
    exact fun l hl => ⟨s, hs, hl⟩
  · exact h

section
variable {mode : Mode} {file : Option String} {source : String} {scope : Nat} {f : Forest}
  {o : Outcome}

theorem RunsTo.quotesLine (h : RunsTo mode file source scope f o) :
    ∀ d ∈ o.diagnostics, d.QuotesLine source := by
  refine h.forall_diagnostics (fun d => Diagnostic.quotesLine_attach) (fun d hd l hl => ?_)
    (fun d _ hd l hl => ?_) fun n o₁ hn ho d hd l hl => ?_
  · obtain ⟨-, -, -, -, hquote, -⟩ := Scan.ofText_quotes _ .ahead (.first file) source.toList d hd
    rw [← hquote] at hl
    exact Option.bind_eq_some_iff.1 hl
  -- What is read or evaluated is reported with no source line.
  · obtain ⟨fault, s, rfl, -⟩ := Node.ofTokens_fault hd
    cases hl
  · obtain ⟨fault, s, rfl, -⟩ := execute_scripted hn.isScript (read_spans hn.2) ho d hd
    cases hl

/-- A diagnostic quotes the line that it begins on, with no carriage return at its end, if and only if
no break but a line feed or such a carriage return stands in the source up to the end of this line,
or one stands ahead of the line and the line quoted instead has the same characters. -/
theorem quoted_line_iff {d : Diagnostic} {l : String}
    (ho : (run mode file source scope f).outcome = .ok o) (hd : d ∈ o.diagnostics)
    (hl : d.sourceLine = some l) :
    ∃ s ahead line, d.span = some s ∧
      ahead = Text.aheadOfLine source.toList s.start.offset.toNat ∧
      line = Text.lineAround source.toList s.start.offset.toNat ∧
      (l.toList = Text.withoutReturn line ↔ Text.PlainlyBroken (ahead ++ line) ∨
        ¬ Text.PlainlyBroken ahead ∧
          (Text.lines ahead)[ahead.count '\n']? = some (Text.withoutReturn line)) := by
  obtain ⟨s, hspan, hline⟩ := (run_runsTo ho).quotesLine d hd l hl
  obtain ⟨s', hspan', hin, -⟩ := (run_runsTo ho).standsIn d hd
  obtain rfl : s = s' := Option.some.inj (hspan.symm.trans hspan')
  refine ⟨s, _, _, hspan, rfl, rfl, ?_⟩
  generalize hk : s.start.offset.toNat = k
  have hnumber := hin.start.line
  rw [hk, ← Text.count_aheadOfLine] at hnumber
  have hindex : (1 + ((Text.aheadOfLine source.toList k).count '\n' : Int) - 1).toNat
      = (Text.aheadOfLine source.toList k).count '\n' := by omega
  rw [hnumber, Text.line?, if_pos (by omega), hindex, sourceLines, List.getElem?_map] at hline
  obtain ⟨m, hm, rfl⟩ := Option.map_eq_some_iff.1 hline
  obtain ⟨r, htext, hr⟩ := Text.append_lineAround source.toList k
  rw [String.toList_ofList]
  refine (Text.ofWholeLines_aheadOfLine source.toList k).getElem?_lines
    (Text.newline_not_mem_lineAround source.toList k) hr ?_
  rw [← htext, hm]

end

/-- A name that nothing declares, behind a blank line and ahead of one, each with a carriage return. -/
theorem undeclared_name_quoted :
    ∃ o d l, (run .strict none "\r\n<trans>x</trans>\r\n\r\n" 0 .start).outcome = .ok o ∧
      d ∈ o.diagnostics ∧ d.sourceLine = some l ∧ l = "<trans>x</trans>" ∧
      ∃ s ahead line, d.span = some s ∧
        ahead = Text.aheadOfLine "\r\n<trans>x</trans>\r\n\r\n".toList s.start.offset.toNat ∧
        line = Text.lineAround "\r\n<trans>x</trans>\r\n\r\n".toList s.start.offset.toNat ∧
        (l.toList = Text.withoutReturn line ↔ Text.PlainlyBroken (ahead ++ line) ∨
          ¬ Text.PlainlyBroken ahead ∧
            (Text.lines ahead)[ahead.count '\n']? = some (Text.withoutReturn line)) := by
  have hrun : (run .strict none "\r\n<trans>x</trans>\r\n\r\n" 0 .start).outcome.toOption.map
      (·.diagnostics.map (·.sourceLine)) = some [some "<trans>x</trans>"] := by decide +kernel
  obtain ⟨o, ho, hds⟩ := Option.map_eq_some_iff.1 hrun
  obtain ⟨d, hd, hl⟩ : ∃ d ∈ o.diagnostics, d.sourceLine = some "<trans>x</trans>" :=
    List.mem_map.1 (hds ▸ List.mem_singleton_self _)
  have ho := eq_ok_of_toOption ho
  exact ⟨o, d, _, ho, hd, hl, rfl, quoted_line_iff ho hd hl⟩

/-- A form feed ends a line that the scanner does not count, and the line quoted is empty. -/
theorem form_feed_quotes_other_line :
    ∃ o d l s, (run .strict none "\x0c\n<trans>x</trans>" 0 .start).outcome = .ok o ∧
      d ∈ o.diagnostics ∧ d.sourceLine = some l ∧ d.span = some s ∧
      l.toList ≠ Text.withoutReturn
        (Text.lineAround "\x0c\n<trans>x</trans>".toList s.start.offset.toNat) := by
  have hrun : (run .strict none "\x0c\n<trans>x</trans>" 0 .start).outcome.toOption.map
      (·.diagnostics.map fun d => (d.sourceLine, d.span.map (·.start.offset)))
        = some [(some "", some 9)] := by decide +kernel
  obtain ⟨o, ho, hds⟩ := Option.map_eq_some_iff.1 hrun
  obtain ⟨d, hd, hplace⟩ : ∃ d ∈ o.diagnostics,
      (d.sourceLine, d.span.map (·.start.offset)) = (some "", some 9) :=
    List.mem_map.1 (hds ▸ List.mem_singleton_self _)
  obtain ⟨hl, hstart⟩ := Prod.mk.inj hplace
  obtain ⟨s, hspan, hoffset⟩ := Option.map_eq_some_iff.1 hstart
  refine ⟨o, d, "", s, eq_ok_of_toOption ho, hd, hl, hspan, ?_⟩
  rw [hoffset]
  decide +kernel

end TemplateScript
