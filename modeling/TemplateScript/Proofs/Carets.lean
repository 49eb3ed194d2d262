import Mathlib.Data.List.Basic
import TemplateScript.Proofs.QuotedLines

/-!
# Carets under source lines

A diagnostic that knows its source line shows it with a row of carets below. The margin ahead of the
line grows with the digits of the line number, and that ahead of the carets does not: up to line 999
the first caret stands under the character where the span starts, and from line 1000 on it does not.
-/

namespace TemplateScript.Diagnostic

/-- The rendered text has these two rows, one below the other, between the headline with a bar and
the hints. -/
structure Shows (d : Diagnostic) (above below : String) : Prop where
  text : d.render true = "\n".intercalate
    ([d.headline, "  |", above, below] ++ d.hints.map ("    = hint: " ++ ·))
  above_row : '\n' ∉ above.toList
  below_row : '\n' ∉ below.toList

def margin (s : Span) : String := Text.padLeft 3 (toString s.start.line) ++ " | "

section
variable {d : Diagnostic} {s : Span} {line : String}

/-! ## The row of the source line -/

theorem toList_lineNumber {n : Int} (h : 0 ≤ n) :
    (toString n).toList = Nat.toDigits 10 n.toNat := by
  obtain ⟨k, rfl⟩ := Int.eq_ofNat_of_zero_le h
  exact Nat.toList_repr

theorem length_margin (h : 0 ≤ s.start.line) : (margin s).length = 6 ↔ s.start.line < 1000 := by
  have hdigits : (Nat.toDigits 10 s.start.line.toNat).length ≤ 3 ↔ s.start.line.toNat < 10 ^ 3 :=
    Nat.length_toDigits_le_iff (by decide) (by decide)
  have hnumber : (toString s.start.line).length = (Nat.toDigits 10 s.start.line.toNat).length := by
    rw [← String.length_toList, toList_lineNumber h]
  have hbar : " | ".length = 3 := rfl
  have hlength : (margin s).length = 3 - (toString s.start.line).length
      + (toString s.start.line).length + 3 := by
    rw [margin, Text.padLeft, String.length_append, String.length_append, Text.blanks,
      String.length_ofList, List.length_replicate, hbar]
  rw [hnumber] at hlength
  omega

theorem newline_not_mem_margin (h : 0 ≤ s.start.line) : '\n' ∉ (margin s).toList := by
  have hnumber : '\n' ∉ (toString s.start.line).toList := by
    rw [toList_lineNumber h]
    exact fun hmem => absurd (Nat.isDigit_of_mem_toDigits (by decide) (by decide) hmem) (by decide)
  simp only [margin, Text.padLeft, Text.blanks, String.toList_append, List.mem_append, hnumber]
  simp

/-! ## The row of carets -/

def caretCount (s : Span) (line : String) : Nat :=
  (max 1 ((if s.start.line = s.stop.line then s.stop.column else line.length + 1)
    - s.start.column)).toNat

theorem toList_caretRow (s : Span) (line : String) : (caretRow s line).toList =
    "    | ".toList ++ List.replicate (s.start.column - 1).toNat ' '
      ++ List.replicate (caretCount s line) '^' := by
  simp [caretRow, caretCount, Text.blanks]

theorem caret_not_mem_ahead (k : Nat) : '^' ∉ "    | ".toList ++ List.replicate k ' ' := by
  simp

theorem caretCount_pos (s : Span) (line : String) : 0 < caretCount s line := by
  unfold caretCount
  omega

theorem idxOf_caretRow (s : Span) (line : String) :
    (caretRow s line).toList.idxOf '^' = 6 + (s.start.column - 1).toNat := by
  obtain ⟨n, hn⟩ := Nat.exists_eq_add_one.2 (caretCount_pos s line)
  rw [toList_caretRow, List.idxOf_append_of_notMem (caret_not_mem_ahead _), hn,
    List.replicate_succ, List.idxOf_cons_self, List.length_append, List.length_replicate]
  rfl

theorem count_caretRow (s : Span) (line : String) :
    (caretRow s line).toList.count '^' = caretCount s line := by
  rw [toList_caretRow, List.count_append, List.count_eq_zero_of_not_mem (caret_not_mem_ahead _),
    List.count_replicate_self, Nat.zero_add]

theorem newline_not_mem_caretRow (s : Span) (line : String) :
    '\n' ∉ (caretRow s line).toList := by
  simp [toList_caretRow]

theorem caretCount_of_one_line (h : s.start.line = s.stop.line)
    (hne : s.start.column < s.stop.column) :
    (caretCount s line : Int) = s.stop.column - s.start.column := by
  rw [caretCount, if_pos h]
  omega

theorem caretCount_of_lines (h : s.start.line ≠ s.stop.line) (hcolumn : 1 ≤ s.start.column) :
    caretCount s line = max 1 (line.toList.drop (s.start.column - 1).toNat).length := by
  rw [caretCount, if_neg h, List.length_drop, String.length_toList]
  omega

/-! ## Both rows -/

theorem shows_excerpt (hspan : d.span = some s) (hline : d.sourceLine = some line)
    (hnumber : 0 ≤ s.start.line) (hfree : '\n' ∉ line.toList) :
    d.Shows (margin s ++ line) (caretRow s line) where
  text := by simp [render, rows, hspan, hline, excerpt, margin]
  above_row := by simp [newline_not_mem_margin hnumber, hfree]
  below_row := newline_not_mem_caretRow s line

end

/-- The row above the carets ends in the source line, and the carets are as many as the characters of
the span on it. The first of them stands under the character where the span starts, or where it
would stand, if and only if the line number has no more than three digits. -/
theorem carets_under_span_iff {d : Diagnostic} {s : Span} {line : String}
    (hspan : d.span = some s) (hline : d.sourceLine = some line) (hnumber : 1 ≤ s.start.line)
    (hcolumn : 1 ≤ s.start.column) (hfree : '\n' ∉ line.toList) :
    ∃ ahead below, d.Shows (ahead ++ line) below ∧
      (below.toList.idxOf '^' = ahead.length + (s.start.column - 1).toNat ↔
        s.start.line < 1000) ∧
      (s.start.line = s.stop.line → s.start.column < s.stop.column →
        (below.toList.count '^' : Int) = s.stop.column - s.start.column) ∧
      (s.start.line ≠ s.stop.line →
        below.toList.count '^' = max 1 (line.toList.drop (s.start.column - 1).toNat).length) := by
  have hnonneg : 0 ≤ s.start.line := Int.le_trans (by decide) hnumber
  refine ⟨margin s, caretRow s line, shows_excerpt hspan hline hnonneg hfree, ?_, ?_, ?_⟩
  · rw [idxOf_caretRow, ← length_margin hnonneg]
    omega
  · intro hone hne
    rw [count_caretRow, caretCount_of_one_line hone hne]
  · intro hlines
    rw [count_caretRow, caretCount_of_lines hlines hcolumn]

def twoLines : Span := ⟨⟨999, 9, 2006, none⟩, ⟨1000, 4, 2019, none⟩⟩

def declaredTwice : Diagnostic :=
  ((Fault.alreadyDeclared "n").diagnoseAt (some twoLines)).attach fun _ => some "let n=1;const n="

theorem carets_under_two_lines :
    1 ≤ twoLines.start.line ∧ 1 ≤ twoLines.start.column ∧ twoLines.start.line < 1000 ∧
      ∃ ahead below, declaredTwice.Shows (ahead ++ "let n=1;const n=") below ∧
        below.toList.idxOf '^' = ahead.length + 8 ∧ below.toList.count '^' = 8 := by
  have hline : declaredTwice.sourceLine = some "let n=1;const n=" := rfl
  obtain ⟨ahead, below, hshows, hplace, -, hcount⟩ :=
    carets_under_span_iff (s := twoLines) rfl hline (by decide) (by decide) (by decide)
  exact ⟨by decide, by decide, by decide, ahead, below, hshows, hplace.2 (by decide),
    hcount (by decide)⟩

end Diagnostic

/-! ## A script on line 1000 -/

theorem Location.after_newlines {l : Location} (h : l.column = 1) (n : Nat) :
    l.after (List.replicate n '\n') = { l with line := l.line + n, offset := l.offset + n } := by
  induction n generalizing l with
  | zero => simp
  | succ n ih =>
    rw [List.replicate_succ, Location.after_cons, ih (by simp [Location.step])]
    simp only [Location.step, if_true, Nat.cast_add, Nat.cast_one, h]
    congr 1 <;> omega

theorem Scan.ofText_newlines (line? : Int → Option String) (l : Location) (n : Nat)
    (r : List Char) : ofText line? .ahead l (List.replicate n '\n' ++ r)
      = ofText line? .ahead (l.after (List.replicate n '\n')) r := by
  induction n generalizing l with
  | zero => rfl
  | succ n ih =>
    have hnext : ∀ r, Piece.next .ahead '\n' r = ⟨.layout, ['\n'], r⟩ := fun r => rfl
    rw [List.replicate_succ, List.cons_append, ofText_cons (by simp [hnext]), hnext]
    exact ih _

theorem Text.lines_newlines (n : Nat) (r : List Char) :
    lines (List.replicate n '\n' ++ r) = List.replicate n [] ++ lines r := by
  induction n with
  | zero => rfl
  | succ n ih =>
    rw [List.replicate_succ, List.cons_append, lines_newline, ih]
    rfl

def scriptBehind (blank : Nat) : String :=
  String.ofList (List.replicate blank '\n') ++ "<trans>x</trans>"

theorem toList_scriptBehind (n : Nat) :
    (scriptBehind n).toList = List.replicate n '\n' ++ "<trans>x</trans>".toList := by
  simp [scriptBehind]

theorem line_scriptBehind (n : Nat) :
    Text.line? (sourceLines (scriptBehind n)) (n + 1) = some "<trans>x</trans>" := by
  have hlines : sourceLines (scriptBehind n)
      = List.replicate n (String.ofList []) ++ ["<trans>x</trans>"] := by
    rw [sourceLines, toList_scriptBehind, Text.lines_newlines, List.map_append, List.map_replicate]
    rfl
  have hindex : ((n : Int) + 1 - 1).toNat = n := by omega
  rw [Text.line?, if_pos (by omega), hindex, hlines, List.getElem?_append_right (by simp)]
  simp

theorem scan_scriptBehind (n : Nat) : scan (scriptBehind n) none
    = Scan.ofText (Text.line? (sourceLines (scriptBehind n))) .ahead ⟨n + 1, 1, n, none⟩
        "<trans>x</trans>".toList := by
  rw [scan, toList_scriptBehind, Scan.ofText_newlines, Location.after_newlines rfl]
  simp [Location.first, Int.add_comm]

def farName : Span := ⟨⟨1000, 8, 1006, none⟩, ⟨1000, 9, 1007, none⟩⟩

theorem scriptBehind_evaluates : Evaluates (scriptBehind 999) none
    (.program (some farName) [.identifier (some farName) "x"]) := by
  have htokens : (scan (scriptBehind 999) none).tokens =
      [⟨.openTag, "<trans>", ⟨⟨1000, 1, 999, none⟩, ⟨1000, 8, 1006, none⟩⟩⟩,
        ⟨.identifier, "x", farName⟩,
        ⟨.closeTag, "</trans>", ⟨⟨1000, 9, 1007, none⟩, ⟨1000, 17, 1015, none⟩⟩⟩,
        .endAt ⟨1000, 17, 1015, none⟩] := by
    rw [scan_scriptBehind]
    decide +kernel
  refine ⟨?_, by rw [htokens]; rfl⟩
  rw [scan_scriptBehind]
  decide +kernel

def farFault : Diagnostic :=
  { (Fault.undeclared "x").diagnoseAt (some farName) with sourceLine := some "<trans>x</trans>" }

theorem run_scriptBehind :
    ∃ o, (run .strict none (scriptBehind 999) 0 .start).outcome = .ok o ∧
      o.diagnostics = [farFault] := by
  have hread : (execute .strict 0 (.program (some farName) [.identifier (some farName) "x"])
      .start).outcome.toOption.map (·.diagnostics)
      = some [(Fault.undeclared "x").diagnoseAt (some farName)] := by decide +kernel
  obtain ⟨o, ho, hds⟩ := Option.map_eq_some_iff.1 hread
  have hscan : (scan (scriptBehind 999) none).journal.diagnostics = [] := by
    rw [scan_scriptBehind]
    decide +kernel
  have hattach : ((Fault.undeclared "x").diagnoseAt (some farName)).attach
      (Text.line? (sourceLines (scriptBehind 999))) = farFault := by
    have hline : Text.line? (sourceLines (scriptBehind 999)) 1000 = some "<trans>x</trans>" :=
      line_scriptBehind 999
    rw [farFault, ← hline]
    rfl
  refine ⟨o.behind (scan (scriptBehind 999) none) (Text.line? (sourceLines (scriptBehind 999))),
    ?_, ?_⟩
  · rw [run_evaluates scriptBehind_evaluates, Run.outcome_behind, eq_ok_of_toOption ho]
    rfl
  · rw [Outcome.behind_diagnostics, hscan, hds]
    simp [hattach]

/-- On line 1000 the caret stands one character ahead of the name that it is meant for. -/
theorem Diagnostic.caret_misses_far_name :
    ∃ o d, (run .strict none (scriptBehind 999) 0 .start).outcome = .ok o ∧ o.diagnostics = [d] ∧
      d.span = some farName ∧ d.sourceLine = some "<trans>x</trans>" ∧
      d.Shows "1000 | <trans>x</trans>" "    |        ^" ∧
      "1000 | <trans>x</trans>".toList[14]? = some 'x' ∧ "    |        ^".toList.idxOf '^' = 13 := by
  obtain ⟨o, ho, hds⟩ := run_scriptBehind
  have hshows : farFault.Shows (margin farName ++ "<trans>x</trans>")
      (caretRow farName "<trans>x</trans>") := shows_excerpt rfl rfl (by decide) (by decide)
  have habove : margin farName ++ "<trans>x</trans>" = "1000 | <trans>x</trans>" := by decide
  have hbelow : caretRow farName "<trans>x</trans>" = "    |        ^" := by decide
  rw [habove, hbelow] at hshows
  exact ⟨o, farFault, ho, hds, rfl, rfl, hshows, by decide, by decide⟩

end TemplateScript
