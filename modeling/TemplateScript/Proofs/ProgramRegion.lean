import TemplateScript.Proofs.Conformance
import TemplateScript.Proofs.ReaderFaces
import TemplateScript.Proofs.RunOutcome

/-!
# The region of a program

What is read of a token list is the tokens of its program, and the token that ends them. Where the
list has tags, neither depends on what stands ahead of the first open tag or behind the close tag,
and lists of the same faces are read alike.
-/

namespace TemplateScript

/-- The token that ends a program; behind an open tag there may be none. -/
def programStop? (ts : List Token) : Option Token :=
  if ts.any (·.kind = .openTag) then
    ((ts.dropWhile (·.kind ≠ .openTag)).tail.dropWhile (·.kind ≠ .closeTag)).head?
  else ts.getLast?

/-- The first that is not taken stands right behind those that are. -/
theorem takeWhile_snoc_front {p : Token → Bool} {us : List Token} {stop : Token}
    (h : (us.dropWhile p).head? = some stop) :
    us.takeWhile p ++ [stop] <+: us ∧ p stop = false := by
  obtain ⟨after, hafter⟩ := List.head?_eq_some_iff.1 h
  refine ⟨⟨after, ?_⟩, ?_⟩
  · rw [List.append_assoc, List.singleton_append, ← hafter, List.takeWhile_append_dropWhile]
  · have hnot := List.head?_dropWhile_not p us
    rw [h] at hnot
    simpa using hnot

/-- A program and the token that ends it stand in this order. -/
theorem program_sublist {ts : List Token} {stop : Token} (h : programStop? ts = some stop) :
    (programTokens ts ++ [stop]).Sublist ts := by
  unfold programStop? at h
  unfold programTokens
  split at h
  · rename_i hany
    rw [if_pos hany]
    have hfront := (takeWhile_snoc_front h).1
    exact hfront.sublist.trans ((List.tail_sublist _).trans (List.dropWhile_sublist _))
  · rename_i hany
    obtain ⟨us, rfl⟩ := List.getLast?_eq_some_iff.1 h
    rw [if_neg hany]
    simp

namespace Cursor

theorem stop_of_region? {ts : List Token} {pos : Nat} {stop? : Option Nat}
    (h : region? ts = some (pos, stop?)) : programStop? ts = stop?.bind fun i => ts[i]? := by
  obtain ⟨i, hi, hij⟩ := Option.map_eq_some_iff.1 h
  obtain ⟨rfl, rfl⟩ := Prod.mk.inj hij
  obtain ⟨hany, hbehind⟩ := behind_openTag hi
  rw [programStop?, if_pos hany, hbehind, List.dropWhile_eq_drop_findIdx_not]
  cases hj : (ts.drop (i + 1)).findIdx? (·.kind = .closeTag) with
  | none =>
    have hclose := List.findIdx?_eq_none_iff_findIdx_eq.1 hj
    rw [Option.map_none, Option.bind_none]
    simp only [ne_eq, decide_not, Bool.not_not, hclose, List.drop_length, List.head?_nil]
  | some j =>
    obtain ⟨-, hclose⟩ := List.findIdx?_eq_some_iff_findIdx_eq.1 hj
    simp [hclose]

theorem enter_of_stop {ts : List Token} {last stop : Token} (hlast : ts.getLast? = some last)
    (ha : last.isAbortMark = false) (hstop : programStop? ts = some stop) :
    ∃ c, (ofTokens ts).enter = .ok c ∧ c.tokens[c.stop]? = some stop := by
  simp only [ofTokens, enter, hlast, ha, Bool.false_eq_true, if_false]
  cases hr : region? ts with
  | none =>
    have hany : ts.any (·.kind = .openTag) = false := by simpa [region?] using hr
    rw [programStop?, hany, if_neg Bool.false_ne_true] at hstop
    refine ⟨_, rfl, ?_⟩
    rw [← hstop, List.getLast?_eq_getElem?]
  | some r =>
    obtain ⟨pos, stop?⟩ := r
    rw [stop_of_region? hr] at hstop
    cases stop? with
    | none => cases hstop
    | some i => exact ⟨_, rfl, hstop⟩

theorem enter_of_unclosed {ts : List Token} {last : Token} (hlast : ts.getLast? = some last)
    (ha : last.isAbortMark = false) (hstop : programStop? ts = none) :
    (ofTokens ts).enter = .error (.fault (Fault.missingCloseTag.diagnoseAt last.span)) := by
  simp only [ofTokens, enter, hlast, ha, Bool.false_eq_true, if_false]
  cases hr : region? ts with
  | none =>
    have hany : ts.any (·.kind = .openTag) = false := by simpa [region?] using hr
    rw [programStop?, hany, if_neg Bool.false_ne_true, hlast] at hstop
    cases hstop
  | some r =>
    obtain ⟨pos, stop?⟩ := r
    cases stop? with
    | none => rfl
    | some i =>
      rw [stop_of_region? hr, Option.bind_some, List.getElem?_eq_none_iff] at hstop
      exact absurd (region?_bounds hr).2 (Nat.not_lt.2 hstop)

end Cursor

namespace Node

def ofProgram (stop : Token) (ts : List Token) : Except ParseFailure Node :=
  ((Grammar.program : Reader _) stop ts).1.mapError .fault

section
variable {ts : List Token} {last : Token}

theorem ofTokens_of_stop {stop : Token} (hlast : ts.getLast? = some last)
    (ha : last.isAbortMark = false) (hstop : programStop? ts = some stop) :
    ofTokens ts = ofProgram stop (programTokens ts) := by
  obtain ⟨c, hc, hs⟩ := Cursor.enter_of_stop hlast ha hstop
  have hts : ts ≠ [] := by
    rintro rfl
    cases hlast
  rw [ofTokens, ((Cursor.inRange_ofTokens hts).read_entered hc hs).1, Cursor.enter_rest hc,
    ofProgram]

theorem ofTokens_of_aborted (hlast : ts.getLast? = some last) (ha : last.isAbortMark = true) :
    ofTokens ts = .error (.fault (Fault.incompleteTokens.diagnoseAt last.span)) := by
  have henter : (Cursor.ofTokens ts).enter
      = .error (.fault (Fault.incompleteTokens.diagnoseAt last.span)) := by
    simp only [Cursor.ofTokens, Cursor.enter, hlast, ha, if_true]
  simp only [ofTokens, Cursor.read, henter]

theorem ofTokens_of_unclosed (hlast : ts.getLast? = some last) (ha : last.isAbortMark = false)
    (hstop : programStop? ts = none) :
    ofTokens ts = .error (.fault (Fault.missingCloseTag.diagnoseAt last.span)) := by
  simp only [ofTokens, Cursor.read, Cursor.enter_of_unclosed hlast ha hstop]

end

end Node

/-! ## Lists of the same faces -/

section
variable {ts us : List Token}

theorem faces_any (h : ts.map Token.face = us.map Token.face) (k : Token.Kind) :
    ts.any (·.kind = k) = us.any (·.kind = k) := by
  have hany : ∀ vs : List Token, vs.any (·.kind = k) = (vs.map Token.face).any (·.1 = k) := by
    intro vs
    rw [List.any_map]
    rfl
  rw [hany, hany, h]

theorem faces_dropWhile (h : ts.map Token.face = us.map Token.face) (k : Token.Kind) :
    (ts.dropWhile (·.kind ≠ k)).map Token.face = (us.dropWhile (·.kind ≠ k)).map Token.face := by
  have hdrop : ∀ vs : List Token, (vs.dropWhile (·.kind ≠ k)).map Token.face
      = (vs.map Token.face).dropWhile (·.1 ≠ k) := by
    intro vs
    rw [List.dropWhile_map]
    rfl
  rw [hdrop, hdrop, h]

theorem faces_takeWhile (h : ts.map Token.face = us.map Token.face) (k : Token.Kind) :
    (ts.takeWhile (·.kind ≠ k)).map Token.face = (us.takeWhile (·.kind ≠ k)).map Token.face := by
  have htake : ∀ vs : List Token, (vs.takeWhile (·.kind ≠ k)).map Token.face
      = (vs.map Token.face).takeWhile (·.1 ≠ k) := by
    intro vs
    rw [List.takeWhile_map]
    rfl
  rw [htake, htake, h]

theorem faces_tail (h : ts.map Token.face = us.map Token.face) :
    ts.tail.map Token.face = us.tail.map Token.face := by
  rw [List.map_tail, List.map_tail, h]

theorem faces_getLast? (h : ts.map Token.face = us.map Token.face) :
    ts.getLast?.map Token.face = us.getLast?.map Token.face := by
  rw [← List.getLast?_map, ← List.getLast?_map, h]

theorem faces_programTokens (h : ts.map Token.face = us.map Token.face) :
    (programTokens ts).map Token.face = (programTokens us).map Token.face := by
  unfold programTokens
  rw [faces_any h]
  split
  · exact faces_takeWhile (faces_tail (faces_dropWhile h _)) _
  · rw [List.map_dropLast, List.map_dropLast, h]

theorem faces_programStop? (h : ts.map Token.face = us.map Token.face) :
    (programStop? ts).map Token.face = (programStop? us).map Token.face := by
  unfold programStop?
  rw [faces_any h]
  split
  · have hrest := faces_dropWhile (faces_tail (faces_dropWhile h .openTag)) .closeTag
    rw [← List.head?_map, ← List.head?_map, hrest]
  · exact faces_getLast? h

end

inductive SameReading : Except ParseFailure Node → Except ParseFailure Node → Prop
  | ok {n m : Node} : n.unspanned = m.unspanned → SameReading (.ok n) (.ok m)
  | fault {d e : Diagnostic} : d.unplaced = e.unplaced →
      SameReading (.error (.fault d)) (.error (.fault e))

theorem sameReading_ofProgram {stop stop' : Token} {ts us : List Token}
    (hs : stop.face = stop'.face) (h : ts.map Token.face = us.map Token.face) :
    SameReading (Node.ofProgram stop ts) (Node.ofProgram stop' us) := by
  have hread := Grammar.faced_program.alike hs h
  unfold Node.ofProgram
  generalize (Grammar.program : Reader _) stop ts = x at hread
  generalize (Grammar.program : Reader _) stop' us = y at hread
  cases hread with
  | ok hnm _ => exact .ok hnm
  | error hde _ => exact .fault hde

/-- Two lists that have the program's tokens and their end alike are read alike. -/
theorem sameReading_ofTokens {ts us : List Token} {last last' : Token}
    (hts : ts.getLast? = some last) (hus : us.getLast? = some last')
    (ha : last.isAbortMark = false) (ha' : last'.isAbortMark = false)
    (hprogram : (programTokens ts).map Token.face = (programTokens us).map Token.face)
    (hstop : (programStop? ts).map Token.face = (programStop? us).map Token.face) :
    SameReading (Node.ofTokens ts) (Node.ofTokens us) := by
  cases hs : programStop? ts with
  | none =>
    rw [hs] at hstop
    have hs' : programStop? us = none := by simpa using hstop.symm
    rw [Node.ofTokens_of_unclosed hts ha hs, Node.ofTokens_of_unclosed hus ha' hs']
    exact .fault rfl
  | some stop =>
    rw [hs] at hstop
    obtain ⟨stop', hs', hface⟩ := Option.map_eq_some_iff.1 hstop.symm
    rw [Node.ofTokens_of_stop hts ha hs, Node.ofTokens_of_stop hus ha' hs']
    exact sameReading_ofProgram hface.symm hprogram

theorem isAbortMark_faces {t u : Token} (h : t.face = u.face) : t.isAbortMark = u.isAbortMark := by
  obtain ⟨hk, htext⟩ := Grammar.face_eq h
  simp only [Token.isAbortMark, hk, htext]

/-- Lists of the same faces are read alike. -/
theorem sameReading_of_faces {ts us : List Token} (h : ts.map Token.face = us.map Token.face)
    (hts : ts ≠ []) : SameReading (Node.ofTokens ts) (Node.ofTokens us) := by
  obtain ⟨last, hlast⟩ := Option.ne_none_iff_exists'.1 (mt List.getLast?_eq_none_iff.1 hts)
  have hlasts := faces_getLast? h
  rw [hlast] at hlasts
  obtain ⟨last', hlast', hface⟩ := Option.map_eq_some_iff.1 hlasts.symm
  have hmark := isAbortMark_faces hface
  cases ha : last.isAbortMark with
  | true =>
    rw [Node.ofTokens_of_aborted hlast ha, Node.ofTokens_of_aborted hlast' (hmark.trans ha)]
    exact .fault rfl
  | false =>
    exact sameReading_ofTokens hlast hlast' ha (hmark.trans ha) (faces_programTokens h)
      (faces_programStop? h)

/-! ## Lists with tags -/

section
variable {before us : List Token} {o : Token}

theorem dropWhile_untagged (hb : ∀ t ∈ before, t.kind ≠ .openTag) (ho : o.kind = .openTag) :
    (before ++ o :: us).dropWhile (·.kind ≠ .openTag) = o :: us := by
  rw [List.dropWhile_append_of_pos (by simpa using hb), List.dropWhile_cons_of_neg (by simp [ho])]

theorem programTokens_tagged (hb : ∀ t ∈ before, t.kind ≠ .openTag) (ho : o.kind = .openTag) :
    programTokens (before ++ o :: us) = us.takeWhile (·.kind ≠ .closeTag) := by
  have hany : (before ++ o :: us).any (·.kind = .openTag) = true := by simp [ho]
  rw [programTokens, if_pos hany, dropWhile_untagged hb ho, List.tail_cons]

theorem programStop?_tagged (hb : ∀ t ∈ before, t.kind ≠ .openTag) (ho : o.kind = .openTag) :
    programStop? (before ++ o :: us) = (us.dropWhile (·.kind ≠ .closeTag)).head? := by
  have hany : (before ++ o :: us).any (·.kind = .openTag) = true := by simp [ho]
  rw [programStop?, if_pos hany, dropWhile_untagged hb ho, List.tail_cons]

end

/-- Lists that are alike behind their first open tags are read alike. -/
theorem sameReading_tagged {before us us' : List Token} {o o' last last' : Token}
    (hb : ∀ t ∈ before, t.kind ≠ .openTag) (ho : o.kind = .openTag) (ho' : o'.kind = .openTag)
    (h : us.map Token.face = us'.map Token.face)
    (hlast : (before ++ o :: us).getLast? = some last) (hlast' : (o' :: us').getLast? = some last')
    (ha : last.isAbortMark = false) (ha' : last'.isAbortMark = false) :
    SameReading (Node.ofTokens (before ++ o :: us)) (Node.ofTokens (o' :: us')) := by
  have hnone : ∀ t ∈ ([] : List Token), t.kind ≠ .openTag := by simp
  refine sameReading_ofTokens hlast hlast' ha ha' ?_ ?_
  · rw [programTokens_tagged hb ho, ← List.nil_append (o' :: us'), programTokens_tagged hnone ho']
    exact faces_takeWhile h _
  · rw [programStop?_tagged hb ho, ← List.nil_append (o' :: us'), programStop?_tagged hnone ho',
      ← List.head?_map, ← List.head?_map, faces_dropWhile h]

/-- Between the first open tag and the first close tag behind it stands all that is read. -/
theorem Node.ofTokens_closed {before ts after : List Token} {o c last : Token}
    (hb : ∀ t ∈ before, t.kind ≠ .openTag) (ho : o.kind = .openTag)
    (hts : ∀ t ∈ ts, t.kind ≠ .closeTag) (hc : c.kind = .closeTag)
    (hlast : (before ++ o :: (ts ++ c :: after)).getLast? = some last)
    (ha : last.isAbortMark = false) :
    ofTokens (before ++ o :: (ts ++ c :: after)) = ofProgram c ts := by
  have hpos : ∀ t ∈ ts, decide (t.kind ≠ .closeTag) = true := by simpa using hts
  have htake : (c :: after).takeWhile (·.kind ≠ .closeTag) = [] :=
    List.takeWhile_cons_of_neg (by simp [hc])
  have hdrop : (c :: after).dropWhile (·.kind ≠ .closeTag) = c :: after :=
    List.dropWhile_cons_of_neg (by simp [hc])
  have hprogram : programTokens (before ++ o :: (ts ++ c :: after)) = ts := by
    rw [programTokens_tagged hb ho, List.takeWhile_append_of_pos hpos, htake,
      List.append_nil]
  have hstop : programStop? (before ++ o :: (ts ++ c :: after)) = some c := by
    rw [programStop?_tagged hb ho, List.dropWhile_append_of_pos hpos, hdrop,
      List.head?_cons]
  rw [ofTokens_of_stop hlast ha hstop, hprogram]

end TemplateScript
