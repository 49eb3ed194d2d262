import TemplateScript.Proofs.ProgramRegion
import TemplateScript.Proofs.ReadingFaults
import TemplateScript.Proofs.SpacedScan

/-!
# The course of a scan

A scan meets each tag once and in turn, and the character that it is given up at is its last token
but the end mark. So the flags, the tokens and the reports are records of the same events, and
reading the tokens finds them incomplete in the same case.
-/

namespace TemplateScript

namespace Piece

variable {region : Region} {c : Char} {r : List Char} {k : Token.Kind}

/-! ## Plain pieces -/

theorem next_of_isPlain (h : (next region c r).piece.IsPlain) :
    next region c r = nextPlain region c r := by
  rcases next_cases region c r with (hp | ⟨_, _, hp⟩) | ⟨-, hp, -⟩ | ⟨-, hp, -⟩ | hplain
  · rw [hp] at h
    cases h
  · rw [hp] at h
    cases h
  · rw [hp] at h
    exact absurd rfl h.1
  · rw [hp] at h
    exact absurd rfl h.2
  · exact hplain

theorem next_nil (region : Region) (c : Char) : next region c [] = nextPlain region c [] := by
  have htag : ∀ t : List Char, 1 < t.length → ¬ t.isPrefixOf [c] = true := fun t ht hp =>
    Nat.not_le.2 ht (List.isPrefixOf_iff_prefix.1 hp).length_le
  have hopen := htag openTag (by decide)
  have hclose := htag closeTag (by decide)
  rw [next, if_neg (by simp), if_neg (by simp), if_neg fun h => hopen h.2,
    if_neg fun h => hclose h.2]

theorem nextPlain_unrecognized (h : (nextPlain region c r).piece = .unrecognized)
    (q : List Char) : nextPlain region c q = ⟨.unrecognized, [c], q⟩ := by
  unfold nextPlain at h ⊢
  cases hk : punctuation? c with
  | some k =>
    rw [hk] at h
    cases h
  | none =>
    rw [hk] at h
    by_cases hd : isDigit c = true
    · simp only [hd, if_true] at h
      cases h
    by_cases ha : Text.isCased c = true
    · simp only [hd, ha, if_true] at h
      cases h
    by_cases hl : isLayout c = true
    · simp only [hd, ha, hl, if_true] at h
      cases h
    by_cases hr : region = .ahead
    · simp only [hd, ha, hl, hr, if_true] at h
      cases h
    · simp only [hd, ha, hl, hr, if_false]
      rfl

theorem next_unrecognized (h : (next region c r).piece = .unrecognized) :
    (next region c r).text = [c] ∧ (next region c []).piece = .unrecognized := by
  have hplain : next region c r = nextPlain region c r := next_of_isPlain (by
    rw [h]
    trivial)
  rw [hplain] at h
  rw [hplain, next_nil, nextPlain_unrecognized h r, nextPlain_unrecognized h []]
  exact ⟨rfl, rfl⟩

theorem opened_of_unrecognized (h : (next region c []).piece = .unrecognized) :
    region.opened = true := by
  rw [next_nil] at h
  cases region with
  | ahead => exact absurd h nextPlain_recognized
  | inside => rfl
  | past => rfl

theorem punctuation?_ne_unknown (h : punctuation? c = some k) : k ≠ .unknown := by
  unfold punctuation? at h
  split at h <;> cases h <;> simp

theorem nextPlain_lexeme (h : (nextPlain region c r).piece = .token k) :
    k ≠ .unknown ∧ Lexeme (k, String.ofList (nextPlain region c r).text) := by
  unfold nextPlain at h ⊢
  cases hk : punctuation? c with
  | some k' =>
    simp only [hk, Piece.token.injEq] at h ⊢
    subst h
    exact ⟨punctuation?_ne_unknown hk, .punctuation hk⟩
  | none =>
    simp only [hk] at h ⊢
    by_cases hd : isDigit c = true
    · have hne : (c :: r).takeWhile isDigit ≠ [] := by simp [hd]
      simp only [hd, if_true] at h ⊢
      cases h
      exact ⟨by simp, .digits hne mem_takeWhile⟩
    by_cases ha : Text.isCased c = true
    · have hne : (c :: r).takeWhile Text.isCased ≠ [] := by simp [ha]
      simp only [hd, ha, if_true] at h ⊢
      cases h
      refine ⟨?_, .word hne mem_takeWhile⟩
      rcases isWord_word ((c :: r).takeWhile Text.isCased) with hw | hw | hw <;> simp [hw]
    by_cases hl : isLayout c = true
    · simp only [hd, ha, hl, if_true] at h
      cases h
    by_cases hr : region = .ahead
    · simp only [hd, ha, hl, hr, if_true] at h
      cases h
    · simp only [hd, ha, hl, hr, if_false] at h
      cases h

end Piece
def Scan.endFace (aborted : Bool) : Face :=
  (.endMark, if aborted then Token.abortText else Token.endText)

/-- The tokens that a scan can give from a region on, whether it is given up, and the region that it
comes to. -/
inductive Course : Region → List Face → Bool → Region → Prop
  | stop (region : Region) : Course region [Scan.endFace false] false region
  | unrecognized {region : Region} {c : Char} : (Piece.next region c []).piece = .unrecognized →
      Course region [(.unknown, String.ofList [c]), Scan.endFace true] true region
  | lexeme {region last : Region} {f : Face} {fs : List Face} {aborted : Bool} : Lexeme f →
      f.1 ≠ .unknown → f.1 ≠ .endMark → Course region fs aborted last →
      Course region (f :: fs) aborted last
  | openTag {last : Region} {fs : List Face} {aborted : Bool} : Course .inside fs aborted last →
      Course .ahead ((.openTag, "<trans>") :: fs) aborted last
  | closeTag {last : Region} {fs : List Face} {aborted : Bool} : Course .past fs aborted last →
      Course .inside ((.closeTag, "</trans>") :: fs) aborted last

/-! ## Scans have a course -/

namespace Scan

def Courses (region : Region) (s : Scan) : Prop :=
  Course region (s.tokens.map Token.face) s.aborted s.region

theorem courses_plain {region : Region} {c : Char} {r : List Char} {s : Scan}
    {line? : Int → Option String} {l : Location}
    (h : Piece.next region c r = Piece.nextPlain region c r)
    (hs : Courses (Piece.regionAfter region (Piece.next region c r).piece) s) :
    Courses region (s.withPiece line? l (Piece.next region c r).piece
      (Piece.next region c r).text) := by
  have hplain := Piece.nextPlain_isPlain region c r
  have hend := Piece.next_fits region c r
  rw [h] at hs hend ⊢
  rw [regionAfter_plain hplain] at hs
  cases hk : (Piece.nextPlain region c r).piece with
  | token k =>
    obtain ⟨hknown, hlexeme⟩ := Piece.nextPlain_lexeme hk
    rw [hk] at hend
    exact .lexeme hlexeme hknown hend.kind hs
  | lineComment => exact hs
  | layout => exact hs
  | template => exact hs
  | unrecognized => exact hs
  | blockComment slashFirst closed =>
    rw [hk] at hplain
    cases hplain

theorem ofText_courses (line? : Int → Option String) (region : Region) (l : Location)
    (cs : List Char) : Courses region (ofText line? region l cs) := by
  induction region, cs using piece_induction generalizing l with
  | nil region =>
    rw [ofText_nil]
    exact .stop region
  | unrecognized region c r h =>
    obtain ⟨htext, hc⟩ := Piece.next_unrecognized h
    rw [ofText_unrecognized h, htext]
    exact .unrecognized hc
  | cons region c r h ih =>
    have ih := ih (l.after (Piece.next region c r).text)
    rw [ofText_cons h]
    rcases Piece.next_cases region c r with (hp | ⟨_, _, hp⟩) | ⟨rfl, hp, ht⟩ | ⟨rfl, hp, ht⟩ | hplain
    · rw [hp] at ih ⊢
      exact ih
    · rw [hp] at ih ⊢
      rw [Courses, withPiece_tokens, withPiece_aborted, withPiece_region]
      exact ih
    · rw [hp] at ih ⊢
      rw [ht] at ih ⊢
      exact .openTag ih
    · rw [hp] at ih ⊢
      rw [ht] at ih ⊢
      exact .closeTag ih
    · exact courses_plain hplain ih

end Scan

/-! ## What a course shows -/

namespace Course

variable {region last : Region} {fs : List Face} {aborted : Bool}

/-- A course behind the open tag meets none, and any other as many as it opens. -/
theorem countP_openTag (h : Course region fs aborted last) :
    (if region.opened then 1 else 0) + fs.countP (·.1 = .openTag)
      = if last.opened then 1 else 0 := by
  induction h with
  | stop region => simp [Scan.endFace]
  | unrecognized _ => simp [Scan.endFace]
  | lexeme hf _ _ _ ih => simpa [hf.untagged.1] using ih
  | openTag _ ih => simpa [Region.opened, Nat.add_comm] using ih
  | closeTag _ ih => simpa [Region.opened] using ih

theorem countP_closeTag (h : Course region fs aborted last) :
    (if region.closed then 1 else 0) + fs.countP (·.1 = .closeTag)
      = if last.closed then 1 else 0 := by
  induction h with
  | stop region => simp [Scan.endFace]
  | unrecognized _ => simp [Scan.endFace]
  | lexeme hf _ _ _ ih => simpa [hf.untagged.2] using ih
  | openTag _ ih => simpa [Region.closed] using ih
  | closeTag _ ih => simpa [Region.closed, Nat.add_comm] using ih

theorem opened_before_closeTag (h : Course region fs aborted last) {us vs : List Face} {c : Face}
    (hfs : fs = us ++ c :: vs) (hc : c.1 = .closeTag) :
    region.opened = true ∨ ∃ o ∈ us, o.1 = .openTag := by
  induction h generalizing us with
  | stop region =>
    obtain ⟨-, h⟩ | ⟨us, -, h⟩ := List.cons_eq_append_iff.1 hfs
    · obtain ⟨rfl, -⟩ := List.cons.inj h
      cases hc
    · simp at h
  | unrecognized h => exact Or.inl (Piece.opened_of_unrecognized h)
  | lexeme hf _ _ _ ih =>
    obtain ⟨-, h⟩ | ⟨us, rfl, h⟩ := List.cons_eq_append_iff.1 hfs
    · obtain ⟨rfl, -⟩ := List.cons.inj h
      exact absurd hc hf.untagged.2
    · refine (ih h).imp_right ?_
      rintro ⟨o, ho, hk⟩
      exact ⟨o, List.mem_cons_of_mem _ ho, hk⟩
  | openTag _ ih =>
    obtain ⟨-, h⟩ | ⟨us, rfl, -⟩ := List.cons_eq_append_iff.1 hfs
    · obtain ⟨rfl, -⟩ := List.cons.inj h
      cases hc
    · exact Or.inr ⟨_, List.mem_cons_self, rfl⟩
  | closeTag _ ih => exact Or.inl rfl

inductive Ending (us : List Face) : List Face → Bool → Prop
  | stop : Ending us (us ++ [Scan.endFace false]) false
  | abort (text : String) : Ending us (us ++ [(.unknown, text), Scan.endFace true]) true

theorem Ending.cons {us : List Face} (f : Face) (h : Ending us fs aborted) :
    Ending (f :: us) (f :: fs) aborted := by
  cases h with
  | stop => exact .stop
  | abort text => exact .abort text

/-- Known tokens come first; if the scan is given up, the open tag is among them or earlier. -/
theorem ending (h : Course region fs aborted last) : ∃ us, Ending us fs aborted ∧
    (∀ f ∈ us, f.1 ≠ .unknown ∧ f.1 ≠ .endMark) ∧
      (aborted = true → region.opened = true ∨ ∃ o ∈ us, o.1 = .openTag) := by
  induction h with
  | stop region => exact ⟨[], .stop, by simp, by simp⟩
  | unrecognized h =>
    exact ⟨[], .abort _, by simp, fun _ => Or.inl (Piece.opened_of_unrecognized h)⟩
  | lexeme _ hknown hmark _ ih =>
    obtain ⟨us, hend, hus, hopen⟩ := ih
    refine ⟨_, hend.cons _, List.forall_mem_cons.2 ⟨⟨hknown, hmark⟩, hus⟩, fun ha => ?_⟩
    refine (hopen ha).imp_right ?_
    rintro ⟨o, ho, hk⟩
    exact ⟨o, List.mem_cons_of_mem _ ho, hk⟩
  | openTag _ ih =>
    obtain ⟨us, hend, hus, -⟩ := ih
    have hknown : Token.Kind.openTag ≠ .unknown ∧ Token.Kind.openTag ≠ .endMark := by decide
    exact ⟨_, hend.cons _, List.forall_mem_cons.2 ⟨hknown, hus⟩,
      fun _ => Or.inr ⟨_, List.mem_cons_self, rfl⟩⟩
  | closeTag _ ih =>
    obtain ⟨us, hend, hus, -⟩ := ih
    have hknown : Token.Kind.closeTag ≠ .unknown ∧ Token.Kind.closeTag ≠ .endMark := by decide
    exact ⟨_, hend.cons _, List.forall_mem_cons.2 ⟨hknown, hus⟩, fun _ => Or.inl rfl⟩

end Course

/-! ## Records of a scan -/

def IsScanCodes (codes : List String) : Prop :=
  ∃ n, ∃ last ∈ [[], ["W002"], ["E001"]], codes = List.replicate n "W001" ++ last

theorem IsScanCodes.subset {codes : List String} (h : IsScanCodes codes) :
    codes ⊆ ["W001", "W002", "E001"] := by
  obtain ⟨n, last, hlast, rfl⟩ := h
  intro c hc
  rcases List.mem_append.1 hc with hc | hc
  · rw [List.eq_of_mem_replicate hc]
    exact List.mem_cons_self
  · simp only [List.mem_cons, List.not_mem_nil, or_false] at hlast
    rcases hlast with rfl | rfl | rfl
    · cases hc
    · simp_all
    · simp_all

theorem IsScanCodes.slash {codes : List String} (h : IsScanCodes codes) :
    IsScanCodes ("W001" :: codes) := by
  obtain ⟨n, last, hlast, rfl⟩ := h
  exact ⟨n + 1, last, hlast, rfl⟩

theorem Scan.commentWarnings_codes (line? : Int → Option String) (l stop : Location)
    (slashFirst closed : Bool) :
    (commentWarnings line? l stop slashFirst closed).map (·.code)
      = (if slashFirst then ["W001"] else []) ++ if closed then [] else ["W002"] := by
  cases slashFirst <;> cases closed <;> rfl

theorem Scan.ofText_codes (line? : Int → Option String) (region : Region) (l : Location)
    (cs : List Char) :
    IsScanCodes ((ofText line? region l cs).journal.diagnostics.map (·.code)) := by
  induction region, cs using piece_induction generalizing l with
  | nil region =>
    rw [ofText_nil]
    exact ⟨0, [], by simp, rfl⟩
  | unrecognized region c r h =>
    rw [ofText_unrecognized h]
    exact ⟨0, ["E001"], by simp, rfl⟩
  | cons region c r h ih =>
    have ih := ih (l.after (Piece.next region c r).text)
    have hfits := Piece.next_fits region c r
    rw [ofText_cons h]
    cases hp : (Piece.next region c r).piece with
    | blockComment slashFirst closed =>
      rw [hp] at ih hfits
      rw [withPiece, withWarnings_diagnostics, List.map_append, commentWarnings_codes]
      -- A comment without an end takes the whole text, so nothing is reported behind it.
      have hbehind : IsScanCodes ((if closed then [] else ["W002"])
          ++ (ofText line? (Piece.regionAfter region (.blockComment slashFirst closed))
            (l.after (Piece.next region c r).text)
            (Piece.next region c r).rest).journal.diagnostics.map (·.code)) := by
        cases closed with
        | true => exact ih
        | false =>
          obtain ⟨u, -, -, hrest⟩ := hfits
          rw [hrest, ofText_nil]
          exact ⟨0, ["W002"], by simp, rfl⟩
      rw [List.append_assoc]
      cases slashFirst with
      | true => exact hbehind.slash
      | false => exact hbehind
    | _ =>
      rw [hp] at ih
      exact ih

structure Scan.Regular (s : Scan) : Prop where
  mark : ∃ (ts : List Token) (e : Token), s.tokens = ts ++ [e] ∧ e.kind = .endMark ∧
    ∀ t ∈ ts, t.kind ≠ .endMark
  opened : s.tokens.countP (·.kind = .openTag) = if s.region.opened then 1 else 0
  closed : s.tokens.countP (·.kind = .closeTag) = if s.region.closed then 1 else 0
  nested : ∀ (us : List Token) (c : Token) (vs : List Token), s.tokens = us ++ c :: vs →
    c.kind = .closeTag → ∃ o ∈ us, o.kind = .openTag
  marked : s.aborted = true ↔ Token.scanAborted s.tokens = true
  unknown : s.aborted = true ↔ ∃ t ∈ s.tokens, t.kind = .unknown
  reported : s.aborted = true ↔ "E001" ∈ s.journal.diagnostics.map (·.code)
  unread : s.aborted = true ↔ ∃ d, Node.ofTokens s.tokens = .error (.fault d) ∧ d.code = "E105"
  sole : s.aborted = true → ∃ (us : List Token) (u e : Token), s.tokens = us ++ [u, e] ∧
    u.kind = .unknown ∧ e.kind ≠ .unknown ∧ (∀ t ∈ us, t.kind ≠ .unknown) ∧
      ∃ o ∈ us, o.kind = .openTag
  codes : IsScanCodes (s.journal.diagnostics.map (·.code))

namespace Scan

variable {s : Scan}

theorem countP_faces (ts : List Token) (k : Token.Kind) :
    (ts.map Token.face).countP (·.1 = k) = ts.countP (·.kind = k) := by
  rw [List.countP_map]
  rfl

theorem Courses.tokens (h : Courses .ahead s) :
    ∃ ts : List Token, (∀ t ∈ ts, t.kind ≠ .unknown ∧ t.kind ≠ .endMark) ∧
      (s.aborted = false ∧ (∃ e : Token, s.tokens = ts ++ [e] ∧ e.face = endFace false) ∨
        s.aborted = true ∧ (∃ u e : Token, s.tokens = ts ++ [u, e] ∧ u.kind = .unknown ∧
          e.face = endFace true) ∧ ∃ o ∈ ts, o.kind = .openTag) := by
  obtain ⟨us, hend, hus, hopen⟩ := h.ending
  have hkinds : ∀ {ts : List Token}, ts.map Token.face = us →
      ∀ t ∈ ts, t.kind ≠ .unknown ∧ t.kind ≠ .endMark := by
    rintro ts rfl t ht
    exact hus t.face (List.mem_map_of_mem ht)
  generalize hfaces : s.tokens.map Token.face = fs at hend
  generalize s.aborted = aborted at hend hopen
  cases hend with
  | stop =>
    obtain ⟨ts, es, htokens, hts, hes⟩ := List.map_eq_append_iff.1 hfaces
    obtain ⟨e, rfl, he⟩ := List.map_eq_singleton_iff.1 hes
    exact ⟨ts, hkinds hts, Or.inl ⟨rfl, e, htokens, he⟩⟩
  | abort text =>
    obtain ⟨ts, es, htokens, hts, hes⟩ := List.map_eq_append_iff.1 hfaces
    obtain ⟨u, es, rfl, hu, hes⟩ := List.map_eq_cons_iff.1 hes
    obtain ⟨e, rfl, he⟩ := List.map_eq_singleton_iff.1 hes
    obtain ⟨o, ho, hk⟩ := (hopen rfl).resolve_left (by simp [Region.opened])
    rw [← hts] at ho
    obtain ⟨t, ht, rfl⟩ := List.mem_map.1 ho
    have hunknown : u.kind = .unknown := congrArg Prod.fst hu
    exact ⟨ts, hkinds hts, Or.inr ⟨rfl, ⟨u, e, htokens, hunknown, he⟩, t, ht, hk⟩⟩

theorem Courses.mark (h : Courses .ahead s) :
    ∃ (ts : List Token) (e : Token), s.tokens = ts ++ [e] ∧ e.kind = .endMark ∧
      ∀ t ∈ ts, t.kind ≠ .endMark := by
  obtain ⟨ts, hts, hend⟩ := h.tokens
  rcases hend with ⟨-, e, htokens, he⟩ | ⟨-, ⟨u, e, htokens, hu, he⟩, -⟩
  · exact ⟨ts, e, htokens, congrArg Prod.fst he, fun t ht => (hts t ht).2⟩
  · refine ⟨ts ++ [u], e, by simpa using htokens, congrArg Prod.fst he, ?_⟩
    refine List.forall_mem_append.2 ⟨fun t ht => (hts t ht).2, ?_⟩
    simp [hu]

theorem Courses.opened (h : Courses .ahead s) :
    s.tokens.countP (·.kind = .openTag) = if s.region.opened then 1 else 0 := by
  have hcount := Course.countP_openTag h
  rw [countP_faces] at hcount
  exact (Nat.zero_add _).symm.trans hcount

theorem Courses.closed (h : Courses .ahead s) :
    s.tokens.countP (·.kind = .closeTag) = if s.region.closed then 1 else 0 := by
  have hcount := Course.countP_closeTag h
  rw [countP_faces] at hcount
  exact (Nat.zero_add _).symm.trans hcount

theorem Courses.nested (h : Courses .ahead s) {us vs : List Token} {c : Token}
    (htokens : s.tokens = us ++ c :: vs) (hc : c.kind = .closeTag) :
    ∃ o ∈ us, o.kind = .openTag := by
  have hfaces : s.tokens.map Token.face = us.map Token.face ++ c.face :: vs.map Token.face := by
    rw [htokens, List.map_append, List.map_cons]
  obtain hregion | ⟨o, ho, hk⟩ := Course.opened_before_closeTag h hfaces hc
  · cases hregion
  · obtain ⟨t, ht, rfl⟩ := List.mem_map.1 ho
    exact ⟨t, ht, hk⟩

theorem Courses.sole (h : Courses .ahead s) (ha : s.aborted = true) :
    ∃ (us : List Token) (u e : Token), s.tokens = us ++ [u, e] ∧ u.kind = .unknown ∧
      e.kind ≠ .unknown ∧ (∀ t ∈ us, t.kind ≠ .unknown) ∧ ∃ o ∈ us, o.kind = .openTag := by
  obtain ⟨ts, hts, hend⟩ := h.tokens
  rcases hend with ⟨hno, -⟩ | ⟨-, ⟨u, e, htokens, hu, he⟩, hopen⟩
  · cases hno.symm.trans ha
  · have hmark : e.kind = .endMark := congrArg Prod.fst he
    exact ⟨ts, u, e, htokens, hu, by simp [hmark], fun t ht => (hts t ht).1, hopen⟩

theorem Courses.aborted_iff_unknown (h : Courses .ahead s) :
    s.aborted = true ↔ ∃ t ∈ s.tokens, t.kind = .unknown := by
  constructor
  · intro ha
    obtain ⟨us, u, e, htokens, hu, -⟩ := h.sole ha
    exact ⟨u, by simp [htokens], hu⟩
  · rintro ⟨t, ht, hk⟩
    obtain ⟨ts, hts, ⟨-, e, htokens, he⟩ | ⟨ha, -⟩⟩ := h.tokens
    · rw [htokens] at ht
      rcases List.mem_append.1 ht with ht | ht
      · exact absurd hk (hts t ht).1
      · obtain rfl := List.mem_singleton.1 ht
        have hmark : t.kind = .endMark := congrArg Prod.fst he
        cases hmark.symm.trans hk
    · exact ha

end Scan

section
variable (source : String) (file : Option String)

theorem scan_courses : Scan.Courses .ahead (scan source file) :=
  Scan.ofText_courses _ .ahead (.first file) source.toList

theorem aborted_iff_reported : (scan source file).aborted = true ↔
    "E001" ∈ (scan source file).journal.diagnostics.map (·.code) := by
  constructor
  · intro ha
    obtain ⟨ws, d, hds, -, hcode, -⟩ := scan_abort ha
    rw [hds, List.map_append, List.mem_append]
    exact Or.inr (List.mem_singleton.2 hcode.symm)
  · intro hmem
    obtain ⟨d, hd, hcode⟩ := List.mem_map.1 hmem
    cases ha : (scan source file).aborted with
    | true => rfl
    | false =>
      have hwarning := (scan_warnings ha d hd).1
      simp [Diagnostic.isScanWarning, hcode] at hwarning

/-- Reading finds the tokens of a scan incomplete if the scan was given up, and only then. -/
theorem aborted_iff_unread : (scan source file).aborted = true ↔
    ∃ d, Node.ofTokens (scan source file).tokens = .error (.fault d) ∧ d.code = "E105" := by
  constructor
  · intro ha
    obtain ⟨last, hlast, hmark⟩ := scan_mark source file
    exact ⟨_, Node.ofTokens_of_aborted hlast (hmark.trans ha), rfl⟩
  · rintro ⟨d, hd, hcode⟩
    obtain ⟨f, s, rfl, -, hf | rfl | ⟨-, habort⟩⟩ := Node.ofTokens_fault hd
    · have hcodes := (Fault.code_of_isReading hf).1
      rw [show f.code = "E105" from hcode] at hcodes
      exact absurd hcodes (by decide)
    · have hclose : "E104" = "E105" := hcode
      exact absurd hclose (by decide)
    · exact scanAborted_scan.symm.trans habort

theorem scan_regular : (scan source file).Regular := by
  have hcourse := scan_courses source file
  exact {
    mark := hcourse.mark
    opened := hcourse.opened
    closed := hcourse.closed
    nested := fun us c vs => hcourse.nested
    marked := by rw [scanAborted_scan]
    unknown := hcourse.aborted_iff_unknown
    reported := aborted_iff_reported source file
    unread := aborted_iff_unread source file
    sole := hcourse.sole
    codes := Scan.ofText_codes _ _ _ _ }

end

end TemplateScript
