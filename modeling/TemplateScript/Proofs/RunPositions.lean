import TemplateScript.Proofs.Positions
import TemplateScript.Proofs.ScanCourse
import TemplateScript.Proofs.ScriptReports

/-!
# Positions in runs

Tokens, nodes and reports of a run stand in its source, and what evaluation reports stands between
the tags of the script. A program takes its spans from its tokens, in their order, and where it has
no tokens, from the token that ends it.
-/

namespace TemplateScript

namespace Span

variable {ts us : List Token} {text : List Char} {stop : Token} {s : Span}

theorem IsIn.point (h : s.IsIn text) : (Span.point s.start).IsIn text :=
  ⟨h.start, h.start, Int.le_refl _⟩

theorem Joins.isIn (h : s.Joins ts) (hts : ∀ t ∈ ts, t.span.IsIn text)
    (hord : ts.Pairwise Token.Precedes) : s.IsIn text := by
  obtain ⟨us, a, b, hus, ha, hb, rfl⟩ := h
  have hfirst : a.span.IsIn text := hts a (hus.subset (List.mem_of_head? ha))
  have hlast : b.span.IsIn text := hts b (hus.subset (List.mem_of_getLast? hb))
  have hle : a.span.start.offset ≤ b.span.start.offset := by
    have hord := hord.sublist hus
    obtain ⟨vs, rfl⟩ := List.head?_eq_some_iff.1 ha
    rcases List.mem_cons.1 (List.mem_of_getLast? hb) with rfl | hmem
    · exact Int.le_refl _
    · have hbehind : a.Precedes b := (List.pairwise_cons.1 hord).1 b hmem
      exact Int.le_trans hfirst.ordered hbehind
  exact ⟨hfirst.start, hlast.stop, Int.le_trans hle hlast.ordered⟩

/-- Tokens of a program are joined, or the span is empty where one of them begins or the program
ends. -/
def OfProgram (us : List Token) (stop : Token) (s : Span) : Prop :=
  s.Joins us ∨ ∃ t ∈ us ++ [stop], s = .point t.span.start

theorem OfProgram.isIn (h : s.OfProgram us stop) (hus : ∀ t ∈ us ++ [stop], t.span.IsIn text)
    (hord : (us ++ [stop]).Pairwise Token.Precedes) : s.IsIn text := by
  rcases h with h | ⟨t, ht, rfl⟩
  · exact (h.mono (List.sublist_append_left us [stop])).isIn hus hord
  · exact (hus t ht).point

/-- If there is an open tag there is a close tag, and the span lies between the two. -/
def InRegion (ts : List Token) (s : Span) : Prop :=
  ∀ o ∈ ts, o.kind = .openTag → (∃ c ∈ ts, c.kind = .closeTag) ∧ ∀ c ∈ ts, c.kind = .closeTag →
    o.span.stop.offset ≤ s.start.offset ∧ s.stop.offset ≤ c.span.start.offset

theorem OfProgram.between {o : Token} (h : s.OfProgram us stop)
    (hus : ∀ t ∈ us ++ [stop], t.span.IsIn text)
    (hord : (o :: (us ++ [stop])).Pairwise Token.Precedes) :
    o.span.stop.offset ≤ s.start.offset ∧ s.stop.offset ≤ stop.span.start.offset := by
  obtain ⟨hopen, hord⟩ := List.pairwise_cons.1 hord
  have hclose : ∀ t ∈ us, t.Precedes stop := fun t ht =>
    (List.pairwise_append.1 hord).2.2 t ht stop List.mem_cons_self
  rcases h with ⟨vs, a, b, hvs, ha, hb, rfl⟩ | ⟨t, ht, rfl⟩
  · have hmem : a ∈ us := hvs.subset (List.mem_of_head? ha)
    exact ⟨hopen a (List.mem_append_left _ hmem), hclose b (hvs.subset (List.mem_of_getLast? hb))⟩
  · refine ⟨hopen t ht, ?_⟩
    rcases List.mem_append.1 ht with hmem | hend
    · exact Int.le_trans (hus t ht).ordered (hclose t hmem)
    · obtain rfl := List.mem_singleton.1 hend
      exact Int.le_refl _

end Span

/-! ## The region of a token list -/

theorem eq_of_countP {α : Type} {p : α → Bool} {as : List α} {a b : α} (h : as.countP p ≤ 1)
    (ha : a ∈ as) (hpa : p a = true) (hb : b ∈ as) (hpb : p b = true) : b = a := by
  obtain ⟨us, vs, rfl⟩ := List.append_of_mem ha
  rw [List.countP_append, List.countP_cons_of_pos hpa] at h
  have hus : ∀ c ∈ us, ¬ p c = true := List.countP_eq_zero.1 (by omega)
  have hvs : ∀ c ∈ vs, ¬ p c = true := List.countP_eq_zero.1 (by omega)
  rcases List.mem_append.1 hb with hmem | hmem
  · exact absurd hpb (hus b hmem)
  · exact (List.mem_cons.1 hmem).resolve_right fun hmem => hvs b hmem hpb

section
variable {ts : List Token} {o stop : Token} (hopen : ts.countP (·.kind = .openTag) ≤ 1)
  (hstop : programStop? ts = some stop)
include hopen hstop

/-- A program stands between the open tag and the close tag that ends it. -/
theorem region_sublist (ho : o ∈ ts) (hkind : o.kind = .openTag) :
    (o :: (programTokens ts ++ [stop])).Sublist ts ∧ stop.kind = .closeTag := by
  obtain ⟨before, us, rfl, hnot⟩ := List.eq_append_cons_of_mem ho
  have hbefore : ∀ t ∈ before, t.kind ≠ .openTag := by
    intro t ht hk
    have hmem : t ∈ before ++ o :: us := List.mem_append_left _ ht
    have hsame : t = o := eq_of_countP hopen ho (by simpa using hkind) hmem (by simpa using hk)
    exact hnot (hsame ▸ ht)
  rw [programStop?_tagged hbefore hkind] at hstop
  obtain ⟨hfront, hclose⟩ := takeWhile_snoc_front hstop
  rw [programTokens_tagged hbefore hkind]
  refine ⟨?_, by simpa using hclose⟩
  exact (hfront.sublist.cons_cons o).trans (List.sublist_append_right before _)

theorem Span.OfProgram.inRegion {text : List Char} {s : Span}
    (h : s.OfProgram (programTokens ts) stop) (hts : ∀ t ∈ ts, t.span.IsIn text)
    (hord : ts.Pairwise Token.Precedes) (hclose : ts.countP (·.kind = .closeTag) ≤ 1) :
    s.InRegion ts := by
  have hprogram := program_sublist hstop
  intro o ho hkind
  obtain ⟨hregion, hk⟩ := region_sublist hopen hstop ho hkind
  have hmem : stop ∈ ts := hprogram.subset (List.mem_append_right _ List.mem_cons_self)
  refine ⟨⟨stop, hmem, hk⟩, fun c hc hck => ?_⟩
  obtain rfl : c = stop := eq_of_countP hclose hmem (by simpa using hk) hc (by simpa using hck)
  exact h.between (fun t ht => hts t (hprogram.subset ht)) (hord.sublist hregion)

end

/-! ## Trees -/

theorem Node.ofProgram_spans {us : List Token} {stop : Token} {n : Node}
    (h : ofProgram stop us = .ok n) :
    n.SpansAre fun span => ∃ s, span = some s ∧ s.OfProgram us stop := by
  unfold ofProgram at h
  cases hr : (Grammar.program : Reader _) stop us with
  | mk r rest =>
    rw [hr] at h
    cases r with
    | error d => cases h
    | ok m =>
      cases h
      obtain ⟨-, body, rfl, hbody⟩ := Grammar.program_sound hr
      refine forall_preorder ?_ fun m hm k hk => ?_
      -- A program of no statements is placed where the token that ends it begins.
      · cases body with
        | nil => exact ⟨_, rfl, Or.inr ⟨us.headD stop, by cases us <;> simp, rfl⟩⟩
        | cons m ms =>
          obtain ⟨s, hspan, hjoins⟩ := hbody.programSpan_joins (us.headD stop)
          exact ⟨s, hspan, Or.inl hjoins⟩
      · obtain ⟨s, hspan, hjoins⟩ := (hbody.spanned m hm).all k hk
        exact ⟨s, hspan, Or.inl hjoins⟩

/-! ## Runs -/

def IsEvaluationCode (code : String) : Prop := "E4".toList <+: code.toList ∨ code = "W401"

instance (code : String) : Decidable (IsEvaluationCode code) :=
  inferInstanceAs (Decidable ("E4".toList <+: code.toList ∨ code = "W401"))

def Diagnostic.StandsIn (ts : List Token) (text : List Char) (d : Diagnostic) : Prop :=
  ∃ s, d.span = some s ∧ s.IsIn text ∧ (IsEvaluationCode d.code → s.InRegion ts)

theorem Diagnostic.standsIn_attach {ts : List Token} {text : List Char} {d : Diagnostic}
    (line? : Int → Option String) : (d.attach line?).StandsIn ts text ↔ d.StandsIn ts text := by
  simp only [StandsIn, span_attach, code_attach]

theorem Diagnostic.standsIn_of_code {ts : List Token} {text : List Char} {d : Diagnostic} {s : Span}
    {codes : List String} (hspan : d.span = some s) (hs : s.IsIn text) (hcode : d.code ∈ codes)
    (hcodes : ∀ c ∈ codes, ¬ IsEvaluationCode c) : d.StandsIn ts text :=
  ⟨s, hspan, hs, fun he => absurd he (hcodes _ hcode)⟩

section
variable {mode : Mode} {file : Option String} {source : String} {scope : Nat} {f : Forest}
  {o : Outcome} {n : Node}

theorem scan_tokens_isIn : ∀ t ∈ (scan source file).tokens, t.span.IsIn source.toList :=
  fun t ht => ((scan_placed source file).tokens t ht).isIn

/-- The nodes of a tree that is read from a source stand in the region of the script. -/
theorem read_spans (h : Node.ofTokens (scan source file).tokens = .ok n) :
    n.SpansAre fun span => ∃ s, span = some s ∧ s.IsIn source.toList ∧
      s.InRegion (scan source file).tokens := by
  have hplaced := scan_placed source file
  have hcourse := scan_courses source file
  have hopen : (scan source file).tokens.countP (·.kind = .openTag) ≤ 1 := by
    rw [hcourse.opened]
    split <;> omega
  have hclose : (scan source file).tokens.countP (·.kind = .closeTag) ≤ 1 := by
    rw [hcourse.closed]
    split <;> omega
  obtain ⟨last, hlast, hmark⟩ := scan_mark source file
  cases ha : last.isAbortMark with
  | true =>
    rw [Node.ofTokens_of_aborted hlast ha] at h
    cases h
  | false =>
    cases hstop : programStop? (scan source file).tokens with
    | none =>
      rw [Node.ofTokens_of_unclosed hlast ha hstop] at h
      cases h
    | some stop =>
      have hprogram := program_sublist hstop
      rw [Node.ofTokens_of_stop hlast ha hstop] at h
      intro m hm
      obtain ⟨s, hspan, hs⟩ := Node.ofProgram_spans h m hm
      have hin : s.IsIn source.toList :=
        hs.isIn (fun t ht => scan_tokens_isIn t (hprogram.subset ht))
          (hplaced.ordered.sublist hprogram)
      exact ⟨s, hspan, hin, hs.inRegion hopen hstop scan_tokens_isIn hplaced.ordered hclose⟩

theorem scan_standsIn : ∀ d ∈ (scan source file).journal.diagnostics,
    d.StandsIn (scan source file).tokens source.toList := by
  intro d hd
  obtain ⟨s, hspan, hpart⟩ := (scan_placed source file).reports d hd
  have hcodes : IsScanCodes ((scan source file).journal.diagnostics.map (·.code)) :=
    Scan.ofText_codes _ .ahead (.first file) source.toList
  have hcode : d.code ∈ ["W001", "W002", "E001"] := hcodes.subset (List.mem_map_of_mem hd)
  exact Diagnostic.standsIn_of_code hspan hpart.isIn hcode (by decide)

theorem unread_standsIn {d : Diagnostic}
    (h : Node.ofTokens (scan source file).tokens = .error (.fault d)) :
    d.StandsIn (scan source file).tokens source.toList := by
  obtain ⟨fault, s, rfl, hjoins, hfault⟩ := Node.ofTokens_fault h
  have hin : s.IsIn source.toList := hjoins.isIn scan_tokens_isIn (scan_placed source file).ordered
  have hcode : fault.code ∈ ["E101", "E102", "E106", "E107"] ++ ["E104", "E105"] := by
    rcases hfault with hf | rfl | ⟨rfl, -⟩
    · exact List.mem_append_left _ (Fault.code_of_isReading hf).1
    · exact List.mem_append_right _ (by simp [Fault.code])
    · exact List.mem_append_right _ (by simp [Fault.code])
  exact Diagnostic.standsIn_of_code rfl hin hcode (by decide)

theorem RunsTo.standsIn (h : RunsTo mode file source scope f o) :
    ∀ d ∈ o.diagnostics, d.StandsIn (scan source file).tokens source.toList := by
  refine h.forall_diagnostics (fun d => (Diagnostic.standsIn_attach _).2) scan_standsIn
    (fun d _ => unread_standsIn) fun n o₁ hn ho d hd => ?_
  obtain ⟨fault, span, rfl, -, s, rfl, hin, hregion⟩ :=
    execute_scripted hn.isScript (read_spans hn.2) ho d hd
  exact ⟨s, rfl, hin, fun _ => hregion⟩

end

/-- Positions are right everywhere: tokens, the nodes of a tree that is read and whatever a run
reports stand where they say in the source, and what evaluation reports stands between the tags. -/
theorem positions_right (source : String) (file : Option String) :
    (∀ t ∈ (scan source file).tokens, t.span.IsIn source.toList) ∧
    (∀ n, Node.ofTokens (scan source file).tokens = .ok n →
      ∀ m ∈ n.preorder, ∃ s, m.span = some s ∧ s.IsIn source.toList) ∧
    ∀ mode scope f o, (run mode file source scope f).outcome = .ok o →
      ∀ d ∈ o.diagnostics, d.StandsIn (scan source file).tokens source.toList := by
  refine ⟨scan_tokens_isIn, fun n hn m hm => ?_, fun mode scope f o ho => (run_runsTo ho).standsIn⟩
  obtain ⟨s, hspan, hin, -⟩ := read_spans hn m hm
  exact ⟨s, hspan, hin⟩

end TemplateScript
