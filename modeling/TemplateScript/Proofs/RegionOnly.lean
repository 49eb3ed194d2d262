import TemplateScript.Proofs.EvaluationPlaces
import TemplateScript.Proofs.ProgramRegion
import TemplateScript.Proofs.ScanSeams

/-!
# Only the script region matters

A run does not depend on template text ahead of a script, but for the places of what it reports, nor
on what stands behind the close tag, but for what the scan itself warns about.
-/

namespace TemplateScript

def Diagnostic.unquoted (d : Diagnostic) : Diagnostic := { d with sourceLine := none }

/-- Diagnostics other than warnings of a scan, without the source lines they quote. -/
def Diagnostics.ofScript (ds : Diagnostics) : Diagnostics :=
  (ds.filter fun d => !d.isScanWarning).map Diagnostic.unquoted

section
variable (line? : Int → Option String) (d : Diagnostic)

theorem Diagnostic.unplaced_attach : (d.attach line?).unplaced = d.unplaced :=
  unseen_attach line? d unplaced fun _ _ => rfl

theorem Diagnostic.unquoted_attach : (d.attach line?).unquoted = d.unquoted :=
  unseen_attach line? d unquoted fun _ _ => rfl

theorem Diagnostic.isScanWarning_attach : (d.attach line?).isScanWarning = d.isScanWarning :=
  unseen_attach line? d isScanWarning fun _ _ => rfl

end

theorem Diagnostics.unplaced_attach (line? : Int → Option String) (ds : Diagnostics) :
    Diagnostics.unplaced (ds.map (·.attach line?)) = ds.unplaced := by
  simp only [unplaced, List.map_map]
  exact List.map_congr_left fun d _ => d.unplaced_attach line?

theorem Diagnostics.ofScript_attach (line? : Int → Option String) (ds : Diagnostics) :
    Diagnostics.ofScript (ds.map (·.attach line?)) = ds.ofScript := by
  simp only [ofScript, List.filter_map, List.map_map]
  have hfilter : ((fun d : Diagnostic => !d.isScanWarning) ∘ Diagnostic.attach line?)
      = fun d : Diagnostic => !d.isScanWarning := by
    funext d
    rw [Function.comp_apply, d.isScanWarning_attach]
  rw [hfilter]
  exact List.map_congr_left fun d _ => d.unquoted_attach line?

theorem Diagnostics.ofScript_of_warnings {ds : Diagnostics}
    (h : ∀ d ∈ ds, d.isScanWarning = true) (es : Diagnostics) :
    Diagnostics.ofScript (ds ++ es) = es.ofScript := by
  have hnone : ds.filter (fun d => !d.isScanWarning) = [] := by
    rw [List.filter_eq_nil_iff]
    simpa using h
  rw [ofScript, ofScript, List.filter_append, hnone, List.nil_append]

namespace Run

theorem seen_behind_unplaced (r : Run) (s : Scan) (line? : Int → Option String) :
    (r.behind s line?).seen Diagnostics.unplaced
      = ((r.seen Diagnostics.unplaced).1.map fun o =>
          { o with
            collector := .of (Diagnostics.unplaced s.journal.diagnostics ++ o.diagnostics) },
        r.forest) := by
  obtain ⟨outcome, forest, log⟩ := r
  cases outcome with
  | error b => rfl
  | ok o =>
    simp only [seen, outcome_behind, Except.map, Outcome.behind_diagnostics,
      Diagnostics.unplaced_attach]
    simp only [Outcome.behind, Run.behind, Diagnostics.unplaced, List.map_append]
    rfl

theorem seen_behind_ofScript (r : Run) {s : Scan} (line? : Int → Option String)
    (h : ∀ d ∈ s.journal.diagnostics, d.isScanWarning = true) :
    (r.behind s line?).seen Diagnostics.ofScript = r.seen Diagnostics.ofScript := by
  obtain ⟨outcome, forest, log⟩ := r
  cases outcome with
  | error b => rfl
  | ok o =>
    simp only [seen, outcome_behind, Except.map, Outcome.behind_diagnostics,
      Diagnostics.ofScript_attach, Diagnostics.ofScript_of_warnings h]
    rfl

end Run

theorem Scan.Alike.abortMessage {s s' : Scan} (h : s.Alike s') :
    s.abortMessage = s'.abortMessage := by
  have hfind : ∀ ds : Diagnostics, (ds.find? (·.code = "E001")).map (·.message)
      = ((ds.map Diagnostic.unplaced).find? (·.code = "E001")).map (·.message) := by
    intro ds
    rw [List.find?_map, Option.map_map]
    rfl
  rw [Scan.abortMessage, Scan.abortMessage, hfind, h.reports, ← hfind]

theorem scan_last {source : String} {file : Option String}
    (h : (scan source file).aborted = false) :
    ∃ last, (scan source file).tokens.getLast? = some last ∧ last.isAbortMark = false := by
  obtain ⟨last, hlast, hmark⟩ := scan_mark source file
  exact ⟨last, hlast, hmark.trans h⟩

/-! ## Two runs -/

section
variable (mode : Mode) (scope : Nat) (f : Forest)

/-- Runs whose scans end alike and whose tokens are read alike differ in places alone. -/
theorem run_unplaced {source source' : String} {file file' : Option String}
    (hs : Diagnostics.unplaced (scan source file).journal.diagnostics
      = Diagnostics.unplaced (scan source' file').journal.diagnostics)
    (ha : (scan source file).aborted = (scan source' file').aborted)
    (hm : (scan source file).abortMessage = (scan source' file').abortMessage)
    (hread : (scan source file).aborted = false →
      SameReading (Node.ofTokens (scan source file).tokens)
        (Node.ofTokens (scan source' file').tokens)) :
    (run mode file source scope f).seen Diagnostics.unplaced
      = (run mode file' source' scope f).seen Diagnostics.unplaced := by
  cases habort : (scan source file).aborted with
  | true =>
    rw [run_aborted habort, run_aborted (ha ▸ habort)]
    simp only [Run.seen, Except.map, Outcome.failed_diagnostics, Scan.collected_diagnostics, hs]
    simp only [Outcome.failed, hm]
  | false =>
    have habort' : (scan source' file').aborted = false := ha ▸ habort
    have hboth := hread habort
    generalize hx : Node.ofTokens (scan source file).tokens = x at hboth
    generalize hy : Node.ofTokens (scan source' file').tokens = y at hboth
    cases hboth with
    | @ok n m hnm =>
      rw [run_evaluates ⟨habort, hx⟩, run_evaluates ⟨habort', hy⟩, Run.seen_behind_unplaced,
        Run.seen_behind_unplaced, hs]
      have hseen := execute_unplaced mode scope f hnm
      have hforest : (execute mode scope n f).forest = (execute mode scope m f).forest :=
        congrArg Prod.snd hseen
      rw [hseen, hforest]
    | @fault d e hde =>
      rw [run_unread habort hx, run_unread habort' hy, Run.seen_behind_unplaced,
        Run.seen_behind_unplaced, hs]
      simp only [Run.seen, Run.stopped, Except.map, Outcome.failed_diagnostics,
        Collector.add_diagnostics, Collector.empty_diagnostics, List.nil_append,
        Diagnostics.unplaced, List.map_cons, List.map_nil, hde]
      simp only [Outcome.failed, message_unplaced hde]

theorem toList_script (r : String) : ("<trans>" ++ r).toList = Piece.openTag ++ r.toList :=
  String.toList_append

theorem script_tokens (line? : Int → Option String) (l : Location) (r : List Char) :
    ∃ o us, (Scan.ofText line? .ahead l (Piece.openTag ++ r)).tokens = o :: us ∧
      o.kind = .openTag := by
  rw [Scan.ofText_openTag]
  exact ⟨_, _, rfl, rfl⟩

/-- A run of a script behind template text differs in places alone from a run of the script. -/
theorem run_behind_template {p : String} (hp : IsTemplateText p.toList) (r : String)
    (file file' : Option String) :
    (run mode file (p ++ ("<trans>" ++ r)) scope f).seen Diagnostics.unplaced
      = (run mode file' ("<trans>" ++ r) scope f).seen Diagnostics.unplaced := by
  let line? := Text.line? (sourceLines (p ++ ("<trans>" ++ r)))
  let line?' := Text.line? (sourceLines ("<trans>" ++ r))
  let l := (Location.first file).after p.toList
  obtain ⟨before, hbefore, htemplate⟩ :=
    Scan.ofText_template line? r.toList (.first file) hp
  have hscan : scan (p ++ ("<trans>" ++ r)) file
      = (Scan.ofText line? .ahead l (Piece.openTag ++ r.toList)).prepend before := by
    rw [scan, String.toList_append, toList_script, htemplate]
  have hscan' : scan ("<trans>" ++ r) file'
      = Scan.ofText line?' .ahead (.first file') (Piece.openTag ++ r.toList) := by
    rw [scan, toList_script]
  have halike := Scan.alike_ofText line? line?' .ahead l (.first file') (Piece.openTag ++ r.toList)
  refine run_unplaced mode scope f ?_ ?_ ?_ fun ha => ?_
  · rw [hscan, hscan']
    exact halike.reports
  · rw [hscan, hscan']
    exact halike.aborted
  · rw [hscan, hscan']
    exact halike.abortMessage
  · obtain ⟨last, hlast, hmark⟩ := scan_last ha
    have ha' : (scan ("<trans>" ++ r) file').aborted = false := by
      rw [hscan', ← halike.aborted]
      rw [hscan] at ha
      exact ha
    obtain ⟨last', hlast', hmark'⟩ := scan_last ha'
    rw [hscan] at hlast ⊢
    rw [hscan'] at hlast' ⊢
    obtain ⟨o, us, htokens, ho⟩ := script_tokens line? l r.toList
    obtain ⟨o', us', htokens', ho'⟩ := script_tokens line?' (.first file') r.toList
    have hfaces := halike.faces
    rw [htokens, htokens'] at hfaces
    simp only [Scan.prepend, htokens] at hlast ⊢
    rw [htokens'] at hlast' ⊢
    exact sameReading_tagged hbefore ho ho' (List.cons.inj hfaces).2 hlast hlast' hmark hmark'

/-- A script that closes is read the same with any text behind it. -/
theorem ofTokens_script {r : String} {file : Option String}
    (h : ∃ t ∈ (scan ("<trans>" ++ r) file).tokens, t.kind = .closeTag) :
    ∃ c ts, ∀ q, (scan ("<trans>" ++ r ++ q) file).aborted = false →
      Node.ofTokens (scan ("<trans>" ++ r ++ q) file).tokens = Node.ofProgram c ts := by
  obtain ⟨t, ht, hk⟩ := h
  rw [scan, toList_script, Scan.ofText_openTag] at ht
  have hinside := (List.mem_cons.1 ht).resolve_left fun ho => by
    rw [ho] at hk
    cases hk
  obtain ⟨-, ts, c, hts, hc, hafter⟩ := Scan.closes_of_mem ⟨t, hinside, hk⟩
  refine ⟨c, ts, fun q ha => ?_⟩
  have hlist : ("<trans>" ++ r ++ q).toList = Piece.openTag ++ (r.toList ++ q.toList) := by
    rw [String.toList_append, toList_script, List.append_assoc]
  obtain ⟨last, hlast, hmark⟩ := scan_last ha
  obtain ⟨after, htokens⟩ := hafter (Text.line? (sourceLines ("<trans>" ++ r ++ q))) q.toList
  rw [scan, hlist, Scan.ofText_openTag, Scan.withToken, htokens] at hlast ⊢
  have hnone : ∀ u ∈ ([] : List Token), u.kind ≠ .openTag := by simp
  exact Node.ofTokens_closed hnone rfl hts hc hlast hmark

/-- What stands behind a script that closes changes warnings of the scan alone, as long as no scan
is given up. -/
theorem run_ahead_of_text (r q : String) (file : Option String)
    (hclose : ∃ t ∈ (scan ("<trans>" ++ r) file).tokens, t.kind = .closeTag)
    (ha : (scan ("<trans>" ++ r) file).aborted = false)
    (ha' : (scan ("<trans>" ++ r ++ q) file).aborted = false) :
    (run mode file ("<trans>" ++ r ++ q) scope f).seen Diagnostics.ofScript
      = (run mode file ("<trans>" ++ r) scope f).seen Diagnostics.ofScript := by
  obtain ⟨c, ts, hread⟩ := ofTokens_script hclose
  have hscript : Node.ofTokens (scan ("<trans>" ++ r) file).tokens = Node.ofProgram c ts := by
    have h := hread ""
    rw [String.append_empty] at h
    exact h ha
  have hwarnings : ∀ source : String, (scan source file).aborted = false →
      ∀ d ∈ (scan source file).journal.diagnostics, d.isScanWarning = true :=
    fun _ h d hd => (scan_warnings h d hd).1
  have hlonger := hread q ha'
  cases hp : Node.ofProgram c ts with
  | ok n =>
    rw [hp] at hscript hlonger
    rw [run_evaluates ⟨ha, hscript⟩, run_evaluates ⟨ha', hlonger⟩,
      Run.seen_behind_ofScript _ _ (hwarnings _ ha), Run.seen_behind_ofScript _ _ (hwarnings _ ha')]
  | error e =>
    rw [hp] at hscript hlonger
    obtain ⟨d, rfl⟩ := Node.ofTokens_error (scan_tokens_ne_nil _ _) hscript
    rw [run_unread ha hscript, run_unread ha' hlonger,
      Run.seen_behind_ofScript _ _ (hwarnings _ ha),
      Run.seen_behind_ofScript _ _ (hwarnings _ ha')]

/-- Whatever the files are named, runs of one source differ in places alone. -/
theorem run_renamed (r : String) (file file' : Option String) :
    (run mode file ("<trans>" ++ r) scope f).seen Diagnostics.unplaced
      = (run mode file' ("<trans>" ++ r) scope f).seen Diagnostics.unplaced := by
  have hempty : IsTemplateText "".toList := ⟨by decide, by decide, by decide⟩
  have h := run_behind_template mode scope f hempty r file file'
  rwa [String.empty_append] at h

end

theorem Diagnostics.unplaced_ofScript (ds : Diagnostics) :
    ds.ofScript.unplaced = ds.unplaced.ofScript.unplaced := by
  simp only [unplaced, ofScript, List.filter_map, List.map_map]
  rfl

/-- What is seen through a view is seen through a coarser one. -/
theorem Run.seen_coarser {r r' : Run} {v w : Diagnostics → Diagnostics}
    (g : Diagnostics → Diagnostics) (hw : ∀ ds, w ds = g (v ds)) (h : r.seen v = r'.seen v) :
    r.seen w = r'.seen w := by
  have hseen : ∀ r : Run, r.seen w
      = ((r.seen v).1.map fun o => { o with collector := .of (g o.diagnostics) },
          (r.seen v).2) := by
    intro r
    obtain ⟨outcome, forest, log⟩ := r
    cases outcome with
    | error b => rfl
    | ok o =>
      simp only [Run.seen, Except.map, hw]
      rfl
  rw [hseen, hseen, h]

/-- Only the script region matters. Template text ahead of a script changes nothing but places. What
stands behind a script that closes changes nothing but warnings of the scan, if neither scan is
given up; in a file of another name, places change too. -/
theorem only_region_matters (mode : Mode) (scope : Nat) (f : Forest) {p : String}
    (hp : IsTemplateText p.toList) (r : String) (file : Option String) :
    (∀ file', (run mode file' (p ++ ("<trans>" ++ r)) scope f).seen Diagnostics.unplaced
      = (run mode file ("<trans>" ++ r) scope f).seen Diagnostics.unplaced) ∧
    ∀ q, (∃ t ∈ (scan ("<trans>" ++ r) file).tokens, t.kind = .closeTag) →
      (scan ("<trans>" ++ r) file).aborted = false →
      (scan ("<trans>" ++ r ++ q) file).aborted = false →
        (run mode file ("<trans>" ++ r ++ q) scope f).seen Diagnostics.ofScript
          = (run mode file ("<trans>" ++ r) scope f).seen Diagnostics.ofScript ∧
        ∀ file', (run mode file' ("<trans>" ++ r ++ q) scope f).seen (·.ofScript.unplaced)
          = (run mode file ("<trans>" ++ r) scope f).seen (·.ofScript.unplaced) := by
  refine ⟨fun file' => run_behind_template mode scope f hp r file' file, fun q hclose ha ha' => ?_⟩
  have hsame := run_ahead_of_text mode scope f r q file hclose ha ha'
  refine ⟨hsame, fun file' => ?_⟩
  have hrenamed := run_renamed mode scope f (r ++ q) file' file
  rw [← String.append_assoc] at hrenamed
  calc (run mode file' ("<trans>" ++ r ++ q) scope f).seen (·.ofScript.unplaced)
      = (run mode file ("<trans>" ++ r ++ q) scope f).seen (·.ofScript.unplaced) :=
        Run.seen_coarser (·.ofScript.unplaced) Diagnostics.unplaced_ofScript hrenamed
    _ = (run mode file ("<trans>" ++ r) scope f).seen (·.ofScript.unplaced) :=
        Run.seen_coarser Diagnostics.unplaced (fun _ => rfl) hsame

/-- Half an open tag behind an operator, and another script behind the first, do not matter. -/
theorem halfTag_does_not_matter :
    IsTemplateText "let 1/<tran".toList ∧
      (run .strict none ("let 1/<tran" ++ ("<trans>" ++ "x</trans>")) 0 .start).seen
          Diagnostics.unplaced
        = (run .strict none ("<trans>" ++ "x</trans>") 0 .start).seen Diagnostics.unplaced ∧
      (run .strict none ("<trans>" ++ "x</trans>" ++ "/*/ <trans>y") 0 .start).seen
          Diagnostics.ofScript
        = (run .strict none ("<trans>" ++ "x</trans>") 0 .start).seen Diagnostics.ofScript := by
  have hp : IsTemplateText "let 1/<tran".toList :=
    ⟨by decide +kernel, by decide +kernel, by decide +kernel⟩
  obtain ⟨hbefore, hbehind⟩ := only_region_matters .strict 0 .start hp "x</trans>" none
  have hclose : ∃ t ∈ (scan ("<trans>" ++ "x</trans>") none).tokens, t.kind = .closeTag := by
    decide +kernel
  have ha : (scan ("<trans>" ++ "x</trans>") none).aborted = false := by decide +kernel
  have ha' : (scan ("<trans>" ++ "x</trans>" ++ "/*/ <trans>y") none).aborted = false := by
    decide +kernel
  exact ⟨hp, hbefore none, (hbehind "/*/ <trans>y" hclose ha ha').1⟩

end TemplateScript
