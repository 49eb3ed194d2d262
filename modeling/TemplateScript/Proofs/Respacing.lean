import TemplateScript.Proofs.ScanCourse

/-!
# Layout and comments do not matter

The texts of the tokens of a source, with single spaces between them, are a source of the same
tokens. Its scan meets the tags in the same regions and is given up at the same character, and
reading looks at kinds and texts alone.
-/

namespace TemplateScript

def visible (fs : List Face) : List Face := fs.filter (·.1 ≠ .endMark)

theorem visible_cons {f : Face} (h : f.1 ≠ .endMark) (fs : List Face) :
    visible (f :: fs) = f :: visible fs := by
  simp [visible, h]

def respaced (ts : List Token) : String :=
  " ".intercalate ((ts.filter (·.kind ≠ .endMark)).map (·.text))

theorem toList_respaced (ts : List Token) :
    (respaced ts).toList = spaced (visible (ts.map Token.face)) := by
  have hfilter : visible (ts.map Token.face)
      = (ts.filter (·.kind ≠ .endMark)).map Token.face := List.filter_map
  rw [respaced, String.toList_intercalate, spaced, hfilter, List.map_map, List.map_map]
  rfl

namespace Scan

variable {line? : Int → Option String}

theorem ofText_spaced_openTag {q : List Char} (l : Location) :
    ∃ t, t.face = (.openTag, "<trans>") ∧ ofText line? .ahead l ("<trans>".toList ++ q)
      = (ofText line? .inside (l.after "<trans>".toList) q).prepend [t] :=
  ⟨_, rfl, ofText_openTag line? l q⟩

theorem ofText_spaced_closeTag {q : List Char} (l : Location) :
    ∃ t, t.face = (.closeTag, "</trans>") ∧ ofText line? .inside l ("</trans>".toList ++ q)
      = (ofText line? .past (l.after "</trans>".toList) q).prepend [t] :=
  ⟨_, rfl, ofText_closeTag line? l q⟩

theorem faces_spaced_cons {region after : Region} {f : Face} {fs : List Face}
    (hf : f.1 ≠ .endMark) (hcut : ∀ {q}, Piece.Parts q → ∀ l, ∃ t, t.face = f ∧
      ofText line? region l (f.2.toList ++ q)
        = (ofText line? after (l.after f.2.toList) q).prepend [t])
    (h : ∀ l, (ofText line? after l (spaced (visible fs))).tokens.map Token.face = fs)
    (l : Location) :
    (ofText line? region l (spaced (visible (f :: fs)))).tokens.map Token.face = f :: fs := by
  obtain ⟨t, w, ht, -, hscan⟩ := ofText_spaced_cons .nil hcut (visible fs) l
  rw [List.append_nil, List.append_nil] at hscan
  rw [visible_cons hf, hscan, prepend, List.map_append, h, List.map_cons, ht]
  rfl

end Scan

/-- A course is taken again by the texts of its tokens. -/
theorem Course.respaced {region last : Region} {fs : List Face} {aborted : Bool}
    (h : Course region fs aborted last) (line? : Int → Option String) (l : Location) :
    (Scan.ofText line? region l (spaced (visible fs))).tokens.map Token.face = fs := by
  induction h generalizing l with
  | stop region =>
    have hnone : spaced (visible [Scan.endFace false]) = [] := by simp [visible, spaced, Scan.endFace]
    rw [hnone, Scan.ofText_nil]
    rfl
  | @unrecognized region c hc =>
    have hsole : spaced (visible [(.unknown, String.ofList [c]), Scan.endFace true]) = [c] := by
      simp [visible, spaced, Scan.endFace]
    rw [hsole, Scan.ofText_unrecognized hc, (Piece.next_unrecognized hc).1]
    rfl
  | lexeme hf _ hmark _ ih => exact Scan.faces_spaced_cons hmark (Scan.ofText_lexeme hf) ih l
  | openTag _ ih =>
    exact Scan.faces_spaced_cons (by simp) (fun _ => Scan.ofText_spaced_openTag) ih l
  | closeTag _ ih =>
    exact Scan.faces_spaced_cons (by simp) (fun _ => Scan.ofText_spaced_closeTag) ih l

theorem scan_respaced (source : String) (file file' : Option String) :
    (scan (respaced (scan source file).tokens) file').tokens.map Token.face
      = (scan source file).tokens.map Token.face := by
  rw [scan, toList_respaced]
  exact (scan_courses source file).respaced _ _

/-- A source and its tokens set apart by single spaces have the same tokens, and these are read alike,
places apart. -/
theorem layout_does_not_matter (source : String) (file file' : Option String) :
    (scan (respaced (scan source file).tokens) file').tokens.map Token.face
        = (scan source file).tokens.map Token.face ∧
      SameReading (Node.ofTokens (scan (respaced (scan source file).tokens) file').tokens)
        (Node.ofTokens (scan source file).tokens) := by
  have hfaces := scan_respaced source file file'
  exact ⟨hfaces, sameReading_of_faces hfaces (scan_tokens_ne_nil _ _)⟩

end TemplateScript
