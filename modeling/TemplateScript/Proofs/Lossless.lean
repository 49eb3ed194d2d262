import TemplateScript.Proofs.Gap
import TemplateScript.Token.Scan

/-!
# A scan loses nothing

The tokens of a source stand in it one after the other, each where its span says, and what stands
between them is no more than a gap. The scan is followed cut by cut: it weaves gaps and tokens, and a
cut that is no token makes the next gap longer.
-/

namespace TemplateScript

def slice (text : List Char) (i j : Nat) : List Char := (text.take j).drop i

namespace Token

def begins (t : Token) : Nat := t.span.start.offset.toNat

def ends (t : Token) : Nat := t.span.stop.offset.toNat

structure StandsAt (t : Token) (i : Nat) (w rest : List Char) : Prop where
  start : t.span.start.offset = i
  stop : t.span.stop.offset = (i + w.length : Nat)
  text : t.text = String.ofList w
  nonempty : w ≠ []
  token : Piece.IsToken t.kind w rest

theorem StandsAt.begins_eq {t : Token} {i : Nat} {w rest : List Char} (h : t.StandsAt i w rest) :
    t.begins = i := by
  simp [begins, h.start]

theorem StandsAt.ends_eq {t : Token} {i : Nat} {w rest : List Char} (h : t.StandsAt i w rest) :
    t.ends = i + w.length := by
  simp only [ends, h.stop, Int.toNat_natCast]

end Token

/-! ## Gaps and tokens in turn -/

/-- The tokens of a text that begins at an offset in a region, the end mark left out. -/
inductive Woven : Region → Nat → List Char → List Token → Bool → Prop
  | stop {region : Region} {i : Nat} {g : List Char} : Gap (region = .ahead) g [] →
      Woven region i g [] false
  | abort {region : Region} {i : Nat} {g : List Char} {c : Char} {rest : List Char} {t : Token} :
      Gap (region = .ahead) g (c :: rest) → t.StandsAt (i + g.length) [c] rest →
      Woven region i (g ++ c :: rest) [t] true
  | token {region : Region} {i : Nat} {g w rest : List Char} {t : Token} {ts : List Token}
      {aborted : Bool} : Gap (region = .ahead) g (w ++ rest) →
      t.StandsAt (i + g.length) w rest →
      Woven (Piece.regionAfter region (.token t.kind)) (i + g.length + w.length) rest ts aborted →
      Woven region i (g ++ (w ++ rest)) (t :: ts) aborted

theorem Gap.behind {region : Region} {p : Piece} {u g rest : List Char}
    (hu : Piece.Fits region p u (g ++ rest)) (hp : ∀ k, p ≠ .token k) (hq : p ≠ .unrecognized)
    (h : Gap (region = .ahead) g rest) : Gap (region = .ahead) (u ++ g) rest := by
  cases p with
  | token k => exact absurd rfl (hp k)
  | unrecognized => exact absurd rfl hq
  | lineComment =>
    obtain ⟨v, rfl, hv, hr⟩ := hu
    exact .lineComment hv hr h
  | blockComment slashFirst closed =>
    cases closed with
    | true =>
      obtain ⟨v, rfl, hv⟩ := hu
      exact .blockComment hv h
    | false =>
      obtain ⟨v, rfl, hv, hr⟩ := hu
      obtain ⟨rfl, rfl⟩ := List.append_eq_nil_iff.1 hr
      simpa using Gap.openComment hv
  | layout =>
    obtain ⟨c, rfl, hc⟩ := hu
    exact .layout hc h
  | template =>
    obtain ⟨hr, c, rfl, hc⟩ := hu
    exact .template hr hc h

theorem Woven.behind {region : Region} {p : Piece} {i : Nat} {u cs : List Char} {ts : List Token}
    {aborted : Bool} (hu : Piece.Fits region p u cs) (hp : ∀ k, p ≠ .token k)
    (hq : p ≠ .unrecognized) (h : Woven region (i + u.length) cs ts aborted) :
    Woven region i (u ++ cs) ts aborted := by
  cases h with
  | stop hg =>
    have hg' := Gap.behind (by simpa using hu) hp hq hg
    exact .stop hg'
  | @abort _ _ g c rest t hg ht =>
    have hg' := Gap.behind hu hp hq hg
    rw [← List.append_assoc]
    refine .abort hg' ?_
    rw [List.length_append, ← Nat.add_assoc]
    exact ht
  | @token _ _ g w rest t ts _ hg ht hts =>
    have hg' := Gap.behind hu hp hq hg
    rw [← List.append_assoc]
    refine .token hg' ?_ ?_
    · rw [List.length_append, ← Nat.add_assoc]
      exact ht
    · rw [List.length_append, ← Nat.add_assoc]
      exact hts

/-! ## The scan -/

namespace Scan

@[simp] theorem withWarnings_tokens (ds : List Diagnostic) (s : Scan) :
    (s.withWarnings ds).tokens = s.tokens := by
  induction ds with
  | nil => rfl
  | cons d ds ih => exact ih

@[simp] theorem withWarnings_aborted (ds : List Diagnostic) (s : Scan) :
    (s.withWarnings ds).aborted = s.aborted := by
  induction ds with
  | nil => rfl
  | cons d ds ih => exact ih

@[simp] theorem withWarnings_region (ds : List Diagnostic) (s : Scan) :
    (s.withWarnings ds).region = s.region := by
  induction ds with
  | nil => rfl
  | cons d ds ih => exact ih

theorem offset_after (l : Location) (text : List Char) :
    (l.after text).offset = l.offset + text.length := by
  induction text generalizing l with
  | nil => simp
  | cons c r ih =>
    rw [Location.after_cons, ih, List.length_cons]
    unfold Location.step
    split
    · simp only
      omega
    · simp only
      omega

theorem standsAt_cut {kind : Token.Kind} {l : Location} {i : Nat} {w rest : List Char}
    (hl : l.offset = i) (hw : w ≠ []) (h : Piece.IsToken kind w rest) :
    Token.StandsAt ⟨kind, String.ofList w, ⟨l, l.after w⟩⟩ i w rest where
  start := hl
  stop := by
    rw [offset_after, hl]
    simp
  text := rfl
  nonempty := hw
  token := h

def Weaves (region : Region) (i : Nat) (cs : List Char) (s : Scan) : Prop :=
  ∃ ts e, s.tokens = ts ++ [e] ∧ e.kind = .endMark ∧ Woven region i cs ts s.aborted

variable {region : Region} {i : Nat} {c : Char} {r : List Char} {s : Scan}

theorem weaves_behind (hp : ∀ k, (Piece.next region c r).piece ≠ .token k)
    (hq : (Piece.next region c r).piece ≠ .unrecognized)
    (h : Weaves region (i + (Piece.next region c r).text.length) (Piece.next region c r).rest s) :
    Weaves region i (c :: r) s := by
  obtain ⟨ts, e, hs, he, hw⟩ := h
  have hcut := (Piece.next_of region c r).1
  refine ⟨ts, e, hs, he, ?_⟩
  rw [← hcut]
  exact hw.behind (Piece.next_fits region c r) hp hq

theorem ofText_weaves (line? : Int → Option String) (region : Region) (l : Location)
    (cs : List Char) (i : Nat) (hl : l.offset = i) :
    Weaves region i cs (ofText line? region l cs) := by
  fun_induction ofText line? region l cs generalizing i with
  | case1 region l => exact ⟨[], .endAt l, rfl, rfl, .stop (.nil [])⟩
  | case2 region l c r cut stop hp =>
    have hcut := (Piece.next_of region c r).1
    have hfits := Piece.next_fits region c r
    rw [hp] at hfits
    obtain ⟨⟨d, hd⟩, ht⟩ := hfits
    have hstands := standsAt_cut hl (Piece.next_of region c r).2 ht
    refine ⟨[⟨.unknown, String.ofList cut.text, ⟨l, stop⟩⟩], .abortAt stop, rfl, rfl, ?_⟩
    rw [← hcut, hd]
    rw [hd] at hstands
    have hw : Woven region i (d :: (Piece.next region c r).rest)
        [⟨.unknown, String.ofList [d], ⟨l, l.after [d]⟩⟩] true := .abort (.nil _) hstands
    simpa [cut, stop, hd, abort] using hw
  | case3 region l c r cut stop kind hp ih =>
    have hcut := (Piece.next_of region c r).1
    have hfits := Piece.next_fits region c r
    rw [hp] at hfits
    have hstands := standsAt_cut hl (Piece.next_of region c r).2 hfits
    obtain ⟨ts, e, hs, he, hw⟩ := ih (i + cut.text.length) (by rw [offset_after, hl]; rfl)
    refine ⟨⟨kind, String.ofList cut.text, ⟨l, stop⟩⟩ :: ts, e, ?_, he, ?_⟩
    · simp only [withToken, hs]
      rfl
    · rw [← hcut]
      exact .token (.nil _) hstands hw
  | case4 region l c r cut stop slashFirst closed hp ih =>
    have h := ih (i + cut.text.length) (by rw [offset_after, hl]; rfl)
    change (Piece.next region c r).piece = _ at hp
    refine weaves_behind (by simp [hp]) (by simp [hp]) ?_
    simpa [Weaves] using h
  | case5 region l c r cut stop hp ih | case6 region l c r cut stop hp ih
  | case7 region l c r cut stop hp ih =>
    have h := ih (i + cut.text.length) (by rw [offset_after, hl]; rfl)
    change (Piece.next region c r).piece = _ at hp
    exact weaves_behind (by simp [hp]) (by simp [hp]) h

end Scan

/-! ## What is woven is laid out in the text -/

theorem slice_append (before g rest : List Char) :
    slice (before ++ (g ++ rest)) before.length (before.length + g.length) = g := by
  unfold slice
  rw [← List.append_assoc, ← List.length_append, List.take_left, List.drop_left]

theorem drop_append (before g rest : List Char) :
    (before ++ (g ++ rest)).drop (before.length + g.length) = rest := by
  rw [← List.append_assoc, ← List.length_append, List.drop_left]

theorem Gap.mono {ahead ahead' : Prop} {g rest : List Char} (h : Gap ahead g rest)
    (hi : ahead → ahead') : Gap ahead' g rest := by
  induction h with
  | nil rest => exact .nil rest
  | layout hc _ ih => exact .layout hc ih
  | lineComment hu hr _ ih => exact .lineComment hu hr ih
  | blockComment hu _ ih => exact .blockComment hu ih
  | openComment hu => exact .openComment hu
  | template ha hc _ ih => exact .template (hi ha) hc ih

theorem regionAfter_ahead {region : Region} {k : Token.Kind}
    (h : Piece.regionAfter region (.token k) = .ahead) : region = .ahead ∧ k ≠ .openTag := by
  unfold Piece.regionAfter at h
  split at h
  · cases h
  · cases h
  · rename_i hopen _
    exact ⟨h, fun hk => hopen (by rw [hk])⟩

def lastEnd (i : Nat) (ts : List Token) : Nat := (ts.getLast?.map Token.ends).getD i

def firstBegin (text : List Char) (ts : List Token) : Nat :=
  (ts.head?.map Token.begins).getD text.length

theorem lastEnd_cons (i : Nat) (t : Token) (ts : List Token) :
    lastEnd i (t :: ts) = lastEnd t.ends ts := by
  unfold lastEnd
  rw [List.getLast?_cons]
  cases ts.getLast? <;> rfl

section
variable {region : Region} {i : Nat} {cs : List Char} {ts : List Token} {aborted : Bool}

theorem Woven.stands (h : Woven region i cs ts aborted) :
    ∀ t ∈ ts, ∃ u w rest, cs = u ++ (w ++ rest) ∧ t.StandsAt (i + u.length) w rest := by
  induction h with
  | stop _ => simp
  | @abort _ _ g c rest t _ ht =>
    intro t' hm
    obtain rfl := List.mem_singleton.1 hm
    exact ⟨g, [c], rest, rfl, ht⟩
  | @token _ i g w rest t ts _ _ ht _ ih =>
    intro t' hm
    rcases List.mem_cons.1 hm with rfl | hm
    · exact ⟨g, w, rest, rfl, ht⟩
    · obtain ⟨u, w', rest', rfl, ht'⟩ := ih t' hm
      refine ⟨g ++ (w ++ u), w', rest', by simp, ?_⟩
      have hpos : i + (g ++ (w ++ u)).length = i + g.length + w.length + u.length := by
        simp only [List.length_append]
        omega
      rw [hpos]
      exact ht'

theorem Woven.ordered (h : Woven region i cs ts aborted) :
    ts.Pairwise fun a b => a.ends ≤ b.begins := by
  induction h with
  | stop _ => exact .nil
  | abort _ _ => exact List.pairwise_singleton _ _
  | token _ ht hts ih =>
    refine List.pairwise_cons.2 ⟨fun b hb => ?_, ih⟩
    obtain ⟨u, w', rest', -, hb'⟩ := hts.stands b hb
    rw [ht.ends_eq, hb'.begins_eq]
    omega

theorem first_gap {before g rest : List Char} {vs : List Token}
    (hg : Gap (region = .ahead) g rest)
    (hv : firstBegin (before ++ (g ++ rest)) vs = before.length + g.length) :
    Gap (region = .ahead ∧ ∀ t ∈ ([] : List Token), t.kind ≠ .openTag)
      (slice (before ++ (g ++ rest)) (lastEnd before.length [])
        (firstBegin (before ++ (g ++ rest)) vs))
      ((before ++ (g ++ rest)).drop (firstBegin (before ++ (g ++ rest)) vs)) := by
  have hlast : lastEnd before.length [] = before.length := rfl
  rw [hv, hlast, slice_append, drop_append]
  exact hg.mono fun hr => ⟨hr, by simp⟩

theorem Woven.gaps (h : Woven region i cs ts aborted) {before : List Char}
    (hb : before.length = i) (us vs : List Token) (hts : ts = us ++ vs)
    (hvs : vs ≠ [] ∨ aborted = false) :
    Gap (region = .ahead ∧ ∀ t ∈ us, t.kind ≠ .openTag)
      (slice (before ++ cs) (lastEnd i us) (firstBegin (before ++ cs) vs))
      ((before ++ cs).drop (firstBegin (before ++ cs) vs)) := by
  induction h generalizing before us with
  | @stop region i g hg =>
    subst hb
    obtain ⟨rfl, rfl⟩ := List.append_eq_nil_iff.1 hts.symm
    have hv : firstBegin (before ++ (g ++ [])) [] = before.length + g.length := by
      simp [firstBegin]
    simpa using first_gap hg hv
  | @abort region i g c rest t hg ht =>
    subst hb
    cases us with
    | nil =>
      subst hts
      exact first_gap hg ht.begins_eq
    | cons t' us =>
      -- Behind the token that ends the scan nothing is said.
      obtain ⟨-, hnil⟩ := List.cons.inj hts
      obtain ⟨rfl, rfl⟩ := List.append_eq_nil_iff.1 hnil.symm
      simp at hvs
  | @token region i g w rest t ts _ hg ht _ ih =>
    subst hb
    cases us with
    | nil =>
      subst hts
      exact first_gap hg ht.begins_eq
    | cons t' us =>
      obtain ⟨rfl, rfl⟩ := List.cons.inj hts
      have hlen : (before ++ (g ++ w)).length = before.length + g.length + w.length := by
        simp only [List.length_append]
        omega
      have hsplit : before ++ (g ++ (w ++ rest)) = (before ++ (g ++ w)) ++ rest := by simp
      have hgap := ih hlen us rfl hvs
      rw [lastEnd_cons, ht.ends_eq, hsplit]
      refine hgap.mono fun ⟨hr, hus⟩ => ?_
      obtain ⟨hregion, hopen⟩ := regionAfter_ahead hr
      exact ⟨hregion, by simpa using ⟨hopen, hus⟩⟩

/-- A token that begins where another ends begins with what follows the other. -/
theorem Woven.adjacent (h : Woven region i cs ts aborted) {a b : Token} (ha : a ∈ ts) (hb : b ∈ ts)
    (hab : a.span.stop.offset = b.span.start.offset) :
    ∃ w rest c w' rest', Piece.IsToken a.kind w rest ∧ Piece.IsToken b.kind (c :: w') rest' ∧
      a.text = String.ofList w ∧ b.text = String.ofList (c :: w') ∧ c ∈ rest.head? := by
  obtain ⟨u, w, rest, hcs, hsa⟩ := h.stands a ha
  obtain ⟨u', w', rest', hcs', hsb⟩ := h.stands b hb
  obtain ⟨c, r, rfl⟩ := List.exists_cons_of_ne_nil hsb.nonempty
  refine ⟨w, rest, c, r, rest', hsa.token, hsb.token, hsa.text, hsb.text, ?_⟩
  rw [hsa.stop, hsb.start] at hab
  have hlen : (u ++ w).length = u'.length := by
    rw [List.length_append]
    omega
  have hsame : (u ++ w) ++ rest = u' ++ ((c :: r) ++ rest') := by
    rw [List.append_assoc, ← hcs, hcs']
  rw [(List.append_inj hsame hlen).2]
  rfl

/-- Runs of characters of one class are as long as they can be, so no two of them touch. -/
theorem Woven.runs_apart (h : Woven region i cs ts aborted) {p : Char → Bool}
    {K : Token.Kind → Prop} (hK : ∀ k w rest, Piece.IsToken k w rest → K k →
      (∀ c ∈ w, p c = true) ∧ ∀ c ∈ rest.head?, p c = false)
    {a b : Token} (ha : a ∈ ts) (hb : b ∈ ts) (hab : a.span.stop.offset = b.span.start.offset) :
    ¬ (K a.kind ∧ K b.kind) := by
  rintro ⟨hka, hkb⟩
  obtain ⟨w, rest, c, w', rest', hta, htb, -, -, hc⟩ := h.adjacent ha hb hab
  have hno := (hK _ _ _ hta hka).2 c hc
  have hyes := (hK _ _ _ htb hkb).1 c (by simp)
  rw [hno] at hyes
  cases hyes

end

/-! ## All of it -/

structure Lossless (text : List Char) (aborted : Bool) (ts : List Token) : Prop where
  kinds : ∀ t ∈ ts, t.kind ≠ .endMark
  inside : ∀ t ∈ ts, 0 ≤ t.span.start.offset ∧ t.span.start.offset < t.span.stop.offset ∧
    t.span.stop.offset ≤ text.length
  texts : ∀ t ∈ ts, t.text.toList = slice text t.begins t.ends
  ordered : ts.Pairwise fun a b => a.span.stop.offset ≤ b.span.start.offset
  gaps : ∀ us vs, ts = us ++ vs → vs ≠ [] ∨ aborted = false →
    Gap (∀ t ∈ us, t.kind ≠ .openTag) (slice text (lastEnd 0 us) (firstBegin text vs))
      (text.drop (firstBegin text vs))
  numbers : ∀ a ∈ ts, ∀ b ∈ ts, a.span.stop.offset = b.span.start.offset →
    ¬ (a.kind = .number ∧ b.kind = .number)
  words : ∀ a ∈ ts, ∀ b ∈ ts, a.span.stop.offset = b.span.start.offset →
    ¬ (Piece.IsWord a.kind ∧ Piece.IsWord b.kind)
  slashes : ∀ a ∈ ts, ∀ b ∈ ts, a.span.stop.offset = b.span.start.offset →
    ¬ (a.text = "/" ∧ (b.text = "/" ∨ b.text = "*"))

theorem Woven.lossless {text : List Char} {ts : List Token} {aborted : Bool}
    (h : Woven .ahead 0 text ts aborted) : Lossless text aborted ts where
  kinds t ht := by
    obtain ⟨u, w, rest, -, hs⟩ := h.stands t ht
    exact hs.token.kind
  inside t ht := by
    obtain ⟨u, w, rest, rfl, hs⟩ := h.stands t ht
    have := List.length_pos_iff.2 hs.nonempty
    rw [hs.start, hs.stop]
    simp only [List.length_append]
    omega
  texts t ht := by
    obtain ⟨u, w, rest, rfl, hs⟩ := h.stands t ht
    rw [hs.begins_eq, hs.ends_eq, hs.text, Nat.zero_add, slice_append, String.toList_ofList]
  ordered := by
    refine h.ordered.imp_of_mem fun ha hb hab => ?_
    obtain ⟨u, w, rest, -, hsa⟩ := h.stands _ ha
    obtain ⟨u', w', rest', -, hsb⟩ := h.stands _ hb
    rw [hsa.ends_eq, hsb.begins_eq] at hab
    rw [hsa.stop, hsb.start]
    omega
  gaps us vs hts hvs := by
    have hlen : ([] : List Char).length = 0 := rfl
    have hgap := h.gaps hlen us vs hts hvs
    rw [List.nil_append] at hgap
    exact hgap.mono fun hr => hr.2
  numbers a ha b hb hab := h.runs_apart (fun _ _ _ ht => ht.number) ha hb hab
  words a ha b hb hab := h.runs_apart (fun _ _ _ ht => ht.word) ha hb hab
  slashes a ha b hb hab := by
    rintro ⟨hsa, hsb⟩
    obtain ⟨w, rest, c, w', rest', hta, -, hw, hw', hc⟩ := h.adjacent ha hb hab
    have hslash : w = ['/'] := by
      have := congrArg String.toList (hw.symm.trans hsa)
      simpa using this
    obtain ⟨hne, hne'⟩ := hta.slash hslash c hc
    rw [hw'] at hsb
    rcases hsb with hb | hb
    · have := congrArg String.toList hb
      simp [hne] at this
    · have := congrArg String.toList hb
      simp [hne'] at this

/-- Every scan loses nothing: its tokens up to the end mark are all that the source holds, apart from
gaps. -/
theorem scan_lossless (source : String) (file : Option String) :
    ∃ ts e, (scan source file).tokens = ts ++ [e] ∧ e.kind = .endMark ∧
      Lossless source.toList (scan source file).aborted ts := by
  obtain ⟨ts, e, hs, he, hw⟩ := Scan.ofText_weaves (Text.line? (sourceLines source)) .ahead
    (.first file) source.toList 0 rfl
  exact ⟨ts, e, hs, he, hw.lossless⟩

end TemplateScript
