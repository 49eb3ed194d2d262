import TemplateScript.Proofs.ExpressionScript
import TemplateScript.Proofs.Permanence
import TemplateScript.Proofs.ScopeHistory

/-!
# Values are spelled as scripts

The spelling of a value between tags is a script of that value, as long as every key is a word that
is no keyword and every number may be written as a literal. A value is first a tree, whose tokens the
spelling is scanned as, and which evaluates to the value where the names of a fresh global scope mean
what they are spelled for.
-/

namespace TemplateScript

open Numeral (IsLiteral)

structure IsKey (key : String) : Prop where
  nonempty : key.toList ≠ []
  cased : ∀ c ∈ key.toList, Text.isCased c = true
  notLet : key ≠ "let"
  notConst : key ≠ "const"

theorem isKey_iff {key : String} : IsKey key ↔ key.toList ≠ [] ∧
    key.toList.all Text.isCased = true ∧ key ≠ "let" ∧ key ≠ "const" := by
  rw [List.all_eq_true]
  exact ⟨fun h => ⟨h.nonempty, h.cased, h.notLet, h.notConst⟩,
    fun ⟨hne, hcased, hlet, hconst⟩ => ⟨hne, hcased, hlet, hconst⟩⟩

instance (key : String) : Decidable (IsKey key) := decidable_of_iff _ isKey_iff.symm

namespace Value

inductive Spellable : Value → Prop
  | null : Spellable null
  | bool (b : Bool) : Spellable (bool b)
  | number {n : Int} : IsLiteral n → Spellable (int n)
  | object {ps : List (String × Value)} : (ps.map Prod.fst).Nodup → (∀ p ∈ ps, IsKey p.1) →
      (∀ p ∈ ps, Spellable p.2) → Spellable (object ps)

mutual

def toNode : Value → Node
  | null => .identifier none "null"
  | bool b => .identifier none (if b then "true" else "false")
  | number n => .literal none n
  | object ps => .object none (toNodes ps)

def toNodes : List (String × Value) → List Node
  | [] => []
  | (key, v) :: ps => .property none key (toNode v) :: toNodes ps

end

theorem toNode_isAbsent (v : Value) : v.toNode.isAbsent = false := by
  cases v <;> rw [toNode] <;> rfl

theorem mem_toNodes {ps : List (String × Value)} {n : Node} (h : n ∈ toNodes ps) :
    ∃ p ∈ ps, n = .property none p.1 p.2.toNode := by
  induction ps with
  | nil => cases h
  | cons p ps ih =>
    obtain ⟨key, v⟩ := p
    rw [toNodes] at h
    rcases List.mem_cons.1 h with rfl | h
    · exact ⟨(key, v), List.mem_cons_self, rfl⟩
    · obtain ⟨q, hq, rfl⟩ := ih h
      exact ⟨q, List.mem_cons_of_mem _ hq, rfl⟩

theorem Spellable.isExpression {v : Value} (h : v.Spellable) :
    Node.IsExpression IsLiteral v.toNode := by
  induction h with
  | null =>
    rw [toNode]
    exact .identifier none "null"
  | bool b =>
    rw [toNode]
    exact .identifier none _
  | number hn =>
    rw [int, toNode]
    exact .literal none hn
  | object _ _ _ ih =>
    rw [toNode]
    refine .object none fun n hn => ?_
    obtain ⟨p, hp, rfl⟩ := mem_toNodes hn
    exact .keyed none p.1 (ih p hp)

end Value

theorem Node.enclosed_assignment (n : Node) (fs : List Face) : n.enclosed .assignment fs = fs := by
  have hrank : ¬ Grammar.Level.assignment.rank < n.level.rank := by
    cases n.level <;> decide
  rw [enclosed, if_neg hrank]

theorem Value.Spellable.renders {v : Value} (h : v.Spellable) :
    Grammar.Renders .assignment v.toNode.faces v.toNode := by
  have hrenders := (Grammar.renders_expression h.isExpression).enclosed .assignment
  rwa [Node.enclosed_assignment] at hrenders

/-! ## Spelling -/

theorem IsKey.lexeme {key : String} (h : IsKey key) : Lexeme (.identifier, key) := by
  have hword := Lexeme.word h.nonempty h.cased
  have hlet : key.toList ≠ "let".toList := fun he => h.notLet (String.toList_inj.1 he)
  have hconst : key.toList ≠ "const".toList := fun he => h.notConst (String.toList_inj.1 he)
  rw [Piece.word, if_neg hlet, if_neg hconst, String.ofList_toList] at hword
  exact hword

theorem Numeral.IsLiteral.lexeme {n : Int} (h : IsLiteral n) : Lexeme (.number, toString n) := by
  obtain ⟨k, rfl⟩ := Int.eq_ofNat_of_zero_le h.1
  have hl : (toString k).toList = Nat.toDigits 10 k := Nat.toList_repr
  have hdigits : ∀ c ∈ Nat.toDigits 10 k, Piece.isDigit c = true := by
    intro c hc
    have hdigit := Nat.isDigit_of_mem_toDigits (by decide) (by decide) hc
    simpa [Piece.isDigit, Char.isDigit, Char.le_def] using hdigit
  have hlexeme := Lexeme.digits Nat.toDigits_ne_nil hdigits
  rw [← hl, String.ofList_toList] at hlexeme
  exact hlexeme

theorem Lexed.sign {c d : Char} {k : Token.Kind} {cs : List Char} {fs : List Face}
    (hk : Piece.punctuation? c = some k) (hd : Piece.parts d = true) (h : Lexed (d :: cs) fs) :
    Lexed (c :: d :: cs) ((k, String.ofList [c]) :: fs) := by
  have hc := Lexed.lexeme (.punctuation hk)
  rw [String.toList_ofList] at hc
  exact hc.append hd h

theorem Lexed.word {w : String} (h : IsKey w) : Lexed w.toList [(.identifier, w)] :=
  .lexeme h.lexeme

namespace Value

theorem lexed_entry {key text : String} {v : Value} (hkey : IsKey key)
    (h : Lexed text.toList v.toNode.faces) :
    Lexed (key ++ ": " ++ text).toList (Node.property none key v.toNode).faces := by
  have hcolon : Lexed (':' :: ' ' :: text.toList) ((.colon, ":") :: v.toNode.faces) :=
    .sign rfl (by decide) h.space
  have hentry := (Lexed.word hkey).append (by decide) hcolon
  rw [Node.faces, toNode_isAbsent, Node.enclosed_assignment, String.toList_append,
    String.toList_append, List.append_assoc]
  exact hentry

theorem facesEach_toNodes (key : String) (v : Value) (ps : List (String × Value)) :
    Node.facesEach (toNodes ((key, v) :: ps))
      = (Node.property none key v.toNode).faces :: Node.facesEach (toNodes ps) := by
  rw [toNodes, Node.facesEach, Node.enclosed_assignment]

theorem lexed_rows : ∀ {ps : List (String × Value)}, ps ≠ [] → (∀ p ∈ ps, IsKey p.1) →
    (∀ p ∈ ps, ∃ text, p.2.spell = .ok text ∧ Lexed text.toList p.2.toNode.faces) →
    ∃ row rows, spellAll ps = .ok (row :: rows) ∧
      Lexed (", ".intercalate (row :: rows)).toList
        (Node.separated (Node.facesEach (toNodes ps)))
  | [], hne, _, _ => absurd rfl hne
  | [(key, v)], _, hkeys, hvalues => by
    obtain ⟨text, htext, hlexed⟩ := hvalues (key, v) (by simp)
    have hentry := lexed_entry (hkeys (key, v) (by simp)) hlexed
    refine ⟨key ++ ": " ++ text, [], ?_, ?_⟩
    · rw [spellAll, htext]
      rfl
    · rw [facesEach_toNodes, toNodes, Node.facesEach, Node.separated, String.intercalate_singleton]
      exact hentry
  | (key, v) :: (key', v') :: ps, _, hkeys, hvalues => by
    obtain ⟨text, htext, hlexed⟩ := hvalues (key, v) (by simp)
    have hentry := lexed_entry (hkeys (key, v) (by simp)) hlexed
    obtain ⟨row, rows, hrows, hmore⟩ := lexed_rows (List.cons_ne_nil (key', v') ps)
      (fun p hp => hkeys p (List.mem_cons_of_mem _ hp))
      (fun p hp => hvalues p (List.mem_cons_of_mem _ hp))
    refine ⟨key ++ ": " ++ text, row :: rows, ?_, ?_⟩
    · rw [spellAll, htext, hrows]
      rfl
    · have hcomma := Lexed.sign (c := ',') rfl (by decide) hmore.space
      have hboth := hentry.append (by decide) hcomma
      rw [facesEach_toNodes, facesEach_toNodes, Node.separated, ← facesEach_toNodes,
        String.intercalate_cons_cons, String.toList_append, String.toList_append, List.append_assoc]
      · exact hboth
      · simp

theorem lexed_braced {ps : List (String × Value)} {row : String} {rows : List String}
    (h : Lexed (", ".intercalate (row :: rows)).toList
      (Node.separated (Node.facesEach (toNodes ps)))) :
    Lexed (braced (row :: rows)).toList (Value.object ps).toNode.faces := by
  have hclose : Lexed (' ' :: ['\x7d']) [(.closeBrace, "\x7d")] :=
    .space (.lexeme (.punctuation (c := '\x7d') rfl))
  have hopen := Lexed.sign (c := '\x7b') rfl (by decide) (h.append (by decide) hclose).space
  have hrows : (row :: rows).isEmpty ≠ true := by simp
  rw [toNode, Node.faces, braced, if_neg hrows, String.toList_append, String.toList_append,
    List.append_assoc]
  exact hopen

/-- The spelling of a value is scanned as the tokens of its tree. -/
theorem Spellable.spelled {v : Value} (h : v.Spellable) :
    ∃ text, v.spell = .ok text ∧ Lexed text.toList v.toNode.faces := by
  induction h with
  | null =>
    refine ⟨"null", by rw [spell], ?_⟩
    rw [toNode, Node.faces]
    exact .word (by decide)
  | bool b =>
    refine ⟨if b then "true" else "false", by rw [spell], ?_⟩
    rw [toNode, Node.faces]
    cases b with
    | true => exact .word (by decide)
    | false => exact .word (by decide)
  | @number n hn =>
    refine ⟨toString n, ?_, ?_⟩
    · rw [int, spell, Number.spelling?, hn.write?]
      rfl
    · rw [int, toNode, Node.faces]
      exact .lexeme hn.lexeme
  | @object ps _ hkeys _ ih =>
    rw [spell]
    cases ps with
    | nil =>
      refine ⟨"\x7b\x7d", rfl, ?_⟩
      have hclose := Lexed.lexeme (.punctuation (c := '\x7d') rfl)
      rw [toNode, Node.faces, toNodes]
      exact .sign (c := '\x7b') rfl (by decide) hclose
    | cons p ps =>
      obtain ⟨row, rows, hrows, hlexed⟩ := lexed_rows (List.cons_ne_nil p ps) hkeys ih
      refine ⟨braced (row :: rows), ?_, lexed_braced hlexed⟩
      rw [hrows]
      rfl

end Value

/-! ## Evaluation -/

theorem Forest.nearest?_addGlobal (f : Forest) (x : String) :
    f.addGlobal.nearest? f.scopes.length x = Scope.global.binding? x := by
  have hpath : f.addGlobal.path f.scopes.length = [f.scopes.length] :=
    path_snoc_self (f := f) (t := .global) rfl
  rw [nearest?, owner?, hpath, ← f.addGlobal_binding? x]
  cases hb : f.addGlobal.binding? f.scopes.length x with
  | none => simp [hb]
  | some b => simp [hb]

namespace Value

variable {mode : Mode} {scope : Nat} {st : EvalState}

theorem evalProperties_toNodes {ps : List (String × Value)}
    (h : ∀ p ∈ ps, p.2.toNode.eval mode scope st = (.ok p.2, st)) (table : Table Value)
    (hkeys : ((table ++ ps).map Prod.fst).Nodup) :
    Node.evalProperties mode scope table (toNodes ps) st = (.ok (table ++ ps), st) := by
  induction ps generalizing table with
  | nil =>
    rw [toNodes, Node.evalProperties, List.append_nil]
    rfl
  | cons p ps ih =>
    obtain ⟨key, v⟩ := p
    have hput : table ++ (key, v) :: ps = table.put key v ++ ps := Table.append_cons_eq_put hkeys
    rw [hput] at hkeys ⊢
    rw [toNodes, Node.evalProperties, toNode_isAbsent, if_neg Bool.false_ne_true,
      Eval.bind_ok (h (key, v) List.mem_cons_self)]
    exact ih (fun q hq => h q (List.mem_cons_of_mem _ hq)) _ hkeys

/-- Where names mean what they do in a global scope, the tree of a value evaluates to it. -/
theorem Spellable.eval {v : Value} (h : v.Spellable)
    (hnames : ∀ x, st.forest.nearest? scope x = Scope.global.binding? x) :
    v.toNode.eval mode scope st = (.ok v, st) := by
  have hlookup : ∀ {x : String} {b : Binding}, Scope.global.binding? x = some b →
      Eval.lookup scope x none st = (.ok b.value, st) := by
    intro x b hb
    simp only [Eval.lookup, Eval.query, Forest.lookup, hnames, hb]
  induction h with
  | null =>
    rw [toNode, Node.eval]
    exact hlookup (b := ⟨.null, true⟩) rfl
  | bool b =>
    rw [toNode, Node.eval]
    cases b with
    | true => exact hlookup (b := ⟨.bool true, true⟩) rfl
    | false => exact hlookup (b := ⟨.bool false, true⟩) rfl
  | number hn =>
    rw [int, toNode, Node.eval]
    rfl
  | object hkeys _ _ ih =>
    rw [toNode, Node.eval, Eval.bind_ok (evalProperties_toNodes ih [] hkeys)]
    rfl

end Value

/-! ## Runs -/

theorem Diagnostics.eq_nil_of_unplaced {ds : Diagnostics} (h : ds.unplaced = []) : ds = [] :=
  List.map_eq_nil_iff.1 h

/-- In a fresh global scope the spelling of a value is a script of the value, and there is nothing to
report. -/
theorem spelled_value_runs {v : Value} (h : v.Spellable) (mode : Mode) (file : Option String)
    (f : Forest) : ∃ text, v.spell = .ok text ∧
      (run mode file ("<trans>" ++ text ++ "</trans>") f.scopes.length f.addGlobal).outcome
        = .ok ⟨true, v, .empty, none⟩ := by
  obtain ⟨text, htext, hlexed⟩ := h.spelled
  have heval : v.toNode.eval mode f.scopes.length ⟨f.addGlobal, .empty⟩
      = (.ok v, ⟨f.addGlobal, .empty⟩) := h.eval f.nearest?_addGlobal
  have hrun := run_script hlexed h.renders mode file f.scopes.length f.addGlobal
  rw [execute_sole_ok heval] at hrun
  obtain ⟨ds, houtcome, hds⟩ := run_of_seen hrun
  obtain rfl := Diagnostics.eq_nil_of_unplaced hds
  exact ⟨text, htext, houtcome⟩

theorem nested_object_runs :
    (run .strict none "<trans>\x7b null: 7, größe: \x7b true: null, leer: \x7b\x7d \x7d \x7d</trans>" 0
      .start).outcome
      = .ok ⟨true, .object [("null", .int 7),
          ("größe", .object [("true", .null), ("leer", .object [])])], .empty, none⟩ := by
  have hkey : ∀ key ∈ ["null", "größe", "true", "leer"], IsKey key := by decide
  have hseven : IsLiteral 7 := by decide
  have hempty : (Value.object []).Spellable := .object (by simp) (by simp) (by simp)
  have hinner : (Value.object [("true", .null), ("leer", .object [])]).Spellable :=
    .object (by simp) (by simp [hkey]) (by simpa using ⟨.null, hempty⟩)
  have houter : (Value.object [("null", .int 7),
      ("größe", .object [("true", .null), ("leer", .object [])])]).Spellable :=
    .object (by simp) (by simp [hkey]) (by simpa using ⟨.number hseven, hinner⟩)
  obtain ⟨text, htext, hrun⟩ := spelled_value_runs houter .strict none .empty
  simp only [Value.spell, Value.spellAll, Value.int, Number.spelling?, hseven.write?] at htext
  obtain rfl : "\x7b null: 7, größe: \x7b true: null, leer: \x7b\x7d \x7d \x7d" = text :=
    Except.ok.inj htext
  exact hrun

end TemplateScript
