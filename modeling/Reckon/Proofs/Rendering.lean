import Reckon.Proofs.Bounds
import Reckon.Proofs.Derivation
import Reckon.Proofs.Folding
import Reckon.Proofs.Lexing
import Reckon.Tree.Printer

/-!
The texts of a tree. A tree whose leaves were read from a text and whose other nodes are
operators can be written both ways, since its numbers are short enough. Its source splits
into legal pieces: parentheses, operators and spaces keep the numbers apart.
-/

namespace Reckon

open Scanner

/-- A number token with the value that its text is read as. -/
structure Token.Genuine (t : Token) (run : List Char) (v : Number) : Prop where
  numeral : ∀ c ∈ run, isNumeral c
  legal : LegalRun run
  value : numeralValue? run = some v
  kind : t.kind = .number v
  lexeme : t.lexeme = String.ofList run

/-- A token as it is read from a piece of text. -/
inductive Token.From (t : Token) : Piece → Prop where
  | operator {c : Char} (hkind : Kind.ofChar? c = some t.kind)
      (hlexeme : t.lexeme = String.ofList [c]) : From t (.operator c)
  | numeral {run : List Char} {v : Number} (h : t.Genuine run v) : From t (.numeral run)

/-- Every token of a text comes from one of its pieces. -/
theorem from_of_mem {cs : List Char} {ps : List Piece} (h : Splits cs ps)
    (hlegal : ∀ piece ∈ ps, piece.Legal) {p : Position} (hp : p.rest = cs) {t : Token}
    (ht : t ∈ tokensFrom p ps) : ∃ piece, t.From piece := by
  induction h generalizing p with
  | nil => simp [tokensFrom] at ht
  | @single c cs ps hc h ih =>
    rcases List.mem_append.mp ht with ht | ht
    · obtain ⟨kind, hkind, rfl⟩ := Option.map_eq_some_iff.mp (Option.mem_toList.mp ht)
      rcases Piece.single_cases c with ⟨-, heq⟩ | ⟨-, _, -, heq⟩ | ⟨-, -, heq⟩ <;> rw [heq] at hkind
      · cases hkind
      · refine ⟨_, .operator hkind ?_⟩
        rw [Piece.chars_single]
        exact Token.lexeme_advance hp _
      · cases hkind
    · rw [Piece.chars_single] at ht
      exact ih (fun q hq => hlegal q (by simp [hq])) (Position.rest_advance hp) ht
  | @numeral run cs rest ps hne hrun hrest hcs h ih =>
    rcases List.mem_append.mp ht with ht | ht
    · obtain ⟨kind, hkind, rfl⟩ := Option.map_eq_some_iff.mp (Option.mem_toList.mp ht)
      obtain ⟨v, hv, rfl⟩ := Option.map_eq_some_iff.mp hkind
      exact ⟨_, .numeral ⟨hrun, hlegal (.numeral run) (by simp), hv, rfl,
        Token.lexeme_advanceAll (hp.trans hcs) _⟩⟩
    · exact ih (fun q hq => hlegal q (by simp [hq])) (Position.rest_advanceAll (hp.trans hcs)) ht

namespace Token

variable {t : Token}

/-- The value, if there is one, is short enough to be written. -/
def Legible (t : Token) : Prop := ∀ v ∈ t.value?, v.text? = some v.text

/-- All of the value. -/
def valueText (t : Token) : String := (t.value?.map Number.text).getD "None"

theorem Legible.leafText_eq (h : t.Legible) : Tree.leafText t = .ok t.valueText := by
  rw [Tree.leafText, valueText]
  cases hvalue : t.value? with
  | none => rfl
  | some v => rw [Number.textOrNone?, h v hvalue]; rfl

section
variable {v : Number}

theorem value?_of_kind (h : t.kind = .number v) : t.value? = some v := by
  rw [value?, h]
  rfl

theorem valueText_of_kind (h : t.kind = .number v) : t.valueText = v.text := by
  rw [valueText, value?_of_kind h]
  rfl

theorem legible_of_kind (h : t.kind = .number v) (hv : v.InBounds) : t.Legible := by
  intro w hw
  rw [value?_of_kind h] at hw
  obtain rfl := Option.some.inj hw
  exact hv.text?_eq

theorem Genuine.inBounds {run : List Char} (h : t.Genuine run v) : v.InBounds :=
  inBounds_of_numeralValue? h.numeral h.value

theorem Genuine.legible {run : List Char} (h : t.Genuine run v) : t.Legible :=
  legible_of_kind h.kind h.inBounds

theorem Genuine.valueText_eq {run : List Char} (h : t.Genuine run v) : t.valueText = v.text :=
  valueText_of_kind h.kind

end

theorem represent?_operator {c : Char} (h : t.tag.symbol? = some c) :
    t.represent? = some t.tag.name := by
  unfold tag represent? at *
  cases hkind : t.kind with
  | number v =>
    rw [hkind] at h
    cases h
  | _ => rfl

end Token

namespace Tree

/-! ### The names of the operators -/

section
variable {op : Token} {c : Char} (hop : op.tag.symbol? = some c)
include hop

theorem represent_unary {x : Tree} {s : String} (hx : x.represent = .ok s) :
    (unary op x).represent = .ok ("(" ++ op.tag.name ++ ", " ++ s ++ ")") := by
  simp only [represent, fold_eq_collapse] at hx ⊢
  rw [collapse, hx]
  simp only [Token.represent?_operator hop]
  rfl

theorem represent_binary {l r : Tree} {s s' : String} (hl : l.represent = .ok s)
    (hr : r.represent = .ok s') :
    (binary l op r).represent = .ok ("(" ++ s ++ ", " ++ op.tag.name ++ ", " ++ s' ++ ")") := by
  simp only [represent, fold_eq_collapse] at hl hr ⊢
  rw [collapse, hl, hr]
  simp only [Token.represent?_operator hop]
  rfl

end

/-- Operators stand above the leaves, and the values at the leaves can be written. -/
inductive Legible : Tree → Prop where
  | number {t : Token} (h : t.Legible) : Legible (.number t)
  | unary {op : Token} {c : Char} {x : Tree} (hop : op.tag.symbol? = some c) (hx : Legible x) :
      Legible (.unary op x)
  | binary {op : Token} {c : Char} {l r : Tree} (hop : op.tag.symbol? = some c) (hl : Legible l)
      (hr : Legible r) : Legible (.binary l op r)

/-- The characters of the representation. -/
def written : Tree → List Char
  | number t => t.valueText.toList
  | unary op x => '(' :: (op.tag.name.toList ++ ',' :: ' ' :: (x.written ++ [')']))
  | binary l op r =>
    '(' :: (l.written ++ ',' :: ' ' :: (op.tag.name.toList ++ ',' :: ' ' :: (r.written ++ [')'])))

theorem Legible.represent_eq {t : Tree} (h : t.Legible) :
    t.represent = .ok (String.ofList t.written) := by
  induction h with
  | number h =>
    rw [represent, fold_eq_collapse, written, String.ofList_toList]
    exact h.leafText_eq
  | unary hop _ ih =>
    rw [represent_unary hop ih, written, Except.ok.injEq, ← String.toList_inj]
    simp
  | binary hop _ _ ihl ihr =>
    rw [represent_binary hop ihl ihr, written, Except.ok.injEq, ← String.toList_inj]
    simp

/-! ### The source -/

/-- Leaves are numbers as they are read, signs stand in front of operands and operators
between them. -/
inductive Proper : Tree → Prop where
  | number {t : Token} {run : List Char} {v : Number} (h : t.Genuine run v) : Proper (.number t)
  | unary {op : Token} {x : Tree} (hop : Grammar.isSign op.tag) (hx : Proper x) :
      Proper (.unary op x)
  | binary {l r : Tree} {op : Token} {c : Char} (hop : op.tag.symbol? = some c) (hl : Proper l)
      (hr : Proper r) : Proper (.binary l op r)

/-- How an operator is written; what is no operator is never written. -/
def mark (op : Token) : Char := op.tag.symbol?.getD ' '

def enclose (ps : List Piece) : List Piece := .operator '(' :: (ps ++ [.operator ')'])

/-- The text of a tree by pieces, with every operation in parentheses. -/
def pieces : Tree → List Piece
  | number t => [.numeral t.lexeme.toList]
  | unary op x => enclose (.operator (mark op) :: x.pieces)
  | binary l op r =>
    enclose (l.pieces ++ .spacing ' ' :: .operator (mark op) :: .spacing ' ' :: r.pieces)

/-- The text of a tree, its pieces one after the other. -/
def source (t : Tree) : String := String.ofList (t.pieces.flatMap Piece.chars)

theorem symbolOf_eq {op : Token} {c : Char} (h : op.tag.symbol? = some c) :
    symbolOf op = .ok (String.singleton (mark op)) := by
  simp [symbolOf, mark, h]

theorem symbol_of_joins {l : Grammar.Level} {op : Token} (h : l.joins op.tag) :
    ∃ c, op.tag.symbol? = some c := by
  cases l <;> cases htag : op.tag <;>
    simp_all [Grammar.Level.joins, Grammar.isSign, Grammar.isScaling, Tag.symbol?]

theorem Proper.legible {t : Tree} (h : Proper t) : t.Legible := by
  induction h with
  | number h => exact .number h.legible
  | unary hop _ ih =>
    obtain ⟨c, hc⟩ := symbol_of_joins (l := .sum) hop
    exact .unary hc ih
  | binary hop _ _ ihl ihr => exact .binary hop ihl ihr

theorem toSource_eq {t : Tree} (h : Proper t) :
    t.toSource = .ok t.source := by
  rw [toSource, fold_eq_collapse]
  induction h with
  | number h =>
    obtain ⟨c, hc, -⟩ := h.legal.digit
    have hne := List.ne_nil_of_mem hc
    simp [collapse, source, pieces, Piece.chars, h.lexeme, hne, pure, Except.pure]
  | unary hop hx ih =>
    obtain ⟨c, hc⟩ := symbol_of_joins (l := .sum) hop
    rw [collapse, ih]
    simp only [symbolOf_eq hc, pure, Except.pure, bind, Except.bind, Except.ok.injEq]
    rw [← String.toList_inj]
    simp [source, pieces, enclose, Piece.chars]
  | binary hop hl hr ihl ihr =>
    rw [collapse, ihl, ihr]
    simp only [symbolOf_eq hop, pure, Except.pure, bind, Except.bind, Except.ok.injEq]
    rw [← String.toList_inj]
    simp [source, pieces, enclose, Piece.chars]

theorem ofChar?_mark {op : Token} {c : Char} (h : op.tag.symbol? = some c) :
    Kind.ofChar? (mark op) = some op.kind := by
  unfold mark Token.tag at *
  generalize op.kind = kind at *
  cases kind <;> simp_all [Kind.tag, Tag.symbol?, Kind.ofChar?]

/-- Whatever follows the text of a tree is split as if it stood alone, unless it could go
on with a number. -/
theorem splits_pieces {t : Tree} (h : Proper t) {cs : List Char} {ps : List Piece}
    (hcs : Bounded cs) (hps : Splits cs ps) :
    Splits (t.pieces.flatMap Piece.chars ++ cs) (t.pieces ++ ps) := by
  induction h generalizing cs ps with
  | number h =>
    obtain ⟨c, hc, -⟩ := h.legal.digit
    simp only [pieces, h.lexeme, String.toList_ofList]
    exact .numeral (List.ne_nil_of_mem hc) h.numeral hcs (by simp [Piece.chars]) hps
  | unary hop hx ih =>
    obtain ⟨c, hc⟩ := symbol_of_joins (l := .sum) hop
    simp only [pieces, enclose, Piece.chars, List.cons_append, List.append_assoc,
      List.flatMap_cons, List.flatMap_append]
    refine Splits.operator rfl (Splits.operator (ofChar?_mark hc) (ih ?_ ?_))
    · exact bounded_cons.mpr rfl
    · exact Splits.operator rfl hps
  | binary hop hl hr ihl ihr =>
    simp only [pieces, enclose, Piece.chars, List.cons_append, List.append_assoc,
      List.flatMap_cons, List.flatMap_append]
    refine Splits.operator rfl (ihl (bounded_cons.mpr rfl) (.single rfl ?_))
    refine Splits.operator (ofChar?_mark hop) (.single rfl (ihr (bounded_cons.mpr rfl) ?_))
    exact Splits.operator rfl hps

theorem legal_pieces {t : Tree} (h : Proper t) : ∀ piece ∈ t.pieces, piece.Legal := by
  induction h with
  | number h =>
    simp only [pieces, h.lexeme, String.toList_ofList, List.mem_singleton, forall_eq]
    exact h.legal
  | unary hop hx ih => simpa [pieces, enclose, or_imp, forall_and, Piece.Legal] using ih
  | binary hop hl hr ihl ihr =>
    simpa [pieces, enclose, or_imp, forall_and, Piece.Legal] using ⟨ihl, ihr⟩

theorem splits_source {t : Tree} (h : Proper t) : Splits t.source.toList t.pieces := by
  simpa [source] using splits_pieces h bounded_nil .nil

end Tree

end Reckon
