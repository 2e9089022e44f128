import Mathlib
import Reckon.Proofs.Listing
import Reckon.Proofs.Matching
import Reckon.Proofs.Tiling

/-!
The spans of the nodes of a tree. A node reaches from the start of its first token to the stop of
its last one, operands stand on their sides of the operator, and so one node has its span within
that of another exactly if it is a part of it, while nodes apart from each other have no text in
common.
-/

namespace Reckon

/-- Tokens none of which is empty or starts before the one in front of it stops. -/
structure Token.InSequence (ts : List Token) : Prop where
  nonempty : ∀ t ∈ ts, t.start.index < t.stop.index
  ordered : ts.Pairwise fun t u => t.stop.index ≤ u.start.index

namespace Token.InSequence

variable {ts us : List Token}

theorem sublist (h : InSequence ts) (hus : us.Sublist ts) : InSequence us :=
  ⟨fun t ht => h.nonempty t (hus.subset ht), h.ordered.sublist hus⟩

theorem head_le (h : InSequence ts) {first t : Token} (hfirst : first ∈ ts.head?) (ht : t ∈ ts) :
    first.start.index ≤ t.start.index := by
  obtain ⟨rest, rfl⟩ := List.head?_eq_some_iff.mp hfirst
  rcases List.mem_cons.mp ht with rfl | hrest
  · exact le_rfl
  · have hspan := h.nonempty first (by simp)
    have hstop := List.rel_of_pairwise_cons h.ordered hrest
    omega

theorem le_getLast (h : InSequence ts) {last t : Token} (hlast : last ∈ ts.getLast?)
    (ht : t ∈ ts) : t.stop.index ≤ last.stop.index := by
  obtain ⟨front, rfl⟩ := List.getLast?_eq_some_iff.mp hlast
  rcases List.mem_append.mp ht with hfront | htail
  · have hspan := h.nonempty last (by simp)
    have hstart := (List.pairwise_append.mp h.ordered).2.2 t hfront last (by simp)
    omega
  · obtain rfl := List.mem_singleton.mp htail
    exact le_rfl

end Token.InSequence

namespace Tree

theorem start_eq_head (t : Tree) : ∃ first ∈ t.inOrder.head?, t.start = first.start := by
  induction t with
  | number token => exact ⟨token, rfl, rfl⟩
  | unary op x ih => exact ⟨op, rfl, rfl⟩
  | binary l op r ihl ihr =>
    obtain ⟨first, hfirst, hstart⟩ := ihl
    refine ⟨first, ?_, hstart⟩
    rw [inOrder, List.head?_append, Option.mem_def.mp hfirst]
    rfl

theorem stop_eq_getLast (t : Tree) : ∃ last ∈ t.inOrder.getLast?, t.stop = last.stop := by
  induction t with
  | number token => exact ⟨token, rfl, rfl⟩
  | unary op x ih =>
    obtain ⟨last, hlast, hstop⟩ := ih
    refine ⟨last, ?_, hstop⟩
    rw [inOrder, List.getLast?_cons, Option.mem_def.mp hlast]
    rfl
  | binary l op r ihl ihr =>
    obtain ⟨last, hlast, hstop⟩ := ihr
    refine ⟨last, ?_, hstop⟩
    rw [inOrder, List.getLast?_append, List.getLast?_cons, Option.mem_def.mp hlast]
    rfl

theorem start_mem (t : Tree) : ∃ first ∈ t.inOrder, t.start = first.start := by
  obtain ⟨first, hfirst, hstart⟩ := t.start_eq_head
  exact ⟨first, List.mem_of_head? hfirst, hstart⟩

theorem stop_mem (t : Tree) : ∃ last ∈ t.inOrder, t.stop = last.stop := by
  obtain ⟨last, hlast, hstop⟩ := t.stop_eq_getLast
  exact ⟨last, List.mem_of_getLast? hlast, hstop⟩

/-- The ways down from a node. -/
theorem at?_cons_cases {t n : Tree} {branch : Branch} {path : List Branch}
    (h : t.at? (branch :: path) = some n) :
    (∃ op x, t = unary op x ∧ branch = .operand ∧ x.at? path = some n) ∨
      (∃ l op r, t = binary l op r ∧ branch = .left ∧ l.at? path = some n) ∨
      ∃ l op r, t = binary l op r ∧ branch = .right ∧ r.at? path = some n := by
  cases t with
  | number token => cases branch <;> cases h
  | unary op x =>
    cases branch with
    | operand => exact .inl ⟨op, x, rfl, rfl, h⟩
    | left => cases h
    | right => cases h
  | binary l op r =>
    cases branch with
    | operand => cases h
    | left => exact .inr (.inl ⟨l, op, r, rfl, rfl, h⟩)
    | right => exact .inr (.inr ⟨l, op, r, rfl, rfl, h⟩)

/-- The tokens of a node stand together in the listing of the whole tree. -/
theorem inOrder_at? {t n : Tree} {path : List Branch} (h : t.at? path = some n) :
    n.inOrder <:+: t.inOrder := by
  induction path generalizing t with
  | nil =>
    obtain rfl := Option.some.inj h
    exact List.infix_rfl
  | cons branch path ih =>
    rcases at?_cons_cases h with
      ⟨op, x, rfl, -, hx⟩ | ⟨l, op, r, rfl, -, hl⟩ | ⟨l, op, r, rfl, -, hr⟩
    · exact (ih hx).trans (List.suffix_cons op _).isInfix
    · exact (ih hl).trans (List.prefix_append _ _).isInfix
    · exact (ih hr).trans ((List.suffix_cons op _).trans (List.suffix_append _ _)).isInfix

/-- The operator stands between its operands, or in front of its only one, and they make up the
span of the node. -/
def InPlace : Tree → Prop
  | number _ => True
  | unary op x => op.start.index < op.stop.index ∧ op.stop.index ≤ x.start.index ∧
      (unary op x).start = op.start ∧ (unary op x).stop = x.stop
  | binary l op r => l.stop.index ≤ op.start.index ∧ op.start.index < op.stop.index ∧
      op.stop.index ≤ r.start.index ∧ (binary l op r).start = l.start ∧
      (binary l op r).stop = r.stop

theorem inPlace_of_inSequence {t : Tree} (h : Token.InSequence t.inOrder) : t.InPlace := by
  cases t with
  | number token => trivial
  | unary op x =>
    obtain ⟨first, hfirst, hstart⟩ := x.start_mem
    refine ⟨h.nonempty op (by simp [inOrder]), ?_, rfl, rfl⟩
    rw [hstart]
    exact List.rel_of_pairwise_cons h.ordered hfirst
  | binary l op r =>
    obtain ⟨last, hlast, hstop⟩ := l.stop_mem
    obtain ⟨first, hfirst, hstart⟩ := r.start_mem
    obtain ⟨-, hright, hacross⟩ := List.pairwise_append.mp h.ordered
    refine ⟨?_, h.nonempty op (by simp [inOrder]), ?_, rfl, rfl⟩
    · rw [hstop]
      exact hacross last hlast op (by simp)
    · rw [hstart]
      exact List.rel_of_pairwise_cons hright hfirst

/-- A node over a part of a text of some length, as its tokens have it. -/
structure Spanned (length : Nat) (n : Tree) : Prop where
  first : ∃ t ∈ n.inOrder.head?, n.start = t.start
  last : ∃ t ∈ n.inOrder.getLast?, n.stop = t.stop
  nonempty : n.start.index < n.stop.index
  inside : n.stop.index ≤ length
  inPlace : n.InPlace

/-- The span of a node lies within that of another. -/
def Within (n m : Tree) : Prop := m.start.index ≤ n.start.index ∧ n.stop.index ≤ m.stop.index

/-- No text belongs to both nodes. -/
def Clear (n m : Tree) : Prop := n.stop.index ≤ m.start.index ∨ m.stop.index ≤ n.start.index

section
variable {t n m : Tree} (h : Token.InSequence t.inOrder)
include h

theorem start_lt_stop : t.start.index < t.stop.index := by
  obtain ⟨first, hfirst, hstart⟩ := t.start_mem
  obtain ⟨last, hlast, hstop⟩ := t.stop_eq_getLast
  have hspan := h.nonempty first hfirst
  have hle := h.le_getLast hlast hfirst
  rw [hstart, hstop]
  omega

theorem spanned_of_inSequence {length : Nat} (hlength : ∀ u ∈ t.inOrder, u.stop.index ≤ length) :
    t.Spanned length where
  first := t.start_eq_head
  last := t.stop_eq_getLast
  nonempty := start_lt_stop h
  inside := by
    obtain ⟨last, hlast, hstop⟩ := t.stop_mem
    rw [hstop]
    exact hlength last hlast
  inPlace := inPlace_of_inSequence h

theorem within_at? {path : List Branch} (hn : t.at? path = some n) : n.Within t := by
  have hsubset := (inOrder_at? hn).subset
  obtain ⟨first, hfirst, hstart⟩ := t.start_eq_head
  obtain ⟨last, hlast, hstop⟩ := t.stop_eq_getLast
  obtain ⟨first', hfirst', hstart'⟩ := n.start_mem
  obtain ⟨last', hlast', hstop'⟩ := n.stop_mem
  rw [Within, hstart, hstop, hstart', hstop']
  exact ⟨h.head_le hfirst (hsubset hfirst'), h.le_getLast hlast (hsubset hlast')⟩

end

section
variable {l r x : Tree} {op : Token}

theorem inSequence_operand (h : Token.InSequence (unary op x).inOrder) :
    Token.InSequence x.inOrder :=
  h.sublist (List.sublist_cons_self op _)

theorem inSequence_left (h : Token.InSequence (binary l op r).inOrder) :
    Token.InSequence l.inOrder :=
  h.sublist (List.sublist_append_left _ _)

theorem inSequence_right (h : Token.InSequence (binary l op r).inOrder) :
    Token.InSequence r.inOrder :=
  h.sublist ((List.sublist_cons_self op _).trans (List.sublist_append_right _ _))

end

theorem at?_append {t n : Tree} {path : List Branch} (h : t.at? path = some n)
    (rest : List Branch) : t.at? (path ++ rest) = n.at? rest := by
  induction path generalizing t with
  | nil =>
    obtain rfl := Option.some.inj h
    rfl
  | cons branch path ih =>
    rcases at?_cons_cases h with ⟨op, x, rfl, rfl, hx⟩ | ⟨l, op, r, rfl, rfl, hl⟩ |
      ⟨l, op, r, rfl, rfl, hr⟩
    · exact ih hx
    · exact ih hl
    · exact ih hr

/-- A node further down lacks at least an operator, so its span is smaller. -/
theorem not_within_below {t n : Tree} (h : Token.InSequence t.inOrder) {branch : Branch}
    {path : List Branch} (hn : t.at? (branch :: path) = some n) : ¬ t.Within n := by
  rintro ⟨hstart, hstop⟩
  rcases at?_cons_cases hn with
    ⟨op, x, rfl, -, hx⟩ | ⟨l, op, r, rfl, -, hl⟩ | ⟨l, op, r, rfl, -, hr⟩
  · obtain ⟨hop, hfront, hnode, -⟩ := inPlace_of_inSequence h
    have hwithin := (within_at? (inSequence_operand h) hx).1
    rw [hnode] at hstart
    omega
  · obtain ⟨hfront, hop, hback, -, hnode⟩ := inPlace_of_inSequence h
    have hwithin := (within_at? (inSequence_left h) hl).2
    have hright := start_lt_stop (inSequence_right h)
    rw [hnode] at hstop
    omega
  · obtain ⟨hfront, hop, hback, hnode, -⟩ := inPlace_of_inSequence h
    have hwithin := (within_at? (inSequence_right h) hr).1
    have hleft := start_lt_stop (inSequence_left h)
    rw [hnode] at hstart
    omega

theorem clear_of_sides {l r n m : Tree} {op : Token}
    (h : Token.InSequence (binary l op r).inOrder) {path path' : List Branch}
    (hn : l.at? path = some n) (hm : r.at? path' = some m) : n.stop.index ≤ m.start.index := by
  obtain ⟨hfront, hop, hback, -, -⟩ := inPlace_of_inSequence h
  have hstop := (within_at? (inSequence_left h) hn).2
  have hstart := (within_at? (inSequence_right h) hm).1
  omega

/-- Nodes neither of which is a part of the other are on two sides of some operator. -/
theorem clear_of_apart {t n m : Tree} (h : Token.InSequence t.inOrder) {path path' : List Branch}
    (hn : t.at? path = some n) (hm : t.at? path' = some m) (hpath : ¬ path <+: path')
    (hpath' : ¬ path' <+: path) : n.Clear m := by
  induction path generalizing t path' with
  | nil => exact absurd List.nil_prefix hpath
  | cons branch path ih =>
    cases path' with
    | nil => exact absurd List.nil_prefix hpath'
    | cons branch' path' =>
      rw [List.cons_prefix_cons, not_and] at hpath hpath'
      rcases at?_cons_cases hn with ⟨op, x, rfl, rfl, hx⟩ | ⟨l, op, r, rfl, rfl, hl⟩ |
        ⟨l, op, r, rfl, rfl, hr⟩
      · rcases at?_cons_cases hm with ⟨_, _, ⟨⟩, rfl, hx'⟩ | ⟨_, _, _, ⟨⟩, _⟩ | ⟨_, _, _, ⟨⟩, _⟩
        exact ih (inSequence_operand h) hx hx' (hpath rfl) (hpath' rfl)
      · rcases at?_cons_cases hm with ⟨_, _, ⟨⟩, _⟩ | ⟨_, _, _, ⟨⟩, rfl, hl'⟩ |
          ⟨_, _, _, ⟨⟩, rfl, hr'⟩
        · exact ih (inSequence_left h) hl hl' (hpath rfl) (hpath' rfl)
        · exact .inl (clear_of_sides h hl hr')
      · rcases at?_cons_cases hm with ⟨_, _, ⟨⟩, _⟩ | ⟨_, _, _, ⟨⟩, rfl, hl'⟩ |
          ⟨_, _, _, ⟨⟩, rfl, hr'⟩
        · exact .inr (clear_of_sides h hl' hr)
        · exact ih (inSequence_right h) hr hr' (hpath rfl) (hpath' rfl)

section
variable {t n m : Tree} (h : Token.InSequence t.inOrder) {path path' : List Branch}
  (hn : t.at? path = some n) (hm : t.at? path' = some m)
include h hn hm

theorem within_of_below (hpath : path <+: path') : m.Within n := by
  obtain ⟨rest, rfl⟩ := hpath
  rw [at?_append hn] at hm
  exact within_at? (h.sublist (inOrder_at? hn).sublist) hm

theorem nested_or_clear : m.Within n ∨ n.Within m ∨ n.Clear m := by
  by_cases hpath : path <+: path'
  · exact .inl (within_of_below h hn hm hpath)
  · by_cases hpath' : path' <+: path
    · exact .inr (.inl (within_of_below h hm hn hpath'))
    · exact .inr (.inr (clear_of_apart h hn hm hpath hpath'))

/-- A span lies within another only if its node is a part of the other node. -/
theorem below_of_within (hwithin : m.Within n) : path <+: path' := by
  by_contra hpath
  by_cases hpath' : path' <+: path
  · obtain ⟨rest, rfl⟩ := hpath'
    rw [at?_append hm] at hn
    cases rest with
    | nil => exact hpath (by simp)
    | cons branch rest =>
      exact not_within_below (h.sublist (inOrder_at? hm).sublist) hn hwithin
  · have hspan := start_lt_stop (h.sublist (inOrder_at? hm).sublist)
    obtain ⟨hstart, hstop⟩ := hwithin
    rcases clear_of_apart h hn hm hpath hpath' with hclear | hclear
    · omega
    · omega

end

end Tree

namespace Expression

open Scanner Grammar

/-- The tokens of a tree are some of the tokens of its text, in the same order. -/
theorem inOrder_of_parse {source : Source} {limits : Limits} {t : Tree}
    (h : parse source limits = .ok t) :
    ∃ ps, Splits source.text.toList ps ∧ (∀ piece ∈ ps, piece.Legal) ∧
      t.inOrder.Sublist (tokensFrom (.start source) ps) := by
  rcases parse_source source with ⟨e, herror⟩ | ⟨ps, eof, hps, hlegal, heof, hparse⟩
  · cases h.symm.trans (herror limits)
  · rw [hparse, outcome_eq_ok_iff heof tokensFrom_not_isEof] at h
    obtain ⟨d, hyield, -, rfl⟩ := h
    refine ⟨ps, hps, hlegal, ?_⟩
    have hlists : d.tree.inOrder = d.yield.filter (!·.isParen) := d.lists_yield
    rw [hlists, hyield]
    exact List.filter_sublist

theorem inSequence_of_parse {source : Source} {limits : Limits} {t : Tree}
    (h : parse source limits = .ok t) :
    Token.InSequence t.inOrder ∧ ∀ u ∈ t.inOrder, u.stop.index ≤ source.text.length := by
  obtain ⟨ps, hps, hlegal, hsublist⟩ := inOrder_of_parse h
  have htiling : source.Tiling 0 _ := tiling_of_splits hps hlegal [] rfl
  obtain ⟨body, eof, hbody, -, -, -, hnonempty⟩ := htiling.ended
  obtain ⟨hsame, -⟩ := List.append_inj' hbody rfl
  refine ⟨Token.InSequence.sublist ⟨fun u hu => ?_, ?_⟩ hsublist, fun u hu => ?_⟩
  · exact (hnonempty u (hsame ▸ hu)).2
  · exact (List.pairwise_append.mp htiling.ordered).1.imp And.right
  · exact (htiling.le_stop u (List.mem_append_left _ (hsublist.subset hu))).2

/-- Every node of a tree has the span that its tokens make up, which is not empty, and its
operands are in place around its operator. The span of a node lies within that of another exactly if
the node is a part of the other, and otherwise they are nested the other way or have no text in
common. -/
theorem parse_spans {source : Source} {limits : Limits} {t : Tree}
    (h : parse source limits = .ok t) :
    (∀ path n, t.at? path = some n → n.Spanned source.text.length) ∧
    ∀ path path' n m, t.at? path = some n → t.at? path' = some m →
      (m.Within n ↔ path <+: path') ∧ (m.Within n ∨ n.Within m ∨ n.Clear m) := by
  obtain ⟨hsequence, hlength⟩ := inSequence_of_parse h
  refine ⟨fun path n hn => ?_, fun path path' n m hn hm => ⟨⟨?_, ?_⟩, ?_⟩⟩
  · have htogether := Tree.inOrder_at? hn
    exact Tree.spanned_of_inSequence (hsequence.sublist htogether.sublist)
      fun u hu => hlength u (htogether.subset hu)
  · exact Tree.below_of_within hsequence hn hm
  · exact Tree.within_of_below hsequence hn hm
  · exact Tree.nested_or_clear hsequence hn hm

section
private def spannedSign : Token := .spanning "(-1)*\n2" .minus 1 2
private def spannedOne : Tree := .number (.spanning "(-1)*\n2" (.number (.int 1)) 2 3)
private def spannedStar : Token := .spanning "(-1)*\n2" .mul 4 5
private def spannedTwo : Tree := .number (.spanning "(-1)*\n2" (.number (.int 2)) 6 7)

/-- The tree of `(-1)*` and `2` on the next line. -/
private def spannedProduct : Tree :=
  .binary (.unary spannedSign spannedOne) spannedStar spannedTwo

/-- The parentheses of the first factor are not in its span, nor in that of the product. -/
theorem parse_spans_product :
    parse "(-1)*\n2" {} = .ok spannedProduct ∧ spannedProduct.Spanned 7 ∧
    spannedProduct.start = ⟨1, 0, 1, "(-1)*\n2"⟩ ∧
    spannedProduct.stop = ⟨7, 1, 1, "(-1)*\n2"⟩ ∧
    spannedOne.Within (.unary spannedSign spannedOne) ∧
    ¬ spannedTwo.Within (.unary spannedSign spannedOne) := by
  have hparse : parse "(-1)*\n2" {} = .ok spannedProduct := by cbv
  obtain ⟨hspanned, hnested⟩ := parse_spans hparse
  refine ⟨hparse, hspanned [] _ rfl, rfl, rfl, ?_, fun hwithin => ?_⟩
  · exact (hnested [.left] [.left, .operand] _ _ rfl rfl).1.mpr (by decide)
  · exact absurd ((hnested [.left] [.right] _ _ rfl rfl).1.mp hwithin) (by decide)

end

end Expression

end Reckon
