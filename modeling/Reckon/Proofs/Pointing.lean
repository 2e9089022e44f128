import Mathlib
import Reckon.Proofs.Layout
import Reckon.Proofs.NodeSpans

/-!
Error reports point at the text that they are about. Whatever goes wrong with an expression, the
line that is quoted is the one on which the span of the error starts, and the carets mark as many of
its characters as belong to the span, or else the end of the text.
-/

namespace Reckon

namespace Source

/-! ### Lines -/

/-- The line of a text that starts at an index. -/
structure IsLine (source : Source) (start : Nat) (row : String) : Prop where
  begins : start = 0 ∨ source.text.toList[start - 1]? = some '\n'
  slice : source.slice start (start + row.length) = row
  unbroken : '\n' ∉ row.toList
  ends : start + row.length = source.text.length ∨
    source.text.toList[start + row.length]? = some '\n'

theorem rtakeWhile_append_newline (before after : List Char) :
    (before ++ '\n' :: after).rtakeWhile (· != '\n') = after.rtakeWhile (· != '\n') := by
  have hstop : ('\n' :: before.reverse).takeWhile (· != '\n') = [] := rfl
  simp only [List.rtakeWhile, List.reverse_append, List.reverse_cons, List.append_assoc,
    List.singleton_append, List.takeWhile_append, hstop, List.append_nil]
  split
  · next hall => rw [List.IsPrefix.eq_of_length (List.takeWhile_prefix _) hall]
  · rfl

theorem rtakeWhile_append_of_pos {f : Char → Bool} (before : List Char) {after : List Char}
    (h : ∀ c ∈ after, f c = true) :
    (before ++ after).rtakeWhile f = before.rtakeWhile f ++ after := by
  have hreverse : ∀ c ∈ after.reverse, f c = true := fun c hc => h c (List.mem_reverse.mp hc)
  rw [List.rtakeWhile, List.rtakeWhile, List.reverse_append,
    List.takeWhile_append_of_pos hreverse, List.reverse_append, List.reverse_reverse]

/-- The line of an index is what is around it between two line feeds. -/
theorem lineOf_append (before after : List Char) :
    lineOf (before ++ after) (before.count '\n') =
      before.rtakeWhile (· != '\n') ++ after.takeWhile (· != '\n') := by
  induction hcount : before.count '\n' generalizing before with
  | zero =>
    have hbefore : ∀ c ∈ before, (c != '\n') = true := by
      intro c hc
      rw [bne_iff_ne]
      exact fun heq => List.count_eq_zero.mp hcount (heq ▸ hc)
    rw [lineOf, List.takeWhile_append_of_pos hbefore, List.rtakeWhile_eq_self_iff.mpr hbefore]
  | succ n ih =>
    have hmem : '\n' ∈ before := List.count_pos_iff.mp (by omega)
    obtain ⟨first, rest, rfl, hfirst⟩ := List.eq_append_cons_of_mem hmem
    have hdrop : ∀ c ∈ first, (c != '\n') = true := by
      intro c hc
      rw [bne_iff_ne]
      exact fun heq => hfirst (heq ▸ hc)
    rw [List.count_append, List.count_eq_zero.mpr hfirst, List.count_cons_self] at hcount
    rw [lineOf, rtakeWhile_append_newline, List.append_assoc, List.dropWhile_append_of_pos hdrop]
    exact ih rest (by omega)

variable {source : Source}

theorem isLine_of_append {front back : List Char} {row : String}
    (htext : source.text.toList = front ++ (row.toList ++ back)) (hrow : '\n' ∉ row.toList)
    (hfront : front = [] ∨ front.getLast? = some '\n')
    (hback : back = [] ∨ back.head? = some '\n') : source.IsLine front.length row := by
  have hlength : source.text.length = front.length + (row.length + back.length) := by
    rw [← String.length_toList, htext, List.length_append, List.length_append,
      String.length_toList]
  refine ⟨?_, ?_, hrow, ?_⟩
  · rcases hfront with rfl | hlast
    · exact .inl rfl
    · have hpos : 0 < front.length := by
        cases front with
        | nil => cases hlast
        | cons c front => exact Nat.succ_pos _
      refine .inr ?_
      rw [htext, List.getElem?_append_left (by omega), ← List.getLast?_eq_getElem?, hlast]
  · rw [← String.toList_inj, toList_slice, htext, List.drop_left, Nat.add_sub_cancel_left,
      ← String.length_toList, List.take_left]
  · rcases hback with rfl | hhead
    · exact .inl (by simpa using hlength.symm)
    · refine .inr ?_
      rw [htext, List.getElem?_append_right (by omega), ← String.length_toList,
        List.getElem?_append_right (by omega), ← hhead, List.head?_eq_getElem?]
      congr 1
      omega

theorem isLine_around {before after : List Char} (htext : source.text.toList = before ++ after)
    {row : String} (hrow : row.toList =
      before.rtakeWhile (· != '\n') ++ after.takeWhile (· != '\n')) :
    source.IsLine (before.rdropWhile (· != '\n')).length row := by
  have hsplit : source.text.toList =
      before.rdropWhile (· != '\n') ++ (row.toList ++ after.dropWhile (· != '\n')) := by
    rw [hrow, List.append_assoc, List.takeWhile_append_dropWhile, ← List.append_assoc,
      List.rdropWhile_append_rtakeWhile, htext]
  refine isLine_of_append hsplit ?_ ?_ ?_
  · rw [hrow, List.mem_append]
    rintro (hmem | hmem)
    · simpa using List.mem_rtakeWhile_imp hmem
    · simpa using List.mem_takeWhile_imp hmem
  · by_cases hnil : before.rdropWhile (· != '\n') = []
    · exact .inl hnil
    · have hlast := List.rdropWhile_last_not (· != '\n') before hnil
      rw [bne_iff_ne, not_not] at hlast
      exact .inr (by rw [List.getLast?_eq_some_getLast hnil, hlast])
  · have hhead := List.head?_dropWhile_not (· != '\n') after
    cases hback : after.dropWhile (· != '\n') with
    | nil => exact .inl rfl
    | cons c back =>
      rw [hback] at hhead
      exact .inr (by simpa using hhead)

/-- How many characters there are from an index to the end of its line. -/
def toLineEnd (source : Source) (index : Nat) : Nat :=
  ((source.text.toList.drop index).takeWhile (· != '\n')).length

section
variable {p : Position} (h : p.Marks source)
include h

theorem toList_line : (source.line p.line).toList =
    (source.text.toList.take p.index).rtakeWhile (· != '\n') ++
      (source.text.toList.drop p.index).takeWhile (· != '\n') := by
  rw [line, String.toList_ofList, h.line, ← lineOf_append, List.take_append_drop]

theorem length_line : (source.line p.line).length = p.column + source.toLineEnd p.index := by
  rw [← String.length_toList, toList_line h, List.length_append, h.column, toLineEnd]

/-- The column is counted from where the line starts. -/
theorem length_before_line :
    ((source.text.toList.take p.index).rdropWhile (· != '\n')).length + p.column = p.index := by
  rw [h.column, ← List.length_append, List.rdropWhile_append_rtakeWhile, List.length_take,
    String.length_toList, min_eq_left h.inside]

theorem isLine_line : source.IsLine (p.index - p.column) (source.line p.line) := by
  have hline := isLine_around (List.take_append_drop p.index _).symm (toList_line h)
  rwa [show _ = p.index - p.column from Nat.eq_sub_of_add_eq (length_before_line h)] at hline

end

section
variable {p q : Position} (hp : p.Marks source) (hq : q.Marks source) {n : Nat}
  (hn : q.index = p.index + n)
include hp hq hn

/-- The lines between two positions are the line feeds between them. -/
theorem line_eq_add :
    q.line = p.line + ((source.text.toList.drop p.index).take n).count '\n' := by
  rw [hq.line, hp.line, hn, List.take_add, List.count_append]

theorem column_of_same_line (hline : q.line = p.line) :
    q.column = p.column + n ∧ n ≤ source.toLineEnd p.index := by
  have hbetween : ∀ c ∈ (source.text.toList.drop p.index).take n, (c != '\n') = true := by
    have hcount := line_eq_add hp hq hn
    intro c hc
    rw [bne_iff_ne]
    rintro rfl
    have := List.count_pos_iff.mpr hc
    omega
  have hlength : ((source.text.toList.drop p.index).take n).length = n := by
    have hinside := hq.inside
    rw [List.length_take, List.length_drop, String.length_toList]
    omega
  constructor
  · rw [hq.column, hp.column, hn, List.take_add, rtakeWhile_append_of_pos _ hbetween,
      List.length_append, hlength]
  · rw [toLineEnd, ← List.take_append_drop n (source.text.toList.drop p.index),
      List.takeWhile_append_of_pos hbetween, List.length_append, hlength]
    exact Nat.le_add_right _ _

theorem toLineEnd_le_of_other_line (hline : q.line ≠ p.line) : source.toLineEnd p.index ≤ n := by
  have hcount := line_eq_add hp hq hn
  have hmem : '\n' ∈ (source.text.toList.drop p.index).take n :=
    List.count_pos_iff.mp (by omega)
  have hshort := List.length_take_le n (source.text.toList.drop p.index)
  rw [toLineEnd, ← List.take_append_drop n (source.text.toList.drop p.index),
    List.takeWhile_append]
  split
  · next hall =>
    have hself := List.IsPrefix.eq_of_length (List.takeWhile_prefix _) hall
    have hbetween := List.mem_takeWhile_imp (hself.symm ▸ hmem)
    simp at hbetween
  · exact (List.takeWhile_prefix _).length_le.trans hshort

end

/-- A span that starts with a character other than a line feed, or the empty one at the end of the
text. -/
structure Shows (source : Source) (p q : Position) : Prop where
  start : p.Marks source
  stop : q.Marks source
  visible : (p.index < q.index ∧ ∃ c ∈ source.text.toList[p.index]?, c ≠ '\n') ∨
    (q = p ∧ p.index = source.text.length)

theorem toLineEnd_pos {index : Nat} {c : Char} (hc : source.text.toList[index]? = some c)
    (hline : c ≠ '\n') : 0 < source.toLineEnd index := by
  obtain ⟨hlt, rfl⟩ := List.getElem?_eq_some_iff.mp hc
  rw [toLineEnd, List.drop_eq_getElem_cons hlt, List.takeWhile_cons_of_pos (by simpa using hline)]
  exact Nat.succ_pos _

theorem toLineEnd_length (source : Source) : source.toLineEnd source.text.length = 0 := by
  rw [toLineEnd, ← String.length_toList, List.drop_length]
  rfl

end Source

namespace Diagnostic

variable {source : Source} {d : Diagnostic}

/-- Where the line of the report starts. -/
def rowStart (d : Diagnostic) : Nat := d.start.index - d.start.column

/-- How many characters of the span are on the line of the report. -/
def marked (d : Diagnostic) : Nat :=
  (Finset.Ico d.start.index d.stop.index ∩
    Finset.Ico d.rowStart (d.rowStart + d.row.length)).card

/-- The report quotes the line of the text on which its span starts. Under it are as many carets as
the span has characters on that line, but at least one, and only at the end of the text is this one
beyond the line. -/
structure PointsInto (d : Diagnostic) (source : Source) : Prop where
  column : d.start.column ≤ d.start.index
  row : source.IsLine d.rowStart d.row
  on_row : d.start.index ≤ d.rowStart + d.row.length
  carets : d.carets = String.ofList (List.replicate d.start.column ' ' ++
    List.replicate (max 1 d.marked) '^')
  within : d.start.column + max 1 d.marked ≤ d.row.length ∨
    (d.stop = d.start ∧ d.start.index = source.text.length ∧ d.marked = 0 ∧
      d.start.column = d.row.length)

/-- The lines of a report. The quoted one and the carets under it are indented alike. -/
def reportLines (d : Diagnostic) (source : Source) : List String :=
  [d.title ++ ": " ++ d.message ++ optionalPart " [" d.code "]",
    "  --> " ++ source.name ++ ":" ++ toString (d.start.line + 1) ++ ":" ++
      toString (d.start.column + 1),
    "    " ++ d.row,
    "    " ++ d.carets] ++ d.help.toList.map ("  help: " ++ ·)

theorem render_eq_reportLines (horigin : d.start.source = source) (h : d.help ≠ some "") :
    d.render = String.join ((d.reportLines source).map (· ++ "\n")) := by
  have hhelp : optionalPart "  help: " d.help "\n" =
      String.join ((d.help.toList.map ("  help: " ++ ·)).map (· ++ "\n")) := by
    unfold optionalPart
    split
    · next heq => rw [heq]; rfl
    · next heq => exact absurd heq h
    · next s _ heq => simp [heq]
  unfold render
  simp only [hhelp, Position.locate, horigin, reportLines, List.map_append, List.map_cons,
    List.map_nil, String.join_append, String.join_cons, String.join_nil, String.append_assoc,
    String.append_empty]

section
variable (hstart : d.start.Marks source)
include hstart

theorem row_eq : d.row = source.line d.start.line := by
  rw [row, Position.lineText, hstart.origin]

/-- The line ends as far behind the start of the span as the text says. -/
theorem rowStart_add_length :
    d.rowStart + d.row.length = d.start.index + source.toLineEnd d.start.index := by
  have hbefore := Source.length_before_line hstart
  rw [row_eq hstart, Source.length_line hstart, rowStart]
  omega

theorem marked_eq {n : Nat} (hn : d.stop.index = d.start.index + n) :
    d.marked = min n (source.toLineEnd d.start.index) := by
  rw [marked, rowStart_add_length hstart, hn, Finset.Ico_inter_Ico, Nat.card_Ico, rowStart]
  omega

theorem markedTo_sub_column (hstop : d.stop.Marks source) {n : Nat}
    (hn : d.stop.index = d.start.index + n) :
    d.markedTo - d.start.column = d.marked := by
  rw [marked_eq hstart hn, markedTo]
  split
  · next hline =>
    obtain ⟨hcolumn, hle⟩ := Source.column_of_same_line hstart hstop hn hline
    omega
  · next hline =>
    have hle := Source.toLineEnd_le_of_other_line hstart hstop hn hline
    rw [row_eq hstart, Source.length_line hstart]
    omega

end

theorem pointsInto_of_shows (h : source.Shows d.start d.stop) : d.PointsInto source := by
  obtain ⟨n, hn⟩ : ∃ n, d.stop.index = d.start.index + n := by
    refine Nat.exists_eq_add_of_le ?_
    rcases h.visible with ⟨hlt, -⟩ | ⟨heq, -⟩
    · exact hlt.le
    · rw [heq]
  have hcolumn : d.start.column ≤ d.start.index := by
    have := Source.length_before_line h.start
    omega
  have hmarked := marked_eq h.start hn
  have hrow : d.row.length = d.start.column + source.toLineEnd d.start.index := by
    rw [row_eq h.start, Source.length_line h.start]
  refine ⟨hcolumn, ?_, ?_, ?_, ?_⟩
  · rw [row_eq h.start]
    exact Source.isLine_line h.start
  · rw [rowStart_add_length h.start]
    exact Nat.le_add_right _ _
  · rw [Diagnostic.carets, markedTo_sub_column h.start h.stop hn, max_comm]
  · rcases h.visible with ⟨hlt, c, hc, hline⟩ | ⟨heq, hend⟩
    · have hpos := Source.toLineEnd_pos hc hline
      exact .inl (by omega)
    · have hzero := source.toLineEnd_length
      rw [← hend] at hzero
      exact .inr ⟨heq, hend, by omega, by omega⟩

end Diagnostic

/-! ### Spans of errors -/

namespace Scanner

theorem newline_ne_of_isSpacing {c : Char} (h : isSpacing c = false) : c ≠ '\n' := by
  rintro rfl
  cases h

theorem newline_not_mem_of_faulty {cs : List Char} {ps : List Piece} (h : Splits cs ps)
    {piece : Piece} (hpiece : piece ∈ ps) (hfault : ¬ piece.Legal) : '\n' ∉ piece.chars := by
  induction h with
  | nil => cases hpiece
  | @single c cs ps hc h ih =>
    rcases List.mem_cons.mp hpiece with rfl | hrest
    · rw [Piece.chars_single, List.mem_singleton]
      rcases Piece.single_cases c with ⟨-, heq⟩ | ⟨hs, -⟩ | ⟨hs, -⟩
      · rw [heq] at hfault
        exact absurd trivial hfault
      · exact (newline_ne_of_isSpacing hs).symm
      · exact (newline_ne_of_isSpacing hs).symm
    · exact ih hrest
  | @numeral run cs rest ps hne hrun hrest hcs h ih =>
    rcases List.mem_cons.mp hpiece with rfl | hmem
    · intro hnewline
      exact absurd (hrun _ hnewline) (by decide)
    · exact ih hmem

end Scanner

theorem Token.From.visible {t : Token} {piece : Scanner.Piece} (h : t.From piece) :
    ∃ c ∈ t.lexeme.toList.head?, c ≠ '\n' := by
  cases h with
  | @operator c hkind hlexeme =>
    rw [hlexeme, String.toList_ofList]
    refine ⟨c, rfl, ?_⟩
    rintro rfl
    cases hkind
  | @numeral run v h =>
    obtain ⟨d, hd, -⟩ := h.legal.digit
    obtain ⟨c, cs, rfl, -, hspacing⟩ := Scanner.numeral_head h.numeral (List.ne_nil_of_mem hd)
    rw [h.lexeme, String.toList_ofList]
    exact ⟨c, rfl, Scanner.newline_ne_of_isSpacing hspacing⟩

namespace Scanner

variable {source : Source}

/-- A fault is reported for characters of one line. -/
theorem Fault.shows {before after : List Char} {piece : Piece} {code : String} {e : LexError}
    (h : Fault ((Position.start source).advanceAll before) piece code e)
    (htext : source.text.toList = before ++ piece.chars ++ after) (hpiece : '\n' ∉ piece.chars) :
    source.Shows e.start e.stop := by
  obtain ⟨hstart, hstop⟩ := h.marks htext
  obtain ⟨front, part, back, hpart, hchars, hfrom, hto⟩ := h.within
  obtain ⟨c, part, rfl⟩ := List.exists_cons_of_ne_nil hpart
  refine ⟨hstart, hstop, .inl ⟨?_, c, ?_, ?_⟩⟩
  · rw [hfrom, hto, ← Position.advanceAll_append, ← Position.advanceAll_append,
      Position.advanceAll_eq, Position.advanceAll_eq]
    simp
  · rw [hfrom, ← Position.advanceAll_append, Position.advanceAll_eq, htext, hchars]
    simp
  · rintro rfl
    exact hpiece (by simp [hchars])

theorem Fault.help_ne_empty {p : Position} {piece : Piece} {code : String} {e : LexError}
    (h : Fault p piece code e) : e.help ≠ "" := by
  cases h with
  | illegal c =>
    change LexError.illegalHelp _ ≠ ""
    unfold LexError.illegalHelp
    split <;> simp
  | secondPoint => exact (by decide : LexError.secondPoint ≠ "")
  | lonePoint => exact (by decide : LexError.lonePoint ≠ "")
  | tooLarge => simp [LexError.help]

theorem exists_fault {e : LexError} (h : tokenize source = .error e) :
    ∃ (before after : List Char) (piece : Piece) (code : String),
      Fault ((Position.start source).advanceAll before) piece code e ∧
        source.text.toList = before ++ piece.chars ++ after ∧ '\n' ∉ piece.chars := by
  obtain ⟨ps, hps⟩ := exists_splits source.text.toList
  rcases all_legal_or_leftmost ps with hlegal | ⟨before, bad, after, rfl, hlegal, hbad⟩
  · cases h.symm.trans (tokenize_of_legal hps hlegal)
  · obtain ⟨e', he', hfault⟩ := tokenize_of_faulty hps hlegal hbad
    obtain rfl := Except.error.inj (h.symm.trans he')
    refine ⟨_, after.flatMap Piece.chars, bad, _, hfault, ?_,
      newline_not_mem_of_faulty hps (by simp) hbad⟩
    rw [← hps.chars_eq, List.flatMap_append, List.flatMap_cons, List.append_assoc]

theorem visible_of_mem {ps : List Piece} (hps : Splits source.text.toList ps)
    (hlegal : ∀ piece ∈ ps, piece.Legal) {t : Token}
    (ht : t ∈ tokensFrom (.start source) ps) :
    t.start.index < t.stop.index ∧ ∃ c ∈ source.text.toList[t.start.index]?, c ≠ '\n' := by
  have htiling := tiling_of_splits hps hlegal [] rfl
  obtain ⟨piece, hpiece⟩ := from_of_mem hps hlegal rfl ht
  obtain ⟨c, hc, hline⟩ := hpiece.visible
  rw [htiling.spanning t (List.mem_append_left _ ht), Source.lexeme_spanning,
    Source.toList_slice, List.head?_take] at hc
  split at hc
  · cases hc
  · rw [List.head?_drop] at hc
    exact ⟨by omega, c, hc, hline⟩

theorem shows_of_mem {tokens : List Token} (h : tokenize source = .ok tokens) {t : Token}
    (ht : t ∈ tokens) : source.Shows t.start t.stop := by
  obtain ⟨ps, hps⟩ := exists_splits source.text.toList
  have hlegal := legal_of_tokenize hps h
  obtain rfl := Except.ok.inj (h.symm.trans (tokenize_of_legal hps hlegal))
  obtain ⟨hstart, hstop⟩ := (tiling_of_splits hps hlegal [] rfl).marks t ht
  rcases List.mem_append.mp ht with hbody | heof
  · exact ⟨hstart, hstop, .inl (visible_of_mem hps hlegal hbody)⟩
  · rw [List.mem_singleton] at heof
    subst heof
    exact ⟨hstart, hstop, .inr ⟨rfl, by rw [atEnd, Position.advanceAll_eq, String.length_toList]⟩⟩

end Scanner

namespace Expression

open Scanner

variable {source : Source} {limits : Limits}

/-- A node shows where its first token does. -/
theorem shows_of_at? {t n : Tree} {path : List Tree.Branch} (h : parse source limits = .ok t)
    (hn : t.at? path = some n) : source.Shows n.start n.stop := by
  obtain ⟨ps, hps, hlegal, hsublist⟩ := inOrder_of_parse h
  have htogether := Tree.inOrder_at? hn
  have hmem : ∀ u ∈ n.inOrder, u ∈ tokensFrom (.start source) ps :=
    fun u hu => hsublist.subset (htogether.subset hu)
  have htokens := tokenize_of_legal hps hlegal
  obtain ⟨first, hfirst, hstart⟩ := n.start_mem
  obtain ⟨last, hlast, hstop⟩ := n.stop_mem
  have hshows := shows_of_mem htokens (List.mem_append_left _ (hmem first hfirst))
  refine ⟨hstart ▸ hshows.start, ?_, .inl ⟨?_, ?_⟩⟩
  · rw [hstop]
    exact (shows_of_mem htokens (List.mem_append_left _ (hmem last hlast))).stop
  · exact n.start_lt_stop ((inSequence_of_parse h).1.sublist htogether.sublist)
  · rw [hstart]
    exact (visible_of_mem hps hlegal (hmem first hfirst)).2

/-- What the error of an evaluation is about, by the stage that finds it. -/
theorem error_cases {e : Error} (h : evaluate source limits = .error (.error e)) :
    (∃ fault, e = .lex fault ∧ tokenize source = .error fault) ∨
      (∃ fault ts, e = .parse fault ∧ tokenize source = .ok ts ∧ fault.token ∈ ts) ∨
      ∃ fault t path, e = .eval fault ∧ parse source limits = .ok t ∧
        t.at? path = some fault.node := by
  cases htokens : tokenize source with
  | error fault =>
    have hfault : evaluate source limits = .error (.error (.lex fault)) := by
      rw [evaluate, parse, tokens, htokens]
      rfl
    obtain rfl := Failure.error.inj (Except.error.inj (h.symm.trans hfault))
    exact .inl ⟨fault, rfl, rfl⟩
  | ok ts =>
    have hsame : List.Forall₂ Token.SameKind ts ts := List.forall₂_same.mpr fun _ _ => rfl
    rcases parse_lockstep_of_tokenize (fun _ _ h => h) htokens htokens hsame limits with
      ⟨t, t', ht, ht', hmatches⟩ | ⟨fault, -, k, hfault, -, -, htoken, -⟩ | ⟨hdefect, -⟩
    · obtain rfl := Except.ok.inj (ht.symm.trans ht')
      rw [evaluate_of_parse ht] at h
      rcases evaluateTree_concurs (Tree.proper_of_parse ht) hmatches limits with
        ⟨v, hv, -⟩ | ⟨fault, -, path, hfault, -, -, hnode, -⟩ | ⟨hdefect, -⟩
      · cases h.symm.trans hv
      · obtain rfl := Failure.error.inj (Except.error.inj (h.symm.trans hfault))
        exact .inr (.inr ⟨fault, t, path, rfl, ht, hnode⟩)
      · cases h.symm.trans hdefect
    · have hparse : evaluate source limits = .error (.error (.parse fault)) := by
        rw [evaluate, hfault]
        rfl
      obtain rfl := Failure.error.inj (Except.error.inj (h.symm.trans hparse))
      exact .inr (.inl ⟨fault, ts, rfl, rfl, List.mem_of_getElem? htoken⟩)
    · rw [evaluate, hdefect] at h
      cases h

theorem shows_of_evaluate {e : Error} (h : evaluate source limits = .error (.error e)) :
    source.Shows e.diagnostic.start e.diagnostic.stop := by
  rcases error_cases h with
    ⟨fault, rfl, hfault⟩ | ⟨fault, ts, rfl, hts, hmem⟩ | ⟨fault, t, path, rfl, ht, hnode⟩
  · obtain ⟨before, after, piece, code, hfault, htext, hpiece⟩ := exists_fault hfault
    exact hfault.shows htext hpiece
  · exact shows_of_mem hts hmem
  · exact shows_of_at? ht hnode

theorem help_ne_empty {e : Error} (h : evaluate source limits = .error (.error e)) :
    e.diagnostic.help ≠ some "" := by
  rcases error_cases h with
    ⟨fault, rfl, hfault⟩ | ⟨fault, ts, rfl, -, -⟩ | ⟨fault, t, path, rfl, -, -⟩
  · obtain ⟨before, after, piece, code, hfault, -, -⟩ := exists_fault hfault
    exact fun hhelp => hfault.help_ne_empty (Option.some.inj hhelp)
  · rw [ne_eq, Error.diagnostic, ParseError.diagnostic, Option.some_inj, Misfit.help]
    cases fault.cause <;> simp
  · rw [ne_eq, Error.diagnostic, EvalError.diagnostic, EvalError.help?]
    cases fault.cause <;> simp

/-- Whatever error an evaluation ends with, its report points at the text that it is about: under
the place, the line of the text is quoted with carets under the span, and at most the help
follows. -/
theorem evaluate_error_points {e : Error} (h : evaluate source limits = .error (.error e)) :
    e.diagnostic.PointsInto source ∧
      e.render = String.join ((e.diagnostic.reportLines source).map (· ++ "\n")) :=
  ⟨Diagnostic.pointsInto_of_shows (shows_of_evaluate h),
    Diagnostic.render_eq_reportLines (shows_of_evaluate h).start.origin (help_ne_empty h)⟩

section
/-- A division by a difference that goes on to another line. -/
private def brokenDivision : Source := ⟨"calc", "1/\n(2 -\n2)"⟩

private def brokenDivisor : Tree :=
  .binary (.number (.spanning brokenDivision (.number (.int 2)) 4 5))
    (.spanning brokenDivision .minus 6 7)
    (.number (.spanning brokenDivision (.number (.int 2)) 8 9))

private def brokenError : Error := .eval ⟨.divisionByZero, brokenDivisor⟩

/-- Only the part of the divisor that is on its first line is marked. -/
theorem evaluate_error_points_broken :
    evaluate brokenDivision {} = .error (.error brokenError) ∧
      brokenDivision.IsLine 3 "(2 -" ∧
      brokenError.diagnostic.carets = " ^^^" ∧
      brokenError.render =
        "Runtime Error: Division by zero [R001]\n  --> calc:2:2\n    (2 -\n     ^^^\n" ++
          "  help: The right operand evaluated to 0.\n" := by
  have herror : evaluate brokenDivision {} = .error (.error brokenError) := by cbv
  obtain ⟨hpoints, hrender⟩ := evaluate_error_points herror
  exact ⟨herror, hpoints.row, hpoints.carets.trans (by decide), hrender.trans (by decide)⟩

end

end Expression

end Reckon
