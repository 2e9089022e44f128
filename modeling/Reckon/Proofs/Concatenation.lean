import Mathlib
import Reckon.Proofs.Layout
import Reckon.Proofs.Tiling

/-!
Scanning a text after another one. The tokens of two texts, with spacing between them or without,
are the tokens of the one and then those of the other, unless a number runs from the first into the
second. What is found in the second text, a fault included, is only moved to where it stands.
-/

namespace Reckon

/-- The position in a source after a text that it starts with. -/
def Source.after (source : Source) (text : String) : Position :=
  (Position.start source).advanceAll text.toList

theorem Source.after_append (source a : Source) (text : String) (cs : List Char) :
    (Position.start source).advanceAll (text.toList ++ cs) =
      (source.after text).shift ((Position.start a).advanceAll cs) := by
  rw [Position.advanceAll_append, ← Position.advanceAll_shift, Position.shift_start]
  rfl

def LexError.shift (base : Position) (e : LexError) : LexError :=
  { e with start := base.shift e.start, stop := base.shift e.stop }

namespace Scanner

namespace Fault

variable {p : Position} {piece : Piece} {code code' : String} {e e' : LexError}

theorem shift (h : Fault p piece code e) (base : Position) :
    Fault (base.shift p) piece code (e.shift base) := by
  cases h with
  | illegal c =>
    rw [LexError.shift, ← Position.advance_shift]
    exact .illegal c
  | secondPoint ha hb hq =>
    rw [LexError.shift, ← Position.advance_shift]
    exact .secondPoint ha hb (by rw [hq, Position.advanceAll_shift])
  | lonePoint =>
    rw [LexError.shift, ← Position.advance_shift]
    exact .lonePoint
  | tooLarge hpoints hrange =>
    rw [LexError.shift, ← Position.advanceAll_shift]
    exact .tooLarge hpoints hrange

theorem two_points {a b c : List Char} : 1 < ((a ++ '.' :: b) ++ '.' :: c).count '.' := by
  simp only [List.count_append, List.count_cons_self]
  omega

/-- A lone point is in range, since its value is zero. -/
theorem inRange_point : InRange ['.'] := by
  refine ⟨by simp, fun _ => ?_⟩
  have hvalue : exactValue ['.'] = 0 := by simp [exactValue, wholeDigits, fractionDigits]
  rw [hvalue, sub_pos]
  exact pow_lt_pow_right₀ one_lt_two (by decide)

/-- Nothing about a piece is faulty in two ways. -/
theorem unique (h : Fault p piece code e) (h' : Fault p piece code' e') : e = e' := by
  cases h with
  | illegal c => cases h'; rfl
  | @secondPoint a b c q ha hb hq =>
    generalize hrun : (a ++ '.' :: b) ++ '.' :: c = run at h'
    have hcount : 1 < run.count '.' := hrun ▸ two_points
    cases h' with
    | secondPoint ha' hb' hq' =>
      -- the run is read up to its second point
      have hread := numeralRun_secondPoint ha hb c
      rw [hrun, numeralRun_secondPoint ha' hb'] at hread
      rw [hq, hq', hread]
    | lonePoint => simp at hcount
    | tooLarge hpoints _ => omega
  | lonePoint =>
    generalize hrun : ['.'] = run at h'
    cases h' with
    | secondPoint _ _ _ =>
      have hcount : 1 < ['.'].count '.' := hrun ▸ two_points
      simp at hcount
    | lonePoint => rfl
    | tooLarge _ hrange => exact absurd (hrun ▸ inRange_point) hrange
  | tooLarge hpoints hrange =>
    cases h' with
    | secondPoint _ _ _ => exact absurd hpoints (not_le.mpr two_points)
    | lonePoint => exact absurd inRange_point hrange
    | tooLarge _ _ => rfl

end Fault

/-- There is only spacing between two texts, and some of it if the first ends and the second starts
with a digit or a point. -/
structure Apart (a gap b : String) : Prop where
  spacing : ∀ c ∈ gap.toList, isSpacing c
  numerals : gap = "" →
    ¬ ((∃ c ∈ a.toList.getLast?, isNumeral c) ∧ ∃ c ∈ b.toList.head?, isNumeral c)

section
variable {a b whole : Source} {gap : String} {ps qs : List Piece}

theorem Apart.splits {a gap b : String} (h : Apart a gap b) (ha : Splits a.toList ps)
    (hb : Splits b.toList qs) :
    Splits (a ++ gap ++ b).toList (ps ++ (gap.toList.map .spacing ++ qs)) := by
  rw [String.toList_append, String.toList_append, List.append_assoc]
  refine ha.append_of_apart (splits_spacing h.spacing hb) fun hlast => ?_
  refine bounded_spacing h.spacing fun hgap c hc => ?_
  rw [← Bool.not_eq_true]
  exact fun hnumeral => h.numerals (String.toList_eq_nil_iff.mp hgap) ⟨hlast, c, hc, hnumeral⟩

theorem chars_spaced {a : String} (ha : Splits a.toList ps) (gap : String) (before : List Piece) :
    (ps ++ (gap.toList.map Piece.spacing ++ before)).flatMap Piece.chars =
      (a ++ gap).toList ++ before.flatMap Piece.chars := by
  have hgap : (gap.toList.map Piece.spacing).flatMap Piece.chars = gap.toList := by
    rw [List.flatMap_map]
    exact List.flatMap_singleton' gap.toList
  rw [List.flatMap_append, List.flatMap_append, ha.chars_eq, hgap, String.toList_append,
    List.append_assoc]

theorem tokensFrom_spaced (whole : Source) (ha : Splits a.text.toList ps) (gap : String)
    (qs : List Piece) :
    tokensFrom (.start whole) (ps ++ (gap.toList.map .spacing ++ qs)) =
      (tokensFrom (.start a) ps).map (.shift (.start whole)) ++
        (tokensFrom (.start b) qs).map (.shift (whole.after (a.text ++ gap))) := by
  rw [tokensFrom_append, tokensFrom_spacings, ha.chars_eq, ← Position.advanceAll_append,
    ← String.toList_append, ← tokensFrom_shift, ← tokensFrom_shift, Position.shift_start,
    Position.shift_start]
  rfl

theorem legal_spaced (ha : ∀ piece ∈ ps, piece.Legal) (hb : ∀ piece ∈ qs, piece.Legal) :
    ∀ piece ∈ ps ++ (gap.toList.map .spacing ++ qs), piece.Legal :=
  List.forall_mem_append.mpr ⟨ha, legal_spacings hb⟩

section
variable (h : Apart a.text gap b.text) (hwhole : whole.text = a.text ++ gap ++ b.text)
include h hwhole

/-- A fault in the first text is found before anything after it is read. -/
theorem tokenize_append_of_error {e : LexError} (he : tokenize a = .error e) :
    tokenize whole = .error (e.shift (.start whole)) := by
  obtain ⟨ps, hps⟩ := exists_splits a.text.toList
  obtain ⟨qs, hqs⟩ := exists_splits b.text.toList
  rcases all_legal_or_leftmost ps with hlegal | ⟨before, bad, after, rfl, hlegal, hfault⟩
  · cases he.symm.trans (tokenize_of_legal hps hlegal)
  · obtain ⟨e₁, he₁, hfault₁⟩ := tokenize_of_faulty hps hlegal hfault
    obtain rfl := Except.error.inj (he.symm.trans he₁)
    have hsplits := h.splits hps hqs
    rw [← hwhole, List.append_assoc, List.cons_append] at hsplits
    obtain ⟨e₂, he₂, hfault₂⟩ := tokenize_of_faulty hsplits hlegal hfault
    have hshifted := hfault₁.shift (.start whole)
    rw [← Position.advanceAll_shift, Position.shift_start] at hshifted
    rw [he₂, hfault₂.unique hshifted]

/-- After a text without a fault the scan goes on as from the start, but in another place. -/
theorem tokenize_append_of_legal (hps : Splits a.text.toList ps)
    (hlegal : ∀ piece ∈ ps, piece.Legal) :
    tokenize whole = do
      let us ← (tokenize b).mapError (.shift (whole.after (a.text ++ gap)))
      return (tokensFrom (.start a) ps).map (.shift (.start whole)) ++
        us.map (.shift (whole.after (a.text ++ gap))) := by
  obtain ⟨qs, hqs⟩ := exists_splits b.text.toList
  have hsplits := h.splits hps hqs
  rw [← hwhole] at hsplits
  rcases all_legal_or_leftmost qs with hlegal' | ⟨before, bad, after, rfl, hlegal', hfault⟩
  · rw [tokenize_of_legal hqs hlegal', tokenize_of_legal hsplits (legal_spaced hlegal hlegal'),
      tokensFrom_spaced whole (b := b) hps, atEnd, hwhole, String.toList_append,
      Source.after_append whole b]
    simp [atEnd, Except.mapError, bind, Except.bind, pure, Except.pure, Token.shift]
  · obtain ⟨e₁, he₁, hfault₁⟩ := tokenize_of_faulty hqs hlegal' hfault
    rw [← List.append_assoc, ← List.append_assoc, List.append_assoc ps] at hsplits
    obtain ⟨e₂, he₂, hfault₂⟩ := tokenize_of_faulty hsplits (legal_spaced hlegal hlegal') hfault
    rw [chars_spaced hps, Source.after_append whole b] at hfault₂
    rw [he₁, he₂, hfault₂.unique (hfault₁.shift _)]
    rfl

end

/-- The tokens of two texts with spacing between them. A fault of the first text is the fault of
the whole; otherwise the fault of the second is, or else its tokens come after those of the first.
What is found in the first text stands at the same place of the whole, and what is found in the
second is moved to where the first and the spacing end; the lexemes stay as they are. -/
theorem tokenize_append (h : Apart a.text gap b.text)
    (hwhole : whole.text = a.text ++ gap ++ b.text) :
    (tokenize whole = do
      let ts ← (tokenize a).mapError (.shift (.start whole))
      let us ← (tokenize b).mapError (.shift (whole.after (a.text ++ gap)))
      return (Grammar.beforeEof ts).map (.shift (.start whole)) ++
        us.map (.shift (whole.after (a.text ++ gap)))) ∧
    (∀ ts, tokenize a = .ok ts → ∀ t ∈ ts, (t.shift (.start whole)).lexeme = t.lexeme) ∧
    ∀ us, tokenize b = .ok us →
      ∀ u ∈ us, (u.shift (whole.after (a.text ++ gap))).lexeme = u.lexeme := by
  have hrest : (Position.start whole).rest = a.text.toList ++ (gap.toList ++ b.text.toList) := by
    rw [Position.rest_start, hwhole, String.toList_append, String.toList_append,
      List.append_assoc]
  have hrest' : (whole.after (a.text ++ gap)).rest = b.text.toList ++ [] := by
    refine Position.rest_advanceAll ?_
    rw [hrest, String.toList_append, List.append_nil, List.append_assoc]
  refine ⟨?_, fun ts hts t ht => lexeme_shift_of_tokenize hts hrest ht,
    fun us hus u hu => lexeme_shift_of_tokenize hus hrest' hu⟩
  cases ha : tokenize a with
  | error e => exact tokenize_append_of_error h hwhole ha
  | ok ts =>
    obtain ⟨ps, hps, hlegal, hbefore, -⟩ := tokens_of_tokenize ha
    rw [tokenize_append_of_legal h hwhole hps hlegal, ← hbefore]
    rfl

end

section
private def threeLines : Source := ⟨"lines", "7\n 8\n9"⟩
private def sevenAbove : Token := ⟨.number (.int 7), ⟨0, 0, 0, threeLines⟩, ⟨1, 0, 1, threeLines⟩⟩
private def eightBelow : Token := ⟨.number (.int 8), ⟨3, 1, 1, threeLines⟩, ⟨4, 1, 2, threeLines⟩⟩
private def nineBelow : Token := ⟨.number (.int 9), ⟨5, 2, 0, threeLines⟩, ⟨6, 2, 1, threeLines⟩⟩
private def endBelow : Token := ⟨.eof, ⟨6, 2, 1, threeLines⟩, ⟨6, 2, 1, threeLines⟩⟩

private def faultyLines : Source := ⟨"lines", "7\n 8\n$"⟩

/-- Only what stands on the first line of the second text moves to the right. -/
theorem tokenize_append_lines :
    Apart "7" "\n " "8\n9" ∧ Apart "7" "\n " "8\n$" ∧
    tokenize threeLines = .ok [sevenAbove, eightBelow, nineBelow, endBelow] ∧
    eightBelow.lexeme = "8" ∧
    tokenize faultyLines =
      .error ⟨.illegalCharacter, "$", ⟨5, 2, 0, faultyLines⟩, ⟨6, 2, 1, faultyLines⟩⟩ := by
  have happart : Apart "7" "\n " "8\n9" := ⟨by simp [isSpacing], by simp⟩
  have happart' : Apart "7" "\n " "8\n$" := ⟨by simp [isSpacing], by simp⟩
  have htext : threeLines.text = "7" ++ "\n " ++ "8\n9" := by decide
  have htext' : faultyLines.text = "7" ++ "\n " ++ "8\n$" := by decide
  have hlines := tokenize_append (a := "7") (b := "8\n9") happart htext
  have hfault := tokenize_append (a := "7") (b := "8\n$") happart' htext'
  refine ⟨happart, happart', hlines.1.trans ?_, ?_, hfault.1.trans ?_⟩
  · cbv
  · cbv
  · cbv

end

end Scanner

end Reckon
