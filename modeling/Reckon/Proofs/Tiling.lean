import Reckon.Proofs.Lexing

/-!
Tokens tile their text: between them there is nothing but spacing. Every position, those of
an error included, is what counting the characters before it gives.
-/

namespace Reckon

namespace Source

open Scanner

/-- The text between the tokens, the first piece of it from an index on. -/
def gaps (source : Source) : Nat → List Token → List String
  | _, [] => []
  | n, t :: ts => source.slice n t.start.index :: source.gaps t.stop.index ts

/-- Nothing but spacing between two indices. -/
def IsBlank (source : Source) (start stop : Nat) : Prop :=
  ∀ k c, start ≤ k → k < stop → source.text.toList[k]? = some c → isSpacing c

variable {source : Source}

theorem toList_slice (source : Source) (a b : Nat) :
    (source.slice a b).toList = (source.text.toList.drop a).take (b - a) := by
  rw [slice, String.toList_ofList, List.drop_take]

theorem slice_append {a b c : Nat} (hab : a ≤ b) (hbc : b ≤ c) :
    source.slice a b ++ source.slice b c = source.slice a c := by
  have hdrop : source.text.toList.drop b = (source.text.toList.drop a).drop (b - a) := by
    rw [List.drop_drop]
    congr 1
    omega
  rw [← String.toList_inj, String.toList_append, toList_slice, toList_slice, toList_slice, hdrop,
    ← List.take_add]
  congr 1
  omega

theorem slice_whole (source : Source) : source.slice 0 source.text.length = source.text := by
  rw [← String.toList_inj, toList_slice, ← String.length_toList]
  simp

theorem IsBlank.slice {a b : Nat} (h : source.IsBlank a b) :
    ∀ c ∈ (source.slice a b).toList, isSpacing c := by
  intro c hc
  rw [toList_slice] at hc
  obtain ⟨k, hk⟩ := List.mem_iff_getElem?.mp hc
  rw [List.getElem?_take, List.getElem?_drop] at hk
  split at hk
  · exact h (a + k) c (by omega) (by omega) hk
  · cases hk

theorem spanning_append {before lexeme after : List Char}
    (h : source.text.toList = before ++ (lexeme ++ after)) (kind : Kind) :
    Token.spanning source kind before.length (before.length + lexeme.length) =
      ⟨kind, (Position.start source).advanceAll before,
        ((Position.start source).advanceAll before).advanceAll lexeme⟩ := by
  have hstop : source.text.toList = (before ++ lexeme) ++ after := by rw [h, List.append_assoc]
  rw [Token.spanning, position_append h, ← Position.advanceAll_append, ← position_append hstop,
    List.length_append]

theorem spanning_eof (source : Source) :
    Token.spanning source .eof source.text.length source.text.length =
      ⟨.eof, atEnd source, atEnd source⟩ := by
  have hempty : source.text.toList = source.text.toList ++ ([] ++ []) := by simp
  have hspanning := spanning_append hempty .eof
  rwa [String.length_toList] at hspanning

theorem lexeme_spanning (source : Source) (kind : Kind) (start stop : Nat) :
    (Token.spanning source kind start stop).lexeme = source.slice start stop := by
  simp [Token.spanning, Token.lexeme]

/-- Tokens from an index on: spacing, a token, spacing, and so on up to the end of input. -/
inductive Tiling (source : Source) : Nat → List Token → Prop where
  | eof {n : Nat} (hn : n ≤ source.text.length) (hblank : source.IsBlank n source.text.length) :
      Tiling source n [.spanning source .eof source.text.length source.text.length]
  | token {n start stop : Nat} {kind : Kind} {ts : List Token} (hn : n ≤ start)
      (hblank : source.IsBlank n start) (hspan : start < stop) (hkind : kind ≠ .eof)
      (h : Tiling source stop ts) : Tiling source n (.spanning source kind start stop :: ts)

namespace Tiling

variable {n : Nat} {tokens : List Token}

/-- Spacing in front belongs to the first gap. -/
theorem spacing {c : Char} (hc : source.text.toList[n]? = some c) (hspacing : isSpacing c)
    (h : source.Tiling (n + 1) tokens) : source.Tiling n tokens := by
  have hblank : ∀ {stop}, source.IsBlank (n + 1) stop → source.IsBlank n stop := by
    intro stop hrest k d hk hstop hd
    rcases Nat.eq_or_lt_of_le hk with rfl | hlt
    · obtain rfl := Option.some.inj (hc.symm.trans hd)
      exact hspacing
    · exact hrest k d hlt hstop hd
  cases h with
  | eof hn hrest => exact .eof (by omega) (hblank hrest)
  | token hn hrest hspan hkind h => exact .token (by omega) (hblank hrest) hspan hkind h

theorem le_length (h : source.Tiling n tokens) : n ≤ source.text.length := by
  induction h with
  | eof hn _ => exact hn
  | token hn _ hspan _ _ ih => omega

theorem spanning (h : source.Tiling n tokens) :
    ∀ t ∈ tokens, t = .spanning source t.kind t.start.index t.stop.index := by
  induction h with
  | eof => simp [Token.spanning]
  | token _ _ _ _ _ ih =>
    rw [List.forall_mem_cons]
    exact ⟨by simp [Token.spanning], ih⟩

theorem le_start (h : source.Tiling n tokens) : ∀ t ∈ tokens, n ≤ t.start.index := by
  induction h with
  | eof hn _ => simpa [Token.spanning] using hn
  | token hn _ hspan _ _ ih =>
    rw [List.forall_mem_cons]
    refine ⟨by simpa [Token.spanning] using hn, fun t ht => ?_⟩
    have := ih t ht
    omega

theorem le_stop (h : source.Tiling n tokens) :
    ∀ t ∈ tokens, t.start.index ≤ t.stop.index ∧ t.stop.index ≤ source.text.length := by
  induction h with
  | eof => simp [Token.spanning]
  | token _ _ hspan _ h ih =>
    rw [List.forall_mem_cons]
    simp only [Token.spanning, position_index]
    exact ⟨⟨hspan.le, h.le_length⟩, ih⟩

theorem marks (h : source.Tiling n tokens) :
    ∀ t ∈ tokens, t.start.Marks source ∧ t.stop.Marks source := by
  intro t ht
  obtain ⟨hspan, hstop⟩ := h.le_stop t ht
  rw [h.spanning t ht]
  exact ⟨position_marks (hspan.trans hstop), position_marks hstop⟩

theorem ordered (h : source.Tiling n tokens) :
    tokens.Pairwise fun t u => t.start.index < u.start.index ∧ t.stop.index ≤ u.start.index := by
  induction h with
  | eof => exact List.pairwise_singleton _ _
  | token _ _ hspan _ h ih =>
    refine List.pairwise_cons.mpr ⟨fun u hu => ?_, ih⟩
    have hstop := h.le_start u hu
    simp only [Token.spanning, position_index]
    omega

theorem ended (h : source.Tiling n tokens) :
    ∃ body eof, tokens = body ++ [eof] ∧ eof.kind = .eof ∧
      eof.start.index = source.text.length ∧ eof.stop.index = source.text.length ∧
      ∀ t ∈ body, t.kind ≠ .eof ∧ t.start.index < t.stop.index := by
  induction h with
  | eof => exact ⟨[], _, rfl, rfl, by simp [Token.spanning], by simp [Token.spanning], by simp⟩
  | token _ _ hspan hkind _ ih =>
    obtain ⟨body, eof, rfl, heof, hstart, hstop, hbody⟩ := ih
    refine ⟨_ :: body, eof, rfl, heof, hstart, hstop, ?_⟩
    rw [List.forall_mem_cons]
    exact ⟨⟨hkind, by simpa [Token.spanning] using hspan⟩, hbody⟩

theorem isSpacing_outside (h : source.Tiling n tokens) {k : Nat} {c : Char} (hk : n ≤ k)
    (hc : source.text.toList[k]? = some c)
    (houtside : ∀ t ∈ tokens, k < t.start.index ∨ t.stop.index ≤ k) : isSpacing c := by
  induction h with
  | eof _ hblank =>
    obtain ⟨hlt, -⟩ := List.getElem?_eq_some_iff.mp hc
    rw [String.length_toList] at hlt
    exact hblank k c hk hlt hc
  | token hn hblank hspan _ _ ih =>
    rw [List.forall_mem_cons] at houtside
    simp only [Token.spanning, position_index] at houtside
    rcases houtside.1 with hbefore | hafter
    · exact hblank k c hk hbefore hc
    · exact ih hafter houtside.2

theorem gaps_spacing (h : source.Tiling n tokens) :
    ∀ gap ∈ source.gaps n tokens, ∀ c ∈ gap.toList, isSpacing c := by
  induction h with
  | eof _ hblank => simpa [gaps, Token.spanning] using hblank.slice
  | token _ hblank _ _ _ ih =>
    rw [gaps, List.forall_mem_cons]
    simp only [Token.spanning, position_index]
    exact ⟨hblank.slice, ih⟩

theorem join_gaps (h : source.Tiling n tokens) :
    String.join (List.zipWith (· ++ ·) (source.gaps n tokens) (tokens.map Token.lexeme)) =
      source.slice n source.text.length := by
  induction h with
  | eof hn _ =>
    rw [gaps, gaps, List.map_singleton, lexeme_spanning]
    simp [Token.spanning, slice_append hn le_rfl]
  | token hn _ hspan _ h ih =>
    have hlength := h.le_length
    rw [gaps, List.map_cons, List.zipWith_cons_cons, String.join_cons, lexeme_spanning]
    simp only [Token.spanning, position_index] at ih ⊢
    rw [ih, slice_append hn hspan.le, slice_append (by omega) hlength]

/-- A token at the very start, with the position that scanning gives it. -/
theorem cons {before lexeme after : List Char}
    (htext : source.text.toList = before ++ (lexeme ++ after)) (hne : lexeme ≠ []) {kind : Kind}
    (hkind : kind ≠ .eof) (h : source.Tiling (before ++ lexeme).length tokens) :
    source.Tiling before.length (⟨kind, (Position.start source).advanceAll before,
      ((Position.start source).advanceAll before).advanceAll lexeme⟩ :: tokens) := by
  have hpos := List.length_pos_iff.mpr hne
  rw [← spanning_append htext kind]
  rw [List.length_append] at h
  refine .token le_rfl (fun k c hk hlt => ?_) (by omega) hkind h
  omega

end Tiling

/-- One end of input, the last token and the only empty one, in order, with nothing but
spacing between the spans, so that the tokens and the gaps between them are all of the text. -/
structure TiledBy (source : Source) (tokens : List Token) : Prop where
  ended : ∃ body eof, tokens = body ++ [eof] ∧ eof.kind = .eof ∧
    eof.start.index = source.text.length ∧ eof.stop.index = source.text.length ∧
    ∀ t ∈ body, t.kind ≠ .eof ∧ t.start.index < t.stop.index
  ordered : tokens.Pairwise fun t u =>
    t.start.index < u.start.index ∧ t.stop.index ≤ u.start.index
  spanning : ∀ t ∈ tokens, t = .spanning source t.kind t.start.index t.stop.index
  outside : ∀ (k : Nat) (c : Char), source.text.toList[k]? = some c →
    (∀ t ∈ tokens, k < t.start.index ∨ t.stop.index ≤ k) → isSpacing c
  gaps : ∀ gap ∈ source.gaps 0 tokens, ∀ c ∈ gap.toList, isSpacing c
  rebuilt : String.join (List.zipWith (· ++ ·) (source.gaps 0 tokens) (tokens.map Token.lexeme)) =
    source.text

theorem Tiling.tiledBy {tokens : List Token} (h : source.Tiling 0 tokens) :
    source.TiledBy tokens where
  ended := h.ended
  ordered := h.ordered
  spanning := h.spanning
  outside _ _ hc houtside := h.isSpacing_outside (Nat.zero_le _) hc houtside
  gaps := h.gaps_spacing
  rebuilt := h.join_gaps.trans source.slice_whole

end Source

namespace Scanner

variable {source : Source}

/-- Legal pieces after some characters of a text tile the rest of it. -/
theorem tiling_of_splits {cs : List Char} {ps : List Piece} (h : Splits cs ps)
    (hlegal : ∀ piece ∈ ps, piece.Legal) (before : List Char)
    (hbefore : source.text.toList = before ++ cs) :
    source.Tiling before.length (tokensFrom ((Position.start source).advanceAll before) ps ++
      [⟨.eof, atEnd source, atEnd source⟩]) := by
  induction h generalizing before with
  | nil =>
    rw [List.append_nil] at hbefore
    rw [← hbefore, String.length_toList, ← Source.spanning_eof]
    exact .eof le_rfl fun k c hk hlt => by omega
  | @single c cs ps hc h ih =>
    obtain ⟨hpiece, hps⟩ := List.forall_mem_cons.mp hlegal
    have hrest := ih hps (before ++ [c]) (by simpa using hbefore)
    rw [Position.advanceAll_append] at hrest
    rcases Piece.single_cases c with ⟨hs, heq⟩ | ⟨-, kind, hk, heq⟩ | ⟨-, -, heq⟩
    · rw [heq, tokensFrom_spacing]
      refine .spacing (c := c) ?_ hs (by simpa using hrest)
      simp [hbefore]
    · have hkind : (Piece.operator c).kind? = some kind := hk
      rw [heq, tokensFrom, Piece.token?, hkind]
      exact .cons hbefore (List.cons_ne_nil c []) (kind?_ne_eof hkind) hrest
    · rw [heq] at hpiece
      cases hpiece
  | @numeral run cs rest ps hne hrun hbounded hcs h ih =>
    obtain ⟨hpiece, hps⟩ := List.forall_mem_cons.mp hlegal
    have hrunLegal : LegalRun run := hpiece
    obtain ⟨v, hv⟩ := (numeralValue?_isSome_iff hne).mpr hrunLegal.range
    rw [hcs] at hbefore
    have hrest := ih hps (before ++ run) (by simpa using hbefore)
    rw [Position.advanceAll_append] at hrest
    rw [tokensFrom, Piece.token?, Piece.kind?, hv]
    exact .cons hbefore hne Kind.noConfusion hrest

theorem tiling_of_tokenize {tokens : List Token} (h : tokenize source = .ok tokens) :
    source.Tiling 0 tokens := by
  obtain ⟨ps, hps⟩ := exists_splits source.text.toList
  have hlegal := legal_of_tokenize hps h
  obtain rfl := Except.ok.inj (h.symm.trans (tokenize_of_legal hps hlegal))
  exact tiling_of_splits hps hlegal [] rfl

/-- The tokens of a text keep their lexemes where the text is a part of another one. -/
theorem lexeme_shift_of_tokenize {tokens : List Token} (h : tokenize source = .ok tokens)
    {base : Position} {cs : List Char} (hbase : base.rest = source.text.toList ++ cs) {t : Token}
    (ht : t ∈ tokens) : (t.shift base).lexeme = t.lexeme := by
  obtain ⟨hstart, hstop⟩ := (tiling_of_tokenize h).marks t ht
  rw [← hstart.origin] at hbase hstop
  exact Token.lexeme_shift hbase hstop.inside

/-- Whatever the fault of a piece, it is reported for a part of that piece. -/
theorem Fault.within {p : Position} {piece : Piece} {code : String} {e : LexError}
    (h : Fault p piece code e) :
    ∃ before part after, part ≠ [] ∧ piece.chars = before ++ (part ++ after) ∧
      e.start = p.advanceAll before ∧ e.stop = p.advanceAll (before ++ part) := by
  cases h with
  | illegal c => exact ⟨[], [c], [], List.cons_ne_nil _ _, rfl, rfl, rfl⟩
  | @secondPoint a b c q ha hb hq =>
    refine ⟨a ++ '.' :: b, ['.'], c, List.cons_ne_nil _ _, rfl, hq, ?_⟩
    rw [Position.advanceAll_append, hq]
    rfl
  | lonePoint => exact ⟨[], ['.'], [], List.cons_ne_nil _ _, rfl, rfl, rfl⟩
  | @tooLarge run hpoints hrange =>
    refine ⟨[], run, [], ?_, by simp [Piece.chars], rfl, rfl⟩
    rintro rfl
    exact hrange ⟨by simp, by simp⟩

theorem Fault.marks {before after : List Char} {piece : Piece} {code : String} {e : LexError}
    (h : Fault ((Position.start source).advanceAll before) piece code e)
    (htext : source.text.toList = before ++ piece.chars ++ after) :
    e.start.Marks source ∧ e.stop.Marks source := by
  obtain ⟨front, part, back, -, hchars, hstart, hstop⟩ := h.within
  have hfront : source.text.toList = (before ++ front) ++ (part ++ (back ++ after)) := by
    simp [htext, hchars]
  have hpart : source.text.toList = (before ++ (front ++ part)) ++ (back ++ after) := by
    simp [htext, hchars]
  rw [hstart, hstop, ← Position.advanceAll_append, ← Position.advanceAll_append]
  exact ⟨Position.marks_advanceAll hfront, Position.marks_advanceAll hpart⟩

/-- The tokens of a source tile it. All positions in the tokens, or else in the error, are places
in this source, under its name, and those that counting gives. -/
theorem tokenize_tiles (source : Source) :
    (∀ tokens, tokenize source = .ok tokens → source.TiledBy tokens ∧
      ∀ t ∈ tokens, t.start.Marks source ∧ t.stop.Marks source) ∧
    ∀ e, tokenize source = .error e → e.start.Marks source ∧ e.stop.Marks source := by
  refine ⟨fun tokens hok => ?_, fun e herror => ?_⟩
  · have htiling := tiling_of_tokenize hok
    exact ⟨htiling.tiledBy, htiling.marks⟩
  · obtain ⟨ps, hps⟩ := exists_splits source.text.toList
    rcases all_legal_or_leftmost ps with hlegal | ⟨before, bad, after, rfl, hlegal, hfault⟩
    · rw [tokenize_of_legal hps hlegal] at herror
      cases herror
    · obtain ⟨e', he', hfault⟩ := tokenize_of_faulty hps hlegal hfault
      obtain rfl := Except.error.inj (herror.symm.trans he')
      have htext : source.text.toList = before.flatMap Piece.chars ++ bad.chars ++
          after.flatMap Piece.chars := by
        rw [← hps.chars_eq]
        simp
      exact hfault.marks htext

end Scanner

end Reckon
