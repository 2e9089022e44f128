import Reckon.Proofs.Numerals
import Reckon.Proofs.Places

/-!
Scanning follows the pieces of a text. Every legal piece takes one step, which adds its
token, if it has one; the first piece that is not legal is the one that is reported.
-/

namespace Reckon.Scanner

namespace Piece

def Legal : Piece → Prop
  | spacing _ | operator _ => True
  | numeral run => LegalRun run
  | other _ => False

def kind? : Piece → Option Kind
  | operator c => Kind.ofChar? c
  | numeral run => (numeralValue? run).map .number
  | spacing _ | other _ => none

/-- The token of a piece that starts at a position. -/
def token? (p : Position) (piece : Piece) : Option Token :=
  piece.kind?.map (⟨·, p, p.advanceAll piece.chars⟩)

end Piece

def tokensFrom (p : Position) : List Piece → List Token
  | [] => []
  | piece :: ps => (piece.token? p).toList ++ tokensFrom (p.advanceAll piece.chars) ps

theorem tokensFrom_append (p : Position) (ps qs : List Piece) :
    tokensFrom p (ps ++ qs) =
      tokensFrom p ps ++ tokensFrom (p.advanceAll (ps.flatMap Piece.chars)) qs := by
  induction ps generalizing p with
  | nil => rfl
  | cons piece ps ih => simp [tokensFrom, ih, Position.advanceAll]

theorem tokensFrom_spacing (p : Position) (c : Char) (ps : List Piece) :
    tokensFrom p (.spacing c :: ps) = tokensFrom (p.advanceAll [c]) ps := rfl

theorem tokensFrom_operator (p : Position) {c : Char} {kind : Kind}
    (hc : Kind.ofChar? c = some kind) (ps : List Piece) :
    ∃ t : Token, t.kind = kind ∧
      tokensFrom p (.operator c :: ps) = t :: tokensFrom (p.advanceAll [c]) ps :=
  ⟨_, rfl, by rw [tokensFrom, Piece.token?, Piece.kind?, hc]; rfl⟩

theorem tokensFrom_joined (p : Position) {c : Char} {kind : Kind}
    (hc : Kind.ofChar? c = some kind) (ps qs : List Piece) :
    ∃ t : Token, t.kind = kind ∧
      tokensFrom p (ps ++ .spacing ' ' :: .operator c :: .spacing ' ' :: qs) =
        tokensFrom p ps ++
          t :: tokensFrom (p.advanceAll (ps.flatMap Piece.chars ++ [' ', c, ' '])) qs := by
  obtain ⟨t, ht, hmark⟩ := tokensFrom_operator
    ((p.advanceAll (ps.flatMap Piece.chars)).advanceAll [' ']) hc (.spacing ' ' :: qs)
  refine ⟨t, ht, ?_⟩
  rw [tokensFrom_append, tokensFrom_spacing, hmark, tokensFrom_spacing,
    Position.advanceAll_append]
  rfl

/-- Pieces that stand elsewhere have the same tokens, but there. -/
theorem tokensFrom_shift (base p : Position) (ps : List Piece) :
    tokensFrom (base.shift p) ps = (tokensFrom p ps).map (Token.shift base) := by
  induction ps generalizing p with
  | nil => rfl
  | cons piece ps ih =>
    have htoken : piece.token? (base.shift p) = (piece.token? p).map (Token.shift base) := by
      unfold Piece.token?
      rw [Option.map_map, Position.advanceAll_shift]
      rfl
    rw [tokensFrom, tokensFrom, Position.advanceAll_shift, ih, htoken, List.map_append,
      Option.toList_map]

theorem ofChar?_tag {c : Char} {kind : Kind} (h : Kind.ofChar? c = some kind) :
    kind.tag ≠ .number ∧ kind.tag ≠ .eof := by
  unfold Kind.ofChar? at h
  split at h
  case h_8 => cases h
  all_goals
    obtain rfl := Option.some.inj h
    decide

theorem kind?_ne_eof {piece : Piece} {kind : Kind} (h : piece.kind? = some kind) :
    kind ≠ .eof := by
  rintro rfl
  cases piece with
  | spacing c => cases h
  | other c => cases h
  | operator c => exact (ofChar?_tag h).2 rfl
  | numeral run =>
    obtain ⟨v, -, hv⟩ := Option.map_eq_some_iff.mp h
    cases hv

theorem tokensFrom_not_isEof {p : Position} {ps : List Piece} :
    ∀ t ∈ tokensFrom p ps, t.isEof = false := by
  induction ps generalizing p with
  | nil => simp [tokensFrom]
  | cons piece ps ih =>
    intro t ht
    rcases List.mem_append.mp ht with ht | ht
    · obtain ⟨kind, hkind, rfl⟩ := Option.map_eq_some_iff.mp (Option.mem_toList.mp ht)
      simpa [Token.isEof] using kind?_ne_eof hkind
    · exact ih t ht

/-- The fault of a piece that starts at `p`: its code, and all that is reported. -/
inductive Fault (p : Position) : Piece → String → LexError → Prop where
  | illegal (c : Char) :
      Fault p (.other c) "L001" ⟨.illegalCharacter, String.singleton c, p, p.advance c⟩
  | secondPoint {a b c : List Char} {q : Position} (ha : Digits a) (hb : Digits b)
      (hq : q = p.advanceAll (a ++ '.' :: b)) :
      Fault p (.numeral ((a ++ '.' :: b) ++ '.' :: c)) "L002"
        ⟨.malformedNumber LexError.secondPoint, ".", q, q.advance '.'⟩
  | lonePoint :
      Fault p (.numeral ['.']) "L002"
        ⟨.malformedNumber LexError.lonePoint, ".", p, p.advance '.'⟩
  | tooLarge {run : List Char} (hpoints : run.count '.' ≤ 1) (hrange : ¬ InRange run) :
      Fault p (.numeral run) "L003"
        ⟨.numberTooLarge, String.ofList (run.take 1), p, p.advanceAll run⟩

/-- The tokens of pieces from a position on, the last of which is the end of input. The lexeme of
a token is the piece, and that of the end of input is empty. -/
inductive Lexed : Position → List Piece → List Token → Prop where
  | eof {p : Position} {t : Token} (ht : t = ⟨.eof, p, p⟩) (hlexeme : t.lexeme = "") :
      Lexed p [] [t]
  | spacing {p : Position} {c : Char} {ps : List Piece} {ts : List Token}
      (h : Lexed (p.advance c) ps ts) : Lexed p (.spacing c :: ps) ts
  | operator {p : Position} {c : Char} {kind : Kind} {t : Token} {ps : List Piece}
      {ts : List Token} (hkind : Kind.ofChar? c = some kind) (ht : t = ⟨kind, p, p.advance c⟩)
      (hlexeme : t.lexeme = String.singleton c) (h : Lexed (p.advance c) ps ts) :
      Lexed p (.operator c :: ps) (t :: ts)
  | numeral {p : Position} {run : List Char} {v : Number} {t : Token} {ps : List Piece}
      {ts : List Token} (hv : Denotes run v) (ht : t = ⟨.number v, p, p.advanceAll run⟩)
      (hlexeme : t.lexeme = String.ofList run) (h : Lexed (p.advanceAll run) ps ts) :
      Lexed p (.numeral run :: ps) (t :: ts)

theorem advanceOver_singleton (p : Position) (c : Char) :
    p.advanceOver (String.singleton c) = p.advance c := by
  have hiff : String.singleton c = "\n" ↔ c = '\n' := by
    rw [← String.toList_inj]
    simp
  simp [Position.advanceOver, Position.advance, hiff]

section
variable {p : Position} {run rest : List Char}

theorem current_ne_point (hrest : Bounded rest) (p : Position) :
    Cursor.current ⟨p, rest, true⟩ ≠ some '.' := by
  intro h
  exact absurd (hrest '.' h) (by decide)

@[simp] theorem current_cons (p : Position) (c : Char) (cs : List Char) :
    Cursor.current ⟨p, c :: cs, true⟩ = some c := rfl

@[simp] theorem advance_cons (p : Position) (c : Char) (cs : List Char) :
    Cursor.advance ⟨p, c :: cs, true⟩ = ⟨p.advance c, cs, true⟩ := rfl

theorem skip_append (p : Position) (run rest : List Char) :
    Cursor.skip ⟨p, run ++ rest, true⟩ run = ⟨p.advanceAll run, rest, true⟩ := by
  simp [Cursor.skip]

theorem ne_lonePoint (hdigit : ∃ c ∈ run, c.isDigit) : run ≠ ['.'] := by
  rintro rfl
  simp at hdigit

theorem number_legal (hrun : ∀ c ∈ run, isNumeral c) (hlegal : LegalRun run)
    (hrest : Bounded rest) (p : Position) :
    ∃ v, numeralValue? run = some v ∧
      number ⟨p, run ++ rest, true⟩ =
        (.ok ⟨.number v, p, p.advanceAll run⟩, ⟨p.advanceAll run, rest, true⟩) := by
  obtain ⟨d, hd, -⟩ := hlegal.digit
  obtain ⟨v, hv⟩ := (numeralValue?_isSome_iff (List.ne_nil_of_mem hd)).mpr hlegal.range
  refine ⟨v, hv, ?_⟩
  simp only [number, if_true, numeralRun_eq hrun hlegal.points hrest, skip_append,
    current_ne_point hrest, ne_lonePoint hlegal.digit, hv, if_false]

theorem slice_first (hne : run ≠ []) (hp : p.rest = run ++ rest) :
    p.source.slice p.index (p.index + 1) = String.ofList (run.take 1) := by
  obtain ⟨c, cs, rfl⟩ := List.exists_cons_of_ne_nil hne
  exact Position.slice_rest (show p.rest = [c] ++ (cs ++ rest) from hp)

/-- The points of a run are counted before anything else: the scan stops at the second one,
and only a run without a second one is read to its end. -/
theorem number_faulty (hrun : ∀ c ∈ run, isNumeral c) (hne : run ≠ [])
    (hfault : ¬ LegalRun run) (hrest : Bounded rest) (hp : p.rest = run ++ rest) :
    ∃ e, Fault p (.numeral run) e.code e ∧
      (number ⟨p, run ++ rest, true⟩).1 = .error e := by
  by_cases hcount : run.count '.' ≤ 1
  · by_cases hdigit : ∃ c ∈ run, c.isDigit
    · have hrange : ¬ InRange run := fun h => hfault ⟨hdigit, hcount, h⟩
      have hnone : numeralValue? run = none := by
        rw [← numeralValue?_isSome_iff hne] at hrange
        simpa [Option.eq_none_iff_forall_ne_some] using hrange
      refine ⟨.numberTooLarge p (p.advanceAll run), ?_, ?_⟩
      · rw [LexError.numberTooLarge, slice_first hne hp]
        exact .tooLarge hcount hrange
      · simp only [number, if_true, numeralRun_eq hrun hcount hrest, skip_append,
          current_ne_point hrest, ne_lonePoint hdigit, hnone, if_false]
    · obtain rfl := lone_point hrun hne hdigit hcount
      refine ⟨.malformedNumber "." p LexError.lonePoint, .lonePoint, ?_⟩
      simp only [number, if_true, numeralRun_eq hrun hcount hrest, skip_append,
        current_ne_point hrest, if_false]
  · obtain ⟨a, b, c, ha, hb, rfl⟩ := second_point hrun (by omega)
    refine ⟨.malformedNumber "." (p.advanceAll (a ++ '.' :: b)) LexError.secondPoint,
      .secondPoint ha hb rfl, ?_⟩
    rw [List.append_assoc (a ++ _), List.cons_append]
    simp only [number, if_true, numeralRun_secondPoint ha hb, skip_append, current_cons]

theorem isSpacing_of_isNumeral {c : Char} (h : isNumeral c) : isSpacing c = false := by
  by_contra hs
  simp only [isSpacing, Bool.not_eq_false, Bool.or_eq_true, beq_iff_eq] at hs
  rcases hs with ((rfl | rfl) | rfl) | rfl <;> exact absurd h (by decide)

theorem numeral_head (hrun : ∀ c ∈ run, isNumeral c) (hne : run ≠ []) :
    ∃ c cs, run = c :: cs ∧ isNumeral c ∧ isSpacing c = false := by
  obtain ⟨c, cs, rfl⟩ := List.exists_cons_of_ne_nil hne
  have hc : isNumeral c := hrun c (by simp)
  exact ⟨c, cs, rfl, hc, isSpacing_of_isNumeral hc⟩

/-- A run of digits and points is read as a number. -/
theorem scan_number (hrun : ∀ c ∈ run, isNumeral c) (hne : run ≠ []) {t : Token}
    {after : Cursor} (hnumber : number ⟨p, run ++ rest, true⟩ = (.ok t, after)) (n : Nat)
    (found : List Token) :
    scan (n + 1) ⟨p, run ++ rest, true⟩ found = scan n after (t :: found) := by
  obtain ⟨c, cs, rfl, hc, hspacing⟩ := numeral_head hrun hne
  rw [List.cons_append] at hnumber ⊢
  rw [scan, current_cons]
  simp only [hspacing, hc, hnumber, if_true, Bool.false_eq_true, if_false]

theorem scan_number_error (hrun : ∀ c ∈ run, isNumeral c) (hne : run ≠ []) {e : LexError}
    (hnumber : (number ⟨p, run ++ rest, true⟩).1 = .error e) (n : Nat) (found : List Token) :
    scan (n + 1) ⟨p, run ++ rest, true⟩ found =
      (.error e, (number ⟨p, run ++ rest, true⟩).2, found) := by
  obtain ⟨c, cs, rfl, hc, hspacing⟩ := numeral_head hrun hne
  rw [List.cons_append] at hnumber ⊢
  rw [scan, current_cons, ← Prod.mk.eta (p := number _), hnumber]
  simp only [hspacing, hc, if_true, Bool.false_eq_true, if_false]

end

section
variable {cs : List Char} {piece : Piece} {ps : List Piece}

theorem scan_legal (h : Splits cs (piece :: ps)) (hlegal : piece.Legal) :
    ∃ rest, cs = piece.chars ++ rest ∧ Splits rest ps ∧ ∀ p n found,
      scan (n + 1) ⟨p, cs, true⟩ found =
        scan n ⟨p.advanceAll piece.chars, rest, true⟩ ((piece.token? p).toList ++ found) := by
  cases h with
  | @single c cs _ hc h =>
    refine ⟨cs, by simp, h, fun p n found => ?_⟩
    rw [scan]
    simp only [current_cons, advance_cons, hc, Piece.token?, Piece.chars_single]
    rcases Piece.single_cases c with ⟨hs, heq⟩ | ⟨hs, kind, hk, heq⟩ | ⟨-, -, heq⟩
    · simp [heq, hs, Piece.kind?, Position.advanceAll]
    · simp [heq, hs, hk, Piece.kind?, Position.advanceAll]
    · rw [heq] at hlegal
      cases hlegal
  | numeral hne hrun hrest hcs h =>
    subst hcs
    refine ⟨_, rfl, h, fun p n found => ?_⟩
    obtain ⟨v, hv, hnumber⟩ := number_legal hrun hlegal hrest p
    rw [scan_number hrun hne hnumber]
    simp [Piece.token?, Piece.kind?, hv, Piece.chars]

/-- A piece that is not legal adds nothing to the tokens found. -/
theorem scan_faulty (h : Splits cs (piece :: ps)) (hfault : ¬ piece.Legal) {p : Position}
    (hp : p.rest = cs) (n : Nat) (found : List Token) :
    ∃ e after, Fault p piece e.code e ∧
      scan (n + 1) ⟨p, cs, true⟩ found = (.error e, after, found) := by
  cases h with
  | @single c cs _ hc h =>
    rcases Piece.single_cases c with ⟨-, heq⟩ | ⟨-, _, -, heq⟩ | ⟨hs, hk, heq⟩
    · rw [heq] at hfault
      exact absurd trivial hfault
    · rw [heq] at hfault
      exact absurd trivial hfault
    · rw [heq]
      refine ⟨⟨.illegalCharacter, String.singleton c, p, p.advance c⟩, ⟨p, c :: cs, true⟩,
        .illegal c, ?_⟩
      rw [scan]
      simp [hs, hc, hk, LexError.illegalCharacter, advanceOver_singleton]
  | numeral hne hrun hrest hcs h =>
    subst hcs
    obtain ⟨e, he, hnumber⟩ := number_faulty hrun hne hfault hrest hp
    exact ⟨e, _, he, scan_number_error hrun hne hnumber n found⟩

/-- Legal pieces are read one after the other, a step for each. -/
theorem scan_append {before after : List Piece} (h : Splits cs (before ++ after))
    (hlegal : ∀ piece ∈ before, piece.Legal) :
    ∃ rest, cs = before.flatMap Piece.chars ++ rest ∧ Splits rest after ∧ ∀ p n found,
      scan (before.length + n) ⟨p, cs, true⟩ found =
        scan n ⟨p.advanceAll (before.flatMap Piece.chars), rest, true⟩
          ((tokensFrom p before).reverse ++ found) := by
  induction before generalizing cs with
  | nil => exact ⟨cs, rfl, h, fun p n found => by simp [tokensFrom, Position.advanceAll]⟩
  | cons piece before ih =>
    obtain ⟨rest, rfl, hrest, hstep⟩ := scan_legal h (hlegal piece (by simp))
    obtain ⟨rest', rfl, hrest', hrun⟩ := ih hrest (fun q hq => hlegal q (by simp [hq]))
    refine ⟨rest', by simp, hrest', fun p n found => ?_⟩
    have hrev : (piece.token? p).toList.reverse = (piece.token? p).toList := by
      cases piece.token? p <;> rfl
    rw [List.length_cons, show before.length + 1 + n = before.length + n + 1 by omega, hstep, hrun]
    simp [tokensFrom, hrev, Position.advanceAll]

end

theorem scan_nil (n : Nat) (p : Position) (found : List Token) :
    scan n ⟨p, [], true⟩ found = (.ok (), ⟨p, [], true⟩, found) := by
  cases n <;> rfl

section
variable {source : Source}

/-- The position after all of the text. -/
def atEnd (source : Source) : Position := (Position.start source).advanceAll source.text.toList

theorem tokenize_of_legal {ps : List Piece} (h : Splits source.text.toList ps)
    (hlegal : ∀ piece ∈ ps, piece.Legal) :
    tokenize source =
      .ok (tokensFrom (.start source) ps ++ [⟨.eof, atEnd source, atEnd source⟩]) := by
  obtain ⟨rest, -, hrest, hrun⟩ := scan_append (List.append_nil ps ▸ h) hlegal
  obtain ⟨n, hn⟩ := Nat.exists_eq_add_of_le h.length_le
  cases hrest with
  | nil =>
    rw [h.chars_eq] at hrun
    simp only [tokenize, readAll, start, hn, hrun, scan_nil]
    simp [atEnd]

/-- The tokens found before a fault are kept. -/
theorem readAll_of_faulty {s : Scanner} {before after : List Piece} {bad : Piece}
    (h : Splits s.source.text.toList (before ++ bad :: after))
    (hlegal : ∀ piece ∈ before, piece.Legal) (hfault : ¬ bad.Legal) :
    ∃ e cursor,
      s.readAll = (.error e, ⟨s.source, cursor, tokensFrom (.start s.source) before⟩) ∧
      Fault ((Position.start s.source).advanceAll (before.flatMap Piece.chars)) bad e.code e := by
  obtain ⟨rest, hchars, hrest, hrun⟩ := scan_append h hlegal
  have hlen := h.length_le
  rw [List.length_append, List.length_cons] at hlen
  obtain ⟨n, hn⟩ := Nat.exists_eq_add_of_le
    (show before.length + 1 ≤ s.source.text.toList.length by omega)
  have hplace := Position.rest_advanceAll (p := .start s.source) hchars
  obtain ⟨e, cursor, he, hscan⟩ := scan_faulty hrest hfault hplace n
    (tokensFrom (.start s.source) before).reverse
  refine ⟨e, cursor, ?_, he⟩
  rw [show before.length + 1 + n = before.length + (n + 1) by omega] at hn
  rw [readAll, hn, hrun, List.append_nil, hscan]
  simp only [List.reverse_reverse]

theorem tokenize_of_faulty {before after : List Piece} {bad : Piece}
    (h : Splits source.text.toList (before ++ bad :: after))
    (hlegal : ∀ piece ∈ before, piece.Legal) (hfault : ¬ bad.Legal) :
    ∃ e, tokenize source = .error e ∧
      Fault ((Position.start source).advanceAll (before.flatMap Piece.chars)) bad e.code e := by
  obtain ⟨e, cursor, hread, he⟩ := readAll_of_faulty (s := start source) h hlegal hfault
  exact ⟨e, by rw [tokenize, hread], he⟩

theorem lexed_tokensFrom {cs : List Char} {ps : List Piece} (h : Splits cs ps)
    (hlegal : ∀ piece ∈ ps, piece.Legal) {p : Position} (hp : p.rest = cs) :
    Lexed p ps (tokensFrom p ps ++ [⟨.eof, p.advanceAll cs, p.advanceAll cs⟩]) := by
  induction h generalizing p with
  | nil => exact .eof rfl (Token.lexeme_empty p .eof)
  | @single c cs ps hc h ih =>
    have hps := ih (fun q hq => hlegal q (by simp [hq])) (Position.rest_advance hp)
    have hc := hlegal (.single c) (by simp)
    rw [tokensFrom, Piece.token?, Piece.chars_single]
    rcases Piece.single_cases c with ⟨-, heq⟩ | ⟨-, kind, hk, heq⟩ | ⟨-, -, heq⟩
    · rw [heq]
      exact .spacing hps
    · rw [heq, Piece.kind?, hk]
      exact .operator hk rfl (Token.lexeme_advance hp kind) hps
    · rw [heq] at hc
      cases hc
  | @numeral run cs rest ps hne hrun hrest hcs h ih =>
    rw [hcs] at hp
    have hps := ih (fun q hq => hlegal q (by simp [hq])) (Position.rest_advanceAll hp)
    have hlegal : LegalRun run := hlegal (.numeral run) (by simp)
    obtain ⟨v, hv⟩ := (numeralValue?_isSome_iff hne).mpr hlegal.range
    have hstop : p.advanceAll cs = (p.advanceAll run).advanceAll rest := by
      rw [hcs, Position.advanceAll, List.foldl_append]
      rfl
    rw [tokensFrom, Piece.token?, Piece.kind?, hv, hstop]
    exact .numeral (denotes_of_numeralValue? hv) rfl (Token.lexeme_advanceAll hp _) hps

theorem all_legal_or_leftmost (ps : List Piece) :
    (∀ piece ∈ ps, piece.Legal) ∨ ∃ before bad after, ps = before ++ bad :: after ∧
      (∀ piece ∈ before, piece.Legal) ∧ ¬ bad.Legal := by
  induction ps with
  | nil => exact .inl (by simp)
  | cons piece ps ih =>
    by_cases hpiece : piece.Legal
    · rcases ih with h | ⟨before, bad, after, rfl, hlegal, hfault⟩
      · exact .inl (by simpa [hpiece] using h)
      · exact .inr ⟨piece :: before, bad, after, rfl, by simpa [hpiece] using hlegal, hfault⟩
    · exact .inr ⟨[], piece, ps, rfl, by simp, hpiece⟩

theorem legal_of_tokenize {ps : List Piece} {tokens : List Token}
    (h : Splits source.text.toList ps) (hok : tokenize source = .ok tokens) :
    ∀ piece ∈ ps, piece.Legal := by
  rcases all_legal_or_leftmost ps with hlegal | ⟨before, bad, after, rfl, hlegal, hfault⟩
  · exact hlegal
  · obtain ⟨e, he, -⟩ := tokenize_of_faulty h hlegal hfault
    rw [he] at hok
    cases hok

end

/-- A text splits into pieces in one way, is accepted if all of them are legal, and is
otherwise reported for the leftmost that is not. -/
theorem tokenize_iff_legal (source : Source) :
    ∃ ps, Splits source.text.toList ps ∧ (∀ qs, Splits source.text.toList qs → qs = ps) ∧
      ((∃ tokens, tokenize source = .ok tokens) ↔ ∀ piece ∈ ps, piece.Legal) ∧
      (∀ tokens, tokenize source = .ok tokens → Lexed (.start source) ps tokens) ∧
      ∀ before bad after, ps = before ++ bad :: after → (∀ piece ∈ before, piece.Legal) →
        ¬ bad.Legal → ∃ e, tokenize source = .error e ∧
          Fault ((Position.start source).advanceAll (before.flatMap Piece.chars)) bad e.code e := by
  obtain ⟨ps, hps⟩ := exists_splits source.text.toList
  refine ⟨ps, hps, fun qs hqs => hqs.unique hps, ?_, ?_, ?_⟩
  · refine ⟨fun ⟨tokens, hok⟩ => legal_of_tokenize hps hok, fun hlegal => ?_⟩
    exact ⟨_, tokenize_of_legal hps hlegal⟩
  · intro tokens hok
    have hlegal := legal_of_tokenize hps hok
    rw [tokenize_of_legal hps hlegal] at hok
    obtain rfl := Except.ok.inj hok
    exact lexed_tokensFrom hps hlegal rfl
  · rintro before bad after rfl hlegal hfault
    exact tokenize_of_faulty hps hlegal hfault

end Reckon.Scanner
