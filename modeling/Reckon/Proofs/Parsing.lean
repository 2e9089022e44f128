import Reckon.Expression
import Reckon.Proofs.Cutoff
import Reckon.Proofs.Lexing

/-!
Parsing a list of tokens against the grammar: a tree comes out exactly if the tokens
before the end of input have a derivation that nests no deeper than the limit, and then it
is the tree of that derivation.
-/

namespace Reckon

theorem supportedDepth_eq (frames : Int) : supportedDepth frames = max 1 ((frames - 200) / 5) :=
  congrArg (max 1) (Int.fdiv_eq_ediv_of_nonneg _ (by decide))

/-- The depth limit that counts, which is never above what the call stack supports. -/
def Limits.deepest (limits : Limits) : Int := min limits.depth (supportedDepth limits.stack)

namespace Parser

variable {p : Parser} {x : Grammar.Read Tree} {s : Grammar.State}

theorem run_of_ok {t : Tree} (h : x.run p.state = .ok t s) :
    p.run x = (.ok t, { p with state := s }) := by
  have happly : x p.state = .ok t s := h
  rw [run, happly]

theorem run_of_error {m : Misfit} (h : x.run p.state = .error (.error m) s) :
    p.run x = (.error (.ofMisfit m), { p with state := s }) := by
  have happly : x p.state = .error (.error m) s := h
  rw [run, happly]

end Parser

namespace Grammar

/-- The list is not empty and its last token is an end of input. -/
def Terminated (tokens : List Token) : Prop := ∃ last ∈ tokens.getLast?, last.isEof

/-- The tokens in front of the first end of input. -/
def beforeEof (tokens : List Token) : List Token := tokens.takeWhile (!·.isEof)

/-- How a run of the grammar is reported, under a limit. -/
def report (limit : Int) : EStateM.Result Halt State Tree → Except Failure Tree
  | .ok t _ => .ok t
  | .error (.error m) _ => .error (.ofParser (.ofMisfit m))
  | .error .outOfFrames s => .error (.ofParser (.ofMisfit ⟨.nestedTooDeep limit, s.next⟩))

/-- The outcome of a run with all the frames that a limit asks for. -/
def outcome (limit : Int) (w : List Token) (eof : Token) : Except Failure Tree :=
  report limit ((Parser.whole limit (framesPerLevel * limit.toNat + 3)).run ⟨w, eof, 0, 0⟩)

theorem beforeEof_not_isEof {tokens : List Token} {t : Token} (h : t ∈ beforeEof tokens) :
    t.isEof = false := by
  simpa using List.all_eq_true.mp List.all_takeWhile t h

theorem beforeEof_append {ts more : List Token} {eof : Token} (hts : ∀ t ∈ ts, t.isEof = false)
    (heof : eof.isEof) : beforeEof (ts ++ eof :: more) = ts := by
  rw [beforeEof, List.takeWhile_append_of_pos (by simpa using hts)]
  simp [heof]

theorem find?_isEof_iff {tokens : List Token} {eof : Token} :
    tokens.find? Token.isEof = some eof ↔
      eof.isEof ∧ ∃ more, tokens = beforeEof tokens ++ eof :: more := by
  rw [List.find?_eq_some_iff_append]
  constructor
  · rintro ⟨heof, before, more, rfl, hbefore⟩
    rw [beforeEof_append (by simpa using hbefore) heof]
    exact ⟨heof, more, rfl⟩
  · rintro ⟨heof, more, hsplit⟩
    exact ⟨heof, _, more, hsplit, fun t ht => by simp [beforeEof_not_isEof ht]⟩

private theorem initialState?_eq {tokens : List Token} {last eof : Token}
    (hlast : tokens.getLast? = some last) (heof : last.isEof)
    (hfind : tokens.find? Token.isEof = some eof) :
    Parser.initialState? tokens = some ⟨beforeEof tokens, eof, 0, 0⟩ := by
  have hguard : (guard (last.isEof = true) : Option Unit) = some () := if_pos heof
  unfold Parser.initialState?
  rw [hlast, Option.bind_eq_bind, Option.bind_some, hguard, hfind]
  rfl

private theorem run_eq_report (p : Parser) (x : Read Tree) :
    (p.run x).1.mapError Failure.ofParser = report p.limit (x.run p.state) := by
  change Except.mapError _ (match x.run p.state with
    | .ok t s => (Except.ok t, { p with state := s })
    | .error (.error m) s => (.error (.ofMisfit m), { p with state := s })
    | .error .outOfFrames s =>
      (.error (.ofMisfit ⟨.nestedTooDeep p.limit, s.next⟩), { p with state := s }) :
        Except Parser.Failure Tree × Parser).1 = _
  rcases x.run p.state with ⟨t, s⟩ | ⟨e | _, s⟩ <;> rfl

/-- The parser of a list that ends as it should starts in front of all its tokens and sees
those up to the first end of input. -/
theorem parser_eq {tokens : List Token} (h : Terminated tokens) :
    ∃ (eof : Token) (more : List Token), eof.isEof ∧ tokens = beforeEof tokens ++ eof :: more ∧
      ∀ limits, Expression.parser tokens limits = .ok
        ⟨⟨beforeEof tokens, eof, 0, 0⟩, limits.deepest, ⟨beforeEof tokens, eof, 0, 0⟩⟩ := by
  obtain ⟨last, hlast, heof⟩ := h
  obtain ⟨eof, hfind⟩ : ∃ eof, tokens.find? Token.isEof = some eof := by
    rw [← Option.isSome_iff_exists, List.find?_isSome]
    exact ⟨last, List.mem_of_getLast? hlast, heof⟩
  obtain ⟨hisEof, more, hsplit⟩ := find?_isEof_iff.mp hfind
  refine ⟨eof, more, hisEof, hsplit, fun limits => ?_⟩
  rw [Expression.parser, Parser.ofTokens?, initialState?_eq hlast heof hfind]
  rfl

theorem parseTokens_eq_outcome {tokens : List Token} (h : Terminated tokens) :
    ∃ eof : Token, eof.isEof ∧ ∀ limits,
      Expression.parseTokens tokens limits = outcome limits.deepest (beforeEof tokens) eof := by
  obtain ⟨eof, -, heof, -, hparser⟩ := parser_eq h
  refine ⟨eof, heof, fun limits => ?_⟩
  rw [Expression.parseTokens, hparser]
  exact run_eq_report _ _

theorem whole_eq_ok {limit : Int} {n : Nat} {s s' : State} {t : Tree} :
    (Parser.whole limit n).run s = .ok t s' ↔
      s.next.isEof = false ∧ (Rule.expr.read limit n).run s = .ok t s' ∧ s'.next.isEof = true := by
  rw [Parser.whole, peek_bind]
  cases heof : s.next.isEof with
  | true =>
    simp only [↓reduceIte, Bool.true_eq_false, false_and, iff_false]
    intro h
    cases h
  | false =>
    simp only [Bool.false_eq_true, ↓reduceIte, true_and]
    rw [bind_eq_ok]
    constructor
    · rintro ⟨t', s₁, hread, hend⟩
      rw [peek_bind] at hend
      split at hend
      · next hs₁ =>
        cases hend
        exact ⟨hread, hs₁⟩
      · cases hend
    · rintro ⟨hread, hend⟩
      exact ⟨t, s', hread, by rw [peek_bind, if_pos hend]; rfl⟩

section
variable {limit : Int} {w : List Token} {eof : Token}

theorem report_eq_ok_iff {res : EStateM.Result Halt State Tree} {t : Tree} :
    report limit res = .ok t ↔ ∃ s, res = .ok t s := by
  rcases res with ⟨t', s⟩ | ⟨e | _, s⟩ <;> simp [report]

theorem ofMisfit_eq_error_iff {m : Misfit} {e : ParseError} :
    Parser.Failure.ofMisfit m = .error e ↔ m = e.toMisfit := by
  unfold Parser.Failure.ofMisfit
  constructor
  · split
    · rintro ⟨⟩
      rfl
    · nofun
  · rintro rfl
    exact dif_pos e.hasMessage

theorem whole_of_derivation (d : Derivation (.rule .expr)) (heof : eof.isEof)
    (hw : ∀ t ∈ d.yield, t.isEof = false) (hlimit : (d.nesting : Int) ≤ limit) :
    ∃ s, (Parser.whole limit (framesPerLevel * limit.toNat + 3)).run ⟨d.yield, eof, 0, 0⟩ =
      .ok d.tree s := by
  obtain ⟨t, rest, hcons⟩ := List.exists_cons_of_ne_nil d.expr_pos.2
  have hspans : Spans limit d ⟨d.yield, eof, 0, 0⟩ ⟨[], eof, d.yield.length, 0⟩ := by
    refine ⟨⟨by simp, by simp⟩, ?_, ends_nil _⟩
    simp only [State.room]
    omega
  have hread := d.accepted heof hspans (n := framesPerLevel * limit.toNat + 3) (by
    simp only [framesPerLevel, Part.frames]
    omega)
  refine ⟨_, whole_eq_ok.mpr ⟨?_, hread, heof⟩⟩
  simp only [State.next, hcons, List.headD_cons]
  exact hw t (by simp [hcons])

theorem outcome_eq_ok_iff (heof : eof.isEof) (hw : ∀ t ∈ w, t.isEof = false) {t : Tree} :
    outcome limit w eof = .ok t ↔
      ∃ d : Derivation (.rule .expr), d.yield = w ∧ (d.nesting : Int) ≤ limit ∧ d.tree = t := by
  rw [outcome, report_eq_ok_iff]
  constructor
  · rintro ⟨s', hrun⟩
    obtain ⟨-, hread, hend⟩ := whole_eq_ok.mp hrun
    obtain ⟨d, rfl, hd⟩ := read_sound heof hread
    have hfits := hd.fits
    have hahead : w = d.yield ++ s'.ahead := hd.reads.1
    have hnil : s'.ahead = [] := by
      cases hs : s'.ahead with
      | nil => rfl
      | cons x rest =>
        have hx : x.isEof = false := hw x (by simp [hahead, hs])
        simp [State.next, hs, hx] at hend
    have hpos := d.expr_pos.1
    simp only [State.room] at hfits
    exact ⟨d, by simp [hahead, hnil], by omega, rfl⟩
  · rintro ⟨d, rfl, hlimit, rfl⟩
    exact whole_of_derivation d heof hw hlimit

end

/-- A text whose pieces are all legal is parsed by its tokens. -/
theorem parse_of_legal {source : Source} {ps : List Scanner.Piece}
    (hps : Scanner.Splits source.text.toList ps) (hlegal : ∀ piece ∈ ps, piece.Legal) :
    ∃ eof : Token, eof.isEof ∧ ∀ limits, Expression.parse source limits =
      outcome limits.deepest (Scanner.tokensFrom (.start source) ps) eof := by
  obtain ⟨last, hlast, hok⟩ : ∃ last : Token, last.isEof ∧
      tokenize source = .ok (Scanner.tokensFrom (.start source) ps ++ [last]) :=
    ⟨_, rfl, Scanner.tokenize_of_legal hps hlegal⟩
  have hend : Terminated (Scanner.tokensFrom (.start source) ps ++ [last]) :=
    ⟨last, by simp, hlast⟩
  obtain ⟨eof, heof, hparse⟩ := parseTokens_eq_outcome hend
  rw [beforeEof_append Scanner.tokensFrom_not_isEof hlast] at hparse
  refine ⟨eof, heof, fun limits => ?_⟩
  rw [Expression.parse, Expression.tokens, hok]
  exact hparse limits

/-- A text with a derivation is parsed as its tree, if the limit lets it pass. -/
theorem parse_eq_ok_iff {source : Source} {ps : List Scanner.Piece}
    (hps : Scanner.Splits source.text.toList ps) (hlegal : ∀ piece ∈ ps, piece.Legal)
    {d : Derivation (.rule .expr)} (hyield : d.yield = Scanner.tokensFrom (.start source) ps)
    {limits : Limits} {t : Tree} :
    Expression.parse source limits = .ok t ↔ (d.nesting : Int) ≤ limits.deepest ∧ d.tree = t := by
  obtain ⟨eof, heof, hparse⟩ := parse_of_legal hps hlegal
  rw [hparse, outcome_eq_ok_iff heof Scanner.tokensFrom_not_isEof]
  constructor
  · rintro ⟨d', hyield', hlimit, htree⟩
    obtain rfl := Derivation.eq_of_yield_eq (hyield'.trans hyield.symm)
    exact ⟨hlimit, htree⟩
  · rintro ⟨hlimit, htree⟩
    exact ⟨d, hyield, hlimit, htree⟩

/-- A text with a fault in its pieces is not parsed at all. -/
theorem parse_source (source : Source) :
    (∃ e, ∀ limits, Expression.parse source limits = .error (.error (.lex e))) ∨
    ∃ ps eof, Scanner.Splits source.text.toList ps ∧ (∀ piece ∈ ps, piece.Legal) ∧ eof.isEof ∧
      ∀ limits, Expression.parse source limits =
        outcome limits.deepest (Scanner.tokensFrom (.start source) ps) eof := by
  cases htokens : tokenize source with
  | error e =>
    refine .inl ⟨e, fun limits => ?_⟩
    rw [Expression.parse, Expression.tokens, htokens]
    rfl
  | ok tokens =>
    obtain ⟨ps, hps⟩ := Scanner.exists_splits source.text.toList
    have hlegal := Scanner.legal_of_tokenize hps htokens
    obtain ⟨eof, heof, hparse⟩ := parse_of_legal hps hlegal
    exact .inr ⟨ps, eof, hps, hlegal, heof, hparse⟩

section
end

end Grammar

end Reckon
