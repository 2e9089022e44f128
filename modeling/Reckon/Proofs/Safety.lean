import Mathlib
import Reckon.Proofs.Bounds
import Reckon.Proofs.EarliestError
import Reckon.Proofs.Listing
import Reckon.Proofs.RoundTrip

/-!
Whatever the text and the limits, reading, parsing, printing and evaluation end in a result
or in an error of the language. The cursor of the parser stays on the tokens, and every number
that is read or computed can be written. A limit that cannot be written is the one thing that
can keep an error from being reported.
-/

namespace Reckon

/-- A kind other than a number is no more than its name. -/
theorem Kind.ofTag_tag {kind : Kind} (h : kind.tag ≠ .number) :
    Kind.ofTag kind.tag none = .ok kind := by
  cases kind with
  | number v => exact absurd rfl h
  | _ => rfl

namespace Token.Legible

variable {t : Token}

theorem represent?_isSome (h : t.Legible) : t.represent?.isSome := by
  unfold represent?
  split
  · next v hkind => simp [h v (value?_of_kind hkind)]
  · rfl

theorem describe?_isSome (h : t.Legible) : t.describe?.isSome := by
  unfold describe?
  split
  · rfl
  · split
    · exact h.represent?_isSome
    · rfl

end Token.Legible

namespace Tree

/-- The failure is an error of the language, and it names no limit but the one given; or else
that limit cannot be written. -/
def Failure.Own (maxExponent : Int) : Failure → Prop
  | .error e => ∀ limit h, e.cause = .exponentTooLarge limit h → limit = maxExponent
  | .defect d => d = .tooManyDigits ∧ maxExponent ≤ -10 ^ Number.maxDigits

theorem settle_own {maxExponent : Int} {refusal : Operation.Refusal}
    (h : refusal.Own maxExponent) (left right whole : Tree) :
    (settle left right whole refusal).Own maxExponent := by
  cases refusal with
  | error cause blame => cases blame <;> exact h
  | defect d => exact h

theorem evalBinary_settles (maxExponent : Int) (left : Tree) (op : Token) (right : Tree)
    (l : Number) {r : Number} (hr : r.InBounds) :
    Settles (fun x => ∃ v, x = some v ∧ v.InBounds) (Failure.Own maxExponent)
      (evalBinary maxExponent left op right (some l) (some r)) := by
  rw [evalBinary]
  rcases happly : (Operation.ofTag op.tag).apply maxExponent l r with refusal | v
  all_goals
    have hsettles := Operation.apply_settles maxExponent (.ofTag op.tag) l hr
    rw [happly] at hsettles
    cases hsettles
  · next h => exact .error (settle_own h ..)
  · next h => exact .ok ⟨v, rfl, h⟩

/-- The value of a proper tree is a number in bounds, or else there is an error. -/
theorem evaluate_settles {t : Tree} (h : Proper t) (maxExponent : Int) :
    Settles (fun x => ∃ v, x = some v ∧ v.InBounds) (Failure.Own maxExponent)
      (t.evaluate maxExponent) := by
  rw [evaluate, fold_eq_collapse]
  induction h with
  | number h =>
    exact .ok ⟨_, Token.value?_of_kind h.kind, h.inBounds⟩
  | @unary op x hop hx ih =>
    refine ih.bind ?_
    rintro _ ⟨v, rfl, hbounds⟩
    refine .ok ⟨_, rfl, ?_⟩
    split
    · exact hbounds.neg
    · exact hbounds
  | @binary l r op c hop hl hr ihl ihr =>
    refine ihl.bind ?_
    rintro _ ⟨v, rfl, -⟩
    refine ihr.bind ?_
    rintro _ ⟨w, rfl, hw⟩
    exact evalBinary_settles maxExponent l op r v hw

end Tree

namespace Grammar

namespace State

/-- States that a reader can come to: all it does is to take a token or to change its level. -/
inductive Reaches (s : State) : State → Prop where
  | refl : Reaches s s
  | advance {t : State} (h : Reaches s t) : Reaches s t.advance
  | deeper {t : State} (h : Reaches s t) : Reaches s t.deeper
  | shallower {t : State} (h : Reaches s t) : Reaches s t.shallower

namespace Reaches

variable {s t u : State}

theorem trans (h : s.Reaches t) (h' : t.Reaches u) : s.Reaches u := by
  induction h' with
  | refl => exact h
  | advance _ ih => exact .advance ih
  | deeper _ ih => exact .deeper ih
  | shallower _ ih => exact .shallower ih

/-- Whatever the level, some tokens have been read. -/
theorem reads (h : s.Reaches t) : ∃ v, Reads { s with depth := t.depth } v t := by
  induction h with
  | refl => exact ⟨[], .nil s⟩
  | @advance t h ih =>
    obtain ⟨v, hv⟩ := ih
    cases hahead : t.ahead with
    | nil =>
      have hstay : t.advance = t := by rw [State.advance, hahead]
      exact ⟨v, by rwa [hstay]⟩
    | cons x rest =>
      have hstep : t.Reads [x] t.advance := by
        rw [State.advance, hahead]
        exact ⟨hahead, rfl⟩
      exact ⟨v ++ [x], by simpa [hstep.depth] using hv.trans hstep⟩
  | deeper _ ih =>
    obtain ⟨v, hv⟩ := ih
    exact ⟨v, hv.deeper⟩
  | shallower _ ih =>
    obtain ⟨v, hv⟩ := ih
    exact ⟨v, hv.1, by rw [State.shallower, hv.2]⟩

end Reaches

end State

/-- No limit but the given one is found exceeded. -/
def Halt.Names (limit : Int) : Halt → Prop
  | .error m => ∀ l, m.cause = .nestedTooDeep l → l = limit
  | .outOfFrames => True

/-- The reader moves by the steps of the cursor only and names no limit but its own. -/
structure Walks {α : Type} (limit : Int) (x : Read α) : Prop where
  ok : ∀ {s a t}, x.run s = .ok a t → s.Reaches t
  error : ∀ {s h t}, x.run s = .error h t → s.Reaches t ∧ h.Names limit

namespace Walks

variable {α β : Type} {limit : Int}

theorem of_stays {x : Read α} (h : ∀ s, ∃ a, x.run s = .ok a s) : Walks limit x := by
  refine ⟨fun {s a t} hrun => ?_, fun {s e t} hrun => ?_⟩
  all_goals
    obtain ⟨b, hb⟩ := h s
    cases hb.symm.trans hrun
  exact .refl

theorem pure (a : α) : Walks limit (Pure.pure a : Read α) := .of_stays fun _ => ⟨a, rfl⟩

theorem peek : Walks limit peek := .of_stays fun s => ⟨s.next, rfl⟩

theorem advance : Walks limit advance := ⟨by rintro s a t ⟨⟩; exact .advance .refl, nofun⟩

theorem discardAdvance : Walks limit (discard Grammar.advance) :=
  ⟨by rintro s a t ⟨⟩; exact .advance .refl, nofun⟩

theorem fail {cause : ParseError.Cause} (h : ∀ l, cause ≠ .nestedTooDeep l) :
    Walks limit (fail cause) :=
  ⟨nofun, by rintro s e t ⟨⟩; exact ⟨.refl, fun l hl => absurd hl (h l)⟩⟩

theorem failUnexpected (expected : String) : Walks limit (failUnexpected expected) := by
  refine ⟨nofun, ?_⟩
  rintro s e t ⟨⟩
  refine ⟨.refl, fun l hl => ?_⟩
  simp only [Misfit.unexpected] at hl
  split at hl <;> cases hl

theorem bind {x : Read α} {f : α → Read β} (hx : Walks limit x)
    (hf : ∀ a, Walks limit (f a)) : Walks limit (x >>= f) := by
  refine ⟨fun hrun => ?_, fun hrun => ?_⟩
  · obtain ⟨a, s₁, ha, hb⟩ := bind_eq_ok.mp hrun
    exact (hx.ok ha).trans ((hf a).ok hb)
  · rcases bind_eq_error.mp hrun with herror | ⟨a, s₁, ha, herror⟩
    · exact hx.error herror
    · exact ((hf a).error herror).imp_left (hx.ok ha).trans

theorem ite {c : Prop} [Decidable c] {x y : Read α} (hx : Walks limit x)
    (hy : Walks limit y) : Walks limit (if c then x else y) := by
  split
  · exact hx
  · exact hy

theorem nested {body : Read Tree} (h : Walks limit body) : Walks limit (nested limit body) := by
  refine ⟨fun hrun => ?_, fun hrun => ?_⟩
  · obtain ⟨-, s₁, hbody, rfl⟩ := nested_eq_ok.mp hrun
    exact .shallower ((State.Reaches.deeper .refl).trans (h.ok hbody))
  · rcases nested_eq_error hrun with ⟨-, rfl, rfl⟩ | ⟨-, t', hbody, rfl⟩
    · refine ⟨.refl, ?_⟩
      rintro l ⟨⟩
      rfl
    · obtain ⟨hreach, hnames⟩ := h.error hbody
      exact ⟨.shallower ((State.Reaches.deeper .refl).trans hreach), hnames⟩

theorem chain (joins : Tag → Bool) {operand : Read Tree} (h : Walks limit operand) (k : Nat)
    (left : Tree) : Walks limit (chain joins operand k left) := by
  induction k generalizing left with
  | zero => exact .pure left
  | succ k ih =>
    refine Walks.peek.bind fun t => .ite ?_ (.pure left)
    exact Walks.advance.bind fun op => h.bind fun right => ih _

theorem chained (joins : Tag → Bool) {operand : Read Tree} (h : Walks limit operand) :
    Walks limit (chained joins operand) :=
  h.bind fun left => (Walks.of_stays fun s => ⟨s, rfl⟩).bind fun _ => .chain joins h _ left

theorem read (limit : Int) (n : Nat) (r : Rule) : Walks limit (r.read limit n) := by
  induction n generalizing r with
  | zero => exact ⟨nofun, by rintro s e t ⟨⟩; exact ⟨.refl, trivial⟩⟩
  | succ n ih =>
    cases r with
    | expr => exact .chained _ (ih .term)
    | term => exact .chained _ (ih .factor)
    | factor =>
      refine .nested (Walks.peek.bind fun t => .ite ?_ (ih .power))
      exact Walks.advance.bind fun op => (ih .factor).bind fun x => .pure _
    | power =>
      refine (ih .atom).bind fun base => Walks.peek.bind fun t => .ite ?_ (.pure base)
      exact Walks.advance.bind fun op => (ih .factor).bind fun e => .pure _
    | atom =>
      refine Walks.peek.bind fun t => ?_
      cases t.kind with
      | number v => exact Walks.advance.bind fun token => .pure _
      | lparen =>
        refine Walks.discardAdvance.bind fun _ => (ih .expr).bind fun inner => ?_
        exact Walks.peek.bind fun t => .ite (Walks.discardAdvance.bind fun _ => .pure inner)
          (.fail nofun)
      | _ => exact .failUnexpected _

theorem whole (limit : Int) (n : Nat) : Walks limit (Parser.whole limit n) := by
  refine Walks.peek.bind fun t => .ite (.failUnexpected _) ?_
  exact (Walks.read limit n .expr).bind fun t => Walks.peek.bind fun _ =>
    .ite (.pure t) (.fail nofun)

end Walks

/-- A failed parse is about one of the tokens, and it is the parser's own limit that may have
been exceeded there. -/
theorem parse_misfit {tokens : List Token} {limits : Limits} {p : Parser}
    (hp : Expression.parser tokens limits = .ok p) {failure : Parser.Failure}
    (h : p.parse.1 = .error failure) :
    ∃ m, failure = .ofMisfit m ∧ m.token ∈ tokens ∧
      ∀ l, m.cause = .nestedTooDeep l → l = p.limit := by
  rw [Parser.parse, Parser.parseWithin] at h
  rcases hrun : (Parser.whole p.limit p.frames).run p.start with ⟨t, s⟩ | ⟨halt, s⟩
  · rw [Parser.run_of_ok hrun] at h
    cases h
  · obtain ⟨m, rfl, hlocated⟩ := whole_located hp hrun
    rw [Parser.run_of_error hrun] at h
    cases h
    exact ⟨m, rfl, List.mem_of_getElem? hlocated, ((Walks.whole _ _).error hrun).2⟩

/-- A token that can be written is named in every message, so only a limit may keep a failure
from being reported. -/
theorem message?_isSome_iff {m : Misfit} (h : m.token.Legible) :
    m.message?.isSome ↔ ∀ l, m.cause = .nestedTooDeep l → Number.Writable l := by
  obtain ⟨s, hs⟩ := Option.isSome_iff_exists.mp h.describe?_isSome
  unfold Misfit.message?
  cases m.cause with
  | nestedTooDeep limit => simp [Number.intText?]
  | _ => simp [hs]

end Grammar

namespace Scanner

/-- With what a token is made for a piece: a kind by name and a value, which signs do not
have. -/
def Piece.call? : Piece → Option (Tag × Option Number)
  | operator c => (Kind.ofChar? c).map fun kind => (kind.tag, none)
  | numeral run => some (.number, numeralValue? run)
  | spacing _ | other _ => none

/-- With what the tokens of a text are made, in order. -/
def calls (ps : List Piece) : List (Tag × Option Number) :=
  ps.filterMap Piece.call? ++ [(.eof, none)]

theorem Piece.ofTag_call? {piece : Piece} (h : piece.Legal) (p : Position) :
    piece.call?.toList.map (fun call => Kind.ofTag call.1 call.2) =
      (piece.token? p).toList.map (.ok ·.kind) := by
  cases piece with
  | spacing c => rfl
  | operator c =>
    cases hkind : Kind.ofChar? c with
    | none => simp [call?, token?, kind?, hkind]
    | some kind =>
      simp [call?, token?, kind?, hkind, Kind.ofTag_tag (ofChar?_tag hkind).1]
  | numeral run =>
    have hlegal : LegalRun run := h
    obtain ⟨c, hc, -⟩ := hlegal.digit
    obtain ⟨v, hv⟩ := (numeralValue?_isSome_iff (List.ne_nil_of_mem hc)).mpr hlegal.range
    simp [call?, token?, kind?, hv, Kind.ofTag]
  | other c => exact h.elim

/-- Every kind goes with the value it is given. -/
theorem ofTag_calls {ps : List Piece} (hlegal : ∀ piece ∈ ps, piece.Legal) (p : Position) :
    (ps.filterMap Piece.call?).map (fun call => Kind.ofTag call.1 call.2) =
      (tokensFrom p ps).map (.ok ·.kind) := by
  induction ps generalizing p with
  | nil => rfl
  | cons piece ps ih =>
    obtain ⟨hpiece, hps⟩ := List.forall_mem_cons.mp hlegal
    have hfirst := Piece.ofTag_call? hpiece p
    rw [tokensFrom, List.map_append, ← hfirst, ← ih hps, ← List.map_append]
    cases hcall : piece.call? <;> simp [hcall]

theorem legible_of_mem {cs : List Char} {ps : List Piece} (h : Splits cs ps)
    (hlegal : ∀ piece ∈ ps, piece.Legal) {p : Position} (hp : p.rest = cs) {t : Token}
    (ht : t ∈ tokensFrom p ps) : t.Legible := by
  obtain ⟨piece, hfrom⟩ := from_of_mem h hlegal hp ht
  cases hfrom with
  | operator hkind _ =>
    intro v hv
    have hnumber := (ofChar?_tag hkind).1
    rw [Option.mem_def, Token.value?] at hv
    cases hk : t.kind <;> simp_all [Kind.value?, Kind.tag]
  | numeral hgenuine => exact hgenuine.legible

/-- The tokens of a text are made as they should be, they can be written, and they end with the
end of input. -/
theorem made_of_tokenize {source : Source} {tokens : List Token}
    (h : tokenize source = .ok tokens) :
    Grammar.Terminated tokens ∧ (∀ t ∈ tokens, t.Legible) ∧
      ∃ ps, Splits source.text.toList ps ∧
        (calls ps).map (fun call => Kind.ofTag call.1 call.2) = tokens.map (.ok ·.kind) := by
  obtain ⟨ps, hps⟩ := exists_splits source.text.toList
  have hlegal := legal_of_tokenize hps h
  obtain rfl := Except.ok.inj (h.symm.trans (tokenize_of_legal hps hlegal))
  refine ⟨⟨_, List.getLast?_concat, rfl⟩, fun t ht => ?_, ps, hps, ?_⟩
  · rcases List.mem_append.mp ht with ht | ht
    · exact legible_of_mem hps hlegal rfl ht
    · obtain rfl := List.mem_singleton.mp ht
      intro v hv
      simp [Token.value?, Kind.value?] at hv
  · rw [calls, List.map_append, ofTag_calls hlegal (.start source), List.map_append]
    rfl

end Scanner

/-- The failure is told to the user as a diagnostic. -/
def Failure.Diagnosed (f : Failure) : Prop := ∃ e, f = .error e

/-- Limits that can be written wherever an error names them. -/
structure Limits.Nameable (limits : Limits) : Prop where
  depth : Number.Writable limits.deepest
  exponent : -10 ^ Number.maxDigits < limits.exponent

namespace Expression

/-- A text without a fault is parsed by a parser of its tokens. -/
theorem parse_of_tokenize {source : Source} {ts : List Token} (h : tokenize source = .ok ts)
    (limits : Limits) :
    ∃ p, parser ts limits = .ok p ∧ p.limit = limits.deepest ∧
      parse source limits = p.parse.1.mapError .ofParser := by
  obtain ⟨eof, -, -, -, hparser⟩ := Grammar.parser_eq (Scanner.made_of_tokenize h).1
  refine ⟨_, hparser limits, rfl, ?_⟩
  rw [parse, tokens, h]
  change parseTokens ts limits = _
  rw [parseTokens, hparser limits]
  rfl

theorem evaluate_of_parse {source : Source} {limits : Limits} {t : Tree}
    (h : parse source limits = .ok t) : evaluate source limits = evaluateTree t limits := by
  rw [evaluate, h]
  rfl

/-- Only a limit that cannot be written keeps the error of a parse from being reported. -/
theorem parse_failure_cases {source : Source} {ts : List Token} (htext : tokenize source = .ok ts)
    {limits : Limits} {failure : Failure} (h : parse source limits = .error failure) :
    (∃ e, failure = .error (.parse e) ∧
        ∀ limit, e.cause = .nestedTooDeep limit → limit = limits.deepest) ∨
      (failure = .defect .tooManyDigits ∧ ¬ Number.Writable limits.deepest) := by
  obtain ⟨p, hp, hlimit, hparse⟩ := parse_of_tokenize htext limits
  rw [hparse] at h
  cases hresult : p.parse.1 with
  | ok t =>
    rw [hresult] at h
    cases h
  | error halt =>
    rw [hresult] at h
    cases h
    obtain ⟨m, rfl, htoken, hnames⟩ := Grammar.parse_misfit hp hresult
    rw [hlimit] at hnames
    have hmessage :=
      Grammar.message?_isSome_iff ((Scanner.made_of_tokenize htext).2.1 _ htoken)
    by_cases hsome : m.message?.isSome
    · exact .inl ⟨⟨m, hsome⟩, by rw [Parser.Failure.ofMisfit, dif_pos hsome]; rfl, hnames⟩
    · refine .inr ⟨by rw [Parser.Failure.ofMisfit, dif_neg hsome]; rfl, fun hshort => ?_⟩
      exact hsome (hmessage.mpr fun l hl => hnames l hl ▸ hshort)

theorem evaluateTree_cases {t : Tree} (h : t.Proper) (limits : Limits) :
    (∃ e, evaluateTree t limits = .error (.error (.eval e)) ∧
        ∀ limit h, e.cause = .exponentTooLarge limit h → limit = limits.exponent) ∨
      (evaluateTree t limits = .error (.defect .tooManyDigits) ∧
        limits.exponent ≤ -10 ^ Number.maxDigits) ∨
      ∃ v, evaluateTree t limits = .ok v ∧ v.InBounds := by
  have hsettles := Tree.evaluate_settles h limits.exponent
  rw [evaluateTree]
  generalize t.evaluate limits.exponent = outcome at hsettles ⊢
  cases hsettles with
  | ok h =>
    obtain ⟨v, rfl, hv⟩ := h
    exact .inr (.inr ⟨v, rfl, hv⟩)
  | @error failure h =>
    cases failure with
    | error e => exact .inl ⟨e, rfl, h⟩
    | defect d =>
      obtain ⟨rfl, hlimit⟩ := h
      exact .inr (.inl ⟨rfl, hlimit⟩)

theorem tokens_settles (source : Source) :
    Settles (fun ts => ∀ t ∈ ts, t.Legible) Failure.Diagnosed (tokens source) := by
  rw [tokens]
  cases htext : tokenize source with
  | ok ts => exact .ok (Scanner.made_of_tokenize htext).2.1
  | error e => exact .error ⟨_, rfl⟩

section
variable {limits : Limits} (hlimits : limits.Nameable)
include hlimits

theorem parse_settles (source : Source) :
    Settles Tree.Proper Failure.Diagnosed (parse source limits) := by
  cases htext : tokenize source with
  | error e =>
    rw [parse, tokens, htext]
    exact .error ⟨_, rfl⟩
  | ok ts =>
    cases hparse : parse source limits with
    | ok t => exact .ok (Tree.proper_of_parse hparse)
    | error failure =>
      rcases parse_failure_cases htext hparse with ⟨e, rfl, -⟩ | ⟨-, hlong⟩
      · exact .error ⟨_, rfl⟩
      · exact absurd hlimits.depth hlong

theorem evaluate_settles (source : Source) :
    Settles Number.InBounds Failure.Diagnosed (evaluate source limits) := by
  refine (parse_settles hlimits source).bind fun t ht => ?_
  rcases evaluateTree_cases ht limits with ⟨e, he, -⟩ | ⟨-, hlong⟩ | ⟨v, hv, hbounds⟩
  · rw [he]
    exact .error ⟨_, rfl⟩
  · exact absurd hlimits.exponent (not_lt.mpr hlong)
  · rw [hv]
    exact .ok hbounds

end

end Expression

end Reckon
