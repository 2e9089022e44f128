import Mathlib
import Reckon.CommandLine.Task
import Reckon.Proofs.Safety
import Reckon.Proofs.Unambiguous

/-!
What is answered to one expression. The work on it writes progress lines to the error channel, if
they are wanted, and nothing else; what it comes to does not depend on what was written before. It
comes to a single line or to an error of the language, if its limits can be named in errors.
-/

namespace Reckon

/-! ### Lines that are shown -/

theorem Number.linefeed_not_mem_text (v : Number) : '\n' ∉ v.text.toList := by
  have hunsigned : ∀ {w : Number}, w.Unsigned → '\n' ∉ w.text.toList :=
    fun hw hmem => absurd (hw.text_chars '\n' hmem) (by decide)
  cases v with
  | int i =>
    have hdigits : '\n' ∉ Nat.toDigits 10 i.natAbs :=
      fun hmem => absurd (Decimal.digits_toDigits _ '\n' hmem) (by decide)
    rw [text, intText]
    split <;> simp [hdigits]
  | float x =>
    cases x with
    | finite negative units fits =>
      have hfinite := hunsigned (.float fits)
      cases negative <;> simpa [text, Binary64.text] using hfinite
    | infinite negative => cases negative <;> decide
    | nan => decide

theorem Tag.linefeed_not_mem_name (tag : Tag) : '\n' ∉ tag.name.toList := by
  cases tag <;> decide

theorem Token.Legible.represent?_line {t : Token} (h : t.Legible) :
    ∃ s, t.represent? = some s ∧ '\n' ∉ s.toList := by
  unfold represent?
  split
  · next v hkind =>
    refine ⟨_, by rw [h v (value?_of_kind hkind)]; rfl, ?_⟩
    simp [Tag.linefeed_not_mem_name, v.linefeed_not_mem_text]
  · exact ⟨_, rfl, Tag.linefeed_not_mem_name _⟩

theorem Tree.linefeed_not_mem_written (t : Tree) : '\n' ∉ t.written := by
  induction t with
  | number t =>
    rw [written, Token.valueText]
    cases t.value? with
    | none => decide
    | some v => exact v.linefeed_not_mem_text
  | unary op x ih => simp [written, Tag.linefeed_not_mem_name, ih]
  | binary l op r ihl ihr => simp [written, Tag.linefeed_not_mem_name, ihl, ihr]

/-- All of the tokens are written, each as one word. -/
theorem mapM_represent? {ts : List Token} (h : ∀ t ∈ ts, t.Legible) :
    ∃ words, ts.mapM (Tree.writing ·.represent?) = .ok words ∧
      ∀ word ∈ words, '\n' ∉ word.toList := by
  induction ts with
  | nil => exact ⟨[], rfl, nofun⟩
  | cons t ts ih =>
    obtain ⟨ht, hts⟩ := List.forall_mem_cons.mp h
    obtain ⟨word, hword, hline⟩ := ht.represent?_line
    obtain ⟨words, hwords, hlines⟩ := ih hts
    refine ⟨word :: words, ?_, List.forall_mem_cons.mpr ⟨hline, hlines⟩⟩
    rw [List.mapM_cons, hword, hwords]
    rfl

theorem linefeed_not_mem_intercalate {words : List String}
    (h : ∀ word ∈ words, '\n' ∉ word.toList) : '\n' ∉ (String.intercalate " " words).toList := by
  induction words with
  | nil => decide
  | cons word rest ih =>
    cases rest with
    | nil => simpa using h word (by simp)
    | cons next rest =>
      have hrest := ih fun w hw => h w (List.mem_cons_of_mem _ hw)
      rw [String.intercalate_cons_cons, String.toList_append, String.toList_append]
      simp only [List.mem_append, not_or]
      exact ⟨⟨h word List.mem_cons_self, by decide⟩, hrest⟩

namespace Session

/-- What the view shows of an expression, without regard to progress lines. -/
def result (s : Session) (text : String) : Except Failure String :=
  match s.view with
  | .tokens => do
    let ts ← Expression.tokens (s.source text)
    let words ← (ts.mapM (Tree.writing ·.represent?)).mapError .defect
    return String.intercalate " " words
  | .tree => do (← Expression.parse (s.source text) s.limits).represent.mapError .defect
  | .value => do
    let v ← Expression.evaluate (s.source text) s.limits
    (Tree.writing v.text?).mapError .defect

/-- One line is shown, or else there is an error of the language. -/
theorem result_settles {s : Session} (hlimits : s.limits.Nameable) (text : String) :
    Settles (fun line => '\n' ∉ line.toList) Failure.Diagnosed (s.result text) := by
  rw [result]
  cases s.view with
  | tokens =>
    refine (Expression.tokens_settles (s.source text)).bind fun ts hts => ?_
    obtain ⟨words, hwords, hlines⟩ := mapM_represent? hts
    rw [hwords]
    exact .ok (linefeed_not_mem_intercalate hlines)
  | tree =>
    refine (Expression.parse_settles hlimits (s.source text)).bind fun t ht => ?_
    rw [ht.legible.represent_eq]
    exact .ok (by simpa using t.linefeed_not_mem_written)
  | value =>
    refine (Expression.evaluate_settles hlimits (s.source text)).bind fun v hv => ?_
    rw [hv.text?_eq]
    exact .ok v.linefeed_not_mem_text

end Session

/-! ### What is written on the way -/

namespace Transcript

theorem append_def (t u : Transcript) : t ++ u = ⟨t.out ++ u.out, t.err ++ u.err⟩ := rfl

@[simp] theorem append_empty (t : Transcript) : t ++ {} = t := by
  simp [append_def]

@[simp] theorem empty_append (t : Transcript) : {} ++ t = t := by
  simp [append_def]

theorem append_assoc (t u v : Transcript) : t ++ u ++ v = t ++ (u ++ v) := by
  simp [append_def, String.append_assoc]

end Transcript

/-- How work ends that has an outcome and has written a transcript. -/
def Work.ended {α : Type} (outcome : Except Failure α) (t : Transcript) :
    EStateM.Result Failure Transcript α :=
  match outcome with
  | .ok a => .ok a t
  | .error e => .error e t

namespace Session

variable {α β : Type} {s : Session}

/-- Whatever was written before, the work has this outcome. It adds progress lines only. -/
def Performs (s : Session) (x : Work α) (outcome : Except Failure α) : Prop :=
  ∀ t, ∃ log, (s.verbose = false → log = "") ∧ x.run t = Work.ended outcome (t ++ { err := log })

namespace Performs

theorem ofExcept (outcome : Except Failure α) : s.Performs (Work.ofExcept outcome) outcome := by
  intro t
  refine ⟨"", fun _ => rfl, ?_⟩
  rw [show t ++ { err := "" } = t from t.append_empty]
  cases outcome <;> rfl

theorem ofWriting (x : Except Tree.Defect α) :
    s.Performs (Work.ofWriting x) (x.mapError .defect) :=
  ofExcept _

theorem pure (a : α) : s.Performs (Pure.pure a) (Pure.pure a) := ofExcept (.ok a)

theorem log (origin message : String) : s.Performs (s.log origin message) (Pure.pure ()) := by
  intro t
  refine ⟨(s.logLine origin message).err, fun hquiet => by simp [logLine, hquiet], ?_⟩
  have hline : s.logLine origin message = { err := (s.logLine origin message).err } := by
    rw [logLine]
    split <;> rfl
  rw [← hline]
  rfl

theorem bind {x : Work α} {f : α → Work β} {outcome : Except Failure α}
    {g : α → Except Failure β} (hx : s.Performs x outcome) (hf : ∀ a, s.Performs (f a) (g a)) :
    s.Performs (x >>= f) (outcome >>= g) := by
  intro t
  obtain ⟨log, hlog, hrun⟩ := hx t
  cases outcome with
  | error e =>
    refine ⟨log, hlog, ?_⟩
    rw [EStateM.run_bind, hrun]
    rfl
  | ok a =>
    -- the second part starts from what the first has written
    obtain ⟨log', hlog', hrun'⟩ := hf a (t ++ { err := log })
    refine ⟨log ++ log', fun hquiet => by simp [hlog hquiet, hlog' hquiet], ?_⟩
    rw [EStateM.run_bind, hrun]
    change (f a).run _ = _
    rw [hrun', Transcript.append_assoc]
    rfl

/-- A progress line at the end does not change the outcome. -/
theorem logged {y : Except Failure α} (origin : String) (message : α → String) :
    s.Performs (do let a ← Work.ofExcept y; s.log origin (message a); return a) y := by
  have h := (ofExcept (s := s) y).bind fun a =>
    (log origin (message a)).bind fun _ => pure a
  simpa using h

end Performs

theorem shown_performs (s : Session) (text : String) :
    s.Performs (s.shown text) (s.result text) := by
  have hlex : s.Performs (s.lex text) (Expression.tokens (s.source text)) := Performs.logged _ _
  have hparse : ∀ ts, s.Performs (s.parse ts) (Expression.parseTokens ts s.limits) :=
    fun ts => Performs.logged _ _
  have hevaluate : ∀ t, s.Performs (s.evaluate t) (Expression.evaluateTree t s.limits) :=
    fun t => Performs.logged _ _
  rw [shown, result]
  cases s.view with
  | tokens => exact hlex.bind fun ts => (Performs.ofWriting _).bind fun words => .pure _
  | tree =>
    have h := hlex.bind fun ts => (hparse ts).bind fun t => .ofWriting t.represent
    simpa [Expression.parse] using h
  | value =>
    have h := hlex.bind fun ts => (hparse ts).bind fun t => (hevaluate t).bind fun v =>
      .ofWriting (Tree.writing v.text?)
    simpa [Expression.evaluate, Expression.parse] using h

/-! ### Answers -/

/-- The progress lines of an answer. -/
def logged (s : Session) (text : String) : String := (s.answer text).1.err

/-- The output of an answer: a line, or nothing if the expression fails. -/
def printed (s : Session) (text : String) : String :=
  match s.result text with
  | .ok line => line ++ "\n"
  | .error _ => ""

/-- The diagnostic of an expression that fails. -/
def reported (s : Session) (text : String) : String :=
  match s.result text with
  | .error (.error e) => e.render
  | _ => ""

theorem logged_eq_empty {s : Session} (hquiet : s.verbose = false) (text : String) :
    s.logged text = "" := by
  obtain ⟨log, hlog, hrun⟩ := s.shown_performs text {}
  unfold logged answer
  rw [hrun, hlog hquiet]
  cases s.result text <;> rfl

section
variable {s : Session} (hlimits : s.limits.Nameable)
include hlimits

/-- An answer is a line, or else nothing but an error of the language. -/
theorem answer_cases (text : String) :
    (∃ line, s.result text = .ok line ∧ '\n' ∉ line.toList ∧
        s.answer text = (⟨line ++ "\n", s.logged text⟩, none)) ∨
      ∃ e, s.result text = .error (.error e) ∧
        s.answer text = (⟨"", s.logged text⟩, some (.error e)) := by
  obtain ⟨log, -, hrun⟩ := s.shown_performs text {}
  unfold logged answer
  rw [hrun]
  have hsettles := result_settles hlimits text
  generalize s.result text = outcome at hsettles ⊢
  cases hsettles with
  | @ok line hline =>
    exact .inl ⟨line, rfl, hline, by simp [Work.ended, Transcript.append_def, Transcript.printed]⟩
  | error hdiagnosed =>
    obtain ⟨e, rfl⟩ := hdiagnosed
    exact .inr ⟨e, rfl, rfl⟩

/-- What the prompt writes for a line is what the answer writes, and the diagnostic. -/
theorem reply_expression (text : String) :
    s.reply (.expression text) =
      (⟨s.printed text, s.logged text ++ s.reported text⟩, none) := by
  unfold reply printed reported
  dsimp only
  rcases answer_cases hlimits text with ⟨line, hresult, -, hanswer⟩ | ⟨e, hresult, hanswer⟩
  · rw [hanswer, hresult]
    simp
  · rw [hanswer, hresult]
    rfl

end

end Session

/-- The command without progress lines writes a line, or else no more than a diagnostic. -/
theorem CommandLine.Task.answer_cases {s : Session} (hlimits : s.limits.Nameable)
    (hquiet : s.verbose = false) (text : String) :
    (∃ line, s.result text = .ok line ∧ '\n' ∉ line.toList ∧
        answer s text = ⟨.status 0, { out := line ++ "\n" }⟩) ∨
      ∃ e, s.result text = .error (.error e) ∧
        answer s text = ⟨.status 1, { err := e.render }⟩ := by
  have hlogged := Session.logged_eq_empty hquiet text
  unfold answer
  rcases Session.answer_cases hlimits text with
    ⟨line, hresult, hline, hanswer⟩ | ⟨e, hresult, hanswer⟩
  · rw [hanswer, hlogged]
    exact .inl ⟨line, hresult, hline, rfl⟩
  · rw [hanswer, hlogged]
    refine .inr ⟨e, hresult, ?_⟩
    simp [Session.logLine, hquiet, Transcript.append_def, Outcome.failed]

end Reckon
