import Mathlib
import Reckon.Proofs.Answers

/-!
The conversation at the prompt, line by line. Every line up to the one that leaves the conversation
gets the answer that it gets by itself, after a prompt of its own. The lines are those that end with
a line feed, and what is left after the last of them.
-/

namespace Reckon

namespace Text

/-- A blank at the end is stripped. -/
theorem strip_append_blank {c : Char} (hc : isBlank c) (line : List Char) :
    strip (String.ofList (line ++ [c])) = strip (String.ofList line) := by
  simp only [strip, trimBoth, String.toList_ofList, List.dropWhile_append]
  split
  · next hempty =>
    rw [List.isEmpty_iff] at hempty
    simp [hempty, hc]
  · simp [hc]

end Text

namespace Session

/-! ### The lines that are typed -/

/-- The lines of what is typed, split after every line feed and without blanks at their ends. -/
def typed (input : String) : List String :=
  (input.toList.splitBy fun c _ => c != '\n').map fun line => Text.strip (String.ofList line)

/-- The conversation goes on after the line. -/
def goesOn (line : String) : Bool := line != "exit" && line != "quit"

/-- The lines that are worked on. -/
def processed (input : String) : List String := (typed input).takeWhile goesOn

section
variable {line : List Char} (h : '\n' ∉ line)
include h

theorem isChain_line : line.IsChain fun c _ => c != '\n' := by
  induction line with
  | nil => exact .nil
  | cons c cs ih =>
    obtain ⟨hc, hcs⟩ := not_or.mp (List.mem_cons.not.mp h)
    exact List.isChain_cons.mpr ⟨fun _ _ => by simpa using Ne.symm hc, ih hcs⟩

theorem splitBy_line (rest : List Char) :
    (line ++ '\n' :: rest).splitBy (fun c _ => c != '\n') =
      (line ++ ['\n']) :: rest.splitBy fun c _ => c != '\n' := by
  have hline : (line ++ ['\n']).IsChain fun c _ => c != '\n' := by
    refine (isChain_line h).append (List.isChain_singleton _) fun c hc _ _ => ?_
    have hne : c ≠ '\n' := fun heq => h (heq ▸ List.mem_of_mem_getLast? hc)
    simpa using hne
  rw [← List.singleton_append, ← List.append_assoc, List.splitBy_append (by simp),
    List.splitBy_of_isChain (by simp) hline]
  rfl

end

theorem strip_linesFrom {begun : List Char} (h : '\n' ∉ begun) (cs : List Char) :
    (linesFrom begun cs).map Text.strip =
      ((begun.reverse ++ cs).splitBy fun c _ => c != '\n').map fun line =>
        Text.strip (String.ofList line) := by
  induction cs generalizing begun with
  | nil =>
    rw [linesFrom, List.append_nil]
    split
    · next hempty =>
      obtain rfl := List.isEmpty_iff.mp hempty
      rfl
    · next hne =>
      rw [List.splitBy_of_isChain (by simpa using hne) (isChain_line (by simpa using h))]
      rfl
  | cons c cs ih =>
    rw [linesFrom]
    split
    · next hc =>
      -- the line keeps its line feed on the right, where stripping takes it off
      subst hc
      rw [splitBy_line (by simpa using h), List.map_cons, List.map_cons, ih List.not_mem_nil,
        Text.strip_append_blank (by decide)]
      rfl
    · next hc =>
      rw [ih (by simp [h, Ne.symm hc])]
      simp

theorem strip_linesOf (input : String) : (linesOf input).map Text.strip = typed input :=
  strip_linesFrom List.not_mem_nil _

theorem typed_line {line : String} (h : '\n' ∉ line.toList) (rest : String) :
    typed (line ++ "\n" ++ rest) = Text.strip line :: typed rest := by
  have hchars : (line ++ "\n" ++ rest).toList = line.toList ++ '\n' :: rest.toList := by simp
  rw [typed, hchars, splitBy_line h, List.map_cons, Text.strip_append_blank (by decide),
    String.ofList_toList]
  rfl

/-! ### What is written -/

/-- What a line gets: its answer and its diagnostic, and nothing if it is blank. -/
def replied (s : Session) (line : String) : Transcript :=
  if line = "" then {} else ⟨s.printed line, s.logged line ++ s.reported line⟩

variable (s : Session) {line : String}

theorem converse_leave (h : goesOn (Text.strip line) = false) (rest : List Line) :
    s.converse (.ofText line :: rest) = (prompt, none) := by
  have hleave : Line.ofText line = .leave := by
    have hword : Text.strip line = "exit" ∨ Text.strip line = "quit" := by
      rw [or_iff_not_imp_left]
      simpa [goesOn] using h
    rw [Line.ofText, if_neg, if_pos hword]
    rcases hword with hword | hword <;> simp [hword]
  rw [hleave, converse]

section
variable {s} (hlimits : s.limits.Nameable)
include hlimits

theorem converse_goesOn (h : goesOn (Text.strip line) = true) (rest : List Line) :
    s.converse (.ofText line :: rest) =
      (prompt ++ s.replied (Text.strip line) ++ (s.converse rest).1, (s.converse rest).2) := by
  by_cases hblank : Text.strip line = ""
  · have hline : Line.ofText line = .blank := by simp [Line.ofText, hblank]
    rw [hline, converse, replied, if_pos hblank]
    · rfl
    · exact Line.noConfusion
  · have hline : Line.ofText line = .expression (Text.strip line) := by
      simp_all [Line.ofText, goesOn]
    rw [hline, converse, reply_expression hlimits, replied, if_neg hblank]
    exact Line.noConfusion

/-- By induction on the lines: those before the first that leaves are answered one by one. -/
theorem converse_eq (lines : List String) :
    s.converse (lines.map .ofText) =
      (⟨String.join (((lines.map Text.strip).takeWhile goesOn).map fun line =>
          "arithexpr > " ++ (s.replied line).out) ++ "arithexpr > " ++
          (if (lines.map Text.strip).takeWhile goesOn = lines.map Text.strip then "\n" else ""),
        String.join (((lines.map Text.strip).takeWhile goesOn).map fun line =>
          (s.replied line).err)⟩, none) := by
  induction lines with
  | nil => rfl
  | cons line lines ih =>
    simp only [List.map_cons, List.takeWhile_cons]
    cases h : goesOn (Text.strip line) with
    | false => simpa [prompt] using s.converse_leave h _
    | true =>
      rw [converse_goesOn hlimits h, ih]
      simp [Transcript.append_def, prompt, String.append_assoc]

theorem converseOver_eq (input : String) :
    s.converseOver input =
      (⟨String.join ((processed input).map fun line => "arithexpr > " ++ (s.replied line).out) ++
          "arithexpr > " ++ (if processed input = typed input then "\n" else ""),
        String.join ((processed input).map fun line => (s.replied line).err)⟩, none) := by
  rw [converseOver, converse_eq hlimits, strip_linesOf]
  rfl

theorem converseOver_line {line : String} (h : '\n' ∉ line.toList) (rest : String) :
    (s.converseOver (line ++ "\n" ++ rest)).1 =
      prompt ++
        if goesOn (Text.strip line) then
          s.replied (Text.strip line) ++ (s.converseOver rest).1
        else {} := by
  rw [converseOver_eq hlimits, converseOver_eq hlimits, processed, typed_line h,
    List.takeWhile_cons]
  cases goesOn (Text.strip line) with
  | false => rfl
  | true => simp [processed, prompt, Transcript.append_def, String.append_assoc]

end

end Session

theorem CommandLine.Task.converse_eq {s : Session} (hlimits : s.limits.Nameable)
    (input : String) : converse s input = .done (s.converseOver input).1 := by
  rw [converse, Session.converseOver_eq hlimits]

/-- A conversation ends well and is made of the answers to its lines, in their order. The output has
a prompt before every line that is worked on and one more, with a line feed after it only if the
input ended and no line left the conversation. The answers and diagnostics are those of the lines by
themselves: what the command writes for each of them alone. So what comes after a line is the
conversation about the other lines, whatever the line was, and nothing if it left. -/
theorem CommandLine.Task.perform_prompt (read : String → Except Text.FileFault ByteArray)
    {s : Session} (hlimits : s.limits.Nameable) :
    (∀ input, perform read input (.prompt s) =
      ⟨.status 0,
        { out := String.join ((Session.processed input).map fun line =>
            "arithexpr > " ++ (s.replied line).out) ++ "arithexpr > " ++
            (if Session.processed input = Session.typed input then "\n" else "")
          err := String.join ((Session.processed input).map fun line => (s.replied line).err) }⟩) ∧
    (s.verbose = false → ∀ input line, s.logged line = "" ∧
      (perform read input (.expression s line)).said = ⟨s.printed line, s.reported line⟩) ∧
    ∀ line rest : String, '\n' ∉ line.toList →
      (perform read (line ++ "\n" ++ rest) (.prompt s)).said =
        { out := "arithexpr > " } ++
          if Session.goesOn (Text.strip line) then
            s.replied (Text.strip line) ++ (perform read rest (.prompt s)).said
          else {} := by
  have hrun (input : String) :
      perform read input (.prompt s) = .done (s.converseOver input).1 := converse_eq hlimits input
  refine ⟨fun input => ?_, fun hquiet input line => ⟨?_, ?_⟩, fun line rest hline => ?_⟩
  · rw [hrun, Session.converseOver_eq hlimits]
    rfl
  · exact Session.logged_eq_empty hquiet line
  · rw [perform, Session.printed, Session.reported]
    rcases answer_cases hlimits hquiet line with
      ⟨shown, hresult, -, hanswer⟩ | ⟨e, hresult, hanswer⟩
    · rw [hanswer, hresult]
    · rw [hanswer, hresult]
  · rw [hrun, hrun]
    exact Session.converseOver_line hlimits hline rest

section
/-- An expression between blanks, a blank line, an error, the word that leaves and one more line. -/
private def mixedInput : String := " 1+2\t\n\n2*\nquit \n3"

private def plainSession : Session := ⟨"<stdin>", .value, {}, false⟩

private def unfinished : String :=
  "Unexpected Token: Unexpected end of input, expected a number, '+', '-' or '(' [P010]\n" ++
  "  --> <stdin>:1:3\n    2*\n      ^\n" ++
  "  help: The parser reached the end of the input while expecting a number, '+', '-' or '('.\n"

private def noFiles : String → Except Text.FileFault ByteArray := fun _ => .error .missing

theorem CommandLine.Task.perform_prompt_mixed :
    plainSession.limits.Nameable ∧ plainSession.verbose = false ∧
      Session.typed mixedInput = ["1+2", "", "2*", "quit", "3"] ∧
      Session.processed mixedInput = ["1+2", "", "2*"] ∧
      perform noFiles mixedInput (.prompt plainSession) =
        ⟨.status 0, ⟨"arithexpr > 3\narithexpr > arithexpr > arithexpr > ", unfinished⟩⟩ ∧
      (perform noFiles mixedInput (.expression plainSession "2*")).said = ⟨"", unfinished⟩ ∧
      (perform noFiles ("2*" ++ "\n" ++ "3") (.prompt plainSession)).said =
        ⟨"arithexpr > ", unfinished⟩ ++ (perform noFiles "3" (.prompt plainSession)).said := by
  have hlimits : plainSession.limits.Nameable := ⟨by decide, by decide +kernel⟩
  obtain ⟨hprompt, halone, hstep⟩ := perform_prompt noFiles hlimits
  have hreported : plainSession.reported "2*" = unfinished := by decide +kernel
  have hprinted : plainSession.printed "2*" = "" := by decide +kernel
  refine ⟨hlimits, rfl, by decide +kernel, by decide +kernel, ?_, ?_, ?_⟩
  · rw [hprompt]
    decide +kernel
  · rw [(halone rfl mixedInput "2*").2, hprinted, hreported]
  · have hstrip : Text.strip "2*" = "2*" := by decide +kernel
    have hreplied : plainSession.replied "2*" = ⟨"", unfinished⟩ := by
      rw [Session.replied, if_neg (by decide), hprinted, hreported, (halone rfl "" "2*").1]
      rfl
    rw [hstep "2*" "3" (by decide), hstrip, if_pos (by decide), hreplied, ← Transcript.append_assoc]
    rfl

end

end Reckon
