import Mathlib
import Reckon.Proofs.Answers
import Reckon.Proofs.Selection

/-!
The command that reads an expression from a file. It ends with a status whether the file is there or
not and whatever the expression in it comes to, as long as its bytes are the UTF-8 of some text. If
they are not, the command breaks off and says nothing.
-/

namespace Reckon

namespace Text

/-- The second text is the first with all its line ends turned into line feeds. A line ends with a
carriage return, with a line feed or with both. -/
inductive Unified : List Char → List Char → Prop where
  | nil : Unified [] []
  | both {cs ds : List Char} (h : Unified cs ds) : Unified ('\r' :: '\n' :: cs) ('\n' :: ds)
  | carriageReturn {cs ds : List Char} (hnext : cs.head? ≠ some '\n') (h : Unified cs ds) :
      Unified ('\r' :: cs) ('\n' :: ds)
  | other {c : Char} {cs ds : List Char} (hc : c ≠ '\r') (h : Unified cs ds) :
      Unified (c :: cs) (c :: ds)

theorem unified_unifyLineEnds (cs : List Char) : Unified cs (unifyLineEnds cs) := by
  fun_induction unifyLineEnds cs with
  | case1 => exact .nil
  | case2 cs ih => exact .both ih
  | case3 cs hnext ih =>
    refine .carriageReturn (fun hhead => ?_) ih
    obtain ⟨rest, hrest⟩ := List.head?_eq_some_iff.mp hhead
    exact hnext rest hrest
  | case4 c cs _ hc ih => exact .other hc ih

/-- The bytes of a file are those of a text, and then it is read, or else of none. -/
theorem decode?_cases (bytes : ByteArray) :
    (∃ raw text : String, raw.toUTF8 = bytes ∧ Unified raw.toList text.toList ∧
        decode? bytes = some text) ∨
      (∀ raw : String, raw.toUTF8 ≠ bytes) ∧ decode? bytes = none := by
  rw [decode?, String.fromUTF8?]
  split
  · next hvalid =>
    refine .inl ⟨⟨bytes, hvalid⟩, _, rfl, ?_, rfl⟩
    rw [String.toList_ofList]
    exact unified_unifyLineEnds _
  · next hinvalid =>
    refine .inr ⟨fun raw hraw => hinvalid ?_, rfl⟩
    rw [← hraw]
    exact raw.isValidUTF8

end Text

namespace Settings

/-- What is given for an expression in a file, if no depth is asked for. -/
def givenFor (path : String) : List (String × Value) :=
  [(Field.filename.name, .text path), (Field.maxDepth.name, .absent)]

theorem not_mem_givenFor (path : String) : ∀ v, ("cls", v) ∉ givenFor path := by
  simp [givenFor, Field.name]

section
variable {library : Library} (hlibrary : library.Lawful) {stack : Int} {path : String}
  {env : List (String × String)} {s : Settings}
include hlibrary

theorem ordinary_givenFor (path : String) : library.Ordinary (givenFor path) where
  distinct := by simp [givenFor, Field.name]
  noOption entry hentry := by
    rcases List.mem_pair.mp hentry with rfl | rfl
    · exact name_not_mem_options hlibrary .filename
    · exact name_not_mem_options hlibrary .maxDepth

/-- A name that is given is the one in the settings. -/
theorem filename_of_make (h : make library stack (givenFor path) env = .ok s) :
    s.filename = path := by
  obtain ⟨r, hr, rfl⟩ := (make_eq_ok_iff (not_mem_givenFor path)).mp h
  have hordinary := ordinary_present (ordinary_givenFor hlibrary path)
  have hgiven : (declaration stack).Selects (present (givenFor path)) env Field.filename
      (.text path) := .given (mem_present.mpr ⟨List.mem_cons_self, nofun⟩)
  have hname := hlibrary.selected hordinary hr hgiven
  exact Option.some.inj (hname.symm.trans (hlibrary.text_text path))

end

theorem supportedDepth_lt {stack : Int} (hstack : stack < 2 ^ 31) :
    supportedDepth stack < 2 ^ 31 := by
  rw [supportedDepth_eq]
  omega

/-- On a call stack whose size fits into 32 bits, the limits of settings can be written. -/
theorem nameable_limits {stack : Int} (hstack : stack < 2 ^ 31) {s : Settings}
    (hdepth : 1 ≤ s.maxDepth ∧ s.maxDepth ≤ supportedDepth stack)
    (hexponent : 0 ≤ s.maxIntExponent) : (s.limits stack).Nameable where
  depth := by
    have hdeepest : (s.limits stack).deepest = s.maxDepth := min_eq_left hdepth.2
    have hsmall := supportedDepth_lt hstack
    have hmany : (2 : Nat) ^ 31 < 10 ^ Number.maxDigits :=
      calc (2 : Nat) ^ 31 < 10 ^ 10 := by decide
        _ ≤ 10 ^ Number.maxDigits := Nat.pow_le_pow_right (by decide) (by decide)
    rw [hdeepest, Number.writable_iff]
    omega
  exponent := lt_of_lt_of_le (Int.neg_neg_of_pos (by positivity)) hexponent

end Settings

namespace CommandLine

/-- The words that ask for a view. -/
def viewWords : View → List String
  | .value => []
  | .tree => ["--ast"]
  | .tokens => ["--tokens"]

namespace Word

/-- The words that ask for a view, taken apart. -/
def viewFlags : View → List Word
  | .value => []
  | .tree => [.flag .ast false none]
  | .tokens => [.flag .tokens false none]

variable {rest : List String} {others : List Word}

theorem ofTexts_cons {word : String} {first : Word} (hword : word ≠ separatorText)
    (h : ofText word = .ok first) (hrest : ofTexts rest = .ok others) :
    ofTexts (word :: rest) = .ok (first :: others) := by
  rw [ofTexts, if_neg hword, h, hrest]
  rfl

theorem ofTexts_view (view : View) (hrest : ofTexts rest = .ok others) :
    ofTexts (viewWords view ++ rest) = .ok (viewFlags view ++ others) := by
  cases view with
  | value => exact hrest
  | tree => exact ofTexts_cons (by decide) rfl hrest
  | tokens => exact ofTexts_cons (by decide) rfl hrest

section
variable {path : String} (hdash : path.toList.head? ≠ some '-')
include hdash

theorem ne_separatorText : path ≠ separatorText := by
  rintro rfl
  exact hdash rfl

theorem ofTexts_file (hrest : ofTexts rest = .ok others) :
    ofTexts ("-f" :: path :: rest) =
      .ok (.flag .file true none :: .argument path :: others) := by
  have hpath : ofText path = .ok (.argument path) := by
    rw [ofText]
    split
    · next rest hlist => exact absurd (by rw [hlist]; rfl) hdash
    · rfl
  exact ofTexts_cons (by decide) rfl (ofTexts_cons (ne_separatorText hdash) hpath hrest)

end

end Word

namespace Arguments

variable {rest : List Word}

theorem read_flag {a b : Arguments} {f : Flag} (hvalue : f.takesValue = false)
    (hact : a.act f "" = .ok b) :
    a.read none (.flag f false none :: rest) = b.read none rest := by
  have hbundle : Bundle.ofFlag f false none = .ok { flags := [(f, "")] } := by
    simp [Bundle.ofFlag, Bundle.add, hvalue, Bundle.complete]
  rw [read, hbundle]
  change (do (← a.actAll [(f, "")]).read none rest) = _
  rw [actAll, hact]
  rfl

/-- A view is asked for only once. -/
theorem read_view {a : Arguments} (hast : a.ast = false) (htokens : a.tokens = false)
    (view : View) :
    a.read none (Word.viewFlags view ++ rest) =
      { a with ast := view = View.tree, tokens := view = View.tokens }.read none rest := by
  obtain ⟨expression, placed, file, ast, tokens, maxDepth, verbose, extras⟩ := a
  subst hast htokens
  cases view with
  | value => rfl
  | tree => exact read_flag rfl rfl
  | tokens => exact read_flag rfl rfl

theorem read_file {path : String} (hdash : path.toList.head? ≠ some '-') (a : Arguments) :
    a.read none (.flag .file true none :: .argument path :: rest) =
      { a with file := some path }.read none rest := by
  have hact : a.actAll [(.file, path)] = .ok { a with file := some path } := by
    simp [actAll, act, Word.ne_separatorText hdash, bind, Except.bind]
  -- the flag waits for its value, which is the next word
  rw [read]
  change a.read (some ([], .file)) (.argument path :: rest) = _
  rw [read, List.nil_append, hact]
  rfl

theorem ofTexts_of_read {words : List String} {a : Arguments}
    (hwords : Word.ofTexts words = .ok rest) (hread : read {} none rest = .ok a) (hextras : a.extras = []) : ofTexts words = .ok a := by
  rw [ofTexts, hwords]
  change (do
    let a ← read {} none rest
    if a.extras.isEmpty then .ok a else _) = _
  rw [hread]
  exact if_pos (by rw [hextras]; rfl)

/-- The file and the view may be given in either order. -/
theorem ofTexts_file {path : String} (hdash : path.toList.head? ≠ some '-') {view : View}
    {words : List String}
    (hwords : words = viewWords view ++ ["-f", path] ∨ words = ["-f", path] ++ viewWords view) :
    ofTexts words = .ok { file := some path, ast := view = .tree, tokens := view = .tokens } := by
  have hend : Word.ofTexts [] = .ok [] := rfl
  rcases hwords with rfl | rfl
  · refine ofTexts_of_read (Word.ofTexts_view view (Word.ofTexts_file hdash hend)) ?_ rfl
    rw [read_view rfl rfl, read_file hdash, read]
  · have hview := Word.ofTexts_view view hend
    rw [List.append_nil] at hview
    refine ofTexts_of_read (Word.ofTexts_file hdash hview) ?_ rfl
    rw [read_file hdash, read_view rfl rfl, read]

end Arguments

/-- How the command ends if it reads its expression from a file, given what comes of reading it. -/
inductive FileEnding (s : Session) : Except Text.FileFault ByteArray → Outcome → Prop where
  | unreadable (fault : Text.FileFault) :
      FileEnding s (.error fault)
        ⟨.status 2, { err := "arithexpr: cannot read " ++ s.name ++ ": " ++ fault.reason ++ "\n" }⟩
  | shown {raw text line : String} (htext : Text.Unified raw.toList text.toList)
      (hresult : s.result text = .ok line) (hline : '\n' ∉ line.toList) :
      FileEnding s (.ok raw.toUTF8) ⟨.status 0, { out := line ++ "\n" }⟩
  | failed {raw text : String} {e : Error} (htext : Text.Unified raw.toList text.toList)
      (hresult : s.result text = .error (.error e)) :
      FileEnding s (.ok raw.toUTF8) ⟨.status 1, { err := e.render }⟩
  | undecodable {bytes : ByteArray} (h : ∀ raw : String, raw.toUTF8 ≠ bytes) :
      FileEnding s (.ok bytes) ⟨.undecodable, {}⟩

namespace Task

theorem answerFile_ending {s : Session} (hlimits : s.limits.Nameable)
    (hquiet : s.verbose = false)
    {file : Except Text.FileFault ByteArray} (hname : file ≠ .error .zeroInName) :
    FileEnding s file (answerFile s s.name file) := by
  cases file with
  | error fault =>
    -- only a name that cannot be one has no message
    have hmessage : answerFile s s.name (.error fault) =
        .misused (programName ++ ": cannot read " ++ s.name ++ ": " ++ fault.reason ++ "\n") := by
      cases fault with
      | zeroInName => exact absurd rfl hname
      | _ => rfl
    rw [hmessage]
    exact .unreadable fault
  | ok bytes =>
    rw [answerFile]
    rcases Text.decode?_cases bytes with ⟨raw, text, rfl, htext, hdecode⟩ | ⟨hnone, hdecode⟩
    · rw [hdecode]
      dsimp only
      rcases answer_cases hlimits hquiet text with
        ⟨line, hresult, hline, hanswer⟩ | ⟨e, hresult, hanswer⟩
      · rw [hanswer]
        exact .shown htext hresult hline
      · rw [hanswer]
        exact .failed htext hresult
    · rw [hdecode]
      exact .undecodable hnone

section
variable {library : Settings.Library} (hlibrary : library.Lawful) {stack : Int}
  {env : List (String × String)} {words : List String} {path : String} {view : View}
  {settings : Settings}
  (hwords : words = viewWords view ++ ["-f", path] ∨ words = ["-f", path] ++ viewWords view)
  (hpath : path ≠ "") (hdash : path.toList.head? ≠ some '-')
  (hsettings : Settings.make library stack (Settings.givenFor path) env = .ok settings)
include hlibrary hwords hpath hdash hsettings

theorem ofTexts_eq_file :
    ofTexts library stack env words = .file ⟨path, view, settings.limits stack, false⟩ path := by
  rw [ofTexts, Arguments.ofTexts_file hdash hwords]
  dsimp only
  generalize ha : ({ file := some path, ast := view = .tree, tokens := view = .tokens } :
    Arguments) = a
  have hfile : a.path? = some path := by simp [← ha, Arguments.path?, hpath]
  have hexpression : a.expression = none := by rw [← ha]
  have hgiven : a.given = Settings.givenFor path := by
    rw [Arguments.given, Arguments.sourceName, hfile, ← ha]
    rfl
  have hview : a.view = view := by
    rw [← ha]
    cases view <;> rfl
  have hsession : a.session settings stack = ⟨path, view, settings.limits stack, false⟩ := by
    rw [Arguments.session, hview, Settings.filename_of_make hlibrary hsettings, ← ha]
  rw [ofArguments, hexpression, hgiven, hsettings]
  change ofSession a (a.session settings stack) = _
  rw [ofSession, hfile, hsession]

/-- Whatever is in the file, the command that reads it ends with a status and says why, or shows one
line, as long as there is a text with those bytes. Otherwise it breaks off. -/
theorem perform_file (hstack : stack < 2 ^ 31) {read : String → Except Text.FileFault ByteArray}
    (hname : read path ≠ .error .zeroInName) (input : String) :
    FileEnding ⟨path, view, settings.limits stack, false⟩ (read path)
      (perform read input (ofTexts library stack env words)) := by
  obtain ⟨hdepth, hexponent⟩ := Settings.bounds_of_make hlibrary
    (Settings.ordinary_givenFor hlibrary path) (Settings.not_mem_givenFor path) hsettings
  rw [ofTexts_eq_file hlibrary hwords hpath hdash hsettings]
  exact answerFile_ending (Settings.nameable_limits hstack hdepth hexponent) rfl hname

end

section
/-- A file of two lines, the first of which ends with a carriage return and a line feed and the
second with a carriage return, and one with a byte that no text has. -/
private def twoFiles : String → Except Text.FileFault ByteArray
  | "sum.txt" => .ok "1 +\r\n2\r".toUTF8
  | "bad.txt" => .ok ⟨#[0xff]⟩
  | _ => .error .missing

private def usual (path : String) : Settings := ⟨path, defaultDepth, Operation.defaultMaxExponent⟩

theorem perform_file_sum :
    (Settings.Library.plain.Lawful ∧ "sum.txt" ≠ "" ∧ "sum.txt".toList.head? ≠ some '-' ∧
      Settings.make .plain defaultStack (Settings.givenFor "sum.txt") [] = .ok (usual "sum.txt") ∧
      defaultStack < 2 ^ 31 ∧ twoFiles "sum.txt" ≠ .error .zeroInName) ∧
    FileEnding ⟨"sum.txt", .tree, (usual "sum.txt").limits defaultStack, false⟩ (twoFiles "sum.txt")
      (perform twoFiles "" (ofTexts .plain defaultStack [] ["--ast", "-f", "sum.txt"])) ∧
    perform twoFiles "" (ofTexts .plain defaultStack [] ["--ast", "-f", "sum.txt"]) =
      ⟨.status 0, { out := "(1, PLUS, 2)\n" }⟩ := by
  have hsettings : Settings.make .plain defaultStack (Settings.givenFor "sum.txt") [] =
      .ok (usual "sum.txt") := by decide +kernel
  have hname : twoFiles "sum.txt" ≠ .error .zeroInName := by simp [twoFiles]
  have hlibrary := Settings.Library.lawful_plain
  refine ⟨⟨hlibrary, by decide, by decide, hsettings, by decide, hname⟩, ?_, by decide +kernel⟩
  exact perform_file hlibrary (.inl rfl) (by decide) (by decide) hsettings (by decide) hname ""

theorem perform_file_undecodable :
    perform twoFiles "" (ofTexts .plain defaultStack [] ["-f", "bad.txt"]) =
      ⟨.undecodable, {}⟩ := by
  decide +kernel

end

end Task

end CommandLine

end Reckon
