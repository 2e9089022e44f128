import Reckon.Proofs.Tiling

/-!
A scanner that is driven step by step, in any order. Once it has read its text, its cursor
stands at an index of the text, or past the end of it, with the position that counting gives
for that index; a fault leaves it there too, in the middle of a number for instance. Only
reading the whole text again takes it back.
-/

namespace Reckon

/-- One more index is one more character, or one more column past the end of the text. -/
theorem Position.seek_succ (p : Position) (cs : List Char) (n : Nat) :
    p.seek cs (n + 1) =
      match cs[n]? with
      | some c => (p.seek cs n).advance c
      | none => (p.seek cs n).nextColumn := by
  induction n generalizing p cs with
  | zero => cases cs <;> rfl
  | succ n ih =>
    cases cs with
    | nil => exact ih p.nextColumn []
    | cons c cs => exact ih (p.advance c) cs

namespace Cursor

/-- The cursor at an index of a source, which may be past its end. -/
def ofIndex (source : Source) (n : Nat) : Cursor :=
  ⟨source.position n, source.text.toList.drop n, true⟩

variable {source : Source} {run : List Char} {n : Nat}

@[simp] theorem ofIndex_index : (ofIndex source n).position.index = n :=
  source.position_index n

theorem current_ofIndex : (ofIndex source n).current = source.text.toList[n]? := List.head?_drop

theorem advance_ofIndex : (ofIndex source n).advance = ofIndex source (n + 1) := by
  rw [advance, current_ofIndex]
  cases h : source.text.toList[n]? <;> simp [ofIndex, Source.position, Position.seek_succ, h]

theorem skip_ofIndex (h : run <+: source.text.toList.drop n) :
    (ofIndex source n).skip run = ofIndex source (n + run.length) := by
  induction run generalizing n with
  | nil => rfl
  | cons c run ih =>
    -- the first character is an advance
    obtain ⟨rest, hrest⟩ := h
    have hdrop : source.text.toList.drop (n + 1) = run ++ rest := by
      rw [← List.tail_drop, ← hrest]
      rfl
    have hfirst : (ofIndex source n).skip (c :: run) = (ofIndex source n).advance.skip run := by
      rw [ofIndex, ← hrest]
      rfl
    rw [hfirst, advance_ofIndex, ih ⟨rest, hdrop.symm⟩, List.length_cons]
    congr 1
    omega

end Cursor

namespace Scanner

open Cursor

theorem numeralRun_isPrefix (seen : Bool) (cs : List Char) : numeralRun seen cs <+: cs := by
  induction cs generalizing seen with
  | nil => exact List.nil_prefix
  | cons c cs ih =>
    rw [numeralRun]
    split
    · exact List.prefix_cons_inj c |>.mpr (ih seen)
    · split
      · exact List.prefix_cons_inj c |>.mpr (ih true)
      · exact List.nil_prefix

/-- Whatever comes of a numeral, the cursor moves over what was read of it. -/
theorem number_snd (c : Cursor) :
    (number c).2 = c.skip (if c.started then numeralRun false c.rest else []) := by
  unfold number
  generalize (if c.started then numeralRun false c.rest else []) = run
  dsimp only
  split
  · rfl
  · split
    · rfl
    · split <;> rfl

theorem number_ofIndex (source : Source) (n : Nat) :
    ∃ k, n ≤ k ∧ (number (ofIndex source n)).2 = ofIndex source k := by
  refine ⟨n + (numeralRun false (source.text.toList.drop n)).length, Nat.le_add_right _ _, ?_⟩
  rw [number_snd]
  exact skip_ofIndex (numeralRun_isPrefix false _)

theorem scan_ofIndex (source : Source) (m n : Nat) (found : List Token) :
    ∃ k, (scan m (ofIndex source n) found).2.1 = ofIndex source k := by
  induction m generalizing n found with
  | zero => exact ⟨n, rfl⟩
  | succ m ih =>
    rw [scan]
    split
    · exact ⟨n, rfl⟩
    · split
      · rw [advance_ofIndex]
        exact ih (n + 1) found
      · split
        · obtain ⟨k, -, hk⟩ := number_ofIndex source n
          split
          · next t after hnumber =>
            rw [hnumber] at hk
            obtain rfl : after = ofIndex source k := hk
            exact ih k _
          · next e after hnumber =>
            rw [hnumber] at hk
            exact ⟨k, hk⟩
        · split
          · exact ⟨n, rfl⟩
          · rw [advance_ofIndex]
            exact ih (n + 1) _

/-- What can be done with a scanner. -/
inductive Step where
  | advance
  | number
  | all
  deriving DecidableEq

/-- The scanner after a step, whether or not it succeeds. -/
def Step.apply : Step → Scanner → Scanner
  | advance, s => s.advance
  | number, s => s.readNumber.2
  | all, s => s.readAll.2

/-- The scanner after some steps. -/
def drive (s : Scanner) (steps : List Step) : Scanner := steps.foldl (fun s step => step.apply s) s

/-- What every step keeps is kept by all of them. -/
theorem drive_induction {P : Scanner → Prop} (hstep : ∀ s step, P s → P (Step.apply step s))
    {s : Scanner} (h : P s) (steps : List Step) : P (s.drive steps) := by
  induction steps generalizing s with
  | nil => exact h
  | cons step steps ih => exact ih (hstep s step h)

/-- The scanner stands at an index of its source. -/
structure Stands (source : Source) (n : Nat) (s : Scanner) : Prop where
  reads : s.source = source
  cursor : s.cursor = ofIndex source n

section
variable {source : Source} {n : Nat} {s : Scanner}

theorem readAll_source (s : Scanner) : s.readAll.2.source = s.source := by
  unfold readAll
  dsimp only
  split <;> rfl

theorem readAll_cursor (s : Scanner) :
    s.readAll.2.cursor = (scan s.source.text.toList.length (ofIndex s.source 0) []).2.1 := by
  change _ = (scan _ ⟨.start s.source, s.source.text.toList, true⟩ []).2.1
  unfold readAll
  dsimp only
  split <;> next h => rw [h]

theorem stands_readAll (h : s.source = source) : ∃ k, Stands source k s.readAll.2 := by
  obtain ⟨k, hk⟩ := scan_ofIndex source source.text.toList.length 0 []
  refine ⟨k, by rw [readAll_source, h], ?_⟩
  rw [readAll_cursor, h, hk]

/-- A step leads from one index of the text to another, and back only if it reads all of it. -/
theorem Stands.apply (h : Stands source n s) (step : Step) :
    ∃ k, Stands source k (step.apply s) ∧ (step ≠ .all → n ≤ k) := by
  cases step with
  | advance =>
    refine ⟨n + 1, ⟨h.reads, ?_⟩, fun _ => Nat.le_succ n⟩
    change s.cursor.advance = _
    rw [h.cursor, advance_ofIndex]
  | number =>
    obtain ⟨k, hle, hk⟩ := number_ofIndex source n
    refine ⟨k, ⟨h.reads, ?_⟩, fun _ => hle⟩
    change (Scanner.number s.cursor).2 = _
    rw [h.cursor, hk]
  | all =>
    obtain ⟨k, hk⟩ := stands_readAll h.reads
    exact ⟨k, hk, fun hne => absurd rfl hne⟩

/-- Wherever the scanner is, reading its text gives what it gave the first time. -/
theorem Stands.readAll_fst (h : Stands source n s) : s.readAll.1 = tokenize source := by
  unfold tokenize readAll start
  rw [h.reads]

theorem stands_drive (source : Source) (steps : List Step) :
    ∃ n, Stands source n ((start source).drive (.all :: steps)) := by
  refine drive_induction (P := fun s => ∃ n, Stands source n s) ?_ (stands_readAll rfl) steps
  rintro s step ⟨n, h⟩
  obtain ⟨k, hk, -⟩ := h.apply step
  exact ⟨k, hk⟩

/-- The tokens in front of a fault stay, since reading the text again finds the same ones. -/
theorem drive_tokens {before after : List Piece} {bad : Piece}
    (h : Splits source.text.toList (before ++ bad :: after))
    (hlegal : ∀ piece ∈ before, piece.Legal) (hfault : ¬ bad.Legal) (steps : List Step) :
    ((start source).drive (.all :: steps)).tokens = tokensFrom (.start source) before := by
  have hall : ∀ s : Scanner, s.source = source →
      s.readAll.2.source = source ∧ s.readAll.2.tokens = tokensFrom (.start source) before := by
    rintro s rfl
    obtain ⟨e, cursor, hread, -⟩ := readAll_of_faulty h hlegal hfault
    rw [hread]
    exact ⟨rfl, rfl⟩
  refine (drive_induction
    (P := fun s => s.source = source ∧ s.tokens = tokensFrom (.start source) before)
    ?_ (hall _ rfl) steps).2
  rintro s step ⟨hsource, htokens⟩
  cases step with
  | advance => exact ⟨hsource, htokens⟩
  | number => exact ⟨hsource, htokens⟩
  | all => exact hall s hsource

end

/-- At any time after a scanner has read its text, whatever steps came in between and however
they ended, its cursor is in its source, at the character that its position says or at none past
the end, and only reading the text again moves it back. If the text has a fault, the tokens are
those of the text in front of the piece at fault, which is a source by itself. -/
theorem drive_tracks (source : Source) (steps : List Step) :
    let s := (start source).drive (.all :: steps)
    s.cursor.position.source = source ∧
    s.cursor.current = source.text.toList[s.cursor.position.index]? ∧
    (s.cursor.position.index ≤ source.text.length → s.cursor.position.Marks source) ∧
    (∀ step : Step, step ≠ .all → s.cursor.position.index ≤ (step.apply s).cursor.position.index) ∧
    s.readAll.1 = tokenize source ∧
    ∀ e, tokenize source = .error e → ∃ before bad after ts, ∃ eof : Token,
      Splits source.text.toList (before ++ bad :: after) ∧
      Fault ((Position.start source).advanceAll (before.flatMap Piece.chars)) bad e.code e ∧
      eof.kind = .eof ∧
      tokenize ⟨source.name, String.ofList (before.flatMap Piece.chars)⟩ = .ok (ts ++ [eof]) ∧
      s.tokens = ts.map (.shift (.start source)) ∧
      s.tokens.map Token.lexeme = ts.map Token.lexeme := by
  intro s
  obtain ⟨n, hs⟩ := stands_drive source steps
  have hindex : s.cursor.position.index = n := by rw [hs.cursor, ofIndex_index]
  rw [hindex]
  refine ⟨?_, ?_, fun hn => ?_, fun step hstep => ?_, hs.readAll_fst, fun e he => ?_⟩
  · rw [hs.cursor]
    exact source.position_source n
  · rw [hs.cursor, current_ofIndex]
  · rw [hs.cursor]
    exact Source.position_marks hn
  · obtain ⟨k, hk, hle⟩ := hs.apply step
    rw [hk.cursor, ofIndex_index]
    exact hle hstep
  · obtain ⟨ps, hps⟩ := exists_splits source.text.toList
    rcases all_legal_or_leftmost ps with hlegal | ⟨before, bad, after, rfl, hlegal, hbad⟩
    · cases he.symm.trans (tokenize_of_legal hps hlegal)
    · obtain ⟨e', he', hfault⟩ := tokenize_of_faulty hps hlegal hbad
      obtain rfl := Except.error.inj (he.symm.trans he')
      let front : Source := ⟨source.name, String.ofList (before.flatMap Piece.chars)⟩
      have hleft : Splits front.text.toList before := by
        rw [String.toList_ofList]
        exact hps.left
      have hfront := tokenize_of_legal hleft hlegal
      have hkept : s.tokens = (tokensFrom (.start front) before).map (.shift (.start source)) := by
        rw [drive_tokens hps hlegal hbad steps, ← tokensFrom_shift, Position.shift_start]
      have hrest : (Position.start source).rest =
          front.text.toList ++ (bad :: after).flatMap Piece.chars := by
        rw [Position.rest_start, String.toList_ofList, ← List.flatMap_append, hps.chars_eq]
      refine ⟨before, bad, after, tokensFrom (.start front) before, _, hps, hfault, rfl, hfront,
        hkept, ?_⟩
      rw [hkept, List.map_map]
      exact List.map_congr_left fun t ht =>
        lexeme_shift_of_tokenize hfront hrest (List.mem_append_left _ ht)

/-- Reading a `7` and two points on the next line stops on the second point. To read a number
from there fails as well, and leaves the cursor at the end of the text. -/
theorem drive_tracks_points :
    let source : Source := ⟨"points", "7\n .."⟩
    let s := (start source).drive [.all, .number]
    s.cursor.position = ⟨5, 1, 3, source⟩ ∧ s.cursor.position.Marks source ∧
      s.cursor.position.index ≤ s.advance.cursor.position.index ∧
      ∃ before bad after ts, ∃ eof : Token, Splits source.text.toList (before ++ bad :: after) ∧
        eof.kind = .eof ∧
        tokenize ⟨"points", String.ofList (before.flatMap Piece.chars)⟩ = .ok (ts ++ [eof]) ∧
        s.tokens = ts.map (.shift (.start source)) := by
  intro source s
  have hposition : s.cursor.position = ⟨5, 1, 3, source⟩ := by decide
  have herror : tokenize source = .error
      ⟨.malformedNumber LexError.secondPoint, ".", ⟨4, 1, 2, source⟩, ⟨5, 1, 3, source⟩⟩ := by
    decide
  obtain ⟨-, -, hmarks, hback, -, htokens⟩ := drive_tracks source [.number]
  obtain ⟨before, bad, after, ts, eof, hps, -, heof, hok, hkept, -⟩ := htokens _ herror
  exact ⟨hposition, hmarks (by decide), hback .advance (by decide), before, bad, after, ts, eof,
    hps, heof, hok, hkept⟩

end Scanner

end Reckon
