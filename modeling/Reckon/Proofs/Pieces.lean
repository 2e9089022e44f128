import Reckon.Token.Scanner

/-!
The pieces of a text: single spaces, operators and other characters, and runs of digits
and points, as long as they can be. Every text splits into pieces in exactly one way.
-/

namespace Reckon.Scanner

inductive Piece where
  | spacing (c : Char)
  | operator (c : Char)
  | numeral (run : List Char)
  | other (c : Char)
  deriving DecidableEq

namespace Piece

def chars : Piece → List Char
  | spacing c | operator c | other c => [c]
  | numeral run => run

/-- A character that is neither a digit nor a point is a piece by itself. -/
def single (c : Char) : Piece :=
  if isSpacing c then spacing c
  else if (Kind.ofChar? c).isSome then operator c
  else other c

theorem single_cases (c : Char) :
    (isSpacing c ∧ single c = spacing c) ∨
      (isSpacing c = false ∧ ∃ kind, Kind.ofChar? c = some kind ∧ single c = operator c) ∨
      (isSpacing c = false ∧ Kind.ofChar? c = none ∧ single c = other c) := by
  cases hs : isSpacing c with
  | true => simp [single, hs]
  | false => cases hk : Kind.ofChar? c <;> simp [single, hs, hk]

@[simp] theorem chars_single (c : Char) : (single c).chars = [c] := by
  rcases single_cases c with ⟨-, h⟩ | ⟨-, _, -, h⟩ | ⟨-, -, h⟩ <;> rw [h, chars]

end Piece

/-- Neither a digit nor a point comes next. -/
def Bounded (rest : List Char) : Prop := ∀ c ∈ rest.head?, isNumeral c = false

inductive Splits : List Char → List Piece → Prop where
  | nil : Splits [] []
  | single {c : Char} {cs : List Char} {ps : List Piece} (hc : isNumeral c = false)
      (h : Splits cs ps) : Splits (c :: cs) (.single c :: ps)
  | numeral {run cs rest : List Char} {ps : List Piece} (hne : run ≠ [])
      (hrun : ∀ c ∈ run, isNumeral c) (hrest : Bounded rest) (hcs : cs = run ++ rest)
      (h : Splits rest ps) : Splits cs (.numeral run :: ps)

theorem bounded_nil : Bounded [] := by
  intro c hc
  simp at hc

theorem bounded_cons {c : Char} {cs : List Char} :
    Bounded (c :: cs) ↔ isNumeral c = false := by
  simp [Bounded]

theorem bounded_dropWhile (cs : List Char) : Bounded (cs.dropWhile isNumeral) := by
  intro c hc
  have h := List.head?_dropWhile_not isNumeral cs
  rwa [Option.mem_def.mp hc] at h

theorem exists_splits (cs : List Char) : ∃ ps, Splits cs ps := by
  -- by the length of the text, since a run takes any number of characters
  induction hlen : cs.length using Nat.strongRecOn generalizing cs with
  | ind n ih =>
    cases cs with
    | nil => exact ⟨[], .nil⟩
    | cons c cs =>
      simp only [List.length_cons] at hlen
      cases hn : isNumeral c with
      | true =>
        have hshort : (cs.dropWhile isNumeral).length < n := by
          have := (List.dropWhile_sublist isNumeral (l := cs)).length_le
          omega
        obtain ⟨ps, hps⟩ := ih _ hshort _ rfl
        refine ⟨_, .numeral (List.cons_ne_nil c (cs.takeWhile isNumeral)) ?_
          (bounded_dropWhile cs) (by simp) hps⟩
        simpa [hn] using List.all_eq_true.mp (List.all_takeWhile (l := cs) (p := isNumeral))
      | false =>
        obtain ⟨ps, hps⟩ := ih cs.length (by omega) cs rfl
        exact ⟨_, .single hn hps⟩

/-- Two runs of one class at the start of a text, each as long as it can be, are the same. -/
theorem run_unique {f : Char → Bool} {run run' rest rest' : List Char}
    (h : run ++ rest = run' ++ rest') (hrun : ∀ c ∈ run, f c) (hrun' : ∀ c ∈ run', f c)
    (hrest : ∀ c ∈ rest.head?, f c = false) (hrest' : ∀ c ∈ rest'.head?, f c = false) :
    run = run' ∧ rest = rest' := by
  induction run generalizing run' with
  | nil =>
    cases run' with
    | nil => exact ⟨rfl, h⟩
    | cons c run' =>
      obtain rfl : rest = _ := h
      simp [hrun'] at hrest
  | cons c run ih =>
    cases run' with
    | nil =>
      obtain rfl : _ = rest' := h
      simp [hrun] at hrest'
    | cons c' run' =>
      obtain ⟨rfl, htail⟩ := List.cons.inj h
      obtain ⟨rfl, hrest⟩ := ih htail (fun c hc => hrun c (by simp [hc]))
        (fun c hc => hrun' c (by simp [hc]))
      exact ⟨rfl, hrest⟩

namespace Splits

private theorem head_numeral {c : Char} {cs run rest : List Char} (hcs : c :: cs = run ++ rest)
    (hne : run ≠ []) (hrun : ∀ c ∈ run, isNumeral c) : isNumeral c := by
  cases run with
  | nil => exact absurd rfl hne
  | cons d run =>
    obtain ⟨rfl, -⟩ := List.cons.inj hcs
    exact hrun c (by simp)

theorem unique {cs : List Char} {ps qs : List Piece} (h : Splits cs ps)
    (h' : Splits cs qs) : ps = qs := by
  induction h generalizing qs with
  | nil =>
    cases h' with
    | nil => rfl
    | numeral hne _ _ hcs _ => simp [hne] at hcs
  | single hc h ih =>
    cases h' with
    | single _ h' => rw [ih h']
    | numeral hne hrun _ hcs _ => simp [head_numeral hcs hne hrun] at hc
  | numeral hne hrun hrest hcs h ih =>
    cases h' with
    | nil => simp [hne] at hcs
    | single hc _ => simp [head_numeral hcs hne hrun] at hc
    | numeral _ hrun' hrest' hcs' h' =>
      obtain ⟨rfl, rfl⟩ := run_unique (hcs.symm.trans hcs') hrun hrun' hrest hrest'
      rw [ih h']

theorem operator {c : Char} {kind : Kind} (hc : Kind.ofChar? c = some kind) {cs : List Char}
    {ps : List Piece} (h : Splits cs ps) : Splits (c :: cs) (.operator c :: ps) := by
  unfold Kind.ofChar? at hc
  split at hc
  case h_8 => cases hc
  all_goals exact .single rfl h

/-- Two texts are split side by side if no number runs from the first into the second. -/
theorem append_of_apart {cs ds : List Char} {ps qs : List Piece} (h : Splits cs ps)
    (h' : Splits ds qs) (hapart : (∃ c ∈ cs.getLast?, isNumeral c) → Bounded ds) :
    Splits (cs ++ ds) (ps ++ qs) := by
  induction h with
  | nil => exact h'
  | single hc _ ih =>
    refine .single hc (ih ?_)
    rintro ⟨d, hd, hnumeral⟩
    exact hapart ⟨d, by rw [List.getLast?_cons, Option.mem_def.mp hd]; rfl, hnumeral⟩
  | @numeral run cs rest ps hne hrun hrest hcs _ ih =>
    subst hcs
    rw [List.append_assoc]
    refine .numeral hne hrun ?_ rfl (ih ?_)
    · cases rest with
      | nil =>
        refine hapart ⟨run.getLast hne, ?_, hrun _ (List.getLast_mem hne)⟩
        rw [List.append_nil, List.getLast?_eq_some_getLast hne]
        rfl
      | cons c rest => exact bounded_cons.mpr (bounded_cons.mp hrest)
    · rintro ⟨d, hd, hnumeral⟩
      exact hapart ⟨d, by rw [List.getLast?_append, Option.mem_def.mp hd]; rfl, hnumeral⟩

theorem append {cs ds : List Char} {ps qs : List Piece} (h : Splits cs ps) (h' : Splits ds qs)
    (hds : Bounded ds) : Splits (cs ++ ds) (ps ++ qs) :=
  h.append_of_apart h' fun _ => hds

/-- The pieces are all of the text. -/
theorem chars_eq {cs : List Char} {ps : List Piece} (h : Splits cs ps) :
    ps.flatMap Piece.chars = cs := by
  induction h with
  | nil => rfl
  | single _ _ ih => simp [ih]
  | numeral _ _ _ hcs _ ih => simp [ih, hcs, Piece.chars]

/-- The first pieces of a text are the pieces of its start. -/
theorem left {cs : List Char} {ps qs : List Piece} (h : Splits cs (ps ++ qs)) :
    Splits (ps.flatMap Piece.chars) ps := by
  induction ps generalizing cs with
  | nil => exact .nil
  | cons piece ps ih =>
    cases h with
    | single hc h =>
      rw [List.flatMap_cons, Piece.chars_single]
      exact .single hc (ih h)
    | @numeral run cs rest _ hne hrun hrest hcs h =>
      have hsplit : rest = ps.flatMap Piece.chars ++ qs.flatMap Piece.chars := by
        rw [← List.flatMap_append]
        exact h.chars_eq.symm
      have hbounded : Bounded (ps.flatMap Piece.chars) := by
        intro c hc
        refine hrest c ?_
        rw [hsplit, List.head?_append, Option.mem_def.mp hc]
        rfl
      exact .numeral hne hrun hbounded List.flatMap_cons (ih h)

theorem length_le {cs : List Char} {ps : List Piece} (h : Splits cs ps) :
    ps.length ≤ cs.length := by
  induction h with
  | nil => exact Nat.le_refl _
  | single _ _ ih => simpa using ih
  | numeral hne _ _ hcs _ ih =>
    have := List.length_pos_iff.mpr hne
    simp only [hcs, List.length_append, List.length_cons]
    omega

end Splits

end Reckon.Scanner
