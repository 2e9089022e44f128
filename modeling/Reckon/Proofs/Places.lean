import Mathlib.Data.List.DropRight
import Reckon.Token.Basic

/-!
Places in a source. A position keeps its source however far it goes, and it says where in the text
it is: so many characters on, on such a line and in such a column of it.
-/

namespace Reckon

namespace Position

variable {p : Position} {c : Char} {cs ds : List Char}

/-! ### Going on -/

theorem advance_source (p : Position) (c : Char) : (p.advance c).source = p.source := by
  unfold advance
  split <;> rfl

theorem advanceAll_source (p : Position) (cs : List Char) :
    (p.advanceAll cs).source = p.source := by
  induction cs generalizing p with
  | nil => rfl
  | cons c cs ih => exact (ih (p.advance c)).trans (p.advance_source c)

theorem advanceOver_source (p : Position) (piece : String) :
    (p.advanceOver piece).source = p.source := by
  unfold advanceOver
  split <;> rfl

theorem advance_index (p : Position) (c : Char) : (p.advance c).index = p.index + 1 := by
  unfold advance
  split <;> rfl

theorem advanceAll_index (p : Position) (cs : List Char) :
    (p.advanceAll cs).index = p.index + cs.length := by
  induction cs generalizing p with
  | nil => rfl
  | cons c cs ih =>
    change ((p.advance c).advanceAll cs).index = _
    rw [ih, advance_index, List.length_cons]
    omega

theorem advanceAll_append (p : Position) (cs ds : List Char) :
    p.advanceAll (cs ++ ds) = (p.advanceAll cs).advanceAll ds :=
  List.foldl_append

theorem seek_source (p : Position) (cs : List Char) (n : Nat) :
    (p.seek cs n).source = p.source := by
  induction n generalizing p cs with
  | zero => cases cs <;> rfl
  | succ n ih =>
    cases cs with
    | nil => exact ih p.nextColumn []
    | cons c cs => exact (ih (p.advance c) cs).trans (p.advance_source c)

theorem seek_index (p : Position) (cs : List Char) (n : Nat) :
    (p.seek cs n).index = p.index + n := by
  induction n generalizing p cs with
  | zero => cases cs <;> rfl
  | succ n ih =>
    cases cs with
    | nil =>
      rw [seek, ih]
      simp only [nextColumn]
      omega
    | cons c cs =>
      rw [seek, ih, advance_index]
      omega

theorem seek_append (p : Position) (cs ds : List Char) :
    p.seek (cs ++ ds) cs.length = p.advanceAll cs := by
  induction cs generalizing p with
  | nil => cases ds <;> rfl
  | cons c cs ih => exact ih (p.advance c)

/-! ### The text from a position on -/

def rest (p : Position) : List Char := p.source.text.toList.drop p.index

@[simp] theorem rest_start (source : Source) : (start source).rest = source.text.toList := rfl

theorem rest_advanceAll (h : p.rest = cs ++ ds) : (p.advanceAll cs).rest = ds := by
  have hdrop : (p.advanceAll cs).rest = p.rest.drop cs.length := by
    rw [rest, rest, advanceAll_source, advanceAll_index, List.drop_drop]
  rw [hdrop, h, List.drop_left]

theorem rest_advance (h : p.rest = c :: cs) : (p.advance c).rest = cs :=
  rest_advanceAll (show p.rest = [c] ++ cs from h)

theorem slice_rest (h : p.rest = cs ++ ds) :
    p.source.slice p.index (p.index + cs.length) = String.ofList cs := by
  rw [Source.slice, List.drop_take, Nat.add_sub_cancel_left]
  change String.ofList (p.rest.take cs.length) = _
  rw [h, List.take_left]

/-! ### Moving on to another source -/

/-- The place of a position if its text starts at `base`. Only on the first line are the columns
counted from there. -/
def shift (base p : Position) : Position where
  index := base.index + p.index
  line := base.line + p.line
  column := if p.line = 0 then base.column + p.column else p.column
  source := base.source

@[simp] theorem shift_start (base : Position) (source : Source) :
    base.shift (start source) = base := rfl

theorem advance_shift (base p : Position) (c : Char) :
    (base.shift p).advance c = base.shift (p.advance c) := by
  unfold advance
  split
  · simp [shift, nextLine, Nat.add_assoc]
  · by_cases hline : p.line = 0
    · simp [shift, nextColumn, hline, Nat.add_assoc]
    · simp [shift, nextColumn, hline, Nat.add_assoc]

theorem advanceAll_shift (base p : Position) (cs : List Char) :
    (base.shift p).advanceAll cs = base.shift (p.advanceAll cs) := by
  induction cs generalizing p with
  | nil => rfl
  | cons c cs ih =>
    change ((base.shift p).advance c).advanceAll cs = base.shift ((p.advance c).advanceAll cs)
    rw [advance_shift, ih]

end Position

def Token.shift (base : Position) (t : Token) : Token :=
  ⟨t.kind, base.shift t.start, base.shift t.stop⟩

/-- The lexeme is what stands between the two ends of the span. -/
theorem Token.lexeme_advanceAll {p : Position} {cs ds : List Char} (h : p.rest = cs ++ ds)
    (kind : Kind) : Token.lexeme ⟨kind, p, p.advanceAll cs⟩ = String.ofList cs := by
  rw [lexeme, Position.advanceAll_index, Position.slice_rest h]

theorem Token.lexeme_advance {p : Position} {c : Char} {cs : List Char} (h : p.rest = c :: cs)
    (kind : Kind) : Token.lexeme ⟨kind, p, p.advance c⟩ = String.singleton c :=
  lexeme_advanceAll (show p.rest = [c] ++ cs from h) kind

/-- A token keeps its lexeme where its text stands in another source. -/
theorem Token.lexeme_shift {base : Position} {t : Token} {cs : List Char}
    (h : base.rest = t.start.source.text.toList ++ cs)
    (hstop : t.stop.index ≤ t.start.source.text.length) : (t.shift base).lexeme = t.lexeme := by
  rw [← String.length_toList] at hstop
  have htake : ∀ n, (base.source.text.toList.take (base.index + n)).drop base.index =
      base.rest.take n := fun n => by rw [List.drop_take, Nat.add_sub_cancel_left]; rfl
  simp only [lexeme, shift, Position.shift, Source.slice]
  rw [← List.drop_drop, htake, h, List.take_append_of_le_length hstop]

/-- An empty span has no lexeme. -/
theorem Token.lexeme_empty (p : Position) (kind : Kind) : Token.lexeme ⟨kind, p, p⟩ = "" :=
  Token.lexeme_advanceAll (show p.rest = [] ++ p.rest from rfl) kind

/-! ### Counting -/

namespace Position

variable {source : Source}

theorem advanceAll_eq (source : Source) (cs : List Char) :
    (start source).advanceAll cs =
      ⟨cs.length, cs.count '\n', (cs.rtakeWhile (· != '\n')).length, source⟩ := by
  -- from the end, since the last line feed decides the column
  induction cs using List.reverseRecOn with
  | nil => rfl
  | append_singleton cs c ih =>
    rw [advanceAll_append, ih, List.rtakeWhile_concat]
    by_cases hc : c = '\n'
    · subst hc
      simp [advanceAll, advance, nextLine]
    · simp [advanceAll, advance, nextColumn, hc]

/-- The position is in the source: its line is the number of line feeds before it and its column
the number of characters since the last of them. -/
structure Marks (p : Position) (source : Source) : Prop where
  origin : p.source = source
  inside : p.index ≤ source.text.length
  line : p.line = (source.text.toList.take p.index).count '\n'
  column : p.column = ((source.text.toList.take p.index).rtakeWhile (· != '\n')).length

theorem marks_advanceAll {before after : List Char}
    (h : source.text.toList = before ++ after) :
    ((start source).advanceAll before).Marks source := by
  have hindex : ((start source).advanceAll before).index = before.length := by
    rw [advanceAll_eq]
  have htake : source.text.toList.take before.length = before := by rw [h, List.take_left]
  refine ⟨by rw [advanceAll_eq], ?_, ?_, ?_⟩
  · rw [hindex, ← String.length_toList, h, List.length_append]
    exact Nat.le_add_right _ _
  all_goals rw [hindex, htake, advanceAll_eq]

end Position

namespace Source

variable {source : Source}

@[simp] theorem position_index (source : Source) (n : Nat) : (source.position n).index = n := by
  rw [position, Position.seek_index]
  exact Nat.zero_add n

@[simp] theorem position_source (source : Source) (n : Nat) :
    (source.position n).source = source :=
  Position.seek_source _ _ _

theorem position_append {before after : List Char} (h : source.text.toList = before ++ after) :
    source.position before.length = (Position.start source).advanceAll before := by
  rw [position, h, Position.seek_append]

theorem position_marks {n : Nat} (hn : n ≤ source.text.length) :
    (source.position n).Marks source := by
  have hsplit := (List.take_append_drop n source.text.toList).symm
  have hlength : (source.text.toList.take n).length = n := by
    rw [List.length_take, String.length_toList, min_eq_left hn]
  have hposition := position_append hsplit
  rw [hlength] at hposition
  rw [hposition]
  exact Position.marks_advanceAll hsplit

end Source

end Reckon
