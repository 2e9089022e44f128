import Reckon.Proofs.Composition
import Reckon.Proofs.DecimalText

/-!
Trees are told apart by how they are represented. A number, a name and a tree in parentheses each
show by their first character what they are and end where no longer one could, so the text of a tree
comes apart in one way only.
-/

namespace Reckon

open Scanner

/-! ### Names and leaves -/

theorem Tag.ofName?_name (t : Tag) : ofName? t.name = some t := by
  cases t <;> decide

namespace Token

section
variable {op op' : Token} {c c' : Char}

theorem name_isUpper (op : Token) : ∀ d ∈ op.tag.name.toList, d.isUpper := by
  cases op.tag <;> simp [Tag.name]

theorem name_head (op : Token) : ∃ d ∈ op.tag.name.toList.head?, d.isUpper := by
  cases op.tag <;> simp [Tag.name]

theorem tag_ne_number (hop : op.tag.symbol? = some c) : op.tag ≠ .number := by
  intro htag
  rw [htag] at hop
  cases hop

theorem sameKind_of_name (hop : op.tag.symbol? = some c) (hop' : op'.tag.symbol? = some c')
    (h : op.tag.name = op'.tag.name) : op.SameKind op' := by
  have htag : op.tag = op'.tag := by
    have hname := Tag.ofName?_name op.tag
    rw [h, Tag.ofName?_name] at hname
    exact (Option.some.inj hname).symm
  have hkind := Kind.ofTag_tag (tag_ne_number hop)
  have hkind' := Kind.ofTag_tag (tag_ne_number hop')
  rw [← tag] at hkind hkind'
  rw [htag, hkind'] at hkind
  exact (Except.ok.inj hkind).symm

end

section
variable {t : Token} {run : List Char} {v : Number}

theorem Genuine.unsigned (h : t.Genuine run v) : v.Unsigned := by
  cases denotes_of_numeralValue? h.value with
  | whole _ => exact .int _
  | decimal fits _ _ => exact .float fits

end

end Token

namespace Tree

theorem not_isUpper_of_isDigit {c : Char} (h : c.isDigit) : c.isUpper = false := by
  grind [Char.isDigit, Char.isUpper]

theorem written_head {t : Tree} (h : t.Proper) : ∃ c ∈ t.written.head?, c.isUpper = false := by
  cases h with
  | number hgenuine =>
    obtain ⟨c, hc, hdigit⟩ := hgenuine.unsigned.text_head
    rw [written, hgenuine.valueText_eq]
    exact ⟨c, hc, not_isUpper_of_isDigit hdigit⟩
  | unary => exact ⟨'(', rfl, rfl⟩
  | binary => exact ⟨'(', rfl, rfl⟩

/-- What may come after a tree in the text of another. -/
def Closes (rest : List Char) : Prop := ∀ c ∈ rest.head?, c = ',' ∨ c = ')'

section
variable {rest rest' : List Char}

theorem Closes.not_part (h : Closes rest) : ∀ c ∈ rest.head?, Decimal.isPart c = false := by
  intro c hc
  rcases h c hc with rfl | rfl <;> rfl

theorem leaf_append_ne {t : Token} {run : List Char} {v : Number} (h : t.Genuine run v) :
    (number t).written ++ rest ≠ '(' :: rest' := by
  obtain ⟨c, hc, hdigit⟩ := h.unsigned.text_head
  rw [written, h.valueText_eq]
  obtain ⟨cs, hcs⟩ := List.head?_eq_some_iff.mp hc
  rw [hcs]
  intro heq
  obtain ⟨rfl, -⟩ := List.cons.inj heq
  cases hdigit

theorem name_append_ne (op : Token) {x : Tree} (hx : x.Proper) :
    op.tag.name.toList ++ rest ≠ x.written ++ rest' := by
  obtain ⟨d, hd, hupper⟩ := op.name_head
  obtain ⟨c, hc, hlower⟩ := written_head hx
  obtain ⟨ds, hds⟩ := List.head?_eq_some_iff.mp hd
  obtain ⟨cs, hcs⟩ := List.head?_eq_some_iff.mp hc
  rw [hds, hcs]
  intro heq
  obtain ⟨rfl, -⟩ := List.cons.inj heq
  rw [hupper] at hlower
  cases hlower

theorem leaf_append_inj {t t' : Token} {run run' : List Char} {v v' : Number}
    (ht : t.Genuine run v) (ht' : t'.Genuine run' v') (hrest : Closes rest)
    (hrest' : Closes rest') (h : (number t).written ++ rest = (number t').written ++ rest') :
    t.SameKind t' ∧ rest = rest' := by
  rw [written, written, ht.valueText_eq, ht'.valueText_eq] at h
  obtain ⟨htext, heq⟩ := run_unique h ht.unsigned.text_chars ht'.unsigned.text_chars
    hrest.not_part hrest'.not_part
  have hvalue := ht.unsigned.text_inj ht'.unsigned (String.toList_inj.mp htext)
  exact ⟨by rw [Token.SameKind, ht.kind, ht'.kind, hvalue], heq⟩

theorem name_append_inj {op op' : Token} {c c' : Char} (hop : op.tag.symbol? = some c)
    (hop' : op'.tag.symbol? = some c')
    (h : op.tag.name.toList ++ ',' :: rest = op'.tag.name.toList ++ ',' :: rest') :
    op.SameKind op' ∧ rest = rest' := by
  obtain ⟨hname, htail⟩ := run_unique h op.name_isUpper
    op'.name_isUpper (by simp) (by simp)
  exact ⟨Token.sameKind_of_name hop hop' (String.toList_inj.mp hname),
    (List.cons.inj htail).2⟩

end

/-- The text of a tree says which tree it is and where it ends. -/
theorem written_append_inj {t u : Tree} (ht : t.Proper) (hu : u.Proper) {rest rest' : List Char}
    (hrest : Closes rest) (hrest' : Closes rest') (h : t.written ++ rest = u.written ++ rest') :
    t.Matches Token.SameKind Token.SameKind u ∧ rest = rest' := by
  -- the rest varies, since the operands of a node are followed by what is left of its text
  induction ht generalizing u rest rest' with
  | number hgenuine =>
    cases hu with
    | number hgenuine' =>
      obtain ⟨hkind, heq⟩ := leaf_append_inj hgenuine hgenuine' hrest hrest' h
      exact ⟨.number hkind, heq⟩
    | unary => exact absurd h (leaf_append_ne hgenuine)
    | binary => exact absurd h (leaf_append_ne hgenuine)
  | @unary op x hop hx ih =>
    obtain ⟨c, hc⟩ := symbol_of_joins (l := .sum) hop
    cases hu with
    | number hgenuine => exact absurd h.symm (leaf_append_ne hgenuine)
    | @unary op' x' hop' hx' =>
      obtain ⟨c', hc'⟩ := symbol_of_joins (l := .sum) hop'
      simp only [written, List.cons_append, List.append_assoc, List.cons.injEq, true_and] at h
      obtain ⟨hkind, htail⟩ := name_append_inj hc hc' h
      obtain ⟨hmatches, hclose⟩ := ih hx' (by simp [Closes]) (by simp [Closes])
        (List.cons.inj htail).2
      exact ⟨.unary hkind hmatches, (List.cons.inj hclose).2⟩
    | @binary l' r' op' c' hop' hl' hr' =>
      simp only [written, List.cons_append, List.append_assoc, List.cons.injEq, true_and] at h
      exact absurd h (name_append_ne op hl')
  | @binary l r op c hop hl hr ihl ihr =>
    cases hu with
    | number hgenuine => exact absurd h.symm (leaf_append_ne hgenuine)
    | @unary op' x' hop' hx' =>
      obtain ⟨c', hc'⟩ := symbol_of_joins (l := .sum) hop'
      simp only [written, List.cons_append, List.append_assoc, List.cons.injEq, true_and] at h
      exact absurd h.symm (name_append_ne op' hl)
    | @binary l' r' op' c' hop' hl' hr' =>
      simp only [written, List.cons_append, List.append_assoc, List.cons.injEq, true_and] at h
      obtain ⟨hleft, htail⟩ := ihl hl' (by simp [Closes]) (by simp [Closes]) h
      simp only [List.cons.injEq, true_and] at htail
      obtain ⟨hkind, htail⟩ := name_append_inj hop hop' htail
      obtain ⟨hright, hclose⟩ := ihr hr' (by simp [Closes]) (by simp [Closes])
        (List.cons.inj htail).2
      exact ⟨.binary hkind hleft hright, (List.cons.inj hclose).2⟩

end Tree

namespace Expression

/-- Trees that were parsed have the same representation exactly if they have the same shape, the
same operators and the same numbers, of the same type, at corresponding places. -/
theorem represent_eq_iff {source source' : Source} {limits limits' : Limits} {t t' : Tree}
    (h : parse source limits = .ok t) (h' : parse source' limits' = .ok t') :
    ∃ r r', t.represent = .ok r ∧ t'.represent = .ok r' ∧
      (r = r' ↔ t.Matches Token.SameKind Token.SameKind t') := by
  have hproper := Tree.proper_of_parse h
  have hproper' := Tree.proper_of_parse h'
  refine ⟨_, _, hproper.legible.represent_eq, hproper'.legible.represent_eq, ?_, ?_⟩
  · intro heq
    have hwritten : t.written ++ [] = t'.written ++ [] := by
      rw [String.ofList_injective heq]
    exact (Tree.written_append_inj hproper hproper' (by simp [Tree.Closes])
      (by simp [Tree.Closes]) hwritten).1
  · intro hmatches
    have hsame := hmatches.represent_eq
    rw [hproper.legible.represent_eq, hproper'.legible.represent_eq] at hsame
    exact Except.ok.inj hsame

section
private def shown? (text : String) : Option String :=
  (parse text {}).toOption.bind fun t => t.represent.toOption

private theorem parse_of_shown? {text r : String} (h : shown? text = some r) :
    ∃ t, parse text {} = .ok t ∧ t.represent = .ok r := by
  rw [shown?] at h
  cases hparse : parse text {} with
  | error e =>
    rw [hparse] at h
    cases h
  | ok t =>
    have hr := (Tree.proper_of_parse hparse).legible.represent_eq
    rw [hparse] at h
    change t.represent.toOption = some r at h
    rw [hr] at h
    obtain rfl := Option.some.inj h
    exact ⟨t, rfl, hr⟩

/-- A number may be spelled in another way, but a whole number is not the double of its value. -/
theorem represent_eq_iff_spellings :
    ∃ t t' u, parse "-(1-2.50)" {} = .ok t ∧ parse "-\n(1 - 2.5)" {} = .ok t' ∧
      parse "-(1.0-2.5)" {} = .ok u ∧ t.Matches Token.SameKind Token.SameKind t' ∧
      ¬ t.Matches Token.SameKind Token.SameKind u := by
  obtain ⟨t, ht, hr⟩ := parse_of_shown?
    (show shown? "-(1-2.50)" = some "(MINUS, (1, MINUS, 2.5))" by decide +kernel)
  obtain ⟨t', ht', hr'⟩ := parse_of_shown?
    (show shown? "-\n(1 - 2.5)" = some "(MINUS, (1, MINUS, 2.5))" by decide +kernel)
  obtain ⟨u, hu, hs⟩ := parse_of_shown?
    (show shown? "-(1.0-2.5)" = some "(MINUS, (1.0, MINUS, 2.5))" by decide +kernel)
  refine ⟨t, t', u, ht, ht', hu, ?_, ?_⟩
  · obtain ⟨r, r', h, h', hiff⟩ := represent_eq_iff ht ht'
    exact hiff.mp (Except.ok.inj (h.symm.trans (hr.trans (hr'.symm.trans h'))))
  · obtain ⟨r, s, h, h', hiff⟩ := represent_eq_iff ht hu
    rw [← hiff, Except.ok.inj (h.symm.trans hr), Except.ok.inj (h'.symm.trans hs)]
    decide

end

end Expression

end Reckon
