import Mathlib
import Reckon.Proofs.Parsing
import Reckon.Proofs.PlainLibrary
import Reckon.Settings.Basic

/-!
Where settings come from. The value of a field is a given one, or else that of the variable for
the field, or else the default. With any library that follows its laws there are settings exactly
if every field has a value within its bounds, and a parser with these settings uses their depth
limit as it is.
-/

namespace Reckon.Settings

/-- The value of a field. -/
def value (s : Settings) : (f : Field) → f.type.Carrier
  | .filename => s.filename
  | .maxDepth => s.maxDepth
  | .maxIntExponent => s.maxIntExponent

/-- The name is that of the variable for a field, in upper or lower case. -/
def IsVariable (f : Field) (name : String) : Prop :=
  Text.lower name = Text.lower ("ARITHEXPR_" ++ f.name)

/-- At most one variable is for the same field. -/
def Unambiguous (env : List (String × String)) : Prop :=
  ∀ f, ∀ a ∈ env, ∀ b ∈ env, IsVariable f a.1 → IsVariable f b.1 → a = b

/-- Where the value of a field comes from. A value given as absent is not given. -/
inductive Selected (given : List (String × Value)) (env : List (String × String)) (f : Field) :
    Value → Prop where
  | given {v : Value} (hgiven : (f.name, v) ∈ given) (hpresent : v ≠ .absent) :
      Selected given env f v
  | environment {name text : String} (hgiven : ∀ v, (f.name, v) ∈ given → v = .absent)
      (henv : (name, text) ∈ env) (hname : IsVariable f name) :
      Selected given env f (.text text)
  | default (hgiven : ∀ v, (f.name, v) ∈ given → v = .absent)
      (henv : ∀ entry ∈ env, ¬ IsVariable f entry.1) :
      Selected given env f (f.type.toValue f.default)

/-- The settings have the values that are selected for their fields, which are within bounds, and
nothing else is given. -/
structure Accepted (library : Library) (stack : Int) (given : List (String × Value))
    (env : List (String × String)) (s : Settings) : Prop where
  known : ∀ name v, (name, v) ∈ given → v ≠ .absent → ∃ f : Field, f.name = name
  fields : ∀ f, ∃ v, Selected given env f v ∧ library.coerce f.type v = some (s.value f)
  depth_bounds : 1 ≤ s.maxDepth ∧ s.maxDepth ≤ supportedDepth stack
  exponent_bound : 0 ≤ s.maxIntExponent

section
variable {given : List (String × Value)} {env : List (String × String)} {f : Field} {v : Value}
  {stack : Int}

theorem mem_present {entry : String × Value} :
    entry ∈ present given ↔ entry ∈ given ∧ entry.2 ≠ .absent := by
  simp [present]

theorem isVariable_iff {name : String} :
    (declaration stack).isVariable f name = true ↔ IsVariable f name := by
  simp [Declaration.isVariable, declaration, IsVariable]

theorem not_mem_present_iff {name : String} :
    (∀ v, (name, v) ∉ present given) ↔ ∀ v, (name, v) ∈ given → v = .absent := by
  simp [mem_present]

theorem exists_selected (given : List (String × Value)) (env : List (String × String))
    (f : Field) : ∃ v, Selected given env f v := by
  by_cases hgiven : ∃ v, (f.name, v) ∈ given ∧ v ≠ .absent
  · obtain ⟨v, hmem, hpresent⟩ := hgiven
    exact ⟨v, .given hmem hpresent⟩
  · have habsent : ∀ v, (f.name, v) ∈ given → v = .absent := by
      simpa using hgiven
    by_cases henv : ∃ entry ∈ env, IsVariable f entry.1
    · obtain ⟨⟨name, text⟩, hmem, hname⟩ := henv
      exact ⟨_, .environment habsent hmem hname⟩
    · exact ⟨_, .default habsent (by simpa using henv)⟩

/-- The library selects among the values that are present. -/
theorem Selected.selects (henv : Unambiguous env) (h : Selected given env f v) :
    (declaration stack).Selects (present given) env f v := by
  cases h with
  | given hgiven hpresent => exact .given (mem_present.mpr ⟨hgiven, hpresent⟩)
  | @environment name text hgiven hmem hname =>
    refine .environment (not_mem_present_iff.mpr hgiven) hmem (isVariable_iff.mpr hname)
      fun other hother hothername => ?_
    exact henv f other hother _ hmem (isVariable_iff.mp hothername) hname
  | default hgiven hnone =>
    refine .default (not_mem_present_iff.mpr hgiven) fun entry hentry => ?_
    rw [← Bool.not_eq_true, isVariable_iff]
    exact hnone entry hentry

theorem admits_depth_iff {i : Int} : (declaration stack).Admits Field.maxDepth i ↔
    1 ≤ i ∧ i ≤ supportedDepth stack := by
  have hvalidate : (declaration stack).validate Field.maxDepth i = .ok () ↔
      i ≤ supportedDepth stack := by
    change fitsCallStack stack i = .ok () ↔ _
    simp only [fitsCallStack]
    split <;> simp_all
  exact ⟨fun h => ⟨h.bounds, hvalidate.mp h.validated⟩, fun h => ⟨h.1, hvalidate.mpr h.2⟩⟩

theorem admits_exponent_iff {i : Int} :
    (declaration stack).Admits Field.maxIntExponent i ↔ 0 ≤ i :=
  ⟨fun h => h.bounds, fun h => ⟨h, rfl⟩⟩

end

section
variable {library : Library} {given : List (String × Value)} {env : List (String × String)}
  {stack : Int} {s : Settings}

/-- Nothing that the name of a field is given for is asked of the library itself. -/
theorem name_not_mem_options (hlibrary : library.Lawful) (f : Field) : f.name ∉ library.options :=
  fun hoption => (declaration 0).notHidden f (hlibrary.underscored _ hoption)

theorem ordinary_present (h : library.Ordinary given) : library.Ordinary (present given) where
  distinct := h.distinct.sublist (List.filter_sublist.map _)
  noOption entry hentry := h.noOption entry (mem_present.mp hentry).1

theorem make_eq (hreserved : ∀ v, ("cls", v) ∉ given) :
    make library stack given env =
      match library.construct (declaration stack) (present given) env with
      | .ok r => .ok (ofRecord r)
      | .error refusal => .error (.refused refusal) := by
  unfold make
  exact if_neg (by simpa using hreserved)

theorem make_eq_ok_iff (hreserved : ∀ v, ("cls", v) ∉ given) :
    make library stack given env = .ok s ↔
      ∃ r, library.construct (declaration stack) (present given) env = .ok r ∧ ofRecord r = s := by
  rw [make_eq hreserved]
  cases library.construct (declaration stack) (present given) env <;> simp

/-- A parser takes the depth limit of settings over as it is. -/
theorem parser_limit (hbound : s.maxDepth ≤ supportedDepth stack) {tokens : List Token}
    (h : Grammar.Terminated tokens) :
    ∃ p : Parser, Expression.parser tokens (s.limits stack) = .ok p ∧ p.limit = s.maxDepth := by
  obtain ⟨eof, more, -, -, hparser⟩ := Grammar.parser_eq h
  exact ⟨_, hparser _, min_eq_left hbound⟩

section
variable (hlibrary : library.Lawful) (hgiven : library.Ordinary given)
  (hreserved : ∀ v, ("cls", v) ∉ given)
include hlibrary hgiven hreserved

theorem bounds_of_make (h : make library stack given env = .ok s) :
    (1 ≤ s.maxDepth ∧ s.maxDepth ≤ supportedDepth stack) ∧ 0 ≤ s.maxIntExponent := by
  obtain ⟨r, hr, rfl⟩ := (make_eq_ok_iff hreserved).mp h
  have hchecked := hlibrary.checked (ordinary_present hgiven) hr
  exact ⟨admits_depth_iff.mp (hchecked Field.maxDepth),
    admits_exponent_iff.mp (hchecked Field.maxIntExponent)⟩

theorem value_of_make (henv : Unambiguous env) (h : make library stack given env = .ok s)
    {f : Field} {v : Value} (hv : Selected given env f v) :
    library.coerce f.type v = some (s.value f) := by
  obtain ⟨r, hr, rfl⟩ := (make_eq_ok_iff hreserved).mp h
  have hvalue : (ofRecord r).value f = r f := by cases f <;> rfl
  rw [hvalue]
  exact hlibrary.selected (ordinary_present hgiven) hr (hv.selects henv)

theorem accepted_of_make (henv : Unambiguous env) (h : make library stack given env = .ok s) :
    Accepted library stack given env s := by
  obtain ⟨hdepth, hexponent⟩ := bounds_of_make hlibrary hgiven hreserved h
  refine ⟨fun name v hmem hv => ?_, fun f => ?_, hdepth, hexponent⟩
  · obtain ⟨r, hr, -⟩ := (make_eq_ok_iff hreserved).mp h
    exact hlibrary.known (ordinary_present hgiven) hr (name, v) (mem_present.mpr ⟨hmem, hv⟩)
  · obtain ⟨v, hv⟩ := exists_selected given env f
    exact ⟨v, hv, value_of_make hlibrary hgiven hreserved henv h hv⟩

theorem make_of_accepted (henv : Unambiguous env) (h : Accepted library stack given env s) :
    make library stack given env = .ok s := by
  have hadmits : ∀ f : Field, (declaration stack).Admits f (s.value f) := by
    intro f
    cases f with
    | filename => exact ⟨trivial, rfl⟩
    | maxDepth => exact admits_depth_iff.mpr h.depth_bounds
    | maxIntExponent => exact admits_exponent_iff.mpr h.exponent_bound
  have hknown : ∀ entry ∈ present given, ∃ f, (declaration stack).name f = entry.1 := by
    intro entry hentry
    obtain ⟨hmem, hpresent⟩ := mem_present.mp hentry
    exact h.known entry.1 entry.2 hmem hpresent
  obtain ⟨r, hr⟩ := hlibrary.accepts (ordinary_present hgiven) hknown fun f => by
    obtain ⟨v, hv, hcoerce⟩ := h.fields f
    exact ⟨v, _, hv.selects henv, hcoerce, hadmits f⟩
  have hmake : make library stack given env = .ok (ofRecord r) :=
    (make_eq_ok_iff hreserved).mpr ⟨r, hr, rfl⟩
  -- both have what the selected values are taken for
  have hsame : ∀ f, (ofRecord r).value f = s.value f := by
    intro f
    obtain ⟨v, hv, hcoerce⟩ := h.fields f
    have hvalue := value_of_make hlibrary hgiven hreserved henv hmake hv
    exact Option.some.inj (hvalue.symm.trans hcoerce)
  rw [hmake]
  obtain ⟨filename, maxDepth, maxIntExponent⟩ := s
  exact congrArg Except.ok (Settings.mk.injEq .. ▸ ⟨hsame .filename, hsame .maxDepth,
    hsame .maxIntExponent⟩)

theorem make_of_depth (henv : Unambiguous env) {v : Value}
    (hv : Selected given env .maxDepth v)
    (hbounds : ∀ i, library.integer v = some i → ¬ (1 ≤ i ∧ i ≤ supportedDepth stack)) :
    ∃ problems report, make library stack given env = .error (.refused (.invalid problems report)) ∧
      ∃ p ∈ problems, p.field = "max_depth" := by
  cases hconstruct : library.construct (declaration stack) (present given) env with
  | ok r =>
    have hmake : make library stack given env = .ok (ofRecord r) :=
      (make_eq_ok_iff hreserved).mpr ⟨r, hconstruct, rfl⟩
    have hvalue := value_of_make hlibrary hgiven hreserved henv hmake hv
    exact absurd (bounds_of_make hlibrary hgiven hreserved hmake).1 (hbounds _ hvalue)
  | error e =>
    obtain ⟨problems, report, rfl⟩ := hlibrary.invalid (ordinary_present hgiven) hconstruct
    refine ⟨problems, report, by rw [make_eq hreserved, hconstruct], ?_⟩
    refine hlibrary.listed (ordinary_present hgiven) hconstruct (hv.selects henv) ?_
    intro i hi hadmits
    exact hbounds i hi (admits_depth_iff.mp hadmits)

end

end

/-- With any library that follows its laws, settings come about exactly if every field has an
acceptable value: the one given, or else that of its variable, or else the default. A parser then
has their depth limit, and does not lower it. A selected depth beyond the bounds is always
reported. -/
theorem make_faithful {library : Library} (hlibrary : library.Lawful)
    {given : List (String × Value)} (hgiven : library.Ordinary given)
    (hreserved : ∀ v, ("cls", v) ∉ given) {env : List (String × String)}
    (henv : Unambiguous env) (stack : Int) :
    (∀ s, make library stack given env = .ok s ↔ Accepted library stack given env s) ∧
    (∀ s, make library stack given env = .ok s → ∀ tokens, Grammar.Terminated tokens →
      ∃ p : Parser, Expression.parser tokens (s.limits stack) = .ok p ∧ p.limit = s.maxDepth) ∧
    ∀ v, Selected given env .maxDepth v →
      (∀ i, library.integer v = some i → ¬ (1 ≤ i ∧ i ≤ supportedDepth stack)) →
      ∃ problems report,
        make library stack given env = .error (.refused (.invalid problems report)) ∧
        ∃ p ∈ problems, p.field = "max_depth" := by
  refine ⟨fun s => ⟨?_, ?_⟩, fun s hs tokens htokens => ?_, fun v hv hbounds => ?_⟩
  · exact accepted_of_make hlibrary hgiven hreserved henv
  · exact make_of_accepted hlibrary hgiven hreserved henv
  · exact parser_limit (bounds_of_make hlibrary hgiven hreserved hs).1.2 htokens
  · exact make_of_depth hlibrary hgiven hreserved henv hv hbounds

section
private def loneEnd : Token := .spanning "" .eof 0 0

/-- A name, and a depth that is given as absent. -/
private def sparse : List (String × Value) := [("filename", .text "f"), ("max_depth", .absent)]

private def shouted : List (String × String) := [("arithexpr_Max_Depth", "12")]

/-- On a small call stack the depth comes from the variable; without one, the default is beyond
the bounds and refused. -/
theorem make_faithful_smallStack :
    (Library.plain.Lawful ∧ Library.plain.Ordinary sparse ∧ (∀ v, ("cls", v) ∉ sparse) ∧
      Unambiguous shouted ∧ Unambiguous []) ∧
    make .plain 300 sparse shouted = .ok ⟨"f", 12, 10000⟩ ∧
    Accepted .plain 300 sparse shouted ⟨"f", 12, 10000⟩ ∧
    (∃ p : Parser, Expression.parser [loneEnd] ⟨12, 10000, 300⟩ = .ok p ∧ p.limit = 12) ∧
    ∃ problems report,
      make .plain 300 sparse [] = .error (.refused (.invalid problems report)) ∧
      ∃ p ∈ problems, p.field = "max_depth" := by
  have hordinary : Library.plain.Ordinary sparse := ⟨by decide, by decide⟩
  have hreserved : ∀ v, ("cls", v) ∉ sparse := by simp [sparse]
  have hone : Unambiguous shouted := by
    intro f a ha b hb _ _
    rw [List.mem_singleton.mp ha, List.mem_singleton.mp hb]
  have hnone : Unambiguous [] := by
    intro f a ha
    cases ha
  have hmake : make .plain 300 sparse shouted = .ok ⟨"f", 12, 10000⟩ := by decide +kernel
  obtain ⟨hiff, hparser, -⟩ := make_faithful Library.lawful_plain hordinary hreserved hone 300
  obtain ⟨-, -, hdepth⟩ := make_faithful Library.lawful_plain hordinary hreserved hnone 300
  have hdefault : Selected sparse [] .maxDepth (.int 100) :=
    .default (by simp [sparse, Field.name]) (by simp)
  refine ⟨⟨Library.lawful_plain, hordinary, hreserved, hone, hnone⟩, hmake, (hiff _).mp hmake,
    hparser _ hmake [loneEnd] ⟨loneEnd, rfl, rfl⟩, hdepth _ hdefault fun i hi => ?_⟩
  obtain rfl : (100 : Int) = i := Option.some.inj hi
  decide

end

/-- With another start of variables asked for, the variable with the usual one does not count; and
a reserved name is a fault of its own, even if the depth is beyond its bounds. -/
theorem make_otherPrefix :
    IsVariable .maxDepth "ARITHEXPR_MAX_DEPTH" ∧ Library.plain.integer (.text "13") = some 13 ∧
    make .plain 1000 [("_env_prefix", .text "OTHER_")]
      [("ARITHEXPR_MAX_DEPTH", "13"), ("OTHER_MAX_DEPTH", "12")] = .ok ⟨"<stdin>", 12, 10000⟩ ∧
    ∀ library, make library 1000 [("cls", .int 1), ("max_depth", .int 0)] [] =
      .error .reservedName :=
  ⟨by unfold IsVariable; decide +kernel, by decide +kernel, by decide +kernel, fun _ => rfl⟩

end Reckon.Settings
