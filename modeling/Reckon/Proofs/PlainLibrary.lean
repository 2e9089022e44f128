import Mathlib.Data.List.Basic
import Mathlib.Tactic.Choose
import Reckon.Settings.Library
import Reckon.Text.Integer

/-!
A small library of settings that follows the laws. It looks a value up in one place after the
other, and lists whatever it does not accept. One option changes how variables are named.
-/

namespace Reckon.Settings.Library

instance : (t : FieldType) → (x : t.Carrier) → Decidable (t.Admits x)
  | .text, _ => isTrue trivial
  | .integer least, i => Int.decLe least i

instance (d : Declaration) (f : d.Field) (x : (d.type f).Carrier) : Decidable (d.Admits f x) :=
  decidable_of_iff ((d.type f).Admits x ∧ d.validate f x = .ok ())
    ⟨fun h => ⟨h.1, h.2⟩, fun h => ⟨h.bounds, h.validated⟩⟩

/-- Only texts and whole numbers are taken, and of texts those that are digits. -/
def plainCoerce : (t : FieldType) → Value → Option t.Carrier
  | .text, .text s => some s
  | .integer _, .int i => some i
  | .integer _, .text s => Text.integer? s
  | _, _ => none

section
variable (d : Declaration) (given : List (String × Value)) (env : List (String × String))

/-- The value for a field: a given one, or else one from the environment, or else the default. -/
def pick (f : d.Field) : Value :=
  match given.lookup (d.name f) with
  | some v => v
  | none => match env.find? fun entry => d.isVariable f entry.1 with
    | some entry => .text entry.2
    | none => (d.type f).toValue (d.default f)

def accept? (f : d.Field) : Option (d.type f).Carrier :=
  (plainCoerce (d.type f) (pick d given env f)).filter (d.Admits f ·)

/-- The fields with a value that is not acceptable, and given names that are no fields. -/
def refused : List String :=
  ((d.fields.filter fun f => (accept? d given env f).isNone).map d.name) ++
    (given.map Prod.fst).filter fun name => !d.fields.any (d.name · == name)

def plainConstruct : Except Refusal d.Record :=
  match refused d given env with
  | [] => .ok fun f => (accept? d given env f).getD (d.default f)
  | names => .error (.invalid (names.map (⟨·, "refused", "not acceptable"⟩))
      (String.intercalate ", " names))

end

/-- A library with one option, which names the start of variables. -/
def plain : Library where
  options := ["_env_prefix"]
  text v := plainCoerce .text v
  integer v := plainCoerce (.integer 0) v
  construct d given env :=
    let start := match given.lookup "_env_prefix" with
      | some (.text s) => s
      | _ => d.start
    plainConstruct { d with start } (given.filter (·.1 != "_env_prefix")) env

theorem coerce_plain (t : FieldType) (v : Value) : plain.coerce t v = plainCoerce t v := by
  cases t with
  | text => rfl
  | integer least => cases v <;> rfl

section
variable {d : Declaration} {given : List (String × Value)} {env : List (String × String)}
  {f : d.Field} {v : Value}

theorem lookup_eq_none_of_not_mem {name : String} (h : ∀ v, (name, v) ∉ given) :
    given.lookup name = none := by
  rw [List.lookup_eq_none_iff]
  rintro ⟨other, v⟩ hmem
  rw [bne_iff_ne]
  rintro rfl
  exact h v hmem

/-- With no name given twice, a value is looked up if it is given. -/
theorem lookup_of_mem {name : String} (hdistinct : (given.map Prod.fst).Nodup)
    (h : (name, v) ∈ given) : given.lookup name = some v := by
  induction given with
  | nil => cases h
  | cons entry given ih =>
    obtain ⟨hother, hrest⟩ := List.nodup_cons.mp hdistinct
    rcases List.mem_cons.mp h with rfl | hmem
    · exact List.lookup_cons_self
    · have hname : (name == entry.1) = false := by
        rw [beq_eq_false_iff_ne]
        rintro rfl
        exact hother (List.mem_map.mpr ⟨_, hmem, rfl⟩)
      rw [List.lookup_cons, hname, ih hrest hmem]

theorem pick_of_selects (hdistinct : (given.map Prod.fst).Nodup)
    (h : d.Selects given env f v) : pick d given env f = v := by
  unfold pick
  cases h with
  | given hgiven => rw [lookup_of_mem hdistinct hgiven]
  | environment hgiven hmem hname hunique =>
    rw [lookup_eq_none_of_not_mem hgiven]
    dsimp only
    cases hfind : env.find? fun entry => d.isVariable f entry.1 with
    | none =>
      have hother := List.find?_eq_none.mp hfind _ hmem
      exact absurd hname hother
    | some entry =>
      have hvariable := List.find?_some hfind
      rw [hunique entry (List.mem_of_find?_eq_some hfind) hvariable]
  | default hgiven hnone =>
    have hfind : (env.find? fun entry => d.isVariable f entry.1) = none :=
      List.find?_eq_none.mpr fun entry hentry => by rw [hnone entry hentry]; decide
    rw [lookup_eq_none_of_not_mem hgiven, hfind]

theorem accept?_eq_some_iff {x : (d.type f).Carrier} : accept? d given env f = some x ↔
    plainCoerce (d.type f) (pick d given env f) = some x ∧ d.Admits f x := by
  simp [accept?, Option.filter_eq_some_iff]

theorem accept?_eq_none_iff : accept? d given env f = none ↔
    ∀ x, plainCoerce (d.type f) (pick d given env f) = some x → ¬ d.Admits f x := by
  simp [accept?, Option.filter_eq_none_iff]

theorem mem_refused : d.name f ∈ refused d given env ↔ accept? d given env f = none := by
  have hfield : (d.fields.any fun g => d.name g == d.name f) = true :=
    List.any_eq_true.mpr ⟨f, d.complete f, beq_self_eq_true _⟩
  constructor
  · intro h
    rcases List.mem_append.mp h with hmem | hmem
    · obtain ⟨g, hg, hname⟩ := List.mem_map.mp hmem
      obtain rfl := d.distinct g f hname
      simpa using (List.mem_filter.mp hg).2
    · simp [hfield] at hmem
  · intro h
    refine List.mem_append_left _ (List.mem_map_of_mem (List.mem_filter.mpr ⟨d.complete f, ?_⟩))
    rw [h]
    rfl

theorem refused_eq_nil_iff : refused d given env = [] ↔
    (∀ f, accept? d given env f ≠ none) ∧ ∀ entry ∈ given, ∃ f, d.name f = entry.1 := by
  have hunknown : ((given.map Prod.fst).filter fun name => !d.fields.any (d.name · == name)) = [] ↔
      ∀ entry ∈ given, ∃ f, d.name f = entry.1 := by
    simp only [List.filter_eq_nil_iff, List.forall_mem_map, Bool.not_eq_true', Bool.not_eq_false,
      List.any_eq_true, beq_iff_eq]
    exact forall₂_congr fun entry _ =>
      ⟨fun ⟨f, _, hf⟩ => ⟨f, hf⟩, fun ⟨f, hf⟩ => ⟨f, d.complete f, hf⟩⟩
  rw [refused, List.append_eq_nil_iff, hunknown, List.map_eq_nil_iff, List.filter_eq_nil_iff]
  refine and_congr_left fun _ => ⟨fun h f => ?_, fun h f _ => ?_⟩
  · simpa using h f (d.complete f)
  · simpa using h f

theorem plainConstruct_eq_ok_iff {r : d.Record} : plainConstruct d given env = .ok r ↔
    (∀ f, accept? d given env f = some (r f)) ∧ ∀ entry ∈ given, ∃ f, d.name f = entry.1 := by
  unfold plainConstruct
  cases hrefused : refused d given env with
  | nil =>
    obtain ⟨haccept, hknown⟩ := refused_eq_nil_iff.mp hrefused
    constructor
    · intro h
      obtain rfl := Except.ok.inj h
      refine ⟨fun f => ?_, hknown⟩
      obtain ⟨x, hx⟩ := Option.ne_none_iff_exists'.mp (haccept f)
      dsimp only
      rw [hx, Option.getD_some]
    · rintro ⟨h, -⟩
      exact congrArg Except.ok (funext fun f => by rw [h f]; rfl)
  | cons name names =>
    constructor
    · intro h
      cases h
    · rintro ⟨h, hknown⟩
      have hnil := refused_eq_nil_iff.mpr ⟨fun f => by rw [h f]; nofun, hknown⟩
      rw [hrefused] at hnil
      cases hnil

theorem plainConstruct_eq_error {e : Refusal} (h : plainConstruct d given env = .error e) :
    ∃ report,
      e = .invalid ((refused d given env).map (⟨·, "refused", "not acceptable"⟩)) report := by
  unfold plainConstruct at h
  cases hrefused : refused d given env with
  | nil =>
    rw [hrefused] at h
    cases h
  | cons name names =>
    rw [hrefused] at h
    exact ⟨_, (Except.error.inj h).symm⟩

theorem construct_plain (h : plain.Ordinary given) :
    plain.construct d given env = plainConstruct d given env := by
  have hoption : ∀ v, ("_env_prefix", v) ∉ given := fun v hmem =>
    h.noOption _ hmem List.mem_cons_self
  have hfilter : given.filter (·.1 != "_env_prefix") = given := by
    refine List.filter_eq_self.mpr fun ⟨name, v⟩ hentry => ?_
    rw [bne_iff_ne]
    rintro rfl
    exact hoption v hentry
  simp only [plain]
  rw [hfilter, lookup_eq_none_of_not_mem hoption]

end

theorem lawful_plain : plain.Lawful where
  underscored name hname := by
    obtain rfl := List.mem_singleton.mp hname
    rfl
  text_text s := rfl
  integer_int i := rfl
  selected {d given env r f v} hgiven hr hv := by
    rw [construct_plain hgiven] at hr
    obtain ⟨hcoerce, -⟩ := accept?_eq_some_iff.mp ((plainConstruct_eq_ok_iff.mp hr).1 f)
    rwa [pick_of_selects hgiven.distinct hv, ← coerce_plain] at hcoerce
  checked {d given env r} hgiven hr f := by
    rw [construct_plain hgiven] at hr
    exact (accept?_eq_some_iff.mp ((plainConstruct_eq_ok_iff.mp hr).1 f)).2
  known {d given env r} hgiven hr := by
    rw [construct_plain hgiven] at hr
    exact (plainConstruct_eq_ok_iff.mp hr).2
  accepts {d given env} hgiven hknown hfields := by
    choose v x hv hcoerce hadmits using hfields
    refine ⟨x, (construct_plain hgiven).trans (plainConstruct_eq_ok_iff.mpr ⟨fun f => ?_, hknown⟩)⟩
    refine accept?_eq_some_iff.mpr ⟨?_, hadmits f⟩
    rw [pick_of_selects hgiven.distinct (hv f), ← coerce_plain, hcoerce f]
  invalid {d given env e} hgiven he := by
    rw [construct_plain hgiven] at he
    obtain ⟨report, rfl⟩ := plainConstruct_eq_error he
    exact ⟨_, report, rfl⟩
  listed {d given env f v problems report} hgiven he hv hrefused := by
    rw [construct_plain hgiven] at he
    obtain ⟨_, heq⟩ := plainConstruct_eq_error he
    obtain ⟨rfl, -⟩ := Refusal.invalid.inj heq
    have hnone : accept? d given env f = none := by
      rw [accept?_eq_none_iff, pick_of_selects hgiven.distinct hv, ← coerce_plain]
      exact hrefused
    exact ⟨_, List.mem_map_of_mem (mem_refused.mpr hnone), rfl⟩

end Reckon.Settings.Library
