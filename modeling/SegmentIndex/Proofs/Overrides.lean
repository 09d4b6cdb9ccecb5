import Mathlib.Data.List.Induction
import Mathlib.Data.Nat.Digits.Defs
import SegmentIndex.Config

/-!
# What overrides come to

Variables are taken in order. One without the mark is passed over; one that names a field gives it
the value that its text means; any other ends the run before it has done anything
(`Config.override_cases`).

So the variables in front of the first one that is not in order decide, and among those that name a
field the last one does, whatever the variables for the other field say (`Config.overrides_layer`).
Whether the hash algorithm asked for exists is found out when the configuration is resolved, and no
sooner.
-/

namespace SegmentIndex

/-- The names by which an algorithm can be asked for, in lower case. -/
def HashAlgorithm.names : HashAlgorithm → List String
  | .xxh3 => ["xxhash3", "xxh3"]
  | .xxh64 => ["xxhash64", "xxh64"]

/-- A text asks for an algorithm by one of its names, in any case. -/
def HashAlgorithm.IsCalled (a : HashAlgorithm) (text : String) : Prop :=
  ∃ name ∈ a.names, text.toList.map Char.toLower = name.toList

theorem HashAlgorithm.parse?_eq_some_iff {text : String} {a : HashAlgorithm} :
    parse? text = some a ↔ a.IsCalled text := by
  unfold parse? IsCalled
  generalize text.toList.map Char.toLower = lowered
  dsimp only
  split
  · rename_i h
    cases a with
    | xxh3 => simpa [names] using h
    | xxh64 => rcases h with rfl | rfl <;> simp [names]
  · rename_i h₃
    split
    · rename_i h
      cases a with
      | xxh3 => rcases h with rfl | rfl <;> simp [names]
      | xxh64 => simpa [names] using h
    · rename_i h₆₄
      cases a with
      | xxh3 => simpa [names] using h₃
      | xxh64 => simpa [names] using h₆₄

namespace Config

open Text.Blank (trim)

/-! ## Numbers -/

/-- Decimal digits, at least one, stand for a number of 64 bits. -/
def IsNumeral (digits : List Char) (n : Nat) : Prop :=
  digits ≠ [] ∧ (∀ c ∈ digits, c.isDigit) ∧
    n = Nat.ofDigits 10 (digits.reverse.map (·.toNat - 48)) ∧ n < 2 ^ 64

/-- A text spells a number: as digits, perhaps with a plus sign in front. -/
def Spells (text : String) (n : Nat) : Prop :=
  IsNumeral text.toList n ∨ ∃ digits, text.toList = '+' :: digits ∧ IsNumeral digits n

theorem foldl_digits (digits : List Char) :
    digits.foldl (fun n c => 10 * n + (c.toNat - 48)) 0
      = Nat.ofDigits 10 (digits.reverse.map (·.toNat - 48)) := by
  induction digits using List.reverseRecOn with
  | nil => rfl
  | append_singleton digits c ih =>
      rw [List.foldl_append, ih, List.reverse_append]
      exact Nat.add_comm _ _

theorem read_eq_some_iff {digits : List Char} {n : Nat} :
    (if digits.isEmpty || !digits.all Char.isDigit then none
      else
        let n := digits.foldl (fun n c => 10 * n + (c.toNat - 48)) 0
        if n ≤ maxThreshold then some n else none) = some n ↔ IsNumeral digits n := by
  have hcond : (digits.isEmpty || !digits.all Char.isDigit) = true
      ↔ ¬ (digits ≠ [] ∧ ∀ c ∈ digits, c.isDigit) := by
    simp [List.isEmpty_iff, imp_iff_not_or]
  unfold IsNumeral
  rw [foldl_digits]
  split
  · rename_i h
    constructor
    · intro hn
      cases hn
    · rintro ⟨hne, hall, -⟩
      exact absurd ⟨hne, hall⟩ (hcond.mp h)
  · rename_i h
    obtain ⟨hne, hall⟩ := not_not.mp (mt hcond.mpr h)
    rw [Option.ite_none_right_eq_some, Option.some.injEq, and_iff_right hne, and_iff_right hall]
    constructor
    · rintro ⟨hle, rfl⟩
      exact ⟨rfl, Nat.lt_succ_of_le hle⟩
    · rintro ⟨rfl, hlt⟩
      exact ⟨Nat.le_of_lt_succ hlt, rfl⟩

theorem threshold?_eq_some_iff {text : String} {n : Nat} :
    threshold? text = some n ↔ Spells text n := by
  unfold threshold? Spells
  split
  · rename_i digits htext
    rw [htext, read_eq_some_iff]
    constructor
    · intro h
      exact .inr ⟨digits, rfl, h⟩
    · rintro (⟨-, hall, -⟩ | ⟨digits', hcons, h⟩)
      · -- a sign is not a digit
        exact absurd (hall '+' List.mem_cons_self) (by decide)
      · cases hcons
        exact h
  · rename_i hplus
    rw [read_eq_some_iff]
    constructor
    · exact .inl
    · rintro (h | ⟨digits, htext, -⟩)
      · exact h
      · exact absurd htext (hplus digits)

/-! ## Names -/

/-- The name of a variable starts with the mark. -/
def IsMarked (name : String) : Prop := overrideMark.toList <+: name.toList

instance : DecidablePred IsMarked := fun _ => inferInstanceAs (Decidable (_ <+: _))

/-- What the mark is followed by in the name of a variable for a field, in lower case. -/
def Field.path : Field → String
  | .offloadThreshold => "writer__offload_threshold"
  | .hashAlgorithm => "writer__hash_algorithm"

/-- A name names a field: it has the mark, and the rest is the field's path in any case. -/
def Names (name : String) (f : Field) : Prop :=
  ∃ rest, name.toList = overrideMark.toList ++ rest ∧ rest.map Char.toLower = f.path.toList

theorem unmark?_eq_some_iff {name : String} {rest : List Char} :
    unmark? name = some rest ↔ name.toList = overrideMark.toList ++ rest := by
  unfold unmark?
  rw [Option.ite_none_right_eq_some, Option.some.injEq, List.isPrefixOf_iff_prefix,
    List.prefix_iff_eq_append]
  constructor
  · rintro ⟨hname, rfl⟩
    exact hname.symm
  · intro hname
    rw [hname, List.drop_left]
    exact ⟨rfl, rfl⟩

theorem isMarked_iff {name : String} : IsMarked name ↔ ∃ rest, unmark? name = some rest := by
  simp only [unmark?_eq_some_iff, IsMarked, List.prefix_iff_exists_eq_append]

theorem Field.ofName?_eq_some_iff {rest : List Char} {f : Field} :
    ofName? rest = some f ↔ rest.map Char.toLower = f.path.toList := by
  unfold ofName?
  generalize rest.map Char.toLower = lowered
  dsimp only
  split
  · rename_i h
    subst h
    cases f <;> decide
  · rename_i hthreshold
    split
    · rename_i h
      subst h
      cases f <;> decide
    · rename_i halgorithm
      cases f with
      | offloadThreshold => simpa [path] using hthreshold
      | hashAlgorithm => simpa [path] using halgorithm

theorem names_iff {name : String} {f : Field} :
    Names name f ↔ ∃ rest, unmark? name = some rest ∧ Field.ofName? rest = some f := by
  simp only [Names, unmark?_eq_some_iff, Field.ofName?_eq_some_iff]

theorem Names.isMarked {name : String} {f : Field} (h : Names name f) : IsMarked name := by
  obtain ⟨rest, hrest, -⟩ := names_iff.mp h
  exact isMarked_iff.mpr ⟨rest, hrest⟩

/-- A name names one field at most. -/
theorem Names.unique {name : String} {f g : Field} (hf : Names name f) (hg : Names name g) :
    f = g := by
  obtain ⟨rest, hrest, hf⟩ := names_iff.mp hf
  obtain ⟨rest', hrest', hg⟩ := names_iff.mp hg
  cases hrest.symm.trans hrest'
  exact Option.some.inj (hf.symm.trans hg)

/-! ## Fields -/

/-- What a field holds. -/
abbrev Field.Value : Field → Type
  | .offloadThreshold => Nat
  | .hashAlgorithm => String

/-- A text means a value for a field. Any text will do for the algorithm. -/
def Field.Means : (f : Field) → String → f.Value → Prop
  | .offloadThreshold, text, n => Spells text n
  | .hashAlgorithm, text, name => name = text

/-- The value of a field, if it has been given one. -/
def get (c : Config) : (f : Field) → Option f.Value
  | .offloadThreshold => c.writerSection.offloadThreshold
  | .hashAlgorithm => c.writerSection.hashAlgorithm

/-- The configuration with another value for a field. -/
def put (c : Config) : (f : Field) → f.Value → Config
  | .offloadThreshold, n => { writer := some { c.writerSection with offloadThreshold := some n } }
  | .hashAlgorithm, name => { writer := some { c.writerSection with hashAlgorithm := some name } }

@[simp]
theorem get_put_self (c : Config) (f : Field) (w : f.Value) : (c.put f w).get f = some w := by
  cases f <;> rfl

theorem get_put_of_ne (c : Config) {f g : Field} (w : f.Value) (h : g ≠ f) :
    (c.put f w).get g = c.get g := by
  cases f with
  | offloadThreshold =>
      cases g with
      | offloadThreshold => exact absurd rfl h
      | hashAlgorithm => rfl
  | hashAlgorithm =>
      cases g with
      | offloadThreshold => rfl
      | hashAlgorithm => exact absurd rfl h

theorem writer_put_ne_none (c : Config) (f : Field) (w : f.Value) : (c.put f w).writer ≠ none := by
  cases f <;> exact Option.some_ne_none _

theorem set_cases (c : Config) (name text : String) (f : Field) :
    (∃ w, f.Means text w ∧ c.set name text f = .ok (c.put f w)) ∨
      ((∀ w, ¬ f.Means text w) ∧ c.set name text f = .error (.invalidValue name text)) := by
  cases f with
  | offloadThreshold =>
      cases hread : threshold? text with
      | some n =>
          left
          refine ⟨n, threshold?_eq_some_iff.mp hread, ?_⟩
          simp only [set, hread, put]
      | none =>
          right
          refine ⟨fun n hn => ?_, ?_⟩
          · rw [threshold?_eq_some_iff.mpr hn] at hread
            cases hread
          · simp only [set, hread]
  | hashAlgorithm => exact .inl ⟨text, rfl, rfl⟩

/-! ## One variable -/

/-- What is wrong with a variable: its name has the mark and names no field, or its text means
nothing for the field that it names. -/
inductive Offends : String × String → ConfigError → Prop
  | unknownKey {name value : String} (hmarked : IsMarked name) (hnone : ∀ f, ¬ Names name f) :
      Offends (name, value) (.unknownKey name)
  | invalidValue {name value : String} {f : Field} (hnames : Names name f)
      (hnone : ∀ w, ¬ f.Means (trim value) w) :
      Offends (name, value) (.invalidValue name (trim value))

/-- A variable is in order: unless its name lacks the mark, it names a field, and its text means
something for that field. -/
def InOrder (v : String × String) : Prop :=
  IsMarked v.1 → ∃ f w, Names v.1 f ∧ f.Means (trim v.2) w

theorem Offends.isMarked {v : String × String} {e : ConfigError} (h : Offends v e) :
    IsMarked v.1 := by
  cases h with
  | unknownKey hmarked _ => exact hmarked
  | invalidValue hnames _ => exact hnames.isMarked

theorem Offends.not_inOrder {v : String × String} {e : ConfigError} (h : Offends v e) :
    ¬ InOrder v := by
  cases h with
  | unknownKey hmarked hnone =>
      intro hv
      obtain ⟨f, -, hf, -⟩ := hv hmarked
      exact hnone f hf
  | invalidValue hnames hnone =>
      intro hv
      obtain ⟨f, w, hf, hw⟩ := hv hnames.isMarked
      cases hf.unique hnames
      exact hnone w hw

/-- All that a variable can do. -/
theorem override_cases (c : Config) (v : String × String) :
    (¬ IsMarked v.1 ∧ c.override v.1 v.2 = .ok c) ∨
      (∃ f w, Names v.1 f ∧ f.Means (trim v.2) w ∧ c.override v.1 v.2 = .ok (c.put f w)) ∨
      ∃ e, Offends v e ∧ c.override v.1 v.2 = .error e := by
  obtain ⟨name, value⟩ := v
  dsimp only
  cases hmark : unmark? name with
  | none =>
      left
      refine ⟨fun hname => ?_, by simp only [override, hmark]⟩
      obtain ⟨rest, hrest⟩ := isMarked_iff.mp hname
      cases hmark.symm.trans hrest
  | some rest =>
      right
      cases hfield : Field.ofName? rest with
      | none =>
          right
          refine ⟨_, .unknownKey (isMarked_iff.mpr ⟨rest, hmark⟩) (fun f hf => ?_),
            by simp only [override, hmark, hfield]⟩
          obtain ⟨rest', hrest', hf⟩ := names_iff.mp hf
          cases hmark.symm.trans hrest'
          cases hfield.symm.trans hf
      | some f =>
          have hnames : Names name f := names_iff.mpr ⟨rest, hmark, hfield⟩
          have hstep : c.override name value = c.set name (trim value) f := by
            simp only [override, hmark, hfield]
          rw [hstep]
          rcases c.set_cases name (trim value) f with ⟨w, hw, hset⟩ | ⟨hnone, hset⟩
          · exact .inl ⟨f, w, hnames, hw, hset⟩
          · exact .inr ⟨_, .invalidValue hnames hnone, hset⟩

/-! ## A run of variables -/

section Run

variable {c d : Config} {v : String × String} {vars : List (String × String)}

/-- **All that the first variable of a run can do**, whatever comes after it. -/
theorem applyOverrides_cons_cases (c : Config) (v : String × String) :
    (¬ IsMarked v.1 ∧ ∀ vars, c.applyOverrides (v :: vars) = c.applyOverrides vars) ∨
      (∃ f w, Names v.1 f ∧ f.Means (trim v.2) w ∧
        ∀ vars, c.applyOverrides (v :: vars) = (c.put f w).applyOverrides vars) ∨
      ∃ e, Offends v e ∧ ∀ vars, c.applyOverrides (v :: vars) = (c, some e) := by
  rcases c.override_cases v with ⟨hno, hstep⟩ | ⟨f, w, hf, hw, hstep⟩ | ⟨e, he, hstep⟩
  · exact .inl ⟨hno, fun vars => by simp only [applyOverrides, hstep]⟩
  · exact .inr (.inl ⟨f, w, hf, hw, fun vars => by simp only [applyOverrides, hstep]⟩)
  · exact .inr (.inr ⟨e, he, fun vars => by simp only [applyOverrides, hstep]⟩)

theorem applyOverrides_filter_isMarked (c : Config) (vars : List (String × String)) :
    c.applyOverrides (vars.filter (IsMarked ·.1)) = c.applyOverrides vars := by
  induction vars generalizing c with
  | nil => rfl
  | cons v vars ih =>
      rcases c.applyOverrides_cons_cases v with ⟨hno, hrun⟩ | ⟨f, w, hf, -, hrun⟩ | ⟨e, he, hrun⟩
      · rw [List.filter_cons_of_neg (by simpa using hno), hrun, ih]
      · rw [List.filter_cons_of_pos (by simpa using hf.isMarked), hrun, hrun, ih]
      · rw [List.filter_cons_of_pos (by simpa using he.isMarked), hrun, hrun]

theorem applyOverrides_eq_none_iff :
    (c.applyOverrides vars).2 = none ↔ ∀ v ∈ vars, InOrder v := by
  induction vars generalizing c with
  | nil => simp [applyOverrides]
  | cons v vars ih =>
      rw [List.forall_mem_cons]
      rcases c.applyOverrides_cons_cases v with ⟨hno, hrun⟩ | ⟨f, w, hf, hw, hrun⟩ | ⟨e, he, hrun⟩
      · rw [hrun, ih]
        exact (and_iff_right fun hmarked => absurd hmarked hno).symm
      · rw [hrun, ih]
        exact (and_iff_right fun _ => ⟨f, w, hf, hw⟩).symm
      · rw [hrun]
        exact iff_of_false (Option.some_ne_none e) fun h => he.not_inOrder h.1

/-- A run that ends early has done what the variables in front of the first offending one do. -/
theorem exists_offends_of_applyOverrides {e : ConfigError}
    (h : c.applyOverrides vars = (d, some e)) :
    ∃ before v after, vars = before ++ v :: after ∧ c.applyOverrides before = (d, none) ∧
      Offends v e := by
  induction vars generalizing c with
  | nil => cases h
  | cons v vars ih =>
      -- a variable that does not end the run goes in front of those that the rest begins with
      have later {c' : Config}
          (hrun : ∀ vars, c.applyOverrides (v :: vars) = c'.applyOverrides vars) :
          ∃ before u after, v :: vars = before ++ u :: after ∧
            c.applyOverrides before = (d, none) ∧ Offends u e := by
        obtain ⟨before, u, after, hvars, hbefore, hu⟩ := ih ((hrun vars).symm.trans h)
        exact ⟨v :: before, u, after, congrArg (v :: ·) hvars, (hrun before).trans hbefore, hu⟩
      rcases c.applyOverrides_cons_cases v with ⟨-, hrun⟩ | ⟨f, w, -, -, hrun⟩ | ⟨e', he, hrun⟩
      · exact later hrun
      · exact later hrun
      · rw [hrun] at h
        cases h
        exact ⟨[], v, vars, rfl, rfl, he⟩

/-- What a field comes to: the value that the last variable for it means, or what it was if there
is no such variable. -/
inductive ComesTo (c : Config) (f : Field) : List (String × String) → Option f.Value → Prop
  | kept {vars : List (String × String)} (hnone : ∀ v ∈ vars, ¬ Names v.1 f) :
      ComesTo c f vars (c.get f)
  | last {before after : List (String × String)} {v : String × String} {w : f.Value}
      (hnames : Names v.1 f) (hmeans : f.Means (trim v.2) w) (hlast : ∀ u ∈ after, ¬ Names u.1 f) :
      ComesTo c f (before ++ v :: after) (some w)

theorem ComesTo.cons_of_not_names {f : Field} {x : Option f.Value} (h : ComesTo d f vars x)
    (hget : d.get f = c.get f) (hv : ¬ Names v.1 f) : ComesTo c f (v :: vars) x := by
  cases h with
  | kept hnone =>
      rw [hget]
      exact .kept (List.forall_mem_cons.mpr ⟨hv, hnone⟩)
  | last hnames hmeans hlast =>
      rw [← List.cons_append]
      exact .last hnames hmeans hlast

theorem ComesTo.cons_of_names {f : Field} {x : Option f.Value} {w : f.Value}
    (h : ComesTo d f vars x) (hget : d.get f = some w) (hv : Names v.1 f)
    (hw : f.Means (trim v.2) w) : ComesTo c f (v :: vars) x := by
  cases h with
  | kept hnone =>
      rw [hget, ← List.nil_append (v :: vars)]
      exact .last hv hw hnone
  | last hnames hmeans hlast =>
      rw [← List.cons_append]
      exact .last hnames hmeans hlast

theorem comesTo_of_applyOverrides (h : c.applyOverrides vars = (d, none)) (f : Field) :
    ComesTo c f vars (d.get f) := by
  induction vars generalizing c with
  | nil =>
      cases h
      exact .kept (List.forall_mem_nil _)
  | cons v vars ih =>
      rcases c.applyOverrides_cons_cases v with ⟨hno, hrun⟩ | ⟨g, w, hg, hw, hrun⟩ | ⟨e, -, hrun⟩
      · rw [hrun] at h
        exact (ih h).cons_of_not_names rfl fun hf => hno hf.isMarked
      · rw [hrun] at h
        by_cases hfg : f = g
        · subst hfg
          exact (ih h).cons_of_names (get_put_self c f w) hg hw
        · exact (ih h).cons_of_not_names (get_put_of_ne c w hfg) fun hf => hfg (hf.unique hg)
      · rw [hrun] at h
        cases h

/-- The writer's section comes into being with the first variable for one of its fields. -/
theorem writer_eq_none_iff (h : c.applyOverrides vars = (d, none)) :
    d.writer = none ↔ c.writer = none ∧ ∀ v ∈ vars, ∀ f, ¬ Names v.1 f := by
  induction vars generalizing c with
  | nil =>
      cases h
      simp
  | cons v vars ih =>
      rw [List.forall_mem_cons]
      rcases c.applyOverrides_cons_cases v with ⟨hno, hrun⟩ | ⟨f, w, hf, -, hrun⟩ | ⟨e, -, hrun⟩
      · rw [hrun] at h
        rw [ih h, and_iff_right fun f hf => hno (Names.isMarked hf)]
      · rw [hrun] at h
        rw [ih h]
        exact iff_of_false (fun hd => writer_put_ne_none c f w hd.1) fun hd => hd.2.1 f hf
      · rw [hrun] at h
        cases h

end Run

/-! ## Resolving -/

theorem algorithm_eq_ok_iff {w : WriterSection} {a : HashAlgorithm} :
    w.algorithm = .ok a ↔ (w.hashAlgorithm = none ∧ a = .xxh3) ∨
      ∃ text, w.hashAlgorithm = some text ∧ a.IsCalled text := by
  simp only [← HashAlgorithm.parse?_eq_some_iff]
  unfold WriterSection.algorithm
  cases w.hashAlgorithm with
  | none => simp [eq_comm]
  | some text =>
      dsimp only
      cases h : HashAlgorithm.parse? text <;> simp [h]

theorem algorithm_eq_error_iff {w : WriterSection} {e : ConfigError} :
    w.algorithm = .error e ↔ ∃ text, w.hashAlgorithm = some text ∧
      (∀ a : HashAlgorithm, ¬ a.IsCalled text) ∧
      e = .invalidValue "writer.hash_algorithm" text := by
  simp only [← HashAlgorithm.parse?_eq_some_iff]
  unfold WriterSection.algorithm
  cases w.hashAlgorithm with
  | none => simp
  | some text =>
      dsimp only
      cases h : HashAlgorithm.parse? text <;> simp [h, eq_comm]

theorem resolve_eq_map (c : Config) :
    c.resolve = c.writerSection.algorithm.map fun a =>
      { offloadThreshold := (c.get .offloadThreshold).elim 1024 (max 1), hashAlgorithm := a } := by
  have hthreshold (o : Option Nat) : (o.map (max · 1)).getD 1024 = o.elim 1024 (max 1) := by
    cases o with
    | none => rfl
    | some n => exact Nat.max_comm n 1
  unfold get
  rw [← hthreshold]
  unfold resolve WriterSection.resolve
  change c.writerSection.algorithm >>= _ = _
  cases c.writerSection.algorithm <;> rfl

theorem resolve_eq_ok_iff {c : Config} {settings : WriterConfig} :
    c.resolve = .ok settings ↔
      settings.offloadThreshold = (c.get .offloadThreshold).elim 1024 (max 1) ∧
        ((c.get .hashAlgorithm = none ∧ settings.hashAlgorithm = .xxh3) ∨
          ∃ text, c.get .hashAlgorithm = some text ∧ settings.hashAlgorithm.IsCalled text) := by
  obtain ⟨threshold, a⟩ := settings
  rw [resolve_eq_map, get, get, ← algorithm_eq_ok_iff]
  cases c.writerSection.algorithm with
  | ok a' => simp [Except.map, eq_comm]
  | error e => simp [Except.map]

theorem resolve_eq_error_iff {c : Config} {e : ConfigError} :
    c.resolve = .error e ↔ ∃ text, c.get .hashAlgorithm = some text ∧
      (∀ a : HashAlgorithm, ¬ a.IsCalled text) ∧
      e = .invalidValue "writer.hash_algorithm" text := by
  rw [resolve_eq_map]
  change _ ↔ ∃ text, c.writerSection.hashAlgorithm = some text ∧ _
  rw [← algorithm_eq_error_iff]
  cases c.writerSection.algorithm <;> simp [Except.map]

/-- **The last variable for a field wins, and a run stops cleanly.** From any configuration:

* variables without the mark make no difference;
* a run goes through if and only if every variable is in order;
* then each field is what the last variable for it means, or what it was if there is none, and there
  is a writer's section if there was one or a variable has named one of its fields;
* a run that ends early has done exactly what the variables in front of the first offending one do,
  and its error says what is wrong with that one;
* what a run has left behind resolves to the threshold, of at least one, and the algorithm that have
  been asked for, each with its default, and fails if and only if no algorithm has that name. -/
theorem overrides_layer (c : Config) (vars : List (String × String)) :
    c.applyOverrides (vars.filter (IsMarked ·.1)) = c.applyOverrides vars ∧
    ((c.applyOverrides vars).2 = none ↔ ∀ v ∈ vars, InOrder v) ∧
    (∀ d, c.applyOverrides vars = (d, none) →
      (∀ f, ComesTo c f vars (d.get f)) ∧
      (d.writer = none ↔ c.writer = none ∧ ∀ v ∈ vars, ∀ f, ¬ Names v.1 f)) ∧
    (∀ d e, c.applyOverrides vars = (d, some e) → ∃ before v after,
      vars = before ++ v :: after ∧ c.applyOverrides before = (d, none) ∧ Offends v e) ∧
    ∀ d stop, c.applyOverrides vars = (d, stop) →
      (∀ settings, d.resolve = .ok settings ↔
        settings.offloadThreshold = (d.get .offloadThreshold).elim 1024 (max 1) ∧
          ((d.get .hashAlgorithm = none ∧ settings.hashAlgorithm = .xxh3) ∨
            ∃ text, d.get .hashAlgorithm = some text ∧ settings.hashAlgorithm.IsCalled text)) ∧
      ∀ e, d.resolve = .error e ↔ ∃ text, d.get .hashAlgorithm = some text ∧
        (∀ a : HashAlgorithm, ¬ a.IsCalled text) ∧
        e = .invalidValue "writer.hash_algorithm" text :=
  ⟨applyOverrides_filter_isMarked c vars, applyOverrides_eq_none_iff,
    fun _ h => ⟨comesTo_of_applyOverrides h, writer_eq_none_iff h⟩,
    fun _ _ h => exists_offends_of_applyOverrides h,
    fun _ _ _ => ⟨fun _ => resolve_eq_ok_iff, fun _ => resolve_eq_error_iff⟩⟩

/-- Two variables for the threshold with one for the algorithm between them, and one that is not for
the configuration. -/
def thresholdTwice : List (String × String) :=
  [("PATH", "/usr/bin"), ("OXITABLE__writer__offload_threshold", " 8 "),
    ("OXITABLE__WRITER__HASH_ALGORITHM", "XXH64"), ("OXITABLE__writer__offload_threshold", "+0")]

/-- The last threshold holds, and counts as one; an unknown key behind it stops the run there. -/
theorem overrides_layer_thresholdTwice :
    applyOverrides {} thresholdTwice = ({ writer := some ⟨some 0, some "XXH64"⟩ }, none) ∧
    ComesTo {} .offloadThreshold thresholdTwice (some 0) ∧
    resolve { writer := some ⟨some 0, some "XXH64"⟩ }
      = .ok { offloadThreshold := 1, hashAlgorithm := .xxh64 } ∧
    applyOverrides {} (thresholdTwice ++ [("OXITABLE__writer__threads", "4"), ("OXITABLE__", "")])
      = ({ writer := some ⟨some 0, some "XXH64"⟩ },
        some (.unknownKey "OXITABLE__writer__threads")) ∧
    ∃ v ∈ thresholdTwice ++ [("OXITABLE__writer__threads", "4"), ("OXITABLE__", "")],
      Offends v (.unknownKey "OXITABLE__writer__threads") := by
  obtain ⟨_, _, hends, _, hresolve⟩ := overrides_layer {} thresholdTwice
  have hrun : applyOverrides {} thresholdTwice
      = ({ writer := some ⟨some 0, some "XXH64"⟩ }, none) := by decide +kernel
  obtain ⟨_, _, _, hstops, _⟩ := overrides_layer {}
    (thresholdTwice ++ [("OXITABLE__writer__threads", "4"), ("OXITABLE__", "")])
  have hstop : applyOverrides {}
      (thresholdTwice ++ [("OXITABLE__writer__threads", "4"), ("OXITABLE__", "")])
      = ({ writer := some ⟨some 0, some "XXH64"⟩ },
        some (.unknownKey "OXITABLE__writer__threads")) := by decide +kernel
  obtain ⟨before, v, after, hvars, _, hv⟩ := hstops _ _ hstop
  refine ⟨hrun, (hends _ hrun).1 .offloadThreshold, ((hresolve _ _ hrun).1 _).mpr ⟨rfl, .inr ?_⟩,
    hstop, v, ?_, hv⟩
  · exact ⟨"XXH64", rfl, "xxh64", by decide, by decide⟩
  · rw [hvars]
    exact List.mem_append_right before List.mem_cons_self

end Config

end SegmentIndex
