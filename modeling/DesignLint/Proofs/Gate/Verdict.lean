import DesignLint.Proofs.Report.Aggregate
import DesignLint.Proofs.Text.Visible
import DesignLint.Report.Document
import Mathlib.Data.List.Forall2
import Mathlib.Order.Defs.LinearOrder

/-!
# The verdict of the gate

The least score and the limits of a configuration are its thresholds, in this order
(`Thresholds.toList`). The gate lists exactly those that a report does not meet
(`map_violated_evaluate`), each with what the report has of what the threshold is about, the score
or the number of open findings (`Violation.Exact`), so easing thresholds adds nothing to the list
(`evaluate_eased`). A program reads the same numbers and places, and one line for each threshold
(`gateVerdict_evaluate`). The verdict is put together from these (`evaluate_exact`).
-/

namespace DesignLint

/-- What a report has to meet. -/
inductive Threshold (σ : Type)
  | score (least : σ)
  | limit (l : Limit)

section

variable {σ : Type}

/-- The thresholds of a configuration: the least score, and the limits in their order. -/
def Thresholds.toList (t : Thresholds σ) : List (Threshold σ) :=
  (t.minScore.map .score).toList ++ t.limits.map .limit

/-- A finding is open unless the run has fixed it. -/
def Finding.Open (mode : RunMode) (f : Finding) : Prop :=
  ¬ (mode = .fix ∧ f.confidence = some .autoFixable)

instance (mode : RunMode) (f : Finding) : Decidable (f.Open mode) :=
  inferInstanceAs (Decidable (¬ _))

namespace Threshold

/-- A least score is about all findings, a limit about those of its slice. -/
def Covers (f : Finding) : Threshold σ → Prop
  | score _ => True
  | limit l => (∀ c ∈ l.category, f.category = c) ∧ ∀ s ∈ l.severity, f.severity = s

instance (f : Finding) : (h : Threshold σ) → Decidable (h.Covers f)
  | score _ => inferInstanceAs (Decidable True)
  | limit _ => inferInstanceAs (Decidable (_ ∧ _))

/-- The open findings that a threshold is about, in the order of the report. -/
def openFindings (r : Report σ) (h : Threshold σ) : List Finding :=
  r.findings.filter fun f => f.Open r.mode ∧ h.Covers f

/-- Whether a report meets a threshold. -/
def MetBy [LE σ] (r : Report σ) : Threshold σ → Prop
  | score least => least ≤ r.score
  | limit l => ((limit l).openFindings r).length ≤ l.maxOpen

instance [LE σ] [DecidableLE σ] (r : Report σ) : (h : Threshold σ) → Decidable (h.MetBy r)
  | score _ => inferInstanceAs (Decidable (_ ≤ _))
  | limit _ => inferInstanceAs (Decidable (_ ≤ _))

/-- How a finding is pointed at. -/
def place (f : Finding) : Threshold σ → String
  | score _ => f.location
  | limit _ => f.location ++ " (" ++ f.rule ++ ")"

/-- The first open findings that a threshold is about, up to fifty. -/
def places (r : Report σ) (h : Threshold σ) : List String :=
  ((h.openFindings r).take 50).map h.place

/-- What a threshold is called. -/
def name : Threshold σ → String
  | score _ => "min compliance score"
  | limit l => "max open " ++ l.describe

section

variable [OfCount σ]

/-- What a report has of what a threshold is about: its score, or its open findings. -/
def actual (r : Report σ) : Threshold σ → σ
  | score _ => r.score
  | limit l => OfCount.ofCount ((limit l).openFindings r).length

/-- What a threshold allows. -/
def allowed : Threshold σ → σ
  | score least => least
  | limit l => OfCount.ofCount l.maxOpen

end

/-- What is said of a threshold that a report does not meet. -/
def complaint (r : Report) (h : Threshold Float) : String :=
  match h with
  | score _ =>
    "compliance score " ++ Decimal.fixed 3 (h.actual r) ++ " is below " ++ Decimal.fixed 3 h.allowed
  | limit _ =>
    h.name ++ ": " ++ Decimal.Layout.plain.write (h.actual r) ++ " open, " ++
      Decimal.Layout.plain.write h.allowed ++ " allowed"

end Threshold

namespace Violation

/-- The threshold that is violated. -/
def violated : Violation σ → Threshold σ
  | score _ least _ => .score least
  | limit l _ _ => .limit l

/-- The open findings that a violation is about. -/
abbrev openFindings (r : Report σ) (v : Violation σ) : List Finding := v.violated.openFindings r

/-- What a report has, in place of what the threshold allows. -/
inductive Has (r : Report σ) : Violation σ → Prop
  | score (least : σ) (places : List String) : Has r (.score r.score least places)
  | limit (l : Limit) (places : List String) :
    Has r (.limit l ((Threshold.limit l).openFindings r).length places)

/-- A violation that says what a report has and what is allowed, and points at the first open
findings, up to fifty. -/
structure Exact [OfCount σ] (r : Report σ) (v : Violation σ) : Prop where
  has : v.Has r
  threshold : v.threshold = v.violated.name
  actual : v.actual = v.violated.actual r
  allowed : v.allowed = v.violated.allowed
  locations : v.locations <+: (v.openFindings r).map v.violated.place
  length_locations : v.locations.length = min 50 (v.openFindings r).length

end Violation

/-! ### Eased thresholds -/

/-- A limit for the same slice that allows as much or more. -/
structure Limit.Raised (l l' : Limit) : Prop where
  category : l.category = l'.category
  severity : l.severity = l'.severity
  maxOpen : l.maxOpen ≤ l'.maxOpen

/-- Thresholds with some limits raised, and a least score that is no higher. -/
structure Thresholds.Eased [LE σ] (t t' : Thresholds σ) : Prop where
  minScore : ∀ least' ∈ t'.minScore, ∃ least ∈ t.minScore, least' ≤ least
  limits : List.Forall₂ Limit.Raised t.limits t'.limits

/-- The violation of an eased threshold, and that of the threshold as it was. -/
inductive Violation.Remains : Violation σ → Violation σ → Prop
  | score (actual least least' : σ) (places : List String) :
    Remains (.score actual least' places) (.score actual least places)
  | limit {l l' : Limit} (count : Nat) (places : List String) (category : l.category = l'.category)
    (severity : l.severity = l'.severity) : Remains (.limit l' count places) (.limit l count places)

/-! ### What is listed -/

variable {r : Report σ}

theorem isOpen_iff {mode : RunMode} {f : Finding} : f.isOpen mode ↔ f.Open mode := by
  simp only [Finding.isOpen, Finding.Open, RunMode.writes, Bool.not_eq_true', Bool.and_eq_false_iff,
    beq_eq_false_iff_ne, ne_eq, not_and_or]

theorem inSlice_iff {l : Limit} {f : Finding} :
    Report.inSlice l.category l.severity f ↔ (Threshold.limit l : Threshold σ).Covers f := by
  simp [Report.inSlice, Threshold.Covers, Option.all_eq_true]

theorem openFindings_limit (r : Report σ) (l : Limit) :
    r.openFindings l.category l.severity = (Threshold.limit l).openFindings r := by
  refine List.filter_congr fun f _ => ?_
  rw [Bool.eq_iff_iff, Bool.and_eq_true, decide_eq_true_eq, isOpen_iff, inSlice_iff]

theorem openFindings_score (r : Report σ) (least : σ) :
    r.openFindings none none = (Threshold.score least).openFindings r := by
  refine List.filter_congr fun f _ => ?_
  rw [Bool.eq_iff_iff, Bool.and_eq_true, decide_eq_true_eq, isOpen_iff]
  simp [Report.inSlice, Threshold.Covers]

/-- What is listed of a threshold that a report does not meet. -/
def Threshold.violation (r : Report σ) (h : Threshold σ) : Violation σ :=
  match h with
  | score least => .score r.score least (h.places r)
  | limit l => .limit l (h.openFindings r).length (h.places r)

@[simp] theorem violated_violation (r : Report σ) (h : Threshold σ) :
    (h.violation r).violated = h := by
  cases h <;> rfl

theorem exact_violation [OfCount σ] (r : Report σ) (h : Threshold σ) : (h.violation r).Exact r := by
  have hlocations : (h.violation r).locations = h.places r := by cases h <;> rfl
  refine ⟨?_, ?_, ?_, ?_, ?_, ?_⟩
  · cases h with
    | score least => exact .score least _
    | limit l => exact .limit l _
  · cases h <;> rfl
  · cases h <;> rfl
  · cases h <;> rfl
  · rw [hlocations, Violation.openFindings, violated_violation]
    exact (List.take_prefix _ _).map _
  · rw [hlocations, Violation.openFindings, violated_violation, Threshold.places, List.length_map,
      List.length_take]

/-! ### The list -/

section

variable [LT σ] [DecidableLT σ] {h : Threshold σ} {v : Violation σ}

/-- The violation of a threshold. -/
def Threshold.violation? (r : Report σ) : Threshold σ → Option (Violation σ)
  | score least => scoreViolation? r least
  | limit l => limitViolation? r l

theorem evaluate_eq (t : Thresholds σ) (r : Report σ) :
    evaluate t r = t.toList.filterMap (Threshold.violation? r) := by
  rw [evaluate, Thresholds.toList, List.filterMap_append, List.filterMap_map]
  cases t.minScore with
  | none => rfl
  | some least =>
    rw [Option.bind_some, Option.map_some, Option.toList_some, List.filterMap_cons]
    simp only [Threshold.violation?]
    cases scoreViolation? r least <;> rfl

theorem eq_violation (hv : h.violation? r = some v) : v = h.violation r := by
  cases h with
  | score least =>
    simp only [Threshold.violation?, scoreViolation?] at hv
    split_ifs at hv
    cases hv
    rw [openFindings_score r least]
    rfl
  | limit l =>
    simp only [Threshold.violation?, limitViolation?] at hv
    split_ifs at hv
    cases hv
    rw [openFindings_limit]
    rfl

theorem eq_violation_of_mem_evaluate {t : Thresholds σ} (hv : v ∈ evaluate t r) :
    v = v.violated.violation r := by
  rw [evaluate_eq, List.mem_filterMap] at hv
  obtain ⟨h, -, hv⟩ := hv
  rw [eq_violation hv, violated_violation]

theorem exact_of_mem_evaluate [OfCount σ] {t : Thresholds σ} (hv : v ∈ evaluate t r) :
    v.Exact r := by
  rw [eq_violation_of_mem_evaluate hv]
  exact exact_violation r _

end

section

variable [LinearOrder σ] {h : Threshold σ} {t t' : Thresholds σ}

theorem violation?_eq_none_iff : h.violation? r = none ↔ h.MetBy r := by
  cases h with
  | score least => simp [Threshold.violation?, scoreViolation?, Threshold.MetBy]
  | limit l =>
    rw [Threshold.MetBy, ← openFindings_limit]
    simp [Threshold.violation?, limitViolation?]

/-- **The gate lists the thresholds that a report does not meet**, in their order. -/
theorem map_violated_evaluate (t : Thresholds σ) (r : Report σ) :
    (evaluate t r).map Violation.violated = t.toList.filter fun h => ¬ h.MetBy r := by
  rw [evaluate_eq]
  induction t.toList with
  | nil => rfl
  | cons h hs ih =>
    cases hv : h.violation? r with
    | none =>
      have hmet := violation?_eq_none_iff.mp hv
      rw [List.filterMap_cons_none hv, List.filter_cons_of_neg (by simpa), ih]
    | some v =>
      have hmet : ¬ h.MetBy r := by rw [← violation?_eq_none_iff, hv]; simp
      rw [List.filterMap_cons_some hv, List.filter_cons_of_pos (by simpa), List.map_cons,
        eq_violation hv, violated_violation, ih]

theorem evaluate_eq_nil : evaluate t r = [] ↔ ∀ h ∈ t.toList, h.MetBy r := by
  rw [← List.map_eq_nil_iff (f := Violation.violated), map_violated_evaluate,
    List.filter_eq_nil_iff]
  simp

/-! ### Easing -/

theorem sublistForall₂_toList_append {α β : Type} {R : α → β → Prop} {a : Option α}
    {b : Option β} {as : List α} {bs : List β} (h : ∀ x ∈ a, ∃ y ∈ b, R x y)
    (hs : List.SublistForall₂ R as bs) :
    List.SublistForall₂ R (a.toList ++ as) (b.toList ++ bs) := by
  cases a with
  | none =>
    cases b with
    | none => exact hs
    | some y => exact hs.cons_right
  | some x =>
    obtain ⟨y, rfl, hxy⟩ := h x rfl
    exact hs.cons hxy

/-- **Easing thresholds adds no violation.** -/
theorem evaluate_eased (h : t.Eased t') :
    List.SublistForall₂ Violation.Remains (evaluate t' r) (evaluate t r) := by
  have hlimits : ∀ {ls ls' : List Limit}, List.Forall₂ Limit.Raised ls ls' →
      List.SublistForall₂ Violation.Remains (ls'.filterMap (limitViolation? r))
        (ls.filterMap (limitViolation? r)) := by
    intro ls ls' hls
    -- as each limit adds at most one violation, the limits can be compared one by one
    simp only [List.filterMap_eq_flatMap_toList]
    induction hls with
    | nil => exact .nil
    | @cons l l' ls ls' hl hls ih =>
      refine sublistForall₂_toList_append (fun v hv => ?_) ih
      simp only [limitViolation?, ← hl.category, ← hl.severity, Option.mem_def] at hv ⊢
      split_ifs at hv with hlt
      cases hv
      rw [if_pos (Nat.lt_of_le_of_lt hl.maxOpen hlt)]
      exact ⟨_, rfl, .limit _ _ hl.category hl.severity⟩
  refine sublistForall₂_toList_append (fun v hv => ?_) (hlimits h.limits)
  obtain ⟨least', hleast', hv⟩ := Option.bind_eq_some_iff.mp hv
  obtain ⟨least, hleast, hle⟩ := h.minScore least' hleast'
  simp only [scoreViolation?, Option.mem_def, Option.mem_def.mp hleast, Option.bind_some] at hv ⊢
  split_ifs at hv with hlt
  cases hv
  rw [if_pos (lt_of_lt_of_le hlt hle)]
  exact ⟨_, rfl, .score _ _ _ _⟩

end

/-! ### The verdict -/

/-- The verdict on a report for a program to read: whether the gate is passed, and a line and an
entry for each violation, which say what the report has. -/
structure GateVerdict (r : Report) (vs : List Violation) (d : Document) : Prop where
  passed : d.field? "passed" = some (.bool vs.isEmpty)
  reasons : ∃ lines, d.field? "reasons" = some (.strings lines) ∧
    List.Forall₂ (fun v line => line = v.violated.complaint r ∧ '\n' ∉ line.toList) vs lines
  failures : ∃ entries, d.field? "failures" = some (.array entries) ∧
    List.Forall₂ (fun v entry => entry = .object [("threshold", .string v.violated.name),
      ("actual", .float (v.violated.actual r)), ("allowed", .float v.violated.allowed),
      ("locations", .strings (v.violated.places r))]) vs entries

theorem reason_violation (r : Report) (h : Threshold Float) :
    (h.violation r).reason = h.complaint r := by
  cases h <;> rfl

theorem gateVerdict_evaluate (t : Thresholds) (r : Report) :
    GateVerdict r (evaluate t r) (gateDocument (evaluate t r)) where
  passed := rfl
  reasons := by
    refine ⟨_, rfl, List.forall₂_map_right_iff.mpr (List.forall₂_same.mpr fun v hv => ⟨?_, ?_⟩)⟩
    · rw [eq_violation_of_mem_evaluate hv, reason_violation, violated_violation]
    · exact v.visible_reason.not_mem (by decide)
  failures := by
    refine ⟨_, rfl, List.forall₂_map_right_iff.mpr (List.forall₂_same.mpr fun v hv => ?_)⟩
    rw [eq_violation_of_mem_evaluate hv, violated_violation]
    cases v.violated <;> rfl

/-- **The gate lists exactly the thresholds that a report violates**, whatever ordered numbers its
score is one of: the gate is passed if there is none, the violations are in the order of the
thresholds, each says what the report has, and easing thresholds adds none. The verdict on a printed
report has one line and one entry for each violation. -/
theorem evaluate_exact [OfCount σ] [LinearOrder σ] (t : Thresholds σ) (r : Report σ) :
    (evaluate t r = [] ↔ ∀ h ∈ t.toList, h.MetBy r) ∧
    (evaluate t r).map Violation.violated = (t.toList.filter fun h => ¬ h.MetBy r) ∧
    (∀ v ∈ evaluate t r, v.Exact r) ∧
    (∀ t' : Thresholds σ, t.Eased t' →
      List.SublistForall₂ Violation.Remains (evaluate t' r) (evaluate t r)) ∧
    ∀ (t : Thresholds) (r : Report),
      (∀ v ∈ evaluate t r, v.Exact r) ∧
      GateVerdict r (evaluate t r) (gateDocument (evaluate t r)) :=
  ⟨evaluate_eq_nil, map_violated_evaluate t r, fun _ => exact_of_mem_evaluate,
    fun _ => evaluate_eased, fun t r => ⟨fun _ => exact_of_mem_evaluate, gateVerdict_evaluate t r⟩⟩

/-- Of four thresholds three are violated, and of the eased ones one. -/
theorem evaluate_exact_eased :
    let finding (line : Nat) (c : Category) (s : Severity) : Finding :=
      ⟨"a.tsx", c.name, c, s, line, line, 3, "", [], some "x",
        some ⟨.manualReview, "no literal", none, none, false⟩,
        .value ⟨⟨line, line + 1⟩, ['x'], "color".toList, .declaration⟩⟩
    let r : Report ℚ := .tally .fix 1 [⟨"a.tsx", [finding 1 .componentUsage .critical,
      finding 2 .colorToken .high, finding 3 .colorToken .medium], "h", "h", false⟩] []
    let t : Thresholds ℚ := ⟨some (19 / 20),
      [⟨none, some .critical, 0⟩, ⟨some .colorToken, none, 1⟩, ⟨some .fontToken, none, 0⟩]⟩
    let t' : Thresholds ℚ := ⟨some 0,
      [⟨none, some .critical, 0⟩, ⟨some .colorToken, none, 2⟩, ⟨some .fontToken, none, 0⟩]⟩
    t.Eased t' ∧
    List.SublistForall₂ Violation.Remains (evaluate t' r) (evaluate t r) ∧
    (evaluate t r).map Violation.locations = [["a.tsx:1:3", "a.tsx:2:3", "a.tsx:3:3"],
      ["a.tsx:1:3 (component-usage)"], ["a.tsx:2:3 (color-token)", "a.tsx:3:3 (color-token)"]] ∧
    ((evaluate t r).map fun v => (v.actual, v.allowed)) = [(0, 19 / 20), (1, 0), (2, 1)] ∧
    (evaluate t' r).map Violation.threshold = ["max open any category / critical"] := by
  intro finding r t t'
  have heased : t.Eased t' := by
    refine ⟨fun least' h => ⟨19 / 20, rfl, ?_⟩, ?_⟩
    · cases h
      decide +kernel
    · exact .cons ⟨rfl, rfl, by decide⟩ (.cons ⟨rfl, rfl, by decide⟩
        (.cons ⟨rfl, rfl, by decide⟩ .nil))
  obtain ⟨-, -, -, hmono, -⟩ := evaluate_exact t r
  exact ⟨heased, hmono t' heased, by decide +kernel, by decide +kernel, by decide +kernel⟩

end

end DesignLint
