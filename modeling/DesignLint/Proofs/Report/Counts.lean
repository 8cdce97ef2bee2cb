import DesignLint.Report.Aggregate
import Mathlib.Data.List.Perm.Basic
import Mathlib.Data.List.Sort
import Mathlib.Data.Prod.Lex
import Std.Data.TreeMap.Lemmas

/-!
# What is counted

Aggregation goes through the findings once and counts them. What it has counted of some findings is
stated for each counter by itself (`Counts.Of`): counting one more finding keeps it (`Of.count`), so
at the end the counters count all findings (`exists_foldlM_add`), and the buckets are those that are
not empty, in their order (`Of.breakdown_eq`). The report is then the `Report.tally` of the findings
(`Report.aggregate_eq`), unless one of them is not resolved.
-/

namespace DesignLint

/-- Whether a finding belongs to a kind of bucket. -/
def Finding.isIn (f : Finding) (kind : Category × Severity × Confidence) : Bool :=
  f.category == kind.1 && f.severity == kind.2.1 && f.confidence == some kind.2.2

/-- The place of a bucket in the order of reports. -/
def Bucket.rank (b : Bucket) : Nat ×ₗ Nat ×ₗ Nat :=
  toLex (b.category.rank, toLex (b.severity.rank, b.confidence.rank))

/-- Every kind of bucket, in the order of reports. -/
def bucketKinds : List (Category × Severity × Confidence) :=
  Category.all.flatMap fun c => Severity.all.flatMap fun s => Confidence.all.map fun k => (c, s, k)

/-- The buckets of some findings that are not empty. -/
def bucketsOf (fs : List Finding) : List Bucket :=
  let count (c : Category) (s : Severity) (k : Confidence) : Nat :=
    fs.countP fun f => f.category == c && f.severity == s && f.confidence == some k
  let buckets := bucketKinds.map fun (c, s, k) => (⟨c, s, k, count c s k⟩ : Bucket)
  buckets.filter (·.count != 0)

/-- The report on findings that have all been resolved. -/
def Report.tally {σ : Type} [OfCount σ] [OfNat σ 1] [Sub σ] [Div σ] (mode : RunMode)
    (filesScanned : Nat) (files : List FileResult) (skipped : List Skipped) : Report σ :=
  let fs := files.flatMap (·.findings)
  let openCount := fs.countP (·.isOpen mode)
  { mode := mode
    filesScanned := filesScanned
    filesModified := files.countP (·.written)
    total := fs.length
    autoFixed := fs.countP (·.confidence == some .autoFixable)
    manualReview := fs.countP (·.confidence == some .manualReview)
    fixFailed := fs.countP fun f => f.resolution.any (·.failed)
    openCount := openCount
    score := complianceScore openCount fs.length
    breakdown := bucketsOf fs
    files := files.filter fun f => !f.findings.isEmpty || f.written
    skipped := skipped }

/-! ### Tables -/

section

variable {β : Type} {x : Option β} {d v : β}

/-- What a table has for a key that has a value: nothing, if the value is that of missing keys. -/
def Entry (x : Option β) (d v : β) : Prop := ∀ b, x = some b ↔ b ≠ d ∧ b = v

theorem entry_none (d : β) : Entry none d d := by
  intro b
  constructor
  · intro h
    cases h
  · rintro ⟨hne, rfl⟩
    exact absurd rfl hne

theorem entry_some (h : v ≠ d) : Entry (some v) d v := by
  intro b
  rw [Option.some.injEq]
  constructor
  · rintro rfl
    exact ⟨h, rfl⟩
  · rintro ⟨-, rfl⟩
    rfl

theorem Entry.getD_eq (h : Entry x d v) : x.getD d = v := by
  cases hx : x with
  | some b => exact ((h b).mp hx).2
  | none =>
    by_contra hne
    have := (h v).mpr ⟨Ne.symm hne, rfl⟩
    rw [hx] at this
    cases this

end

/-! ### Ranks -/

theorem Category.rank_inj {c d : Category} : c.rank = d.rank ↔ c = d := by
  cases c <;> cases d <;> decide

theorem Severity.rank_inj {s t : Severity} : s.rank = t.rank ↔ s = t := by
  cases s <;> cases t <;> decide

theorem Confidence.rank_inj {k l : Confidence} : k.rank = l.rank ↔ k = l := by
  cases k <;> cases l <;> decide

/-! ### Buckets -/

section

variable {fs gs : List Finding} {a b : Category × Severity × Confidence}

theorem bucketsOf_perm (h : fs.Perm gs) : bucketsOf fs = bucketsOf gs := by
  simp only [bucketsOf, h.countP_eq]

theorem mem_bucketKinds (kind : Category × Severity × Confidence) : kind ∈ bucketKinds := by
  obtain ⟨c, s, k⟩ := kind
  cases c <;> cases s <;> cases k <;> decide

/-- A bucket stands in a report exactly if there are findings in it, with their number. -/
theorem mem_bucketsOf {b : Bucket} : b ∈ bucketsOf fs ↔
    0 < b.count ∧ b.count = fs.countP (·.isIn (b.category, b.severity, b.confidence)) := by
  rw [bucketsOf, List.mem_filter, List.mem_map, bne_iff_ne, and_comm, Nat.pos_iff_ne_zero]
  refine and_congr_right fun _ => ⟨?_, fun h => ?_⟩
  · rintro ⟨⟨c, s, k⟩, -, rfl⟩
    rfl
  · obtain ⟨c, s, k, count⟩ := b
    obtain rfl : count = fs.countP (·.isIn (c, s, k)) := h
    exact ⟨(c, s, k), mem_bucketKinds _, rfl⟩

theorem bucketKinds_increasing : bucketKinds.Pairwise fun a b =>
    toLex (a.1.rank, toLex (a.2.1.rank, a.2.2.rank)) <
      toLex (b.1.rank, toLex (b.2.1.rank, b.2.2.rank)) := by
  decide

theorem bucketsOf_increasing (fs : List Finding) :
    (bucketsOf fs).Pairwise fun a b => a.rank < b.rank := by
  refine List.Pairwise.filter _ ?_
  rw [List.pairwise_map]
  exact bucketKinds_increasing

instance : Std.TransCmp bucketOrder := by
  unfold bucketOrder
  infer_instance

theorem bucketOrder_eq_lt : bucketOrder a b = .lt ↔
    toLex (a.1.rank, toLex (a.2.1.rank, a.2.2.rank)) <
      toLex (b.1.rank, toLex (b.2.1.rank, b.2.2.rank)) := by
  simp only [bucketOrder, compareLex, compareOn, Ordering.then_eq_lt, Nat.compare_eq_lt,
    Nat.compare_eq_eq, Prod.Lex.toLex_lt_toLex]

theorem bucketOrder_eq_eq : bucketOrder a b = .eq ↔ a = b := by
  obtain ⟨c, s, k⟩ := a
  obtain ⟨d, t, l⟩ := b
  simp only [bucketOrder, compareLex, compareOn, Ordering.then_eq_eq, Nat.compare_eq_eq,
    Category.rank_inj, Severity.rank_inj, Confidence.rank_inj, Prod.mk.injEq]

instance : Std.LawfulEqCmp bucketOrder where
  eq_of_compare h := bucketOrder_eq_eq.mp h

end

/-! ### One finding after the other -/

namespace Counts

variable {mode : RunMode} {fs gs : List Finding} {c : Counts}

/-- What has been counted of some findings. -/
structure Of (mode : RunMode) (fs : List Finding) (c : Counts) : Prop where
  total : c.total = fs.length
  autoFixed : c.autoFixed = fs.countP (·.confidence == some .autoFixable)
  manualReview : c.manualReview = fs.countP (·.confidence == some .manualReview)
  fixFailed : c.fixFailed = fs.countP fun f => f.resolution.any (·.failed)
  openCount : c.openCount = fs.countP (·.isOpen mode)
  buckets : ∀ kind, Entry c.buckets[kind]? 0 (fs.countP (·.isIn kind))

theorem of_zero (mode : RunMode) : zero.Of mode [] := by
  refine ⟨rfl, rfl, rfl, rfl, rfl, fun kind => ?_⟩
  rw [zero, Std.TreeMap.getElem?_emptyc, List.countP_nil]
  exact entry_none 0

/-- **Counting one more finding.** -/
theorem Of.count (h : c.Of mode fs) {f : Finding} {x : Resolution} (hf : f.resolution = some x) :
    (c.count mode f x).Of mode (fs ++ [f]) := by
  have hconfidence : f.confidence = some x.confidence := by
    rw [Finding.confidence, hf, Option.map_some]
  refine ⟨?_, ?_, ?_, ?_, ?_, fun kind => ?_⟩
  · simp [Counts.count, h.total]
  · cases hx : x.confidence <;> simp [Counts.count, h.autoFixed, hconfidence, hx]
  · cases hx : x.confidence <;> simp [Counts.count, h.manualReview, hconfidence, hx]
  · cases hx : x.failed <;> simp [Counts.count, h.fixFailed, hf, hx]
  · cases hx : f.isOpen mode <;> simp [Counts.count, h.openCount, hx]
  · have hin : f.isIn kind = decide ((f.category, f.severity, x.confidence) = kind) := by
      rw [Bool.eq_iff_iff]
      simp [Finding.isIn, hconfidence, Prod.ext_iff, and_assoc]
    rw [Counts.count, Std.TreeMap.getElem?_alter, List.countP_append, List.countP_singleton, hin]
    simp only [bucketOrder_eq_eq, decide_eq_true_eq]
    split_ifs with hkind
    · obtain rfl := hkind
      rw [(h.buckets _).getD_eq]
      exact entry_some (Nat.succ_ne_zero _)
    · exact h.buckets kind

/-- **Findings that are resolved are counted, one after the other.** -/
theorem exists_foldlM_add {σ : Type} (hc : c.Of mode gs) (h : ∀ f ∈ fs, f.resolution.isSome) :
    ∃ c', fs.foldlM (m := Except (ReportFlaw σ)) (add mode) c = .ok c' ∧ c'.Of mode (gs ++ fs) := by
  induction fs generalizing c gs with
  | nil => exact ⟨c, rfl, by rwa [List.append_nil]⟩
  | cons f fs ih =>
    obtain ⟨x, hx⟩ := Option.isSome_iff_exists.mp (h f (by simp))
    obtain ⟨c', hc', hof⟩ := ih (hc.count hx) fun g hg => h g (by simp [hg])
    refine ⟨c', ?_, by rwa [List.append_assoc] at hof⟩
    rw [List.foldlM_cons, add, hx]
    exact hc'

theorem foldlM_add_of_find? {σ : Type} {f : Finding} (h : fs.find? (·.resolution.isNone) = some f)
    (c : Counts) :
    fs.foldlM (m := Except (ReportFlaw σ)) (add mode) c = .error f.unresolved := by
  induction fs generalizing c with
  | nil => cases h
  | cons g fs ih =>
    rw [List.foldlM_cons, add]
    cases hg : g.resolution with
    | none =>
      rw [List.find?_cons_of_pos (by simp [hg])] at h
      cases h
      rfl
    | some x =>
      rw [List.find?_cons_of_neg (by simp [hg])] at h
      exact ih h _

/-- **The buckets that were counted** are those that are not empty, in their order. -/
theorem Of.breakdown_eq (h : c.Of mode fs) : c.breakdown = bucketsOf fs := by
  have hbreakdown : c.breakdown.Pairwise fun a b => a.rank < b.rank :=
    List.pairwise_map.mpr (Std.TreeMap.ordered_keys_toList.imp fun hab => bucketOrder_eq_lt.mp hab)
  have hbuckets := bucketsOf_increasing fs
  have hirrefl : Std.Irrefl fun a b : Bucket => a.rank < b.rank := ⟨fun _ => lt_irrefl _⟩
  have hantisymm : Std.Antisymm fun a b : Bucket => a.rank < b.rank :=
    ⟨fun _ _ hab hba => absurd hba hab.asymm⟩
  refine hbreakdown.eq_of_mem_iff hbuckets fun b => ?_
  rw [mem_bucketsOf, Nat.pos_iff_ne_zero, ← h.buckets _ b.count,
    ← Std.TreeMap.mem_toList_iff_getElem?_eq_some, breakdown, List.mem_map]
  constructor
  · rintro ⟨⟨kind, n⟩, hmem, rfl⟩
    exact hmem
  · intro hmem
    exact ⟨_, hmem, rfl⟩

theorem Of.report_eq {σ : Type} [OfCount σ] [OfNat σ 1] [Sub σ] [Div σ] {files : List FileResult}
    (h : c.Of mode (files.flatMap (·.findings))) (n : Nat) (skipped : List Skipped) :
    (c.report mode n files skipped : Report σ) = Report.tally mode n files skipped := by
  rw [report, h.total, h.autoFixed, h.manualReview, h.fixFailed, h.openCount, h.breakdown_eq]
  rfl

end Counts

/-- **Aggregation makes the tally of findings that are all resolved**, and checks it. -/
theorem Report.aggregate_eq {σ : Type} [OfCount σ] [OfNat σ 1] [Sub σ] [Div σ] [OfNat σ 0] [LE σ]
    [DecidableLE σ] (mode : RunMode) (n : Nat) (files : List FileResult) (skipped : List Skipped) :
    (aggregate mode n files skipped : Except (ReportFlaw σ) (Report σ)) =
      match ((files.mergeSort fun a b => a.path ≤ b.path).flatMap (·.findings)).find?
        (·.resolution.isNone) with
      | some f => .error f.unresolved
      | none =>
        let r := tally mode n (files.mergeSort fun a b => a.path ≤ b.path)
          (skipped.mergeSort fun a b => a.path ≤ b.path)
        match r.verify with
        | .ok () => .ok r
        | .error flaw => .error flaw := by
  unfold aggregate
  generalize (files.mergeSort fun a b => a.path ≤ b.path) = files
  generalize (skipped.mergeSort fun a b => a.path ≤ b.path) = skipped
  simp only [bind, Except.bind]
  cases hfind : (files.flatMap (·.findings)).find? (·.resolution.isNone) with
  | some f => rw [Counts.foldlM_add_of_find? hfind]
  | none =>
    have hsome : ∀ f ∈ files.flatMap (·.findings), f.resolution.isSome := by
      intro f hf
      simpa [Option.isSome_iff_ne_none] using List.find?_eq_none.mp hfind f hf
    obtain ⟨c, hc, hof⟩ := Counts.exists_foldlM_add (σ := σ) (Counts.of_zero mode) hsome
    rw [List.nil_append] at hof
    have hreport : (c.report mode n files skipped : Report σ) = tally mode n files skipped :=
      hof.report_eq n skipped
    simp only [hc, hreport]
    cases (tally mode n files skipped : Report σ).verify <;> rfl

end DesignLint
