import DesignLint.Fix.Rewrite
import DesignLint.Proofs.Fix.Plan
import DesignLint.Proofs.Rule.Sample
import Mathlib.Data.List.Nodup

/-!
# What a rewrite accepts

Plans are taken one after the other, and each is accepted or given up: `verdict` says which, given
the edits that are accepted already, and `verdicts` lists what is said of all of them. What a
rewrite accepts and gives up is read off this list (`foldl_add`).

So each finding that can be fixed is either applied or failed; the accepted edits can be carried out
together, and they are the edits of the applied findings (`rewrite_atomic`).
-/

namespace DesignLint

/-- The edits of a plan that is accepted. -/
def granted : Except FixFailure FixPlan → List Edit
  | .ok p => p.edits
  | .error _ => []

/-- What is said of a plan when some edits are accepted already. -/
def verdict (held : List Edit) : Except FixFailure FixPlan → Except FixFailure FixPlan
  | .ok p =>
    if p.edits.any fun d => held.any (·.span.overlaps d.span) then .error .overlappingEdit
    else .ok p
  | .error failure => .error failure

/-- What is said of plans one after the other. -/
def verdicts (held : List Edit) :
    List (Nat × Except FixFailure FixPlan) → List (Nat × Except FixFailure FixPlan)
  | [] => []
  | p :: ps => (p.1, verdict held p.2) :: verdicts (held ++ granted (verdict held p.2)) ps

/-- The replacement of a finding whose plan is accepted. -/
def applied? (p : Nat × Except FixFailure FixPlan) : Option (Nat × Text) :=
  match p.2 with
  | .ok q => some (p.1, q.replacement)
  | .error _ => none

/-- The failure of a finding whose plan is given up. -/
def failed? (p : Nat × Except FixFailure FixPlan) : Option (Nat × FixFailure) :=
  match p.2 with
  | .ok _ => none
  | .error failure => some (p.1, failure)

/-! ### Verdicts -/

theorem Acceptance.add_eq (a : Acceptance) (i : Nat) (plan : Except FixFailure FixPlan) :
    a.add i plan = ⟨a.edits ++ granted (verdict a.edits plan),
      a.applied ++ (applied? (i, verdict a.edits plan)).toList,
      a.failed ++ (failed? (i, verdict a.edits plan)).toList⟩ := by
  cases plan with
  | error failure => simp [add, verdict, granted, applied?, failed?]
  | ok p =>
    by_cases h : p.edits.any fun d => a.edits.any (·.span.overlaps d.span)
    · have h' : p.edits.any a.clashes = true := h
      simp [add, h', verdict, h, granted, applied?, failed?]
    · have h' : ¬ p.edits.any a.clashes = true := h
      simp only [add, h', verdict, h]
      simp [granted, applied?, failed?]

/-- **What is accepted and given up is read off the verdicts.** -/
theorem foldl_add (a : Acceptance) (ps : List (Nat × Except FixFailure FixPlan)) :
    ps.foldl (fun a p => a.add p.1 p.2) a = ⟨a.edits ++ (verdicts a.edits ps).flatMap (granted ·.2),
      a.applied ++ (verdicts a.edits ps).filterMap applied?,
      a.failed ++ (verdicts a.edits ps).filterMap failed?⟩ := by
  induction ps generalizing a with
  | nil => simp [verdicts]
  | cons p ps ih =>
    rw [List.foldl_cons, ih, Acceptance.add_eq]
    have hcons : ∀ {β : Type} (f : Nat × Except FixFailure FixPlan → Option β) x xs,
        (f x).toList ++ xs.filterMap f = (x :: xs).filterMap f := by
      intro β f x xs
      rw [List.filterMap_cons]
      cases f x <;> rfl
    simp only [verdicts, List.flatMap_cons, List.append_assoc, hcons]

theorem map_fst_verdicts (held : List Edit) (ps : List (Nat × Except FixFailure FixPlan)) :
    (verdicts held ps).map Prod.fst = ps.map Prod.fst := by
  induction ps generalizing held with
  | nil => rfl
  | cons p ps ih => simp only [verdicts, List.map_cons, ih]

theorem perm_of_verdicts (ps : List (Nat × Except FixFailure FixPlan)) :
    ((ps.filterMap applied?).map Prod.fst ++ (ps.filterMap failed?).map Prod.fst).Perm
      (ps.map Prod.fst) := by
  induction ps with
  | nil => exact .nil
  | cons p ps ih =>
    obtain ⟨i, _ | q⟩ := p
    · rw [List.filterMap_cons_none rfl, List.filterMap_cons_some (f := failed?) rfl, List.map_cons,
        List.map_cons]
      exact List.perm_middle.trans (ih.cons _)
    · rw [List.filterMap_cons_none (f := failed?) rfl,
        List.filterMap_cons_some (f := applied?) rfl, List.map_cons, List.map_cons, List.cons_append]
      exact ih.cons _

theorem verdict_eq_ok {held : List Edit} {plan : Except FixFailure FixPlan} {p : FixPlan} :
    verdict held plan = .ok p ↔ plan = .ok p ∧
      ∀ d ∈ p.edits, ∀ e ∈ held, e.span.overlaps d.span = false := by
  cases plan with
  | error failure => simp [verdict]
  | ok q =>
    simp only [verdict]
    split_ifs with h
    · simp only [Except.ok.injEq, false_iff, not_and]
      rintro rfl hall
      obtain ⟨d, hd, he⟩ := List.any_eq_true.mp h
      obtain ⟨e, he, ho⟩ := List.any_eq_true.mp he
      rw [hall d hd e he] at ho
      cases ho
    · simp only [Except.ok.injEq]
      refine ⟨?_, fun h => h.1⟩
      rintro rfl
      refine ⟨rfl, fun d hd e he => ?_⟩
      by_contra ho
      exact h (List.any_eq_true.mpr ⟨d, hd, List.any_eq_true.mpr ⟨e, he, by simpa using ho⟩⟩)

theorem verdict_eq_error {held : List Edit} {plan : Except FixFailure FixPlan} {x : FixFailure} :
    verdict held plan = .error x ↔ plan = .error x ∨ x = .overlappingEdit ∧ ∃ p, plan = .ok p ∧
      ∃ d ∈ p.edits, ∃ e ∈ held, e.span.overlaps d.span = true := by
  cases plan with
  | error failure => simp [verdict]
  | ok q =>
    simp only [verdict]
    split_ifs with h
    · obtain ⟨d, hd, he⟩ := List.any_eq_true.mp h
      obtain ⟨e, he, ho⟩ := List.any_eq_true.mp he
      simp only [Except.error.injEq, false_or]
      exact ⟨fun hx => ⟨hx.symm, q, rfl, d, hd, e, he, ho⟩, fun hx => hx.1.symm⟩
    · simp only [false_or, false_iff, not_and, not_exists]
      rintro - p hp d hd e he ho
      cases hp
      exact h (List.any_eq_true.mpr ⟨d, hd, List.any_eq_true.mpr ⟨e, he, ho⟩⟩)

/-- The verdict on a plan depends on the verdicts on the plans before it. -/
theorem verdicts_append (held : List Edit) (ps qs : List (Nat × Except FixFailure FixPlan)) :
    verdicts held (ps ++ qs) = verdicts held ps ++
      verdicts (held ++ (verdicts held ps).flatMap (granted ·.2)) qs := by
  induction ps generalizing held with
  | nil => simp [verdicts]
  | cons p ps ih => simp [verdicts, ih]

/-- If the edits of each plan can be carried out together, so can all that are accepted. -/
theorem spliceable_verdicts {cs : Text} {held : List Edit}
    {ps : List (Nat × Except FixFailure FixPlan)} (hheld : Spliceable cs held)
    (hps : ∀ q ∈ ps, ∀ p, q.2 = .ok p → Spliceable cs p.edits) :
    Spliceable cs (held ++ (verdicts held ps).flatMap (granted ·.2)) := by
  induction ps generalizing held with
  | nil => simpa [verdicts] using hheld
  | cons q ps ih =>
    have hgranted : Spliceable cs (held ++ granted (verdict held q.2)) := by
      cases hv : verdict held q.2 with
      | error x => simpa [granted] using hheld
      | ok p =>
        obtain ⟨hq, hapart⟩ := verdict_eq_ok.mp hv
        have hp := hps q (by simp) p hq
        refine ⟨fun e he => ?_, fun e he => ?_, ?_⟩
        · rcases List.mem_append.mp he with he | he
          · exact hheld.on e he
          · exact hp.on e he
        · rcases List.mem_append.mp he with he | he
          · exact hheld.nonempty e he
          · exact hp.nonempty e he
        · exact List.pairwise_append.mpr ⟨hheld.disjoint, hp.disjoint,
            fun e he d hd => hapart d hd e he⟩
    have := ih hgranted fun r hr => hps r (by simp [hr])
    simpa [verdicts] using this

/-! ### Keys -/

section

variable {ps : List (Nat × Except FixFailure FixPlan)} {i : Nat}

theorem mem_filterMap_applied? {t : Text} : (i, t) ∈ ps.filterMap applied? ↔
    ∃ q, (i, .ok q) ∈ ps ∧ t = q.replacement := by
  rw [List.mem_filterMap]
  constructor
  · rintro ⟨⟨j, _ | q⟩, hmem, heq⟩
    · cases heq
    · cases heq
      exact ⟨q, hmem, rfl⟩
  · rintro ⟨q, hmem, rfl⟩
    exact ⟨_, hmem, rfl⟩

theorem mem_filterMap_failed? {x : FixFailure} : (i, x) ∈ ps.filterMap failed? ↔
    (i, .error x) ∈ ps := by
  rw [List.mem_filterMap]
  constructor
  · rintro ⟨⟨j, y | q⟩, hmem, heq⟩
    · cases heq
      exact hmem
    · cases heq
  · intro hmem
    exact ⟨_, hmem, rfl⟩

theorem mem_applied_iff (hn : (ps.map Prod.fst).Nodup) {plan : Except FixFailure FixPlan}
    (h : (i, plan) ∈ ps) : i ∈ (ps.filterMap applied?).map Prod.fst ↔ ∃ q, plan = .ok q := by
  constructor
  · intro hi
    obtain ⟨⟨j, t⟩, hmem, rfl⟩ := List.mem_map.mp hi
    obtain ⟨q, hq, -⟩ := mem_filterMap_applied?.mp hmem
    exact ⟨q, congrArg Prod.snd (List.inj_on_of_nodup_map hn h hq rfl)⟩
  · rintro ⟨q, rfl⟩
    exact List.mem_map.mpr ⟨(i, q.replacement), mem_filterMap_applied?.mpr ⟨q, h, rfl⟩, rfl⟩

end

/-- The edits of those plans in a list that are applied. -/
def appliedEdits (applied : List Nat) (ps : List (Nat × Except FixFailure FixPlan)) : List Edit :=
  ps.flatMap fun p => if p.1 ∈ applied then granted p.2 else []

theorem flatMap_granted {held : List Edit} {applied : List Nat}
    {ps : List (Nat × Except FixFailure FixPlan)}
    (h : ∀ v ∈ verdicts held ps, v.1 ∈ applied ↔ ∃ q, v.2 = .ok q) :
    (verdicts held ps).flatMap (granted ·.2) = appliedEdits applied ps := by
  induction ps generalizing held with
  | nil => rfl
  | cons p ps ih =>
    have hp := h _ List.mem_cons_self
    have hrest := ih fun v hv => h v (List.mem_cons_of_mem _ hv)
    rw [verdicts, List.flatMap_cons, hrest, appliedEdits, appliedEdits, List.flatMap_cons]
    simp only at hp ⊢
    congr 1
    cases hv : verdict held p.2 with
    | error x =>
      rw [hv] at hp
      rw [if_neg fun hmem => by obtain ⟨q, hq⟩ := hp.mp hmem; cases hq]
      rfl
    | ok q =>
      rw [hv] at hp
      rw [if_pos (hp.mpr ⟨q, rfl⟩), (verdict_eq_ok.mp hv).1]

/-- What is said of a plan depends on the edits of the applied plans before it. -/
theorem mem_verdicts_iff {before after : List (Nat × Except FixFailure FixPlan)} {i : Nat}
    {plan o : Except FixFailure FixPlan} {vs : List (Nat × Except FixFailure FixPlan)}
    (hvs : vs = verdicts [] (before ++ (i, plan) :: after)) (hn : (vs.map Prod.fst).Nodup) :
    (i, o) ∈ vs ↔
      o = verdict (appliedEdits ((vs.filterMap applied?).map Prod.fst) before) plan := by
  have hsplit := hvs
  rw [verdicts_append, verdicts, List.nil_append] at hsplit
  have hheld : (verdicts [] before).flatMap (granted ·.2) =
      appliedEdits ((vs.filterMap applied?).map Prod.fst) before :=
    flatMap_granted fun v hv => mem_applied_iff hn (by rw [hsplit]; exact List.mem_append_left _ hv)
  rw [hheld] at hsplit
  generalize (vs.filterMap applied?).map Prod.fst = applied at hsplit ⊢
  have hmem : (i, verdict (appliedEdits applied before) plan) ∈ vs := by
    rw [hsplit]
    simp
  constructor
  · exact fun h => congrArg Prod.snd (List.inj_on_of_nodup_map hn h hmem rfl)
  · rintro rfl
    exact hmem

/-! ### Findings that can be fixed -/

section

variable {fs : List Finding}

theorem mem_fixableFindings {i : Nat} {f : Finding} : (i, f) ∈ fixableFindings fs ↔
    fs[i]? = some f ∧ f.confidence = some .autoFixable := by
  have hzip : (i, f) ∈ (List.range fs.length).zip fs ↔ fs[i]? = some f := by
    rw [List.mem_iff_getElem?]
    constructor
    · rintro ⟨j, hj⟩
      rw [List.getElem?_zip_eq_some] at hj
      obtain ⟨hj, hf⟩ := hj
      obtain ⟨hlt, rfl⟩ := List.getElem?_eq_some_iff.mp hj
      rwa [List.getElem_range]
    · intro hf
      have hlt := (List.getElem?_eq_some_iff.mp hf).1
      exact ⟨i, List.getElem?_zip_eq_some.mpr ⟨by simp [hlt], hf⟩⟩
  rw [fixableFindings, List.mem_mergeSort, List.mem_filter, hzip]
  simp

theorem nodup_fixableFindings : ((fixableFindings fs).map Prod.fst).Nodup := by
  have hzip : (((List.range fs.length).zip fs).map Prod.fst).Nodup := by
    rw [List.map_fst_zip (by simp)]
    exact List.nodup_range
  exact ((List.mergeSort_perm _ _).map Prod.fst).nodup_iff.mpr
    (hzip.sublist (List.filter_sublist.map Prod.fst))

theorem pairwise_fixableFindings : (fixableFindings fs).Pairwise fun a b =>
    a.2.site.span.start ≤ b.2.site.span.start := by
  exact pairwise_mergeSort_of
    (r := fun a b : Nat × Finding => a.2.site.span.start ≤ b.2.site.span.start)
    (fun _ _ _ => Nat.le_trans) (fun a b => Nat.le_total _ _) _

end

/-! ### The rewrite -/

/-- The plans for findings, under their indices. -/
def plansOf (g : Registry) (cs : Text) (ps : List (Nat × Finding)) :
    List (Nat × Except FixFailure FixPlan) :=
  ps.map fun p => (p.1, planFix g cs p.2)

theorem acceptFixes_eq (g : Registry) (cs : Text) (fs : List Finding) :
    acceptFixes g cs fs =
      let vs := verdicts [] (plansOf g cs (fixableFindings fs))
      ⟨vs.flatMap (granted ·.2), vs.filterMap applied?, vs.filterMap failed?⟩ := by
  have := foldl_add .empty (plansOf g cs (fixableFindings fs))
  rw [plansOf, List.foldl_map] at this
  rw [acceptFixes, this]
  simp [Acceptance.empty, plansOf]

/-- What a rewrite of a text with some findings does: it takes them by position, accepts the plan of
each as a whole or not at all, and copies the text with the accepted edits in place of their
spans. -/
structure Rewriting.Atomic (w : Rewriting) (g : Registry) (cs : Text) (fs : List Finding)
    (es : List Edit) : Prop where
  /-- No finding is listed twice. -/
  nodup : (w.applied.map Prod.fst ++ w.failed.map Prod.fst).Nodup
  /-- The findings that are listed are those that can be fixed. -/
  mem_iff : ∀ i, i ∈ w.applied.map Prod.fst ++ w.failed.map Prod.fst ↔
    ∃ f, fs[i]? = some f ∧ f.confidence = some .autoFixable
  spliceable : Spliceable cs es
  /-- The accepted edits are those of the applied findings. -/
  edits_eq : es = appliedEdits (w.applied.map Prod.fst) (plansOf g cs (fixableFindings fs))
  sorted : (fixableFindings fs).Pairwise fun a b => a.2.site.span.start ≤ b.2.site.span.start
  /-- A finding is applied if its edits overlap none of an applied finding before it. -/
  applied_iff : ∀ before i f after, fixableFindings fs = before ++ (i, f) :: after → ∀ t,
    (i, t) ∈ w.applied ↔ ∃ p, planFix g cs f = .ok p ∧ t = p.replacement ∧ ∀ d ∈ p.edits,
      ∀ e ∈ appliedEdits (w.applied.map Prod.fst) (plansOf g cs before),
        e.span.overlaps d.span = false
  /-- Else it fails, because there is no plan for it or because of the overlap. -/
  failed_iff : ∀ before i f after, fixableFindings fs = before ++ (i, f) :: after → ∀ x,
    (i, x) ∈ w.failed ↔ planFix g cs f = .error x ∨
      x = .overlappingEdit ∧ ∃ p, planFix g cs f = .ok p ∧ ∃ d ∈ p.edits,
        ∃ e ∈ appliedEdits (w.applied.map Prod.fst) (plansOf g cs before),
          e.span.overlaps d.span = true
  text_eq : w.text = patch cs 0 (leftToRight es)
  /-- Whenever `splice` carries out an edit, its span is on the text. -/
  in_range : ∀ done e todo, (es.mergeSort fun a b => b.span.start ≤ a.span.start) =
    done ++ e :: todo → e.span.On (done.foldl Edit.apply cs)

theorem atomic_of_spliceable {g : Registry} {cs : Text} {fs : List Finding}
    (h : ∀ i f, (i, f) ∈ fixableFindings fs → ∀ p, planFix g cs f = .ok p → Spliceable cs p.edits) :
    (rewrite g cs fs).Atomic g cs fs (acceptFixes g cs fs).edits := by
  have hedits : ∀ q ∈ plansOf g cs (fixableFindings fs), ∀ p, q.2 = .ok p →
      Spliceable cs p.edits := by
    intro q hq p hp
    obtain ⟨⟨i, f⟩, hf, rfl⟩ := List.mem_map.mp hq
    exact h i f hf p hp
  have hkeys : ∀ vs, vs = verdicts [] (plansOf g cs (fixableFindings fs)) →
      vs.map Prod.fst = (fixableFindings fs).map Prod.fst := by
    rintro vs rfl
    rw [map_fst_verdicts, plansOf, List.map_map]
    rfl
  have hspl := spliceable_verdicts (.nil cs) hedits
  rw [rewrite, acceptFixes_eq]
  simp only
  generalize hvs : verdicts [] (plansOf g cs (fixableFindings fs)) = vs at hspl ⊢
  have hkeys := hkeys vs hvs.symm
  have hnodup : (vs.map Prod.fst).Nodup := hkeys ▸ nodup_fixableFindings
  have hperm := perm_of_verdicts vs
  have hverdict : ∀ before i f after, fixableFindings fs = before ++ (i, f) :: after → ∀ o,
      (i, o) ∈ vs ↔ o = verdict (appliedEdits ((vs.filterMap applied?).map Prod.fst)
        (plansOf g cs before)) (planFix g cs f) := by
    intro before i f after hsplit o
    rw [hsplit, plansOf, List.map_append, List.map_cons] at hvs
    exact mem_verdicts_iff hvs.symm hnodup
  refine ⟨hperm.nodup_iff.mpr hnodup, fun i => ?_, hspl, ?_, pairwise_fixableFindings,
    fun before i f after hsplit t => ?_, fun before i f after hsplit x => ?_, hspl.splice_eq_patch,
    fun done e todo hsplit => (hspl.in_range hsplit).1⟩
  · rw [hperm.mem_iff, hkeys, List.mem_map]
    constructor
    · rintro ⟨⟨j, f⟩, hf, rfl⟩
      exact ⟨f, mem_fixableFindings.mp hf⟩
    · rintro ⟨f, hf⟩
      exact ⟨(i, f), mem_fixableFindings.mpr hf, rfl⟩
  · rw [← hvs]
    exact flatMap_granted fun v hv => by rw [hvs] at hv ⊢; exact mem_applied_iff hnodup hv
  · rw [mem_filterMap_applied?]
    constructor
    · rintro ⟨q, hq, rfl⟩
      obtain ⟨hp, hapart⟩ := verdict_eq_ok.mp ((hverdict before i f after hsplit _).mp hq).symm
      exact ⟨q, hp, rfl, hapart⟩
    · rintro ⟨q, hp, rfl, hapart⟩
      exact ⟨q, (hverdict before i f after hsplit _).mpr (verdict_eq_ok.mpr ⟨hp, hapart⟩).symm, rfl⟩
  · rw [mem_filterMap_failed?, hverdict before i f after hsplit, eq_comm, verdict_eq_error]

section

variable {c : Config} {g : Registry} {file : Source}

theorem exists_rule_of_mem_fixableFindings (hg : Registry.ofConfig c = .ok g) {i : Nat}
    {f : Finding} (h : (i, f) ∈ fixableFindings (g.triaged file)) :
    ∃ r, g.rule? f.rule = some r ∧ r ∈ g.rules ∧ f.site ∈ r.sites g.approvals file ∧
      f.site.On file.text ∧ obstacle? r f.site = none := by
  obtain ⟨hf, hc⟩ := mem_fixableFindings.mp h
  obtain ⟨r, hr, hmem, hsites, hon, ho⟩ := Registry.on_of_triaged hg hf
  exact ⟨r, hr, hmem, hsites, hon, ho hc⟩

theorem spliceable_of_mem_fixableFindings (hg : Registry.ofConfig c = .ok g) {i : Nat} {f : Finding}
    (h : (i, f) ∈ fixableFindings (g.triaged file)) (p : FixPlan)
    (hp : planFix g file.text f = .ok p) : Spliceable file.text p.edits := by
  obtain ⟨r, hr, -, -, hon, ho⟩ := exists_rule_of_mem_fixableFindings hg h
  exact spliceable_of_planFix hr hon ho hp

theorem exists_plan_of_applied (hg : Registry.ofConfig c = .ok g) {i : Nat} {f : Finding} {t : Text}
    (h : (i, t) ∈ (rewrite g file.text (g.triaged file)).applied)
    (hf : (g.triaged file)[i]? = some f) :
    (i, f) ∈ fixableFindings (g.triaged file) ∧
      ∃ p, planFix g file.text f = .ok p ∧ t = p.replacement := by
  have hatomic : (rewrite g file.text (g.triaged file)).Atomic g file.text (g.triaged file) _ :=
    atomic_of_spliceable fun _ _ => spliceable_of_mem_fixableFindings hg
  generalize g.triaged file = fs at h hf hatomic ⊢
  obtain ⟨f', hf', hc⟩ := (hatomic.mem_iff i).mp
    (List.mem_append_left _ (List.mem_map.mpr ⟨(i, t), h, rfl⟩))
  obtain rfl : f = f' := Option.some.inj (hf.symm.trans hf')
  have hmem := mem_fixableFindings.mpr ⟨hf', hc⟩
  obtain ⟨before, after, hsplit⟩ := List.append_of_mem hmem
  obtain ⟨p, hp, ht, -⟩ := (hatomic.applied_iff before i f after hsplit t).mp h
  exact ⟨hmem, p, hp, ht⟩

theorem exists_of_mem_edits (hg : Registry.ofConfig c = .ok g) {d : Edit}
    (hd : d ∈ (acceptFixes g file.text (g.triaged file)).edits) :
    ∃ j h p, (j, h) ∈ fixableFindings (g.triaged file) ∧
      j ∈ (rewrite g file.text (g.triaged file)).applied.map Prod.fst ∧
        planFix g file.text h = .ok p ∧ d ∈ p.edits := by
  have hatomic : (rewrite g file.text (g.triaged file)).Atomic g file.text (g.triaged file) _ :=
    atomic_of_spliceable fun _ _ => spliceable_of_mem_fixableFindings hg
  rw [hatomic.edits_eq, appliedEdits, List.mem_flatMap] at hd
  obtain ⟨q, hq, hd⟩ := hd
  obtain ⟨⟨j, h⟩, hmem, rfl⟩ := List.mem_map.mp hq
  simp only at hd
  split_ifs at hd with happlied
  · cases hp : planFix g file.text h with
    | error x => simp [hp, granted] at hd
    | ok p =>
      rw [hp] at hd
      exact ⟨j, h, p, hmem, happlied, hp, hd⟩
  · simp at hd

theorem mem_edits_of_applied (hg : Registry.ofConfig c = .ok g) {i : Nat} {f : Finding} {t : Text}
    (h : (i, t) ∈ (rewrite g file.text (g.triaged file)).applied)
    (hf : (g.triaged file)[i]? = some f) {p : FixPlan} (hp : planFix g file.text f = .ok p)
    {d : Edit} (hd : d ∈ p.edits) : d ∈ (acceptFixes g file.text (g.triaged file)).edits := by
  have hatomic : (rewrite g file.text (g.triaged file)).Atomic g file.text (g.triaged file) _ :=
    atomic_of_spliceable fun _ _ => spliceable_of_mem_fixableFindings hg
  obtain ⟨hmem, -⟩ := exists_plan_of_applied hg h hf
  rw [hatomic.edits_eq, appliedEdits, List.mem_flatMap]
  refine ⟨(i, .ok p), List.mem_map.mpr ⟨(i, f), hmem, by simp only [hp]⟩, ?_⟩
  rw [if_pos (List.mem_map.mpr ⟨(i, t), h, rfl⟩)]
  exact hd

theorem spliceable_acceptFixes (hg : Registry.ofConfig c = .ok g) (file : Source) :
    Spliceable file.text (acceptFixes g file.text (g.triaged file)).edits :=
  (atomic_of_spliceable fun _ _ => spliceable_of_mem_fixableFindings hg).spliceable

/-- **A rewrite applies every fix as a whole or not at all, and keeps all other text.** -/
theorem rewrite_atomic (hg : Registry.ofConfig c = .ok g) (file : Source) :
    (rewrite g file.text (g.triaged file)).Atomic g file.text (g.triaged file)
      (acceptFixes g file.text (g.triaged file)).edits :=
  atomic_of_spliceable fun _ _ => spliceable_of_mem_fixableFindings hg

/-- A name in two tags and a colour between them. -/
theorem rewrite_atomic_button :
    let rules : List RuleSpec := [.ofTag "button" (.substitution (some "Button") []),
      .ofColor [("#fff", "var(--w)")]]
    let g := Registry.ofRules rules
    let file := Source.ofText "a.tsx" "<button><p className=\"bg-[#fff]\"/></button>".toList
    let fs := g.triaged file
    Registry.ofConfig (.ofRules rules) = .ok g ∧
      (rewrite g file.text fs).Atomic g file.text fs (acceptFixes g file.text fs).edits ∧
      (rewrite g file.text fs).text =
        "<Button><p className=\"bg-[var(--w)]\"/></Button>".toList := by
  intro rules g file fs
  have hg : Registry.ofConfig (.ofRules rules) = .ok g := rfl
  refine ⟨hg, rewrite_atomic hg file, ?_⟩
  simp only [fs, rewrite, acceptFixes, fixableFindings, Registry.triaged, Registry.findings, splice,
    mergeSort_eq_sortUpTo]
  decide +kernel

end

end DesignLint
