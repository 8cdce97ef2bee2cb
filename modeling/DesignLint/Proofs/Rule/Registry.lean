import DesignLint.Rule.Registry
import Mathlib.Data.List.Forall2
import Mathlib.Data.List.Nodup

/-!
# Rules of a registry

The rules of a registry are the compiled rules of its configuration, in their order
(`forall₂_of_ofConfig`). No two of them share an id, so the rule of a finding is the one that
reported it (`rule?_eq_some`); what they name as a tag is the name of one
(`isTagName_of_ofConfig`); and their fixes fit what they look for (`admits_of_ofConfig`).
-/

namespace DesignLint

/-- Whether a fix can mend what a pattern finds. -/
def Pattern.admits : Pattern → Autofix → Bool
  | _, .none => true
  | .tag _, .rename _ => true
  | .tag _, .remap .. => true
  | .declaration _, .substitute _ => true
  | .regex _, .substitute _ => true
  | _, _ => false

theorem AutofixSpec.admits_of_compile {s : AutofixSpec} {p : Pattern} {a : Autofix}
    (h : s.compile p = .ok a) : p.admits a := by
  cases s with
  | none =>
    cases h
    rfl
  | substitution component replacements =>
    cases p with
    | tag name =>
      cases component with
      | none => cases h
      | some component =>
        simp only [compile] at h
        split_ifs at h
        cases h
        rfl
    | declaration p =>
      simp only [compile] at h
      split_ifs at h
      cases h
      rfl
    | regex r =>
      simp only [compile] at h
      split_ifs at h
      cases h
      rfl
  | remap component target fallback mappings =>
    cases p with
    | tag name =>
      simp only [compile] at h
      split_ifs at h
      cases h
      rfl
    | declaration p => cases h
    | regex r => cases h

theorem PatternSpec.exists_ofText_of_compile {s : PatternSpec} {c : Category} {re : Regex}
    (h : s.compile c = .ok (.regex re)) : ∃ source, Regex.ofText source = .ok re := by
  cases s with
  | tag name =>
    rw [compile] at h
    split_ifs at h
    cases h
  | declaration properties classes value =>
    rw [compile] at h
    split_ifs at h
    cases hv : value.mapM compileRegex with
    | error e =>
      rw [hv] at h
      cases h
    | ok filter =>
      rw [hv] at h
      cases h
  | regex source =>
    rw [compile, compileRegex] at h
    split_ifs at h
    cases hv : Regex.ofText source with
    | error e =>
      rw [hv] at h
      cases h
    | ok re' =>
      rw [hv] at h
      cases h
      exact ⟨source, hv⟩

theorem RuleSpec.compile_eq_ok {s : RuleSpec} {r : Rule} (h : s.compile = .ok r) :
    r.id = s.id ∧ s.pattern.compile s.category = .ok r.pattern ∧
      s.autofix.compile r.pattern = .ok r.autofix := by
  unfold compile at h
  cases hp : s.pattern.compile s.category with
  | error e =>
    rw [hp] at h
    cases h
  | ok p =>
    rw [hp] at h
    cases ha : s.autofix.compile p with
    | error e =>
      simp only [Except.mapError, bind, Except.bind] at h
      rw [ha] at h
      cases h
    | ok a =>
      simp only [Except.mapError, bind, Except.bind] at h
      rw [ha] at h
      cases h
      exact ⟨rfl, rfl, ha⟩

theorem compileRules_eq_ok {seen : List String} {specs : List RuleSpec} {rules : List Rule}
    (h : compileRules seen specs = .ok rules) :
    List.Forall₂ (fun s r => RuleSpec.compile s = .ok r) specs rules ∧
      (rules.map (·.id)).Nodup ∧ ∀ r ∈ rules, r.id ∉ seen := by
  induction specs generalizing seen rules with
  | nil =>
    cases h
    exact ⟨.nil, .nil, by simp⟩
  | cons s specs ih =>
    rw [compileRules] at h
    split_ifs at h with hblank hseen
    cases hs : s.compile with
    | error e =>
      rw [hs] at h
      cases h
    | ok r =>
      rw [hs] at h
      cases hrest : compileRules (s.id :: seen) specs with
      | error e =>
        simp only [bind, Except.bind] at h
        rw [hrest] at h
        cases h
      | ok rest =>
        simp only [bind, Except.bind] at h
        rw [hrest] at h
        cases h
        obtain ⟨hall, hnodup, hnot⟩ := ih hrest
        have hid := (RuleSpec.compile_eq_ok hs).1
        have hseen : r.id ∉ seen := by
          rw [hid]
          simpa using hseen
        refine ⟨.cons hs hall, ?_, fun q hq => ?_⟩
        · rw [List.map_cons, List.nodup_cons]
          refine ⟨fun hmem => ?_, hnodup⟩
          obtain ⟨q, hq, heq⟩ := List.mem_map.mp hmem
          exact hnot q hq (by rw [heq, hid]; simp)
        · rcases List.mem_cons.mp hq with rfl | hq
          · exact hseen
          · exact fun hmem => hnot q hq (List.mem_cons_of_mem _ hmem)

namespace Registry

variable {c : Config} {g : Registry}

/-- **The rules of a registry are those of its configuration, no two with one id.** -/
theorem forall₂_of_ofConfig (h : ofConfig c = .ok g) :
    List.Forall₂ (fun s r => RuleSpec.compile s = .ok r) c.rules g.rules ∧
      (g.rules.map (·.id)).Nodup := by
  unfold ofConfig at h
  split_ifs at h
  cases hr : compileRules [] c.rules with
  | error e =>
    rw [hr] at h
    cases h
  | ok rules =>
    rw [hr] at h
    cases h
    obtain ⟨hall, hnodup, -⟩ := compileRules_eq_ok hr
    exact ⟨hall, hnodup⟩

theorem rule?_eq_some (h : ofConfig c = .ok g) {r : Rule} (hr : r ∈ g.rules) :
    g.rule? r.id = some r := by
  have hnodup := (forall₂_of_ofConfig h).2
  unfold rule?
  generalize g.rules = rules at hr hnodup
  induction rules with
  | nil => simp at hr
  | cons q rules ih =>
    rw [List.map_cons, List.nodup_cons] at hnodup
    rcases List.mem_cons.mp hr with rfl | hr
    · simp
    · have hne : q.id ≠ r.id := fun heq => hnodup.1 (by rw [heq]; exact List.mem_map_of_mem hr)
      rw [List.find?_cons_of_neg (by simpa using hne)]
      exact ih hr hnodup.2

theorem exists_spec (h : ofConfig c = .ok g) {r : Rule} (hr : r ∈ g.rules) :
    ∃ s ∈ c.rules, s.compile = .ok r := by
  obtain ⟨hall, -⟩ := forall₂_of_ofConfig h
  exact (List.forall₂_iff_get.mp hall).elim fun hlen hget => by
    obtain ⟨i, hi, rfl⟩ := List.mem_iff_getElem.mp hr
    exact ⟨c.rules[i], List.getElem_mem _, hget i (by omega) hi⟩

theorem exists_rule (h : ofConfig c = .ok g) {s : RuleSpec} (hs : s ∈ c.rules) :
    ∃ r ∈ g.rules, s.compile = .ok r := by
  obtain ⟨hall, -⟩ := forall₂_of_ofConfig h
  obtain ⟨hlen, hget⟩ := List.forall₂_iff_get.mp hall
  obtain ⟨i, hi, rfl⟩ := List.mem_iff_getElem.mp hs
  exact ⟨g.rules[i], List.getElem_mem _, hget i hi (by omega)⟩

/-- **The fix of a rule fits what it looks for.** -/
theorem admits_of_ofConfig (h : ofConfig c = .ok g) {r : Rule} (hr : r ∈ g.rules) :
    r.pattern.admits r.autofix := by
  obtain ⟨s, -, hs⟩ := exists_spec h hr
  exact AutofixSpec.admits_of_compile (RuleSpec.compile_eq_ok hs).2.2

/-- **A rule that looks for a tag looks for a name.** -/
theorem isTagName_of_ofConfig (h : ofConfig c = .ok g) {r : Rule} (hr : r ∈ g.rules)
    {name : String} (hp : r.pattern = .tag name) : isTagName name := by
  obtain ⟨s, -, hs⟩ := exists_spec h hr
  have hpat := (RuleSpec.compile_eq_ok hs).2.1
  rw [hp] at hpat
  cases hsp : s.pattern with
  | tag n =>
    rw [hsp, PatternSpec.compile] at hpat
    split_ifs at hpat with h1 h2
    cases hpat
    exact h2
  | declaration properties classes value =>
    rw [hsp, PatternSpec.compile] at hpat
    split_ifs at hpat
    cases hv : value.mapM compileRegex with
    | error e =>
      rw [hv] at hpat
      cases hpat
    | ok filter =>
      rw [hv] at hpat
      cases hpat
  | regex source =>
    rw [hsp, PatternSpec.compile] at hpat
    split_ifs at hpat
    cases hv : compileRegex source with
    | error e =>
      rw [hv] at hpat
      cases hpat
    | ok filter =>
      rw [hv] at hpat
      cases hpat

/-- **A regular expression that a rule looks for was read from a text.** -/
theorem exists_ofText_of_ofConfig (h : ofConfig c = .ok g) {r : Rule} (hr : r ∈ g.rules)
    {re : Regex} (hp : r.pattern = .regex re) : ∃ source, Regex.ofText source = .ok re := by
  obtain ⟨s, -, hs⟩ := exists_spec h hr
  have hpat := (RuleSpec.compile_eq_ok hs).2.1
  rw [hp] at hpat
  exact PatternSpec.exists_ofText_of_compile hpat

end Registry

end DesignLint
