import DesignLint.Fix.Plan
import DesignLint.Proofs.Finding.Search
import DesignLint.Proofs.Rule.Admissible
import DesignLint.Proofs.Sort

/-!
# Replacements that take effect

The table of a rule holds under each normal form the token of one replacement: of those whose values
have this normal form, the one with the greatest text (`exists_lookup_tokenTable`). So a value that
a replacement names is replaced by its token, unless a greater text with the same normal form has
another one (`planValue_replacement`), which then takes its place (`exists_overwritten`).
-/

namespace DesignLint

/-! ### Tables -/

section

variable {tokens : List (Text × String)} {key k : Text} {token : String}

theorem lookup_filter_ne (tokens : List (Text × String)) (key k : Text) :
    (tokens.filter (·.1 != key)).lookup k = if k = key then none else tokens.lookup k := by
  induction tokens with
  | nil => simp
  | cons e tokens ih =>
    by_cases he : e.1 = key
    · rw [List.filter_cons_of_neg (by simpa using he), ih, List.lookup_cons]
      split_ifs with hk
      · rfl
      · rw [beq_false_of_ne (he ▸ hk)]
    · rw [List.filter_cons_of_pos (by simpa using he), List.lookup_cons, List.lookup_cons, ih]
      split_ifs with hk
      · rw [beq_false_of_ne fun heq => he (heq.symm.trans hk)]
      · rfl

theorem lookup_putToken (tokens : List (Text × String)) (key : Text) (token : String) (k : Text) :
    (putToken tokens key token).lookup k = if k = key then some token else tokens.lookup k := by
  rw [putToken, List.lookup_append, lookup_filter_ne]
  split_ifs with hk
  · simp [hk]
  · simp [List.lookup_cons, beq_false_of_ne hk]

end

/-- Two texts are spellings of one value. -/
def Value.Same (v w : String) : Prop := normalize v.toList = normalize w.toList

instance (v w : String) : Decidable (Value.Same v w) := inferInstanceAs (Decidable (_ = _))

/-- Of entries that are put into a table one after the other, the last one with a key is found. -/
theorem lookup_foldl_putToken (rs : List (String × String)) (k : String) :
    (rs.foldl (fun ts r => putToken ts (Value.normalize r.1.toList) r.2) []).lookup
      (Value.normalize k.toList) =
        (rs.filter fun r => Value.Same r.1 k).getLast?.map (·.2) := by
  induction rs using List.reverseRecOn with
  | nil => rfl
  | append_singleton rs r ih =>
    rw [List.foldl_concat, lookup_putToken, ih, List.filter_append]
    by_cases hr : Value.Same r.1 k
    · rw [if_pos (Eq.symm hr), List.filter_cons_of_pos (by simpa using hr)]
      simp
    · rw [if_neg (fun h => hr h.symm), List.filter_cons_of_neg (by simpa using hr)]
      simp

/-- Of the replacements for a value in one of its spellings, the one with the greatest spelling. -/
structure Governs (replacements : List (String × String)) (k : String) (e : String × String) :
    Prop where
  mem : e ∈ replacements
  same : Value.Same e.1 k
  greatest : ∀ e' ∈ replacements, Value.Same e'.1 k → e'.1 ≤ e.1

/-- **A value that is named by some replacement is replaced by the token of the greatest one.** -/
theorem exists_lookup_tokenTable {replacements : List (String × String)} {e : String × String}
    (he : e ∈ replacements) : ∃ e', Governs replacements e.1 e' ∧
      (tokenTable replacements).lookup (Value.normalize e.1.toList) = some e'.2 := by
  have hsorted := pairwise_mergeSort_of (r := fun a b : String × String => a.1 ≤ b.1)
    (fun _ _ _ => String.le_trans) (fun a b => String.le_total a.1 b.1) replacements
  rw [tokenTable, lookup_foldl_putToken]
  have hmem : ∀ {e'}, e' ∈ (replacements.mergeSort fun a b => a.1 ≤ b.1).filter
      (fun r => Value.Same r.1 e.1) ↔ e' ∈ replacements ∧ Value.Same e'.1 e.1 := by
    simp
  generalize replacements.mergeSort (fun a b => a.1 ≤ b.1) = sorted at hsorted hmem
  have hpair := hsorted.filter fun r => decide (Value.Same r.1 e.1)
  rcases List.eq_nil_or_concat (sorted.filter fun r => Value.Same r.1 e.1) with
    hnil | ⟨lead, last, hlast⟩
  · have := hmem.mpr ⟨he, rfl⟩
    rw [hnil] at this
    cases this
  · rw [List.concat_eq_append] at hlast
    rw [hlast] at hpair hmem ⊢
    obtain ⟨hin, hlastsame⟩ := hmem.mp (List.mem_append_right lead (List.mem_singleton.mpr rfl))
    refine ⟨last, ⟨hin, hlastsame, fun e' he' hsame => ?_⟩, by simp⟩
    rcases List.mem_append.mp (hmem.mpr ⟨he', hsame⟩) with hlead | heq
    · exact (List.pairwise_append.mp hpair).2.2 e' hlead last (by simp)
    · obtain rfl := List.mem_singleton.mp heq
      exact String.le_refl _

/-! ### Plans -/

/-- What is planned for a value that a token takes the place of. -/
def ValueSite.planned (v : ValueSite) (token : String) : FixPlan :=
  ⟨[⟨v.span, token.toList⟩], token.toList⟩

theorem planValue_substitute {v : ValueSite} {tokens : List (Text × String)} {token : String}
    (hcontext : v.context = .declaration)
    (htoken : tokens.lookup (Value.normalize v.value) = some token) :
    planValue v (.substitute tokens) = .ok (v.planned token) := by
  rw [planValue, htoken, hcontext]
  rfl

theorem RuleSpec.autofix_of_compile {s : RuleSpec} {r : Rule} {component : Option String}
    {replacements : List (String × String)} (h : s.compile = .ok r)
    (hpattern : s.pattern.isTag = false) (hfix : s.autofix = .substitution component replacements) :
    r.autofix = .substitute (tokenTable replacements) := by
  obtain ⟨-, hp, ha⟩ := compile_eq_ok h
  have htag : r.pattern.isTag = false := (PatternSpec.isTag_of_compile hp).trans hpattern
  rw [hfix, AutofixSpec.compile_substitution htag] at ha
  split_ifs at ha
  exact (Except.ok.inj ha).symm

/-- **Every replacement takes effect, unless a greater spelling of its value has another token**:
for a value in a declaration that a replacement of the rule names, the token of the greatest
spelling is planned. -/
theorem planValue_replacement {c : Config} {g : Registry} (hg : Registry.ofConfig c = .ok g)
    {s : RuleSpec} (hs : s ∈ c.rules) (hpattern : s.pattern.isTag = false)
    {component : Option String} {replacements : List (String × String)}
    (hfix : s.autofix = .substitution component replacements) {k token : String}
    (hmem : (k, token) ∈ replacements) {v : ValueSite} (hvalue : v.value = k.toList)
    (hcontext : v.context = .declaration) :
    ∃ r, g.rule? s.id = some r ∧
      (∃ e, Governs replacements k e ∧ planValue v r.autofix = .ok (v.planned e.2)) ∧
      ((∀ e ∈ replacements, Value.Same e.1 k → k ≤ e.1 → e.2 = token) →
        planValue v r.autofix = .ok (v.planned token)) := by
  obtain ⟨r, hr, hcompile⟩ := Registry.exists_rule hg hs
  have hid : r.id = s.id := (RuleSpec.compile_eq_ok hcompile).1
  obtain ⟨e, he, hlookup⟩ := exists_lookup_tokenTable hmem
  have hplan : planValue v r.autofix = .ok (v.planned e.2) := by
    rw [RuleSpec.autofix_of_compile hcompile hpattern hfix]
    exact planValue_substitute hcontext (by rw [hvalue, hlookup])
  refine ⟨r, hid ▸ Registry.rule?_eq_some hg hr, ⟨e, he, hplan⟩, fun hsame => ?_⟩
  rw [hplan, hsame e he.mem he.same (he.greatest _ hmem rfl)]

/-- Replacements for two values, one of them in two spellings. -/
def sampleReplacements : List (String × String) :=
  [("#FFF", "var(--a)"), ("#fff", "var(--b)"), ("rgb(255, 0, 0)", "var(--r)")]

/-- A value that has one spelling in the table. -/
theorem planValue_replacement_red :
    let v : ValueSite := ⟨⟨8, 22⟩, "rgb(255, 0, 0)".toList, "color".toList, .declaration⟩
    ∃ g, Registry.ofConfig (.ofRules [.ofColor sampleReplacements]) = .ok g ∧
      ∃ r, g.rule? "color" = some r ∧ planValue v r.autofix = .ok (v.planned "var(--r)") := by
  intro v
  have hg : Registry.ofConfig (.ofRules [.ofColor sampleReplacements]) =
    .ok (.ofRules [.ofColor sampleReplacements]) := rfl
  have hmem : ("rgb(255, 0, 0)", "var(--r)") ∈ sampleReplacements := by decide
  obtain ⟨r, hr, -, hplan⟩ := planValue_replacement hg (s := .ofColor sampleReplacements) (v := v)
    (List.mem_singleton.mpr rfl) rfl rfl hmem rfl rfl
  exact ⟨_, hg, r, hr, hplan (by decide +kernel)⟩

/-- Of the value with two spellings the smaller one stands in a style sheet; it is a finding, and
the token of the greater one is planned in its place. -/
theorem exists_overwritten :
    let file := Source.ofText "a.css" "p\x7bcolor:#FFF;\x7d".toList
    let v : ValueSite := ⟨⟨8, 12⟩, "#FFF".toList, "color".toList, .declaration⟩
    ∃ g, Registry.ofConfig (.ofRules [.ofColor sampleReplacements]) = .ok g ∧
      ∃ r, g.rule? "color" = some r ∧ .value v ∈ r.sites g.approvals file ∧
        ("#FFF", "var(--a)") ∈ sampleReplacements ∧
        planValue v r.autofix = .ok (v.planned "var(--b)") := by
  intro file v
  have hrules : (Registry.ofRules [.ofColor sampleReplacements]).rules =
      [⟨"color", .colorToken, .high, .declaration ⟨["color"], ["bg"], none⟩,
        .substitute (tokenTable sampleReplacements), none, none, none⟩] := rfl
  have happrovals : (Registry.ofRules [.ofColor sampleReplacements]).approvals =
      (tokenTable sampleReplacements).map fun t => (.colorToken, Approval.ofText t.2.toList) := by
    have happrovals : (Registry.ofRules [.ofColor sampleReplacements]).approvals =
        approvalsOf (.ofRules [.ofColor sampleReplacements])
          (Registry.ofRules [.ofColor sampleReplacements]).rules := rfl
    rw [happrovals, hrules]
    simp [approvalsOf, Rule.tokens, Config.ofRules, Config.empty]
  have htable : tokenTable sampleReplacements =
      [("#fff".toList, "var(--b)"), ("rgb(255,0,0)".toList, "var(--r)")] := by
    simp only [tokenTable, mergeSort_eq_sortUpTo]
    decide +kernel
  refine ⟨.ofRules [.ofColor sampleReplacements], rfl, _, by rw [Registry.rule?, hrules]; rfl, ?_⟩
  rw [htable, happrovals, htable]
  simp only [Rule.sites, DeclarationPattern.sites, mergeSort_eq_sortUpTo]
  decide +kernel

end DesignLint
