import DesignLint.Proofs.Fix.Plan
import DesignLint.Proofs.Rule.Registry

/-!
# Tokens are approved

A token that a rule puts in place of a value is approved in the category of the rule
(`approves_of_mem_tokens`). In a utility class a token is written with underscores for spaces, and
read back with spaces for underscores. What is read back is approved if the token has no underscore,
or if it is a reference to a token all the same (`approves_read_write`).
-/

namespace DesignLint

/-! ### Approvals -/

theorem Approval.covers_ofText (entry : Text) :
    (Approval.ofText entry).covers (Value.normalize entry) := by
  simp only [ofText]
  split_ifs
  · exact List.isPrefixOf_iff_prefix.mpr (List.dropLast_prefix _)
  · exact beq_self_eq_true _

/-- **The tokens of a rule are approved in its category.** -/
theorem approves_of_mem_tokens {c : Config} {g : Registry} (hg : Registry.ofConfig c = .ok g)
    {r : Rule} (hr : r ∈ g.rules) {token : String} (ht : token ∈ r.tokens) :
    g.approvals.approves r.category token.toList := by
  have happrovals : g.approvals = approvalsOf c g.rules := by
    unfold Registry.ofConfig at hg
    split_ifs at hg
    cases hrules : compileRules [] c.rules with
    | error e =>
      rw [hrules] at hg
      cases hg
    | ok rules =>
      rw [hrules] at hg
      cases hg
      rfl
  have hmem : (r.category, Approval.ofText token.toList) ∈ g.approvals := by
    rw [happrovals, approvalsOf]
    exact List.mem_append_right _ (List.mem_flatMap.mpr ⟨r, hr, List.mem_map_of_mem ht⟩)
  rw [Approvals.approves, Bool.or_eq_true, List.any_eq_true]
  exact Or.inr ⟨_, hmem, by simp [Approval.covers_ofText]⟩

/-! ### Tokens in utility classes -/

namespace Value

variable {t : Text}

theorem ofClassName_eq_self (h : '_' ∉ t) : ofClassName t = t := by
  have hsame : ∀ c ∈ t, (if c == '_' then ' ' else c) = id c := by
    intro c hc
    rw [if_neg fun heq => h ?_, id_eq]
    rwa [← beq_iff_eq.mp heq]
  rw [ofClassName, List.map_congr_left hsame, List.map_id]

theorem toClassName_eq_self (h : ∀ c ∈ t, ¬ isBlank c) : toClassName t = t := by
  rw [toClassName, Text.trim_eq_self h]
  have hsame : ∀ c ∈ t, (if c == ' ' then '_' else c) = id c := by
    intro c hc
    rw [if_neg fun heq => ?_, id_eq]
    rw [beq_iff_eq.mp heq] at hc
    exact h ' ' hc (by decide)
  rw [List.map_congr_left hsame, List.map_id]

theorem ofClassName_toClassName (t : Text) :
    ofClassName (toClassName t) = ofClassName (Text.trim t) := by
  rw [ofClassName, ofClassName, toClassName, List.map_map]
  refine List.map_congr_left fun c _ => ?_
  by_cases hc : c = ' '
  · subst hc
    rfl
  · simp [hc]

/-- What a text starts with is still there when it is read in a class name and trimmed. -/
theorem prefix_trim_ofClassName {lead : Text} (hne : lead ≠ []) (hlead : lead <+: t)
    (h : ∀ c ∈ lead, c ≠ '_' ∧ ¬ isBlank c) : lead <+: Text.trim (ofClassName t) := by
  obtain ⟨rest, rfl⟩ := hlead
  have hread : ofClassName (lead ++ rest) = lead ++ ofClassName rest := by
    have := @ofClassName_eq_self lead fun hmem => (h _ hmem).1 rfl
    rw [ofClassName, List.map_append]
    exact congrArg (· ++ _) this
  rw [hread]
  obtain ⟨bs, hcs, hbs, -⟩ := Text.exists_trim (lead ++ ofClassName rest)
  have hstart : (lead ++ ofClassName rest).takeWhile isBlank = [] := by
    cases lead with
    | nil => exact absurd rfl hne
    | cons c lead => exact List.takeWhile_cons_of_neg (h c (by simp)).2
  rw [hstart, List.nil_append] at hcs
  rcases List.append_eq_append_iff.mp hcs with ⟨xs, htrim, -⟩ | ⟨xs, hxs, rfl⟩
  · exact ⟨xs, htrim.symm⟩
  · -- the blanks that are cut off at the end are none of the characters in front
    cases xs with
    | nil => exact ⟨[], by simpa using hxs⟩
    | cons x xs => exact absurd (hbs x (by simp)) (h x (by rw [hxs]; simp)).2

theorem isTokenReference_ofClassName (htrim : Text.trim t = t) (h : isTokenReference t) :
    isTokenReference (ofClassName t) := by
  by_cases hunderscore : '_' ∈ t
  swap
  · rwa [ofClassName_eq_self hunderscore]
  have hlower : '_' ∈ Text.lower t := List.mem_map.mpr ⟨'_', hunderscore, by decide⟩
  unfold isTokenReference at h ⊢
  rw [htrim] at h
  simp only [Bool.or_eq_true, List.any_eq_true] at h ⊢
  rcases h with ⟨name, hname, hprefix⟩ | h
  · obtain ⟨tail, htail⟩ := List.isPrefixOf_iff_prefix.mp hprefix
    obtain ⟨lead, rest, rfl, rfl, -⟩ := List.map_eq_append_iff.mp htail.symm
    have hplain : referenceFunctions.all fun name =>
        name != [] && name.all fun c => c != '_' && !isBlank c := by decide +kernel
    obtain ⟨hne, hchars⟩ : lead.map Char.toLower ≠ [] ∧
        ∀ c ∈ lead.map Char.toLower, c ≠ '_' ∧ isBlank c = false := by
      simpa only [Bool.and_eq_true, bne_iff_ne, List.all_eq_true, Bool.not_eq_true'] using
        List.all_eq_true.mp hplain _ hname
    refine Or.inl ⟨_, hname, List.isPrefixOf_iff_prefix.mpr (List.IsPrefix.map _ ?_)⟩
    refine prefix_trim_ofClassName (by simpa using hne) ⟨rest, rfl⟩ fun c hc => ⟨?_, fun hb => ?_⟩
    · rintro rfl
      exact (hchars '_' (List.mem_map.mpr ⟨'_', hc, by decide⟩)).1 rfl
    · have := (hchars c (List.mem_map.mpr ⟨c, hc, toLower_eq_self_of_isBlank hb⟩)).2
      rw [hb] at this
      cases this
  · refine Or.inr ?_
    have hsigil : ∀ d c tail, t = d :: c :: tail → d ≠ '_' ∧ ¬ isBlank d →
        (c.isAlpha || c == '-') = true → ∃ tail, Text.trim (ofClassName t) = d :: c :: tail := by
      intro d c tail ht hd hc
      have hne : c ≠ '_' ∧ ¬ isBlank c := by
        refine ⟨?_, fun hb => ?_⟩
        · rintro rfl
          exact absurd hc (by decide)
        · rw [not_isAlpha_of_isBlank hb, Bool.false_or, beq_iff_eq] at hc
          rw [hc] at hb
          exact absurd hb (by decide)
      obtain ⟨rest, hrest⟩ := @prefix_trim_ofClassName t [d, c] (by simp) ⟨tail, ht.symm⟩ (by
        simp only [List.mem_cons, List.not_mem_nil, or_false, forall_eq_or_imp, forall_eq]
        exact ⟨hd, hne⟩)
      exact ⟨rest, hrest.symm⟩
    split at h
    · next c tail =>
      obtain ⟨tail, htail⟩ := hsigil _ c _ rfl (by decide) h
      rw [htail]
      exact h
    · next c tail =>
      obtain ⟨tail, htail⟩ := hsigil _ c _ rfl (by decide) h
      rw [htail]
      exact h
    · have hkeywords : ∀ name ∈ keywords, '_' ∉ name := by decide +kernel
      rw [List.contains_iff_mem] at h
      exact absurd hlower (hkeywords _ h)

end Value

/-- Whether a token can be read back where it is written: in a class name an underscore is read as a
space, which matters unless the token is a reference, and the ends are trimmed. -/
def ReadsBack (token : Text) (x : ValueContext) : Prop :=
  x = .className → Text.trim token = token ∧ ('_' ∉ token ∨ Value.isTokenReference token)

/-- **A token is still approved when it is read back where it is written.** -/
theorem approves_read_write {approvals : Approvals} {c : Category} {t : Text} {x : ValueContext}
    (h : approvals.approves c t) (hread : ReadsBack t x) :
    approvals.approves c (x.read (x.write t)) := by
  by_cases hx : x = .className
  · subst hx
    obtain ⟨htrim, hplain⟩ := hread rfl
    change approvals.approves c (Value.ofClassName (Value.toClassName t))
    rw [Value.ofClassName_toClassName, htrim]
    rcases hplain with hplain | href
    · rwa [Value.ofClassName_eq_self hplain]
    · rw [Approvals.approves, Value.isTokenReference_ofClassName htrim href, Bool.true_or]
  · have hsame : x.read (x.write t) = t := by
      cases x <;> first | rfl | exact absurd rfl hx
    rwa [hsame]

/-- What is written for an unbroken token is unbroken. -/
theorem Text.Unbroken.write {t : Text} (h : t.Unbroken) (x : ValueContext) :
    (x.write t).Unbroken := by
  by_cases hx : x = .className
  · subst hx
    have hchars : ∀ c ∈ Value.toClassName t, ¬ isBreak c ∧ ¬ isBlank c := by
      intro c hc
      rw [Value.toClassName, h.trim_eq] at hc
      obtain ⟨d, hd, rfl⟩ := List.mem_map.mp hc
      by_cases hs : d = ' '
      · subst hs
        decide
      · rw [if_neg (by simpa using hs)]
        exact ⟨h.not_isBreak d hd, not_isBlank_of_not_isBreak (h.not_isBreak d hd) hs⟩
    have hne : Value.toClassName t ≠ [] := by
      rw [Value.toClassName, h.trim_eq]
      simpa using h.ne_nil
    exact .of_not_isBlank hne (fun c hc => (hchars c hc).1) fun c hc => (hchars c hc).2
  · have hsame : x.write t = t := by
      cases x <;> first | rfl | exact absurd rfl hx
    rwa [hsame]

end DesignLint
