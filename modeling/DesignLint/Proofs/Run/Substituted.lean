import DesignLint.Proofs.Fix.Preserve
import DesignLint.Proofs.Rescan.Sheet
import DesignLint.Proofs.Rescan.UtilityClass
import DesignLint.Proofs.Rule.Approval
import DesignLint.Proofs.Rule.Sample
import DesignLint.Proofs.Run.Review

/-!
# What is found again in place of a value

Suppose that a token has been written in place of a value, and that the rule looks at the file once
more (`Source.put`). The token itself is not found again, since it is approved. Where it stands as a
value of its own (`StandsIn`), nothing else is found in its context; and if it breaks nowhere, what
overlaps it is a value around it (`substituted_clean`). But in a utility class a token with
underscores is read as another value, which is found again (`exists_found_again`).
-/

namespace DesignLint

/-- A file with a text in place of a span. -/
def Source.put (file : Source) (s : Span) (t : Text) : Source :=
  { file with text := splice file.text [⟨s, t⟩] }

/-- Where a token stands that is written at an offset. -/
def tokenSpan (token : Text) (x : ValueContext) (n : Nat) : Span :=
  ⟨n + x.quotes.size, n + x.quotes.size + Text.size (x.write token)⟩

/-- A value that reaches over a span, and beyond it. -/
def ValueSite.Around (s : Span) (v : ValueSite) : Prop := s.within v.span ∧ v.span ≠ s

/-- A token that stands as a value of its own where it is written: between the brackets of a utility
class, or behind the property in a style sheet. -/
inductive StandsIn (token : Text) (kind : SourceKind) (x : ValueContext) : Prop
  | className (hx : x = .className) (hne : token ≠ [])
    (hchars : ∀ c ∈ token, c ≠ '[' ∧ c ≠ ']' ∧ (isBlank c → c = ' ')) (hread : ReadsBack token x)
  | sheet (hx : x = .declaration) (hkind : kind = .stylesheet) (hfits : Style.Fits token)
    (hcolon : ':' ∉ token) (hmark : '!' ∉ token)

namespace StandsIn

variable {token : Text} {kind : SourceKind} {x : ValueContext}

theorem context_eq (h : StandsIn token kind x) : x = .className ∨ x = .declaration := by
  cases h with
  | className hx => exact Or.inl hx
  | sheet hx => exact Or.inr hx

theorem readsBack (h : StandsIn token kind x) : ReadsBack token x := by
  cases h with
  | className _ _ _ hread => exact hread
  | sheet hx =>
    rintro rfl
    cases hx

theorem of_unbroken (h : token.Unbroken) (hread : ReadsBack token x)
    (hx : x = .className ∨ x = .declaration ∧ kind = .stylesheet) : StandsIn token kind x := by
  rcases hx with hx | ⟨hx, hkind⟩
  · refine .className hx h.ne_nil (fun c hc => ⟨?_, ?_, fun hb => ?_⟩) hread
    · rintro rfl
      exact h.not_isBreak '[' hc (by decide)
    · rintro rfl
      exact h.not_isBreak ']' hc (by decide)
    · by_contra hs
      exact not_isBlank_of_not_isBreak (h.not_isBreak c hc) hs hb
  · exact .sheet hx hkind (.of_unbroken h) (fun hc => h.not_isBreak ':' hc (by decide))
      fun hc => h.not_isBreak '!' hc (by decide)

end StandsIn

/-! ### Values of a pattern -/

section

variable {p : DeclarationPattern} {file file' : Source} {v w : ValueSite}
  {token before old after : Text}
  (hv : v ∈ p.sites file) (htext : file.text = before ++ old ++ after)
  (hspan : v.span = ⟨before.size, before.size + old.size⟩) (hw : w ∈ p.sites file')
  (htext' : file'.text =
    before ++ (v.context.quotes ++ v.context.write token ++ v.context.quotes) ++ after)

include htext' hw in
/-- A value that overlaps what is written for a token reaches over the token. -/
theorem within_of_overlaps (htoken : token.Unbroken)
    (hover : w.span.overlaps ⟨before.size, before.size + Text.size (v.context.quotes ++
      v.context.write token ++ v.context.quotes)⟩ = true) :
    (tokenSpan token v.context before.size).within w.span := by
  obtain ⟨-, hframed⟩ := DeclarationPattern.on_of_mem_sites hw
  have hquotes : v.context.quotes.size ≤ 1 := by
    rcases v.context.quotes_eq with hq | hq <;> rw [hq] <;> decide
  have hassoc : file'.text = before ++ v.context.quotes ++ v.context.write token ++
      (v.context.quotes ++ after) := by
    rw [htext']
    simp only [List.append_assoc]
  rw [hassoc] at hframed
  simp only [Span.overlaps_iff, Text.size_append] at hover
  obtain ⟨hstart, hstop⟩ := hframed.covers (htoken.write v.context)
    (by rw [Text.size_append]; omega) (by rw [Text.size_append]; omega)
  rw [Text.size_append] at hstart hstop
  exact Span.within_iff.mpr ⟨hstart, hstop⟩

include hv htext hspan hw htext' in
/-- A value that is read where a token has been written is that of a class if and only if the token
stands in place of one. -/
theorem className_iff_of_span_eq (heq : w.span = tokenSpan token v.context before.size) :
    w.context = .className ↔ v.context = .className := by
  constructor
  · intro hc
    obtain ⟨us, vs, ds, hcs, -, -, hspan'⟩ :=
      Style.exists_of_mem_classSites (p.mem_classSites hw hc)
    rw [heq, tokenSpan, Span.mk.injEq] at hspan'
    have hsame : before ++ v.context.quotes ++ v.context.write token ++
        (v.context.quotes ++ after) = us ++ vs ++ ']' :: ds := by
      rw [List.append_assoc us, ← hcs, htext']
      simp only [List.append_assoc]
    obtain ⟨-, hrest⟩ := Text.append_inj_size hsame (by simp only [Text.size_append]; omega)
    rcases v.context.quotes_eq with hq | hq
    · rw [hq, List.nil_append] at hrest
      obtain ⟨-, -, hright⟩ := DeclarationPattern.on_of_mem_sites hv
      rw [hspan, htext, hrest, ← Text.size_append] at hright
      exact hright.eq_className
    · rw [hq] at hrest
      exact absurd (List.cons.inj hrest).1 (by decide)
  · intro hc
    obtain ⟨us, vs, ds, hcs, -, -, hspan'⟩ :=
      Style.exists_of_mem_classSites (p.mem_classSites hv hc)
    rw [hspan, Span.mk.injEq] at hspan'
    have hsame : before ++ old ++ after = us ++ vs ++ ']' :: ds := by
      rw [List.append_assoc us, ← hcs, htext]
    obtain ⟨-, hrest⟩ := Text.append_inj_size hsame (by simp only [Text.size_append]; omega)
    obtain ⟨-, -, hright⟩ := DeclarationPattern.on_of_mem_sites hw
    rw [heq, htext', hrest, hc] at hright
    have hright' : Text.RightEdge w.context (before ++ Value.toClassName token ++ ']' :: ds)
        (Text.size (before ++ Value.toClassName token)) := by
      simpa [ValueContext.quotes, ValueContext.write, tokenSpan] using hright
    exact hright'.eq_className

include htext' hw in
theorem value_eq_of_span_eq (hclass : w.context = .className ↔ v.context = .className)
    (heq : w.span = tokenSpan token v.context before.size) :
    w.value = v.context.read (v.context.write token) := by
  have hslice : file'.text.slice w.span = v.context.write token := by
    have hassoc : file'.text = before ++ v.context.quotes ++ v.context.write token ++
        (v.context.quotes ++ after) := by
      rw [htext']
      simp only [List.append_assoc]
    rw [heq, hassoc, tokenSpan, ← Text.size_append before]
    exact Text.slice_append _ _ _
  have hsame : w.context.read = v.context.read := by
    by_cases hc : v.context = .className
    · rw [hc, hclass.mpr hc]
    · have hplain : ∀ x : ValueContext, x ≠ .className → x.read = id := by
        intro x hx
        cases x <;> first | rfl | exact absurd rfl hx
      rw [hplain _ hc, hplain _ fun h => hc (hclass.mp h)]
  obtain ⟨hon, -⟩ := DeclarationPattern.on_of_mem_sites hw
  rw [hon.value_eq, hslice, hsame]

include hv htext hspan hw htext' in
theorem approves_of_span_eq {approvals : Approvals} {c : Category} (htoken : token.Unbroken)
    (happroved : approvals.approves c token) (hread : ReadsBack token v.context)
    (heq : w.span = tokenSpan token v.context before.size) :
    approvals.approves c w.approvalText := by
  have hclass := className_iff_of_span_eq hv htext hspan hw htext' heq
  have hvalue := value_eq_of_span_eq hw htext' hclass heq
  have happrovalText : w.approvalText = w.value := by
    unfold ValueSite.approvalText
    split
    · next hx =>
      have hc : v.context ≠ .className := fun h => by
        rw [hclass.mpr h] at hx
        cases hx
      have hplain : w.value = token := by
        rw [hvalue]
        cases hv : v.context <;> first | rfl | exact absurd hv hc
      have hquote : ∀ c ∈ token, c ≠ '"' ∧ c ≠ '\'' ∧ c ≠ '\x60' := by
        intro c hc
        have := htoken.not_isBreak c hc
        refine ⟨?_, ?_, ?_⟩ <;> rintro rfl <;> exact this (by decide)
      rw [hplain, Value.stringLiterals_eq_nil hquote]
      rfl
    · rfl
  rw [happrovalText, hvalue]
  exact approves_read_write happroved hread

include hv htext hspan hw htext' in
theorem span_eq_of_standsIn (hlit : Value.isLiteral v.value) (hkind : file'.kind = file.kind)
    (hstands : StandsIn token file.kind v.context) (hc : w.context = v.context)
    (hover : w.span.overlaps ⟨before.size, before.size + Text.size (v.context.quotes ++
      v.context.write token ++ v.context.quotes)⟩ = true) :
    w.span = tokenSpan token v.context before.size := by
  have hquotes : v.context.quotes = [] := by
    rcases hstands.context_eq with hx | hx <;> rw [hx] <;> rfl
  simp only [tokenSpan, hquotes, List.nil_append, List.append_nil, Text.size_nil, Nat.add_zero]
    at htext' hover ⊢
  rw [List.append_assoc] at htext htext'
  cases hstands with
  | className hx hne hchars hread =>
    have hmem := p.mem_classSites hv hx
    have hmem' := p.mem_classSites hw (hc.trans hx)
    have hwrite : v.context.write token = token.map fun c => if c == ' ' then '_' else c := by
      have htrim := (hread hx).1
      rw [hx]
      change Value.toClassName token = _
      rw [Value.toClassName, htrim]
    rw [hwrite] at htext' hover ⊢
    rw [htext] at hmem
    rw [htext'] at hmem'
    have hclass : ∀ c ∈ token.map fun c => if c == ' ' then '_' else c,
        Style.isClassChar c ∧ c ≠ '[' := by
      intro c hmem
      obtain ⟨d, hd, rfl⟩ := List.mem_map.mp hmem
      obtain ⟨hopen, hclose, hblank⟩ := hchars d hd
      split_ifs with hs
      · decide
      · rw [beq_iff_eq] at hs
        have : isBlank d = false := Bool.eq_false_iff.mpr fun h => hs (hblank h)
        simp [Style.isClassChar, hclose, hopen, this]
    exact Style.span_eq_of_mem_classSites hmem hspan (by simpa using hne)
      (fun c hc => (hclass c hc).1) (fun hmem => (hclass '[' hmem).2 rfl) hmem' hover
  | sheet hx hk hfits hcolon hmark =>
    have hmem := ((p.mem_sheetSites hv hk).resolve_right (by rw [hx]; decide)).2
    have hmem' := ((p.mem_sheetSites hw (hkind.trans hk)).resolve_right (by rw [hc, hx]; decide)).2
    have hwrite : v.context.write token = token := by rw [hx]; rfl
    rw [hwrite] at htext' hover ⊢
    rw [htext] at hmem
    rw [htext'] at hmem'
    exact Style.span_eq_of_mem_sheetSites hmem hspan hlit hfits hcolon hmark hmem' hover

end

/-! ### A fix and a second look -/

theorem exists_put {file : Source} {v : ValueSite} (hv : v.On file.text) (hne : v.value ≠ [])
    (t : Text) : ∃ before old after, file.text = before ++ old ++ after ∧
      v.span = ⟨before.size, before.size + old.size⟩ ∧
      (file.put v.span t).text = before ++ t ++ after := by
  obtain ⟨before, after, htext, hstart, hstop⟩ := hv.span.slice_eq
  have hspan : v.span = ⟨before.size, before.size + (file.text.slice v.span).size⟩ := by
    rw [hstart, ← hstop]
  have hold : file.text.slice v.span ≠ [] := by
    intro hnil
    have := hv.lt hne
    rw [hnil] at hstop
    simp at hstop
    omega
  refine ⟨before, _, after, htext, hspan, ?_⟩
  change splice file.text [⟨v.span, t⟩] = _
  generalize file.text.slice v.span = old at *
  rw [hspan, htext]
  exact splice_one before old after t hold

section

variable {c : Config} {g : Registry} {file : Source} {r : Rule} {v w : ValueSite} {token : String}
  {t : Text} (hg : Registry.ofConfig c = .ok g) (hr : r ∈ g.rules) (htoken : token ∈ r.tokens)
  (ht : tokenText token v.context = .ok t) (hv : v.On file.text) (hlit : Value.isLiteral v.value)
  (hw : .value w ∈ r.sites g.approvals (file.put v.span t))

include hg hr htoken ht hv hlit hw in
/-- Where a token stands as a value of its own, a pattern finds values of other contexts only. -/
theorem context_ne_of_mem_sites {p : DeclarationPattern} (hp : r.pattern = .declaration p)
    (hmem : v ∈ p.sites file) (hstands : StandsIn token.toList file.kind v.context)
    (hover : w.span.overlaps ⟨v.span.start, v.span.start + t.size⟩ = true) :
    w.context ≠ v.context := by
  intro hc
  obtain ⟨before, old, after, htext, hspan, hput⟩ := exists_put hv (ne_nil_of_isLiteral hlit) t
  have hstart : v.span.start = before.size := by rw [hspan]
  obtain rfl := tokenText_eq ht
  rw [hstart] at hover
  obtain ⟨hw, hnot⟩ := Rule.mem_sites_of_declaration hp hw
  have hvalue := value_eq_of_span_eq hw hput (by rw [hc])
    (span_eq_of_standsIn hmem htext hspan hw hput hlit rfl hstands hc hover)
  have happrovalText : w.approvalText = w.value := by
    unfold ValueSite.approvalText
    split
    · next hx =>
      rw [hc] at hx
      rcases hstands.context_eq with h | h <;> cases hx.symm.trans h
    · rfl
  rw [happrovalText, hvalue,
    approves_read_write (approves_of_mem_tokens hg hr htoken) hstands.readsBack] at hnot
  cases hnot

include hg hr htoken ht hv hlit hw in
/-- What a pattern finds at a token that breaks nowhere and can be read back reaches beyond it. -/
theorem around_of_mem_sites {p : DeclarationPattern} (hp : r.pattern = .declaration p)
    (hmem : v ∈ p.sites file) (hbreak : Text.Unbroken token.toList)
    (hread : ReadsBack token.toList v.context)
    (hover : w.span.overlaps ⟨v.span.start, v.span.start + t.size⟩ = true) :
    w.Around (tokenSpan token.toList v.context v.span.start) := by
  obtain ⟨before, old, after, htext, hspan, hput⟩ := exists_put hv (ne_nil_of_isLiteral hlit) t
  have hstart : v.span.start = before.size := by rw [hspan]
  obtain rfl := tokenText_eq ht
  rw [hstart] at hover ⊢
  obtain ⟨hw, hnot⟩ := Rule.mem_sites_of_declaration hp hw
  refine ⟨within_of_overlaps hw hput hbreak hover, fun heq => ?_⟩
  have := approves_of_span_eq hmem htext hspan hw hput hbreak
    (approves_of_mem_tokens hg hr htoken) hread heq
  rw [hnot] at this
  cases this

include hg hr htoken ht hv hlit hw in
theorem span_ne_of_mem_sites {re : Regex} (hp : r.pattern = .regex re)
    (hmem : v ∈ re.sites file.text) : w.span ≠ ⟨v.span.start, v.span.start + t.size⟩ := by
  intro heq
  obtain ⟨before, old, after, -, hspan, hput⟩ := exists_put hv (ne_nil_of_isLiteral hlit) t
  obtain ⟨-, hraw⟩ := Regex.within_of_mem_sites hmem
  obtain ⟨hw, hnot⟩ := Rule.mem_sites_of_regex hp hw
  obtain ⟨hwithin, hraw'⟩ := Regex.within_of_mem_sites hw
  have htoken' : t = token.toList := by
    rw [hraw] at ht
    cases ht
    rfl
  have hvalue : w.value = token.toList := by
    rw [hwithin.value_eq, hraw', heq, hput, hspan, Text.slice_append, ← htoken']
    rfl
  rw [hvalue, approves_of_mem_tokens hg hr htoken] at hnot
  cases hnot

end

/-- When a rule looks at a file again, it passes over a token that it has written: a regular
expression matches something else there, if anything. What a pattern finds there stands in another
context if the token stands as a value of its own, and reaches beyond the token if that breaks
nowhere and can be read back. -/
def Rule.PassesOver (r : Rule) (g : Registry) (file : Source) (v : ValueSite) (token : String)
    (t : Text) : Prop :=
  ∀ h ∈ r.findings g.approvals (file.put v.span t),
    h.site.span.overlaps ⟨v.span.start, v.span.start + t.size⟩ →
      match r.pattern with
      | .tag _ => False
      | .regex _ => h.site.span ≠ ⟨v.span.start, v.span.start + t.size⟩
      | .declaration _ => ∃ w, h.site = .value w ∧
        (StandsIn token.toList file.kind v.context → w.context ≠ v.context) ∧
        (Text.Unbroken token.toList → ReadsBack token.toList v.context →
          w.Around (tokenSpan token.toList v.context v.span.start))

/-- **A rule passes over the tokens that it has written.** -/
theorem substituted_clean {c : Config} {g : Registry} (hg : Registry.ofConfig c = .ok g)
    {file : Source} {i : Nat} {f : Finding} {v : ValueSite} {r : Rule} {t : Text}
    (happlied : (i, t) ∈ (review g file).applied) (hf : (g.triaged file)[i]? = some f)
    (hv : f.site = .value v) (hr : g.rule? f.rule = some r) :
    planFix g file.text f = .ok ⟨[⟨v.span, t⟩], t⟩ ∧
      ∃ token ∈ r.tokens, tokenText token v.context = .ok t ∧ r.PassesOver g file v token t := by
  obtain ⟨hmem, plan, hplan, rfl⟩ := exists_plan_of_applied hg happlied hf
  obtain ⟨r', hr', hrmem, hsites, hon, ho⟩ := exists_rule_of_mem_fixableFindings hg hmem
  obtain rfl := Option.some.inj (hr.symm.trans hr')
  rw [hv] at hsites hon ho
  have hlit := obstacle?_value_eq_none ho
  have hvon := ValueSite.Within.on hon (ne_nil_of_isLiteral hlit)
  have hvalue := hplan
  rw [planFix_eq hr, hv] at hvalue
  obtain ⟨token, htoken, t, ht, rfl⟩ := exists_token_of_planValue hvalue
  refine ⟨hplan, token, htoken, ht, fun h hh hover => ?_⟩
  obtain ⟨site, hsite, rfl⟩ := List.mem_map.mp hh
  obtain ⟨w, rfl⟩ := Rule.exists_value_of_mem_sites hsites hsite
  cases hp : r.pattern with
  | tag name =>
    rcases Rule.value_mem_sites.mp hsites with ⟨p, hp', -⟩ | ⟨re, hp', -⟩
    · rw [hp] at hp'
      cases hp'
    · rw [hp] at hp'
      cases hp'
  | regex re =>
    exact span_ne_of_mem_sites hg hrmem htoken ht hvon hlit hsite hp
      (Rule.mem_sites_of_regex hp hsites).1
  | declaration p =>
    have hmem := (Rule.mem_sites_of_declaration hp hsites).1
    exact ⟨w, rfl,
      fun hstands =>
        context_ne_of_mem_sites hg hrmem htoken ht hvon hlit hsite hp hmem hstands hover,
      fun hbreak hread =>
        around_of_mem_sites hg hrmem htoken ht hvon hlit hsite hp hmem hbreak hread hover⟩

/-- A colour in a class, and a token that is read back as it is. -/
theorem substituted_clean_color :
    let g := Registry.ofRules [.ofColor [("#fff", "var(--w)")]]
    let file := Source.ofText "a.tsx" "<p className=\"bg-[#fff]\"/>".toList
    ∃ f v r t, (0, t) ∈ (review g file).applied ∧ (g.triaged file)[0]? = some f ∧
      f.site = .value v ∧ g.rule? f.rule = some r ∧ planFix g file.text f = .ok ⟨[⟨v.span, t⟩], t⟩ ∧
      ∃ token ∈ r.tokens, tokenText token v.context = .ok t ∧ r.PassesOver g file v token t ∧
        StandsIn token.toList file.kind v.context ∧ Text.Unbroken token.toList ∧
        ReadsBack token.toList v.context := by
  intro g file
  have hg : Registry.ofConfig (.ofRules [.ofColor [("#fff", "var(--w)")]]) = .ok g := rfl
  have happlied : (0, "var(--w)".toList) ∈ (review g file).applied := by
    simp only [review, rewrite, acceptFixes, fixableFindings, Registry.findings, planFix,
      planElement, spliceWithin, splice, mergeSort_eq_sortUpTo]
    decide +kernel
  have hfound : ∃ f ∈ (g.triaged file)[0]?, ∃ r ∈ g.rule? f.rule, r.tokens = ["var(--w)"] ∧
      f.site = .value ⟨⟨18, 22⟩, "#fff".toList, "bg".toList, .className⟩ := by
    simp only [Registry.triaged, Registry.findings, mergeSort_eq_sortUpTo]
    decide +kernel
  obtain ⟨f, hf, r, hr, htokens, hsite⟩ := hfound
  obtain ⟨hplan, token, htoken, ht, hclean⟩ := substituted_clean hg happlied hf hsite hr
  obtain rfl : token = "var(--w)" := by simpa [htokens] using htoken
  have hbreaks : "var(--w)".toList.all (!isBreak ·) := by decide +kernel
  have hbreak : Text.Unbroken "var(--w)".toList := ⟨by simp, by simpa using hbreaks, rfl⟩
  have hread : ReadsBack "var(--w)".toList .className := fun _ => ⟨rfl, Or.inl (by simp)⟩
  exact ⟨f, _, r, _, happlied, hf, hsite, hr, hplan, _, htoken, ht, hclean,
    .of_unbroken hbreak hread (Or.inl rfl), hbreak, hread⟩

/-- A token with an underscore is read in a class as another value, and found again. -/
theorem exists_found_again :
    let c := Config.ofRules [.ofColor [("#fff", "brand_red")]]
    let file := Source.ofText "a.tsx" "<p className=\"bg-[#fff]\"/>".toList
    ∃ g, Registry.ofConfig c = .ok g ∧ ∃ it ∈ (review g file).applied,
      ∃ f ∈ (g.triaged file)[it.1]?, ∃ r ∈ g.rule? f.rule, ∃ p ∈ (planFix g file.text f).toOption,
        ∃ h ∈ r.findings g.approvals { file with text := splice file.text p.edits },
          h.site.span.overlaps ⟨f.site.span.start, f.site.span.start + Text.size it.2⟩ := by
  intro c file
  refine ⟨.ofRules [.ofColor [("#fff", "brand_red")]], rfl, ?_⟩
  simp only [review, rewrite, acceptFixes, fixableFindings, Registry.triaged, Registry.findings,
    planFix, planElement, spliceWithin, splice, mergeSort_eq_sortUpTo]
  decide +kernel

end DesignLint
