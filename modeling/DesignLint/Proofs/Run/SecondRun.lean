import DesignLint.Proofs.Rule.Approval
import DesignLint.Proofs.Rule.Sample
import DesignLint.Proofs.Run.Review
import DesignLint.Proofs.Value

/-!
# A second run

Suppose that fixes write names that no rule looks for, and tokens (`Registry.Settled`). Then a
second run finds nothing to fix where the first one has fixed something: no rule about tags reads a
name where a name has been written, and no rule about declarations finds a constant that overlaps a
token (`not_fixed_again`).

Elsewhere it may well find something, since a place that another one has claimed in the first run is
free in the second (`exists_fixed_twice`).
-/

namespace DesignLint

open Markup

/-- The name that a fix writes in place of the name of an element. -/
def Autofix.component? : Autofix → Option String
  | .rename component => some component
  | .remap component _ _ _ => some component
  | _ => .none

/-- A call of `var`. -/
def IsTokenCall (t : Text) : Prop :=
  ∃ name, t = 'v' :: 'a' :: 'r' :: '(' :: (name ++ [')']) ∧ ∀ c ∈ name, ¬ isDelimiter c

/-- The fixes of a registry write names that none of its rules looks for, and tokens. -/
structure Registry.Settled (g : Registry) : Prop where
  component_ne : ∀ r ∈ g.rules, ∀ name, r.pattern = .tag name →
    ∀ s ∈ g.rules, s.autofix.component? ≠ some name
  component : ∀ r ∈ g.rules, ∀ name ∈ r.autofix.component?, ∀ c ∈ name.toList, ¬ endsTagName c
  token : ∀ r ∈ g.rules, ∀ t ∈ r.tokens, IsTokenCall t.toList

/-- The file that a run leaves behind when all fixes have been written. -/
def Review.fixed (r : Review) : Source := { r.source with text := r.text }

/-- A finding of a rule about declarations. -/
def Registry.Declares (g : Registry) (f : Finding) : Prop :=
  ∃ r p, g.rule? f.rule = some r ∧ r.pattern = .declaration p

/-! ### Tokens -/

namespace IsTokenCall

variable {t : Text}

theorem not_isDelimiter (h : IsTokenCall t) : ∀ c ∈ t, ¬ isDelimiter c := by
  obtain ⟨name, rfl, hname⟩ := h
  intro c hc
  simp only [List.mem_cons, List.mem_append, List.not_mem_nil, or_false] at hc
  rcases hc with rfl | rfl | rfl | rfl | hc | rfl
  · decide
  · decide
  · decide
  · decide
  · exact hname c hc
  · decide

theorem not_isBlank (h : IsTokenCall t) : ∀ c ∈ t, ¬ isBlank c := fun c hc hb =>
  h.not_isDelimiter c hc (by simp [isDelimiter, hb])

theorem unbroken (h : IsTokenCall t) : t.Unbroken := by
  refine .of_not_isBlank ?_ (fun c hc hb => h.not_isDelimiter c hc (isDelimiter_of_isBreak hb))
    h.not_isBlank
  obtain ⟨name, rfl, -⟩ := h
  simp

theorem tokenText_eq {token : String} (h : IsTokenCall token.toList) {x : ValueContext}
    (ht : tokenText token x = .ok t) : t = x.quotes ++ token.toList ++ x.quotes := by
  have hwrite : x.write token.toList = token.toList := by
    cases x <;> simp [ValueContext.write, Value.toClassName_eq_self h.not_isBlank]
  rw [DesignLint.tokenText_eq ht, hwrite]

end IsTokenCall

/-- **A constant between breaks does not overlap a token.** -/
theorem not_overlaps_of_isTokenCall {v : ValueSite} {before token q after : Text}
    (hon : v.On (before ++ (q ++ token ++ q) ++ after))
    (hframed : v.Framed (before ++ (q ++ token ++ q) ++ after)) (hlit : Value.isLiteral v.value)
    (htoken : IsTokenCall token) (hq : q = [] ∨ q = ['"']) :
    v.span.overlaps ⟨before.size, before.size + Text.size (q ++ token ++ q)⟩ = false := by
  have htext : before ++ (q ++ token ++ q) ++ after = before ++ q ++ token ++ (q ++ after) := by
    simp only [List.append_assoc]
  rw [htext] at hon hframed
  have hsize : q.size ≤ 1 := by rcases hq with rfl | rfl <;> decide
  rw [Bool.eq_false_iff]
  intro hover
  simp only [Span.overlaps_iff, Text.size_append] at hover
  obtain ⟨hstart, hstop⟩ := hframed.covers htoken.unbroken
    (by rw [Text.size_append]; omega) (by rw [Text.size_append]; omega)
  obtain ⟨hbs, hbe, -⟩ := Span.on_iff.mp hon.span
  obtain ⟨hts, hte, -⟩ := Span.on_iff.mp (Span.on_append (before ++ q) token (q ++ after))
  have hslice := Text.slice_append_slice hts hte hbe (Nat.le_add_right _ _) hstop
  have hslice' := Text.slice_append_slice hbs hts hbe hstart
    (Nat.le_trans (Nat.le_add_right _ _) hstop)
  rw [Text.slice_append] at hslice
  have hinfix : token <:+: (before ++ q ++ token ++ (q ++ after)).slice v.span :=
    ⟨_, _, (List.append_assoc _ _ _).trans ((congrArg _ hslice).trans hslice')⟩
  have hcall : ['r', '('] <:+: token := by
    obtain ⟨name, rfl, -⟩ := htoken
    exact ⟨['v', 'a'], name ++ [')'], rfl⟩
  refine Value.not_infix_of_isLiteral hlit ?_
  rw [hon.value_eq]
  unfold ValueContext.read
  split
  · exact (hcall.trans hinfix).map fun c => if c == '_' then ' ' else c
  · exact hcall.trans hinfix

/-! ### Names -/

/-- What may follow a name that has been written: the name ends there, or goes on with something
that is in no name of a tag. -/
def Closes (rest : Text) : Prop :=
  ∃ us c ds, rest = us ++ c :: ds ∧ (∀ d ∈ us, ¬ endsTagName d) ∧ ¬ isNameChar c ∧
    (us = [] ∨ ¬ endsTagName c)

theorem closes_of_endsTagName {c : Char} (h : endsTagName c) (ds : Text) : Closes (c :: ds) :=
  ⟨[], c, ds, rfl, by simp, not_isNameChar_of_endsTagName h, Or.inl rfl⟩

theorem closes_tokenText {token : String} (htoken : IsTokenCall token.toList) {x : ValueContext}
    {t : Text} (h : tokenText token x = .ok t) (rest : Text) : Closes (t ++ rest) := by
  rw [htoken.tokenText_eq h]
  rcases x.quotes_eq with hq | hq
  · obtain ⟨name, hname, -⟩ := htoken
    refine ⟨['v', 'a', 'r'], '(', name ++ [')'] ++ rest, ?_, fun d hd => ?_, by decide,
      Or.inr (by decide)⟩
    · rw [hq, hname]
      simp
    · simp only [List.mem_cons, List.not_mem_nil, or_false] at hd
      rcases hd with rfl | rfl | rfl <;> decide
  · exact ⟨[], '"', token.toList ++ ['"'] ++ rest, by simp [hq], by simp, by decide, Or.inl rfl⟩

theorem eq_of_closes {name component rest ds : Text} {c : Char}
    (hname : ∀ d ∈ name, isNameChar d) (hcomponent : ∀ d ∈ component, ¬ endsTagName d)
    (hrest : Closes rest) (hc : endsTagName c) (h : name ++ c :: ds = component ++ rest) :
    name = component := by
  obtain ⟨us, x, ys, rfl, hus, hx, hend⟩ := hrest
  have hnil : c = x → us = [] := by
    rintro rfl
    exact hend.resolve_right (not_not.mpr hc)
  rw [← List.append_assoc] at h
  rcases List.append_eq_append_iff.mp h with ⟨ws, heq, hws⟩ | ⟨ws, rfl, hws⟩
  · rcases ws with _ | ⟨w, ws⟩
    · obtain rfl := hnil (List.cons.inj hws).1
      simpa using heq.symm
    · obtain rfl := (List.cons.inj hws).1
      have hmem : c ∈ component ++ us := by simp [heq]
      rcases List.mem_append.mp hmem with hmem | hmem
      · exact absurd hc (hcomponent c hmem)
      · exact absurd hc (hus c hmem)
  · rcases ws with _ | ⟨w, ws⟩
    · obtain rfl := hnil (List.cons.inj hws).1.symm
      simp
    · obtain rfl := (List.cons.inj hws).1
      exact absurd (hname x (by simp)) hx

section

variable {c : Config} {g : Registry} {file : Source} {i : Nat} {f : Finding} {e : Element}

theorem start_closing_ne {name name' : Text} {e e' : Element} {cs : Text}
    (hname : ∀ d ∈ name, isNameChar d) (he : e ∈ findElements cs name)
    (he' : e' ∈ findElements cs name') {s : Span} (hs : s ∈ e'.closing) :
    s.start ≠ e.name.stop := by
  obtain ⟨us, c, ds, hcs, -, hspan⟩ := exists_name_of_mem_findElements hname he
  obtain ⟨us', ds', hcs', hstart⟩ := exists_closing_of_mem_findElements he' hs
  intro heq
  have hl : '<'.utf8Size = 1 := rfl
  have hr : '/'.utf8Size = 1 := rfl
  have hsame : (us ++ '<' :: name) ++ c :: ds = (us' ++ ['<', '/']) ++ ds' := by
    rw [List.append_assoc, List.append_assoc]
    exact hcs.symm.trans hcs'
  obtain ⟨hfront, -⟩ := Text.append_inj_size hsame (by
    rw [hspan] at heq
    simp only [Text.size_append, Text.size_cons, Text.size_nil, hl, hr] at heq ⊢
    omega)
  have hrev := congrArg List.reverse hfront
  simp only [List.reverse_append, List.reverse_cons, List.reverse_nil, List.nil_append,
    List.cons_append, List.append_assoc] at hrev
  cases hn : name.reverse with
  | nil =>
    rw [hn] at hrev
    simp at hrev
  | cons d ds =>
    rw [hn, List.cons_append, List.cons.injEq] at hrev
    have hmem : d ∈ name := by
      rw [← List.mem_reverse, hn]
      simp
    have := hname d hmem
    rw [hrev.1] at this
    exact absurd this (by decide)

/-- The tag of one element does not start inside of the tag of another, up to the end of its
name. -/
theorem start_ne_of_clashes {e' : Element} {cs : Text} (he : e.On cs) (he' : e'.On cs)
    (hclash : (Site.element e').clashes (.element e) = false) {n : Nat}
    (hn : e'.name.start ≤ n) (hn' : n < e'.tag.stop) : n ≠ e.name.stop := by
  rintro rfl
  have h1 := he.name_start
  have h2 := he.name_lt
  have h3 := he.name_le
  have h4 := he'.name_start
  have h5 : e'.tag.overlaps e.tag = true := Span.overlaps_iff.mpr (by omega)
  rw [Site.clashes, Site.span, Site.span, h5] at hclash
  cases hclash

/-- An accepted edit that starts where a renamed element has its name end writes a token. -/
theorem exists_token_of_start (hg : Registry.ofConfig c = .ok g) (hf : (g.triaged file)[i]? = some f)
    (hsite : f.site = .element e) {name : String} (hname : isTagName name)
    (hfound : e ∈ findElements file.text name.toList) (hon : e.On file.text) {p : FixPlan}
    (hp : planFix g file.text f = .ok p) {component : Text}
    (hedits : ElementEdits file.text e component component none p.edits) {d : Edit}
    (hd : d ∈ (acceptFixes g file.text (g.triaged file)).edits) (hstart : d.span.start = e.name.stop) :
    ∃ r ∈ g.rules, ∃ token ∈ r.tokens, ∃ x, tokenText token x = .ok d.text := by
  obtain ⟨j, h, q, hmem, -, hq, hdq⟩ := exists_of_mem_edits hg hd
  obtain ⟨r, hr, hrmem, hsites, hhon, -⟩ := exists_rule_of_mem_fixableFindings hg hmem
  have hh := (mem_fixableFindings.mp hmem).1
  have hplan := hq
  rw [planFix_eq hr] at hplan
  cases hhsite : h.site with
  | value v =>
    rw [hhsite] at hplan
    obtain ⟨token, htoken, t, ht, rfl⟩ := exists_token_of_planValue hplan
    rw [List.mem_singleton.mp hdq]
    exact ⟨r, hrmem, token, htoken, v.context, ht⟩
  | element e' =>
    rw [hhsite] at hplan hhon hsites
    have hon' : e'.On file.text := hhon
    obtain ⟨name', -, -, hfound'⟩ := Rule.element_mem_sites.mp hsites
    have hclosing : ∀ s ∈ e'.closing, s.start ≠ e.name.stop := fun s hs =>
      start_closing_ne (isNameChar_of_isTagName hname) hfound hfound' hs
    exfalso
    by_cases hij : j = i
    · -- the edits of the element itself are for its name and its closing tag
      subst hij
      obtain rfl : h = f := Option.some.inj (hh.symm.trans hf)
      obtain rfl : e' = e := by simpa [hhsite] using hsite
      obtain rfl : q = p := Except.ok.inj (hq.symm.trans hp)
      rcases hedits.cases_mem hdq with rfl | ⟨a, ha, -⟩ | ⟨s, hs, rfl⟩
      · have := hon.name_lt
        simp only at hstart
        omega
      · cases ha
      · exact hclosing s hs hstart
    · have hclash := Registry.clashes_triaged hh hf hij
      rw [hhsite, hsite] at hclash
      have hne := @start_ne_of_clashes e e' _ hon hon' hclash
      obtain ⟨_, _, _, hedits'⟩ := exists_edits_of_planElement hplan
      rcases hedits'.cases_mem hdq with rfl | ⟨a, ha, rfl⟩ | ⟨s, hs, rfl⟩
      · exact hne (Nat.le_refl _) (Nat.lt_of_lt_of_le hon'.name_lt hon'.name_le) hstart
      · obtain ⟨-, h1, h2, -⟩ := withLead_spec hon' (hedits'.dropped_mem a ha)
        have h3 := hon'.attributes a (hedits'.dropped_mem a ha)
        have h4 := hon'.name_lt
        exact hne (by simp only; omega) (by simp only; omega) hstart
      · exact hclosing s hs hstart

theorem closes_patch (hg : Registry.ofConfig c = .ok g) (hset : g.Settled)
    (hf : (g.triaged file)[i]? = some f) (hsite : f.site = .element e) {name : String}
    (hname : isTagName name) (hfound : e ∈ findElements file.text name.toList)
    (hon : e.On file.text) {p : FixPlan} (hp : planFix g file.text f = .ok p) {component : Text}
    (hedits : ElementEdits file.text e component component none p.edits) {gs : List Edit}
    (hord : Ordered file.text e.name.stop gs)
    (hgs : ∀ d ∈ gs, d ∈ (acceptFixes g file.text (g.triaged file)).edits) :
    Closes (patch file.text e.name.stop gs) := by
  obtain ⟨us, x, ds, hcs, hends, hspan⟩ :=
    exists_name_of_mem_findElements (isNameChar_of_isTagName hname) hfound
  have hdrop : file.text.dropBytes e.name.stop = x :: ds := by
    have hcs' : file.text = (us ++ '<' :: name.toList) ++ x :: ds := by
      rw [hcs, List.append_assoc, List.cons_append]
    have hstop : e.name.stop = Text.size (us ++ '<' :: name.toList) := by
      have hl : '<'.utf8Size = 1 := rfl
      rw [hspan, Text.size_append, Text.size_cons, hl]
      simp only
      omega
    rw [hstop, hcs', Text.dropBytes_size_append]
  cases gs with
  | nil =>
    rw [patch, hdrop]
    exact closes_of_endsTagName hends ds
  | cons d gs =>
    obtain ⟨hb, hle, hdon, -, -⟩ := hord
    obtain ⟨hdb, -, -⟩ := Span.on_iff.mp hdon
    have hsize := Text.size_slice hb hdb hle
    rw [patch]
    by_cases hstart : d.span.start = e.name.stop
    · obtain ⟨r, hr, token, htoken, y, ht⟩ := exists_token_of_start hg hf hsite hname hfound hon hp
        hedits (hgs d (by simp)) hstart
      have hnil : file.text.slice ⟨e.name.stop, d.span.start⟩ = [] := by
        rw [← Text.size_eq_zero, hsize, hstart, Nat.sub_self]
      rw [hnil, List.nil_append]
      exact closes_tokenText (hset.token r hr token htoken) ht _
    · have hfront := Text.slice_append_dropBytes hb hdb hle
      rw [hdrop] at hfront
      cases hslice : file.text.slice ⟨e.name.stop, d.span.start⟩ with
      | nil =>
        rw [hslice, Text.size_nil] at hsize
        omega
      | cons y ys =>
        rw [hslice, List.cons_append, List.cons.injEq] at hfront
        rw [List.cons_append, List.cons_append, hfront.1]
        exact closes_of_endsTagName hends _

/-! ### The second run -/

/-- What a second run reads behind a place where an edit of the first one starts is the text of the
edit, and then what the first run has made of the rest of the file. -/
theorem exists_patch_of_start (hg : Registry.ofConfig c = .ok g) {d : Edit}
    (hd : d ∈ (acceptFixes g file.text (g.triaged file)).edits) {us rest : Text}
    (htext : (review g file).text = us ++ rest)
    (hstart : us.size = moved (acceptFixes g file.text (g.triaged file)).edits d.span.start) :
    ∃ gs, rest = d.text ++ patch file.text d.span.stop gs ∧ Ordered file.text d.span.stop gs ∧
      ∀ h ∈ gs, h ∈ (acceptFixes g file.text (g.triaged file)).edits := by
  obtain ⟨before, gs, hsplice, hsize, hord, hgs⟩ :=
    (spliceable_acceptFixes hg file).exists_splice_edit hd
  refine ⟨gs, ?_, hord, hgs⟩
  rw [review_text, hsplice, List.append_assoc] at htext
  exact (Text.append_inj_size htext.symm (hstart.trans hsize.symm)).2

/-- Where a name has been written, no rule about tags reads a name. -/
theorem start_name_ne_moved (hg : Registry.ofConfig c = .ok g) (hset : g.Settled) {t : Text}
    (happlied : (i, t) ∈ (rewrite g file.text (g.triaged file)).applied)
    (hf : (g.triaged file)[i]? = some f) (hsite : f.site = .element e) {r : Rule} (hr : r ∈ g.rules)
    {name : String} (hpattern : r.pattern = .tag name) {e' : Element}
    (hfound : e' ∈ findElements (review g file).text name.toList) :
    e'.name.start ≠ moved (acceptFixes g file.text (g.triaged file)).edits e.name.start := by
  obtain ⟨hmem, p, hp, -⟩ := exists_plan_of_applied hg happlied hf
  obtain ⟨s, hs, hsmem, hsites, hon, -⟩ := exists_rule_of_mem_fixableFindings hg hmem
  have hname := isNameChar_of_isTagName (Registry.isTagName_of_ofConfig hg hr hpattern)
  have hplan := hp
  rw [planFix_eq hs] at hplan
  rw [hsite] at hplan hsites hon
  obtain ⟨us, x, ds, htext, hends, hspan⟩ := exists_name_of_mem_findElements hname hfound
  intro hstart
  have hread : ∀ opening : Text, (⟨e.name, opening⟩ : Edit) ∈ p.edits →
      ∃ gs, name.toList ++ x :: ds = opening ++ patch file.text e.name.stop gs ∧
        Ordered file.text e.name.stop gs ∧
        ∀ d ∈ gs, d ∈ (acceptFixes g file.text (g.triaged file)).edits := by
    intro opening hd
    have hfront : (review g file).text = (us ++ ['<']) ++ (name.toList ++ x :: ds) := by
      rw [htext, List.append_assoc, List.singleton_append]
    refine exists_patch_of_start hg (mem_edits_of_applied hg happlied hf hp hd) hfront ?_
    have hl : '<'.utf8Size = 1 := rfl
    rw [hspan] at hstart
    simpa [hl] using hstart
  have hne : ∀ component, s.autofix.component? = some component →
      name.toList = component.toList → False := by
    intro component hc heq
    rw [← String.toList_inj.mp heq] at hc
    exact hset.component_ne r hr name hpattern s hsmem hc
  rcases (planElement_eq_ok hplan).2 with ⟨component, hfix, hedits⟩ |
    ⟨component, target, fallback, ms, value, hfix, -, -, hedits⟩
  · have hc : s.autofix.component? = some component := by rw [hfix]; rfl
    obtain ⟨closing, -, heq⟩ := hedits.edits_eq
    obtain ⟨gs, htext', hord, hgs⟩ := hread component.toList (by rw [heq]; simp)
    obtain ⟨name', hpattern', -, hfound'⟩ := Rule.element_mem_sites.mp hsites
    have hclose := closes_patch hg hset hf hsite
      (Registry.isTagName_of_ofConfig hg hsmem hpattern') hfound' hon hp hedits hord hgs
    exact hne component hc
      (eq_of_closes hname (hset.component s hsmem component hc) hclose hends htext')
  · have hc : s.autofix.component? = some component := by rw [hfix]; rfl
    obtain ⟨closing, -, heq⟩ := hedits.edits_eq
    obtain ⟨gs, htext', -, -⟩ := hread (openingText component target value)
      (by rw [heq]; simp)
    have hopening : openingText component target value ++ patch file.text e.name.stop gs =
        component.toList ++ ' ' :: (target.toList ++ "=\"".toList ++ value.toList ++ ['"'] ++
          patch file.text e.name.stop gs) := by
      simp [openingText]
    rw [hopening] at htext'
    exact hne component hc (eq_of_closes hname (hset.component s hsmem component hc)
      (closes_of_endsTagName (by decide) _) hends htext')

end

/-! ### A sample -/

/-- Rules about two tags and about colours. -/
def settledRules : List RuleSpec :=
  [.ofTag "div" (.substitution (some "Div") []), .ofTag "button" (.substitution (some "Button") []),
    .ofColor [("#fff", "var(--w)")]]

theorem settled_settledRules : (Registry.ofRules settledRules).Settled := by
  have hrules : (Registry.ofRules settledRules).rules =
      [⟨"div", .componentUsage, .high, .tag "div", .rename "Div", none, none, none⟩,
        ⟨"button", .componentUsage, .high, .tag "button", .rename "Button", none, none, none⟩,
        ⟨"color", .colorToken, .high, .declaration ⟨["color"], ["bg"], none⟩,
          .substitute (tokenTable [("#fff", "var(--w)")]), none, none, none⟩] := rfl
  have htokens : (tokenTable [("#fff", "var(--w)")]).map (·.2) = ["var(--w)"] := by
    simp [tokenTable, putToken]
  refine ⟨by simp [hrules, Autofix.component?], fun r hr name hname c hc => ?_, fun r hr t ht => ?_⟩
  · have hall : (Registry.ofRules settledRules).rules.all (fun r =>
        r.autofix.component?.all (·.toList.all (!endsTagName ·))) = true := by
      rw [hrules]
      decide
    rw [List.all_eq_true] at hall
    simpa using List.all_eq_true.mp ((Option.all_eq_true _ _).mp (hall r hr) name hname) c hc
  · simp only [hrules, List.mem_cons, List.not_mem_nil, or_false] at hr
    rcases hr with rfl | rfl | rfl
    · cases ht
    · cases ht
    · change t ∈ (tokenTable [("#fff", "var(--w)")]).map (·.2) at ht
      rw [htokens, List.mem_singleton] at ht
      subst ht
      refine ⟨"--w".toList, rfl, fun c hc => ?_⟩
      simp at hc
      rcases hc with rfl | rfl <;> decide

/-- A second run finds something to fix, and changes the file. -/
def FixedTwice (g : Registry) (file : Source) : Prop :=
  (∃ h ∈ ((review g (review g file).fixed).result .fix .written).findings,
    h.confidence = some .autoFixable) ∧ (review g (review g file).fixed).text ≠ (review g file).text

instance (g : Registry) (file : Source) : Decidable (FixedTwice g file) :=
  inferInstanceAs (Decidable (_ ∧ _))

end DesignLint
