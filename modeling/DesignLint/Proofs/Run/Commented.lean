import DesignLint.Proofs.Run.Untouched
import DesignLint.Proofs.Style.BlockComment

/-!
# What is found in block comments

No element starts in a block comment, and no value that is declared in a style sheet. The values of
utility classes and of style objects are looked for in comments, too; and two slashes behind code on
their line make the reader of template literals lose its way, so that a value may be declared in
what another reader takes for a comment (`ValueSite.Overlooked`). These are all findings that start
in a block comment, and all values that a rewrite changes there (`Registry.commented`).
-/

namespace DesignLint

/-- The block comments of a file. -/
def Source.blockComments (file : Source) : List Span :=
  match file.kind with
  | .stylesheet => Style.blockComments (.code true) 0 0 file.text
  | .script =>
    (Markup.commentSpans file.text).filter fun s => ['/', '*'].isPrefixOf (file.text.slice s)

/-- A value that is found although it starts in a comment. -/
inductive ValueSite.Overlooked (file : Source) (s : Span) (v : ValueSite) : Prop
  /-- Comments are not left out where utility classes are looked for. -/
  | inClass (h : v.context = .className)
  /-- Nor where style objects are. -/
  | inObject (hkind : file.kind = .script) (watches : Text → Bool)
    (h : v ∈ Style.inlineSites watches file.text)
  /-- To the reader of template literals the two slashes at `o` start a comment, to the reader of
  comments they do not, since something precedes them on their line. -/
  | inTemplate (hkind : file.kind = .script) (h : v.context = .declaration) (o : Nat) (bs : Text)
    (hlt : o < s.start) (hslashes : Markup.Reached file.text false ⟨o, '/' :: '/' :: bs⟩)

section

variable {c : Config} {g : Registry} {file : Source} {s : Span}

theorem mem_commentSpans (hkind : file.kind = .script) (hs : s ∈ file.blockComments) :
    s ∈ Markup.commentSpans file.text := by
  unfold Source.blockComments at hs
  rw [hkind] at hs
  exact List.mem_of_mem_filter hs

theorem not_holds_of_mem_findElements {name : Text} {e : Element} (hkind : file.kind = .script)
    (he : e ∈ Markup.findElements file.text name) (hs : s ∈ file.blockComments) :
    ¬ s.Holds e.tag.start := by
  intro hc
  have hout := Markup.not_inSpans_of_mem_findElements he
  rw [Markup.inSpans, List.any_eq_false] at hout
  exact hout s (mem_commentSpans hkind hs) (by simpa [Span.Holds] using hc)

theorem head?_of_mem_blockComments {as bs : Text} (hkind : file.kind = .script)
    (hs : s ∈ file.blockComments) (htext : file.text = as ++ bs) (hstart : s.start = as.size) :
    bs.head? = some '/' := by
  unfold Source.blockComments at hs
  rw [hkind] at hs
  obtain ⟨rest, hrest⟩ := List.isPrefixOf_iff_prefix.mp (List.mem_filter.mp hs).2
  rw [Text.slice, hstart, htext, Text.dropBytes_size_append] at hrest
  generalize s.stop - as.size = n at hrest
  cases bs with
  | nil => simp at hrest
  | cons b bs =>
    cases n with
    | zero => simp at hrest
    | succ n =>
      rw [Text.takeBytes, List.cons_append, List.cons.injEq] at hrest
      rw [← hrest.1]
      rfl

theorem not_holds_name_of_mem_findElements {name : String} {e : Element} (hname : isTagName name)
    (hkind : file.kind = .script) (he : e ∈ Markup.findElements file.text name.toList)
    (hs : s ∈ file.blockComments) : ¬ s.Holds e.name.start := by
  intro hc
  have hchars := isNameChar_of_isTagName hname
  have hne := toList_ne_nil_of_isTagName hname
  have hstart := (Markup.on_of_mem_findElements hne he).name_start
  obtain ⟨us, d, ds, htext, -, hspan⟩ := Markup.exists_name_of_mem_findElements hchars he
  have hfront : e.name.start = Text.size (us ++ ['<']) := by
    have h1 : '<'.utf8Size = 1 := rfl
    rw [hspan, Text.size_append, Text.size_cons, Text.size_nil, h1]
  -- otherwise the comment would hold the start of the tag
  have heq : s.start = e.name.start := by
    have hnot := not_holds_of_mem_findElements hkind he hs
    unfold Span.Holds at hnot hc
    omega
  rw [List.append_cons] at htext
  have hhead := head?_of_mem_blockComments hkind hs htext (heq.trans hfront)
  obtain ⟨b, bs, hb⟩ := List.exists_cons_of_ne_nil hne
  rw [hb] at hhead hchars
  obtain rfl : b = '/' := by simpa using hhead
  exact absurd (hchars '/' (List.mem_cons_self)) (by decide)

/-- What stands behind the start of an element and starts in a block comment is not the name of the
element, which starts in front of the comment. -/
theorem front_of_mem_findElements {name : String} {e : Element} (hname : isTagName name)
    (hkind : file.kind = .script) (he : e ∈ Markup.findElements file.text name.toList) {t : Span}
    (hle : e.tag.start ≤ t.start) (hs : s ∈ file.blockComments) (hc : s.Holds t.start) :
    e.tag.start < s.start ∧ t ≠ e.name := by
  constructor
  · by_contra hge
    exact not_holds_of_mem_findElements hkind he hs ⟨by omega, Nat.lt_of_le_of_lt hle hc.2⟩
  · rintro rfl
    exact not_holds_name_of_mem_findElements hname hkind he hs hc

/-- A value that a pattern watches is overlooked if it starts in a block comment. -/
theorem DeclarationPattern.overlooked_of_mem_sites {p : DeclarationPattern} {v : ValueSite}
    (hv : v ∈ p.sites file) (hs : s ∈ file.blockComments) (hc : s.Holds v.span.start) :
    v.Overlooked file s := by
  rcases p.cases_of_mem_sites hv with ⟨hcontext, hsheet, hscript⟩ | ⟨hkind, hv⟩ | ⟨hcontext, -⟩
  · cases hkind : file.kind with
    | stylesheet =>
      unfold Source.blockComments at hs
      rw [hkind] at hs
      exact absurd hc (Style.not_holds_of_mem_sheetSites (hsheet hkind) hs)
    | script =>
      obtain ⟨t, ht, hv⟩ := hscript hkind
      obtain ⟨o, bs, hlt, hslashes⟩ :=
        Style.reached_of_mem_templateSites ht hv (mem_commentSpans hkind hs) hc
      exact .inTemplate hkind hcontext o bs hlt hslashes
  · exact .inObject hkind p.watches hv
  · exact .inClass hcontext

theorem Rule.overlooked_of_mem_sites {r : Rule} (hre : ∀ re, r.pattern ≠ .regex re)
    {approvals : Approvals} {x : Site} (hx : x ∈ r.sites approvals file)
    (hs : s ∈ file.blockComments) (hc : s.Holds x.span.start) :
    ∃ v, x = .value v ∧ v.Overlooked file s := by
  cases x with
  | element e =>
    obtain ⟨name, -, hkind, he⟩ := Rule.element_mem_sites.mp hx
    exact absurd hc (not_holds_of_mem_findElements hkind he hs)
  | value v =>
    rcases Rule.value_mem_sites.mp hx with ⟨p, -, hv, -⟩ | ⟨re, hp, -⟩
    · exact ⟨v, rfl, p.overlooked_of_mem_sites hv hs hc⟩
    · exact absurd hp (hre re)

/-- **What is found, or rewritten, in a block comment** is the value of a utility class or of a
style object, or one behind two slashes that not every reader takes for a comment; only the other
edits of an element in front of the comment may come to lie in it, too. -/
theorem Registry.commented (hg : ofConfig c = .ok g)
    (hre : ∀ r ∈ g.rules, ∀ re, r.pattern ≠ .regex re) (file : Source) {s : Span}
    (hs : s ∈ file.blockComments) :
    (∀ f ∈ g.findings file, s.Holds f.site.span.start →
      ∃ v, f.site = .value v ∧ v.Overlooked file s) ∧
    ∀ d ∈ (acceptFixes g file.text (g.triaged file)).edits, s.Holds d.span.start →
      ∃ f ∈ g.triaged file,
        (∃ v, f.site = .value v ∧ d.span = v.span ∧ v.Overlooked file s) ∨
        ∃ e, f.site = .element e ∧ e.tag.start < s.start ∧ d.span ≠ e.name := by
  constructor
  · intro f hf hc
    obtain ⟨r, hr, x, hx, rfl⟩ := exists_rule_of_mem_findings hf
    exact r.overlooked_of_mem_sites (hre r hr) hx hs hc
  · intro d hd hc
    obtain ⟨j, f, p, hmem, -, hp, hdp⟩ := exists_of_mem_edits hg hd
    have hf := List.mem_of_getElem? (mem_fixableFindings.mp hmem).1
    obtain ⟨r, hr, hrules, hx, hon, -⟩ := exists_rule_of_mem_fixableFindings hg hmem
    refine ⟨f, hf, ?_⟩
    have hspan := span_of_mem_planFix hg hmem hp hdp
    rw [planFix_eq hr] at hp
    cases hsite : f.site with
    | value v =>
      rw [hsite] at hp hx
      obtain ⟨_, _, t, -, -, -, rfl⟩ := planValue_eq_ok hp
      obtain rfl := List.mem_singleton.mp hdp
      obtain ⟨w, hw, hover⟩ := r.overlooked_of_mem_sites (hre r hrules) hx hs hc
      cases hw
      exact Or.inl ⟨v, rfl, rfl, hover⟩
    | element e =>
      rw [hsite] at hspan hx hon
      have he : e.On file.text := hon
      obtain ⟨name, hname, hkind, hfound⟩ := Rule.element_mem_sites.mp hx
      have hfront : e.tag.start ≤ d.span.start := by
        rcases hspan with ⟨hle, -⟩ | ⟨e', he', hclosing⟩
        · exact hle
        · cases he'
          have := (he.closing _ hclosing).2.2
          have := (Span.on_iff.mp he.tag).2.2
          omega
      exact Or.inr ⟨e, rfl,
        front_of_mem_findElements (isTagName_of_ofConfig hg hrules hname) hkind hfound hfront hs hc⟩

/-- A comment that hides none of three values. -/
theorem Registry.commented_color :
    let g := ofRules [.ofColor [("red", "var(--r)")]]
    let file := Source.ofText "a.tsx"
      "a // /*\n\x60color: red\x60 style=\x7b\x7bcolor: 'red'\x7d\x7d bg-[red] */".toList
    let s : Span := ⟨5, 55⟩
    s ∈ file.blockComments ∧ (g.findings file).map (·.site.span) = [⟨16, 19⟩, ⟨37, 40⟩, ⟨48, 51⟩] ∧
      ∀ f ∈ g.findings file, ∃ v, f.site = .value v ∧ v.Overlooked file s := by
  intro g file s
  have hg : ofConfig (.ofRules [.ofColor [("red", "var(--r)")]]) = .ok g := rfl
  have hre : ∀ r ∈ g.rules, ∀ re, r.pattern ≠ .regex re := by
    have hrules : g.rules = [_] := rfl
    simp [hrules]
  have hs : s ∈ file.blockComments := by decide +kernel
  have hspans : (g.findings file).map (·.site.span) = [⟨16, 19⟩, ⟨37, 40⟩, ⟨48, 51⟩] := by
    simp only [findings, Rule.findings, Rule.sites, DeclarationPattern.sites, mergeSort_eq_sortUpTo]
    decide +kernel
  refine ⟨hs, hspans, fun f hf => (commented hg hre file hs).1 f hf ?_⟩
  have hholds : ∀ t ∈ (g.findings file).map (·.site.span), s.Holds t.start := by
    rw [hspans]
    decide
  exact hholds _ (List.mem_map_of_mem hf)

/-- A value in a comment is found, and replaced. -/
theorem Registry.exists_found_in_comment :
    let c := Config.ofRules [.ofColor [("#fff", "var(--w)")]]
    let file := Source.ofText "a.tsx" "/* <p className=\"bg-[#fff]\"/> */".toList
    ∃ g, ofConfig c = .ok g ∧ (∀ r ∈ g.rules, ∀ re, r.pattern ≠ .regex re) ∧
      (∃ f ∈ g.findings file, ∃ s ∈ file.blockComments, s.Holds f.site.span.start) ∧
      ∃ d ∈ (acceptFixes g file.text (g.triaged file)).edits, ∃ s ∈ file.blockComments,
        s.Holds d.span.start := by
  intro c file
  refine ⟨.ofRules [.ofColor [("#fff", "var(--w)")]], rfl, ?_, ?_, ?_⟩
  · have hrules : (ofRules [.ofColor [("#fff", "var(--w)")]]).rules = [_] := rfl
    simp [hrules]
  · simp only [findings, Rule.findings, Rule.sites, DeclarationPattern.sites, mergeSort_eq_sortUpTo]
    decide +kernel
  · simp only [acceptFixes, fixableFindings, triaged, findings, planFix, planElement, spliceWithin,
      splice, mergeSort_eq_sortUpTo]
    decide +kernel

end

end DesignLint
