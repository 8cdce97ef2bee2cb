import DesignLint.Proofs.Finding.Search
import DesignLint.Proofs.Rule.Sample
import DesignLint.Proofs.Sort

/-!
# Expressions and the string literals in them

The value of an entry of a style object may be any expression. `Literals` says which string literals
an expression holds, from left to right, and these are the ones that are listed
(`stringLiterals_eq_iff`).

An expression passes the filter of a rule if one of its literals does (`accepts_iff`), but it is the
first literal alone that decides whether it is approved. So a rule finds an expression with a
literal that is not approved unless an approved one stands in front (`Rule.expression_found_iff`);
in `c ? 'inherit' : 'red'` the keyword hides the colour (`Rule.exists_expression_hidden`).
-/

namespace DesignLint

namespace Value

/-- Whether a character opens a string literal. -/
def isQuote (c : Char) : Bool := c == '"' || c == '\'' || c == '\x60'

/-- The string literals of an expression, from left to right. A literal ends at the next quote of
its own kind, and a quote without a partner means nothing. -/
inductive Literals : Text → List Text → Prop
  | nil : Literals [] []
  | char {c : Char} {cs : Text} {ls : List Text} : isQuote c = false → Literals cs ls →
    Literals (c :: cs) ls
  | literal {q : Char} {inside cs : Text} {ls : List Text} : isQuote q = true → q ∉ inside →
    Literals cs ls → Literals (q :: (inside ++ q :: cs)) (inside :: ls)
  | loose {q : Char} {cs : Text} {ls : List Text} : isQuote q = true → q ∉ cs → Literals cs ls →
    Literals (q :: cs) ls

theorem span_append_cons {q : Char} {inside : Text} (h : q ∉ inside) (cs : Text) :
    (inside ++ q :: cs).span (· != q) = (inside, q :: cs) := by
  have hall : ∀ c ∈ inside, (c != q) = true := by
    rintro c hc
    rw [bne_iff_ne]
    rintro rfl
    exact h hc
  rw [List.span_eq_takeWhile_dropWhile, List.takeWhile_append_of_pos hall,
    List.dropWhile_append_of_pos hall]
  simp

theorem span_of_not_mem {q : Char} {cs : Text} (h : q ∉ cs) :
    cs.span (· != q) = (cs, []) := by
  have hall : ∀ c ∈ cs, (c != q) = true := by
    rintro c hc
    rw [bne_iff_ne]
    rintro rfl
    exact h hc
  rw [List.span_eq_takeWhile_dropWhile, List.takeWhile_eq_self_iff.mpr hall,
    List.dropWhile_eq_nil_iff.mpr hall]

theorem Literals.go_eq {e : Text} {ls : List Text} (h : Literals e ls) {n : Nat}
    (hn : e.length ≤ n) : stringLiterals.go n e = ls := by
  induction h generalizing n with
  | nil => cases n <;> rfl
  | char hc _ ih =>
    obtain ⟨n, rfl⟩ : ∃ m, n = m + 1 := ⟨n - 1, by simp at hn; omega⟩
    rw [stringLiterals.go, if_neg (by simpa [isQuote] using hc)]
    exact ih (by simpa using hn)
  | literal hq hno _ ih =>
    obtain ⟨n, rfl⟩ : ∃ m, n = m + 1 := ⟨n - 1, by simp at hn; omega⟩
    rw [stringLiterals.go, if_pos (by simpa [isQuote] using hq), span_append_cons hno]
    simp only [List.length_cons, List.length_append] at hn
    exact congrArg _ (ih (by omega))
  | loose hq hno _ ih =>
    obtain ⟨n, rfl⟩ : ∃ m, n = m + 1 := ⟨n - 1, by simp at hn; omega⟩
    rw [stringLiterals.go, if_pos (by simpa [isQuote] using hq), span_of_not_mem hno]
    exact ih (by simpa using hn)

theorem exists_literals (e : Text) : ∃ ls, Literals e ls := by
  induction hn : e.length using Nat.strong_induction_on generalizing e with
  | h n ih =>
    cases e with
    | nil => exact ⟨[], .nil⟩
    | cons c cs =>
      rw [List.length_cons] at hn
      obtain ⟨ls, hls⟩ := ih cs.length (by omega) cs rfl
      by_cases hc : isQuote c = true
      · by_cases hmem : c ∈ cs
        · obtain ⟨inside, rest, rfl, hno⟩ := List.eq_append_cons_of_mem hmem
          rw [List.length_append, List.length_cons] at hn
          obtain ⟨ms, hms⟩ := ih rest.length (by omega) rest rfl
          exact ⟨inside :: ms, .literal hc hno hms⟩
        · exact ⟨ls, .loose hc hmem hls⟩
      · exact ⟨ls, .char (by simpa using hc) hls⟩

/-- **The literals of an expression are the ones that are listed.** -/
theorem stringLiterals_eq_iff {e : Text} {ls : List Text} :
    stringLiterals e = ls ↔ Literals e ls := by
  constructor
  · rintro rfl
    obtain ⟨ls, hls⟩ := exists_literals e
    rwa [stringLiterals, hls.go_eq le_rfl]
  · exact fun h => h.go_eq le_rfl

end Value

theorem DeclarationPattern.accepts_iff {p : DeclarationPattern} {value : Text} {ls : List Text}
    (hl : Value.Literals value ls) : p.accepts value = true ↔
      ∀ f ∈ p.filter, f.isMatch value.trim = true ∨ ∃ l ∈ ls, f.isMatch l = true := by
  rw [accepts, Value.stringLiterals_eq_iff.mpr hl]
  cases p.filter with
  | none => simp
  | some f => simp

/-- The text that decides whether an expression with literals is approved is the first of them. -/
theorem ValueSite.approvalText_of_literals {v : ValueSite} (hx : v.context = .inlineExpression)
    {first : Text} {others : List Text} (hl : Value.Literals v.value (first :: others)) :
    v.approvalText = first := by
  rw [approvalText, hx, Value.stringLiterals_eq_iff.mpr hl]
  rfl

theorem Rule.finding_mem_findings {r : Rule} {approvals : Approvals} {file : Source} {s : Site} :
    r.finding file s ∈ r.findings approvals file ↔ s ∈ r.sites approvals file := by
  constructor
  · intro h
    obtain ⟨t, ht, heq⟩ := List.mem_map.mp h
    obtain rfl : t = s := congrArg Finding.site heq
    exact ht
  · exact List.mem_map_of_mem

/-- **A rule finds an expression if its first literal is not approved**, and it or another one
passes the filter. So among the expressions that pass, those with a literal that is not approved are
found, but for the ones in which an approved literal stands in front of it. -/
theorem Rule.expression_found_iff {r : Rule} {p : DeclarationPattern}
    (hp : r.pattern = .declaration p) (approvals : Approvals) {file : Source} {v : ValueSite}
    (hv : v ∈ p.sites file) (hx : v.context = .inlineExpression) {first : Text}
    {others : List Text} (hl : Value.Literals v.value (first :: others)) :
    (r.finding file (.value v) ∈ r.findings approvals file ↔
      approvals.approves r.category first = false ∧
        ∀ f ∈ p.filter, f.isMatch v.value.trim = true ∨
          ∃ l ∈ first :: others, f.isMatch l = true) ∧
    (p.accepts v.value = true →
      ((r.finding file (.value v) ∈ r.findings approvals file ↔
          ∃ l ∈ first :: others, approvals.approves r.category l = false) ↔
        (approvals.approves r.category first = true →
          ∀ l ∈ others, approvals.approves r.category l = true))) := by
  have hfound : r.finding file (.value v) ∈ r.findings approvals file ↔
      approvals.approves r.category first = false ∧ p.accepts v.value = true := by
    rw [Rule.finding_mem_findings, Rule.value_mem_sites, v.approvalText_of_literals hx hl]
    simp [hp, hv]
  refine ⟨by rw [hfound, p.accepts_iff hl], fun haccepts => ?_⟩
  rw [hfound]
  cases hfirst : approvals.approves r.category first with
  | false => simp [hfirst, haccepts]
  | true => simp [hfirst]

/-- In `c ? 'red' : 'inherit'` the colour stands in front of the keyword. -/
theorem Rule.expression_found_iff_red :
    let g := Registry.ofRules [.ofColorProperty "color"]
    let p : DeclarationPattern := ⟨["color"], [], none⟩
    let file := Source.ofText "a.tsx" "<p style=\x7b\x7bcolor: c ? 'red' : 'inherit'\x7d\x7d/>".toList
    let v : ValueSite :=
      ⟨⟨18, 39⟩, "c ? 'red' : 'inherit'".toList, "color".toList, .inlineExpression⟩
    ∃ r ∈ g.rules, r.pattern = .declaration p ∧ r.category = .colorToken ∧ v ∈ p.sites file ∧
      Value.Literals v.value ["red".toList, "inherit".toList] ∧
      g.approvals.approves .colorToken "inherit".toList = true ∧
      r.finding file (.value v) ∈ r.findings g.approvals file := by
  intro g p file v
  obtain ⟨r, hr, hp, hcategory⟩ :
      ∃ r ∈ g.rules, r.pattern = .declaration p ∧ r.category = .colorToken :=
    ⟨_, List.mem_of_mem_head? rfl, rfl, rfl⟩
  have hv : v ∈ p.sites file := by
    simp only [DeclarationPattern.sites, mergeSort_eq_sortUpTo]
    decide +kernel
  have hl : Value.Literals v.value ["red".toList, "inherit".toList] :=
    Value.stringLiterals_eq_iff.mp (by decide +kernel)
  have hred : g.approvals.approves r.category "red".toList = false := by
    rw [hcategory]
    decide +kernel
  refine ⟨r, hr, hp, hcategory, hv, hl, by decide +kernel, ?_⟩
  exact (Rule.expression_found_iff hp g.approvals hv rfl hl).1.mpr ⟨hred, by simp [p]⟩

/-- In `c ? 'inherit' : 'red'` the keyword hides the colour. -/
theorem Rule.exists_expression_hidden :
    let c := Config.ofRules [.ofColorProperty "color"]
    let p : DeclarationPattern := ⟨["color"], [], none⟩
    let file := Source.ofText "a.tsx" "<p style=\x7b\x7bcolor: c ? 'inherit' : 'red'\x7d\x7d/>".toList
    ∃ g, Registry.ofConfig c = .ok g ∧ ∃ r ∈ g.rules, r.pattern = .declaration p ∧
      ∃ v ∈ p.sites file, v.context = .inlineExpression ∧ p.accepts v.value = true ∧
        Value.Literals v.value ["inherit".toList, "red".toList] ∧
        g.approvals.approves r.category "red".toList = false ∧
        r.finding file (.value v) ∉ r.findings g.approvals file := by
  intro c p file
  let g := Registry.ofRules [.ofColorProperty "color"]
  obtain ⟨r, hr, hp, hcategory⟩ :
      ∃ r ∈ g.rules, r.pattern = .declaration p ∧ r.category = .colorToken :=
    ⟨_, List.mem_of_mem_head? rfl, rfl, rfl⟩
  let v : ValueSite :=
    ⟨⟨18, 39⟩, "c ? 'inherit' : 'red'".toList, "color".toList, .inlineExpression⟩
  have hv : v ∈ p.sites file := by
    simp only [DeclarationPattern.sites, mergeSort_eq_sortUpTo]
    decide +kernel
  have happroved : g.approvals.approves r.category v.approvalText = true := by
    rw [hcategory]
    decide +kernel
  have hred : g.approvals.approves r.category "red".toList = false := by
    rw [hcategory]
    decide +kernel
  refine ⟨g, rfl, r, hr, hp, v, hv, rfl, rfl, Value.stringLiterals_eq_iff.mp (by decide +kernel),
    hred, fun h => ?_⟩
  have := (Rule.mem_sites_of_declaration hp (Rule.finding_mem_findings.mp h)).2
  rw [happroved] at this
  cases this

end DesignLint
