import DesignLint.Proofs.Finding.Search
import DesignLint.Proofs.Rule.Sample
import DesignLint.Proofs.Sort
import DesignLint.Proofs.Text.Bytes
import DesignLint.Proofs.Text.Position

/-!
# Findings in order

The findings of a file are in the order of their positions, and findings at one position in the
order of their rules (`Registry.findings_ordered`). A finding starts where its place starts, and it
ends on the line of the last byte of its extent (`Rule.lineEnd_finding`), which for an element goes
from the opening tag up to the name in the closing one.
-/

namespace DesignLint

theorem Text.exists_start_slice? (as bs : Text) : ∃ start,
    (LineIndex.ofText (as ++ bs)).starts[((as ++ bs).position as.size).line - 1]? = some start ∧
      (as ++ bs).slice? start as.size = some (lastLine as) := by
  obtain ⟨front, hfront, hstart⟩ := exists_start as bs
  refine ⟨front.size, by rw [position_append, Nat.add_sub_cancel_left, hstart], ?_⟩
  have h := slice?_append front (lastLine as) bs
  rwa [← size_append, ← hfront] at h

/-! ### Where a finding starts and ends -/

/-- The last byte of a span; of an empty span its start. -/
def Span.last (s : Span) : Nat := if s.start < s.stop then s.stop - 1 else s.start

theorem Span.start_le_last (s : Span) : s.start ≤ s.last := by
  unfold last
  split_ifs
  · omega
  · exact Nat.le_refl _

/-- All that a finding at a place is about: an element up to the name in its closing tag. -/
def Site.extent : Site → Span
  | .element e => ⟨e.tag.start, (e.closing.getD e.tag).stop⟩
  | .value v => v.span

/-- The line and the column of a finding. -/
def Finding.position (f : Finding) : Position := ⟨f.lineStart, f.columnStart⟩

namespace Rule

variable (r : Rule) (file : Source) (s : Site)

theorem position_finding :
    (r.finding file s).position = file.text.position s.span.start := rfl

theorem lineEnd_finding :
    (r.finding file s).lineEnd = (file.text.position s.extent.last).line := by
  have hlast : ∀ span : Span, max (span.stop - 1) span.start = span.last := by
    intro span
    unfold Span.last
    split_ifs <;> omega
  cases s with
  | element e => rw [← hlast]; rfl
  | value v => rw [← hlast]; rfl

theorem lineStart_le_lineEnd : (r.finding file s).lineStart ≤ (r.finding file s).lineEnd := by
  have hstart : (r.finding file s).lineStart = (file.text.position s.extent.start).line := by
    cases s <;> rfl
  rw [hstart, lineEnd_finding, Text.line_position, Text.line_position]
  refine Nat.add_le_add_left (List.countP_mono_left fun b _ hb => ?_) 1
  simp only [decide_eq_true_eq] at hb ⊢
  exact Nat.lt_of_lt_of_le hb s.extent.start_le_last

end Rule

/-! ### The order of rules -/

theorem foldl_keepUnclaimed_sublist (kept fs : List Finding) :
    (fs.foldl keepUnclaimed kept).Sublist (kept ++ fs) := by
  induction fs generalizing kept with
  | nil => simp
  | cons f fs ih =>
    refine (ih (keepUnclaimed kept f)).trans ?_
    unfold keepUnclaimed
    split_ifs
    · exact (List.sublist_cons_self f fs).append_left kept
    · simp

instance : Std.TransCmp Finding.order := by
  unfold Finding.order
  infer_instance

namespace Registry

/-- One rule is another, or comes before it. -/
def InOrder (g : Registry) (id id' : String) : Prop :=
  id = id' ∨ [id, id'].Sublist (g.rules.map (·.id))

variable {c : Config} {g : Registry} {file : Source}

theorem pairwise_rules (g : Registry) : g.rules.Pairwise fun q r => g.InOrder q.id r.id :=
  List.pairwise_iff_forall_sublist.mpr fun h => Or.inr (h.map Rule.id)

/-- Findings are found in the order of their rules. -/
theorem pairwise_found (g : Registry) (file : Source) :
    (g.rules.flatMap (·.findings g.approvals file)).Pairwise fun a b =>
      g.InOrder a.rule b.rule := by
  have hrule : ∀ {r : Rule} {f : Finding}, f ∈ r.findings g.approvals file → f.rule = r.id := by
    intro r f hf
    obtain ⟨s, -, rfl⟩ := List.mem_map.mp hf
    rfl
  refine List.pairwise_flatMap.mpr ⟨fun r _ => ?_, g.pairwise_rules.imp fun hqr a ha b hb => ?_⟩
  · exact List.pairwise_of_forall_mem_list fun a ha b hb =>
      Or.inl ((hrule ha).trans (hrule hb).symm)
  · rwa [hrule ha, hrule hb]

theorem pairwise_order (g : Registry) (file : Source) : (g.findings file).Pairwise fun a b =>
    (a.order b).isLE ∧ ((b.order a).isLE → g.InOrder a.rule b.rule) := by
  have hkept := (g.pairwise_found file).sublist (foldl_keepUnclaimed_sublist [] _)
  have htrans : ∀ a b c : Finding, (a.order b).isLE → (b.order c).isLE → (a.order c).isLE :=
    fun _ _ _ => Std.TransCmp.isLE_trans
  have htotal : ∀ a b : Finding, (a.order b).isLE || (b.order a).isLE := by
    intro a b
    have hswap : b.order a = (a.order b).swap := Std.OrientedCmp.eq_swap
    rw [hswap]
    cases a.order b <;> rfl
  exact (List.pairwise_mergeSort htrans htotal _).and
    (pairwise_mergeSort_ties htrans htotal hkept)

theorem position_of_mem_findings {f : Finding} (h : f ∈ g.findings file) :
    f.position = file.text.position f.site.span.start := by
  obtain ⟨r, -, s, -, rfl⟩ := exists_rule_of_mem_findings h
  exact r.position_finding file s

/-- Findings at different offsets are in the order of the offsets; at one offset, and so at one
position, they are in the order of their rules. -/
theorem pairwise_start (g : Registry) (file : Source) : (g.findings file).Pairwise fun a b =>
    a.site.span.start < b.site.span.start ∨
      a.site.span.start = b.site.span.start ∧ g.InOrder a.rule b.rule := by
  refine (g.pairwise_order file).imp_of_mem fun {a b} ha hb ⟨hle, htie⟩ => ?_
  rcases Nat.lt_trichotomy a.site.span.start b.site.span.start with hlt | heq | hgt
  · exact Or.inl hlt
  · have hposition : a.position = b.position := by
      rw [position_of_mem_findings ha, position_of_mem_findings hb, heq]
    obtain ⟨hline, hcolumn⟩ := Position.mk.inj hposition
    refine Or.inr ⟨heq, htie ?_⟩
    simp [Finding.order, compareLex, compareOn, heq, hline, hcolumn]
  · have hcompare := Nat.compare_eq_gt.mpr hgt
    simp [Finding.order, compareLex, compareOn, hcompare] at hle

theorem boundary_of_mem_findings (hg : ofConfig c = .ok g) {f : Finding}
    (h : f ∈ g.findings file) : file.text.Boundary f.site.span.start := by
  obtain ⟨-, -, -, -, hon, -⟩ := on_of_mem_findings hg h
  cases hsite : f.site with
  | element e =>
    rw [hsite] at hon
    exact (Span.on_iff.mp (Element.On.tag hon)).1
  | value v =>
    rw [hsite] at hon
    exact ValueSite.Within.start hon

/-- **Positions count lines and columns, and findings are in their order.** The position of an
offset counts the line breaks in front of it and the characters behind the last of them: the line is
in the table, and the text can be cut where it starts. So positions increase with the offset.
Findings are in the order of their positions, and at one position in the order of their rules; each
ends on the line of the last byte of its extent. -/
theorem findings_ordered :
    (∀ as bs : Text, (as ++ bs).position as.size =
      ⟨1 + as.count '\n', 1 + (Text.lastLine as).length⟩) ∧
    (∀ as bs : Text, ∃ start,
      (LineIndex.ofText (as ++ bs)).starts[((as ++ bs).position as.size).line - 1]? = some start ∧
      (as ++ bs).slice? start as.size = some (Text.lastLine as)) ∧
    (∀ (cs : Text) (m n : Nat), cs.Boundary m → cs.Boundary n → m < n →
      (cs.position m).Before (cs.position n)) ∧
    ∀ c g, ofConfig c = .ok g → ∀ file,
      ((g.findings file).Pairwise fun a b => a.position.Before b.position ∨
        a.position = b.position ∧ g.InOrder a.rule b.rule) ∧
      ∀ f ∈ g.findings file, f.position = file.text.position f.site.span.start ∧
        f.lineStart ≤ f.lineEnd ∧
        f.lineEnd = 1 + file.text.lineBreaks.countP (· < f.site.extent.last) := by
  refine ⟨Text.position_append, Text.exists_start_slice?, fun cs m n => Text.position_before,
    fun c g hg file => ⟨?_, ?_⟩⟩
  · refine (g.pairwise_start file).imp_of_mem fun {a b} ha hb h => ?_
    rw [position_of_mem_findings ha, position_of_mem_findings hb]
    rcases h with hlt | ⟨heq, hrules⟩
    · exact Or.inl (Text.position_before (boundary_of_mem_findings hg ha)
        (boundary_of_mem_findings hg hb) hlt)
    · exact Or.inr ⟨by rw [heq], hrules⟩
  · intro f hf
    refine ⟨position_of_mem_findings hf, ?_⟩
    obtain ⟨r, -, s, -, rfl⟩ := exists_rule_of_mem_findings hf
    refine ⟨r.lineStart_le_lineEnd file s, ?_⟩
    rw [r.lineEnd_finding, Text.line_position]
    rfl

/-- An element over two lines behind a character of two bytes, and two rules about one empty string
in it. -/
theorem findings_ordered_button :
    let g := ofRules [.ofTag "button" .none, .ofColorProperty "first", .ofColorProperty "second"]
    let file := Source.ofText "a.tsx"
      "é <button style=\x7b\x7bcolor: ''\x7d\x7d>\n</button>".toList
    (g.findings file).map (fun f => (f.rule, f.position, f.lineEnd)) =
        [("button", ⟨1, 3⟩, 2), ("first", ⟨1, 27⟩, 1), ("second", ⟨1, 27⟩, 1)] ∧
      ((g.findings file).Pairwise fun a b => a.position.Before b.position ∨
        a.position = b.position ∧ g.InOrder a.rule b.rule) ∧
      (file.text.position 0).Before (file.text.position 2) ∧
      ∀ f ∈ g.findings file, f.lineStart ≤ f.lineEnd := by
  intro g file
  have hg : ofConfig (.ofRules
      [.ofTag "button" .none, .ofColorProperty "first", .ofColorProperty "second"]) = .ok g := rfl
  obtain ⟨-, -, hbefore, hordered⟩ := findings_ordered
  obtain ⟨hpairwise, hlines⟩ := hordered _ g hg file
  have hmiddle : file.text.Boundary 2 := ⟨['é'], _, rfl, rfl⟩
  refine ⟨?_, hpairwise, hbefore file.text 0 2 (Text.boundary_zero _) hmiddle (by decide),
    fun f hf => (hlines f hf).2.1⟩
  simp only [findings, Rule.findings, Rule.sites, DeclarationPattern.sites, mergeSort_eq_sortUpTo]
  decide +kernel

end Registry

end DesignLint
