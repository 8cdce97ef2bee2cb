import DesignLint.Proofs.Regex.Group
import DesignLint.Proofs.Style.Declaration
import DesignLint.Proofs.Style.Inline
import DesignLint.Proofs.Style.Template
import DesignLint.Proofs.Style.UtilityClass
import DesignLint.Style.Sites

/-!
# Where all style values are

The values that a pattern watches are on the text and framed in it
(`DeclarationPattern.on_of_mem_sites`); of them only a string of a style object can be empty
(`DeclarationPattern.lt_of_mem_sites`). Matches of a regular expression start and end at boundaries
(`Regex.within_of_mem_sites`), and none is empty or overlaps another one (`Regex.sites_apart`).
-/

namespace DesignLint

/-- A value that is what a text says between two boundaries. -/
structure ValueSite.Within (cs : Text) (v : ValueSite) : Prop where
  start : cs.Boundary v.span.start
  stop : cs.Boundary v.span.stop
  value_eq : v.value = v.context.read (cs.slice v.span)

theorem ValueSite.On.within {cs : Text} {v : ValueSite} (h : v.On cs) : v.Within cs :=
  ⟨(Span.on_iff.mp h.span).1, (Span.on_iff.mp h.span).2.1, h.value_eq⟩

theorem ValueSite.Within.on {cs : Text} {v : ValueSite} (h : v.Within cs) (hv : v.value ≠ []) :
    v.On cs := by
  refine ⟨Span.on_iff.mpr ⟨h.start, h.stop, ?_⟩, h.value_eq⟩
  by_contra hlt
  have hs : cs.slice v.span = [] := by
    rw [Text.slice, Nat.sub_eq_zero_of_le (by omega), Text.takeBytes_zero]
  have := v.context.length_read (cs.slice v.span)
  rw [← h.value_eq, hs] at this
  exact hv (List.length_eq_zero_iff.mp this)

namespace Style

variable {cs : Text} {properties : List Text} {v : ValueSite}

theorem on_of_mem_sheetSites (h : v ∈ sheetSites properties cs) : v.On cs ∧ v.Framed cs :=
  on_of_mem_declarationSites (masks_maskComments cs) (Or.inl rfl) h

theorem on_of_mem_templateSites {t : TemplateBody} (ht : t.Stands cs)
    (h : v ∈ templateSites properties t) : v.On cs ∧ v.Framed cs := by
  obtain ⟨as, c, bs, rfl, ho, hc⟩ := ht
  obtain ⟨w, hw, rfl⟩ := exists_of_mem_declarationSites h
  obtain ⟨hon, hframed⟩ := on_of_mem_declarationSites (masks_maskInterpolations t.body)
    (Or.inr rfl) hw
  rw [← ho]
  refine ⟨hon.lift _ _, hframed.lift (fun d hd => ?_) fun d hd => ?_⟩
  · rw [List.getLast?_concat] at hd
    obtain rfl : Markup.backtick = d := by simpa using hd
    rfl
  · obtain rfl : c = d := by simpa using hd
    exact ends_closer hc _

theorem on_of_mem_unsortedSites {p : DeclarationPattern} {file : Source}
    (h : v ∈ unsortedSites p file) : v.On file.text ∧ v.Framed file.text := by
  unfold unsortedSites at h
  rcases List.mem_append.mp h with h | h
  · split_ifs at h
    · simp at h
    · split at h
      · exact on_of_mem_sheetSites h
      · rcases List.mem_append.mp h with h | h
        · obtain ⟨t, ht, hv⟩ := List.mem_flatMap.mp h
          exact on_of_mem_templateSites (stands_of_mem_templateBodies ht) hv
        · exact on_of_mem_inlineSites h
  · split_ifs at h
    · simp at h
    · exact on_of_mem_classSites h

end Style

/-- **What a pattern watches is on the text, and framed in it.** -/
theorem DeclarationPattern.on_of_mem_sites {p : DeclarationPattern} {file : Source} {v : ValueSite}
    (h : v ∈ p.sites file) : v.On file.text ∧ v.Framed file.text :=
  Style.on_of_mem_unsortedSites (List.mem_mergeSort.mp h)

/-- What a pattern watches is declared, in a style sheet or in a template literal of a script, or
stands in a style object, or in a utility class. -/
theorem DeclarationPattern.cases_of_mem_sites {p : DeclarationPattern} {file : Source}
    {v : ValueSite} (h : v ∈ p.sites file) :
    (v.context = .declaration ∧
      (file.kind = .stylesheet →
        v ∈ Style.sheetSites (p.properties.map String.toList) file.text) ∧
      (file.kind = .script → ∃ t ∈ Style.templateBodies file.text,
        v ∈ Style.templateSites (p.properties.map String.toList) t)) ∨
    (file.kind = .script ∧ v ∈ Style.inlineSites p.watches file.text) ∨
    v.context = .className ∧ v ∈ Style.classSites (p.classes.map String.toList) file.text := by
  have h := List.mem_mergeSort.mp h
  unfold Style.unsortedSites at h
  rcases List.mem_append.mp h with h | h
  · split_ifs at h
    · simp at h
    · split at h
      · next hkind =>
        refine Or.inl ⟨Style.context_of_mem_declarationSites h, fun _ => h, fun hscript => ?_⟩
        rw [hkind] at hscript
        cases hscript
      · next hkind =>
        rcases List.mem_append.mp h with h | h
        · obtain ⟨t, ht, hv⟩ := List.mem_flatMap.mp h
          refine Or.inl ⟨Style.context_of_mem_declarationSites hv, fun hsheet => ?_,
            fun _ => ⟨t, ht, hv⟩⟩
          rw [hkind] at hsheet
          cases hsheet
        · exact Or.inr (Or.inl ⟨hkind, h⟩)
  · split_ifs at h
    · simp at h
    · exact Or.inr (Or.inr ⟨Style.context_of_mem_classSites h, h⟩)

theorem DeclarationPattern.mem_classSites {p : DeclarationPattern} {file : Source} {v : ValueSite}
    (h : v ∈ p.sites file) (hc : v.context = .className) :
    v ∈ Style.classSites (p.classes.map String.toList) file.text := by
  rcases p.cases_of_mem_sites h with ⟨hd, -⟩ | ⟨-, hv⟩ | ⟨-, hv⟩
  · rw [hc] at hd
    cases hd
  · obtain ⟨raw, hraw, -⟩ := Style.exists_inlineContext? hv
    exact absurd hc (Style.inlineContext?_eq_some hraw).2.1
  · exact hv

theorem DeclarationPattern.mem_sheetSites {p : DeclarationPattern} {file : Source} {v : ValueSite}
    (h : v ∈ p.sites file) (hkind : file.kind = .stylesheet) :
    (v.context = .declaration ∧
      v ∈ Style.sheetSites (p.properties.map String.toList) file.text) ∨
    v.context = .className := by
  rcases p.cases_of_mem_sites h with ⟨hc, hv, -⟩ | ⟨hscript, -⟩ | ⟨hc, -⟩
  · exact Or.inl ⟨hc, hv hkind⟩
  · rw [hkind] at hscript
    cases hscript
  · exact Or.inr hc

/-- **A value that a pattern watches in a template literal of a style object has an
interpolation.** -/
theorem DeclarationPattern.has_of_mem_sites {p : DeclarationPattern} {file : Source} {v : ValueSite}
    (h : v ∈ p.sites file) (hc : v.context = .inlineTemplate) :
    Text.has "$\x7b".toList v.value := by
  rcases p.cases_of_mem_sites h with ⟨hd, -⟩ | ⟨-, hv⟩ | ⟨hd, -⟩
  · rw [hc] at hd
    cases hd
  · obtain ⟨raw, hraw, hvalue⟩ := Style.exists_inlineContext? hv
    rw [hvalue (by simp [hc])]
    exact (Style.inlineContext?_eq_some hraw).2.2 hc
  · rw [hc] at hd
    cases hd

/-- **What a pattern watches is not empty, unless it is a string of a style object.** -/
theorem DeclarationPattern.lt_of_mem_sites {p : DeclarationPattern} {file : Source} {v : ValueSite}
    (h : v ∈ p.sites file) (hc : v.value = [] → v.context ≠ .inlineString) :
    v.span.start < v.span.stop := by
  have hon := (p.on_of_mem_sites h).1
  have h := List.mem_mergeSort.mp h
  unfold Style.unsortedSites at h
  rcases List.mem_append.mp h with h | h
  · refine hon.lt ?_
    split_ifs at h
    · simp at h
    · split at h
      · exact Style.value_ne_nil_of_mem_declarationSites h
      · rcases List.mem_append.mp h with h | h
        · obtain ⟨t, -, hv⟩ := List.mem_flatMap.mp h
          exact Style.value_ne_nil_of_mem_declarationSites hv
        · exact fun hnil => Style.value_ne_nil_of_mem_inlineSites h (hc hnil) hnil
  · split_ifs at h
    · simp at h
    · exact Style.lt_of_mem_classSites h

/-- **Matches of a regular expression are what the text says between two boundaries.** -/
theorem Regex.within_of_mem_sites {r : Regex} {cs : Text} {v : ValueSite} (h : v ∈ r.sites cs) :
    v.Within cs ∧ v.context = .raw := by
  obtain ⟨m, hm, hsite⟩ := List.mem_filterMap.mp h
  have hon := Regex.on_of_mem_findAll hm
  simp only at hsite
  split_ifs at hsite
  cases hsite
  cases hn : r.named? "value" m with
  | none => exact ⟨⟨hon.start, hon.stop, rfl⟩, rfl⟩
  | some s =>
    obtain ⟨hstart, hstop⟩ := Regex.boundary_of_named? hon hn
    exact ⟨⟨hstart, hstop, rfl⟩, rfl⟩

theorem Regex.map_span_sites (r : Regex) (cs : Text) : (r.sites cs).map (·.span) =
    ((r.findAll cs).map fun m => (r.named? "value" m).getD m.span).filter
      fun s => s.start != s.stop := by
  unfold sites
  induction r.findAll cs with
  | nil => rfl
  | cons m ms ih =>
    rw [List.filterMap_cons, List.map_cons, List.filter_cons, ← ih]
    by_cases he : ((r.named? "value" m).getD m.span).start =
        ((r.named? "value" m).getD m.span).stop
    · simp [he]
    · simp [he]

/-- **A match of a regular expression that was read is not empty, and it overlaps no other one.** -/
theorem Regex.sites_apart {r : Regex} {source : String} (hr : ofText source = .ok r) (cs : Text) :
    (∀ v ∈ r.sites cs, v.span.start < v.span.stop) ∧
      (r.sites cs).Pairwise fun v w => v.span.stop ≤ w.span.start := by
  obtain ⟨node, hnode⟩ := exists_node_of_ofText hr
  obtain ⟨hfound, hpair⟩ := Program.found_of_findAllFrom hnode none (2 * cs.length + 2)
    (.start cs)
  have hin := fun m hm => (hfound m hm).1.getD_named? hnode "value"
  constructor
  · intro v hv
    have hspan : v.span ∈ (r.sites cs).map (·.span) := List.mem_map_of_mem hv
    rw [r.map_span_sites, List.mem_filter, bne_iff_ne] at hspan
    obtain ⟨m, hm, hs⟩ := List.mem_map.mp hspan.1
    have := (hin m hm).2.1
    rw [hs] at this
    exact Nat.lt_of_le_of_ne this hspan.2
  · have hspans : ((r.sites cs).map (·.span)).Pairwise fun s t => s.stop ≤ t.start := by
      rw [r.map_span_sites]
      refine (List.pairwise_map.mpr (hpair.imp_of_mem fun hm hm' hle => ?_)).filter _
      exact Nat.le_trans (hin _ hm).2.2 (Nat.le_trans hle (hin _ hm').1)
    exact List.pairwise_map.mp hspans

end DesignLint
