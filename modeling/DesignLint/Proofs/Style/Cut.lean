import DesignLint.Proofs.Rule.Registry
import DesignLint.Proofs.Rule.Sample
import DesignLint.Proofs.Style.Sites
import DesignLint.Proofs.Sort

/-!
# What is cut out of a text

Values are looked for in masks and in parts of a text, and are cut out of the text at the offsets
found there. Each of these cuts is at boundaries of the text, and gives what the text says there
(`CutsExactly`): the declarations of a mask, the bodies of template literals, style objects and
their entries, and the values of utility classes. So what the rules of a registry list is what the
text says where it is said to stand (`Registry.values_exact`).
-/

namespace DesignLint

/-- A part that is cut out of a text at boundaries. -/
structure Text.Cut (cs : Text) (s : Span) (part : Text) : Prop where
  on : s.On cs
  part_eq : part = cs.slice s

theorem Text.Cut.of_append {as part bs : Text} {n : Nat} (hn : n = as.size) :
    Text.Cut (as ++ part ++ bs) ⟨n, n + part.size⟩ part := by
  subst hn
  exact ⟨Span.on_append as part bs, (Text.slice_append as part bs).symm⟩

namespace Style

/-- What is cut out of a text while values are looked for in it, is cut out at boundaries. -/
structure CutsExactly (properties stems : List Text) (cs : Text) : Prop where
  /-- The mask of a style sheet has an offset for each one of the text. -/
  size_sheet : (maskComments (.code true) cs).size = cs.size
  /-- The declarations that the mask of a style sheet shows. -/
  sheet : ∀ d ∈ declarations properties 0 none 0 (maskComments (.code true) cs),
    Span.On cs ⟨d.start.offset, d.stop.offset⟩
  /-- The bodies of template literals. -/
  body : ∀ t ∈ templateBodies cs, cs.Cut ⟨t.start.offset, t.start.offset + t.body.size⟩ t.body
  /-- The mask of a body has an offset for each one of the body. -/
  size_body : ∀ t ∈ templateBodies cs,
    (maskInterpolations t.body.length (.start t.body)).size = t.body.size
  /-- The declarations that the mask of a body shows. -/
  declared : ∀ t ∈ templateBodies cs,
    ∀ d ∈ declarations properties 0 none 0 (maskInterpolations t.body.length (.start t.body)),
      Span.On t.body ⟨d.start.offset, d.stop.offset⟩
  /-- What stands between the inner braces of a style object. -/
  object : ∀ b ∈ styleBraces none 0 cs, ∀ stop ∈ Markup.expressionEnd b,
    cs.Cut ⟨b.offset + 1, stop.offset - 1⟩
      ((b.skip 1).rest.takeBytes (stop.offset - 1 - (b.skip 1).offset))
  /-- The entries of a style object. -/
  entry : ∀ b ∈ styleBraces none 0 cs, ∀ stop ∈ Markup.expressionEnd b,
    ∀ e ∈ entries ⟨b.offset + 1, cs.slice ⟨b.offset + 1, stop.offset - 1⟩⟩,
      cs.Cut ⟨e.1, e.1 + e.2.size⟩ e.2
  /-- The values of utility classes. -/
  ofClass : ∀ u ∈ classes stems 0 none 0 cs,
    cs.Cut ⟨u.start.offset, u.stop.offset⟩ (u.start.upTo u.stop)

section

variable {filler : Char} {properties stems : List Text} {cs ms : Text}

theorem Masks.on_of_mem_declarations {d : Declaration} (hm : Masks filler cs ms)
    (hf : Fills filler) (hd : d ∈ declarations properties 0 none 0 ms) :
    Span.On cs ⟨d.start.offset, d.stop.offset⟩ := by
  obtain ⟨hstart, hstop, hle⟩ := (ahead_of_mem_declarations hd).edges hm hf
  exact Span.on_iff.mpr ⟨hstart.boundary, hstop.boundary, hle⟩

theorem TemplateBody.Stands.cut {t : TemplateBody} (h : t.Stands cs) :
    cs.Cut ⟨t.start.offset, t.start.offset + t.body.size⟩ t.body := by
  obtain ⟨as, c, bs, rfl, ho, -⟩ := h
  exact .of_append ho.symm

theorem exists_object {b stop : Cursor} (hb : b ∈ styleBraces none 0 cs)
    (hstop : stop ∈ Markup.expressionEnd b) : ∃ as us bs, cs = as ++ us ++ bs ∧
      as.size = b.offset + 1 ∧ stop.offset - 1 = b.offset + 1 + us.size ∧
      (b.skip 1).rest = us ++ bs ∧ (b.skip 1).offset = b.offset + 1 := by
  obtain ⟨hin, hhead⟩ := mem_styleBraces hb
  obtain ⟨before, hcs, hbefore⟩ := Cursor.in_iff.mp hin
  obtain ⟨ds, hds⟩ := List.head?_eq_some_iff.mp hhead
  obtain ⟨o, rest⟩ := b
  simp only at hds hcs hbefore
  subst hds
  obtain ⟨us, d, -, rfl, ho⟩ := Markup.exists_inside hstop
  have h1 : '\x7b'.utf8Size = 1 := rfl
  refine ⟨before ++ ['\x7b'], us, d :: stop.rest, by rw [hcs]; simp, ?_, by simp only; omega,
    rfl, by simp only [Cursor.skip, h1]⟩
  simp only [Text.size_append, Text.size_cons, Text.size_nil, h1, hbefore]

theorem cut_object {b stop : Cursor} (hb : b ∈ styleBraces none 0 cs)
    (hstop : stop ∈ Markup.expressionEnd b) : cs.Cut ⟨b.offset + 1, stop.offset - 1⟩
      ((b.skip 1).rest.takeBytes (stop.offset - 1 - (b.skip 1).offset)) := by
  obtain ⟨as, us, bs, rfl, hsize, ho, hrest, hskip⟩ := exists_object hb hstop
  rw [hskip, hrest, ho, Nat.add_sub_cancel_left, Text.takeBytes_size_append]
  exact .of_append hsize.symm

theorem cut_entry {b stop : Cursor} (hb : b ∈ styleBraces none 0 cs)
    (hstop : stop ∈ Markup.expressionEnd b) {e : Nat × Text}
    (he : e ∈ entries ⟨b.offset + 1, cs.slice ⟨b.offset + 1, stop.offset - 1⟩⟩) :
    cs.Cut ⟨e.1, e.1 + e.2.size⟩ e.2 := by
  obtain ⟨as, us, bs, rfl, hsize, ho, -⟩ := exists_object hb hstop
  rw [ho, ← hsize, Text.slice_append] at he
  obtain ⟨vs, ws, hus, hoff, -⟩ := mem_entries he
  simp only at hus hoff
  have hcs : as ++ us ++ bs = as ++ vs ++ e.2 ++ (ws ++ bs) := by
    rw [hus]
    simp only [List.append_assoc]
  rw [hcs]
  exact .of_append (by rw [hoff, Text.size_append])

theorem cut_class {u : UtilityClass} (hu : u ∈ classes stems 0 none 0 cs) :
    cs.Cut ⟨u.start.offset, u.stop.offset⟩ (u.start.upTo u.stop) := by
  obtain ⟨⟨us, hus⟩, ⟨vs, hvs, -, -⟩, -⟩ := ahead_of_mem_classes hu
  have hstart : u.start.In cs := ⟨_, hus⟩
  exact ⟨hstart.on hvs, by rw [hstart.slice_eq hvs, hvs.upTo_eq]⟩

/-- **Nothing is cut out of a text but at boundaries.** -/
theorem cutsExactly (properties stems : List Text) (cs : Text) :
    CutsExactly properties stems cs where
  size_sheet := (masks_maskComments cs).size_eq (Or.inl rfl)
  sheet _ hd := (masks_maskComments cs).on_of_mem_declarations (Or.inl rfl) hd
  body _ ht := (stands_of_mem_templateBodies ht).cut
  size_body t _ := (masks_maskInterpolations t.body).size_eq (Or.inr rfl)
  declared t _ _ hd := (masks_maskInterpolations t.body).on_of_mem_declarations (Or.inr rfl) hd
  object _ hb _ hstop := cut_object hb hstop
  entry _ hb _ hstop _ he := cut_entry hb hstop he
  ofClass _ hu := cut_class hu

end

end Style

/-! ### What rules list -/

theorem Span.le_trans {s t u : Span} (h : s.le t = true) (h' : t.le u = true) :
    s.le u = true := by
  simp only [le, Bool.or_eq_true, Bool.and_eq_true, beq_iff_eq, decide_eq_true_eq] at *
  omega

theorem Span.le_total (s t : Span) : (s.le t || t.le s) = true := by
  simp only [le, Bool.or_eq_true, Bool.and_eq_true, beq_iff_eq, decide_eq_true_eq]
  omega

theorem DeclarationPattern.pairwise_sites (p : DeclarationPattern) (file : Source) :
    (p.sites file).Pairwise fun v w => v.span.le w.span := by
  refine List.pairwise_mergeSort ?_ ?_ _
  · exact fun _ _ _ => Span.le_trans
  · exact fun v w => v.span.le_total w.span

/-- **Values are what the text says where they are said to stand**, and nothing else is cut out of
the text but at boundaries. -/
theorem Registry.values_exact {c : Config} {g : Registry} (hg : ofConfig c = .ok g) {r : Rule}
    (hr : r ∈ g.rules) (file : Source) :
    (∀ p, r.pattern = .declaration p →
      Style.CutsExactly (p.properties.map String.toList) (p.classes.map String.toList) file.text ∧
      (p.sites file).Pairwise (fun v w => v.span.le w.span) ∧ ∀ v ∈ p.sites file, v.On file.text) ∧
    ∀ re, r.pattern = .regex re → ∀ v ∈ re.sites file.text, v.On file.text ∧ v.context = .raw := by
  constructor
  · intro p _
    exact ⟨Style.cutsExactly _ _ _, p.pairwise_sites file, fun v hv => (p.on_of_mem_sites hv).1⟩
  · intro re hre v hv
    obtain ⟨source, hsource⟩ := exists_ofText_of_ofConfig hg hr hre
    obtain ⟨hwithin, hraw⟩ := Regex.within_of_mem_sites hv
    have hlt := (Regex.sites_apart hsource file.text).1 v hv
    exact ⟨⟨Span.on_iff.mpr ⟨hwithin.start, hwithin.stop, Nat.le_of_lt hlt⟩, hwithin.value_eq⟩, hraw⟩

/-- A value behind a comment that has more bytes than characters, with importance. -/
theorem Registry.values_exact_color :
    let g := ofRules [.ofColor [("#fff", "var(--w)")]]
    let p : DeclarationPattern := ⟨["color"], ["bg"], none⟩
    let file := Source.ofText "a.css" "/*é*/p\x7bcolor: #fff !important\x7d".toList
    let v : ValueSite := ⟨⟨15, 19⟩, "#fff".toList, "color".toList, .declaration⟩
    (∃ r ∈ g.rules, r.pattern = .declaration p) ∧ p.sites file = [v] ∧ v.On file.text := by
  intro g p file v
  have hg : ofConfig (.ofRules [.ofColor [("#fff", "var(--w)")]]) = .ok g := rfl
  have hp : ∃ r ∈ g.rules, r.pattern = .declaration p := ⟨_, List.mem_of_mem_head? rfl, rfl⟩
  have hsites : p.sites file = [v] := by
    simp only [DeclarationPattern.sites, mergeSort_eq_sortUpTo]
    decide +kernel
  obtain ⟨r, hr, hpattern⟩ := hp
  obtain ⟨-, -, hon⟩ := (values_exact hg hr file).1 p hpattern
  exact ⟨⟨r, hr, hpattern⟩, hsites, hon v (by rw [hsites]; exact List.mem_singleton_self v)⟩

end DesignLint
