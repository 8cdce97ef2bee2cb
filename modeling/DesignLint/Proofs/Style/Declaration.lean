import DesignLint.Proofs.Style.Mask
import DesignLint.Proofs.Text.Blank
import DesignLint.Style.Declaration
import Mathlib.Data.Option.Basic

/-!
# Where declared values are

A declaration that is found lies ahead of the point where it is looked for, its value behind a colon
or a tab, up to spaces, and in front of what ends it (`Declaration.Ahead`). So the mask in which it
is found is not cut inside a character, and the value is on the text that was masked and framed in
it (`on_of_mem_declarationSites`).
-/

namespace DesignLint.Style

/-- What a value stands behind, up to spaces. -/
def opensValue (c : Char) : Prop := c = ':' ∨ c = '\t'

theorem isBreak_of_opensValue {c : Char} (h : opensValue c) : isBreak c ∧ c ≠ '/' := by
  rcases h with rfl | rfl <;> decide

/-- A declaration ahead of a point: what stands before its value, what the value is, and what stands
behind it. -/
structure Declaration.Ahead (k : Cursor) (d : Declaration) : Prop where
  before : ∃ us gap, k.Passes (us ++ gap) d.start ∧ (∀ c ∈ gap, c = ' ') ∧
    ∃ c ∈ us.getLast?, opensValue c
  value : ∃ vs, d.start.Passes vs d.stop ∧ vs ≠ [] ∧ (∀ c ∈ vs, isValueChar c) ∧
    (∀ c ∈ vs.head?, c ≠ ' ' ∧ c ≠ '\t') ∧ ∀ c ∈ vs.getLast?, ¬ isBlank c
  after : ∃ gap bs, d.stop.rest = gap ++ bs ∧ (∀ c ∈ gap, c = ' ') ∧
    ∀ c ∈ bs.head?, ValueContext.declaration.ends c
  stop_eq : d.stop = d.start.skip (Text.trimEnd (d.start.rest.takeWhile isValueChar)).length

theorem dropPrefixFold_eq_some {lead cs rest : Text} (h : Text.dropPrefixFold lead cs = some rest) :
    ∃ us, cs = us ++ rest := by
  fun_induction Text.dropPrefixFold lead cs with
  | case1 cs =>
    cases h
    exact ⟨[], rfl⟩
  | case2 => cases h
  | case3 a lead c cs _ ih =>
    obtain ⟨us, rfl⟩ := ih h
    exact ⟨c :: us, rfl⟩
  | case4 => cases h

theorem Declaration.Ahead.passes {k l : Cursor} {d : Declaration} {us : Text} (h : d.Ahead l)
    (hp : k.Passes us l) : d.Ahead k := by
  obtain ⟨⟨vs, gap, hvs, hgap, c, hc, hcb⟩, hv, ha, hs⟩ := h
  refine ⟨⟨us ++ vs, gap, ?_, hgap, c, by rw [List.getLast?_append, hc]; rfl, hcb⟩, hv, ha, hs⟩
  rw [List.append_assoc]
  exact hp.trans hvs

theorem ne_of_isValueChar {c : Char} (h : isValueChar c) : c ≠ '\n' := by
  rintro rfl
  exact absurd h (by decide)

theorem ends_of_not_isValueChar {c : Char} (h : ¬ isValueChar c) :
    ValueContext.declaration.ends c := by
  simp only [isValueChar, Bool.and_eq_true, bne_iff_ne, ne_eq, not_and, not_not] at h
  by_cases h1 : c = ';'
  · subst h1; rfl
  by_cases h2 : c = '\x7b'
  · subst h2; rfl
  by_cases h3 : c = '\x7d'
  · subst h3; rfl
  obtain rfl := h ⟨⟨h1, h2⟩, h3⟩
  rfl

/-- A value: as much as the text allows, without the blanks at the end. -/
theorem exists_value {k : Cursor} (h : Text.trimEnd (k.rest.takeWhile isValueChar) ≠ []) :
    ∃ vs, k.Passes vs (k.skip (Text.trimEnd (k.rest.takeWhile isValueChar)).length) ∧ vs ≠ [] ∧
      (∀ c ∈ vs, isValueChar c) ∧ (∀ c ∈ vs.getLast?, ¬ isBlank c) ∧
      ∃ bs ds, (k.skip (Text.trimEnd (k.rest.takeWhile isValueChar)).length).rest = bs ++ ds ∧
        (∀ c ∈ bs, isBlank c) ∧ ∀ c ∈ ds.head?, ¬ isValueChar c := by
  obtain ⟨bs, hbs, hb, hlast⟩ := Text.exists_trimEnd (k.rest.takeWhile isValueChar)
  have hall : ∀ c ∈ Text.trimEnd (k.rest.takeWhile isValueChar), isValueChar c := fun c hc =>
    List.mem_takeWhile_imp (by rw [hbs]; exact List.mem_append_left _ hc)
  generalize Text.trimEnd (k.rest.takeWhile isValueChar) = vs at h hbs hlast hall ⊢
  have hrest : k.rest = vs ++ (bs ++ k.rest.dropWhile isValueChar) := by
    rw [← List.append_assoc, ← hbs, List.takeWhile_append_dropWhile]
  have hp := Cursor.skip_passes vs.length k
  have htake : k.rest.take vs.length = vs := by
    rw [hrest, List.take_left]
  rw [htake] at hp
  refine ⟨vs, hp, h, hall, hlast, bs, _, List.append_cancel_left (hp.1.symm.trans hrest), hb,
    fun c hc => ?_⟩
  have hne := List.head?_dropWhile_not isValueChar k.rest
  rw [Option.mem_def.mp hc] at hne
  simpa using hne

theorem ahead_of_declarationOf? {property : Text} {k : Cursor} {d : Declaration}
    (h : declarationOf? property k = some d) : d.Ahead k := by
  unfold declarationOf? at h
  simp only [Option.bind_eq_bind, Option.bind_eq_some_iff, Option.pure_def, Option.some.injEq] at h
  obtain ⟨rest, hrest, l, hl, u, hguard, rfl⟩ := h
  unfold guard at hguard
  split_ifs at hguard with hne
  rw [bne_iff_ne] at hne
  obtain ⟨name, hname⟩ := dropPrefixFold_eq_some hrest
  have htake : k.rest.take (k.rest.length - rest.length) = name := by
    rw [hname, List.length_append, Nat.add_sub_cancel, List.take_left]
  rw [htake] at hl
  obtain ⟨bs, hbs, -, -⟩ := Cursor.exists_skipWhile isBlank ⟨k.offset + name.size, rest⟩
  obtain ⟨ws, hws, hw, hstop⟩ := Cursor.exists_skipWhile (fun c => c == ' ' || c == '\t') l
  obtain ⟨vs, hvs, hv, hall, hlast, es, ds, hrest', hes, hds⟩ := exists_value hne
  have hk : k.Passes name ⟨k.offset + name.size, rest⟩ := ⟨hname, rfl⟩
  have hpad : ∀ c ∈ ws, c = ' ' ∨ opensValue c := by
    intro c hc
    have := hw c hc
    simp only [Bool.or_eq_true, beq_iff_eq] at this
    exact this.imp_right Or.inr
  obtain ⟨us, gap, hus, hgap, hbreak⟩ := @Text.exists_behind (name ++ (bs ++ [':'])) ws opensValue
    ⟨':', by simp [← List.append_assoc], Or.inl rfl⟩ hpad
  obtain ⟨gap', ds', hds', hgap', hend⟩ := Text.exists_end hes fun c hc =>
    ends_of_not_isValueChar (hds c hc)
  refine ⟨⟨us, gap, ?_, hgap, hbreak⟩, ⟨vs, hvs, hv, hall, fun c hc => ?_, hlast⟩,
    ⟨gap', ds', hrest'.trans hds', hgap', hend⟩, rfl⟩
  · rw [← hus, List.append_assoc, List.append_assoc]
    exact hk.trans (hbs.trans ((Cursor.skipText_passes hl).trans hws))
  · have hblank := hstop c (by rw [hvs.1, List.head?_append, hc]; rfl)
    constructor <;> rintro rfl <;> exact hblank rfl

theorem ahead_of_declarationAt? {properties : List Text} {k : Cursor} {d : Declaration}
    (h : declarationAt? properties k = some d) : d.Ahead k := by
  obtain ⟨p, -, hp⟩ := List.exists_of_findSome?_eq_some h
  exact ahead_of_declarationOf? hp

theorem ahead_of_declarationFrom? {properties : List Text} {before : Option Char} {k : Cursor}
    {d : Declaration} (h : declarationFrom? properties before k = some d) : d.Ahead k := by
  unfold declarationFrom? at h
  simp only at h
  split at h
  · next d' hd =>
    cases h
    split_ifs at hd
    exact ahead_of_declarationAt? hd
  · split_ifs at h
    exact (ahead_of_declarationAt? h).passes (Cursor.skip_passes 1 k)

theorem ahead_of_mem_declarations {properties : List Text} {busy o : Nat} {before : Option Char}
    {cs : Text} {d : Declaration} (h : d ∈ declarations properties busy before o cs) :
    d.Ahead ⟨o, cs⟩ := by
  induction cs generalizing busy before o with
  | nil => simp [declarations] at h
  | cons c cs ih =>
    have hrest : ∀ {busy}, d ∈ declarations properties busy (some c) (o + c.utf8Size) cs →
        d.Ahead ⟨o, c :: cs⟩ := fun hmem => (ih hmem).passes (Cursor.passes_one o c cs)
    cases busy with
    | succ busy => exact hrest h
    | zero =>
      simp only [declarations] at h
      split at h
      · next d' hd =>
        rcases List.mem_cons.mp h with rfl | h
        · exact ahead_of_declarationFrom? hd
        · exact hrest h
      · exact hrest h

theorem Declaration.Ahead.exists_opens {cs : Text} {d : Declaration} (h : d.Ahead (.start cs)) :
    ∃ lead, cs = lead ++ d.start.rest ∧ d.start.offset = lead.size ∧
      ∃ c ∈ lead.getLast?, c = ' ' ∨ opensValue c := by
  obtain ⟨⟨us, gap, hus, hgap, b, hb, hopens⟩, -, -, -⟩ := h
  refine ⟨us ++ gap, hus.1, by rw [hus.2]; exact Nat.zero_add _, ?_⟩
  rcases List.eq_nil_or_concat gap with rfl | ⟨gap, c, rfl⟩
  · exact ⟨b, by rwa [List.append_nil], Or.inr hopens⟩
  · rw [List.concat_eq_append] at hgap ⊢
    exact ⟨c, by rw [← List.append_assoc, List.getLast?_concat]; rfl, Or.inl (hgap c (by simp))⟩

theorem Declaration.Ahead.exists_lead {cs : Text} {d : Declaration} (h : d.Ahead (.start cs)) :
    ∃ lead, cs = lead ++ d.start.rest ∧ d.start.offset = lead.size ∧ lead.getLast? ≠ some '/' ∧
      ∃ c ∈ d.start.rest.head?, c ≠ ' ' ∧ c ≠ '\n' := by
  obtain ⟨lead, hlead, hoffset, b, hb, hopens⟩ := h.exists_opens
  obtain ⟨-, ⟨vs, hvs, hne, hall, hfirst, -⟩, -, -⟩ := h
  refine ⟨lead, hlead, hoffset, fun hslash => ?_, vs.head hne, ?_,
    (hfirst _ (List.head?_eq_some_head hne)).1, ne_of_isValueChar (hall _ (List.head_mem hne))⟩
  · obtain rfl := Option.some.inj (hb.symm.trans hslash)
    rcases hopens with hspace | hopens
    · exact absurd hspace (by decide)
    · exact (isBreak_of_opensValue hopens).2 rfl
  · rw [hvs.1, List.head?_append, List.head?_eq_some_head hne]
    rfl

/-! ### In the text that was masked -/

theorem Declaration.Ahead.edges {filler : Char} {original mask : Text} {d : Declaration}
    (h : d.Ahead (.start mask)) (hm : Masks filler original mask) (hf : Fills filler) :
    original.LeftEdge d.start.offset ∧ original.RightEdge .declaration d.stop.offset ∧
      d.start.offset ≤ d.stop.offset := by
  obtain ⟨⟨us, gap, hus, hgap, hbreak⟩, ⟨vs, hvs, hv, hall, hfirst, hlast⟩,
    ⟨gap', ds, hrest, hgap', hend⟩, -⟩ := h
  have hstart : d.start.offset = Text.size (us ++ gap) := by rw [hus.2]; simp [Cursor.start]
  have hstop : d.stop.offset = Text.size (us ++ gap ++ vs) := by
    rw [hvs.2, hstart, ← Text.size_append]
  have hmask : mask = us ++ gap ++ (vs ++ (gap' ++ ds)) := by
    rw [← hrest, ← hvs.1, ← hus.1]
    rfl
  refine ⟨?_, ?_, hvs.le⟩
  · rw [hmask] at hm
    rw [hstart]
    obtain ⟨b, hb, hopens⟩ := hbreak
    obtain ⟨hspace, -⟩ := hfirst _ (List.head?_eq_some_head hv)
    have hline := ne_of_isValueChar (hall _ (List.head_mem hv))
    have hbreak := (isBreak_of_opensValue hopens).1
    refine hm.leftEdge hf ⟨b, hb, hbreak⟩ hgap ⟨_, ?_, hspace, hline⟩
    rw [List.head?_append, List.head?_eq_some_head hv]
    rfl
  · rw [hmask, ← List.append_assoc] at hm
    rw [hstop]
    have hnot := hlast _ (List.getLast?_eq_some_getLast hv)
    refine hm.rightEdge hf ⟨vs.getLast hv, ?_, ?_, ?_⟩ hgap' hend
    · rw [List.getLast?_append, List.getLast?_eq_some_getLast hv]
      rfl
    · exact fun h => hnot (by rw [h]; decide)
    · exact fun h => hnot (by rw [h]; decide)

/-! ### Without importance -/

theorem beforeLast?_eq_some {part cs lead : Text} (h : beforeLast? part cs = some lead) :
    ∃ ds, cs = lead ++ ds ∧ part <+: ds := by
  induction cs generalizing lead with
  | nil => cases h
  | cons c cs ih =>
    rw [beforeLast?] at h
    split at h
    · next lead' hl =>
      cases h
      obtain ⟨ds, rfl, hp⟩ := ih hl
      exact ⟨ds, rfl, hp⟩
    · split_ifs at h with hp
      cases h
      exact ⟨c :: cs, rfl, List.isPrefixOf_iff_prefix.mp hp⟩

theorem eq_of_toLower_eq {c : Char} (h : c.toLower = '!') : c = '!' := by
  unfold Char.toLower at h
  split at h
  · have := congrArg Char.val h
    simp only at this
    grind
  · exact h

/-- What is cut off a value starts with the exclamation mark, up to blanks. -/
theorem exists_cut_withoutImportance (value : Text) : withoutImportance value = value ∨
    ∃ bs rest, value = withoutImportance value ++ (bs ++ '!' :: rest) ∧ ∀ c ∈ bs, isBlank c := by
  unfold withoutImportance
  split
  · next lead hl =>
    obtain ⟨ds, hds, ⟨tail, htail⟩⟩ := beforeLast?_eq_some hl
    have hdrop : (value.drop lead.length).map Char.toLower =
        '!' :: ("important".toList ++ tail) := by
      have := congrArg (List.drop lead.length) hds
      rw [List.drop_left, Text.lower, ← List.map_drop, ← htail] at this
      exact this
    obtain ⟨c, cs, hcs, hc, -⟩ := List.map_eq_cons_iff.mp hdrop
    obtain rfl := eq_of_toLower_eq hc
    obtain ⟨bs, hbs, hb, -⟩ := Text.exists_trimEnd (value.take lead.length)
    refine Or.inr ⟨bs, cs, ?_, hb⟩
    rw [← hcs, ← List.append_assoc, ← hbs, List.take_append_drop]
  · exact Or.inl rfl

/-- What is cut off a value starts with what ends it, up to spaces. -/
theorem exists_withoutImportance (value : Text) : withoutImportance value = value ∨ ∃ gap c rest,
    value = withoutImportance value ++ (gap ++ c :: rest) ∧ (∀ d ∈ gap, d = ' ') ∧
      ValueContext.declaration.ends c := by
  refine (exists_cut_withoutImportance value).imp_right fun ⟨bs, cs, hcut, hb⟩ => ?_
  have hmark : ∀ c ∈ ('!' :: cs).head?, ValueContext.declaration.ends c := by
    intro c hc
    obtain rfl : '!' = c := by simpa using hc
    rfl
  obtain ⟨gap, rest, hrest, hgap, hend⟩ := Text.exists_end hb hmark
  cases rest with
  | nil => exact absurd (hgap '!' (by rw [← List.append_nil gap, ← hrest]; simp)) (by decide)
  | cons r rest => exact ⟨gap, r, rest, by rw [← hrest]; exact hcut, hgap, hend r (by simp)⟩

theorem size_withoutImportance_le (value : Text) :
    Text.size (withoutImportance value) ≤ Text.size value := by
  rcases exists_withoutImportance value with h | ⟨gap, c, rest, h, -⟩
  · rw [h]
  · have := congrArg Text.size h
    rw [Text.size_append] at this
    omega

theorem getLast?_withoutImportance (value : Text) : withoutImportance value = value ∨
    ∀ c ∈ (withoutImportance value).getLast?, ¬ isBlank c := by
  unfold withoutImportance
  split
  · obtain ⟨-, -, -, hlast⟩ := Text.exists_trimEnd (value.take _)
    exact Or.inr hlast
  · exact Or.inl rfl

/-! ### Sites -/

theorem Declaration.site?_eq_some {original : Text} {base : Nat} {d : Declaration} {v : ValueSite}
    (h : d.site? original base = some v) : v.context = .declaration ∧ v.value ≠ [] ∧
      v.value = withoutImportance (original.slice ⟨d.start.offset, d.stop.offset⟩) ∧
      v.span = ⟨base + d.start.offset, base + d.start.offset + Text.size v.value⟩ := by
  unfold site? at h
  simp only at h
  split_ifs at h with hne
  cases h
  exact ⟨rfl, by simpa using hne, rfl, rfl⟩

/-- The place of a declared value ends where the declaration does, or in front of it. -/
theorem Declaration.Ahead.stop_le {filler : Char} {original mask : Text} {d : Declaration}
    {v : ValueSite} (h : d.Ahead (.start mask)) (hm : Masks filler original mask)
    (hf : Fills filler) (hv : d.site? original 0 = some v) : v.span.stop ≤ d.stop.offset := by
  obtain ⟨hstart, hstop, hle⟩ := h.edges hm hf
  obtain ⟨-, -, hvalue, hspan⟩ := Declaration.site?_eq_some hv
  have hsize := Text.size_slice hstart.boundary hstop.boundary hle
  have hshort := size_withoutImportance_le (original.slice ⟨d.start.offset, d.stop.offset⟩)
  rw [← hvalue, hsize] at hshort
  rw [hspan]
  simp only
  omega

theorem Declaration.Ahead.on_site {filler : Char} {original mask : Text} {d : Declaration}
    {v : ValueSite} (h : d.Ahead (.start mask)) (hm : Masks filler original mask)
    (hf : Fills filler) (hv : d.site? original 0 = some v) : v.On original ∧ v.Framed original := by
  obtain ⟨hstart, hstop, hle⟩ := h.edges hm hf
  have hon : Span.On original ⟨d.start.offset, d.stop.offset⟩ :=
    Span.on_iff.mpr ⟨hstart.boundary, hstop.boundary, hle⟩
  unfold Declaration.site? at hv
  simp only at hv
  split_ifs at hv
  cases hv
  obtain ⟨as, ds, hcs, hs, he⟩ := hon.slice_eq
  simp only at hs he
  have hvalue := exists_withoutImportance (original.slice ⟨d.start.offset, d.stop.offset⟩)
  generalize hw : withoutImportance (original.slice ⟨d.start.offset, d.stop.offset⟩) = value
    at hvalue ⊢
  obtain ⟨cut, hcut, hright⟩ : ∃ cut,
      original.slice ⟨d.start.offset, d.stop.offset⟩ = value ++ cut ∧
      original.RightEdge .declaration (as ++ value).size := by
    rcases hvalue with hvalue | ⟨gap, c, rest, hvalue, hgap, hend⟩
    · refine ⟨[], by rw [hvalue, List.append_nil], ?_⟩
      rwa [Text.size_append, hvalue, hs, ← he]
    · refine ⟨_, hvalue, as ++ value, gap, c :: rest ++ ds, ?_, rfl, hgap, fun d hd => ?_⟩
      · rw [hcs, hvalue]
        simp only [List.append_assoc]
      · obtain rfl : c = d := by simpa using hd
        exact hend
  have hon' : original = as ++ value ++ (cut ++ ds) := by
    rw [hcs, hcut]
    simp only [List.append_assoc]
  simp only [Nat.zero_add, ← hs]
  refine ⟨⟨⟨as, value, cut ++ ds, hon', rfl⟩, ?_⟩, ⟨by rwa [← hs] at hstart, ?_⟩⟩
  · simp only [ValueContext.read]
    rw [hon', Text.slice_append]
  · rwa [Text.size_append] at hright

theorem Declaration.site?_base {original : Text} {base : Nat} {d : Declaration} {v : ValueSite}
    (h : d.site? original base = some v) : ∃ w, d.site? original 0 = some w ∧
      v = { w with span := w.span.shift base } := by
  unfold Declaration.site? at h ⊢
  simp only at h ⊢
  split_ifs at h ⊢
  cases h
  refine ⟨_, rfl, ?_⟩
  simp only [Span.shift, Nat.zero_add]
  congr 2 <;> omega

/-- **Declared values are on the text that was masked, and framed in it.** -/
theorem on_of_mem_declarationSites {filler : Char} {properties : List Text} {mask original : Text}
    {v : ValueSite} (hm : Masks filler original mask) (hf : Fills filler)
    (hv : v ∈ declarationSites properties mask original 0) : v.On original ∧ v.Framed original := by
  obtain ⟨d, hd, hsite⟩ := List.mem_filterMap.mp hv
  exact (ahead_of_mem_declarations hd).on_site hm hf hsite

theorem context_of_mem_declarationSites {properties : List Text} {mask original : Text} {base : Nat}
    {v : ValueSite} (h : v ∈ declarationSites properties mask original base) :
    v.context = .declaration := by
  obtain ⟨d, -, hsite⟩ := List.mem_filterMap.mp h
  exact (Declaration.site?_eq_some hsite).1

theorem value_ne_nil_of_mem_declarationSites {properties : List Text} {mask original : Text}
    {base : Nat} {v : ValueSite} (h : v ∈ declarationSites properties mask original base) :
    v.value ≠ [] := by
  obtain ⟨d, -, hsite⟩ := List.mem_filterMap.mp h
  exact (Declaration.site?_eq_some hsite).2.1

theorem exists_of_mem_declarationSites {properties : List Text} {mask original : Text} {base : Nat}
    {v : ValueSite} (hv : v ∈ declarationSites properties mask original base) :
    ∃ w ∈ declarationSites properties mask original 0,
      v = { w with span := w.span.shift base } := by
  obtain ⟨d, hd, hsite⟩ := List.mem_filterMap.mp hv
  obtain ⟨w, hw, heq⟩ := Declaration.site?_base hsite
  exact ⟨w, List.mem_filterMap.mpr ⟨d, hd, hw⟩, heq⟩

end DesignLint.Style
