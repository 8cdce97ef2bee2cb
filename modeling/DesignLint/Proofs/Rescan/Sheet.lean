import DesignLint.Proofs.Rescan.Declaration
import DesignLint.Proofs.Style.Sites
import DesignLint.Proofs.Value

/-!
# Declared values that are replaced

Suppose that a constant that a style sheet declares is replaced by an unbroken text. Then what is
declared there is that text, no more and no less (`span_eq_of_mem_sheetSites`): its declaration is
found again where it was, and a trailing `!important` is cut off as before
(`withoutImportance_append`).
-/

namespace DesignLint.Style

/-! ### Importance -/

theorem beforeLast?_append {part bs lead : Text} (h : beforeLast? part bs = some lead) (as : Text) :
    beforeLast? part (as ++ bs) = some (as ++ lead) := by
  induction as with
  | nil => exact h
  | cons a as ih => rw [List.cons_append, beforeLast?, ih, List.cons_append]

theorem exists_of_beforeLast?_append {part as bs lead : Text}
    (h : beforeLast? part (as ++ bs) = some lead) (hle : as.length ≤ lead.length) :
    ∃ lead', lead = as ++ lead' ∧ beforeLast? part bs = some lead' := by
  induction as generalizing lead with
  | nil => exact ⟨lead, rfl, h⟩
  | cons a as ih =>
    rw [List.cons_append, beforeLast?] at h
    split at h
    · next lead' hl =>
      cases h
      obtain ⟨ds, rfl, hds⟩ := ih hl (by simpa using hle)
      exact ⟨ds, rfl, hds⟩
    · split_ifs at h
      cases h
      simp at hle

theorem length_trimEnd_le (cs : Text) : (Text.trimEnd cs).length ≤ cs.length := by
  obtain ⟨bs, hbs, -⟩ := Text.exists_trimEnd cs
  have := congrArg List.length hbs
  rw [List.length_append] at this
  omega

theorem withoutImportance_append {x t ds : Text} (hx : ∃ c ∈ x.getLast?, ¬ isBlank c)
    (ht : ∃ c ∈ t.getLast?, ¬ isBlank c) (hmark : '!' ∉ t) (h : withoutImportance (x ++ ds) = x) :
    withoutImportance (t ++ ds) = t := by
  have hlower : ∀ us : Text, Text.lower (us ++ ds) = Text.lower us ++ Text.lower ds := fun us =>
    List.map_append
  have hlength : ∀ us : Text, (Text.lower us).length = us.length := fun us => List.length_map _
  unfold withoutImportance at h ⊢
  rw [hlower] at h ⊢
  split at h
  · next lead hl =>
    have hle : (Text.lower x).length ≤ lead.length := by
      have := length_trimEnd_le ((x ++ ds).take lead.length)
      rw [h, List.length_take] at this
      rw [hlength]
      omega
    obtain ⟨lead', rfl, hl'⟩ := exists_of_beforeLast?_append hl hle
    have htake : ∀ us : Text, (us ++ ds).take (Text.lower us ++ lead').length =
        us ++ ds.take lead'.length := by
      intro us
      rw [List.length_append, hlength, List.take_length_add_append]
    rw [beforeLast?_append hl']
    simp only
    rw [htake, Text.trimEnd_append hx, List.append_right_eq_self] at h
    rw [htake, Text.trimEnd_append ht, h, List.append_nil]
  · have hds : ds = [] := List.append_right_eq_self.mp h
    subst hds
    rw [List.append_nil]
    split
    · next lead hl =>
      obtain ⟨es, hes, tail, rfl⟩ := beforeLast?_eq_some hl
      obtain ⟨c, hc, heq⟩ : ∃ c ∈ t, c.toLower = '!' := by
        refine List.mem_map.mp (?_ : '!' ∈ Text.lower t)
        rw [show Text.lower ([] : Text) = [] from rfl, List.append_nil] at hes
        simp [hes]
      rw [eq_of_toLower_eq heq] at hc
      exact absurd hc hmark
    · rfl

/-! ### What fits -/

theorem head?_of_shown {filler c : Char} {marks : List (Char × Bool)} (hfiller : c ≠ filler)
    (h : (marks.flatMap (shown filler)).head? = some c) :
    (marks.map Prod.fst).head? = some c := by
  cases marks with
  | nil => cases h
  | cons m marks =>
    rw [List.flatMap_cons, List.head?_append] at h
    rcases shown_ends filler m with ⟨hm, -⟩ | ⟨-, -, hm⟩
    · rw [hm] at h
      exact h
    · rw [hm] at h
      exact absurd (Option.some.inj h).symm hfiller

theorem getLast?_of_shown {filler c : Char} {marks : List (Char × Bool)} (hfiller : c ≠ filler)
    (h : (marks.flatMap (shown filler)).getLast? = some c) :
    (marks.map Prod.fst).getLast? = some c := by
  rcases List.eq_nil_or_concat marks with rfl | ⟨marks, m, rfl⟩
  · cases h
  rw [List.concat_eq_append] at h ⊢
  rw [List.flatMap_append, List.flatMap_singleton, List.getLast?_append] at h
  rw [List.map_append, List.map_singleton, List.getLast?_concat]
  rcases shown_ends filler m with ⟨hm, -⟩ | ⟨-, hm, -⟩
  · rw [hm] at h
    exact h
  · rw [hm] at h
    exact absurd (Option.some.inj h).symm hfiller

theorem mem_flatMap_shown {filler : Char} {marks : List (Char × Bool)}
    (h : '\n' ∈ marks.map Prod.fst) : '\n' ∈ marks.flatMap (shown filler) := by
  obtain ⟨m, hm, heq⟩ := List.mem_map.mp h
  refine List.mem_flatMap.mpr ⟨m, hm, ?_⟩
  unfold shown cover
  rw [heq]
  split_ifs <;> simp_all

/-- An unbroken text can stand in place of a declared value. -/
theorem Fits.of_unbroken {t : Text} (h : t.Unbroken) : Fits t := by
  have hchars : ∀ c ∈ t, isValueChar c ∧ c ≠ '/' := by
    intro c hc
    have hbreak := h.not_isBreak c hc
    constructor
    · by_contra hnot
      exact hbreak (ValueContext.isBreak_of_ends (ends_of_not_isValueChar hnot))
    · rintro rfl
      exact hbreak (by decide)
  obtain ⟨c, cs, rfl⟩ := List.exists_cons_of_ne_nil h.ne_nil
  have hc := h.not_isBlank_head c rfl
  have hlast := List.getLast?_eq_some_getLast h.ne_nil
  refine ⟨fun d hd => (hchars d hd).1, ⟨c, rfl, ?_, ?_⟩, ⟨_, hlast, h.not_isBlank_getLast _ hlast,
    (hchars _ (List.mem_of_mem_getLast? hlast)).2⟩, fun hi => ?_, fun d hd => ?_⟩
  · rintro rfl
    exact hc (by decide)
  · rintro rfl
    exact hc (by decide)
  · exact (hchars '/' (hi.subset (by simp))).2 rfl
  · exact (hchars d ((List.dropWhile_sublist _).subset (List.mem_of_mem_head? hd))).2

/-- A constant without a line break can stand in place of a declared value, if its ends can. -/
theorem Fits.of_isLiteral {x : Text} (h : Value.isLiteral x) (hline : '\n' ∉ x)
    (hhead : ∃ c ∈ x.head?, c ≠ ' ' ∧ c ≠ '\t') (hlast : ∃ c ∈ x.getLast?, ¬ isBlank c) :
    Fits x ∧ '*' ∉ x := by
  obtain ⟨bs, hx, hbs, -⟩ := Text.exists_trim x
  obtain ⟨hfirst, hend⟩ := Value.slash_of_isLiteral h
  have hchars : ∀ c ∈ x, isBlank c ∨ Value.isConstantChar c := by
    intro c hc
    rw [hx, List.mem_append, List.mem_append] at hc
    rcases hc with (hc | hc) | hc
    · exact Or.inl (List.mem_takeWhile_imp hc)
    · exact Or.inr (Value.isConstantChar_of_mem h hc)
    · exact Or.inl (hbs c hc)
  have hmarks : ['*', ';', '\x7b', '\x7d'].all fun c =>
      !(isBlank c || Value.isConstantChar c) := by decide +kernel
  have hnone : ∀ c ∈ ['*', ';', '\x7b', '\x7d'], c ∉ x := by
    intro c hc hmem
    have hnot := List.all_eq_true.mp hmarks c hc
    rcases hchars c hmem with h | h <;> simp [h] at hnot
  have hstar : '*' ∉ x := hnone '*' (by simp)
  refine ⟨⟨fun c hc => ?_, hhead, ?_, fun hi => hstar (hi.subset (by simp)), ?_⟩, hstar⟩
  · by_contra hnot
    simp only [isValueChar, Bool.and_eq_true, bne_iff_ne, ne_eq, not_and, not_not] at hnot
    refine hline ?_
    rwa [← hnot ⟨⟨?_, ?_⟩, ?_⟩] <;> rintro rfl <;> exact hnone _ (by simp) hc
  · obtain ⟨c, hc, hblank⟩ := hlast
    exact ⟨c, hc, hblank, hend c (by rwa [Text.getLast?_trim ⟨c, hc, hblank⟩])⟩
  · intro c hc
    rcases Text.isBlank_or_mem_head?_trim (fun _ => isBlank_of_isTagBlank) hc with hblank | hc
    · rintro rfl
      exact absurd hblank (by decide)
    · exact hfirst c hc

/-! ### Declarations -/

/-- What the mask shows of a declared value is what is declared, or the front of it: one of them does
not end with a blank. -/
theorem exists_shown {before x after : Text} {d : Declaration} {v : ValueSite}
    (h : d.Ahead (.start (maskComments (.code true) (before ++ (x ++ after)))))
    (hv : d.site? (before ++ (x ++ after)) 0 = some v)
    (hspan : v.span = ⟨before.size, before.size + x.size⟩) (hvalue : v.value = x) :
    ∃ marks : List (Char × Bool), ∃ ws, x = marks.map Prod.fst ∧
      (∀ c ∈ marks.flatMap (shown ' ') ++ ws, isValueChar c) ∧
      (∀ c ∈ (marks.flatMap (shown ' ') ++ ws).head?, c ≠ ' ' ∧ c ≠ '\t') ∧
      ((∀ c ∈ (marks.flatMap (shown ' ')).getLast?, ¬ isBlank c) ∨
        ∀ c ∈ x.getLast?, ¬ isBlank c) := by
  have hmasks := masks_maskComments (before ++ (x ++ after))
  obtain ⟨-, -, hwithout, hspan'⟩ := Declaration.site?_eq_some hv
  obtain ⟨lead, hmask, hlead, -⟩ := h.exists_lead
  have hbefore : before.size = lead.size := by
    rw [hspan', Nat.zero_add, hlead, Span.mk.injEq] at hspan
    exact hspan.1.symm
  have hstop := h.stop_le hmasks (Or.inl rfl) hv
  obtain ⟨hleft, hright, hle⟩ := h.edges hmasks (Or.inl rfl)
  have hwritten := Text.size_slice hleft.boundary hright.boundary hle
  obtain ⟨vs, hvs, -, hall, hfirst, hlast⟩ := h.value
  have hvsize := hvs.2
  rw [hspan] at hstop
  simp only at hstop
  rw [hmask] at hmasks
  obtain ⟨marks, rest, hmarks, hrest⟩ := hmasks.exists_part (Or.inl rfl) hbefore.symm
  have hshown : Text.size (marks.flatMap (shown ' ')) = x.size := by
    rw [size_flatMap_shown rfl, ← hmarks]
  rw [hvs.1] at hrest
  obtain ⟨ws, rfl, -⟩ := Text.append_of_size_le hrest.symm (by omega)
  refine ⟨marks, ws, hmarks, hall, hfirst, ?_⟩
  rw [hvalue] at hwithout
  rcases getLast?_withoutImportance
    ((before ++ (x ++ after)).slice ⟨d.start.offset, d.stop.offset⟩) with hsame | hblank
  · -- nothing is cut off, so all that is declared is the value
    rw [← hsame, ← hwithout] at hwritten
    rw [Text.size_append] at hvsize
    obtain rfl : ws = [] := Text.size_eq_zero.mp (by omega)
    rw [List.append_nil] at hlast
    exact Or.inl hlast
  · rw [← hwithout] at hblank
    exact Or.inr hblank

theorem fits_of_site? {before x after : Text} {d : Declaration} {v : ValueSite}
    (h : d.Ahead (.start (maskComments (.code true) (before ++ (x ++ after)))))
    (hv : d.site? (before ++ (x ++ after)) 0 = some v)
    (hspan : v.span = ⟨before.size, before.size + x.size⟩) (hlit : Value.isLiteral v.value) :
    v.value = x ∧ Fits x ∧ '*' ∉ x := by
  obtain ⟨hon, -⟩ := h.on_site (masks_maskComments _) (Or.inl rfl) hv
  obtain ⟨hcontext, hne, -, -⟩ := Declaration.site?_eq_some hv
  obtain rfl : v.value = x := by
    rw [hon.value_eq, hcontext, hspan, ← List.append_assoc, Text.slice_append]
    rfl
  obtain ⟨marks, ws, hmarks, hall, hfirst, hlast⟩ := exists_shown h hv hspan rfl
  have hshown : marks.flatMap (shown ' ') ≠ [] := by
    intro hnil
    have hsize : Text.size (marks.flatMap (shown ' ')) = Text.size (marks.map Prod.fst) :=
      size_flatMap_shown rfl
    rw [hnil, ← hmarks] at hsize
    exact hne (Text.size_eq_zero.mp hsize.symm)
  have hhead := List.head?_eq_some_head hshown
  obtain ⟨hspace, htab⟩ := hfirst _ (by rw [List.head?_append, hhead]; rfl)
  refine ⟨rfl, Fits.of_isLiteral hlit (fun hmem => ?_) ⟨_, ?_, hspace, htab⟩ ?_⟩
  · rw [hmarks] at hmem
    exact ne_of_isValueChar (hall '\n' (List.mem_append_left _ (mem_flatMap_shown hmem))) rfl
  · rw [hmarks]
    exact head?_of_shown hspace hhead
  · rcases hlast with hlast | hlast
    · have hend := List.getLast?_eq_some_getLast hshown
      refine ⟨_, ?_, hlast _ hend⟩
      rw [hmarks]
      refine getLast?_of_shown (fun hs => ?_) hend
      exact hlast _ hend (by rw [hs]; decide)
    · exact ⟨_, List.getLast?_eq_some_getLast hne, hlast _ (List.getLast?_eq_some_getLast hne)⟩

theorem Declaration.Ahead.stop_of_fits {k : Cursor} {d : Declaration} {x rest : Text}
    (h : d.Ahead k) (hx : Fits x) (hrest : d.start.rest = x ++ rest) :
    d.stop.offset =
      d.start.offset + (Text.size x + Text.size (Text.trimEnd (rest.takeWhile isValueChar))) := by
  have htake : Text.trimEnd (([] ++ (x ++ rest)).takeWhile isValueChar) =
      [] ++ x ++ Text.trimEnd (rest.takeWhile isValueChar) := trimEnd_takeWhile rest hx (by simp)
  simp only [List.nil_append] at htake
  obtain ⟨bs, hbs, -⟩ := Text.exists_trimEnd (rest.takeWhile isValueChar)
  have hsplit : x ++ rest = x ++ Text.trimEnd (rest.takeWhile isValueChar) ++
      (bs ++ rest.dropWhile isValueChar) := by
    rw [List.append_assoc, ← List.append_assoc _ bs, ← hbs, List.takeWhile_append_dropWhile]
  have hstop := h.stop_eq
  rw [hrest, htake] at hstop
  have hstart : d.start = ⟨d.start.offset, x ++ rest⟩ := by rw [← hrest]
  rw [hstart, hsplit, Cursor.skip_append, Text.size_append] at hstop
  rw [hstop]

/-- **What is declared in place of a constant that has been replaced is what replaces it.** -/
theorem span_eq_of_mem_sheetSites {properties : List Text} {before x t after : Text}
    {v w : ValueSite} (hv : v ∈ sheetSites properties (before ++ (x ++ after)))
    (hspan : v.span = ⟨before.size, before.size + x.size⟩) (hlit : Value.isLiteral v.value)
    (ht : Fits t) (hcolon : ':' ∉ t) (hmark : '!' ∉ t)
    (hw : w ∈ sheetSites properties (before ++ (t ++ after)))
    (hover : w.span.overlaps ⟨before.size, before.size + t.size⟩) :
    w.span = ⟨before.size, before.size + t.size⟩ := by
  obtain ⟨d, hd, hdv⟩ := List.mem_filterMap.mp hv
  obtain ⟨d', hd', hdw⟩ := List.mem_filterMap.mp hw
  have hahead := ahead_of_mem_declarations hd
  have hahead' := ahead_of_mem_declarations hd'
  obtain ⟨rfl, hx, hstar⟩ := fits_of_site? hahead hdv hspan hlit
  obtain ⟨lead, hmask, hstart, hlast, hhead⟩ := hahead.exists_lead
  obtain ⟨lead', hmask', hstart', -⟩ := hahead'.exists_lead
  obtain ⟨-, -, hvalue, hspan'⟩ := Declaration.site?_eq_some hdv
  obtain ⟨-, -, hvalue', hspan''⟩ := Declaration.site?_eq_some hdw
  have hbefore : before.size = lead.size := by
    rw [hspan', Nat.zero_add, hstart, Span.mk.injEq] at hspan
    exact hspan.1.symm
  obtain ⟨rest, hrest, hnew⟩ := exists_masks hx hstar ht hmask hbefore.symm hlast hhead
  -- what is declared in place of the value starts where the value does
  have hsame : d'.start.offset = lead.size := by
    rw [hmask, hrest] at hd
    rw [hnew] at hd'
    have hcases := start_eq_of_mem_declarations hx ht rest hcolon hd hstart hd'
    have hstop := hahead'.stop_le (masks_maskComments _) (Or.inl rfl) hdw
    simp only [Span.overlaps_iff, hspan''] at hover hstop
    omega
  have hrest' : d'.start.rest = t ++ rest :=
    (Text.append_inj_size (hmask'.symm.trans hnew) (hstart'.symm.trans hsame)).2
  -- so it ends as far behind what replaces the value as it ended behind the value
  rw [hahead.stop_of_fits hx hrest, hstart, ← hbefore, Text.slice_append_takeBytes] at hvalue
  rw [hahead'.stop_of_fits ht hrest', hsame, ← hbefore, Text.slice_append_takeBytes,
    withoutImportance_append hx.exists_last ht.exists_last hmark hvalue.symm] at hvalue'
  rw [hspan'', hsame, hvalue', Nat.zero_add, hbefore]

end DesignLint.Style
