import DesignLint.Proofs.Fix.Rewrite
import DesignLint.Proofs.Fix.Variant
import DesignLint.Proofs.Markup.Reread

/-!
# Attributes after a fix

The replacement that is planned for an element is its opening tag with another name, and perhaps
without an attribute and the blanks in front of it (`replacement_eq`).
-/

namespace DesignLint

open Markup

/-! ### Splicing two places -/

theorem patch_append_cons (as bs xs ds t : Text) (es : List Edit) :
    patch (as ++ bs ++ xs ++ ds) as.size
        (⟨⟨Text.size (as ++ bs), Text.size (as ++ bs) + xs.size⟩, t⟩ :: es) =
      bs ++ t ++ patch (as ++ bs ++ xs ++ ds) (Text.size (as ++ bs) + xs.size) es := by
  have h := Text.slice_append as bs (xs ++ ds)
  rw [← Text.size_append] at h
  simp only [patch, List.append_assoc] at h ⊢
  rw [h]

theorem patch_append_nil (as ds : Text) : patch (as ++ ds) as.size [] = ds :=
  Text.dropBytes_size_append as ds

theorem splice_one (as xs ds t : Text) (hx : xs ≠ []) :
    splice (as ++ xs ++ ds) [⟨⟨as.size, as.size + xs.size⟩, t⟩] = as ++ t ++ ds := by
  have hpos := Text.size_pos hx
  have hon := Span.on_append as xs ds
  have hord : Ordered (as ++ xs ++ ds) 0 [⟨⟨as.size, as.size + xs.size⟩, t⟩] :=
    ⟨Text.boundary_zero _, Nat.zero_le _, hon, by simp only; omega, (Span.on_iff.mp hon).2.1⟩
  have h1 := patch_append_cons [] as xs ds t []
  have h2 := patch_append_nil (as ++ xs) ds
  simp only [List.nil_append, Text.size_nil, Text.size_append] at h1 h2
  rw [hord.splice_eq (.refl _), h1, h2]

theorem splice_two (as xs bs ys ds t u : Text) (hx : xs ≠ []) (hy : ys ≠ []) :
    splice (as ++ xs ++ bs ++ ys ++ ds) [⟨⟨as.size, as.size + xs.size⟩, t⟩,
      ⟨⟨Text.size (as ++ xs ++ bs), Text.size (as ++ xs ++ bs) + ys.size⟩, u⟩] =
        as ++ t ++ bs ++ u ++ ds := by
  have hpos := Text.size_pos hx
  have hpos' := Text.size_pos hy
  have hon := (Span.on_append as xs bs).append (ys ++ ds)
  have hon' := Span.on_append (as ++ xs ++ bs) ys ds
  rw [← List.append_assoc] at hon
  have hord : Ordered (as ++ xs ++ bs ++ ys ++ ds) 0 [⟨⟨as.size, as.size + xs.size⟩, t⟩,
      ⟨⟨Text.size (as ++ xs ++ bs), Text.size (as ++ xs ++ bs) + ys.size⟩, u⟩] := by
    refine ⟨Text.boundary_zero _, Nat.zero_le _, hon, by simp only; omega, (Span.on_iff.mp hon).2.1,
      ?_, hon', by simp only; omega, (Span.on_iff.mp hon').2.1⟩
    simp only [Text.size_append]
    omega
  have h1 := patch_append_cons [] as xs (bs ++ ys ++ ds) t
    [⟨⟨Text.size (as ++ xs ++ bs), Text.size (as ++ xs ++ bs) + ys.size⟩, u⟩]
  have h2 := patch_append_cons (as ++ xs) bs ys ds u []
  have h3 := patch_append_nil (as ++ xs ++ bs ++ ys) ds
  rw [Text.size_append (as ++ xs ++ bs) ys] at h3
  rw [Text.size_append as xs] at h2
  simp only [List.nil_append, Text.size_nil, ← List.append_assoc] at h1
  rw [hord.splice_eq (.refl _), h1, h2, h3]
  simp only [List.append_assoc]

section

variable {cs : Text} {k l a b c d : Nat}

theorem splice_slice_one (hk : cs.Boundary k) (ha : cs.Boundary a) (hb : cs.Boundary b)
    (hl : cs.Boundary l) (h1 : k ≤ a) (h2 : a < b) (h3 : b ≤ l) (t : Text) :
    splice (cs.slice ⟨k, l⟩) [Edit.shiftLeft ⟨⟨a, b⟩, t⟩ k] =
      cs.slice ⟨k, a⟩ ++ t ++ cs.slice ⟨b, l⟩ := by
  have hs1 := Text.size_slice hk ha h1
  have hs2 := Text.size_slice ha hb (Nat.le_of_lt h2)
  have hslice : cs.slice ⟨k, l⟩ = cs.slice ⟨k, a⟩ ++ cs.slice ⟨a, b⟩ ++ cs.slice ⟨b, l⟩ := by
    rw [Text.slice_append_slice hk ha hb h1 (Nat.le_of_lt h2),
      Text.slice_append_slice hk hb hl (by omega) h3]
  have hne : cs.slice ⟨a, b⟩ ≠ [] := fun hnil => by
    rw [hnil, Text.size_nil] at hs2
    omega
  have hone := splice_one (cs.slice ⟨k, a⟩) (cs.slice ⟨a, b⟩) (cs.slice ⟨b, l⟩) t hne
  have hspan : a - k + (b - a) = b - k := by omega
  rwa [hs1, hs2, hspan, ← hslice] at hone

theorem splice_slice_two (hk : cs.Boundary k) (ha : cs.Boundary a) (hb : cs.Boundary b)
    (hc : cs.Boundary c) (hd : cs.Boundary d) (hl : cs.Boundary l) (h1 : k ≤ a) (h2 : a < b)
    (h3 : b ≤ c) (h4 : c < d) (h5 : d ≤ l) (t u : Text) :
    splice (cs.slice ⟨k, l⟩) [Edit.shiftLeft ⟨⟨a, b⟩, t⟩ k, Edit.shiftLeft ⟨⟨c, d⟩, u⟩ k] =
      cs.slice ⟨k, a⟩ ++ t ++ cs.slice ⟨b, c⟩ ++ u ++ cs.slice ⟨d, l⟩ := by
  have hs1 := Text.size_slice hk ha h1
  have hs2 := Text.size_slice ha hb (Nat.le_of_lt h2)
  have hs3 := Text.size_slice hk hc (by omega)
  have hs4 := Text.size_slice hc hd (Nat.le_of_lt h4)
  have hfront : cs.slice ⟨k, a⟩ ++ cs.slice ⟨a, b⟩ ++ cs.slice ⟨b, c⟩ = cs.slice ⟨k, c⟩ := by
    rw [Text.slice_append_slice hk ha hb h1 (Nat.le_of_lt h2),
      Text.slice_append_slice hk hb hc (by omega) h3]
  have hslice : cs.slice ⟨k, l⟩ = cs.slice ⟨k, c⟩ ++ cs.slice ⟨c, d⟩ ++ cs.slice ⟨d, l⟩ := by
    rw [Text.slice_append_slice hk hc hd (by omega) (Nat.le_of_lt h4),
      Text.slice_append_slice hk hd hl (by omega) h5]
  have hne : ∀ {a b}, Text.size (cs.slice ⟨a, b⟩) = b - a → a < b → cs.slice ⟨a, b⟩ ≠ [] := by
    intro a b hs hlt hnil
    rw [hnil, Text.size_nil] at hs
    omega
  have htwo := splice_two (cs.slice ⟨k, a⟩) (cs.slice ⟨a, b⟩) (cs.slice ⟨b, c⟩) (cs.slice ⟨c, d⟩)
    (cs.slice ⟨d, l⟩) t u (hne hs2 h2) (hne hs4 h4)
  have hspan : a - k + (b - a) = b - k := by omega
  have hspan' : c - k + (d - c) = d - k := by omega
  rwa [hfront, hs1, hs2, hs3, hs4, hspan, hspan', ← hslice] at htwo

end

/-! ### Replacements -/

/-- What stands behind the name in an opening tag, without an attribute and the blanks in front of
it. -/
def restOfTag (cs : Text) (e : Element) : Option Attribute → Text
  | none => cs.slice ⟨e.name.stop, e.tag.stop⟩
  | some a => cs.slice ⟨e.name.stop, (withLead cs e.name a.span).start⟩ ++
      cs.slice ⟨a.span.stop, e.tag.stop⟩

theorem ElementEdits.filter_within {cs : Text} {e : Element} {opening component : Text}
    {dropped : Option Attribute} {es : List Edit}
    (h : ElementEdits cs e opening component dropped es) (he : e.On cs) :
    es.filter (·.span.within e.tag) = ⟨e.name, opening⟩ ::
      (dropped.map fun a => (⟨withLead cs e.name a.span, []⟩ : Edit)).toList := by
  obtain ⟨closing, hc, rfl⟩ := h.edits_eq
  have hname : e.name.within e.tag = true := by
    have h1 := he.name_start
    have h2 := he.name_le
    rw [Span.within_iff]
    omega
  have hdropped : ∀ a ∈ dropped, (withLead cs e.name a.span).within e.tag = true := by
    intro a ha
    have h1 := withLead_spec he (h.dropped_mem a ha)
    have h2 := he.attributes a (h.dropped_mem a ha)
    have h3 := he.name_start
    have h4 := he.name_lt
    rw [Span.within_iff]
    omega
  have hclosing : closing.filter (·.span.within e.tag) = [] := by
    rw [List.filter_eq_nil_iff]
    intro d hd
    rcases closingEdit_eq_ok hc with ⟨-, rfl⟩ | ⟨-, s, hs, rfl⟩
    · simp at hd
    · rw [List.mem_singleton.mp hd]
      obtain ⟨-, hlt, hle⟩ := he.closing s hs
      rw [Span.within_iff]
      simp only
      omega
  rw [List.cons_append, List.filter_cons_of_pos (by exact hname), List.filter_append, hclosing,
    List.append_nil]
  cases dropped with
  | none => rfl
  | some a => simp [hdropped a rfl]

/-- **The replacement for an opening tag.** -/
theorem ElementEdits.replacement_eq {cs : Text} {e : Element} {opening component : Text}
    {dropped : Option Attribute} {es : List Edit}
    (h : ElementEdits cs e opening component dropped es) (he : e.On cs) :
    spliceWithin cs e.tag es =
      cs.slice ⟨e.tag.start, e.name.start⟩ ++ opening ++ restOfTag cs e dropped := by
  obtain ⟨htag, htag', -⟩ := Span.on_iff.mp he.tag
  obtain ⟨hname, hname', -⟩ := Span.on_iff.mp he.name
  have hstart := he.name_start
  rw [spliceWithin, h.filter_within he]
  cases hd : dropped with
  | none => exact splice_slice_one htag hname hname' htag' (by omega) he.name_lt he.name_le opening
  | some a =>
    have ha := h.dropped_mem a hd
    obtain ⟨hlead, h1, h2, h3⟩ := withLead_spec he ha
    obtain ⟨hlead, hlead', -⟩ := Span.on_iff.mp hlead
    obtain ⟨-, -, h4, h5⟩ := he.attributes a ha
    rw [h3] at hlead'
    have htwo := splice_slice_two htag hname hname' hlead hlead' htag' (by omega) he.name_lt h1
      (by omega) h5 opening []
    have hspan : withLead cs e.name a.span = ⟨(withLead cs e.name a.span).start, a.span.stop⟩ := by
      rw [← h3]
    simp only [Option.map_some, Option.toList_some, List.map_cons, List.map_nil, restOfTag]
    rw [hspan, htwo, List.append_nil, List.append_assoc _ (cs.slice _) (cs.slice _)]

/-! ### The tag that was read -/

/-- How the opening tag of an element was read: from the end of its name at `p`, over its
attributes up to `m`, and to its end at `last`. -/
structure TagIn (cs : Text) (e : Element) (p m last : Cursor) (te : TagEnd) : Prop where
  point : p.In cs
  name_stop : p.offset = e.name.stop
  tag_stop : last.offset = e.tag.stop
  open_eq : cs.slice ⟨e.tag.start, e.name.start⟩ = ['<']
  head : ∀ c ∈ p.rest.head?, ¬ isNameChar c
  reads : Reads p e.attributes m
  ends : Ends m te last
  selfClosing_eq : e.selfClosing = (te == .closedItself)
  terminated_eq : e.terminated = (te != .unterminated)

theorem exists_tagIn {cs name : Text} {e : Element} (h : e ∈ findElements cs name) :
    ∃ p m last te, TagIn cs e p m last te := by
  obtain ⟨k, l, e', hk, hlead, -, hread, rfl⟩ := mem_findElements h
  obtain ⟨p, m, te, htag⟩ := readOpeningTag_eq_some.mp hread
  obtain ⟨h1, h2, h3, h4, h5⟩ := withClosing_eq name e' l
  obtain ⟨lt, tag, hlt, -, hstop, hp⟩ := htag.name
  obtain ⟨ds, hds⟩ := hlead
  obtain rfl : '<' = lt := by
    have := hds.trans hp.1
    rw [List.cons_append, List.cons_append, List.cons.injEq] at this
    exact this.1
  have hopen : k.Passes ['<'] ⟨k.offset + 1, tag ++ p.rest⟩ := ⟨hp.1, rfl⟩
  refine ⟨p, m, l, te, hk.passes hp, by rw [h2, htag.name_eq], by rw [h1, htag.tag_eq], ?_, hstop,
    by rw [h3]; exact htag.reads, htag.ends, by rw [h4, htag.selfClosing_eq],
    by rw [h5, htag.terminated_eq]⟩
  rw [h1, h2, htag.tag_eq, htag.name_eq]
  exact hk.slice_eq hopen

namespace TagIn

variable {cs : Text} {e : Element} {p m last : Cursor} {te : TagEnd}

theorem passes (h : TagIn cs e p m last te) :
    p.Passes (cs.slice ⟨e.name.stop, e.tag.stop⟩) last := by
  obtain ⟨us, hus, -⟩ := h.reads.exists_passes
  obtain ⟨vs, hvs⟩ := h.ends.exists_passes
  have := h.point.slice_eq (hus.trans hvs)
  rw [h.name_stop, h.tag_stop] at this
  rw [this]
  exact hus.trans hvs

theorem size_le_of_blanks {us vs xs ys : Text} (h : us ++ vs = xs ++ ys) (hy : Blanks ys)
    (hu : ∀ c ∈ us.getLast?, ¬ isTagBlank c) : us.size ≤ xs.size := by
  rcases List.append_eq_append_iff.mp h with ⟨ws, rfl, -⟩ | ⟨ws, rfl, hws⟩
  · simp
  · rcases List.eq_nil_or_concat ws with rfl | ⟨ws, w, rfl⟩
    · simp
    · rw [List.concat_eq_append] at hws hu
      refine absurd (hy w (by rw [hws]; simp)) (hu w ?_)
      rw [← List.append_assoc, List.getLast?_concat]
      rfl

theorem exists_around (h : TagIn cs e p m last te) {as bs : List Attribute} {a : Attribute}
    (ha : e.attributes = as ++ a :: bs) : ∃ q r, Reads p as q ∧ Reads r bs m ∧
      p.Passes (cs.slice ⟨e.name.stop, (withLead cs e.name a.span).start⟩) q ∧
      r.Passes (cs.slice ⟨a.span.stop, e.tag.stop⟩) last := by
  have hreads := h.reads
  rw [ha] at hreads
  obtain ⟨q, r, hq, hstep, hr⟩ := hreads.split
  obtain ⟨ds, vs, hd, hpiece, hvs, hspan⟩ := exists_piece_of_attribute hstep
  obtain ⟨us, hus, hlast⟩ := hq.exists_passes
  obtain ⟨ws, hws, -⟩ := hr.exists_passes
  obtain ⟨xs, hxs⟩ := h.ends.exists_passes
  have hqin := h.point.passes hus
  have hrin := hqin.passes hvs
  have hlead : (withLead cs e.name a.span).start = q.offset := by
    obtain ⟨before, hcs, ho⟩ := Cursor.in_iff.mp h.point
    have hcs' : cs = before ++ us ++ ds ++ (vs ++ r.rest) := by
      rw [hcs, hus.1, hvs.1]
      simp only [List.append_assoc]
    have hstart : a.span.start = Text.size (before ++ us ++ ds) := by
      rw [hspan, hus.2, ho]
      simp only [Text.size_append]
    obtain ⟨us', ds', htake, hd', hus', hlead⟩ := @exists_withLead cs a.span e.name
      ⟨_, _, hcs', hstart.symm⟩
    rw [hstart] at htake
    conv at htake => lhs; rw [hcs', Text.takeBytes_size_append]
    have hle := size_le_of_blanks htake.symm hd hus'
    have hq := hus.2
    rw [hlead, ← h.name_stop]
    simp only [Text.size_append] at hle ⊢
    rcases hlast with rfl | ⟨vs', c, rfl, hc⟩
    · simp only [Text.size_nil] at hle hq
      omega
    · have hge := size_le_of_blanks htake hd' fun d hd => by
        rw [← List.append_assoc, List.getLast?_concat] at hd
        obtain rfl : c = d := by simpa using hd
        exact hc
      simp only [Text.size_append] at hge hle hq
      omega
  refine ⟨q, r, hq, hr, ?_, ?_⟩
  · have := h.point.slice_eq hus
    rw [hlead, ← h.name_stop, this]
    exact hus
  · have := hrin.slice_eq (hws.trans hxs)
    rw [hspan, ← h.tag_stop]
    simp only
    rw [this]
    exact hws.trans hxs

end TagIn

/-! ### Variants -/

theorem mem_of_resolveVariant {value : Option AttributeValue} {fallback : Option String}
    {ms : List VariantMapping} {v : String} (h : resolveVariant value fallback ms = .ok v) :
    fallback = some v ∨ ∃ m ∈ ms, m.value = v := by
  rcases ((resolveVariant_spec value).ok v).mp h with ⟨-, hv⟩ | ⟨source, -, -, hv⟩
  · exact Or.inl hv
  · obtain ⟨m, hm, -, hvalue⟩ := (hv v).mpr rfl
    exact Or.inr ⟨m, hm, hvalue⟩

/-! ### Attributes that are kept -/

/-- The class names of an element can be removed without a change to its other attributes: what
stands in front of them ends there also without them, and no other attribute has their name. -/
def Removable (cs : Text) (e : Element) : Prop :=
  ∀ a ∈ e.attribute? classAttribute,
    Joins (cs.slice ⟨e.name.stop, (withLead cs e.name a.span).start⟩)
      (cs.slice ⟨a.span.stop, e.tag.stop⟩) ∧
    ∀ b ∈ e.attributes, b.name = classAttribute → b = a

/-- No comment stands in an opening tag in front of the class names. -/
def Uncommented (cs : Text) (e : Element) : Prop :=
  ∀ a ∈ e.attribute? classAttribute,
    ¬ ['/', '*'] <:+: cs.slice ⟨e.name.stop, (withLead cs e.name a.span).start⟩

/-- The attributes apart from class names. -/
def otherAttributes (e : Element) : List (String × AttributeValue) :=
  (e.attributes.filter (·.name != classAttribute)).map content

section

variable {cs name : Text} {e : Element} {es : List Edit}

theorem TagIn.te_ne {p m last : Cursor} {te : TagEnd} (h : TagIn cs e p m last te)
    (hterm : e.terminated = true) : te ≠ .unterminated := by
  have := h.terminated_eq
  rw [hterm] at this
  simpa using this.symm

/-- What stands behind the name of a tag is no part of it. -/
theorem TagIn.head_slice {p m last : Cursor} {te : TagEnd} (h : TagIn cs e p m last te) :
    ∀ c ∈ (cs.slice ⟨e.name.stop, e.tag.stop⟩).head?, ¬ isNameChar c := by
  intro c hc
  refine h.head c ?_
  rw [h.passes.1]
  obtain ⟨ds, hds⟩ := List.head?_eq_some_iff.mp hc
  rw [hds]
  rfl

/-- **A renamed element keeps its attributes.** -/
theorem shows_renamed (he : e ∈ findElements cs name) (hon : e.On cs) (hterm : e.terminated = true)
    {component : Text} (hc : IsTag component) (h : ElementEdits cs e component component none es) :
    Shows (spliceWithin cs e.tag es) component e.selfClosing (e.attributes.map content) := by
  obtain ⟨p, m, last, te, htag⟩ := exists_tagIn he
  rw [h.replacement_eq hon, htag.open_eq, htag.selfClosing_eq]
  exact (shows_iff hc htag.head_slice).mpr
    (finishes_of_reads htag.reads htag.ends (htag.te_ne hterm) htag.passes _)

theorem exists_classNames {a : Attribute} (ha : e.attribute? classAttribute = some a) :
    ∃ as bs, e.attributes = as ++ a :: bs ∧ a.name = classAttribute ∧
      otherAttributes e = as.map content ++ (bs.filter (·.name != classAttribute)).map content ∧
      ∀ b ∈ as, b.name ≠ classAttribute := by
  obtain ⟨hname, as, bs, hsplit, has⟩ := List.find?_eq_some_iff_append.mp ha
  simp only [beq_iff_eq] at hname
  have has : ∀ b ∈ as, b.name ≠ classAttribute := fun b hb => by simpa using has b hb
  refine ⟨as, bs, hsplit, hname, ?_, has⟩
  rw [otherAttributes, hsplit, List.filter_append, List.filter_cons_of_neg (by simp [hname]),
    List.map_append, List.filter_eq_self.mpr fun b hb => by simpa using has b hb]

/-- An attribute is the only one of its name if no later one is left out with it. -/
theorem TagIn.only_classNames_iff {p m last : Cursor} {te : TagEnd} (h : TagIn cs e p m last te)
    {as bs : List Attribute} {a : Attribute} (hsplit : e.attributes = as ++ a :: bs)
    (has : ∀ b ∈ as, b.name ≠ classAttribute) :
    (∀ b ∈ e.attributes, b.name = classAttribute → b = a) ↔
      (bs.filter (·.name != classAttribute)).map content = bs.map content := by
  constructor
  · intro hone
    congr 1
    refine List.filter_eq_self.mpr fun b hb => bne_iff_ne.mpr fun hb' => ?_
    have hba := hone b (by rw [hsplit]; simp [hb]) hb'
    -- two attributes are in two places
    have hspans := h.reads.spans
    rw [hsplit] at hspans
    have h1 := (hspans.1 a (by simp)).2.1
    have h2 := (List.pairwise_cons.mp (List.pairwise_append.mp hspans.2).2.1).1 b hb
    rw [hba] at h2
    omega
  · intro heq b hb hbn
    have hlen := congrArg List.length heq
    rw [List.length_map, List.length_map] at hlen
    have hbs := List.filter_eq_self.mp (List.filter_sublist.eq_of_length hlen)
    rw [hsplit, List.mem_append, List.mem_cons] at hb
    rcases hb with hb | hb | hb
    · exact absurd hbn (has b hb)
    · exact hb
    · exact absurd hbn (bne_iff_ne.mp (hbs b hb))

/-- What an element with an attribute in place of its class names shows is read behind this
attribute. -/
theorem TagIn.shows_remapped_iff {p m last : Cursor} {te : TagEnd} (htag : TagIn cs e p m last te)
    (hon : e.On cs) {component target value : String} (hc : IsTag component.toList)
    (ht : IsName target.toList) (hv : '"' ∉ value.toList)
    (h : ElementEdits cs e (openingText component target value) component.toList
      (e.attribute? classAttribute) es) :
    Shows (spliceWithin cs e.tag es) component.toList e.selfClosing
      ((target, .literal value) :: otherAttributes e) ↔ Finishes ⟨1 + Text.size component.toList +
        Text.size (' ' :: (target.toList ++ '=' :: '"' :: (value.toList ++ ['"']))),
          restOfTag cs e (e.attribute? classAttribute)⟩ (te == .closedItself) (otherAttributes e) := by
  have hopening : ['<'] ++ openingText component target value ++
      restOfTag cs e (e.attribute? classAttribute) = '<' :: component.toList ++
        (' ' :: (target.toList ++ '=' :: '"' :: (value.toList ++ ['"'])) ++
          restOfTag cs e (e.attribute? classAttribute)) := by
    simp [openingText]
  rw [h.replacement_eq hon, htag.open_eq, htag.selfClosing_eq, hopening,
    shows_iff hc (by simp; decide), ← finishes_attribute_iff ht hv, String.ofList_toList,
    String.ofList_toList]

/-- **An element with an attribute in place of its class names keeps its other attributes if the
class names can be removed, and, comments apart, only then.** -/
theorem shows_remapped (he : e ∈ findElements cs name) (hon : e.On cs) (hterm : e.terminated = true)
    (hspread : e.spreads = false) {component target value : String} (hc : IsTag component.toList)
    (ht : IsName target.toList) (hv : '"' ∉ value.toList)
    (h : ElementEdits cs e (openingText component target value) component.toList
      (e.attribute? classAttribute) es) :
    (Removable cs e → Shows (spliceWithin cs e.tag es) component.toList e.selfClosing
      ((target, .literal value) :: otherAttributes e)) ∧
    (Uncommented cs e → Shows (spliceWithin cs e.tag es) component.toList e.selfClosing
      ((target, .literal value) :: otherAttributes e) → Removable cs e) := by
  obtain ⟨p, m, last, te, htag⟩ := exists_tagIn he
  have hte := htag.te_ne hterm
  rw [htag.shows_remapped_iff hon hc ht hv h]
  generalize 1 + Text.size component.toList + _ = o
  cases ha : e.attribute? classAttribute with
  | none =>
    have hall : otherAttributes e = e.attributes.map content := by
      rw [otherAttributes, List.filter_eq_self.mpr]
      simpa using List.find?_eq_none.mp ha
    rw [hall]
    exact ⟨fun _ => finishes_of_reads htag.reads htag.ends hte htag.passes _,
      fun _ _ a ha' => by rw [ha] at ha'; cases ha'⟩
  | some a =>
    obtain ⟨as, bs, hsplit, hname, hother, has⟩ := exists_classNames ha
    obtain ⟨q, r, hq, hr, hU, hT⟩ := htag.exists_around hsplit
    have hjoins := finishes_of_joins hq hU hr htag.ends hte hT
    have honly := htag.only_classNames_iff hsplit has
    constructor
    · intro hrem
      obtain ⟨hj, hone⟩ := hrem a ha
      rw [hother, honly.mp hone, ← List.map_append]
      exact hjoins hj o
    · intro hun hf a' ha'
      obtain rfl : a = a' := Option.some.inj (ha.symm.trans ha')
      rw [restOfTag, hother] at hf
      have hvalues : ∀ b ∈ as, ∀ s, b.value ≠ .spread s := fun b hb s hs => by
        have hany : e.spreads = true :=
          List.any_eq_true.mpr ⟨b, by rw [hsplit]; simp [hb], by rw [hs]⟩
        rw [hspread] at hany
        cases hany
      have hj := joins_of_finishes hq hU hvalues (hun a ha) hf
      -- all attributes are read behind the removed one, so no class names are left out there
      have heq := (hjoins hj o).eq hf
      rw [List.map_append, List.append_cancel_left_eq] at heq
      exact ⟨hj, honly.mpr heq.symm⟩

end

/-- **What a fixed element shows.** The opening tag that takes the place of the old one is
terminated, has the configured name and closes itself if the old one did. A renamed element has the
attributes that it had. An element with a new attribute in place of its class names has this one and
then the others, if the class names can be removed; and only then, unless a comment stands in front
of them. -/
theorem shows_of_applied {c : Config} {g : Registry} (hg : Registry.ofConfig c = .ok g)
    {file : Source} {i : Nat} {t : Text} {f : Finding} {e : Element} {r : Rule}
    (happlied : (i, t) ∈ (rewrite g file.text (g.triaged file)).applied)
    (hf : (g.triaged file)[i]? = some f) (he : f.site = .element e)
    (hr : g.rule? f.rule = some r) :
    (∀ component, r.autofix = .rename component → IsTag component.toList →
      Shows t component.toList e.selfClosing (e.attributes.map content)) ∧
    ∀ component target fallback ms, r.autofix = .remap component target fallback ms →
      IsTag component.toList → IsName target.toList → (∀ v ∈ fallback, '"' ∉ v.toList) →
      (∀ m ∈ ms, '"' ∉ m.value.toList) →
      ∃ value, resolveVariant (e.valueOf? classAttribute) fallback ms = .ok value ∧
        (Removable file.text e → Shows t component.toList e.selfClosing
          ((target, .literal value) :: otherAttributes e)) ∧
        (Uncommented file.text e → Shows t component.toList e.selfClosing
          ((target, .literal value) :: otherAttributes e) → Removable file.text e) := by
  obtain ⟨hmem, p, hp, rfl⟩ := exists_plan_of_applied hg happlied hf
  obtain ⟨r', hr', hrule, hsite, hon, ho⟩ := exists_rule_of_mem_fixableFindings hg hmem
  obtain rfl : r = r' := Option.some.inj (hr.symm.trans hr')
  rw [he] at hsite hon ho
  obtain ⟨hterm, hspread⟩ := obstacle?_element_eq_none ho
  obtain ⟨name, -, -, hfound⟩ := Rule.element_mem_sites.mp hsite
  rw [planFix_eq hr, he] at hp
  obtain ⟨hrep, hplan⟩ := planElement_eq_ok hp
  rw [hrep]
  constructor
  · intro component hfix hc
    rcases hplan with ⟨component', hfix', hedits⟩ | ⟨_, _, _, _, _, hfix', -⟩
    · rw [hfix] at hfix'
      cases hfix'
      exact shows_renamed hfound hon hterm hc hedits
    · rw [hfix] at hfix'
      cases hfix'
  · intro component target fallback ms hfix hc ht hfb hms
    rcases hplan with ⟨_, hfix', -⟩ | ⟨component', target', fallback', ms', value, hfix', -, hv, hedits⟩
    · rw [hfix] at hfix'
      cases hfix'
    · rw [hfix] at hfix'
      cases hfix'
      have hquote : '"' ∉ value.toList := by
        rcases mem_of_resolveVariant hv with h | ⟨m, hm, rfl⟩
        · exact hfb value h
        · exact hms m hm
      exact ⟨value, hv, shows_remapped hfound hon hterm hspread hc ht hquote hedits⟩

/-- A flag and a value on both sides of the class names are kept. -/
theorem shows_of_applied_button :
    let g := Registry.ofRules
      [.ofTag "button" (.remap "Button" "variant" none [⟨["bg-p"], [], "primary"⟩])]
    let file := Source.ofText "a.tsx" "<button disabled className=\"bg-p\" id='x'/>".toList
    let t := "<Button variant=\"primary\" disabled id='x'/>".toList
    (0, t) ∈ (rewrite g file.text (g.triaged file)).applied ∧ Shows t "Button".toList true
      [("variant", .literal "primary"), ("disabled", .flag), ("id", .literal "x")] := by
  intro g file t
  have hg : Registry.ofConfig (.ofRules
    [.ofTag "button" (.remap "Button" "variant" none [⟨["bg-p"], [], "primary"⟩])]) = .ok g := rfl
  have happlied : (0, t) ∈ (rewrite g file.text (g.triaged file)).applied := by
    simp only [rewrite, acceptFixes, fixableFindings, Registry.triaged, Registry.findings,
      planFix, planElement, spliceWithin, splice, mergeSort_eq_sortUpTo]
    decide +kernel
  let e : Element := ⟨⟨0, 42⟩, ⟨1, 7⟩, [⟨"disabled", .flag, ⟨8, 16⟩⟩,
    ⟨"className", .literal "bg-p", ⟨17, 33⟩⟩, ⟨"id", .literal "x", ⟨34, 40⟩⟩], true, true, none,
    .selfClosing⟩
  have hfirst : ((g.triaged file)[0]?.map fun f => (f.site, f.rule)) =
      some (.element e, "button") := by
    simp only [Registry.triaged, Registry.findings, mergeSort_eq_sortUpTo]
    decide +kernel
  obtain ⟨f, hf, hfe⟩ := Option.map_eq_some_iff.mp hfirst
  obtain ⟨hsite, hrule⟩ := Prod.mk.inj hfe
  have hr : g.rule? f.rule = some ⟨"button", .componentUsage, .high, .tag "button",
      .remap "Button" "variant" none [⟨["bg-p"], [], "primary"⟩], none, none, none⟩ := by
    rw [hrule]
    rfl
  obtain ⟨value, hv, hshows, -⟩ := (shows_of_applied hg happlied hf hsite hr).2 _ _ _ _ rfl
    (by decide) (by decide) (by simp) (by decide)
  obtain rfl : value = "primary" := by
    have : resolveVariant (e.valueOf? classAttribute) none [⟨["bg-p"], [], "primary"⟩] =
      .ok "primary" := by decide +kernel
    exact Except.ok.inj (hv.symm.trans this)
  refine ⟨happlied, hshows fun a ha => ?_⟩
  obtain rfl : (⟨"className", .literal "bg-p", ⟨17, 33⟩⟩ : Attribute) = a := Option.some.inj ha
  have hjoins : Joins " disabled".toList " id='x'/>".toList :=
    ⟨[⟨"disabled", .flag, ⟨1, 9⟩⟩], .more rfl (.done _)⟩
  have hfront : file.text.slice ⟨7, (withLead file.text ⟨1, 7⟩ ⟨17, 33⟩).start⟩ =
    " disabled".toList := by decide +kernel
  have hback : file.text.slice ⟨33, 42⟩ = " id='x'/>".toList := by decide +kernel
  rw [← hfront, ← hback] at hjoins
  exact ⟨hjoins, by decide⟩

/-- Two flags with nothing but the class names between them become one. -/
theorem not_shows_of_merged_flags :
    let g := Registry.ofRules
      [.ofTag "button" (.remap "Button" "variant" none [⟨["bg-p"], [], "primary"⟩])]
    let file := Source.ofText "a.tsx" "<button disabled className=\"bg-p\"foo/>".toList
    let t := "<Button variant=\"primary\" disabledfoo/>".toList
    (0, t) ∈ (rewrite g file.text (g.triaged file)).applied ∧ ¬ Shows t "Button".toList true
      [("variant", .literal "primary"), ("disabled", .flag), ("foo", .flag)] := by
  intro g file t
  constructor
  · simp only [rewrite, acceptFixes, fixableFindings, Registry.triaged, Registry.findings,
      planFix, planElement, spliceWithin, splice, mergeSort_eq_sortUpTo]
    decide +kernel
  · rintro ⟨e, last, hread, -, -, -, hvs⟩
    have hlen : (readOpeningTag (.start t)).map (·.1.attributes.length) = some 2 := by
      decide +kernel
    rw [hread, Option.map_some, Option.some.injEq] at hlen
    have := congrArg List.length hvs
    rw [List.length_map, hlen] at this
    cases this

end DesignLint
