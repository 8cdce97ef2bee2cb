import DesignLint.Proofs.Bytewise.Search
import DesignLint.Proofs.Finding.Search

/-!
# Well-formed elements

An element that is found in a text is well-formed (`Element.WellFormed`): its spans lie on the text
one behind the other, and hold what they stand for. That a tag ends with `>` if and only if its end
was found, and with `/>` if and only if the element closes itself, is because no part of a tag in
front of its end ends with such a mark (`Unended`): names, values, braces and blanks do not.

It makes no difference whether the text is searched character by character or byte by byte
(`findElements_wellFormed`).
-/

namespace DesignLint

/-- What holds of an element with a name that is found in a text. -/
structure Element.WellFormed (cs tagName : Text) (e : Element) : Prop extends e.On cs where
  tag_open : ['<'] <+: cs.slice e.tag
  name_eq : cs.slice e.name = tagName
  attributes_apart : e.attributes.Pairwise fun a b => a.span.stop ≤ b.span.start
  attributes_name : ∀ a ∈ e.attributes, (∀ source, a.value ≠ .spread source) →
    a.name.toList <+: cs.slice a.span
  terminated_iff : ['>'] <:+ cs.slice e.tag ↔ e.terminated = true
  selfClosing_iff : ['/', '>'] <:+ cs.slice e.tag ↔ e.terminated = true ∧ e.selfClosing = true
  closing_open : ∀ s ∈ e.closing, e.tag.stop + 2 ≤ s.start ∧
    cs.slice ⟨s.start - 2, s.start⟩ = ['<', '/']
  closing_name : ∀ s ∈ e.closing, cs.slice s = tagName
  children_selfClosing : e.children = .selfClosing ↔ e.selfClosing = true
  children_closing : (e.children = .wellFormed ∨ ∃ why, e.children = .malformed why) ↔
    e.closing.isSome = true

namespace Markup

/-! ### The end of a tag -/

/-- A text does not end with a character that a mark for the end of a tag is made of. -/
def Unended (us : Text) : Prop := ∀ c ∈ us.getLast?, c ≠ '/' ∧ c ≠ '>'

/-- The mark at the end of a tag. -/
def TagEnd.mark : TagEnd → Text
  | .opened => ['>']
  | .closedItself => ['/', '>']
  | .unterminated => []

section

variable {us vs after : Text} {k l m p last : Cursor} {as : List Attribute} {te : TagEnd}
  {e : Element}

theorem Unended.append (hu : Unended us) (hv : Unended vs) : Unended (us ++ vs) := by
  intro c hc
  rw [List.getLast?_append, Option.mem_def, Option.or_eq_some_iff] at hc
  rcases hc with hc | ⟨-, hc⟩
  · exact hv c hc
  · exact hu c hc

theorem unended_concat {c : Char} (h : c ≠ '/' ∧ c ≠ '>') : Unended (us ++ [c]) := by
  intro d hd
  rw [List.getLast?_concat] at hd
  obtain rfl := Option.some.inj hd
  exact h

theorem unended_of_forall {p : Char → Bool} (hp : p '/' = false ∧ p '>' = false)
    (h : ∀ c ∈ us, p c) : Unended us := by
  intro c hc
  have hpc := h c (List.mem_of_getLast? hc)
  constructor
  · rintro rfl
    simp [hp.1] at hpc
  · rintro rfl
    simp [hp.2] at hpc

theorem unended_of_isNameChar (h : ∀ c ∈ us, isNameChar c) : Unended us :=
  unended_of_forall (by decide) h

theorem Blanks.unended (h : Blanks us) : Unended us := unended_of_forall (by decide) h

theorem Enclosed.unended {stack : List Enclosure} (h : Enclosed after stack us)
    (hs : stack ≠ []) : Unended us := by
  obtain ⟨vs, c, rfl, hc⟩ := h.exists_last hs
  exact unended_concat (by rcases hc with rfl | rfl <;> decide)

theorem TagPiece.unended {v : Option (String × AttributeValue)} (h : TagPiece after us v) :
    Unended us := by
  cases h with
  | flag hn => exact unended_of_isNameChar hn.2
  | @valued name bs cs us v _ _ _ hv =>
    obtain ⟨vs, c, rfl, hc⟩ : ∃ vs c, us = vs ++ [c] ∧ c ≠ '/' ∧ c ≠ '>' := by
      cases hv with
      | @quoted inside q hq _ =>
        exact ⟨q :: inside, q, rfl, by rcases hq with rfl | rfl <;> decide⟩
      | expression he =>
        obtain ⟨vs, c, hvs, hc⟩ := he.exists_last (by simp)
        exact ⟨vs, c, hvs, by rcases hc with rfl | rfl <;> decide⟩
    have hsplit : name ++ (bs ++ '=' :: (cs ++ (vs ++ [c]))) =
        name ++ (bs ++ '=' :: (cs ++ vs)) ++ [c] := by simp
    rw [hsplit]
    exact unended_concat hc
  | spread he => exact he.unended (by simp)
  | comment he => exact he.unended (by simp)

theorem Reads.exists_unended (h : Reads k as m) : ∃ us, k.Passes us m ∧ Unended us := by
  induction h with
  | done k => exact ⟨[], .refl k, by simp [Unended]⟩
  | more hstep _ ih =>
    obtain ⟨bs, us, hb, hpiece, hp, -⟩ := exists_piece_of_attribute hstep
    obtain ⟨ws, hws, hw⟩ := ih
    exact ⟨_, hp.trans hws, (hb.unended.append hpiece.unended).append hw⟩
  | comment hstep _ ih =>
    obtain ⟨bs, us, hb, hpiece, hp⟩ := exists_piece_of_comment hstep
    obtain ⟨ws, hws, hw⟩ := ih
    exact ⟨_, hp.trans hws, (hb.unended.append hpiece.unended).append hw⟩

theorem Ends.exists_mark (h : Ends k te last) :
    ∃ us, k.Passes (us ++ te.mark) last ∧ Unended us := by
  obtain ⟨bs, hbs, hb, -⟩ := Cursor.exists_skipWhile isTagBlank k
  have hblanks : Unended bs := Blanks.unended hb
  cases h with
  | @finish selfClosing l hstep =>
    have hmark := hbs.trans (tagStep_eq_finish.mp hstep)
    refine ⟨bs, ?_, hblanks⟩
    cases selfClosing <;> exact hmark
  | stuck hstep =>
    obtain ⟨us, hus, hname⟩ := exists_passes_of_stuck hstep
    refine ⟨bs ++ us, ?_, hblanks.append (unended_of_isNameChar hname)⟩
    rw [TagEnd.mark, List.append_nil]
    exact hbs.trans hus

theorem OpeningTag.exists_text (h : OpeningTag k p m last te e) :
    ∃ lt us, us ≠ [] ∧ Unended us ∧ k.Passes (lt :: (us ++ te.mark)) last := by
  obtain ⟨lt, name, -, hn, -, hname⟩ := h.name
  obtain ⟨us, hus, hu⟩ := h.reads.exists_unended
  obtain ⟨ws, hws, hw⟩ := h.ends.exists_mark
  refine ⟨lt, name ++ us ++ ws, by simp [hn.1.1], ?_, ?_⟩
  · exact ((unended_of_isNameChar hn.1.2).append hu).append hw
  · have hall := (hname.trans hus).trans hws
    simpa only [List.cons_append, List.append_assoc] using hall

theorem suffix_append_iff (us vs ws : Text) (h : us.length = vs.length) :
    us <:+ ws ++ vs ↔ us = vs := by
  constructor
  · intro hs
    have hle := Nat.le_of_eq h
    exact (List.suffix_of_suffix_length_le hs (List.suffix_append ws vs) hle).eq_of_length h
  · rintro rfl
    exact List.suffix_append ws us

/-- **A tag ends with a mark if and only if it is read as its end.** -/
theorem Unended.suffix_iff (h : Unended us) (hne : us ≠ []) (lt : Char) (te : TagEnd) :
    (['>'] <:+ lt :: (us ++ te.mark) ↔ te ≠ .unterminated) ∧
      (['/', '>'] <:+ lt :: (us ++ te.mark) ↔ te = .closedItself) := by
  obtain rfl | ⟨vs, c, rfl⟩ := List.eq_nil_or_concat us
  · exact absurd rfl hne
  obtain ⟨hslash, hgt⟩ := h c (by simp)
  cases te with
  | opened =>
    have h1 := suffix_append_iff ['>'] ['>'] (lt :: (vs ++ [c])) rfl
    have h2 := suffix_append_iff ['/', '>'] [c, '>'] (lt :: vs) rfl
    simp only [TagEnd.mark, List.concat_eq_append, List.append_assoc, List.cons_append,
      List.nil_append] at h1 h2 ⊢
    rw [h1, h2]
    simp [Ne.symm hslash]
  | closedItself =>
    have h1 := suffix_append_iff ['>'] ['>'] (lt :: (vs ++ [c, '/'])) rfl
    have h2 := suffix_append_iff ['/', '>'] ['/', '>'] (lt :: (vs ++ [c])) rfl
    simp only [TagEnd.mark, List.concat_eq_append, List.append_assoc, List.cons_append,
      List.nil_append] at h1 h2 ⊢
    rw [h1, h2]
    simp
  | unterminated =>
    have h1 := suffix_append_iff ['>'] [c] (lt :: vs) rfl
    have hlast : ¬ ['/', '>'] <:+ lt :: (vs ++ [c]) := by
      intro hs
      have hc := h1.mp ((List.suffix_append ['/'] ['>']).trans hs)
      exact hgt (List.cons.inj hc).1.symm
    simp only [TagEnd.mark, List.concat_eq_append, List.append_nil, List.cons_append] at h1 ⊢
    rw [h1]
    exact ⟨by simp [Ne.symm hgt], by simpa using hlast⟩

/-! ### Attributes -/

theorem Reads.exists_piece {cs : Text} {a : Attribute} (h : Reads k as m) (hk : k.In cs)
    (ha : a ∈ as) : ∃ after, TagPiece after (cs.slice a.span) (some (a.name, a.value)) := by
  obtain ⟨bs, ds, rfl⟩ := List.append_of_mem ha
  obtain ⟨q, l, hq, hstep, -⟩ := h.split
  obtain ⟨us, hus, -⟩ := hq.exists_passes
  obtain ⟨ws, ts, -, hpiece, hp, hspan⟩ := exists_piece_of_attribute hstep
  have hblanks : q.Passes ws ⟨q.offset + ws.size, ts ++ l.rest⟩ :=
    ⟨by rw [hp.1, List.append_assoc], rfl⟩
  have htext : Cursor.Passes ⟨q.offset + ws.size, ts ++ l.rest⟩ ts l :=
    ⟨rfl, by rw [hp.2, Text.size_append, Nat.add_assoc]⟩
  have hslice := ((hk.passes hus).passes hblanks).slice_eq htext
  simp only at hslice
  rw [hspan, hslice]
  exact ⟨l.rest, hpiece⟩

/-- A piece starts with the name of the attribute, unless it is a spread. -/
theorem TagPiece.name_prefix {x : String × AttributeValue} (h : TagPiece after us (some x))
    (hx : ∀ source, x.2 ≠ .spread source) : x.1.toList <+: us := by
  cases h with
  | flag hn _ _ => rw [String.toList_ofList]
  | valued hn _ _ _ =>
    rw [String.toList_ofList]
    exact List.prefix_append _ _
  | spread he hdots => exact absurd rfl (hx _)

end

/-! ### Elements -/

section

variable {cs name : Text} {e : Element}

theorem slice_name_of_mem_findElements (hname : ∀ c ∈ name, isNameChar c)
    (h : e ∈ findElements cs name) : cs.slice e.name = name := by
  obtain ⟨us, c, ds, rfl, -, he⟩ := exists_name_of_mem_findElements hname h
  have hslice := Text.slice_append (us ++ ['<']) name (c :: ds)
  have hsize : Text.size (us ++ ['<']) = us.size + 1 := Text.size_append us ['<']
  rw [hsize] at hslice
  rw [he]
  simpa only [List.append_assoc, List.cons_append, List.nil_append] using hslice

theorem slice_open_of_mem_closing (h : e ∈ findElements cs name) {s : Span} (hs : s ∈ e.closing) :
    e.tag.stop + 2 ≤ s.start ∧ cs.slice ⟨s.start - 2, s.start⟩ = ['<', '/'] := by
  obtain ⟨k, l, e', hk, -, -, hread, rfl⟩ := mem_findElements h
  obtain ⟨p, m, te, htag⟩ := readOpeningTag_eq_some.mp hread
  obtain ⟨lt, hf⟩ := closing_withClosing htag.closing_eq hs
  obtain ⟨us, q, hus, hq, rfl⟩ := findClosing_eq_some hf
  have hl := (htag.on hk).2.2.2
  have hle := hus.le
  have hopen : lt.Passes ['<', '/'] ⟨lt.offset + 2, name ++ q.rest⟩ := ⟨hq.1, rfl⟩
  rw [(withClosing_eq name e' l).1, htag.tag_eq]
  refine ⟨by simp only; omega, ?_⟩
  simp only [Nat.add_sub_cancel]
  exact (hl.passes hus).slice_eq hopen

theorem checkChildren_cases (us : Text) :
    checkChildren us = .wellFormed ∨ ∃ why, checkChildren us = .malformed why := by
  unfold checkChildren
  split
  · exact Or.inr ⟨_, rfl⟩
  · exact Or.inl rfl

/-- The children of an element are looked at if and only if it has a closing tag. -/
theorem children_iff_closing (h : e ∈ findElements cs name) :
    (e.children = .wellFormed ∨ ∃ why, e.children = .malformed why) ↔ e.closing.isSome = true := by
  obtain ⟨k, l, e', -, -, -, hread, rfl⟩ := mem_findElements h
  obtain ⟨p, m, te, htag⟩ := readOpeningTag_eq_some.mp hread
  have hclosing := htag.closing_eq
  have hchildren := htag.children_eq
  unfold withClosing
  split
  · split
    · simp [checkChildren_cases]
    · simp [hclosing]
  · rw [hclosing, hchildren]
    split_ifs <;> simp

/-- **Elements are well-formed.** -/
theorem wellFormed_of_mem_findElements (hname : ∀ c ∈ name, isNameChar c) (hne : name ≠ [])
    (h : e ∈ findElements cs name) : e.WellFormed cs name := by
  obtain ⟨k, l, e', hk, hlead, -, hread, he⟩ := mem_findElements h
  obtain ⟨e1, e2, e3, e4, e5⟩ := withClosing_eq name e' l
  rw [← he] at e1 e2 e3 e4 e5
  obtain ⟨p, m, te, htag⟩ := readOpeningTag_eq_some.mp hread
  obtain ⟨lt, us, hus, hu, htext⟩ := htag.exists_text
  obtain ⟨lt', tagName, -, -, -, hp⟩ := htag.name
  have hslice : cs.slice e.tag = lt :: (us ++ te.mark) := by
    rw [e1, htag.tag_eq]
    exact hk.slice_eq htext
  obtain rfl : lt = '<' := by
    obtain ⟨rest, hrest⟩ := hlead
    have hsame := hrest.trans htext.1
    exact (List.cons.inj hsame).1.symm
  have hends := hu.suffix_iff hus '<' te
  refine { toOn := on_of_mem_findElements hne h, tag_open := ?_, name_eq := ?_,
           attributes_apart := ?_, attributes_name := ?_, terminated_iff := ?_,
           selfClosing_iff := ?_, closing_open := ?_, closing_name := ?_,
           children_selfClosing := ?_, children_closing := ?_ }
  · rw [hslice]
    exact List.prefix_append ['<'] _
  · exact slice_name_of_mem_findElements hname h
  · rw [e3]
    exact htag.reads.spans.2
  · intro a ha hspread
    rw [e3] at ha
    obtain ⟨after, hpiece⟩ := htag.reads.exists_piece (hk.passes hp) ha
    exact hpiece.name_prefix hspread
  · rw [hslice, hends.1, e5, htag.terminated_eq, bne_iff_ne]
  · rw [hslice, hends.2, e4, e5, htag.terminated_eq, htag.selfClosing_eq, bne_iff_ne, beq_iff_eq]
    constructor
    · rintro rfl
      exact ⟨by simp, rfl⟩
    · exact And.right
  · exact fun s hs => slice_open_of_mem_closing h hs
  · exact fun s hs => slice_closing_of_mem_findElements h hs
  · exact (children_of_mem_findElements h).1
  · exact children_iff_closing h

end

/-- **The search byte by byte makes no wrong cut and finds well-formed elements.** -/
theorem findElements_wellFormed {name : String} (hname : isTagName name) (cs : Text) :
    Bytewise.findElements cs name.toList = some (findElements cs name.toList) ∧
      ∀ e ∈ findElements cs name.toList, e.WellFormed cs name.toList :=
  ⟨Bytewise.findElements_eq cs name.toList, fun _ he =>
    wellFormed_of_mem_findElements (isNameChar_of_isTagName hname)
      (toList_ne_nil_of_isTagName hname) he⟩

/-- In a text with characters of several bytes, one of them behind a backslash. -/
theorem findElements_wellFormed_escaped :
    let text := "é<p title=\x7b'\\é'\x7d \x7b...x\x7d>ü</p>".toList
    isTagName "p" = true ∧
      (findElements text "p".toList).map (fun e => (e.tag, e.closing)) =
        [(⟨2, 26⟩, some ⟨30, 31⟩)] ∧
      Bytewise.findElements text "p".toList = some (findElements text "p".toList) ∧
      ∀ e ∈ findElements text "p".toList, e.WellFormed text "p".toList := by
  intro text
  have hname : isTagName "p" = true := by decide
  obtain ⟨hbytes, hwell⟩ := findElements_wellFormed hname text
  exact ⟨hname, by decide +kernel, hbytes, hwell⟩

end Markup

end DesignLint
