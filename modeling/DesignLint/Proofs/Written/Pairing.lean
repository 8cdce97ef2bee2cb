import DesignLint.Proofs.Written.Fragment

/-!
# Which closing tag is found

The closing tag of an element is looked for by counting tags of its name. Text in which nothing
looks like such a tag is passed (`closingFrom_quiet`), an opening tag adds one and a closing tag
takes one away, so that an untangled fragment leaves the count as it was (`closingFrom_fragment`).
Behind it stands the closing tag of the element that holds the fragment.

The children of an element are followed by another reader, which steps over braces and tags of every
name, and over any fragment (`flawless_fragment`).

So an element with an untangled content is read as it is written (`eq_element_of_mem_findElements`).
Where the content is not untangled, the two readers disagree: in `<b><b>{"<b>"}</b></b>` the string
counts as an opening tag for the first but not for the second.
-/

namespace DesignLint.Markup

variable {name us after : Text} {o depth : Nat} {k next : Cursor} {s : Span} {e : Element}

/-! ### Looking for a closing tag -/

/-- Finds the closing tag that matches `depth + 1` open elements of a name, behind a point. -/
def closingFrom (name : Text) (depth : Nat) (k : Cursor) : Option (Span × Cursor) :=
  findClosing name (k.rest.length + 1) depth k

theorem length_lt_of_closesTag? (h : closesTag? name k = some (s, next)) :
    next.rest.length < k.rest.length := by
  obtain ⟨l, us, hl, -, hus⟩ := closesTag?_eq_some h
  exact length_lt_of_passes (hl.trans hus) (by simp)

theorem length_lt_of_readOpeningTag (h : readOpeningTag k = some (e, next)) :
    next.rest.length < k.rest.length := by
  obtain ⟨p, m, te, htag⟩ := readOpeningTag_eq_some.mp h
  obtain ⟨us, hne, hus⟩ := htag.exists_passes_all
  exact length_lt_of_passes hus hne

theorem findClosing_fuel {fuel fuel' : Nat} (h : k.rest.length < fuel)
    (h' : k.rest.length < fuel') :
    findClosing name fuel depth k = findClosing name fuel' depth k := by
  induction fuel generalizing fuel' depth k with
  | zero => omega
  | succ fuel ih =>
    obtain _ | fuel' := fuel'
    · omega
    unfold findClosing
    cases hfind : k.find ['<'] with
    | none => rfl
    | some lt =>
      simp only
      have hle := Cursor.length_find_le hfind
      have hrest : ∀ {next : Cursor} {depth : Nat}, next.rest.length < lt.rest.length →
          findClosing name fuel depth next = findClosing name fuel' depth next :=
        fun hlt => ih (by omega) (by omega)
      cases hcl : closesTag? name lt with
      | some x =>
        have hlt := length_lt_of_closesTag? hcl
        cases depth with
        | zero => rfl
        | succ depth => exact hrest hlt
      | none =>
        simp only
        split_ifs with hop
        · cases hread : readOpeningTag lt with
          | none => rfl
          | some x =>
            have hlt := length_lt_of_readOpeningTag hread
            simp only
            split_ifs
            · exact hrest hlt
            · exact hrest hlt
            · rfl
        · obtain ⟨us, -, ⟨cs, hcs⟩, -⟩ := Cursor.find_eq_some.mp hfind
          refine hrest (length_lt_of_passes (Cursor.skip_passes 1 lt) ?_)
          simp [← hcs]

theorem find_lt (h : ['<'] <+: k.rest) : k.find ['<'] = some k :=
  Cursor.find_eq_some.mpr ⟨[], .refl k, h, fun _ _ hab hne =>
    absurd (List.append_eq_nil_iff.mp hab.symm).2 hne⟩

/-- A closing tag of the name is the one looked for, or takes one away from the count. -/
theorem closingFrom_of_closesTag? (depth : Nat) (h : closesTag? name k = some (s, next)) :
    closingFrom name 0 k = some (s, k) ∧
      closingFrom name (depth + 1) k = closingFrom name depth next := by
  have hlt := length_lt_of_closesTag? h
  obtain ⟨l, -, hl, -⟩ := closesTag?_eq_some h
  have hfind := find_lt (k := k) ⟨_, hl.1.symm⟩
  constructor
  · simp only [closingFrom, findClosing, hfind, h]
  · conv => lhs; simp only [closingFrom, findClosing, hfind, h]
    exact findClosing_fuel hlt (by omega)

/-- An opening tag of the name adds one to the count, unless it closes itself. -/
theorem closingFrom_of_opensTag (hk : ['<'] <+: k.rest) (hc : closesTag? name k = none)
    (ho : opensTag name k) (hr : readOpeningTag k = some (e, next)) (ht : e.terminated) :
    closingFrom name depth k =
      closingFrom name (if e.selfClosing then depth else depth + 1) next := by
  have hlt := length_lt_of_readOpeningTag hr
  conv => lhs; simp only [closingFrom, findClosing, find_lt hk, hc, ho, hr, ht, if_true]
  exact findClosing_fuel hlt (by omega)

theorem looksLikeTag_of_opensTag {cs : Text} (h : opensTag name ⟨o, '<' :: cs⟩) :
    LooksLikeTag name ('<' :: cs) := by
  simp only [opensTag, List.drop_one, List.tail_cons, Bool.and_eq_true,
    List.isPrefixOf_iff_prefix] at h
  obtain ⟨⟨vs, rfl⟩, hends⟩ := h
  rw [List.drop_left, Option.any_eq_true] at hends
  obtain ⟨c, hc, hends⟩ := hends
  obtain ⟨us, rfl⟩ := List.head?_eq_some_iff.mp hc
  exact .opening us hends

theorem looksLikeTag_of_closesTag? (h : closesTag? name k = some (s, next)) :
    LooksLikeTag name k.rest := by
  simp only [closesTag?, Option.bind_eq_bind, Option.bind_eq_some_iff, Option.pure_def,
    Option.some.injEq, Prod.mk.injEq] at h
  obtain ⟨l, hl, m, hm, -, -⟩ := h
  obtain ⟨bs, hbs, hblank, -⟩ := Cursor.exists_skipWhile isBlank l
  rw [(Cursor.skipText_passes hl).1, hbs.1, (Cursor.skipText_passes hm).1]
  exact .closing m.rest hblank

/-- What does not look like a tag of the name leaves the count as it is. -/
theorem closingFrom_cons {c : Char} {cs : Text} (h : ¬ LooksLikeTag name (c :: cs)) :
    closingFrom name depth ⟨o, c :: cs⟩ = closingFrom name depth ⟨o + c.utf8Size, cs⟩ := by
  have hfuel : findClosing name (cs.length + 2) depth ⟨o + c.utf8Size, cs⟩ =
      closingFrom name depth ⟨o + c.utf8Size, cs⟩ :=
    findClosing_fuel (Nat.lt_add_of_pos_right (by omega)) (by omega)
  by_cases hc : c = '<'
  · subst hc
    have hclose : closesTag? name ⟨o, '<' :: cs⟩ = none := by
      rw [Option.eq_none_iff_forall_ne_some]
      rintro ⟨s, next⟩ hcl
      exact h (looksLikeTag_of_closesTag? hcl)
    have hopen : ¬ opensTag name ⟨o, '<' :: cs⟩ := fun hop => h (looksLikeTag_of_opensTag hop)
    have hfind := find_lt (k := ⟨o, '<' :: cs⟩) (by simp)
    conv => lhs; simp only [closingFrom, findClosing, hfind, hclose, hopen]
    exact findClosing_fuel (Nat.lt_succ_self _) (Nat.lt_succ_self _)
  · rw [← hfuel, closingFrom]
    simp only [findClosing, Cursor.find, Cursor.find.go, List.length_cons]
    rw [if_neg (by simpa using Ne.symm hc)]

theorem closingFrom_quiet (h : Quiet name after us) :
    closingFrom name depth ⟨o, us ++ after⟩ =
      closingFrom name depth ⟨o + Text.size us, after⟩ := by
  induction us generalizing o with
  | nil => rfl
  | cons c us ih =>
    rw [List.cons_append, Text.size_cons, ← Nat.add_assoc]
    exact (closingFrom_cons h.1).trans (ih h.2)

theorem closesTag?_closingText (name after : Text) (o : Nat) :
    closesTag? name ⟨o, closingText name ++ after⟩ =
      some (⟨o + 2, o + 2 + Text.size name⟩, ⟨o + Text.size (closingText name), after⟩) := by
  have h1 : '<'.utf8Size = 1 := rfl
  have h2 : '/'.utf8Size = 1 := rfl
  have hname : Cursor.skipText ('<' :: '/' :: name) ⟨o, closingText name ++ after⟩ =
      some ⟨o + 2 + Text.size name, '>' :: after⟩ :=
    Cursor.skipText_eq_some.mpr ⟨by simp [closingText], by simp [h1, h2]; omega⟩
  have hblank : Cursor.skipWhile isBlank ⟨o + 2 + Text.size name, [] ++ '>' :: after⟩ = _ :=
    Cursor.skipWhile_append (by simp) (by simp; decide) _
  have hlast : Cursor.skipText ['>'] ⟨o + 2 + Text.size name, '>' :: after⟩ =
      some ⟨o + Text.size (closingText name), after⟩ := by
    have h3 : '>'.utf8Size = 1 := rfl
    exact Cursor.skipText_eq_some.mpr ⟨rfl, by simp [closingText, h1, h2, h3]; omega⟩
  simp only [List.nil_append, Text.size_nil, Nat.add_zero] at hblank
  simp only [closesTag?, hname, Option.bind_eq_bind, Option.bind_some, hblank, hlast]
  rfl

theorem closesTag?_opening {t : WrittenTag} (selfClosing : Bool) :
    closesTag? name ⟨o, t.text selfClosing ++ after⟩ = none := by
  rw [Option.eq_none_iff_forall_ne_some]
  rintro ⟨s, next⟩ hcl
  obtain ⟨l, us, hl, -⟩ := closesTag?_eq_some hcl
  have hsame : t.name.val ++ (t.rest selfClosing ++ after) = '/' :: (name ++ l.rest) := by
    simpa [WrittenTag.text] using hl.1
  exact t.name.property.ne_slash_cons _ _ hsame

theorem WrittenTag.opensTag (t : WrittenTag) (selfClosing : Bool) :
    opensTag t.name.val ⟨o, t.text selfClosing ++ after⟩ := by
  obtain ⟨c, us, hrest, hc⟩ := t.exists_rest selfClosing
  simp [Markup.opensTag, text, hrest, hc]

theorem closingFrom_tag {t : WrittenTag} {selfClosing : Bool} (hn : IsTag name)
    (h : t.name.val = name ∨ ¬ Mentions name (t.rest selfClosing)) :
    closingFrom name depth ⟨o, t.text selfClosing ++ after⟩ =
      closingFrom name (if t.name.val = name ∧ selfClosing = false then depth + 1 else depth)
        ⟨o + Text.size (t.text selfClosing), after⟩ := by
  by_cases hname : t.name.val = name
  · subst hname
    have hread := t.readOpeningTag_eq selfClosing o after
    have hopen : opensTag t.name.val ⟨o, t.text selfClosing ++ after⟩ := t.opensTag selfClosing
    rw [closingFrom_of_opensTag ⟨_, rfl⟩ (closesTag?_opening selfClosing) hopen hread rfl]
    cases selfClosing <;> simp [WrittenTag.element]
  · rw [closingFrom_quiet (quiet_tag hn hname (h.resolve_left hname))]
    simp [hname]

/-- **An untangled fragment leaves the count of open elements as it was.** -/
theorem closingFrom_fragment {t : Fragment} (hn : IsTag name) (h : t.Untangled name) :
    closingFrom name depth ⟨o, t.text ++ after⟩ =
      closingFrom name depth ⟨o + Text.size t.text, after⟩ := by
  induction t generalizing o depth after with
  | nil => rfl
  | words us rest ih =>
    have hno : '<' ∉ us.val := fun hmem => us.property _ hmem (by simp)
    rw [Fragment.text, List.append_assoc, closingFrom_quiet (quiet_of_not_mem hno), ih h,
      Text.size_append, Nat.add_assoc]
  | braces e rest ih =>
    rw [Fragment.text, List.append_assoc, closingFrom_quiet (quiet_braces e hn.1 h.1), ih h.2,
      Text.size_append, Nat.add_assoc]
  | closed tag rest ih =>
    rw [Fragment.text, List.append_assoc, closingFrom_tag hn h.1, ih h.2, Text.size_append,
      Nat.add_assoc]
    simp
  | element tag content rest ihContent ihRest =>
    simp only [Fragment.text, List.append_assoc, Text.size_append, ← Nat.add_assoc]
    rw [closingFrom_tag hn h.1, ihContent h.2.1]
    by_cases hname : tag.name.val = name
    · subst hname
      have hclose := closesTag?_closingText tag.name.val (rest.text ++ after)
        (o + Text.size (tag.text false) + Text.size content.text)
      have hstep := (closingFrom_of_closesTag? depth hclose).2
      rw [if_pos ⟨rfl, rfl⟩]
      exact hstep.trans (ihRest h.2.2)
    · rw [if_neg fun hc => hname hc.1,
        closingFrom_quiet (quiet_closingText hn tag.name.property hname), ihRest h.2.2]

/-! ### Following the children -/

/-- Nothing behind a point keeps a reader from following the children. -/
def Flawless (k : Cursor) : Prop := ∀ fuel, flawFrom fuel k = none

theorem Flawless.step {l : Cursor} (h : childStep k = .ok l) (hl : Flawless l) : Flawless k := by
  intro fuel
  cases fuel with
  | zero => rfl
  | succ fuel =>
    rw [flawFrom, h]
    split
    · rfl
    · exact hl fuel

theorem flawless_nil (o : Nat) : Flawless ⟨o, []⟩ := fun fuel => by cases fuel <;> rfl

theorem flawless_words (h : ∀ c ∈ us, c ∉ ['<', '\x7b', '\x7d'])
    (ha : Flawless ⟨o + Text.size us, after⟩) : Flawless ⟨o, us ++ after⟩ := by
  induction us generalizing o with
  | nil => exact ha
  | cons c us ih =>
    have hc := h c (by simp)
    simp only [List.mem_cons, List.not_mem_nil, or_false, not_or] at hc
    rw [Text.size_cons, ← Nat.add_assoc] at ha
    refine .step (l := ⟨o + c.utf8Size, us ++ after⟩) ?_ (ih (fun d hd => h d (by simp [hd])) ha)
    simp [childStep, hc, Cursor.skip]

theorem flawless_braces (e : Code .brace) (ha : Flawless ⟨o + Text.size e.inBraces, after⟩) :
    Flawless ⟨o, e.inBraces ++ after⟩ := by
  refine .step (l := ⟨o + Text.size e.inBraces, after⟩) ?_ ha
  have hend : expressionEnd ⟨o, e.inBraces ++ after⟩ = some ⟨o + Text.size e.inBraces, after⟩ :=
    (e.enclosed_braces after).scan_eq o
  unfold childStep
  rw [hend]
  rfl

theorem flawless_tag (t : WrittenTag) (selfClosing : Bool)
    (ha : Flawless ⟨o + Text.size (t.text selfClosing), after⟩) :
    Flawless ⟨o, t.text selfClosing ++ after⟩ := by
  refine .step (l := ⟨o + Text.size (t.text selfClosing), after⟩) ?_ ha
  have hread := t.readOpeningTag_eq selfClosing o after
  obtain ⟨c, us, hname⟩ := List.exists_cons_of_ne_nil t.name.property.1.1
  have hc : c.isAlpha := t.name.property.2 c (by rw [hname]; rfl)
  have hmark : c ≠ '/' ∧ c ≠ '>' := by
    constructor <;> rintro rfl <;> exact absurd hc (by decide)
  unfold childStep
  rw [hread]
  simp [WrittenTag.text, hname, hc, hmark, WrittenTag.element]

theorem flawless_closingText {name : TagName}
    (ha : Flawless ⟨o + Text.size (closingText name.val), after⟩) :
    Flawless ⟨o, closingText name.val ++ after⟩ := by
  refine .step (l := ⟨o + Text.size (closingText name.val), after⟩) ?_ ha
  have h1 : '>'.utf8Size = 1 := rfl
  have hno : '>' ∉ '<' :: '/' :: name.val := by
    have : '>' ∉ name.val := fun hmem => absurd (name.property.1.2 _ hmem) (by decide)
    simp [this]
  have hfind : Cursor.find ['>'] ⟨o, closingText name.val ++ after⟩ =
      some ⟨o + Text.size ('<' :: '/' :: name.val), '>' :: after⟩ := by
    refine Cursor.find_eq_some.mpr
      ⟨'<' :: '/' :: name.val, ⟨by simp [closingText], rfl⟩, by simp, ?_⟩
    rintro as (_ | ⟨b, bs⟩) hab hne ⟨ws, hws⟩
    · exact hne rfl
    · refine hno (hab ▸ List.mem_append_right as ?_)
      rw [List.cons_append] at hws
      rw [(List.cons.inj hws).1]
      simp
  unfold childStep
  rw [hfind]
  simp [closingText, Cursor.skip, h1]
  omega

/-- **A fragment has no flaw.** -/
theorem flawless_fragment (t : Fragment) (ha : Flawless ⟨o + Text.size t.text, after⟩) :
    Flawless ⟨o, t.text ++ after⟩ := by
  induction t generalizing o after with
  | nil => exact ha
  | words us rest ih =>
    rw [Fragment.text, Text.size_append, ← Nat.add_assoc] at ha
    rw [Fragment.text, List.append_assoc]
    exact flawless_words us.property (ih ha)
  | braces e rest ih =>
    rw [Fragment.text, Text.size_append, ← Nat.add_assoc] at ha
    rw [Fragment.text, List.append_assoc]
    exact flawless_braces e (ih ha)
  | closed tag rest ih =>
    rw [Fragment.text, Text.size_append, ← Nat.add_assoc] at ha
    rw [Fragment.text, List.append_assoc]
    exact flawless_tag tag true (ih ha)
  | element tag content rest ihContent ihRest =>
    simp only [Fragment.text, Text.size_append, ← Nat.add_assoc] at ha
    simp only [Fragment.text, List.append_assoc]
    exact flawless_tag tag false (ihContent (flawless_closingText (ihRest ha)))

theorem checkChildren_fragment (t : Fragment) : checkChildren t.text = .wellFormed := by
  have h : Flawless ⟨0, t.text ++ []⟩ := flawless_fragment t (flawless_nil _)
  rw [List.append_nil] at h
  rw [checkChildren, Cursor.start, h]

/-! ### The element -/

theorem Place.exists_text (p : Place) :
    ∃ c us, p.text = '<' :: (p.tag.name.val ++ c :: us) ∧ endsTagName c := by
  obtain ⟨before, start, tag, _ | f⟩ := p
  · obtain ⟨c, us, hrest, hc⟩ := tag.exists_rest true
    exact ⟨c, us, by simp [Place.text, WrittenTag.text, hrest], hc⟩
  · obtain ⟨c, us, hrest, hc⟩ := tag.exists_rest false
    exact ⟨c, us ++ (f.text ++ closingText tag.name.val),
      by simp [Place.text, WrittenTag.text, hrest], hc⟩

theorem Place.exists_read (p : Place) (h : ∀ f ∈ p.content, f.Untangled p.tag.name.val)
    (after : Text) : ∃ e l, readOpeningTag ⟨p.start, p.text ++ after⟩ = some (e, l) ∧
      withClosing p.tag.name.val e l = p.element := by
  obtain ⟨before, start, tag, _ | f⟩ := p
  · exact ⟨_, _, tag.readOpeningTag_eq true start after, rfl⟩
  · have hread := tag.readOpeningTag_eq false start (f.text ++ (closingText tag.name.val ++ after))
    refine ⟨_, _, by simpa [Place.text] using hread, ?_⟩
    have hclose := closesTag?_closingText tag.name.val after
      (start + Text.size (tag.text false) + Text.size f.text)
    have hfound := (closingFrom_fragment tag.name.property (h f rfl)).trans
      (closingFrom_of_closesTag? 0 hclose).1
    have hupTo := Cursor.Passes.upTo_eq
      (k := ⟨start + Text.size (tag.text false), f.text ++ (closingText tag.name.val ++ after)⟩)
      (l := ⟨start + Text.size (tag.text false) + Text.size f.text,
        closingText tag.name.val ++ after⟩)
      ⟨rfl, rfl⟩
    rw [closingFrom] at hfound
    unfold withClosing
    rw [if_pos (by rfl), hfound]
    simp only
    rw [hupTo, checkChildren_fragment]
    rfl

/-- **An element of a fragment is read as it is written**, if nothing in its content looks like a
tag of its name but tags: its closing tag is its own. -/
theorem eq_element_of_mem_findElements {t : Fragment} {p : Place} (hp : p ∈ t.places none 0)
    (hcontent : ∀ f ∈ p.content, f.Untangled p.tag.name.val) (name : TagName) {e : Element}
    (he : e ∈ findElements t.text name.val) (hstart : e.tag.start = p.start) : e = p.element := by
  obtain ⟨k, l, e', hk, ⟨cs, hcs⟩, hends, hread, rfl⟩ := mem_findElements he
  obtain ⟨us, vs, htext, hus, -⟩ := Fragment.exists_of_mem_places hp
  obtain ⟨before, hbefore, ho⟩ := Cursor.in_iff.mp hk
  -- both stand at one offset of the text
  have hsize : Text.size us = Text.size before := by
    obtain ⟨q, m, te, htag⟩ := readOpeningTag_eq_some.mp hread
    rw [(withClosing_eq _ _ _).1, htag.tag_eq] at hstart
    simp only at hstart
    omega
  obtain ⟨-, hrest⟩ := Text.append_inj_size (htext.symm.trans hbefore) hsize
  obtain rfl : k = ⟨p.start, p.text ++ vs⟩ := by
    rw [hrest, hus, Nat.zero_add, hsize, ← ho]
  obtain ⟨e'', l', hread', helement⟩ := p.exists_read hcontent vs
  rw [hread', Option.some.injEq, Prod.mk.injEq] at hread
  obtain ⟨rfl, rfl⟩ := hread
  -- and have one name
  have hname : p.tag.name.val = name.val := by
    obtain ⟨c, ds, hwritten, hc⟩ := p.exists_text
    simp only [hwritten, List.cons_append, List.cons.injEq, true_and, List.append_assoc] at hcs
    simp only [hwritten, List.cons_append, List.drop_one, List.tail_cons, List.append_assoc,
      ← hcs, List.drop_left, Option.any_eq_true] at hends
    obtain ⟨d, hd, hends⟩ := hends
    refine name_eq_of_append p.tag.name.property.1 name.property.1 ?_ ?_ hcs.symm
    · simpa using not_isNameChar_of_endsTagName hc
    · intro d' hd'
      obtain rfl : d = d' := Option.some.inj (hd.symm.trans hd')
      exact not_isNameChar_of_endsTagName hends
  rw [← hname, helement]

/-- A string in double quotes, without escapes. -/
def doubleQuoted (us : Text) (h : ∀ c ∈ us, c ≠ '\\' ∧ c ≠ '\n' ∧ c ≠ '"') : StringLiteral :=
  ⟨'"', us, Or.inl rfl, quoted_of_forall h⟩

/-- A tag with one letter as its name, and nothing else. -/
def letterTag (c : Char) (h : c.isAlpha) : WrittenTag where
  name := ⟨[c], ⟨by simp, by simpa using isNameChar_of_isAlpha h⟩, by simpa using h⟩
  attributes := []
  blanks := ⟨[], by simp [Blanks]⟩

/-- The tag `<b>`. -/
def boldTag : WrittenTag := letterTag 'b' rfl

/-- A string in braces in an element in an element of the same name. -/
def nestedBold (s : StringLiteral) : Fragment :=
  .element boldTag (.element boldTag (.braces (.string s .nil) .nil) .nil) .nil

/-- The inner element of `<b><b>{"</i>"}</b></b>`. -/
theorem eq_element_of_mem_findElements_italic :
    let s := doubleQuoted ['<', '/', 'i', '>'] (by simp)
    let p : Place := ⟨some '>', 3, boldTag, some (.braces (.string s .nil) .nil)⟩
    p ∈ (nestedBold s).places none 0 ∧ (∀ f ∈ p.content, f.Untangled ['b']) ∧
      ∃ e ∈ findElements (nestedBold s).text ['b'], e.tag.start = 3 ∧ e = p.element := by
  intro s p
  have hp : p ∈ (nestedBold s).places none 0 := .tail _ (.head _)
  have hcontent : ∀ f ∈ p.content, f.Untangled ['b'] := by
    rintro f ⟨⟩
    exact ⟨by decide, trivial⟩
  have hfound : ∃ e ∈ findElements (nestedBold s).text ['b'], e.tag.start = 3 := by decide +kernel
  obtain ⟨e, he, hstart⟩ := hfound
  exact ⟨hp, hcontent, e, he, hstart,
    eq_element_of_mem_findElements hp hcontent boldTag.name he hstart⟩

/-- The inner element of `<b><b>{"<b>"}</b></b>` takes the closing tag of the outer one, and its
children count as followed. -/
theorem exists_closing_of_outer_element : ∃ (t : Fragment) (p : Place) (e : Element),
    p ∈ t.places none 0 ∧ e ∈ findElements t.text p.tag.name.val ∧ e.tag = p.element.tag ∧
      e.children = .wellFormed ∧ e.closing = some ⟨19, 20⟩ ∧
      p.element.closing = some ⟨15, 16⟩ := by
  let s := doubleQuoted ['<', 'b', '>'] (by simp)
  let p : Place := ⟨some '>', 3, boldTag, some (.braces (.string s .nil) .nil)⟩
  have hfound : ∃ e ∈ findElements (nestedBold s).text ['b'], e.tag = p.element.tag ∧
      e.children = .wellFormed ∧ e.closing = some ⟨19, 20⟩ := by decide +kernel
  obtain ⟨e, he, htag, hchildren, hclosing⟩ := hfound
  exact ⟨nestedBold s, p, e, .tail _ (.head _), he, htag, hchildren, hclosing, by decide⟩

end DesignLint.Markup
