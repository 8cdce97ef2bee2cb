import DesignLint.Proofs.Markup.Reread
import DesignLint.Proofs.Markup.Search
import DesignLint.Proofs.Written.Tag
import Mathlib.Data.List.Infix

/-!
# Markup as it is written

A `Fragment` is a list of trees: text, code in braces, elements that close themselves, and elements
with a fragment as their content and a closing tag of their own. Its `places` are the elements of
all trees, in the order of their opening tags; `Place.element` is what is to be known of each.

Apart from the tags themselves, a text may hold characters that look like a tag of some name
(`Mentions`), in a string, in a comment or in the value of an attribute. A fragment is `Untangled`
for a name if there is nothing of the kind in it, except in a tag of just that name.
-/

namespace DesignLint.Markup

/-- Characters that may stand between tags and braces. -/
abbrev Words : Type := { us : Text // ∀ c ∈ us, c ∉ ['<', '\x7b', '\x7d'] }

/-- Trees of markup, one behind the other. -/
inductive Fragment
  | nil
  | words (us : Words) (rest : Fragment)
  | braces (e : Code .brace) (rest : Fragment)
  | closed (tag : WrittenTag) (rest : Fragment)
  | element (tag : WrittenTag) (content rest : Fragment)

theorem WrittenTag.getLast?_text (t : WrittenTag) (selfClosing : Bool) :
    (t.text selfClosing).getLast? = some '>' := by
  cases selfClosing <;>
    simp [text, rest, tagEnd, List.getLast?_cons, List.getLast?_append]

theorem WrittenTag.size_text_pos (t : WrittenTag) (selfClosing : Bool) :
    0 < Text.size (t.text selfClosing) := Text.size_pos (by simp [text])

/-- The text of a closing tag. -/
def closingText (name : Text) : Text := '<' :: '/' :: (name ++ ['>'])

/-- The text of a fragment. -/
def Fragment.text : Fragment → Text
  | nil => []
  | words us rest => us.val ++ rest.text
  | braces e rest => e.inBraces ++ rest.text
  | closed tag rest => tag.text true ++ rest.text
  | element tag content rest =>
    tag.text false ++ (content.text ++ (closingText tag.name.val ++ rest.text))

/-- An element of a fragment: the character in front of it, the offset of its opening tag, and its
content, unless it closes itself. -/
structure Place where
  before : Option Char
  start : Nat
  tag : WrittenTag
  content : Option Fragment

namespace Place

/-- The text of an element. -/
def text (p : Place) : Text :=
  match p.content with
  | none => p.tag.text true
  | some f => p.tag.text false ++ (f.text ++ closingText p.tag.name.val)

theorem size_text_pos (p : Place) : 0 < Text.size p.text := by
  obtain ⟨before, start, tag, _ | f⟩ := p
  · exact tag.size_text_pos true
  · have := tag.size_text_pos false
    simp only [text, Text.size_append]
    omega

/-- What is to be known of an element: its own opening tag, the name in its own closing tag, and
that its children can be followed. -/
def element (p : Place) : Element :=
  match p.content with
  | none => p.tag.element true p.start
  | some f =>
    let closing := p.start + Text.size (p.tag.text false) + Text.size f.text + 2
    { p.tag.element false p.start with
      closing := some ⟨closing, closing + Text.size p.tag.name.val⟩
      children := .wellFormed }

end Place

/-- The elements of a fragment that stands at an offset behind a character. -/
def Fragment.places (before : Option Char) (o : Nat) : Fragment → List Place
  | nil => []
  | words us rest => rest.places (us.val.getLast?.or before) (o + Text.size us.val)
  | braces e rest => rest.places (some '\x7d') (o + Text.size e.inBraces)
  | closed tag rest =>
    ⟨before, o, tag, none⟩ :: rest.places (some '>') (o + Text.size (tag.text true))
  | element tag content rest =>
    let inside := o + Text.size (tag.text false)
    ⟨before, o, tag, some content⟩ :: (content.places (some '>') inside ++
      rest.places (some '>') (inside + (Text.size content.text +
        Text.size (closingText tag.name.val))))

theorem Fragment.exists_of_mem_places {t : Fragment} {before : Option Char} {o : Nat} {p : Place}
    (h : p ∈ t.places before o) : ∃ us vs, t.text = us ++ (p.text ++ vs) ∧
      p.start = o + Text.size us ∧ p.before = us.getLast?.or before := by
  have hlift : ∀ {o : Nat} {before : Option Char} (lead : Text) {f : Fragment} (ws : Text),
      (∃ us vs, f.text = us ++ (p.text ++ vs) ∧ p.start = o + Text.size lead + Text.size us ∧
        p.before = us.getLast?.or (lead.getLast?.or before)) →
      ∃ us vs, lead ++ (f.text ++ ws) = us ++ (p.text ++ vs) ∧ p.start = o + Text.size us ∧
        p.before = us.getLast?.or before := by
    rintro o before lead f ws ⟨us, vs, htext, hstart, hbefore⟩
    refine ⟨lead ++ us, vs ++ ws, by simp [htext], ?_, ?_⟩
    · rw [hstart, Text.size_append, Nat.add_assoc]
    · rw [hbefore, List.getLast?_append, Option.or_assoc]
  induction t generalizing before o with
  | nil => simp [places] at h
  | words us rest ih => simpa [text] using hlift us.val [] (ih h)
  | braces e rest ih =>
    have hlast : e.inBraces.getLast?.or before = some '\x7d' := by
      simp [Code.inBraces, List.getLast?_cons]
    simpa [text] using hlift e.inBraces [] (hlast ▸ ih h)
  | closed tag rest ih =>
    rcases List.mem_cons.mp h with rfl | h
    · exact ⟨[], rest.text, rfl, rfl, rfl⟩
    · have hlast : (tag.text true).getLast?.or before = some '>' := by
        rw [tag.getLast?_text, Option.some_or]
      simpa [text] using hlift (tag.text true) [] (hlast ▸ ih h)
  | element tag content rest ihContent ihRest =>
    rcases List.mem_cons.mp h with rfl | h
    · exact ⟨[], rest.text, by simp [text, Place.text], rfl, rfl⟩
    · rcases List.mem_append.mp h with h | h
      · have hlast : (tag.text false).getLast?.or before = some '>' := by
          rw [tag.getLast?_text, Option.some_or]
        exact hlift (tag.text false) _ (hlast ▸ ihContent h)
      · have hlead : o + Text.size (tag.text false) + (Text.size content.text +
            Text.size (closingText tag.name.val)) =
            o + Text.size (tag.text false ++ (content.text ++ closingText tag.name.val)) := by
          simp only [Text.size_append, Nat.add_assoc]
        have hlast : (tag.text false ++ (content.text ++ closingText tag.name.val)).getLast?.or
            before = some '>' := by
          simp [closingText, List.getLast?_append, List.getLast?_cons]
        have htext : (element tag content rest).text =
            tag.text false ++ (content.text ++ closingText tag.name.val) ++ (rest.text ++ []) := by
          simp [text]
        exact htext ▸ hlift _ [] (hlast ▸ ihRest (hlead ▸ h))

theorem Fragment.slice_tag {t : Fragment} {before : Option Char} {p : Place}
    (h : p ∈ t.places before 0) : t.text.slice p.element.tag = p.tag.text p.content.isNone := by
  obtain ⟨us, vs, htext, hstart, -⟩ := exists_of_mem_places h
  rw [Nat.zero_add] at hstart
  have hslice : ∀ ws, (us ++ (p.tag.text p.content.isNone ++ ws)).slice
      ⟨p.start, p.start + Text.size (p.tag.text p.content.isNone)⟩ =
        p.tag.text p.content.isNone := by
    intro ws
    rw [hstart, ← List.append_assoc]
    exact Text.slice_append us (p.tag.text p.content.isNone) ws
  rw [htext]
  obtain ⟨before, start, tag, _ | f⟩ := p
  · exact hslice vs
  · simpa [Place.text, Place.element, WrittenTag.element] using
      hslice (f.text ++ closingText tag.name.val ++ vs)

theorem Fragment.pairwise_places (t : Fragment) (before : Option Char) (o : Nat) :
    (t.places before o).Pairwise fun p q => p.start < q.start := by
  have hbound : ∀ {f : Fragment} {before : Option Char} {o : Nat} {p : Place},
      p ∈ f.places before o → o ≤ p.start ∧ p.start < o + Text.size f.text := by
    intro f before o p hp
    obtain ⟨us, vs, htext, hstart, -⟩ := exists_of_mem_places hp
    have hpos := p.size_text_pos
    simp only [htext, Text.size_append]
    omega
  induction t generalizing before o with
  | nil => exact .nil
  | words us rest ih => exact ih _ _
  | braces e rest ih => exact ih _ _
  | closed tag rest ih =>
    refine .cons (fun q hq => ?_) (ih _ _)
    have := (hbound hq).1
    have hpos := tag.size_text_pos true
    simp only
    omega
  | element tag content rest ihContent ihRest =>
    have hpos := tag.size_text_pos false
    refine .cons (fun q hq => ?_) (List.pairwise_append.mpr ⟨ihContent _ _, ihRest _ _, ?_⟩)
    · rcases List.mem_append.mp hq with hq | hq
      · have := (hbound hq).1
        simp only
        omega
      · have := (hbound hq).1
        simp only
        omega
    · intro p hp q hq
      have := (hbound hp).2
      have := (hbound hq).1
      omega

/-! ### What looks like a tag -/

/-- A text begins with what looks like a tag of a name. -/
inductive LooksLikeTag (name : Text) : Text → Prop
  | opening {c : Char} (us : Text) : endsTagName c → LooksLikeTag name ('<' :: (name ++ c :: us))
  | closing {bs : Text} (us : Text) : (∀ b ∈ bs, isBlank b) →
    LooksLikeTag name ('<' :: '/' :: (name ++ (bs ++ '>' :: us)))

theorem looksLikeTag_iff {name us : Text} : LooksLikeTag name us ↔
    ('<' :: name <+: us ∧ (us.drop (name.length + 1)).head?.any endsTagName) ∨
    ('<' :: '/' :: name <+: us ∧
      ((us.drop (name.length + 2)).dropWhile isBlank).head? = some '>') := by
  constructor
  · rintro (⟨us, hc⟩ | ⟨us, hb⟩)
    · exact Or.inl ⟨⟨_, List.cons_append⟩, by simpa using hc⟩
    · refine Or.inr ⟨⟨_, by rw [List.cons_append, List.cons_append]⟩, ?_⟩
      rw [List.drop_succ_cons, List.drop_succ_cons, List.drop_left,
        List.dropWhile_append_of_pos hb]
      rfl
  · rintro (⟨⟨vs, rfl⟩, hc⟩ | ⟨⟨vs, rfl⟩, hc⟩)
    · rw [List.cons_append, List.drop_succ_cons, List.drop_left, Option.any_eq_true] at hc
      obtain ⟨c, hc, hends⟩ := hc
      obtain ⟨us, rfl⟩ := List.head?_eq_some_iff.mp hc
      exact .opening us hends
    · rw [List.cons_append, List.cons_append, List.drop_succ_cons, List.drop_succ_cons,
        List.drop_left] at hc
      obtain ⟨us, hus⟩ := List.head?_eq_some_iff.mp hc
      rw [← List.takeWhile_append_dropWhile (p := isBlank) (l := vs), hus]
      exact .closing us fun b hb => List.mem_takeWhile_imp hb

instance (name us : Text) : Decidable (LooksLikeTag name us) :=
  decidable_of_iff _ looksLikeTag_iff.symm

/-- Somewhere in a text is what looks like a tag of a name. -/
def Mentions (name us : Text) : Prop := ∃ vs ∈ us.tails, LooksLikeTag name vs

instance (name us : Text) : Decidable (Mentions name us) :=
  inferInstanceAs (Decidable (∃ vs ∈ us.tails, LooksLikeTag name vs))

/-- No tag of a name begins in a text that stands in front of another. -/
def Quiet (name after : Text) : Text → Prop
  | [] => True
  | c :: us => ¬ LooksLikeTag name (c :: us ++ after) ∧ Quiet name after us

/-- Only tags look like tags of a name, and what stands in tags of that name. -/
def Fragment.Untangled (name : Text) : Fragment → Prop
  | nil => True
  | words _ rest => rest.Untangled name
  | braces e rest => ¬ Mentions name e.inBraces ∧ rest.Untangled name
  | closed tag rest =>
    (tag.name.val = name ∨ ¬ Mentions name (tag.rest true)) ∧ rest.Untangled name
  | element tag content rest =>
    (tag.name.val = name ∨ ¬ Mentions name (tag.rest false)) ∧ content.Untangled name ∧
      rest.Untangled name

section

variable {name us vs after : Text} {c : Char}

/-- What looks like a tag has no character, up to its last one, that is none of a tag. -/
theorem LooksLikeTag.cut (h : LooksLikeTag name (vs ++ after)) (hname : IsName name) (hc : c ∈ vs)
    (hmark : c ≠ '<' ∧ c ≠ '/' ∧ ¬ isNameChar c ∧ ¬ isBlank c) : LooksLikeTag name vs := by
  have hsplit : ∀ (lead : Text) {us : Text} {d : Char}, lead ++ d :: us = vs ++ after → c ∉ lead →
      ∃ ws, vs = lead ++ d :: ws := by
    intro lead us d heq hno
    rcases List.append_eq_append_iff.mp heq with ⟨ws, rfl, hws⟩ | ⟨ws, rfl, -⟩
    · cases ws with
      | nil => exact absurd (by simpa using hc) hno
      | cons w ws => exact ⟨ws, by rw [(List.cons.inj hws).1]⟩
    · exact absurd (List.mem_append_left _ hc) hno
  generalize heq : vs ++ after = xs at h
  cases h with
  | @opening d us hends =>
    obtain ⟨ws, rfl⟩ := hsplit ('<' :: name) heq.symm fun hmem =>
      (List.mem_cons.mp hmem).elim hmark.1 fun hn => hmark.2.2.1 (hname.2 c hn)
    exact .opening ws hends
  | @closing bs us hb =>
    have hcut : '<' :: '/' :: (name ++ bs) ++ '>' :: us = vs ++ after := by simpa using heq.symm
    obtain ⟨ws, rfl⟩ := hsplit _ hcut fun hmem => by
        simp only [List.mem_cons, List.mem_append] at hmem
        rcases hmem with h | h | h | h
        · exact hmark.1 h
        · exact hmark.2.1 h
        · exact hmark.2.2.1 (hname.2 c h)
        · exact hmark.2.2.2 (hb c h)
    have : LooksLikeTag name ('<' :: '/' :: (name ++ (bs ++ '>' :: ws))) := .closing ws hb
    simpa using this

theorem LooksLikeTag.head? (h : LooksLikeTag name us) : us.head? = some '<' := by
  cases h <;> rfl

theorem name_eq_of_append {name' xs ys : Text} (hn : IsName name) (hn' : IsName name')
    (hx : ∀ c ∈ xs.head?, ¬ isNameChar c) (hy : ∀ c ∈ ys.head?, ¬ isNameChar c)
    (h : name ++ xs = name' ++ ys) : name = name' := by
  have htake := congrArg (List.takeWhile isNameChar) h
  rwa [takeWhile_append_eq hn.2 hx, takeWhile_append_eq hn'.2 hy] at htake

theorem IsTag.ne_slash_cons (hn : IsTag name) (xs ys : Text) : name ++ xs ≠ '/' :: ys := by
  obtain ⟨c, us, rfl⟩ := List.exists_cons_of_ne_nil hn.1.1
  intro h
  have hc := hn.2 c rfl
  rw [(List.cons.inj h).1] at hc
  exact absurd hc (by decide)

theorem not_looksLikeTag_opening {name' : Text} (hn : IsTag name) (hn' : IsTag name')
    (hne : name' ≠ name) (ha : ∀ c ∈ after.head?, ¬ isNameChar c) :
    ¬ LooksLikeTag name ('<' :: (name' ++ after)) := by
  intro h
  generalize heq : '<' :: (name' ++ after) = xs at h
  cases h with
  | @opening d us hends =>
    refine hne (name_eq_of_append hn'.1 hn.1 ha ?_ (List.cons.inj heq).2)
    simpa using not_isNameChar_of_endsTagName hends
  | closing => exact hn'.ne_slash_cons _ _ (List.cons.inj heq).2

theorem not_looksLikeTag_closing {name' : Text} (hn : IsTag name) (hn' : IsTag name')
    (hne : name' ≠ name) : ¬ LooksLikeTag name (closingText name' ++ after) := by
  intro h
  generalize heq : closingText name' ++ after = xs at h
  cases h with
  | opening us => exact hn.ne_slash_cons _ _ (List.cons.inj heq).2.symm
  | @closing bs us hb =>
    have hsame : name' ++ '>' :: after = name ++ (bs ++ '>' :: us) := by
      simpa [closingText] using heq
    refine hne (name_eq_of_append hn'.1 hn.1 (by simp; decide) ?_ hsame)
    cases bs with
    | nil => simp; decide
    | cons b bs => simpa using not_isNameChar_of_isBlank (hb b (by simp))

/-! ### Text without tags of a name -/

theorem Quiet.append (h : Quiet name (vs ++ after) us) (h' : Quiet name after vs) :
    Quiet name after (us ++ vs) := by
  induction us with
  | nil => exact h'
  | cons c us ih =>
    rw [List.cons_append]
    exact ⟨by rw [List.cons_append, List.append_assoc]; exact h.1, ih h.2⟩

theorem quiet_of_not_mem (h : '<' ∉ us) : Quiet name after us := by
  induction us with
  | nil => trivial
  | cons c us ih =>
    rw [List.mem_cons, not_or] at h
    exact ⟨fun htag => h.1 (by simpa using htag.head?.symm), ih h.2⟩

/-- Nothing in a text looks like a tag if nothing does up to a last character that is none of a
tag. -/
theorem quiet_of_not_mentions (h : ¬ Mentions name us) (hname : IsName name)
    (hlast : us.getLast? = some c) (hmark : c ≠ '<' ∧ c ≠ '/' ∧ ¬ isNameChar c ∧ ¬ isBlank c) :
    Quiet name after us := by
  induction us with
  | nil => trivial
  | cons d us ih =>
    refine ⟨fun htag => h ⟨d :: us, by simp, htag.cut hname (List.mem_of_mem_getLast? hlast) hmark⟩,
      ?_⟩
    have hrest : ¬ Mentions name us := by
      rintro ⟨vs, hvs, htag⟩
      exact h ⟨vs, by simp [hvs], htag⟩
    cases us with
    | nil => trivial
    | cons u us => exact ih hrest (by rwa [List.getLast?_cons_cons] at hlast)

theorem quiet_braces (e : Code .brace) (hname : IsName name) (h : ¬ Mentions name e.inBraces) :
    Quiet name after e.inBraces :=
  quiet_of_not_mentions (c := '\x7d') h hname (by simp [Code.inBraces, List.getLast?_cons])
    (by decide)

theorem IsName.not_mem_lt (h : IsName name) : '<' ∉ name := fun hmem =>
  absurd (h.2 _ hmem) (by decide)

theorem quiet_closingText {name' : Text} (hn : IsTag name) (hn' : IsTag name')
    (hne : name' ≠ name) : Quiet name after (closingText name') := by
  refine ⟨?_, quiet_of_not_mem ?_⟩
  · have : ¬ LooksLikeTag name (closingText name' ++ after) := not_looksLikeTag_closing hn hn' hne
    simpa [closingText] using this
  · have := hn'.1.not_mem_lt
    simp [this]

theorem WrittenTag.exists_rest (t : WrittenTag) (selfClosing : Bool) :
    ∃ c us, t.rest selfClosing = c :: us ∧ endsTagName c := by
  have hblank : ∀ {c}, isTagBlank c → endsTagName c := fun h => by simp [endsTagName, h]
  obtain ⟨name, _ | ⟨⟨gap, a⟩, as⟩, blanks⟩ := t
  · obtain ⟨_ | ⟨b, bs⟩, hb⟩ := blanks
    · cases selfClosing
      · exact ⟨'>', [], rfl, by decide⟩
      · exact ⟨'/', ['>'], rfl, by decide⟩
    · exact ⟨b, _, rfl, hblank (hb b (by simp))⟩
  · obtain ⟨_ | ⟨b, bs⟩, hgap⟩ := gap
    · exact absurd rfl hgap.1
    · exact ⟨b, _, rfl, hblank (hgap.2 b (by simp))⟩

theorem WrittenTag.getLast?_rest (t : WrittenTag) (selfClosing : Bool) :
    (t.rest selfClosing).getLast? = some '>' := by
  cases selfClosing <;> simp [rest, tagEnd, List.getLast?_append]

theorem quiet_tag {t : WrittenTag} {selfClosing : Bool} (hn : IsTag name)
    (hne : t.name.val ≠ name) (h : ¬ Mentions name (t.rest selfClosing)) :
    Quiet name after (t.text selfClosing) := by
  obtain ⟨c, us, hrest, hc⟩ := t.exists_rest selfClosing
  refine ⟨?_, .append (quiet_of_not_mem t.name.property.1.not_mem_lt)
    (quiet_of_not_mentions h hn.1 (t.getLast?_rest selfClosing) (by decide))⟩
  rw [List.cons_append, List.append_assoc, hrest]
  refine not_looksLikeTag_opening hn t.name.property hne ?_
  simpa using not_isNameChar_of_endsTagName hc

end

end DesignLint.Markup
