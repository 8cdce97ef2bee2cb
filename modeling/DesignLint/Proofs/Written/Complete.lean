import DesignLint.Proofs.Markup.Comment
import DesignLint.Proofs.Written.Pairing
import Mathlib.Data.List.Chain

/-!
# Which elements are found

In a `Plain` fragment no `<` and no `/` stands but in tags. So nothing in it is a comment
(`commentSpans_eq_nil`), nothing but tags looks like a tag, and a search for a name looks at each
tag once, and at nothing else (`elementsFrom_mark`, `elementsFrom_append`).

A `<` directly behind a character of a word, a number or a member access is taken for a part of an
expression, such as the one in `Array<string>`. All other elements with the name are found
(`findElements_text`).
-/

namespace DesignLint.Markup

variable {name us after : Text} {o : Nat} {before : Option Char}

/-- No mark of a tag or a comment stands in a text. -/
def Unmarked (us : Text) : Prop := '<' ∉ us ∧ '/' ∉ us

/-- Only tags hold marks of tags or comments, and not in their attributes. -/
def Fragment.Plain : Fragment → Prop
  | nil => True
  | words us rest => '/' ∉ us.val ∧ rest.Plain
  | braces e rest => Unmarked e.inBraces ∧ rest.Plain
  | closed tag rest => Unmarked (attributesText tag.attributes) ∧ rest.Plain
  | element tag content rest =>
    Unmarked (attributesText tag.attributes) ∧ content.Plain ∧ rest.Plain

/-- Whether an element with a name stands where a tag is looked for. -/
def Place.isVisible (name : Text) (p : Place) : Bool :=
  p.tag.name.val == name && !p.before.any joinsName

/-- What is to be known of the elements with a name, among some, that can be seen. -/
def visibleElements (name : Text) (ps : List Place) : List Element :=
  (ps.filter (Place.isVisible name)).map Place.element

theorem visibleElements_append (ps qs : List Place) :
    visibleElements name (ps ++ qs) = visibleElements name ps ++ visibleElements name qs := by
  simp [visibleElements]

theorem visibleElements_cons (p : Place) (ps : List Place) :
    visibleElements name (p :: ps) = visibleElements name [p] ++ visibleElements name ps :=
  visibleElements_append [p] ps

/-! ### Comments -/

/-- No comment begins in a text. -/
def Uncommented (cs : Text) : Prop := cs.IsChain fun c d => c = '/' → d ≠ '/' ∧ d ≠ '*'

theorem Uncommented.append (h : '/' ∉ us) (ha : Uncommented after) : Uncommented (us ++ after) := by
  induction us with
  | nil => exact ha
  | cons c us ih =>
    rw [List.mem_cons, not_or] at h
    exact List.isChain_cons.mpr ⟨fun d _ hc => absurd hc.symm h.1, ih h.2⟩

theorem commentsFrom_eq_nil {fresh : Bool} {fuel : Nat} {k : Cursor} (h : Uncommented k.rest) :
    commentsFrom fresh fuel k = [] := by
  rw [List.eq_nil_iff_forall_not_mem]
  intro s hs
  induction fuel generalizing fresh k with
  | zero => simp [commentsFrom] at hs
  | succ fuel ih =>
    obtain ⟨o, _ | ⟨c, cs⟩⟩ := k
    · simp [commentsFrom] at hs
    · rcases mem_commentsFrom hs with ⟨next, hpiece, -⟩ | hs
      · obtain ⟨rfl, d, ds, rfl, hd⟩ := exists_of_comment hpiece
        have := (List.isChain_cons_cons.mp h).1 rfl
        rcases hd with rfl | rfl
        · exact this.2 rfl
        · exact this.1 rfl
      · obtain ⟨us, hus⟩ := exists_passes_pieceAt fresh o c cs
        rw [hus.1] at h
        exact ih h.right_of_append hs

theorem commentSpans_eq_nil {cs : Text} (h : Uncommented cs) : commentSpans cs = [] :=
  commentsFrom_eq_nil h

theorem IsTag.not_mem_slash (h : IsTag name) : '/' ∉ name := fun hmem =>
  absurd (h.1.2 _ hmem) (by decide)

theorem Blanks.not_mem_of {c : Char} (h : Blanks us) (hc : isTagBlank c = false) : c ∉ us :=
  fun hmem => absurd (h c hmem) (by simp [hc])

theorem uncommented_tag {t : WrittenTag} {selfClosing : Bool}
    (h : Unmarked (attributesText t.attributes)) (ha : Uncommented after) :
    Uncommented (t.text selfClosing ++ after) := by
  have hend : Uncommented (tagEnd selfClosing ++ after) := by
    have hangle : Uncommented (['>'] ++ after) := .append (by decide) ha
    cases selfClosing
    · exact hangle
    · exact List.isChain_cons_cons.mpr ⟨fun _ => by decide, hangle⟩
  have hno : '/' ∉ '<' :: (t.name.val ++ (attributesText t.attributes ++ t.blanks.val)) := by
    have := t.name.property.not_mem_slash
    have := t.blanks.property.not_mem_of (c := '/') (by decide)
    simp [h.2, *]
  have := Uncommented.append hno hend
  simpa [WrittenTag.text, WrittenTag.rest] using this

theorem uncommented_closingText {name : TagName} (ha : Uncommented after) :
    Uncommented (closingText name.val ++ after) := by
  obtain ⟨c, us, hname⟩ := List.exists_cons_of_ne_nil name.property.1.1
  have hc : c.isAlpha := name.property.2 c (by rw [hname]; rfl)
  have hno : '/' ∉ name.val ++ ['>'] := by
    have := name.property.not_mem_slash
    simp [this]
  have hrest := Uncommented.append hno ha
  have hslash : Uncommented ('/' :: (name.val ++ ['>'] ++ after)) := by
    refine List.isChain_cons.mpr ⟨fun d hd _ => ?_, hrest⟩
    obtain rfl : c = d := by simpa [hname] using hd
    constructor <;> rintro rfl <;> exact absurd hc (by decide)
  have hangle : Uncommented (['<'] ++ '/' :: (name.val ++ ['>'] ++ after)) :=
    .append (by decide) hslash
  exact hangle

theorem uncommented_fragment {t : Fragment} (h : t.Plain) (ha : Uncommented after) :
    Uncommented (t.text ++ after) := by
  induction t generalizing after with
  | nil => exact ha
  | words us rest ih =>
    rw [Fragment.text, List.append_assoc]
    exact .append h.1 (ih h.2 ha)
  | braces e rest ih =>
    rw [Fragment.text, List.append_assoc]
    exact .append h.1.2 (ih h.2 ha)
  | closed tag rest ih =>
    rw [Fragment.text, List.append_assoc]
    exact uncommented_tag h.1 (ih h.2 ha)
  | element tag content rest ihContent ihRest =>
    simp only [Fragment.text, List.append_assoc]
    exact uncommented_tag h.1 (ihContent h.2.1 (uncommented_closingText (ihRest h.2.2 ha)))

/-! ### Tags of other names -/

theorem not_mentions_of_not_mem (h : '<' ∉ us) : ¬ Mentions name us := by
  rintro ⟨vs, hvs, htag⟩
  exact h (((List.mem_tails _ _).mp hvs).subset (List.mem_of_mem_head? htag.head?))

theorem WrittenTag.not_mem_rest {t : WrittenTag} (selfClosing : Bool)
    (h : Unmarked (attributesText t.attributes)) : '<' ∉ t.rest selfClosing := by
  have hblanks := t.blanks.property.not_mem_of (c := '<') (by decide)
  have hend : '<' ∉ tagEnd selfClosing := by cases selfClosing <;> decide
  simp [rest, h.1, hblanks, hend]

theorem Fragment.Plain.untangled {t : Fragment} (h : t.Plain) : t.Untangled name := by
  induction t with
  | nil => trivial
  | words us rest ih => exact ih h.2
  | braces e rest ih => exact ⟨not_mentions_of_not_mem h.1.1, ih h.2⟩
  | closed tag rest ih =>
    exact ⟨Or.inr (not_mentions_of_not_mem (tag.not_mem_rest true h.1)), ih h.2⟩
  | element tag content rest ihContent ihRest =>
    exact ⟨Or.inr (not_mentions_of_not_mem (tag.not_mem_rest false h.1)), ihContent h.2.1,
      ihRest h.2.2⟩

/-! ### Looking for elements -/

/-- The elements with a name behind a point in a text without comments. -/
def elementsFrom (name : Text) (before : Option Char) (o : Nat) (cs : Text) : List Element :=
  (occurrences ('<' :: name) 0 before o cs).filterMap fun (before, k) =>
    elementAt? name [] before k

theorem occurrences_append (busy : Nat) (h : '<' ∉ us) :
    occurrences ('<' :: name) busy before o (us ++ after) =
      occurrences ('<' :: name) (busy - us.length) (us.getLast?.or before) (o + Text.size us)
        after := by
  induction us generalizing busy before o with
  | nil => simp
  | cons c us ih =>
    rw [List.mem_cons, not_or] at h
    have hlast : us.getLast?.or (some c) = (c :: us).getLast?.or before := by
      cases us <;> simp [List.getLast?_cons]
    have hbusy : ∀ n, occurrences ('<' :: name) n (some c) (o + c.utf8Size) (us ++ after) =
        occurrences ('<' :: name) (n - us.length) ((c :: us).getLast?.or before)
          (o + Text.size (c :: us)) after := by
      intro n
      rw [ih n h.2, hlast, Text.size_cons, Nat.add_assoc]
    have hprefix : ¬ ('<' :: name).isPrefixOf (c :: (us ++ after)) := by
      simp [h.1]
    cases busy with
    | zero => simpa [occurrences, hprefix] using hbusy 0
    | succ busy => simpa [occurrences] using hbusy busy

theorem elementsFrom_append (h : '<' ∉ us) : elementsFrom name before o (us ++ after) =
    elementsFrom name (us.getLast?.or before) (o + Text.size us) after := by
  rw [elementsFrom, occurrences_append 0 h, Nat.zero_sub]
  rfl

/-- At a `<` an element is looked for, and the next one behind the next `>`. -/
theorem elementsFrom_mark (hn : IsTag name) (h : '<' ∉ us) :
    elementsFrom name before o ('<' :: (us ++ '>' :: after)) =
      (elementAt? name [] before ⟨o, '<' :: (us ++ '>' :: after)⟩).toList ++
        elementsFrom name (some '>') (o + Text.size ('<' :: (us ++ ['>']))) after := by
  have hno : '<' ∉ us ++ ['>'] := by simp [h]
  have hrest : ∀ busy, busy ≤ us.length + 1 →
      occurrences ('<' :: name) busy (some '<') (o + '<'.utf8Size) (us ++ '>' :: after) =
        occurrences ('<' :: name) 0 (some '>') (o + Text.size ('<' :: (us ++ ['>']))) after := by
    intro busy hbusy
    have hpassed :
        occurrences ('<' :: name) busy (some '<') (o + '<'.utf8Size) (us ++ ['>'] ++ after) = _ :=
      occurrences_append busy hno
    rw [List.append_assoc, List.singleton_append] at hpassed
    rw [hpassed, List.getLast?_concat, Option.some_or, Text.size_cons, Nat.add_assoc,
      Nat.sub_eq_zero_of_le (by simpa using hbusy)]
  by_cases hp : name <+: us ++ '>' :: after
  · have hle : name.length ≤ us.length := by
      by_contra hlt
      have hwhole : us ++ ['>'] <+: us ++ '>' :: after := ⟨after, by simp⟩
      have hname : us ++ ['>'] <+: name :=
        List.prefix_of_prefix_length_le hwhole hp (by simp; omega)
      exact absurd (hn.1.2 '>' (hname.subset (by simp))) (by decide)
    have hprefix : ('<' :: name).isPrefixOf ('<' :: (us ++ '>' :: after)) := by
      rw [List.isPrefixOf_iff_prefix]
      exact List.cons_prefix_cons.mpr ⟨rfl, hp⟩
    simp only [elementsFrom, occurrences, hprefix, if_true, List.length_cons, Nat.add_sub_cancel,
      hrest name.length (by omega), List.filterMap_cons]
    cases elementAt? name [] before ⟨o, '<' :: (us ++ '>' :: after)⟩ <;> rfl
  · have hprefix : ¬ ('<' :: name).isPrefixOf ('<' :: (us ++ '>' :: after)) := by
      rw [List.isPrefixOf_iff_prefix, List.cons_prefix_cons]
      exact fun h => hp h.2
    have hnone : elementAt? name [] before ⟨o, '<' :: (us ++ '>' :: after)⟩ = none := by
      have hopen : ¬ opensTag name ⟨o, '<' :: (us ++ '>' :: after)⟩ := by
        simp only [opensTag, Bool.and_eq_true, List.isPrefixOf_iff_prefix]
        exact fun h => hp h.1
      simp [elementAt?, hopen]
    simp only [hnone, elementsFrom, occurrences, hprefix, hrest 0 (by omega)]
    rfl

theorem elementAt?_closingText (hn : IsTag name) {name' : Text} :
    elementAt? name [] before ⟨o, closingText name' ++ after⟩ = none := by
  have hopen : ¬ opensTag name ⟨o, closingText name' ++ after⟩ := by
    simp only [opensTag, Bool.and_eq_true, List.isPrefixOf_iff_prefix]
    rintro ⟨⟨us, hus⟩, -⟩
    exact hn.ne_slash_cons _ _ hus
  simp [elementAt?, hopen]

/-- **An element is found at its `<`** if it has the name and is visible there. -/
theorem elementAt?_place {p : Place} (hn : IsTag name)
    (hcontent : ∀ f ∈ p.content, f.Untangled p.tag.name.val) :
    (elementAt? name [] p.before ⟨p.start, p.text ++ after⟩).toList =
      visibleElements name [p] := by
  obtain ⟨c, us, hwritten, hc⟩ := p.exists_text
  by_cases hname : p.tag.name.val = name
  · have hopen : opensTag name ⟨p.start, p.text ++ after⟩ := by
      simp [opensTag, hwritten, hname, hc]
    obtain ⟨e, l, hread, helement⟩ := p.exists_read hcontent after
    rw [hname] at helement
    by_cases hb : p.before.any joinsName
    · simp [elementAt?, visibleElements, Place.isVisible, hb]
    · simp [elementAt?, visibleElements, Place.isVisible, hb, hopen, hread, helement, hname,
        inSpans]
  · have hopen : ¬ opensTag name ⟨p.start, p.text ++ after⟩ := by
      intro hop
      simp only [hwritten, List.cons_append, List.append_assoc] at hop
      refine not_looksLikeTag_opening hn p.tag.name.property hname ?_
        (looksLikeTag_of_opensTag hop)
      simpa using not_isNameChar_of_endsTagName hc
    simp [elementAt?, visibleElements, Place.isVisible, hopen, hname]

theorem exists_text_tag (t : WrittenTag) (selfClosing : Bool)
    (h : Unmarked (attributesText t.attributes)) :
    ∃ us, t.text selfClosing = '<' :: (us ++ ['>']) ∧ '<' ∉ us := by
  have hname := t.name.property.1.not_mem_lt
  have hblanks := t.blanks.property.not_mem_of (c := '<') (by decide)
  cases selfClosing
  · exact ⟨t.name.val ++ (attributesText t.attributes ++ t.blanks.val),
      by simp [WrittenTag.text, WrittenTag.rest, tagEnd], by simp [hname, h.1, hblanks]⟩
  · exact ⟨t.name.val ++ (attributesText t.attributes ++ (t.blanks.val ++ ['/'])),
      by simp [WrittenTag.text, WrittenTag.rest, tagEnd], by simp [hname, h.1, hblanks]⟩

theorem elementsFrom_tag (hn : IsTag name) {t : WrittenTag} {selfClosing : Bool}
    (h : Unmarked (attributesText t.attributes)) :
    elementsFrom name before o (t.text selfClosing ++ after) =
      (elementAt? name [] before ⟨o, t.text selfClosing ++ after⟩).toList ++
        elementsFrom name (some '>') (o + Text.size (t.text selfClosing)) after := by
  obtain ⟨us, hus, hno⟩ := exists_text_tag t selfClosing h
  have hmark : elementsFrom name before o ('<' :: (us ++ '>' :: after)) = _ :=
    elementsFrom_mark hn hno
  simpa [hus] using hmark

theorem elementsFrom_closingText (hn : IsTag name) (name' : TagName) :
    elementsFrom name before o (closingText name'.val ++ after) =
      elementsFrom name (some '>') (o + Text.size (closingText name'.val)) after := by
  have hno : '<' ∉ '/' :: name'.val := by simp [name'.property.1.not_mem_lt]
  have hmark : elementsFrom name before o ('<' :: ('/' :: name'.val ++ '>' :: after)) = _ :=
    elementsFrom_mark hn hno
  have htext : '<' :: ('/' :: name'.val ++ '>' :: after) = closingText name'.val ++ after := by
    simp [closingText]
  rwa [htext, elementAt?_closingText hn] at hmark

/-- **All visible elements of a plain fragment are found**, and what is found behind it. -/
theorem elementsFrom_fragment {t : Fragment} {es : List Element} (h : t.Plain) (hn : IsTag name)
    (ha : ∀ b, elementsFrom name b (o + Text.size t.text) after = es) :
    elementsFrom name before o (t.text ++ after) =
      visibleElements name (t.places before o) ++ es := by
  induction t generalizing o before after es with
  | nil => exact ha before
  | words us rest ih =>
    have hno : '<' ∉ us.val := fun hmem => us.property _ hmem (by simp)
    simp only [Fragment.text, Text.size_append, ← Nat.add_assoc] at ha
    rw [Fragment.text, List.append_assoc, elementsFrom_append hno]
    exact ih h.2 ha
  | braces e rest ih =>
    have hlast : e.inBraces.getLast?.or before = some '\x7d' := by
      simp [Code.inBraces, List.getLast?_cons]
    simp only [Fragment.text, Text.size_append, ← Nat.add_assoc] at ha
    rw [Fragment.text, List.append_assoc, elementsFrom_append h.1.1, hlast]
    exact ih h.2 ha
  | closed tag rest ih =>
    have hplace : (elementAt? name [] before ⟨o, tag.text true ++ (rest.text ++ after)⟩).toList =
        visibleElements name [⟨before, o, tag, none⟩] :=
      elementAt?_place (p := ⟨before, o, tag, none⟩) hn (by simp)
    simp only [Fragment.text, Text.size_append, ← Nat.add_assoc] at ha
    rw [Fragment.text, List.append_assoc, elementsFrom_tag hn h.1, ih h.2 ha, Fragment.places,
      visibleElements_cons, ← hplace, List.append_assoc]
  | element tag content rest ihContent ihRest =>
    have huntangled : ∀ f ∈ some content, f.Untangled tag.name.val := by
      rintro f ⟨⟩
      exact h.2.1.untangled
    have hplace : (elementAt? name [] before ⟨o, tag.text false ++
        (content.text ++ closingText tag.name.val) ++ (rest.text ++ after)⟩).toList =
          visibleElements name [⟨before, o, tag, some content⟩] :=
      elementAt?_place (p := ⟨before, o, tag, some content⟩) hn huntangled
    simp only [Fragment.text, Text.size_append, ← Nat.add_assoc] at ha
    -- what is found behind the content begins with the closing tag
    have hbehind : ∀ b,
        elementsFrom name b _ (closingText tag.name.val ++ (rest.text ++ after)) = _ :=
      fun b => (elementsFrom_closingText hn tag.name).trans (ihRest h.2.2 ha)
    simp only [List.append_assoc] at hplace
    simp only [Fragment.text, List.append_assoc]
    rw [elementsFrom_tag hn h.1, ihContent h.2.1 hbehind, Fragment.places, visibleElements_cons,
      visibleElements_append, ← hplace]
    simp only [List.append_assoc, ← Nat.add_assoc]

/-- **All visible elements of a plain fragment are found**, in the order of their opening tags, and
nothing else is. -/
theorem findElements_text {t : Fragment} (h : t.Plain) (name : TagName) :
    findElements t.text name.val = visibleElements name.val (t.places none 0) ∧
      ((t.places none 0).Pairwise fun p q => p.start < q.start) ∧
      ∀ p ∈ t.places none 0, t.text.slice p.element.tag = p.tag.text p.content.isNone := by
  have hcomments : commentSpans t.text = [] := by
    have : Uncommented (t.text ++ []) := uncommented_fragment h List.isChain_nil
    rw [List.append_nil] at this
    exact commentSpans_eq_nil this
  have hall : elementsFrom name.val none 0 (t.text ++ []) = _ :=
    elementsFrom_fragment h name.property fun _ => rfl
  rw [List.append_nil, List.append_nil] at hall
  refine ⟨?_, t.pairwise_places none 0, fun p hp => Fragment.slice_tag hp⟩
  rw [findElements, hcomments]
  exact hall

/-- An element behind a word in another one. -/
def boldBehind (us : Words) : Fragment :=
  .element (letterTag 'p' rfl) (.words us (.closed boldTag .nil)) .nil

/-- The inner element of `<p>a <b/></p>`. -/
theorem findElements_text_spaced :
    let t := boldBehind ⟨['a', ' '], by simp⟩
    t.Plain ∧ findElements t.text ['b'] = [boldTag.element true 5] := by
  intro t
  have hplain : t.Plain := by
    simp only [t, boldBehind, Fragment.Plain, Unmarked]
    decide
  exact ⟨hplain, (findElements_text hplain boldTag.name).1⟩

/-- No element is found in `<p>a<b/></p>`. -/
theorem exists_hidden_element : ∃ t : Fragment, t.Plain ∧
    (∃ p ∈ t.places none 0, p.tag.name.val = ['b']) ∧ findElements t.text ['b'] = [] := by
  refine ⟨boldBehind ⟨['a'], by simp⟩, ?_, ⟨⟨some 'a', 4, boldTag, none⟩, ?_, rfl⟩, ?_⟩
  · simp only [boldBehind, Fragment.Plain, Unmarked]
    decide
  · exact .tail _ (.head _)
  · decide +kernel

end DesignLint.Markup
