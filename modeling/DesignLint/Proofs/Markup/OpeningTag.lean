import DesignLint.Markup.OpeningTag
import DesignLint.Proofs.Markup.Enclosure
import DesignLint.Proofs.Text.Blank

/-!
# What stands in an opening tag

An opening tag holds `TagPiece`s with blanks between them: flags, attributes with a value, spreads
and comments. `TagPiece after us v` says that `us`, in front of `after`, is a piece, and `v` what
attribute it is; this is what `tagStep` reads (`tagStep_eq_attribute`, `tagStep_eq_comment`).

`Reads k as l` says that the attributes `as` are read on the way from `k` to `l`. `readAttributes`
reads as far as it can, whatever its fuel, if that is enough to get to the end of the text
(`readAttributes_eq`).
-/

namespace DesignLint.Markup

/-- A name of an attribute, or of a tag. -/
def IsName (us : Text) : Prop := us ≠ [] ∧ ∀ c ∈ us, isNameChar c

instance (us : Text) : Decidable (IsName us) :=
  decidable_of_iff (us ≠ [] ∧ us.all isNameChar = true) (by rw [List.all_eq_true, IsName])

/-- What may stand between the pieces of a tag. -/
def Blanks (us : Text) : Prop := ∀ c ∈ us, isTagBlank c

/-- The text of a value, in front of another text. -/
inductive ValueText (after : Text) : Text → AttributeValue → Prop
  | quoted {inside : Text} {q : Char} : q = '"' ∨ q = '\'' → q ∉ inside →
    ValueText after (q :: (inside ++ [q])) (.literal (String.ofList inside))
  | expression {e : Text} : Enclosed after [.outside] ('\x7b' :: e) →
    ValueText after ('\x7b' :: e) (expressionValue (Text.trim e.dropLast))

/-- A piece of an opening tag, in front of a text, with the name and the value of the attribute that
it is, unless it is a comment. -/
inductive TagPiece (after : Text) : Text → Option (String × AttributeValue) → Prop
  | flag {name : Text} : IsName name → (∀ c ∈ after.head?, ¬ isNameChar c) →
    (∀ c ∈ (after.dropWhile isTagBlank).head?, c ≠ '=') →
    TagPiece after name (some (String.ofList name, .flag))
  | valued {name bs cs us : Text} {v : AttributeValue} : IsName name → Blanks bs → Blanks cs →
    ValueText after us v → TagPiece after (name ++ (bs ++ '=' :: (cs ++ us))) (some (String.ofList name, v))
  | spread {e : Text} : Enclosed after [.outside] ('\x7b' :: e) →
    ['.', '.', '.'] <+: Text.trim e.dropLast →
    TagPiece after ('\x7b' :: e)
      (some ("...", .spread (String.ofList (Text.trim ((Text.trim e.dropLast).drop 3)))))
  | comment {e : Text} : Enclosed after [.outside] ('\x7b' :: e) →
    ['/', '*'] <+: Text.trim e.dropLast → ['*', '/'] <:+ Text.trim e.dropLast →
    TagPiece after ('\x7b' :: e) none

/-- An attribute without its place. -/
def content (a : Attribute) : String × AttributeValue := (a.name, a.value)

/-- The attributes that are read on the way from one point to another. -/
inductive Reads : Cursor → List Attribute → Cursor → Prop
  | done (k : Cursor) : Reads k [] k
  | more {k l m : Cursor} {a : Attribute} {as : List Attribute} :
    tagStep (k.skipWhile isTagBlank) = .attribute a l → Reads l as m → Reads k (a :: as) m
  | comment {k l m : Cursor} {as : List Attribute} :
    tagStep (k.skipWhile isTagBlank) = .comment l → Reads l as m → Reads k as m

/-- The attributes end at a point: how, and where the tag then ends. -/
inductive Ends (k : Cursor) : TagEnd → Cursor → Prop
  | finish {selfClosing : Bool} {l : Cursor} :
    tagStep (k.skipWhile isTagBlank) = .finish selfClosing l →
    Ends k (if selfClosing then .closedItself else .opened) l
  | stuck {l : Cursor} : tagStep (k.skipWhile isTagBlank) = .stuck l → Ends k .unterminated l

/-! ### Names and blanks -/

theorem utf8Size_of_isTagBlank {c : Char} (h : isTagBlank c) : c.utf8Size = 1 := by
  simp only [isTagBlank, Bool.or_eq_true, beq_iff_eq] at h
  rcases h with (((rfl | rfl) | rfl) | rfl) | rfl <;> rfl

theorem Blanks.size_eq {us : Text} (h : Blanks us) : Text.size us = us.length := by
  induction us with
  | nil => rfl
  | cons c us ih =>
    rw [Text.size_cons, utf8Size_of_isTagBlank (h c (by simp)),
      ih fun d hd => h d (by simp [hd]), List.length_cons, Nat.add_comm]

theorem not_isNameChar_of_isBlank {c : Char} (h : isBlank c) : ¬ isNameChar c := by
  have hmarks : c ≠ '-' ∧ c ≠ '_' ∧ c ≠ '.' ∧ c ≠ ':' := by
    refine ⟨?_, ?_, ?_, ?_⟩ <;> rintro rfl <;> exact absurd h (by decide)
  simp [isNameChar, not_isAlphanum_of_isBlank h, hmarks]

theorem not_isNameChar_of_isTagBlank {c : Char} (h : isTagBlank c) : ¬ isNameChar c :=
  not_isNameChar_of_isBlank (isBlank_of_isTagBlank h)

theorem insideBraces_eq {k l : Cursor} {e : Text} (h : k.Passes ('\x7b' :: e) l) :
    insideBraces k l = Text.trim e.dropLast := by
  rw [insideBraces, h.upTo_eq, List.drop_one, List.tail_cons]

theorem find_quote {q : Char} {k l : Cursor} :
    k.find [q] = some l ↔ ∃ us, k.Passes us l ∧ l.rest.head? = some q ∧ q ∉ us := by
  rw [Cursor.find_eq_some]
  constructor
  · rintro ⟨us, hp, ⟨rest, hr⟩, hmin⟩
    refine ⟨us, hp, by rw [← hr]; rfl, fun hq => ?_⟩
    obtain ⟨as, bs, rfl⟩ := List.append_of_mem hq
    exact hmin as (q :: bs) rfl (by simp) (by simp)
  · rintro ⟨us, hp, hh, hq⟩
    obtain ⟨rest, hr⟩ := List.head?_eq_some_iff.mp hh
    refine ⟨us, hp, by rw [hr]; simp, ?_⟩
    rintro as (_ | ⟨b, bs⟩) rfl hne ⟨ds, hds⟩
    · exact hne rfl
    · simp only [List.cons_append, List.nil_append, List.cons.injEq] at hds
      simp [hds.1] at hq

/-! ### One step -/

theorem readValue_eq_some {k l : Cursor} {v : AttributeValue} :
    readValue k = some (v, l) ↔ ∃ us, k.Passes us l ∧ ValueText l.rest us v := by
  obtain ⟨o, rest⟩ := k
  constructor
  · intro h
    unfold readValue at h
    split at h
    · next cs hr =>
      simp only at hr
      subst hr
      obtain ⟨m, hm, hml⟩ := Option.map_eq_some_iff.mp h
      cases hml
      obtain ⟨e, he, hp⟩ := expressionEnd_cons.mp hm
      rw [insideBraces_eq hp]
      exact ⟨_, hp, .expression he⟩
    · next c cs _ hr =>
      simp only at hr
      subst hr
      split at h
      · next hq =>
        simp only [Bool.or_eq_true, beq_iff_eq] at hq
        have h1 : c.utf8Size = 1 := utf8Size_quote hq
        obtain ⟨m, hm, hml⟩ := Option.map_eq_some_iff.mp h
        cases hml
        obtain ⟨inside, hp, hh, hno⟩ := find_quote.mp hm
        obtain ⟨ds, hds⟩ := List.head?_eq_some_iff.mp hh
        have hskip := Cursor.skip_passes 1 m
        rw [hds] at hskip
        rw [hp.upTo_eq]
        refine ⟨_, ?_, .quoted hq hno⟩
        rw [← h1] at hp
        exact passes_cons (hp.trans hskip)
      · cases h
    · cases h
  · rintro ⟨us, hp, hv⟩
    have hrest : rest = us ++ l.rest := hp.1
    have ho : l.offset = o + Text.size us := hp.2
    unfold readValue
    cases hv with
    | @quoted inside q hq hno =>
      have h1 : q.utf8Size = 1 := utf8Size_quote hq
      have hne : q ≠ '\x7b' := by rcases hq with rfl | rfl <;> decide
      have hfind : Cursor.find [q] ⟨o + 1, inside ++ [q] ++ l.rest⟩ =
          some ⟨o + 1 + Text.size inside, q :: l.rest⟩ :=
        find_quote.mpr ⟨inside, ⟨by simp, rfl⟩, rfl, hno⟩
      have hup : Cursor.upTo ⟨o + 1, inside ++ [q] ++ l.rest⟩
          ⟨o + 1 + Text.size inside, q :: l.rest⟩ = inside := Cursor.Passes.upTo_eq ⟨by simp, rfl⟩
      simp only [hrest, List.cons_append]
      rw [if_pos (by simpa using hq)]
      simp only [hfind, Option.map_some, hup, Cursor.skip]
      obtain ⟨o', rest'⟩ := l
      simp only [Text.size_cons, Text.size_append, Text.size_nil] at ho
      simp only [ho, h1]
      congr 3
      omega
    | @expression e he =>
      have hend : expressionEnd ⟨o, '\x7b' :: (e ++ l.rest)⟩ = some l :=
        expressionEnd_cons.mpr ⟨e, he, by simp, by simpa using ho⟩
      have hin : insideBraces ⟨o, '\x7b' :: (e ++ l.rest)⟩ l = Text.trim e.dropLast :=
        insideBraces_eq ⟨by simp, by simpa using ho⟩
      simp only [hrest, List.cons_append, hend, Option.map_some, hin]

/-- What `tagStep` makes of a piece. -/
def stepOf (k l : Cursor) : Option (String × AttributeValue) → TagStep
  | some (name, v) => .attribute ⟨name, v, ⟨k.offset, l.offset⟩⟩ l
  | none => .comment l

theorem braceStep_eq {k l : Cursor} {e : Text} (he : Enclosed l.rest [.outside] ('\x7b' :: e))
    (hp : k.Passes ('\x7b' :: e) l) : braceStep k =
      if ['.', '.', '.'].isPrefixOf (Text.trim e.dropLast) then
        stepOf k l (some ("...", .spread (String.ofList (Text.trim ((Text.trim e.dropLast).drop 3)))))
      else if ['/', '*'].isPrefixOf (Text.trim e.dropLast) &&
          ['*', '/'].isSuffixOf (Text.trim e.dropLast) then stepOf k l none
      else .stuck k := by
  have hend : expressionEnd k = some l := expressionEnd_eq_some.mpr ⟨_, he, hp⟩
  simp only [braceStep, hend, insideBraces_eq hp, stepOf]

theorem ValueText.head?_ne {after us : Text} {v : AttributeValue} (h : ValueText after us v)
    (ds : Text) : ∀ c ∈ (us ++ ds).head?, ¬ isTagBlank c := by
  intro c hc
  cases h with
  | quoted hq _ =>
    obtain rfl : _ = c := by simpa using hc
    rcases hq with rfl | rfl <;> decide
  | expression he =>
    obtain rfl : _ = c := by simpa using hc
    decide

theorem nameStep_valued {k l : Cursor} {name bs cs us : Text} {v : AttributeValue}
    (hn : IsName name) (hb : Blanks bs) (hc : Blanks cs) (hv : ValueText l.rest us v)
    (hp : k.Passes (name ++ (bs ++ '=' :: (cs ++ us))) l) :
    nameStep k = .attribute ⟨String.ofList name, v, ⟨k.offset, l.offset⟩⟩ l := by
  obtain ⟨o, rest⟩ := k
  obtain ⟨o', after⟩ := l
  obtain ⟨hr, ho⟩ := hp
  simp only [List.append_assoc, List.cons_append] at hr ho
  have h1 : '='.utf8Size = 1 := rfl
  -- the three walks: over the name, up to the sign, and up to the value
  have hwalk1 := @Cursor.skipWhile_append _ _ hn.2 (bs ++ '=' :: (cs ++ (us ++ after)))
    (by
      intro c hc
      rcases bs with _ | ⟨b, bs⟩
      · obtain rfl : _ = c := by simpa using hc
        decide
      · obtain rfl : b = c := by simpa using hc
        exact not_isNameChar_of_isTagBlank (hb b (by simp))) o
  have hwalk2 := @Cursor.skipWhile_append _ _ hb ('=' :: (cs ++ (us ++ after)))
    (by
      intro c hc
      obtain rfl : _ = c := by simpa using hc
      decide) (o + Text.size name)
  have hwalk3 := Cursor.skipWhile_append hc (hv.head?_ne after)
    (o + Text.size name + Text.size bs + 1)
  have hread : readValue ⟨o + Text.size name + Text.size bs + 1 + Text.size cs, us ++ after⟩ =
      some (v, ⟨o', after⟩) := by
    refine readValue_eq_some.mpr ⟨us, ⟨rfl, ?_⟩, hv⟩
    simp only [ho, Text.size_append, Text.size_cons, h1]
    omega
  have hup : Cursor.upTo ⟨o, name ++ (bs ++ '=' :: (cs ++ (us ++ after)))⟩
      ⟨o + Text.size name, bs ++ '=' :: (cs ++ (us ++ after))⟩ = name :=
    Cursor.Passes.upTo_eq ⟨rfl, rfl⟩
  simp only [nameStep, hr, hwalk1, hwalk2, hwalk3, hread, hup]

theorem TagPiece.tagStep_eq {k l : Cursor} {us : Text} {v : Option (String × AttributeValue)}
    (h : TagPiece l.rest us v) (hp : k.Passes us l) : tagStep k = stepOf k l v := by
  have hnot : ∀ {name : Text}, IsName name → ∀ c ∈ name, c ≠ '/' ∧ c ≠ '>' ∧ c ≠ '\x7b' := by
    intro name hn c hc
    have hcn := hn.2 c hc
    refine ⟨?_, ?_, ?_⟩ <;> rintro rfl <;> exact absurd hcn (by decide)
  have hname : ∀ {name rest : Text}, IsName name → k.rest = name ++ rest → tagStep k = nameStep k := by
    intro name rest hn hr
    obtain ⟨c, cs, rfl⟩ := List.exists_cons_of_ne_nil hn.1
    have hc := hnot hn c (by simp)
    unfold tagStep
    rw [hr]
    split
    · next h => cases h
    · next h => exact absurd (List.cons.inj h).1 hc.1
    · next h =>
      obtain ⟨rfl, -⟩ := List.cons.inj h
      simp [hc.2.1, hc.2.2, hn.2 c (by simp)]
  have hbrace : ∀ {e : Text}, k.rest = '\x7b' :: e → tagStep k = braceStep k := by
    intro e hr
    unfold tagStep
    rw [hr]
    simp
  obtain ⟨o, rest⟩ := k
  obtain ⟨o', after⟩ := l
  obtain ⟨hr, ho⟩ := hp
  simp only at hr ho h
  subst hr ho
  cases h with
  | flag hn ha heq =>
    rw [hname hn rfl]
    have hskip := Cursor.skipWhile_append hn.2 ha o
    have hup : Cursor.upTo ⟨o, us ++ after⟩ ⟨o + Text.size us, after⟩ = us :=
      Cursor.Passes.upTo_eq ⟨rfl, rfl⟩
    simp only [nameStep, hskip, hup, stepOf]
    split
    · next cs hcs =>
      rw [Cursor.skipWhile_eq] at hcs
      simp only at hcs
      exact absurd rfl (heq '=' (by rw [hcs]; rfl))
    · rfl
  | @valued name bs cs us v hn hb hc hv =>
    rw [hname hn (by simp only [List.append_assoc]; rfl),
      nameStep_valued (l := ⟨_, after⟩) hn hb hc hv ⟨rfl, rfl⟩]
    rfl
  | @spread e he hdots =>
    rw [hbrace rfl, braceStep_eq (l := ⟨_, after⟩) he ⟨rfl, rfl⟩,
      if_pos (List.isPrefixOf_iff_prefix.mpr hdots)]
  | @comment e he hopen hclose =>
    have hdots : ¬ ['.', '.', '.'].isPrefixOf (Text.trim e.dropLast) := by
      obtain ⟨ds, hds⟩ := hopen
      rw [← hds]
      simp
    rw [hbrace rfl, braceStep_eq (l := ⟨_, after⟩) he ⟨rfl, rfl⟩, if_neg hdots, if_pos]
    rw [Bool.and_eq_true, List.isPrefixOf_iff_prefix, List.isSuffixOf_iff_suffix]
    exact ⟨hopen, hclose⟩

/-- What a step says of the text that it reads. -/
def TagStep.Sound (k : Cursor) : TagStep → Prop
  | .finish selfClosing l => k.Passes (if selfClosing then ['/', '>'] else ['>']) l
  | .attribute a l => ∃ us, k.Passes us l ∧ TagPiece l.rest us (some (a.name, a.value)) ∧
    a.span = ⟨k.offset, l.offset⟩
  | .comment l => ∃ us, k.Passes us l ∧ TagPiece l.rest us none
  | .stuck l => ∃ us, k.Passes us l ∧ ∀ c ∈ us, isNameChar c

theorem braceStep_sound {o : Nat} {cs : Text} :
    (braceStep ⟨o, '\x7b' :: cs⟩).Sound ⟨o, '\x7b' :: cs⟩ := by
  cases hend : expressionEnd ⟨o, '\x7b' :: cs⟩ with
  | none =>
    simp only [braceStep, hend]
    exact ⟨[], .refl _, by simp⟩
  | some l =>
    obtain ⟨e, he, hp⟩ := expressionEnd_cons.mp hend
    rw [braceStep_eq he hp]
    split_ifs with hdots hcom
    · exact ⟨_, hp, .spread he (List.isPrefixOf_iff_prefix.mp hdots), rfl⟩
    · rw [Bool.and_eq_true, List.isPrefixOf_iff_prefix, List.isSuffixOf_iff_suffix] at hcom
      exact ⟨_, hp, .comment he hcom.1 hcom.2⟩
    · exact ⟨[], .refl _, by simp⟩

theorem nameStep_sound {k : Cursor} (h : ∃ c ∈ k.rest.head?, isNameChar c) :
    (nameStep k).Sound k := by
  obtain ⟨name, hname, hall, hstop⟩ := Cursor.exists_skipWhile isNameChar k
  obtain ⟨bs, hbs, hb, -⟩ := Cursor.exists_skipWhile isTagBlank (k.skipWhile isNameChar)
  have hn : IsName name := by
    refine ⟨?_, hall⟩
    rintro rfl
    obtain ⟨c, hc, hcn⟩ := h
    rw [hname.1, List.nil_append] at hc
    exact hstop c hc hcn
  unfold nameStep
  simp only [hname.upTo_eq]
  split
  · next cs hcs =>
    split
    · next v next hread =>
      obtain ⟨ds, hds, hd, -⟩ := Cursor.exists_skipWhile isTagBlank
        ⟨((k.skipWhile isNameChar).skipWhile isTagBlank).offset + 1, cs⟩
      obtain ⟨us, hus, hv⟩ := readValue_eq_some.mp hread
      refine ⟨_, ?_, .valued hn hb hd hv, rfl⟩
      refine hname.trans (hbs.trans ?_)
      have := passes_cons (c := '=') (hds.trans hus)
      rwa [← hcs] at this
    · exact ⟨_, hname, hall⟩
  · next hne =>
    refine ⟨_, hname, .flag hn hstop fun c hc => ?_, rfl⟩
    rintro rfl
    obtain ⟨cs, hcs⟩ := List.head?_eq_some_iff.mp hc
    refine hne cs ?_
    rw [Cursor.skipWhile_eq]
    exact hcs

theorem tagStep_sound (k : Cursor) : (tagStep k).Sound k := by
  obtain ⟨o, rest⟩ := k
  unfold tagStep
  split
  · exact ⟨[], .refl _, by simp⟩
  · next cs hr =>
    simp only at hr
    subst hr
    exact ⟨rfl, rfl⟩
  · next c cs _ hr =>
    simp only at hr
    subst hr
    simp only [beq_iff_eq]
    split_ifs with hgt hb hn
    · subst hgt
      exact ⟨rfl, rfl⟩
    · subst hb
      exact braceStep_sound
    · exact nameStep_sound ⟨c, rfl, hn⟩
    · exact ⟨[], .refl _, by simp⟩

theorem tagStep_eq_attribute {k l : Cursor} {a : Attribute} :
    tagStep k = .attribute a l ↔ ∃ us, k.Passes us l ∧ TagPiece l.rest us (some (a.name, a.value)) ∧
      a.span = ⟨k.offset, l.offset⟩ := by
  constructor
  · intro h
    have := tagStep_sound k
    rwa [h] at this
  · rintro ⟨us, hp, hpiece, hs⟩
    rw [hpiece.tagStep_eq hp, stepOf, ← hs]

theorem tagStep_eq_comment {k l : Cursor} :
    tagStep k = .comment l ↔ ∃ us, k.Passes us l ∧ TagPiece l.rest us none := by
  constructor
  · intro h
    have := tagStep_sound k
    rwa [h] at this
  · rintro ⟨us, hp, hpiece⟩
    rw [hpiece.tagStep_eq hp, stepOf]

theorem tagStep_eq_finish {k l : Cursor} {selfClosing : Bool} :
    tagStep k = .finish selfClosing l ↔
      k.Passes (if selfClosing then ['/', '>'] else ['>']) l := by
  constructor
  · intro h
    have := tagStep_sound k
    rwa [h] at this
  · obtain ⟨o, rest⟩ := k
    obtain ⟨o', after⟩ := l
    rintro ⟨hr, ho⟩
    simp only at hr ho
    subst hr ho
    cases selfClosing <;> simp [tagStep] <;> rfl

/-- A step that gives up has passed a name at most. -/
theorem exists_passes_of_stuck {k l : Cursor} (h : tagStep k = .stuck l) :
    ∃ us, k.Passes us l ∧ ∀ c ∈ us, isNameChar c := by
  have := tagStep_sound k
  rwa [h] at this

/-! ### Pieces -/

theorem IsName.exists_last {us : Text} (h : IsName us) : ∃ vs c, us = vs ++ [c] ∧ ¬ isTagBlank c := by
  rcases List.eq_nil_or_concat us with rfl | ⟨vs, c, rfl⟩
  · exact absurd rfl h.1
  · refine ⟨vs, c, by simp, fun hc => ?_⟩
    exact not_isNameChar_of_isTagBlank hc (h.2 c (by simp))

namespace TagPiece

variable {after us : Text} {v : Option (String × AttributeValue)}

theorem exists_last (h : TagPiece after us v) : ∃ vs c, us = vs ++ [c] ∧ ¬ isTagBlank c := by
  have henc : ∀ {e : Text}, Enclosed after [.outside] ('\x7b' :: e) →
      ∃ vs c, '\x7b' :: e = vs ++ [c] ∧ ¬ isTagBlank c := by
    intro e he
    obtain ⟨vs, c, hvc, hc⟩ := he.exists_last (by simp)
    exact ⟨vs, c, hvc, by rcases hc with rfl | rfl <;> decide⟩
  cases h with
  | flag hn => exact hn.exists_last
  | @valued name bs cs us v _ _ _ hv =>
    obtain ⟨vs, c, rfl, hc⟩ : ∃ vs c, us = vs ++ [c] ∧ ¬ isTagBlank c := by
      cases hv with
      | @quoted inside q hq _ =>
        exact ⟨q :: inside, q, rfl, by rcases hq with rfl | rfl <;> decide⟩
      | expression he => exact henc he
    exact ⟨name ++ (bs ++ '=' :: (cs ++ vs)), c, by simp, hc⟩
  | spread he => exact henc he
  | comment he => exact henc he

theorem ne_nil (h : TagPiece after us v) : us ≠ [] := by
  obtain ⟨vs, c, rfl, -⟩ := h.exists_last
  simp

theorem head?_ne (h : TagPiece after us v) (ds : Text) : ∀ c ∈ (us ++ ds).head?, ¬ isTagBlank c := by
  have hname : ∀ {name rest : Text}, IsName name → ∀ c ∈ (name ++ rest).head?, ¬ isTagBlank c := by
    intro name rest hn c hc hb
    obtain ⟨d, cs, rfl⟩ := List.exists_cons_of_ne_nil hn.1
    obtain rfl : d = c := by simpa using hc
    exact not_isNameChar_of_isTagBlank hb (hn.2 d (by simp))
  have hbrace : ∀ {e : Text}, ∀ c ∈ ('\x7b' :: e ++ ds).head?, ¬ isTagBlank c := by
    intro e c hc
    obtain rfl : _ = c := by simpa using hc
    decide
  cases h with
  | flag hn => exact hname hn
  | valued hn =>
    rw [List.append_assoc]
    exact hname hn
  | spread => exact hbrace
  | comment => exact hbrace

theorem cut {ds : Text} (h : TagPiece (after ++ ds) us v) : TagPiece after us v := by
  have hhead : ∀ {as : Text}, ∀ d ∈ as.head?, d ∈ (as ++ ds).head? := by
    intro as d hd
    obtain ⟨bs, rfl⟩ := List.head?_eq_some_iff.mp hd
    rfl
  cases h with
  | flag hn ha heq =>
    refine .flag hn (fun c hc => ha c (hhead c hc)) fun c hc => heq c ?_
    obtain ⟨bs, hbs⟩ := List.head?_eq_some_iff.mp hc
    rw [List.dropWhile_append, hbs]
    rfl
  | valued hn hb hc hv =>
    refine .valued hn hb hc ?_
    cases hv with
    | quoted hq hno => exact .quoted hq hno
    | expression he => exact .expression he.cut
  | spread he hdots => exact .spread he.cut hdots
  | comment he hopen hclose => exact .comment he.cut hopen hclose

end TagPiece

/-! ### From piece to piece -/

theorem TagPiece.step_eq {k l : Cursor} {bs us : Text} {v : Option (String × AttributeValue)}
    (h : TagPiece l.rest us v) (hb : Blanks bs) (hp : k.Passes (bs ++ us) l) :
    tagStep (k.skipWhile isTagBlank) = stepOf ⟨k.offset + Text.size bs, us ++ l.rest⟩ l v := by
  obtain ⟨o, rest⟩ := k
  obtain ⟨hr, ho⟩ := hp
  simp only [List.append_assoc] at hr ho ⊢
  subst hr
  rw [Cursor.skipWhile_append hb (h.head?_ne _)]
  exact h.tagStep_eq ⟨rfl, by rw [ho, Text.size_append, Nat.add_assoc]⟩

theorem exists_piece_of_attribute {k l : Cursor} {a : Attribute}
    (h : tagStep (k.skipWhile isTagBlank) = .attribute a l) :
    ∃ bs us, Blanks bs ∧ TagPiece l.rest us (some (a.name, a.value)) ∧ k.Passes (bs ++ us) l ∧
      a.span = ⟨k.offset + Text.size bs, l.offset⟩ := by
  obtain ⟨bs, hbs, hb, -⟩ := Cursor.exists_skipWhile isTagBlank k
  obtain ⟨us, hus, hpiece, hspan⟩ := tagStep_eq_attribute.mp h
  exact ⟨bs, us, hb, hpiece, hbs.trans hus, by rw [hspan, hbs.2]⟩

theorem exists_piece_of_comment {k l : Cursor} (h : tagStep (k.skipWhile isTagBlank) = .comment l) :
    ∃ bs us, Blanks bs ∧ TagPiece l.rest us none ∧ k.Passes (bs ++ us) l := by
  obtain ⟨bs, hbs, hb, -⟩ := Cursor.exists_skipWhile isTagBlank k
  obtain ⟨us, hus, hpiece⟩ := tagStep_eq_comment.mp h
  exact ⟨bs, us, hb, hpiece, hbs.trans hus⟩

namespace Reads

variable {k l m : Cursor} {as bs : List Attribute}

/-- What is read, up to its last character, which is no blank. -/
theorem exists_passes (h : Reads k as m) : ∃ us, k.Passes us m ∧
    (us = [] ∨ ∃ vs c, us = vs ++ [c] ∧ ¬ isTagBlank c) := by
  have hlast : ∀ {bs us ws rest : Text} {v}, TagPiece rest us v →
      (ws = [] ∨ ∃ vs c, ws = vs ++ [c] ∧ ¬ isTagBlank c) →
      ∃ vs c, bs ++ us ++ ws = vs ++ [c] ∧ ¬ isTagBlank c := by
    rintro bs us ws rest v hpiece (rfl | ⟨vs, c, rfl, hc⟩)
    · obtain ⟨vs, c, rfl, hc⟩ := hpiece.exists_last
      exact ⟨bs ++ vs, c, by simp, hc⟩
    · exact ⟨bs ++ us ++ vs, c, by simp, hc⟩
  induction h with
  | done k => exact ⟨[], .refl k, Or.inl rfl⟩
  | more hstep _ ih =>
    obtain ⟨bs, us, -, hpiece, hp, -⟩ := exists_piece_of_attribute hstep
    obtain ⟨ws, hws, hl⟩ := ih
    exact ⟨_, hp.trans hws, Or.inr (hlast hpiece hl)⟩
  | comment hstep _ ih =>
    obtain ⟨bs, us, -, hpiece, hp⟩ := exists_piece_of_comment hstep
    obtain ⟨ws, hws, hl⟩ := ih
    exact ⟨_, hp.trans hws, Or.inr (hlast hpiece hl)⟩

theorem append (h : Reads k as l) (h' : Reads l bs m) : Reads k (as ++ bs) m := by
  induction h with
  | done k => exact h'
  | more hstep _ ih => exact .more hstep (ih h')
  | comment hstep _ ih => exact .comment hstep (ih h')

theorem split {a : Attribute} (h : Reads k (as ++ a :: bs) m) :
    ∃ p l, Reads k as p ∧ tagStep (p.skipWhile isTagBlank) = .attribute a l ∧ Reads l bs m := by
  generalize hcs : as ++ a :: bs = cs at h
  induction h generalizing as with
  | done => simp at hcs
  | @more k l m b cs hstep hr ih =>
    cases as with
    | nil =>
      obtain ⟨rfl, rfl⟩ := List.cons.inj hcs
      exact ⟨k, l, .done k, hstep, hr⟩
    | cons a' as =>
      obtain ⟨rfl, htail⟩ := List.cons.inj hcs
      obtain ⟨p, l', hp, hs, hr'⟩ := ih htail
      exact ⟨p, l', .more hstep hp, hs, hr'⟩
  | comment hstep hr ih =>
    obtain ⟨p, l', hp, hs, hr'⟩ := ih hcs
    exact ⟨p, l', .comment hstep hp, hs, hr'⟩

theorem spans (h : Reads k as m) : (∀ a ∈ as, k.offset ≤ a.span.start ∧ a.span.start < a.span.stop ∧
    a.span.stop ≤ m.offset) ∧ as.Pairwise fun a b => a.span.stop ≤ b.span.start := by
  induction h with
  | done => exact ⟨by simp, .nil⟩
  | @more k l m a as hstep hr ih =>
    obtain ⟨bs, us, -, hpiece, hp, hspan⟩ := exists_piece_of_attribute hstep
    obtain ⟨vs, hvs, -⟩ := hr.exists_passes
    have hlm := hvs.le
    have hpos := Text.size_pos hpiece.ne_nil
    have hl := hp.2
    rw [Text.size_append] at hl
    refine ⟨fun b hb => ?_, .cons (fun b hb => ?_) ih.2⟩
    · rcases List.mem_cons.mp hb with rfl | hb
      · rw [hspan]
        simp only
        omega
      · have := ih.1 b hb
        omega
    · have := (ih.1 b hb).1
      rw [hspan]
      exact this
  | @comment k l m as hstep hr ih =>
    obtain ⟨bs, us, -, -, hp⟩ := exists_piece_of_comment hstep
    have hl := hp.le
    refine ⟨fun b hb => ?_, ih.2⟩
    have := ih.1 b hb
    omega

theorem on {cs : Text} (h : Reads k as m) (hk : k.In cs) : ∀ a ∈ as, a.span.On cs := by
  induction h with
  | done => simp
  | @more k l m a as hstep hr ih =>
    obtain ⟨bs, us, -, -, hp, hspan⟩ := exists_piece_of_attribute hstep
    intro b hb
    rcases List.mem_cons.mp hb with rfl | hb
    · have hk' := hk.passes (l := ⟨k.offset + Text.size bs, us ++ l.rest⟩)
        ⟨by rw [hp.1, List.append_assoc], rfl⟩
      rw [hspan]
      exact hk'.on ⟨rfl, by rw [hp.2, Text.size_append, Nat.add_assoc]⟩
    · exact ih (hk.passes hp) b hb
  | @comment k l m as hstep hr ih =>
    obtain ⟨bs, us, -, -, hp⟩ := exists_piece_of_comment hstep
    exact ih (hk.passes hp)

/-- Of two ways to read from a point on, the shorter one leads the other. -/
theorem exists_append (h : Reads k as l) (h' : Reads k bs m) (hle : l.offset ≤ m.offset) :
    ∃ cs, bs = as ++ cs ∧ Reads l cs m := by
  have hlt : ∀ {us bs' rest : Text} {v} {k l l' m : Cursor} {cs : List Attribute},
      TagPiece rest us v → k.Passes (bs' ++ us) l' → Reads l' cs l → l.offset ≤ k.offset → False := by
    intro us bs' rest v k l l' m cs hpiece hp hr hle
    obtain ⟨vs, hvs, -⟩ := hr.exists_passes
    have h1 := hvs.le
    have h2 := hp.lt (by simp [hpiece.ne_nil])
    omega
  induction h generalizing bs with
  | done k => exact ⟨bs, rfl, h'⟩
  | @more k l l' a as hstep hr ih =>
    cases h' with
    | done =>
      obtain ⟨_, _, _, hpiece, hp, _⟩ := exists_piece_of_attribute hstep
      exact (hlt (m := m) hpiece hp hr hle).elim
    | more hstep' hr' =>
      rw [hstep] at hstep'
      cases hstep'
      obtain ⟨cs, rfl, hcs⟩ := ih hr' hle
      exact ⟨cs, rfl, hcs⟩
    | comment hstep' =>
      rw [hstep] at hstep'
      cases hstep'
  | @comment k l l' as hstep hr ih =>
    cases h' with
    | done =>
      obtain ⟨_, _, _, hpiece, hp⟩ := exists_piece_of_comment hstep
      exact (hlt (m := m) hpiece hp hr hle).elim
    | more hstep' =>
      rw [hstep] at hstep'
      cases hstep'
    | comment hstep' hr' =>
      rw [hstep] at hstep'
      cases hstep'
      exact ih hr' hle

/-- The same attributes are read elsewhere, and in front of less. -/
theorem cut {after ds : Text} (h : Reads k as m) (hm : m.rest = after ++ ds) (o : Nat) :
    ∃ us bs, k.Passes us m ∧ Reads ⟨o, us ++ after⟩ bs ⟨o + Text.size us, after⟩ ∧
      bs.map content = as.map content := by
  induction h generalizing o with
  | done k => exact ⟨[], [], .refl k, .done _, rfl⟩
  | @more k l m a as hstep hr ih =>
    obtain ⟨bs, us, hb, hpiece, hp, -⟩ := exists_piece_of_attribute hstep
    obtain ⟨ws, cs, hws, hcs, hmap⟩ := ih hm (o + Text.size (bs ++ us))
    rw [hws.1, hm, ← List.append_assoc] at hpiece
    have hstep' := hpiece.cut.step_eq (k := ⟨o, bs ++ us ++ (ws ++ after)⟩)
      (l := ⟨o + Text.size (bs ++ us), ws ++ after⟩) hb ⟨rfl, rfl⟩
    have hmore := Reads.more hstep' hcs
    refine ⟨_, _, hp.trans hws, by simpa only [List.append_assoc, Nat.add_assoc, Text.size_append]
      using hmore, ?_⟩
    rw [List.map_cons, List.map_cons, hmap]
    rfl
  | @comment k l m as hstep hr ih =>
    obtain ⟨bs, us, hb, hpiece, hp⟩ := exists_piece_of_comment hstep
    obtain ⟨ws, cs, hws, hcs, hmap⟩ := ih hm (o + Text.size (bs ++ us))
    rw [hws.1, hm, ← List.append_assoc] at hpiece
    have hstep' := hpiece.cut.step_eq (k := ⟨o, bs ++ us ++ (ws ++ after)⟩)
      (l := ⟨o + Text.size (bs ++ us), ws ++ after⟩) hb ⟨rfl, rfl⟩
    refine ⟨_, _, hp.trans hws, ?_, hmap⟩
    rw [List.append_assoc, Text.size_append, ← Nat.add_assoc]
    exact .comment hstep' hcs

end Reads

/-! ### The whole tag -/

theorem length_lt_of_piece {k l : Cursor} {bs us rest : Text} {v : Option (String × AttributeValue)}
    (h : TagPiece rest us v) (hp : k.Passes (bs ++ us) l) : l.rest.length < k.rest.length := by
  have := List.length_pos_iff.mpr h.ne_nil
  rw [hp.1, List.length_append, List.length_append]
  omega

/-- **Attributes are read up to a point at which they end.** -/
theorem readAttributes_eq {fuel : Nat} {k last : Cursor} (hf : k.rest.length < fuel)
    {as : List Attribute} {e : TagEnd} :
    readAttributes fuel k = (as, e, last) ↔ ∃ m, Reads k as m ∧ Ends m e last := by
  constructor
  · intro h
    induction fuel generalizing k as with
    | zero => omega
    | succ fuel ih =>
      rw [readAttributes] at h
      simp only at h
      split at h
      · next hstep =>
        cases h
        exact ⟨k, .done k, .finish hstep⟩
      · next hstep =>
        cases h
        exact ⟨k, .done k, .stuck hstep⟩
      · next next hstep =>
        obtain ⟨bs, us, -, hpiece, hp⟩ := exists_piece_of_comment hstep
        have := length_lt_of_piece hpiece hp
        obtain ⟨m, hr, he⟩ := ih (by omega) h
        exact ⟨m, .comment hstep hr, he⟩
      · next a next hstep =>
        obtain ⟨bs, us, -, hpiece, hp, -⟩ := exists_piece_of_attribute hstep
        have := length_lt_of_piece hpiece hp
        cases h
        obtain ⟨m, hr, he⟩ := ih (k := next) (by omega) rfl
        exact ⟨m, .more hstep hr, he⟩
  · rintro ⟨m, hr, he⟩
    induction hr generalizing fuel with
    | done k =>
      obtain ⟨fuel, rfl⟩ := Nat.exists_eq_succ_of_ne_zero (n := fuel) (by omega)
      rw [readAttributes]
      cases he with
      | finish hstep => simp only [hstep]
      | stuck hstep => simp only [hstep]
    | more hstep hr ih =>
      obtain ⟨fuel, rfl⟩ := Nat.exists_eq_succ_of_ne_zero (n := fuel) (by omega)
      obtain ⟨bs, us, -, hpiece, hp, -⟩ := exists_piece_of_attribute hstep
      have := length_lt_of_piece hpiece hp
      rw [readAttributes]
      simp only [hstep, @ih fuel (by omega) he]
    | comment hstep hr ih =>
      obtain ⟨fuel, rfl⟩ := Nat.exists_eq_succ_of_ne_zero (n := fuel) (by omega)
      obtain ⟨bs, us, -, hpiece, hp⟩ := exists_piece_of_comment hstep
      have := length_lt_of_piece hpiece hp
      rw [readAttributes]
      simp only [hstep, @ih fuel (by omega) he]

/-- A name of a tag, which starts with a letter. -/
def IsTag (us : Text) : Prop := IsName us ∧ ∀ c ∈ us.head?, c.isAlpha

instance (us : Text) : Decidable (IsTag us) :=
  decidable_of_iff (IsName us ∧ us.head?.all Char.isAlpha = true) (by
    rw [Option.all_eq_true, IsTag]
    rfl)

/-- The element that is read at a point: its name ends at `p`, its attributes at `m`, and its
opening tag at `last`. -/
structure OpeningTag (k p m last : Cursor) (te : TagEnd) (e : Element) : Prop where
  name : ∃ lt name, lt.utf8Size = 1 ∧ IsTag name ∧ (∀ c ∈ p.rest.head?, ¬ isNameChar c) ∧
    k.Passes (lt :: name) p
  reads : Reads p e.attributes m
  ends : Ends m te last
  tag_eq : e.tag = ⟨k.offset, last.offset⟩
  name_eq : e.name = ⟨k.offset + 1, p.offset⟩
  selfClosing_eq : e.selfClosing = (te == .closedItself)
  terminated_eq : e.terminated = (te != .unterminated)
  closing_eq : e.closing = none
  children_eq : e.children = if te == .closedItself then .selfClosing else .unclosed

theorem isNameChar_of_isAlpha {c : Char} (h : c.isAlpha) : isNameChar c := by
  simp [isNameChar, Char.isAlphanum, h]

theorem readOpeningTag_eq_some {k last : Cursor} {e : Element} :
    readOpeningTag k = some (e, last) ↔ ∃ p m te, OpeningTag k p m last te e := by
  obtain ⟨o, rest⟩ := k
  constructor
  · intro h
    unfold readOpeningTag at h
    split at h
    · next lt c cs hr =>
      simp only at hr
      subst hr
      split at h
      · cases h
      · next hlt =>
        simp only [Bool.or_eq_true, bne_iff_ne, ne_eq, Bool.not_eq_true', not_or, not_not,
          Bool.not_eq_false] at hlt
        obtain ⟨name, hname, hall, hstop⟩ := Cursor.exists_skipWhile isNameChar ⟨o + 1, c :: cs⟩
        have hc : ∃ us, name = c :: us := by
          cases name with
          | nil =>
            have hrest := hname.1
            rw [List.nil_append] at hrest
            exact absurd (isNameChar_of_isAlpha hlt.2) (hstop c (by rw [← hrest]; rfl))
          | cons d us =>
            have hrest := hname.1
            rw [List.cons_append, List.cons.injEq] at hrest
            exact ⟨us, by rw [hrest.1]⟩
        obtain ⟨us, rfl⟩ := hc
        rcases hread : readAttributes ((Cursor.skipWhile isNameChar ⟨o + 1, c :: cs⟩).rest.length + 1)
          (Cursor.skipWhile isNameChar ⟨o + 1, c :: cs⟩) with ⟨as, te, l⟩
        simp only [hread, Option.some.injEq, Prod.mk.injEq] at h
        obtain ⟨rfl, rfl⟩ := h
        obtain ⟨m, hr, he⟩ := (readAttributes_eq (Nat.lt_succ_self _)).mp hread
        refine ⟨_, m, _, ?_, hr, he, rfl, rfl, rfl, rfl, rfl, rfl⟩
        refine ⟨lt, _, hlt.1, ⟨⟨by simp, hall⟩, ?_⟩, hstop, ?_⟩
        · rintro d hd
          obtain rfl : c = d := by simpa using hd
          exact hlt.2
        · have h1 : o + lt.utf8Size = o + 1 := by rw [hlt.1]
          exact passes_cons (h1 ▸ hname)
    · cases h
  · rintro ⟨p, m, te, ⟨lt, name, hlt, hn, hstop, hp⟩, hr, he, h1, h2, h3, h4, h5, h6⟩
    obtain ⟨c, us, rfl⟩ := List.exists_cons_of_ne_nil hn.1.1
    obtain ⟨hrest, ho⟩ := hp
    simp only [List.cons_append] at hrest ho
    subst hrest
    have hskip := Cursor.skipWhile_append hn.1.2 hstop (o + 1)
    have hpe : (⟨o + 1 + Text.size (c :: us), p.rest⟩ : Cursor) = p := by
      obtain ⟨o', rest⟩ := p
      simp only at ho ⊢
      rw [ho, Text.size_cons lt, hlt, Nat.add_assoc]
    rw [hpe] at hskip
    have hread := (readAttributes_eq (Nat.lt_succ_self p.rest.length)).mpr ⟨m, hr, he⟩
    simp only [List.cons_append] at hskip
    unfold readOpeningTag
    simp only [hlt, bne_self_eq_false, hn.2 c rfl, Bool.not_true, Bool.or_self, Bool.false_eq_true,
      if_false, hskip, hread]
    obtain ⟨tag, nm, atts, sc, term, closing, children⟩ := e
    simp only at h1 h2 h3 h4 h5 h6
    simp only [h1, h2, h3, h4, h5, h6]

theorem Ends.exists_passes {k last : Cursor} {te : TagEnd} (h : Ends k te last) :
    ∃ us, k.Passes us last := by
  obtain ⟨bs, hbs, -, -⟩ := Cursor.exists_skipWhile isTagBlank k
  cases h with
  | finish hstep => exact ⟨_, hbs.trans (tagStep_eq_finish.mp hstep)⟩
  | stuck hstep =>
    obtain ⟨us, hus, -⟩ := exists_passes_of_stuck hstep
    exact ⟨_, hbs.trans hus⟩

namespace OpeningTag

variable {k p m last : Cursor} {te : TagEnd} {e : Element}

theorem exists_passes (h : OpeningTag k p m last te e) : ∃ us, p.Passes us last := by
  obtain ⟨us, hus, -⟩ := h.reads.exists_passes
  obtain ⟨vs, hvs⟩ := h.ends.exists_passes
  exact ⟨_, hus.trans hvs⟩

theorem exists_passes_all (h : OpeningTag k p m last te e) : ∃ us, us ≠ [] ∧ k.Passes us last := by
  obtain ⟨lt, name, -, -, -, hname⟩ := h.name
  obtain ⟨us, hus⟩ := h.exists_passes
  exact ⟨lt :: name ++ us, by simp, hname.trans hus⟩

theorem spans (h : OpeningTag k p m last te e) : e.name.start = e.tag.start + 1 ∧
    e.name.start < e.name.stop ∧ e.name.stop ≤ e.tag.stop ∧
    ∀ a ∈ e.attributes, e.name.stop ≤ a.span.start ∧ a.span.start < a.span.stop ∧
      a.span.stop ≤ e.tag.stop := by
  obtain ⟨lt, name, hlt, hn, -, hname⟩ := h.name
  obtain ⟨vs, hvs⟩ := h.ends.exists_passes
  obtain ⟨us, hus⟩ := h.exists_passes
  have hpos := Text.size_pos hn.1.1
  have ho := hname.2
  have h1 := hus.le
  have h2 := hvs.le
  rw [Text.size_cons, hlt] at ho
  rw [h.tag_eq, h.name_eq]
  refine ⟨rfl, by simp only; omega, h1, fun a ha => ?_⟩
  have := h.reads.spans.1 a ha
  simp only
  omega

theorem on {cs : Text} (h : OpeningTag k p m last te e) (hk : k.In cs) :
    e.tag.On cs ∧ e.name.On cs ∧ (∀ a ∈ e.attributes, a.span.On cs) ∧ last.In cs := by
  obtain ⟨lt, name, hone, hn, -, hname⟩ := h.name
  obtain ⟨us, hus⟩ := h.exists_passes
  have hp := hk.passes hname
  have hopen : k.Passes [lt] ⟨k.offset + 1, name ++ p.rest⟩ := ⟨hname.1, by simp [hone]⟩
  have hfirst := hk.passes hopen
  refine ⟨?_, ?_, h.reads.on hp, hp.passes hus⟩
  · rw [h.tag_eq]
    exact hk.on (hname.trans hus)
  · rw [h.name_eq]
    refine hfirst.on (⟨rfl, ?_⟩ : Cursor.Passes _ name p)
    rw [hname.2, Text.size_cons, hone, Nat.add_assoc]

end OpeningTag

end DesignLint.Markup
