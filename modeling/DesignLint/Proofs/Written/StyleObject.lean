import DesignLint.Proofs.Style.Cut
import DesignLint.Proofs.Written.StyleEntry

/-!
# Style objects as they are written

A `WrittenObject` is a list of entries with commas between them, with a trailing comma or without
one, in braces. The reader of braces finds its end (`WrittenObject.expressionEnd_text`), since
comments, strings and all else that can stand in it leave open what is open (`Markup.Level`). The
entries are cut apart at their commas (`filterMap_entries`), and if all of them are readable, then
one value is found in each whose property is watched, and nothing else
(`WrittenObject.objectSites_text`).

In a script, the values of a readable object are listed in the order of its entries, besides the
values of template literals and of other style objects
(`DeclarationPattern.sites_writtenObject`). A comment in front of a key hides its entry
(`DeclarationPattern.exists_entry_hidden`).
-/

namespace DesignLint

namespace Markup

/-- A text that, between braces, leaves open what is open in front of it. -/
def Level (us : Text) : Prop := ∀ ⦃below : List Enclosure⦄ ⦃after vs : Text⦄,
  Enclosed after (.brace :: below) vs → Enclosed after (.brace :: below) (us ++ vs)

namespace Level

theorem nil : Level [] := fun _ _ _ h => h

theorem append {us vs : Text} (hu : Level us) (hv : Level vs) : Level (us ++ vs) := by
  intro below after ws h
  rw [List.append_assoc]
  exact hu (hv h)

theorem char {c : Char} (hc : c ∉ ['"', '\'', backtick, '\x7b', '\x7d', '/']) : Level [c] :=
  fun _ _ _ h => Enclosed.plainChar hc h

theorem of_forall {us : Text} (h : ∀ c ∈ us, c ∉ ['"', '\'', backtick, '\x7b', '\x7d', '/']) :
    Level us := by
  induction us with
  | nil => exact nil
  | cons c us ih => exact (char (h c (by simp))).append (ih fun d hd => h d (by simp [hd]))

theorem flatMap {α : Type} {xs : List α} {f : α → Text} (h : ∀ x ∈ xs, Level (f x)) :
    Level (xs.flatMap f) := by
  induction xs with
  | nil => exact nil
  | cons x xs ih =>
    rw [List.flatMap_cons]
    exact (h x (by simp)).append (ih fun y hy => h y (by simp [hy]))

theorem intercalate {sep : Text} (hsep : Level sep) {parts : List Text}
    (h : ∀ p ∈ parts, Level p) : Level (sep.intercalate parts) := by
  induction parts with
  | nil => exact nil
  | cons p parts ih =>
    have hp := h p (by simp)
    cases parts with
    | nil => simpa using hp
    | cons p' parts =>
      rw [List.intercalate_cons_cons]
      exact (hp.append hsep).append (ih fun q hq => h q (by simp [hq]))

theorem expressionEnd {us : Text} (h : Level us) (o : Nat) (after : Text) :
    expressionEnd ⟨o, '\x7b' :: (us ++ '\x7d' :: after)⟩ = some ⟨o + us.size + 2, after⟩ := by
  have hclose : Enclosed after [.brace, .outside] ['\x7d'] := .char .closeLast .done
  have hopen : Enclosed after [.outside] ('\x7b' :: (us ++ ['\x7d'])) :=
    .char (.openBrace (by simp)) (h hclose)
  refine expressionEnd_eq_some.mpr ⟨_, hopen, by simp, ?_⟩
  have h1 : '\x7b'.utf8Size = 1 := rfl
  have h2 : '\x7d'.utf8Size = 1 := rfl
  simp only [Text.size_cons, Text.size_append, Text.size_nil, h1, h2]
  omega

end Level

end Markup

namespace Style

/-- Entries in braces, with commas between them. -/
structure WrittenObject where
  entries : List Entry
  /-- What stands behind a trailing comma, or in the braces if there are no entries. -/
  tail : Option (List Spacing)

namespace WrittenObject

/-- What stands between the commas of an object. -/
def parts (x : WrittenObject) : List Text :=
  x.entries.map Entry.text ++ (x.tail.map spacingText).toList

/-- The text between the braces of an object. -/
def body (x : WrittenObject) : Text := [','].intercalate x.parts

/-- The text of an object. -/
def text (x : WrittenObject) : Text := '\x7b' :: (x.body ++ ['\x7d'])

/-- An object whose entries are readable, and that has nothing but quiet comments behind them. -/
structure Readable (watches : Text → Bool) (x : WrittenObject) : Prop where
  entries : ∀ e ∈ x.entries, e.Readable watches
  tail : ∀ ss ∈ x.tail, ∀ s ∈ ss, s.Quiet

end WrittenObject

/-- The places of the values of watched entries, of which the first starts at an offset. -/
def sitesFrom (watches : Text → Bool) (o : Nat) : List Entry → List ValueSite
  | [] => []
  | e :: es =>
    (if watches e.property then [e.site o] else []) ++ sitesFrom watches (o + e.text.size + 1) es

/-- What stands in front of a style object, with blanks between the tokens. -/
structure Opening where
  beforeEquals : Text
  beforeBrace : Text
  behindBrace : Text
  isBlank : ∀ c ∈ beforeEquals ++ beforeBrace ++ behindBrace, isBlank c

/-- The text in front of the inner brace. -/
def Opening.text (a : Opening) : Text :=
  "style".toList ++ (a.beforeEquals ++ '=' :: (a.beforeBrace ++ '\x7b' :: a.behindBrace))

/-! ### The end of an object -/

theorem level_of_not_isMark {us : Text} (h : ∀ c ∈ us, ¬ isMark c ∧ c ≠ '/') : Markup.Level us := by
  refine .of_forall fun c hc hmem => ?_
  obtain ⟨hmark, hslash⟩ := h c hc
  simp only [List.mem_cons, List.not_mem_nil, or_false] at hmem
  rcases hmem with rfl | rfl | rfl | rfl | rfl | rfl
  exacts [hmark rfl, hmark rfl, hmark rfl, hmark rfl, hmark rfl, hslash rfl]

theorem Spacing.level (s : Spacing) : Markup.Level s.text := by
  cases s with
  | blank c hc =>
    refine level_of_not_isMark fun d hd => ?_
    rw [List.mem_singleton.mp hd]
    refine ⟨not_isMark_of_isBlank hc, ?_⟩
    rintro rfl
    exact absurd hc (by decide)
  | block c => exact fun _ _ _ h => .token (.blockComment (by simp) c.closed) h
  | line inside hline =>
    intro below after vs h
    have hbreak : Markup.Enclosed after (.brace :: below) ('\n' :: vs) := .plainChar (by decide) h
    have hslashes : Markup.Token ('\n' :: vs ++ after) (.brace :: below) ('/' :: '/' :: inside)
        (.brace :: below) := .lineComment (by simp) hline (by simp)
    simpa [text] using Markup.Enclosed.token hslashes hbreak

theorem level_spacingText (ss : List Spacing) : Markup.Level (spacingText ss) :=
  .flatMap fun s _ => s.level

theorem PlainString.level (s : PlainString) : Markup.Level s.text := by
  refine fun _ _ _ h => .token (.quoted (by simp) s.isQuote (Markup.quoted_of_forall ?_)) h
  intro c hc
  have := s.plain c hc
  simp only [List.mem_cons, List.not_mem_nil, or_false, not_or] at this
  refine ⟨this.2.2.1, this.2.2.2, ?_⟩
  rintro rfl
  rcases s.isQuote with h | h <;> tauto

theorem Key.level (k : Key) : Markup.Level k.text := by
  cases k with
  | identifier name hne h =>
    refine level_of_not_isMark fun c hc => ⟨not_isMark_of_isNamePart (h c hc), ?_⟩
    rintro rfl
    exact absurd (h '/' hc) (by decide +kernel)
  | quoted s => exact s.level

theorem Constant.level (v : Constant) : Markup.Level v.text := by
  cases v with
  | string s => exact s.level
  | number n =>
    refine level_of_not_isMark fun c hc => ⟨n.not_isMark c hc, ?_⟩
    rintro rfl
    rcases n.mem_text hc with h | h | h <;> exact absurd h (by decide)

theorem Entry.level (e : Entry) : Markup.Level e.text := by
  have hfront := (level_spacingText e.lead).append
    (e.key.level.append (level_spacingText e.afterKey))
  have hback := (level_spacingText e.beforeValue).append
    (e.value.level.append (level_spacingText e.trail))
  have hcolon : Markup.Level [':'] := .char (by decide)
  exact hfront.append (hcolon.append hback)

theorem WrittenObject.level (x : WrittenObject) : Markup.Level x.body := by
  refine .intercalate (.char (by decide)) fun p hp => ?_
  rcases List.mem_append.mp hp with hp | hp
  · obtain ⟨e, -, rfl⟩ := List.mem_map.mp hp
    exact e.level
  · obtain ⟨ss, -, rfl⟩ := Option.mem_map.mp (Option.mem_toList.mp hp)
    exact level_spacingText ss

/-- **An object is read up to its own end**, whatever stands behind it. -/
theorem WrittenObject.expressionEnd_text (x : WrittenObject) (o : Nat) (after : Text) :
    Markup.expressionEnd ⟨o, x.text ++ after⟩ = some ⟨o + x.body.size + 2, after⟩ := by
  have := x.level.expressionEnd o after
  simpa [text] using this

/-! ### Parts between commas -/

/-- The characters that part entries, or open something in which commas do not. -/
def isPartMark (c : Char) : Bool := isMark c && c != ':'

/-- Texts with the offsets at which they stand if commas part them. -/
def partsFrom (o : Nat) : List Text → List (Nat × Text)
  | [] => []
  | p :: ps => (o, p) :: partsFrom (o + p.size + 1) ps

theorem stringEnd_inside {q : Char} {us : Text} (h : ∀ c ∈ us, c ≠ '\\' ∧ c ≠ q) (hq : q ≠ '\\')
    (o : Nat) (rest : Text) :
    stringEnd q o (us ++ q :: rest) = some ⟨o + us.size + q.utf8Size, rest⟩ := by
  induction us generalizing o with
  | nil =>
    rw [List.nil_append, stringEnd.eq_def]
    simp [hq]
  | cons c us ih =>
    obtain ⟨hescape, hquote⟩ := h c (by simp)
    rw [List.cons_append, stringEnd.eq_def]
    simp only [beq_iff_eq, hescape, hquote, if_false]
    rw [ih fun d hd => h d (by simp [hd])]
    simp [Nat.add_assoc]

theorem topCommas_char {c : Char} (h : ¬ isPartMark c) (fuel o : Nat) (rest : Text) :
    topCommas 0 (fuel + 1) ⟨o, c :: rest⟩ = topCommas 0 fuel ⟨o + c.utf8Size, rest⟩ := by
  have hne : ∀ d, isPartMark d → c ≠ d := by
    rintro d hd rfl
    exact h hd
  have hnesting : nesting c = 0 := by
    by_cases hcolon : c = ':'
    · rw [hcolon]; rfl
    · exact nesting_of_not_isMark fun hmark => h (by simp [isPartMark, hmark, hcolon])
  simp [topCommas, hne '"' rfl, hne '\'' rfl, hne Markup.backtick rfl, hne ',' rfl, hnesting]

theorem topCommas_string (s : PlainString) (fuel o : Nat) (rest : Text) :
    topCommas 0 (fuel + 1) ⟨o, s.text ++ rest⟩ = topCommas 0 fuel ⟨o + s.text.size, rest⟩ := by
  have hq : (s.quote == '"' || s.quote == '\'') = true := by
    rcases s.isQuote with h | h <;> simp [h]
  have hescape : s.quote ≠ '\\' := by
    rcases s.isQuote with h | h <;> simp [h]
  have hinside : ∀ c ∈ s.inside, c ≠ '\\' ∧ c ≠ s.quote := by
    intro c hc
    have := s.plain c hc
    simp only [List.mem_cons, List.not_mem_nil, or_false, not_or] at this
    refine ⟨this.2.2.1, ?_⟩
    rcases s.isQuote with h | h <;> rw [h] <;> tauto
  have hend := stringEnd_inside hinside hescape (o + s.quote.utf8Size) rest
  rw [PlainString.text, List.cons_append, List.append_assoc, List.singleton_append, topCommas]
  simp [hq, hend, Nat.add_assoc]

theorem topCommas_free {us : Text} (h : Free isPartMark us) {rest : Text} {fuel : Nat}
    (hfuel : us.length + rest.length ≤ fuel) (o : Nat) : ∃ fuel', rest.length ≤ fuel' ∧
      topCommas 0 fuel ⟨o, us ++ rest⟩ = topCommas 0 fuel' ⟨o + us.size, rest⟩ := by
  induction h generalizing fuel o with
  | nil => exact ⟨fuel, by simpa using hfuel, rfl⟩
  | @char c us hc _ ih =>
    obtain _ | fuel := fuel
    · simp at hfuel
    have hrest : us.length + rest.length ≤ fuel := by
      simp only [List.length_cons] at hfuel
      omega
    obtain ⟨fuel', hle, heq⟩ := ih hrest (o + c.utf8Size)
    refine ⟨fuel', hle, ?_⟩
    rw [List.cons_append, topCommas_char hc, heq, Text.size_cons, Nat.add_assoc]
  | @string s us _ ih =>
    obtain _ | fuel := fuel
    · simp [PlainString.text] at hfuel
    have hrest : us.length + rest.length ≤ fuel := by
      simp only [PlainString.text, List.length_append, List.length_cons] at hfuel
      omega
    obtain ⟨fuel', hle, heq⟩ := ih hrest (o + s.text.size)
    refine ⟨fuel', hle, ?_⟩
    rw [List.append_assoc, topCommas_string, heq, Text.size_append, Nat.add_assoc]

theorem topCommas_nil (fuel o : Nat) : topCommas 0 fuel ⟨o, []⟩ = [] := by cases fuel <;> rfl

theorem filterMap_between {α : Type} {f : Nat × Text → Option α} (hf : ∀ o, f (o, []) = none)
    {ps : List Text} (h : ∀ p ∈ ps, Free isPartMark p) {fuel : Nat}
    (hfuel : ([','].intercalate ps).length ≤ fuel) (o : Nat) :
    (between ⟨o, [','].intercalate ps⟩ (topCommas 0 fuel ⟨o, [','].intercalate ps⟩)).filterMap f =
      (partsFrom o ps).filterMap f := by
  induction ps generalizing fuel o with
  | nil =>
    rw [List.intercalate_nil, topCommas_nil]
    rfl
  | cons p ps ih =>
    have hp := h p (by simp)
    -- behind the last part there is no comma, and it is dropped if it is empty
    cases ps with
    | nil =>
      rw [List.intercalate_singleton] at hfuel ⊢
      have hfuel' : p.length + List.length ([] : Text) ≤ fuel := by simpa using hfuel
      obtain ⟨fuel', -, heq⟩ := topCommas_free hp hfuel' o
      rw [List.append_nil] at heq
      rw [heq, topCommas_nil, between, partsFrom, partsFrom]
      by_cases hnil : p = []
      · simp [hnil, hf]
      · simp [hnil]
    | cons p' ps =>
      have hcomma : ','.utf8Size = 1 := rfl
      rw [List.intercalate_cons_cons, List.append_assoc, List.singleton_append] at hfuel ⊢
      rw [List.length_append] at hfuel
      obtain ⟨fuel', hle, heq⟩ := topCommas_free hp hfuel o
      obtain _ | fuel' := fuel'
      · simp at hle
      have hstep : topCommas 0 (fuel' + 1) ⟨o + p.size, ',' :: [','].intercalate (p' :: ps)⟩ =
          ⟨o + p.size, ',' :: [','].intercalate (p' :: ps)⟩ ::
            topCommas 0 fuel' ⟨o + p.size + 1, [','].intercalate (p' :: ps)⟩ := by
        simp [topCommas, hcomma, Markup.backtick]
      have hupTo : Cursor.upTo ⟨o, p ++ ',' :: [','].intercalate (p' :: ps)⟩
          ⟨o + p.size, ',' :: [','].intercalate (p' :: ps)⟩ = p :=
        Cursor.Passes.upTo_eq ⟨rfl, rfl⟩
      have hrest := ih (fun q hq => h q (List.mem_cons_of_mem _ hq)) (by simpa using hle)
        (o + p.size + 1)
      rw [heq, hstep, between, hupTo]
      simp only [Cursor.skip, hcomma]
      rw [List.filterMap_cons, hrest]
      rfl

/-- **Entries are cut apart at their commas.** -/
theorem filterMap_entries {α : Type} {f : Nat × Text → Option α} (hf : ∀ o, f (o, []) = none)
    {ps : List Text} (h : ∀ p ∈ ps, Free isPartMark p) (o : Nat) :
    (entries ⟨o, [','].intercalate ps⟩).filterMap f = (partsFrom o ps).filterMap f :=
  filterMap_between hf h (Nat.le_refl _) o

/-! ### The values of an object -/

theorem isMark_of_isPartMark {c : Char} (h : isPartMark c) : isMark c := by
  rw [isPartMark, Bool.and_eq_true] at h
  exact h.1

theorem Entry.free {e : Entry} (h : ∀ s ∈ e.spacing, s.Quiet) : Free isPartMark e.text := by
  have hbefore : ∀ s ∈ e.beforeValue, s.Quiet := fun s hs => h s (by simp [spacing, hs])
  have htrail : ∀ s ∈ e.trail, s.Quiet := fun s hs => h s (by simp [spacing, hs])
  have hback : Free isMark e.back := (free_of_forall (not_isMark_of_mem_spacingText hbefore)).append
    (e.value.free.append (free_of_forall (not_isMark_of_mem_spacingText htrail)))
  exact ((front_free h).mono fun _ => isMark_of_isPartMark).append
    (.char (by decide) (hback.mono fun _ => isMark_of_isPartMark))

variable {watches : Text → Bool} {x : WrittenObject}

theorem WrittenObject.Readable.free (hx : x.Readable watches) :
    ∀ p ∈ x.parts, Free isPartMark p := by
  intro p hp
  rcases List.mem_append.mp hp with hp | hp
  · obtain ⟨e, he, rfl⟩ := List.mem_map.mp hp
    exact e.free (hx.entries e he).quiet
  · obtain ⟨ss, hss, rfl⟩ := Option.mem_map.mp (Option.mem_toList.mp hp)
    exact (free_of_forall (not_isMark_of_mem_spacingText (hx.tail ss hss))).mono
      fun _ => isMark_of_isPartMark

theorem entrySite?_of_quiet {us : Text} (h : ∀ c ∈ us, ¬ isMark c) (o : Nat) :
    entrySite? watches o us = none := by
  simp [entrySite?, splitKey_eq_none h]

theorem filterMap_entrySite? {es : List Entry} (h : ∀ e ∈ es, e.Readable watches) {ps : List Text}
    (hps : ∀ p ∈ ps, ∀ c ∈ p, ¬ isMark c) (o : Nat) :
    (partsFrom o (es.map Entry.text ++ ps)).filterMap (fun p => entrySite? watches p.1 p.2) =
      sitesFrom watches o es := by
  induction es generalizing o with
  | nil =>
    simp only [List.map_nil, List.nil_append, sitesFrom]
    induction ps generalizing o with
    | nil => rfl
    | cons p ps ih =>
      rw [partsFrom, List.filterMap_cons, entrySite?_of_quiet (hps p (by simp))]
      exact ih (fun q hq => hps q (by simp [hq])) _
  | cons e es ih =>
    rw [List.map_cons, List.cons_append, partsFrom, List.filterMap_cons,
      e.entrySite?_text (h e (by simp)), ih fun e' he' => h e' (by simp [he'])]
    split_ifs <;> simp_all [sitesFrom]

/-- **Of a readable object, the values of watched entries are found**, and nothing else. -/
theorem WrittenObject.objectSites_text (hx : x.Readable watches) (o : Nat) (after : Text) :
    objectSites watches ⟨o, x.text ++ after⟩ = sitesFrom watches (o + 1) x.entries := by
  have h1 : '\x7b'.utf8Size = 1 := rfl
  have hbody : Text.takeBytes (o + x.body.size + 2 - 1 - (o + 1)) (x.body ++ '\x7d' :: after) =
      x.body := by
    rw [show o + x.body.size + 2 - 1 - (o + 1) = x.body.size by omega, Text.takeBytes_size_append]
  have hsites := filterMap_entries (f := fun p => entrySite? watches p.1 p.2) (fun _ => rfl)
    hx.free (o + 1)
  have htail : ∀ p ∈ (x.tail.map spacingText).toList, ∀ c ∈ p, ¬ isMark c := by
    intro p hp
    obtain ⟨ss, hss, rfl⟩ := Option.mem_map.mp (Option.mem_toList.mp hp)
    exact not_isMark_of_mem_spacingText (hx.tail ss hss)
  rw [objectSites, x.expressionEnd_text]
  simp only [text, List.cons_append, List.append_assoc, List.nil_append, Cursor.skip, h1, hbody]
  exact hsites.trans (filterMap_entrySite? hx.entries htail (o + 1))

/-! ### The order of the values -/

theorem Constant.span_site (v : Constant) (property : Text) (o : Nat) :
    o ≤ (v.site property o).span.start ∧ (v.site property o).span.stop ≤ o + v.text.size ∧
      (v.site property o).span.start ≤ (v.site property o).span.stop := by
  cases v with
  | string s =>
    simp only [site, text, PlainString.text, Text.size_cons, Text.size_append]
    have := s.quote.utf8Size_pos
    omega
  | number n => simp [site, text]

theorem Entry.span_site (e : Entry) (o : Nat) : o ≤ (e.site o).span.start ∧
    (e.site o).span.start ≤ o + e.text.size := by
  have h1 : ':'.utf8Size = 1 := rfl
  have hspan := e.value.span_site e.property
    (o + e.front.size + 1 + (spacingText e.beforeValue).size)
  simp only [site, text, back, Text.size_append, Text.size_cons, h1]
  omega

theorem le_start_of_mem_sitesFrom {es : List Entry} {o : Nat} {v : ValueSite}
    (h : v ∈ sitesFrom watches o es) : o ≤ v.span.start := by
  induction es generalizing o with
  | nil => exact absurd h List.not_mem_nil
  | cons e es ih =>
    rcases List.mem_append.mp h with h | h
    · split_ifs at h
      · rw [List.mem_singleton.mp h]
        exact (e.span_site o).1
      · exact absurd h List.not_mem_nil
    · have := ih h
      omega

theorem pairwise_sitesFrom (es : List Entry) (o : Nat) :
    (sitesFrom watches o es).Pairwise fun v w => v.span.le w.span := by
  induction es generalizing o with
  | nil => exact .nil
  | cons e es ih =>
    refine List.pairwise_append.mpr ⟨?_, ih _, fun v hv w hw => ?_⟩
    · split_ifs <;> simp
    · split_ifs at hv
      · rw [List.mem_singleton.mp hv]
        have hstart := (e.span_site o).2
        have hbehind := le_start_of_mem_sitesFrom hw
        have hlt : (e.site o).span.start < w.span.start := by omega
        simp [Span.le, hlt]
      · exact absurd hv List.not_mem_nil

/-! ### Where objects start -/

theorem styleBrace?_text (a : Opening) (o : Nat) (rest : Text) :
    styleBrace? ⟨o, a.text ++ '\x7b' :: rest⟩ = some ⟨o + a.text.size, '\x7b' :: rest⟩ := by
  have hblank := a.isBlank
  simp only [List.mem_append] at hblank
  have hskip : ∀ us : Text, (∀ c ∈ us, isBlank c) → ∀ d, ¬ isBlank d → ∀ o rest,
      Cursor.skipWhile isBlank ⟨o, us ++ d :: rest⟩ = ⟨o + us.size, d :: rest⟩ :=
    fun us hus d hd o rest => Cursor.skipWhile_append hus (by simpa using hd) o
  have h1 := hskip a.beforeEquals (fun c hc => hblank c (Or.inl (Or.inl hc))) '=' (by decide)
  have h2 := hskip a.beforeBrace (fun c hc => hblank c (Or.inl (Or.inr hc))) '\x7b' (by decide)
  have h3 := hskip a.behindBrace (fun c hc => hblank c (Or.inr hc)) '\x7b' (by decide)
  have htext : ∀ (lead : Text) o rest,
      Cursor.skipText lead ⟨o, lead ++ rest⟩ = some ⟨o + lead.size, rest⟩ :=
    fun lead o rest => Cursor.skipText_eq_some.mpr ⟨rfl, rfl⟩
  have hequals := htext ['=']
  have hbrace := htext ['\x7b']
  simp only [List.singleton_append, Text.size_cons, Text.size_nil] at hequals hbrace
  simp only [styleBrace?, Opening.text, List.append_assoc, List.cons_append, htext,
    Option.bind_eq_bind, Option.bind_some, h1, hequals, h2, hbrace, h3]
  simp [Nat.add_assoc]

theorem styleBrace?_of_head {c : Char} (h : c ≠ 's') (o : Nat) (cs : Text) :
    styleBrace? ⟨o, c :: cs⟩ = none := by
  have : Ne 's' c := Ne.symm h
  simp [styleBrace?, Cursor.skipText, this]

theorem exists_of_styleBrace? {k l : Cursor} (h : styleBrace? k = some l) : ∃ us ds,
    k.rest = us ++ '\x7b' :: ds ∧ '\x7d' ∉ us := by
  unfold styleBrace? at h
  simp only [Option.bind_eq_bind, Option.bind_eq_some_iff] at h
  obtain ⟨k1, h1, k2, h2, k3, h3, h⟩ := h
  split_ifs at h with hb
  cases h
  obtain ⟨us1, hus1, hblank1, -⟩ := Cursor.exists_skipWhile isBlank k1
  obtain ⟨us2, hus2, hblank2, -⟩ := Cursor.exists_skipWhile isBlank k2
  obtain ⟨us3, hus3, hblank3, -⟩ := Cursor.exists_skipWhile isBlank k3
  have p1 := (Cursor.skipText_passes h1).trans hus1
  have p2 := (p1.trans (Cursor.skipText_passes h2)).trans hus2
  have p3 := (p2.trans (Cursor.skipText_passes h3)).trans hus3
  obtain ⟨ds, hds⟩ := List.head?_eq_some_iff.mp (beq_iff_eq.mp hb)
  have hnot : ∀ {us : Text}, (∀ c ∈ us, isBlank c) → '\x7d' ∉ us := fun hus hmem =>
    absurd (hus _ hmem) (by decide)
  refine ⟨_, ds, by rw [p3.1, hds], ?_⟩
  simp [hnot hblank1, hnot hblank2, hnot hblank3]

/-- In front of a closing brace no object starts, unless an opening one stands in between. -/
theorem styleBrace?_of_not_mem {us : Text} (h : '\x7b' ∉ us) (o : Nat) (vs : Text) :
    styleBrace? ⟨o, us ++ '\x7d' :: vs⟩ = none := by
  rw [Option.eq_none_iff_forall_ne_some]
  intro l hl
  obtain ⟨ws, ds, heq, hws⟩ := exists_of_styleBrace? hl
  simp only at heq
  rcases List.append_eq_append_iff.mp heq with ⟨as, rfl, has⟩ | ⟨as, rfl, has⟩
  · cases as with
    | nil => cases has
    | cons a as =>
      cases has
      exact hws (by simp)
  · cases as with
    | nil => cases has
    | cons a as =>
      cases has
      exact h (by simp)

theorem styleBraces_of_none {before : Option Char} {o : Nat} {c : Char} {cs : Text}
    (h : styleBrace? ⟨o, c :: cs⟩ = none) :
    styleBraces before o (c :: cs) = styleBraces (some c) (o + c.utf8Size) cs := by
  simp [styleBraces, h]

theorem getLast?_or_some (c : Char) (us : Text) (before : Option Char) :
    us.getLast?.or (some c) = (c :: us).getLast?.or before := by
  rw [List.getLast?_cons]
  cases us.getLast? <;> rfl

theorem styleBraces_of_head (before : Option Char) (o : Nat) {us : Text} (h : ∀ c ∈ us, c ≠ 's')
    (vs : Text) :
    styleBraces before o (us ++ vs) = styleBraces (us.getLast?.or before) (o + us.size) vs := by
  induction us generalizing before o with
  | nil => simp
  | cons c us ih =>
    rw [List.cons_append, styleBraces_of_none (styleBrace?_of_head (h c (by simp)) o _),
      ih _ _ fun d hd => h d (by simp [hd]), getLast?_or_some c us before, Text.size_cons,
      Nat.add_assoc]

theorem styleBraces_of_not_mem (before : Option Char) (o : Nat) {us : Text} (h : '\x7b' ∉ us)
    (vs : Text) :
    styleBraces before o (us ++ '\x7d' :: vs) = styleBraces (some '\x7d') (o + us.size + 1) vs := by
  induction us generalizing before o with
  | nil => exact styleBraces_of_none (styleBrace?_of_not_mem h o vs)
  | cons c us ih =>
    have hnone := styleBrace?_of_not_mem h o vs
    rw [List.mem_cons, not_or] at h
    rw [List.cons_append] at hnone ⊢
    rw [styleBraces_of_none hnone, ih _ _ h.2, Text.size_cons, Nat.add_assoc o]

theorem exists_styleBraces_append (before : Option Char) (o : Nat) (us vs : Text) :
    ∃ ls, styleBraces before o (us ++ vs) =
      ls ++ styleBraces (us.getLast?.or before) (o + us.size) vs := by
  induction us generalizing before o with
  | nil => exact ⟨[], by simp⟩
  | cons c us ih =>
    obtain ⟨ls, hls⟩ := ih (some c) (o + c.utf8Size)
    refine ⟨(if before.any isWordChar then none
      else styleBrace? ⟨o, c :: (us ++ vs)⟩).toList ++ ls, ?_⟩
    rw [List.cons_append, styleBraces, hls, List.append_assoc, getLast?_or_some c us before,
      Text.size_cons, Nat.add_assoc]

theorem Opening.exists_tail (a : Opening) : ∃ tail, a.text = 's' :: tail ∧ ∀ c ∈ tail, c ≠ 's' := by
  refine ⟨"tyle".toList ++ (a.beforeEquals ++ '=' :: (a.beforeBrace ++ '\x7b' :: a.behindBrace)),
    rfl, ?_⟩
  have hblank : ∀ {c : Char}, DesignLint.isBlank c → c ≠ 's' := by
    rintro c hc rfl
    exact absurd hc (by decide)
  have h := a.isBlank
  simp only [List.mem_append] at h
  intro c hc
  simp only [List.mem_append, List.mem_cons] at hc
  rcases hc with hc | hc | rfl | hc | rfl | hc
  · rintro rfl
    exact absurd hc (by decide)
  · exact hblank (h c (Or.inl (Or.inl hc)))
  · decide
  · exact hblank (h c (Or.inl (Or.inr hc)))
  · decide
  · exact hblank (h c (Or.inr hc))

/-- Where the inner brace of an object is found, besides those of other objects. If no brace stands
in the object, then no other one starts in it. -/
theorem exists_styleBraces_text {before : Text} (hbefore : ∀ c ∈ before.getLast?, ¬ isWordChar c)
    (a : Opening) (x : WrittenObject) (after : Text) : ∃ others others' : List Cursor,
      styleBraces none 0 (before ++ (a.text ++ (x.text ++ after))) =
        others ++ ⟨(before ++ a.text).size, x.text ++ after⟩ :: others' ∧
      ('\x7b' ∉ x.body → others' =
        styleBraces (some '\x7d') ((before ++ a.text).size + x.text.size) after) := by
  obtain ⟨others, hothers⟩ :=
    exists_styleBraces_append none 0 before (a.text ++ (x.text ++ after))
  have hword : (before.getLast?.or none).any isWordChar = false := by
    rw [Option.or_none]
    cases hlast : before.getLast? with
    | none => rfl
    | some c => simpa using hbefore c hlast
  have hbrace := styleBrace?_text a before.size (x.body ++ '\x7d' :: after)
  have hx : x.text ++ after = '\x7b' :: (x.body ++ '\x7d' :: after) := by
    simp [WrittenObject.text]
  obtain ⟨tail, htail, hhead⟩ := a.exists_tail
  have hs : 's'.utf8Size = 1 := rfl
  have h1 : '\x7b'.utf8Size = 1 := rfl
  have h2 : '\x7d'.utf8Size = 1 := rfl
  refine ⟨others, styleBraces (some 's') (before.size + 1) (tail ++ (x.text ++ after)), ?_, ?_⟩
  · rw [hothers, Nat.zero_add, Text.size_append]
    rw [← hx, htail, List.cons_append] at hbrace
    simp only [htail, List.cons_append, styleBraces, hword, Bool.false_eq_true, if_false, hbrace,
      hs, Option.toList_some, List.nil_append]
  · -- behind its first letter the opening has no other `s`, and the body is closed before it opens
    intro hbody
    have hhead' : ∀ c ∈ tail ++ ['\x7b'], c ≠ 's' := by
      intro c hc
      rcases List.mem_append.mp hc with hc | hc
      · exact hhead c hc
      · rw [List.mem_singleton.mp hc]
        decide
    have hsplit : tail ++ (x.text ++ after) =
        (tail ++ ['\x7b']) ++ (x.body ++ '\x7d' :: after) := by
      rw [hx]
      simp
    rw [hsplit, styleBraces_of_head _ _ hhead', styleBraces_of_not_mem _ _ hbody, htail]
    simp only [WrittenObject.text, Text.size_append, Text.size_cons, Text.size_nil, hs, h1, h2]
    congr 1
    omega

end Style

/-- **A style object that is readable is read completely.** Of its entries, those with a watched
property are found, in their order; besides their values a script has those of template literals and
of other style objects, none of which starts in the object if it has no brace in it. -/
theorem DeclarationPattern.sites_writtenObject {p : DeclarationPattern} {file : Source}
    (hproperties : p.properties ≠ []) (hclasses : p.classes = []) (hkind : file.kind = .script)
    {before after : Text} {a : Style.Opening} {x : Style.WrittenObject}
    (htext : file.text = before ++ (a.text ++ (x.text ++ after)))
    (hbefore : ∀ c ∈ before.getLast?, ¬ isWordChar c) (hx : x.Readable p.watches) :
    let brace : Cursor := ⟨(before ++ a.text).size, x.text ++ after⟩
    let written := Style.sitesFrom p.watches (brace.offset + 1) x.entries
    Style.objectSites p.watches brace = written ∧ written.Sublist (p.sites file) ∧
      ∃ others others' : List Cursor,
        Style.styleBraces none 0 file.text = others ++ brace :: others' ∧
        ('\x7b' ∉ x.body → others' =
          Style.styleBraces (some '\x7d') (brace.offset + x.text.size) after) ∧
        (p.sites file).Perm ((Style.templateBodies file.text).flatMap
            (Style.templateSites (p.properties.map String.toList)) ++
          (others.flatMap (Style.objectSites p.watches) ++
            (written ++ others'.flatMap (Style.objectSites p.watches)))) := by
  intro brace written
  have hobject : Style.objectSites p.watches brace = written :=
    Style.WrittenObject.objectSites_text hx _ _
  obtain ⟨others, others', hbraces, hbehind⟩ :=
    Style.exists_styleBraces_text hbefore a x after
  have hunsorted : Style.unsortedSites p file = (Style.templateBodies file.text).flatMap
      (Style.templateSites (p.properties.map String.toList)) ++
        (others.flatMap (Style.objectSites p.watches) ++
          (written ++ others'.flatMap (Style.objectSites p.watches))) := by
    have hempty : (p.properties.map String.toList).isEmpty = false := by
      simpa using hproperties
    simp only [Style.unsortedSites, hempty, hclasses, hkind, Bool.false_eq_true, if_false,
      List.isEmpty_nil, if_true, List.append_nil, Style.inlineSites]
    rw [htext, hbraces, List.flatMap_append, List.flatMap_cons, hobject]
  refine ⟨hobject, ?_, others, others', by rw [htext, hbraces], hbehind, ?_⟩
  · refine List.sublist_mergeSort ?_ ?_ (Style.pairwise_sitesFrom _ _) ?_
    · exact fun _ _ _ => Span.le_trans
    · exact fun v w => v.span.le_total w.span
    rw [hunsorted]
    exact ((List.sublist_append_left _ _).trans (List.sublist_append_right _ _)).trans
      (List.sublist_append_right _ _)
  · rw [← hunsorted]
    exact List.mergeSort_perm _ _

namespace Style

/-- An entry with a space in front of its key, and one in front of its value. -/
def spacedEntry (comments : List Spacing) (key : Key) (value : Constant) : Entry :=
  ⟨.blank ' ' isBlank_space :: comments, key, [], [.blank ' ' isBlank_space], value, []⟩

/-- A string in single quotes. -/
def singleQuoted (us : Text) (h : ∀ c ∈ us, c ∉ ['"', '\'', '\\', '\n']) : PlainString :=
  ⟨'\'', us, Or.inr rfl, h⟩

/-- The entry `color: 'red'` behind some comments. -/
def colorEntry (comments : List Spacing) : Entry :=
  spacedEntry comments (.identifier "color".toList (by decide)
      (List.all_iff_forall_prop.mp (by decide +kernel)))
    (.string (singleQuoted "red".toList (List.all_iff_forall_prop.mp (by decide))))

/-- The comment that says `new`. -/
def newComment : Spacing := .block ⟨"new".toList, by decide⟩

/-- The entry `top: 14` behind a comment. -/
def topEntry : Entry :=
  spacedEntry [newComment] (.identifier "top".toList (by decide)
      (List.all_iff_forall_prop.mp (by decide +kernel)))
    (.number ⟨false, "14".toList, none, List.all_iff_forall_prop.mp (by decide), by decide⟩)

end Style

/-- An object with a comment in front of a key that is not watched. -/
theorem DeclarationPattern.sites_writtenObject_color :
    let p : DeclarationPattern := ⟨["color"], [], none⟩
    let file := Source.ofText "a.tsx"
      "<p style=\x7b\x7b /*new*/top: 14, color: 'red',\x7d\x7d/>".toList
    let v : ValueSite := ⟨⟨36, 39⟩, "red".toList, "color".toList, .inlineString⟩
    p.watches "top".toList = false ∧ p.watches "color".toList = true ∧
      [v].Sublist (p.sites file) := by
  intro p file v
  let x : Style.WrittenObject := ⟨[Style.topEntry, Style.colorEntry []], some []⟩
  let a : Style.Opening := ⟨[], [], [], by simp⟩
  have hcolor : ∀ property, p.watches property → property = "color".toList := by
    intro property h
    have heq : String.ofList property = "color" := by
      simpa [p, DeclarationPattern.watches, eq_comm] using h
    rw [← heq, String.toList_ofList]
  have hquiet : Style.newComment.Quiet := by
    rintro us ⟨⟩
    exact List.all_iff_forall_prop.mp (by decide)
  have htop : Style.topEntry.Readable p.watches := by
    refine ⟨?_, by decide +kernel, fun _ => ⟨by decide +kernel, fun property h => ?_⟩⟩
    · intro s hs
      simp only [Style.topEntry, Style.spacedEntry, Style.Entry.spacing, List.cons_append,
        List.nil_append, List.append_nil, List.mem_cons, List.not_mem_nil, or_false] at hs
      rcases hs with rfl | rfl | rfl
      exacts [Style.Spacing.quiet_blank isBlank_space, hquiet,
        Style.Spacing.quiet_blank isBlank_space]
    · rw [hcolor property h]
      decide
  have hentry : (Style.colorEntry []).Readable p.watches := by
    have hspacing : (Style.colorEntry []).spacing =
        [.blank ' ' isBlank_space, .blank ' ' isBlank_space] := rfl
    refine ⟨?_, by decide +kernel, ?_⟩
    · rw [hspacing]
      intro s hs
      rcases List.mem_pair.mp hs with rfl | rfl <;> exact Style.Spacing.quiet_blank isBlank_space
    · rw [hspacing]
      simp [Style.Spacing.comment?]
  have hx : x.Readable p.watches :=
    ⟨by simp [x, htop, hentry], by simp [x]⟩
  have htext : file.text = ['<', 'p', ' '] ++ (a.text ++ (x.text ++ "\x7d/>".toList)) := by
    decide +kernel
  have hbefore : ∀ c ∈ ['<', 'p', ' '].getLast?, ¬ isWordChar c := by
    rintro c ⟨⟩
    decide +kernel
  have hsites := (p.sites_writtenObject (by simp [p]) rfl rfl htext hbefore hx).2.1
  have hv : Style.sitesFrom p.watches (Text.size (['<', 'p', ' '] ++ a.text) + 1) x.entries =
      [v] := by decide +kernel
  rw [hv] at hsites
  exact ⟨by decide +kernel, by decide +kernel, hsites⟩

/-- A comment in front of the key `color` hides the entry, so nothing is found. -/
theorem DeclarationPattern.exists_entry_hidden : ∃ (p : DeclarationPattern) (file : Source)
    (before after : Text) (a : Style.Opening) (x : Style.WrittenObject),
      p.properties ≠ [] ∧ p.classes = [] ∧ file.kind = .script ∧
      file.text = before ++ (a.text ++ (x.text ++ after)) ∧
      (∀ c ∈ before.getLast?, ¬ isWordChar c) ∧
      (∃ e ∈ x.entries, p.watches e.property) ∧ p.sites file = [] := by
  let p : DeclarationPattern := ⟨["color"], [], none⟩
  let file := Source.ofText "a.tsx" "<p style=\x7b\x7b /*new*/color: 'red'\x7d\x7d/>".toList
  let x : Style.WrittenObject := ⟨[Style.colorEntry [Style.newComment]], none⟩
  have hsites : Style.unsortedSites p file = [] := by decide +kernel
  refine ⟨p, file, ['<', 'p', ' '], "\x7d/>".toList, ⟨[], [], [], by simp⟩, x, by simp [p], rfl,
    rfl, by decide +kernel, ?_, ⟨_, .head _, by decide +kernel⟩, ?_⟩
  · rintro c ⟨⟩
    decide +kernel
  · rw [DeclarationPattern.sites, hsites, List.mergeSort_nil]

end DesignLint
