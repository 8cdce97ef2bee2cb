import DesignLint.Proofs.Style.Inline
import DesignLint.Proofs.Text.Class
import DesignLint.Proofs.Written.Code

/-!
# Entries of style objects as they are written

An `Entry` is a key and a constant, with white space and comments around the key, the colon and the
constant. Its key is what precedes the first colon (`splitKey_append`), since nothing that the
readers of an object look for (`isMark`) stands outside of strings in front of it (`Free`). Where
the entry is readable, its value is found if its property is watched, and nothing is found otherwise
(`entrySite?_text`): comments may stand in it only if it is not watched, since they count as parts
of the key or of the value.
-/

namespace DesignLint.Style

/-- What may stand between two tokens of a script. -/
inductive Spacing
  | blank (c : Char) (h : isBlank c)
  | block (c : Markup.BlockComment)
  | line (inside : Text) (h : '\n' ∉ inside)

/-- The text of what stands between two tokens. -/
def Spacing.text : Spacing → Text
  | blank c _ => [c]
  | block c => c.text
  | line inside _ => '/' :: '/' :: (inside ++ ['\n'])

/-- What a comment says. -/
def Spacing.comment? : Spacing → Option Text
  | blank _ _ => none
  | block c => some c.inside
  | line inside _ => some inside

/-- White space and comments, one after the other. -/
def spacingText (ss : List Spacing) : Text := ss.flatMap Spacing.text

/-- A string on one line without quotes and escapes in it. -/
structure PlainString where
  quote : Char
  inside : Text
  isQuote : quote = '"' ∨ quote = '\''
  plain : ∀ c ∈ inside, c ∉ ['"', '\'', '\\', '\n']

/-- The text of a string with its quotes. -/
def PlainString.text (s : PlainString) : Text := s.quote :: (s.inside ++ [s.quote])

/-- A decimal number: digits with at most one point, and a minus sign in front of it or not. -/
structure Number where
  negative : Bool
  whole : Text
  fraction : Option Text
  isDigit : ∀ c ∈ whole ++ fraction.getD [], c.isDigit
  ne_nil : whole ++ fraction.getD [] ≠ []

/-- The digits of a number, with its point. -/
def Number.digits (n : Number) : Text := n.whole ++ n.fraction.elim [] ('.' :: ·)

/-- The text of a number. -/
def Number.text (n : Number) : Text := (if n.negative then ['-'] else []) ++ n.digits

/-- A key: an identifier or a quoted name. -/
inductive Key
  | identifier (name : Text) (hne : name ≠ []) (h : ∀ c ∈ name, Value.isNamePart c)
  | quoted (s : PlainString)

/-- The text of a key. -/
def Key.text : Key → Text
  | identifier name _ _ => name
  | quoted s => s.text

/-- What a key says. -/
def Key.name : Key → Text
  | identifier name _ _ => name
  | quoted s => s.inside

/-- The value of an entry: a string or a number. -/
inductive Constant
  | string (s : PlainString)
  | number (n : Number)

/-- The text of a constant. -/
def Constant.text : Constant → Text
  | string s => s.text
  | number n => n.text

/-- The place of a constant that starts at an offset: a string counts without its quotes. -/
def Constant.site (property : Text) (o : Nat) : Constant → ValueSite
  | string s => ⟨⟨o + 1, o + 1 + s.inside.size⟩, s.inside, property, .inlineString⟩
  | number n => ⟨⟨o, o + n.text.size⟩, n.text, property, .inlineNumber⟩

/-- A key and its value, and what stands around them. -/
structure Entry where
  lead : List Spacing
  key : Key
  afterKey : List Spacing
  beforeValue : List Spacing
  value : Constant
  trail : List Spacing

namespace Entry

/-- What stands in front of the colon of an entry. -/
def front (e : Entry) : Text := spacingText e.lead ++ (e.key.text ++ spacingText e.afterKey)

/-- What stands behind the colon of an entry. -/
def back (e : Entry) : Text := spacingText e.beforeValue ++ (e.value.text ++ spacingText e.trail)

/-- The text of an entry. -/
def text (e : Entry) : Text := e.front ++ ':' :: e.back

/-- The property that an entry gives a value to. -/
def property (e : Entry) : Text := Value.kebab e.key.name

/-- The white space and the comments of an entry. -/
def spacing (e : Entry) : List Spacing := e.lead ++ e.afterKey ++ e.beforeValue ++ e.trail

/-- The place of the value of an entry that starts at an offset. -/
def site (o : Nat) (e : Entry) : ValueSite :=
  e.value.site e.property (o + e.front.size + 1 + (spacingText e.beforeValue).size)

end Entry

/-- The characters that the readers of an object look for. -/
def isMark (c : Char) : Bool := ",:\"'\x60()[]\x7b\x7d".toList.contains c

/-- A comment that says nothing the readers of an object look for. -/
def Spacing.Quiet (s : Spacing) : Prop := ∀ us ∈ s.comment?, ∀ c ∈ us, ¬ isMark c

/-- An entry that is read as it is written. Its comments are not understood, so they have to be
quiet, and an entry with comments must not be watched; a slash in a watched property could stem from
a comment. A key that starts with dots would count as a spread. -/
structure Entry.Readable (watches : Text → Bool) (e : Entry) : Prop where
  quiet : ∀ s ∈ e.spacing, s.Quiet
  dots : watches e.property → ¬ "...".toList <+: e.key.name
  comments : (∃ s ∈ e.spacing, s.comment? ≠ none) →
    ¬ watches e.property ∧ ∀ property, watches property → '/' ∉ property

/-- A text in which no character with the property `p` stands outside of strings. -/
inductive Free (p : Char → Bool) : Text → Prop
  | nil : Free p []
  | char {c : Char} {us : Text} : ¬ p c → Free p us → Free p (c :: us)
  | string (s : PlainString) {us : Text} : Free p us → Free p (s.text ++ us)

/-! ### Texts without marks -/

section

variable {p q : Char → Bool} {us vs : Text}

theorem Free.append (hu : Free p us) (hv : Free p vs) : Free p (us ++ vs) := by
  induction hu with
  | nil => exact hv
  | char hc _ ih => exact .char hc ih
  | string s _ ih =>
    rw [List.append_assoc]
    exact .string s ih

theorem free_of_forall (h : ∀ c ∈ us, ¬ p c) : Free p us := by
  induction us with
  | nil => exact .nil
  | cons c us ih => exact .char (h c (by simp)) (ih fun d hd => h d (by simp [hd]))

theorem PlainString.free (s : PlainString) : Free p s.text := by
  have := Free.string (p := p) s .nil
  rwa [List.append_nil] at this

theorem Free.mono (hpq : ∀ c, q c → p c) (h : Free p us) : Free q us := by
  induction h with
  | nil => exact .nil
  | char hc _ ih => exact .char (fun hq => hc (hpq _ hq)) ih
  | string s _ ih => exact .string s ih

end

theorem mem_of_isMark {c : Char} (h : isMark c) : c ∈ ",:\"'\x60()[]\x7b\x7d".toList := by
  simpa [isMark] using h

theorem not_isMark_of_isNamePart {c : Char} (h : Value.isNamePart c) : ¬ isMark c := by
  have hmarks : ∀ d ∈ ",:\"'\x60()[]\x7b\x7d".toList, Value.isNamePart d = false :=
    List.all_iff_forall_prop.mp (by decide +kernel)
  intro hmark
  rw [hmarks c (mem_of_isMark hmark)] at h
  cases h

theorem not_isMark_of_isBlank {c : Char} (h : isBlank c) : ¬ isMark c := by
  have hmarks : ∀ d ∈ ",:\"'\x60()[]\x7b\x7d".toList, isBlank d = false :=
    List.all_iff_forall_prop.mp (by decide)
  intro hmark
  rw [hmarks c (mem_of_isMark hmark)] at h
  cases h

theorem not_isMark_of_isDigit {c : Char} (h : c.isDigit) : ¬ isMark c := by
  have hmarks : ∀ d ∈ ",:\"'\x60()[]\x7b\x7d".toList, d.isDigit = false :=
    List.all_iff_forall_prop.mp (by decide)
  intro hmark
  rw [hmarks c (mem_of_isMark hmark)] at h
  cases h

theorem Spacing.quiet_blank {c : Char} (h : isBlank c) : (Spacing.blank c h).Quiet := by
  rintro us ⟨⟩

theorem Spacing.Quiet.not_isMark {s : Spacing} (h : s.Quiet) : ∀ c ∈ s.text, ¬ isMark c := by
  have hslash : ¬ isMark '/' := by decide
  have hstar : ¬ isMark '*' := by decide
  have hbreak : ¬ isMark '\n' := by decide
  cases s with
  | blank c hc =>
    intro d hd
    rw [List.mem_singleton.mp hd]
    exact not_isMark_of_isBlank hc
  | block c =>
    have hinside : ∀ d ∈ c.inside, ¬ isMark d := h _ rfl
    intro d hd
    simp only [text, Markup.BlockComment.text, List.cons_append, List.mem_cons, List.mem_append,
      List.not_mem_nil, or_false] at hd
    rcases hd with rfl | rfl | hd | rfl | rfl
    exacts [hslash, hstar, hinside d hd, hstar, hslash]
  | line inside hline =>
    have hinside : ∀ d ∈ inside, ¬ isMark d := h _ rfl
    intro d hd
    simp only [text, List.mem_cons, List.mem_append, List.not_mem_nil, or_false] at hd
    rcases hd with rfl | rfl | hd | rfl
    exacts [hslash, hslash, hinside d hd, hbreak]

theorem not_isMark_of_mem_spacingText {ss : List Spacing} (h : ∀ s ∈ ss, s.Quiet) :
    ∀ c ∈ spacingText ss, ¬ isMark c := by
  intro c hc
  obtain ⟨s, hs, hcs⟩ := List.mem_flatMap.mp hc
  exact (h s hs).not_isMark c hcs

theorem Key.free (k : Key) : Free isMark k.text := by
  cases k with
  | identifier name hne h => exact free_of_forall fun c hc => not_isMark_of_isNamePart (h c hc)
  | quoted s => exact s.free

theorem Number.mem_digits {n : Number} {c : Char} (h : c ∈ n.digits) : c.isDigit ∨ c = '.' := by
  have hdigit := n.isDigit
  rw [digits, List.mem_append] at h
  rcases h with h | h
  · exact Or.inl (hdigit c (List.mem_append_left _ h))
  · cases hf : n.fraction with
    | none =>
      rw [hf] at h
      exact absurd h List.not_mem_nil
    | some ds =>
      rw [hf] at h hdigit
      rcases List.mem_cons.mp h with rfl | h
      · exact Or.inr rfl
      · exact Or.inl (hdigit c (List.mem_append_right _ h))

theorem Number.mem_text {n : Number} {c : Char} (h : c ∈ n.text) :
    c.isDigit ∨ c = '-' ∨ c = '.' := by
  rcases List.mem_append.mp h with h | h
  · split_ifs at h
    · exact Or.inr (Or.inl (List.mem_singleton.mp h))
    · exact absurd h List.not_mem_nil
  · exact (n.mem_digits h).imp_right Or.inr

theorem Number.not_isMark {n : Number} : ∀ c ∈ n.text, ¬ isMark c := by
  intro c hc
  rcases n.mem_text hc with h | rfl | rfl
  · exact not_isMark_of_isDigit h
  · decide
  · decide

theorem Constant.free (v : Constant) : Free isMark v.text := by
  cases v with
  | string s => exact s.free
  | number n => exact free_of_forall n.not_isMark

/-! ### Keys -/

section

variable {p : Char → Bool} {as us bs : Text}

theorem dropWhile_eq_self (h : ∀ c ∈ us.head?, ¬ p c) : us.dropWhile p = us := by
  cases us with
  | nil => rfl
  | cons c us => exact List.dropWhile_cons_of_neg (h c rfl)

theorem strip_append (ha : ∀ c ∈ as, p c) (hb : ∀ c ∈ bs, p c) (hhead : ∀ c ∈ us.head?, ¬ p c)
    (hlast : ∀ c ∈ us.getLast?, ¬ p c) :
    (((as ++ (us ++ bs)).dropWhile p).reverse.dropWhile p).reverse = us := by
  rw [List.dropWhile_append_of_pos ha]
  cases us with
  | nil => simp [List.dropWhile_eq_nil_iff.mpr hb]
  | cons c us =>
    rw [List.cons_append, List.dropWhile_cons_of_neg (hhead c rfl), ← List.cons_append,
      List.reverse_append, List.dropWhile_append_of_pos fun d hd => hb d (List.mem_reverse.mp hd),
      dropWhile_eq_self fun d hd => hlast d (by rwa [List.head?_reverse] at hd),
      List.reverse_reverse]

theorem mem_dropWhile {c : Char} (hc : c ∈ us) (hp : ¬ p c) : c ∈ us.dropWhile p := by
  rw [← List.takeWhile_append_dropWhile (p := p) (l := us)] at hc
  exact (List.mem_append.mp hc).resolve_left fun h => hp (List.mem_takeWhile_imp h)

end

theorem splitKey_inside {q : Char} {us : Text} (h : q ∉ us) (vs : Text) :
    splitKey (some q) (us ++ q :: vs) =
      (splitKey none vs).map fun p => (us ++ q :: p.1, p.2) := by
  induction us with
  | nil => simp [splitKey]
  | cons c us ih =>
    rw [List.mem_cons, not_or] at h
    have hc : ¬ c = q := Ne.symm h.1
    simp [splitKey, hc, ih h.2, Function.comp_def]

theorem nesting_of_not_isMark {c : Char} (h : ¬ isMark c) : nesting c = 0 := by
  unfold nesting
  split_ifs with h1 h2
  · refine absurd ?_ h
    simp only [Bool.or_eq_true, beq_iff_eq] at h1
    rcases h1 with (rfl | rfl) | rfl <;> rfl
  · refine absurd ?_ h
    simp only [Bool.or_eq_true, beq_iff_eq] at h2
    rcases h2 with (rfl | rfl) | rfl <;> rfl
  · rfl

theorem splitKey_cons {c : Char} (h : ¬ isMark c) (cs : Text) :
    splitKey none (c :: cs) = (splitKey none cs).map fun p => (c :: p.1, p.2) := by
  have hquote : (c == '"' || c == '\'') = false := by
    by_contra hq
    simp only [Bool.not_eq_false, Bool.or_eq_true, beq_iff_eq] at hq
    rcases hq with rfl | rfl <;> exact h rfl
  have hcolon : (c == ':') = false := by
    by_contra hq
    rw [Bool.not_eq_false, beq_iff_eq] at hq
    exact h (by rw [hq]; rfl)
  simp [splitKey, hquote, hcolon, nesting_of_not_isMark h]

/-- **The key of an entry is what precedes its colon.** -/
theorem splitKey_append {us : Text} (h : Free isMark us) (vs : Text) :
    splitKey none (us ++ ':' :: vs) = some (us, vs) := by
  induction h with
  | nil => simp [splitKey]
  | char hc _ ih => rw [List.cons_append, splitKey_cons hc, ih]; rfl
  | @string s us _ ih =>
    have hq : (s.quote == '"' || s.quote == '\'') = true := by
      rcases s.isQuote with h | h <;> simp [h]
    have hinside : s.quote ∉ s.inside := fun hmem => by
      have := s.plain _ hmem
      rcases s.isQuote with h | h <;> simp [h] at this
    rw [PlainString.text, List.cons_append, List.cons_append, List.append_assoc, List.append_assoc]
    simp [splitKey, hq, splitKey_inside hinside, ih]

theorem splitKey_eq_none {us : Text} (h : ∀ c ∈ us, ¬ isMark c) : splitKey none us = none := by
  induction us with
  | nil => rfl
  | cons c us ih => rw [splitKey_cons (h c (by simp)), ih fun d hd => h d (by simp [hd])]; rfl

/-! ### White space and comments -/

section

variable {ss : List Spacing}

theorem spacingText_append (ss ts : List Spacing) :
    spacingText (ss ++ ts) = spacingText ss ++ spacingText ts := List.flatMap_append

theorem isBlank_of_mem_spacingText (h : ∀ s ∈ ss, s.comment? = none) :
    ∀ c ∈ spacingText ss, isBlank c := by
  intro c hc
  obtain ⟨s, hs, hcs⟩ := List.mem_flatMap.mp hc
  cases s with
  | blank d hd => rwa [List.mem_singleton.mp hcs]
  | block d => cases h _ hs
  | line inside hline => cases h _ hs

theorem slash_mem_spacingText (h : ∃ s ∈ ss, s.comment? ≠ none) : '/' ∈ spacingText ss := by
  obtain ⟨s, hs, hcomment⟩ := h
  refine List.mem_flatMap.mpr ⟨s, hs, ?_⟩
  cases s with
  | blank c hc => exact absurd rfl hcomment
  | block c => exact .head _
  | line inside hline => exact .head _

end

/-! ### Bare keys -/

theorem not_isKeyQuote_of_isNamePart {c : Char} (h : Value.isNamePart c) : ¬ isKeyQuote c := by
  intro hq
  refine not_isMark_of_isNamePart h ?_
  simp only [isKeyQuote, Bool.or_eq_true, beq_iff_eq] at hq
  rcases hq with rfl | rfl <;> rfl

theorem not_isBlank_of_isNamePart {c : Char} (h : Value.isNamePart c) : ¬ isBlank c := by
  intro hb
  simp only [Value.isNamePart, not_isWordChar_of_isBlank hb, Bool.false_or, beq_iff_eq] at h
  rw [h] at hb
  exact absurd hb (by decide)

theorem PlainString.isKeyQuote_quote (s : PlainString) : isKeyQuote s.quote := by
  rcases s.isQuote with h | h <;> simp [h, isKeyQuote]

theorem PlainString.not_isKeyQuote (s : PlainString) : ∀ c ∈ s.inside, ¬ isKeyQuote c := by
  intro c hc hq
  have := s.plain c hc
  simp only [isKeyQuote, Bool.or_eq_true, beq_iff_eq] at hq
  rcases hq with rfl | rfl <;> simp at this

theorem PlainString.not_isBlank_quote (s : PlainString) : ¬ isBlank s.quote := by
  rcases s.isQuote with h | h <;> simp [h, isBlank]

theorem PlainString.ends (s : PlainString) :
    (∀ c ∈ s.text.head?, ¬ isBlank c) ∧ ∀ c ∈ s.text.getLast?, ¬ isBlank c := by
  constructor <;> intro c hc
  · obtain rfl : s.quote = c := by simpa [text] using hc
    exact s.not_isBlank_quote
  · rw [text, ← List.cons_append, List.getLast?_concat] at hc
    obtain rfl : s.quote = c := by simpa using hc
    exact s.not_isBlank_quote

theorem Key.ends (k : Key) :
    (∀ c ∈ k.text.head?, ¬ isBlank c) ∧ ∀ c ∈ k.text.getLast?, ¬ isBlank c := by
  cases k with
  | identifier name hne h =>
    exact ⟨fun c hc => not_isBlank_of_isNamePart (h c (List.mem_of_mem_head? hc)),
      fun c hc => not_isBlank_of_isNamePart (h c (List.mem_of_mem_getLast? hc))⟩
  | quoted s => exact s.ends

theorem bareKey_text (k : Key) {as bs : Text} (ha : ∀ c ∈ as, isBlank c)
    (hb : ∀ c ∈ bs, isBlank c) : bareKey (as ++ (k.text ++ bs)) = k.name := by
  have htrim : Text.trim (as ++ (k.text ++ bs)) = k.text := strip_append ha hb k.ends.1 k.ends.2
  simp only [bareKey, htrim]
  cases k with
  | identifier name hne h =>
    have hquote : ∀ c ∈ name, ¬ isKeyQuote c := fun c hc => not_isKeyQuote_of_isNamePart (h c hc)
    have hname : [] ++ (name ++ []) = name := by simp
    conv => lhs; rw [Key.text, ← hname]
    exact strip_append (by simp) (by simp) (fun c hc => hquote c (List.mem_of_mem_head? hc))
      fun c hc => hquote c (List.mem_of_mem_getLast? hc)
  | quoted s =>
    have hquotes : ∀ c ∈ [s.quote], isKeyQuote c := by simp [s.isKeyQuote_quote]
    exact strip_append hquotes hquotes
      (fun c hc => s.not_isKeyQuote c (List.mem_of_mem_head? hc))
      (fun c hc => s.not_isKeyQuote c (List.mem_of_mem_getLast? hc))

theorem mem_bareKey {c : Char} {key : Text} (hc : c ∈ key) (hb : ¬ isBlank c)
    (hq : ¬ isKeyQuote c) : c ∈ bareKey key := by
  have htrim : c ∈ Text.trim key := by
    rw [Text.trim, Text.trimEnd, List.mem_reverse]
    exact mem_dropWhile (List.mem_reverse.mpr (mem_dropWhile hc hb)) hb
  rw [bareKey, List.mem_reverse]
  exact mem_dropWhile (List.mem_reverse.mpr (mem_dropWhile htrim hq)) hq

/-! ### Constants -/

theorem PlainString.inlineContext? (s : PlainString) :
    inlineContext? s.text = some .inlineString := by
  have hq : (s.quote == '"' || s.quote == '\'') = true := by
    rcases s.isQuote with h | h <;> simp [h]
  have hinner : inner s.text = s.inside := by simp [inner, text]
  have hinside : s.quote ∉ s.inside := fun h => s.not_isKeyQuote _ h s.isKeyQuote_quote
  unfold Style.inlineContext?
  rw [hinner]
  simp [text, hq, hinside]

theorem isDecimalDigit_of_isDigit {c : Char} (h : c.isDigit) : isDecimalDigit c := by
  have hn : c.toNat < 128 := by
    simp only [Char.isDigit, ge_iff_le, UInt32.le_iff_toNat_le, Bool.and_eq_true,
      decide_eq_true_eq] at h
    exact Nat.lt_of_le_of_lt h.2 (by decide)
  simp [isDecimalDigit, hn, h]

theorem span_digits {ds rest : Text} (h : ∀ c ∈ ds, c.isDigit) (hrest : ∀ c ∈ rest.head?, c = '.') :
    (ds ++ rest).span isDecimalDigit = (ds, rest) := by
  have hds : ∀ c ∈ ds, isDecimalDigit c := fun c hc => isDecimalDigit_of_isDigit (h c hc)
  have hdot : isDecimalDigit '.' = false := by decide +kernel
  rw [List.span_eq_takeWhile_dropWhile, List.takeWhile_append_of_pos hds,
    List.dropWhile_append_of_pos hds]
  cases rest with
  | nil => simp
  | cons c rest =>
    obtain rfl := hrest c rfl
    simp [hdot]

theorem Number.takeNumber_digits (n : Number) : Value.takeNumber n.digits = some [] := by
  obtain ⟨negative, whole, fraction, h, hne⟩ := n
  have hwhole : ∀ c ∈ whole, c.isDigit := fun c hc => h c (List.mem_append_left _ hc)
  cases fraction with
  | none =>
    have hspan := span_digits hwhole (by simp : ∀ c ∈ [].head?, c = '.')
    simp only [digits, Option.elim, Value.takeNumber, hspan]
    cases whole with
    | nil => exact absurd rfl hne
    | cons c whole => rfl
  | some ds =>
    have hds : ∀ c ∈ ds, c.isDigit := fun c hc => h c (List.mem_append_right _ hc)
    have hspan := span_digits hwhole (by simp : ∀ c ∈ ('.' :: ds).head?, c = '.')
    have hbehind := span_digits hds (by simp : ∀ c ∈ [].head?, c = '.')
    rw [List.append_nil] at hbehind
    simp only [digits, Option.elim, Value.takeNumber, hspan]
    cases whole with
    | nil =>
      cases ds with
      | nil => exact absurd rfl hne
      | cons c ds =>
        simp only [hbehind]
    | cons c whole =>
      have hdrop : ds.dropWhile isDecimalDigit = [] :=
        List.dropWhile_eq_nil_iff.mpr fun c hc => isDecimalDigit_of_isDigit (hds c hc)
      simp [hdrop]

theorem Number.isNumber (n : Number) : Value.isNumber n.text := by
  have hsign : Value.dropMinus n.text = n.digits := by
    have hminus : '-' ∉ n.digits := fun h => by
      rcases n.mem_digits h with h | h <;> exact absurd h (by decide)
    cases hn : n.negative with
    | true => simp [text, hn, Value.dropMinus]
    | false =>
      simp only [text, hn, Bool.false_eq_true, if_false, List.nil_append]
      unfold Value.dropMinus
      split
      · next heq => exact absurd (by simp [heq]) hminus
      · rfl
  rw [Value.isNumber, hsign, n.takeNumber_digits]
  rfl

theorem Number.ends (n : Number) :
    n.text ≠ [] ∧ ∀ c ∈ n.text, ¬ isBlank c ∧ ¬ isKeyQuote c ∧ c ≠ Markup.backtick := by
  constructor
  · intro hnil
    have := n.isNumber
    rw [hnil] at this
    cases this
  · intro c hc
    rcases n.mem_text hc with h | rfl | rfl
    · refine ⟨fun hb => ?_, fun hq => not_isMark_of_isDigit h ?_, ?_⟩
      · have := not_isAlphanum_of_isBlank hb
        simp [Char.isAlphanum, h] at this
      · simp only [isKeyQuote, Bool.or_eq_true, beq_iff_eq] at hq
        rcases hq with rfl | rfl <;> rfl
      · rintro rfl
        exact absurd h (by decide)
    · decide
    · decide

theorem Number.inlineContext? (n : Number) : inlineContext? n.text = some .inlineNumber := by
  have hnumber := n.isNumber
  obtain ⟨hne, hends⟩ := n.ends
  generalize n.text = raw at *
  obtain ⟨c, cs, rfl⟩ := List.exists_cons_of_ne_nil hne
  obtain ⟨-, hquote, htick⟩ := hends c (by simp)
  have hq : (c == '"' || c == '\'') = false := by simpa [isKeyQuote] using hquote
  simp [Style.inlineContext?, hq, htick, hnumber]

theorem Constant.ends (v : Constant) : v.text ≠ [] ∧ (∀ c ∈ v.text.head?, ¬ isBlank c) ∧
    ∀ c ∈ v.text.getLast?, ¬ isBlank c := by
  cases v with
  | string s => exact ⟨List.cons_ne_nil _ _, s.ends⟩
  | number n => exact ⟨n.ends.1, fun c hc => (n.ends.2 c (List.mem_of_mem_head? hc)).1,
      fun c hc => (n.ends.2 c (List.mem_of_mem_getLast? hc)).1⟩

theorem Constant.inlineSite? (v : Constant) (property : Text) (o : Nat) :
    inlineSite? property o v.text = some (v.site property o) := by
  cases v with
  | string s =>
    have hq : s.quote.utf8Size = 1 := by rcases s.isQuote with h | h <;> rw [h] <;> rfl
    have hinner : inner s.text = s.inside := by simp [inner, PlainString.text]
    have hstop : o + s.text.size - 1 = o + 1 + s.inside.size := by
      simp only [PlainString.text, Text.size_cons, Text.size_append, Text.size_nil, hq]
      omega
    simp [Style.inlineSite?, text, s.inlineContext?, hinner, hstop, site]
  | number n => simp [Style.inlineSite?, text, n.inlineContext?, site]

/-! ### Entries -/

theorem Entry.front_free {e : Entry} (h : ∀ s ∈ e.spacing, s.Quiet) : Free isMark e.front := by
  have hlead : ∀ s ∈ e.lead, s.Quiet := fun s hs => h s (by simp [spacing, hs])
  have hafter : ∀ s ∈ e.afterKey, s.Quiet := fun s hs => h s (by simp [spacing, hs])
  exact (free_of_forall (not_isMark_of_mem_spacingText hlead)).append
    (e.key.free.append (free_of_forall (not_isMark_of_mem_spacingText hafter)))

/-- A comment in front of the colon is taken for a part of the key. -/
theorem Entry.slash_mem_kebab {e : Entry} (h : ∃ s ∈ e.lead ++ e.afterKey, s.comment? ≠ none) :
    '/' ∈ Value.kebab (bareKey e.front) := by
  have hslash := slash_mem_spacingText h
  have hfront : '/' ∈ e.front := by
    rw [spacingText_append, List.mem_append] at hslash
    rw [front, List.mem_append, List.mem_append]
    tauto
  exact List.mem_flatMap.mpr ⟨'/', mem_bareKey hfront (by decide) (by decide), by decide⟩

theorem Entry.read {e : Entry} (h : ∀ s ∈ e.spacing, s.comment? = none) :
    bareKey e.front = e.key.name ∧ e.back.takeWhile isBlank = spacingText e.beforeValue ∧
      Text.trim e.back = e.value.text := by
  have hblank : ∀ ss : List Spacing, (∀ s ∈ ss, s ∈ e.spacing) → ∀ c ∈ spacingText ss, isBlank c :=
    fun ss hss => isBlank_of_mem_spacingText fun s hs => h s (hss s hs)
  have hlead := hblank e.lead fun s hs => by simp [spacing, hs]
  have hafter := hblank e.afterKey fun s hs => by simp [spacing, hs]
  have hbefore := hblank e.beforeValue fun s hs => by simp [spacing, hs]
  have htrail := hblank e.trail fun s hs => by simp [spacing, hs]
  obtain ⟨hne, hhead, hlast⟩ := e.value.ends
  refine ⟨bareKey_text e.key hlead hafter, ?_, strip_append hbefore htrail hhead hlast⟩
  obtain ⟨c, cs, hcs⟩ := List.exists_cons_of_ne_nil hne
  rw [back, List.takeWhile_append_of_pos hbefore, hcs, List.cons_append,
    List.takeWhile_cons_of_neg (hhead c (by rw [hcs]; rfl)), List.append_nil]

/-- **The value of a readable entry is found if its property is watched**, and nothing is found
otherwise. -/
theorem Entry.entrySite?_text {watches : Text → Bool} {e : Entry} (h : e.Readable watches)
    (o : Nat) :
    entrySite? watches o e.text = if watches e.property then some (e.site o) else none := by
  have hsplit : splitKey none e.text = some (e.front, e.back) :=
    splitKey_append (front_free h.quiet) _
  by_cases hcomments : ∃ s ∈ e.spacing, s.comment? ≠ none
  · -- the entry is not watched, and a comment in its key only adds a slash, which no property has
    obtain ⟨hwatch, hslash⟩ := h.comments hcomments
    have hkey : watches (Value.kebab (bareKey e.front)) = false := by
      by_cases hfront : ∃ s ∈ e.lead ++ e.afterKey, s.comment? ≠ none
      · exact Bool.eq_false_iff.mpr fun hw => hslash _ hw (e.slash_mem_kebab hfront)
      · push Not at hfront
        have hlead := isBlank_of_mem_spacingText fun s hs => hfront s (List.mem_append_left _ hs)
        have hafter := isBlank_of_mem_spacingText fun s hs => hfront s (List.mem_append_right _ hs)
        rw [front, bareKey_text e.key hlead hafter]
        exact Bool.eq_false_iff.mpr hwatch
    simp [entrySite?, hsplit, hkey, hwatch]
  · push Not at hcomments
    obtain ⟨hkey, hlead, hraw⟩ := e.read hcomments
    by_cases hwatch : watches e.property
    · have hdots : ['.', '.', '.'].isPrefixOf e.key.name = false := by
        rw [Bool.eq_false_iff, ne_eq, List.isPrefixOf_iff_prefix]
        exact h.dots hwatch
      rw [property] at hwatch
      simp [entrySite?, hsplit, hkey, hlead, hraw, hdots, hwatch, e.value.ends.1,
        e.value.inlineSite?, site, property]
    · rw [property] at hwatch
      simp [entrySite?, hsplit, hkey, hwatch, property]

end DesignLint.Style
