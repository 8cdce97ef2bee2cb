import DesignLint.Proofs.Rescan.Declaration
import DesignLint.Proofs.Style.BlockComment
import DesignLint.Proofs.Written.Code

/-!
# Style sheets as they are written

A `WrittenSheet` is a list of blocks, each with a selector and declarations, and with white space
and comments around them. Comments are what the mask of a sheet covers, and all else it shows
(`maskComments_text`), so a sheet and its mask are rendered alike, up to what stands for the
comments (`WrittenSheet.render`).
-/

namespace DesignLint.Style

/-- What may stand between declarations. -/
inductive SheetSpacing
  | blank (c : Char) (h : isBlank c)
  | comment (c : Markup.BlockComment)

namespace SheetSpacing

/-- White space or a comment as it is written. -/
def text : SheetSpacing → Text
  | blank c _ => [c]
  | comment c => c.text

/-- White space, or what covers a comment. -/
def mask : SheetSpacing → Text
  | blank c _ => [c]
  | comment c => coverAll ' ' c.text

end SheetSpacing

/-- A property with its value, up to the semicolon. -/
structure WrittenDeclaration where
  name : Text
  beforeColon : Text
  pad : Text
  value : Text
  behindValue : Text
  /-- A spelling of `!important`, or nothing. -/
  importance : Text
  beforeEnd : Text
  name_ne_nil : name ≠ []
  name_letters : ∀ c ∈ name, c.isAlpha ∨ c = '-'
  isBlank : ∀ c ∈ beforeColon ++ behindValue ++ beforeEnd, isBlank c
  isPad : ∀ c ∈ pad, isPad c
  value_ne_nil : value ≠ []
  value_plain : ∀ c ∈ value, c ∉ [';', '\x7b', '\x7d', '/', '!', '\n']
  trim_value : Text.trim value = value
  importance_eq : importance = [] ∨ Text.lower importance = "!important".toList

namespace WrittenDeclaration

/-- What stands in front of the value of a declaration. -/
def front (d : WrittenDeclaration) : Text := d.name ++ (d.beforeColon ++ ':' :: d.pad)

/-- What stands behind the value of a declaration. -/
def tail (d : WrittenDeclaration) : Text :=
  d.behindValue ++ (d.importance ++ (d.beforeEnd ++ [';']))

/-- The text of a declaration. -/
def text (d : WrittenDeclaration) : Text := d.front ++ (d.value ++ d.tail)

/-- The property of a declaration, in lower case. -/
def property (d : WrittenDeclaration) : Text := Text.lower d.name

/-- The place of the value of a declaration that starts at an offset. -/
def site (o : Nat) (d : WrittenDeclaration) : ValueSite :=
  ⟨⟨o + d.front.size, o + d.front.size + d.value.size⟩, d.value, d.property, .declaration⟩

end WrittenDeclaration

/-- What stands in front of the braces of a block: no colon, and nothing that starts a comment. -/
structure Selector where
  text : Text
  not_mem : ':' ∉ text
  block : ¬ ['/', '*'] <:+: text
  line : ∀ as bs cs, text = as ++ (bs ++ '/' :: '/' :: cs) → (∀ c ∈ as.getLast?, c = '\n') →
    ∃ c ∈ bs, ¬ isTagBlank c

/-- Declarations in braces, each with what stands in front of it. -/
structure Block where
  lead : List SheetSpacing
  selector : Selector
  declarations : List (List SheetSpacing × WrittenDeclaration)
  trail : List SheetSpacing

/-- Blocks, and what stands behind the last of them. -/
structure WrittenSheet where
  blocks : List Block
  trail : List SheetSpacing

section

variable (f : SheetSpacing → Text)

/-- A declaration with what stands in front of it; `f` says what stands for white space and
comments. -/
def renderDeclaration (d : List SheetSpacing × WrittenDeclaration) : Text :=
  d.1.flatMap f ++ d.2.text

/-- The text in front of the declarations of a block. -/
def Block.renderFront (b : Block) : Text := b.lead.flatMap f ++ (b.selector.text ++ ['\x7b'])

/-- The text of a block. -/
def Block.render (b : Block) : Text :=
  b.renderFront f ++
    (b.declarations.flatMap (renderDeclaration f) ++ (b.trail.flatMap f ++ ['\x7d']))

/-- The text of a sheet. -/
def WrittenSheet.render (x : WrittenSheet) : Text :=
  x.blocks.flatMap (Block.render f) ++ x.trail.flatMap f

end

/-- The text of a sheet, with its comments. -/
def WrittenSheet.text (x : WrittenSheet) : Text := x.render SheetSpacing.text

/-! ### What a mask shows -/

/-- Outside of comments, `ms` is shown of a text, and behind it comments are read as elsewhere. -/
def Shows (us ms : Text) : Prop := ∀ fresh rest, ∃ fresh',
  maskComments (.code fresh) (us ++ rest) = ms ++ maskComments (.code fresh') rest

namespace Shows

theorem nil : Shows [] [] := fun fresh _ => ⟨fresh, rfl⟩

theorem append {us vs ms ns : Text} (hu : Shows us ms) (hv : Shows vs ns) :
    Shows (us ++ vs) (ms ++ ns) := by
  intro fresh rest
  obtain ⟨fresh', hus⟩ := hu fresh (vs ++ rest)
  obtain ⟨fresh'', hvs⟩ := hv fresh' rest
  exact ⟨fresh'', by rw [List.append_assoc, hus, hvs, List.append_assoc]⟩

theorem flatMap {α : Type} {xs : List α} {f g : α → Text} (h : ∀ x ∈ xs, Shows (f x) (g x)) :
    Shows (xs.flatMap f) (xs.flatMap g) := by
  induction xs with
  | nil => exact nil
  | cons x xs ih =>
    rw [List.flatMap_cons, List.flatMap_cons]
    exact (h x (by simp)).append (ih fun y hy => h y (by simp [hy]))

theorem char {c : Char} (hc : c ≠ '/') : Shows [c] [c] := by
  intro fresh rest
  cases rest with
  | nil => exact ⟨fresh, by simp [maskComments]⟩
  | cons d rest => exact ⟨staysFresh fresh c, by simp [maskComments, hc]⟩

theorem of_not_mem {us : Text} (h : '/' ∉ us) : Shows us us := by
  induction us with
  | nil => exact nil
  | cons c us ih =>
    rw [List.mem_cons, not_or] at h
    exact (char (Ne.symm h.1)).append (ih h.2)

end Shows

theorem maskComments_inside {us : Text} (h : ¬ ['*', '/'] <:+: us ++ ['*']) (fresh : Bool)
    (rest : Text) : ∃ fresh', maskComments (.block fresh) (us ++ '*' :: '/' :: rest) =
      coverAll ' ' us ++ ' ' :: ' ' :: maskComments (.code fresh') rest := by
  induction us generalizing fresh with
  | nil => exact ⟨fresh, by simp [maskComments, coverAll]⟩
  | cons c us ih =>
    have htail : ¬ ['*', '/'] <:+: us ++ ['*'] := fun hi => h (hi.trans ⟨[c], [], by simp⟩)
    obtain ⟨fresh', hfresh'⟩ := ih htail (fresh || c == '\n')
    refine ⟨fresh', ?_⟩
    obtain ⟨d, ds, hds, hd⟩ : ∃ d ds, us ++ '*' :: '/' :: rest = d :: ds ∧
        ∃ ds', us ++ ['*'] = d :: ds' := by
      cases us with
      | nil => exact ⟨'*', '/' :: rest, rfl, [], rfl⟩
      | cons d us => exact ⟨d, us ++ '*' :: '/' :: rest, rfl, us ++ ['*'], rfl⟩
    have hend : ¬ (c = '*' ∧ d = '/') := by
      rintro ⟨rfl, rfl⟩
      obtain ⟨ds', hds'⟩ := hd
      exact h ⟨[], ds', by rw [List.cons_append, hds']; rfl⟩
    rw [List.cons_append, hds, maskComments, if_neg (by simpa using hend), ← hds, hfresh']
    simp [coverAll]

theorem SheetSpacing.shows (s : SheetSpacing) : Shows s.text s.mask := by
  cases s with
  | blank c hc =>
    refine .char ?_
    rintro rfl
    exact absurd hc (by decide)
  | comment c =>
    intro fresh rest
    obtain ⟨fresh', hinside⟩ := maskComments_inside c.closed fresh rest
    refine ⟨fresh', ?_⟩
    have hslash : cover ' ' '/' = [' '] := by decide
    have hstar : cover ' ' '*' = [' '] := by decide
    simp [text, mask, Markup.BlockComment.text, maskComments, hinside, coverAll, hslash, hstar]

theorem shows_brace {us : Text} (hblock : ¬ ['/', '*'] <:+: us)
    (hline : ∀ as bs cs, us = as ++ '\n' :: (bs ++ '/' :: '/' :: cs) → ∃ c ∈ bs, ¬ isTagBlank c)
    (fresh : Bool)
    (hstart : fresh = true → ∀ bs cs, us = bs ++ '/' :: '/' :: cs → ∃ c ∈ bs, ¬ isTagBlank c)
    (rest : Text) : ∃ fresh', maskComments (.code fresh) (us ++ '\x7b' :: rest) =
      us ++ '\x7b' :: maskComments (.code fresh') rest := by
  induction us generalizing fresh with
  | nil =>
    obtain ⟨fresh', h⟩ := Shows.char (c := '\x7b') (by decide) fresh rest
    exact ⟨fresh', h⟩
  | cons c us ih =>
    have hstays : staysFresh fresh c = true → ∀ bs cs, us = bs ++ '/' :: '/' :: cs →
        ∃ d ∈ bs, ¬ isTagBlank d := by
      rintro hfresh bs cs rfl
      simp only [staysFresh, Bool.or_eq_true, Bool.and_eq_true, beq_iff_eq] at hfresh
      rcases hfresh with rfl | ⟨hfresh, hblank⟩
      · exact hline [] bs cs rfl
      · obtain ⟨d, hd, hnot⟩ := hstart hfresh (c :: bs) cs rfl
        rcases List.mem_cons.mp hd with rfl | hd
        · exact absurd hblank hnot
        · exact ⟨d, hd, hnot⟩
    obtain ⟨fresh', hrest⟩ := ih (fun hi => hblock (hi.trans ⟨[c], [], by simp⟩))
      (fun as bs cs h => hline (c :: as) bs cs (by rw [h]; rfl)) (staysFresh fresh c) hstays
    refine ⟨fresh', ?_⟩
    -- no comment starts here: its mark would be in the text, or end with the brace
    have hmark : ∀ d, (us ++ '\x7b' :: rest).head? = some d →
        ¬ (c = '/' ∧ d = '*') ∧ ¬ (c = '/' ∧ d = '/' ∧ fresh = true) := by
      intro d hd
      cases us with
      | nil =>
        obtain rfl : '\x7b' = d := by simpa using hd
        exact ⟨by simp, by simp⟩
      | cons e us =>
        obtain rfl : e = d := by simpa using hd
        refine ⟨?_, ?_⟩
        · rintro ⟨rfl, rfl⟩
          exact hblock ⟨[], us, rfl⟩
        · rintro ⟨rfl, rfl, hfresh⟩
          obtain ⟨d, hd, -⟩ := hstart hfresh [] us rfl
          exact absurd hd List.not_mem_nil
    obtain ⟨d, ds, hds⟩ : ∃ d ds, us ++ '\x7b' :: rest = d :: ds :=
      List.exists_cons_of_ne_nil (by simp)
    obtain ⟨hopen, hslashes⟩ := hmark d (by rw [hds]; rfl)
    rw [List.cons_append, hds, maskComments, if_neg (by simpa using hopen),
      if_neg (by simpa [and_assoc] using hslashes), ← hds, hrest]
    rfl

theorem Selector.shows (s : Selector) : Shows (s.text ++ ['\x7b']) (s.text ++ ['\x7b']) := by
  intro fresh rest
  have h := shows_brace s.block
    (fun as bs cs h => s.line (as ++ ['\n']) bs cs (by simp [h]) (by simp)) fresh
    (fun _ bs cs h => s.line [] bs cs h (by simp)) rest
  simpa using h

/-! ### Declarations and blocks -/

theorem mem_lower_important {c : Char} {us : Text}
    (h : us = [] ∨ Text.lower us = "!important".toList) (hc : c ∈ us) :
    c.toLower ∈ "!important".toList := by
  rcases h with rfl | h
  · exact absurd hc List.not_mem_nil
  · rw [← h]
    exact List.mem_map_of_mem hc

theorem WrittenDeclaration.slash_not_mem (d : WrittenDeclaration) : '/' ∉ d.text := by
  have hblank : ∀ us : Text, (∀ c ∈ us, DesignLint.isBlank c) → '/' ∉ us := fun us h hmem =>
    absurd (h '/' hmem) (by decide)
  have hblanks := d.isBlank
  simp only [List.mem_append] at hblanks
  have hname : '/' ∉ d.name := fun h => by
    rcases d.name_letters _ h with h | h <;> exact absurd h (by decide)
  have hpad : '/' ∉ d.pad := fun h => absurd (d.isPad _ h) (by decide)
  have hvalue : '/' ∉ d.value := fun h => absurd (d.value_plain _ h) (by decide)
  have himportance : '/' ∉ d.importance := fun h =>
    absurd (mem_lower_important d.importance_eq h) (by decide)
  have hcolon := hblank d.beforeColon fun c hc => hblanks c (Or.inl (Or.inl hc))
  have hbehind := hblank d.behindValue fun c hc => hblanks c (Or.inl (Or.inr hc))
  have hend := hblank d.beforeEnd fun c hc => hblanks c (Or.inr hc)
  simp [text, front, tail, hname, hpad, hvalue, himportance, hcolon, hbehind, hend]

theorem shows_flatMap (ss : List SheetSpacing) :
    Shows (ss.flatMap SheetSpacing.text) (ss.flatMap SheetSpacing.mask) :=
  .flatMap fun s _ => s.shows

theorem Block.shows (b : Block) :
    Shows (b.render SheetSpacing.text) (b.render SheetSpacing.mask) := by
  have hdeclarations : Shows (b.declarations.flatMap (renderDeclaration SheetSpacing.text))
      (b.declarations.flatMap (renderDeclaration SheetSpacing.mask)) :=
    .flatMap fun d _ => (shows_flatMap d.1).append (.of_not_mem d.2.slash_not_mem)
  exact ((shows_flatMap b.lead).append b.selector.shows).append
    (hdeclarations.append ((shows_flatMap b.trail).append (.char (by decide))))

/-- **The mask of a sheet is the sheet with its comments covered.** -/
theorem maskComments_text (x : WrittenSheet) :
    maskComments (.code true) x.text = x.render SheetSpacing.mask := by
  have hblocks : Shows (x.blocks.flatMap (Block.render SheetSpacing.text))
      (x.blocks.flatMap (Block.render SheetSpacing.mask)) := .flatMap fun b _ => b.shows
  obtain ⟨fresh, h⟩ := (hblocks.append (shows_flatMap x.trail)) true []
  rw [List.append_nil] at h
  rw [WrittenSheet.text, WrittenSheet.render, h]
  exact List.append_nil _

/-! ### What stands for comments -/

theorem isBlank_of_mem_mask {ss : List SheetSpacing} {c : Char}
    (h : c ∈ ss.flatMap SheetSpacing.mask) : isBlank c := by
  obtain ⟨s, -, hc⟩ := List.mem_flatMap.mp h
  cases s with
  | blank d hd => rwa [List.mem_singleton.mp hc]
  | comment d =>
    obtain ⟨e, -, he⟩ := List.mem_flatMap.mp hc
    rcases eq_of_mem_cover he with rfl | rfl <;> decide

theorem size_mask (ss : List SheetSpacing) :
    Text.size (ss.flatMap SheetSpacing.mask) = Text.size (ss.flatMap SheetSpacing.text) := by
  induction ss with
  | nil => rfl
  | cons s ss ih =>
    have hs : s.mask.size = s.text.size := by
      cases s with
      | blank c hc => rfl
      | comment c =>
        simp only [SheetSpacing.mask, SheetSpacing.text, coverAll]
        induction c.text with
        | nil => rfl
        | cons d ds ih => rw [List.flatMap_cons, Text.size_append, size_cover, ih, Text.size_cons]
    rw [List.flatMap_cons, List.flatMap_cons, Text.size_append, Text.size_append, hs, ih]

end DesignLint.Style
