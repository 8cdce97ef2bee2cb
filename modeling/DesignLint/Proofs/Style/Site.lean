import DesignLint.Proofs.Text.Blank
import DesignLint.Proofs.Text.Place
import DesignLint.Style.Site
import DesignLint.Value
import Mathlib.Data.List.Induction

/-!
# Where values are

A value is on a text if its span is and if it is what the text says there, spaces written as
underscores in a class name apart (`ValueSite.On`). It is framed if a break stands in front of it
and another one behind it, or the text ends there, spaces in between apart (`ValueSite.Framed`); a
closing bracket ends utility classes only. What is framed in a part of a text is framed in the text
if the part itself stands between breaks (`ValueSite.Framed.lift`). A part that breaks nowhere
(`Text.Unbroken`) is in a framed value as a whole, or not at all (`ValueSite.Framed.covers`).
-/

namespace DesignLint

/-- Characters that separate values from what stands around them. -/
def isDelimiter (c : Char) : Bool := isBlank c || ":;,!/$'\"\x60[]\x7b\x7d".toList.contains c

/-- Delimiters at which values start and end: a space in itself is none, since it can stand in the
middle of a value, and neither is the dollar sign, which starts interpolations. -/
def isBreak (c : Char) : Bool := isDelimiter c && c != ' ' && c != '$'

/-- An offset at the start of a text or behind a break, up to spaces. -/
def Text.LeftEdge (cs : Text) (n : Nat) : Prop :=
  ∃ as gap bs, cs = as ++ (gap ++ bs) ∧ Text.size (as ++ gap) = n ∧ (∀ c ∈ gap, c = ' ') ∧
    ∀ c ∈ as.getLast?, isBreak c

/-- Whether a value can end in front of a character; only a utility class is closed by a bracket. -/
def ValueContext.ends (x : ValueContext) (c : Char) : Bool :=
  isBreak c && (x == .className || c != ']')

/-- An offset at the end of a text or in front of a character that ends a value, up to spaces. -/
def Text.RightEdge (x : ValueContext) (cs : Text) (n : Nat) : Prop :=
  ∃ as gap bs, cs = as ++ (gap ++ bs) ∧ Text.size as = n ∧ (∀ c ∈ gap, c = ' ') ∧
    ∀ c ∈ bs.head?, x.ends c

/-- What is read where a value is written. -/
def ValueContext.read : ValueContext → Text → Text
  | .className, cs => Value.ofClassName cs
  | _, cs => cs

/-- A value that stands in a text where it says. -/
structure ValueSite.On (cs : Text) (v : ValueSite) : Prop where
  span : v.span.On cs
  value_eq : v.value = v.context.read (cs.slice v.span)

/-- A value between breaks. -/
def ValueSite.Framed (cs : Text) (v : ValueSite) : Prop :=
  cs.LeftEdge v.span.start ∧ cs.RightEdge v.context v.span.stop

/-- A text that no value starts or ends inside of. -/
structure Text.Unbroken (cs : Text) : Prop where
  ne_nil : cs ≠ []
  not_isBreak : ∀ c ∈ cs, ¬ isBreak c
  trim_eq : cs.trim = cs

/-! ### Breaks -/

theorem isDelimiter_of_isBreak {c : Char} (h : isBreak c) : isDelimiter c := by
  simp only [isBreak, Bool.and_eq_true] at h
  exact h.1.1

theorem isBreak_of_isBlank {c : Char} (h : isBlank c) (hne : c ≠ ' ') : isBreak c := by
  have hd : c ≠ '$' := by
    rintro rfl
    exact absurd h (by decide)
  simp [isBreak, isDelimiter, h, hne, hd]

theorem not_isBlank_of_not_isBreak {c : Char} (h : ¬ isBreak c) (hne : c ≠ ' ') : ¬ isBlank c :=
  fun hb => h (isBreak_of_isBlank hb hne)

theorem ValueContext.isBreak_of_ends {x : ValueContext} {c : Char} (h : x.ends c) : isBreak c := by
  rw [ends, Bool.and_eq_true] at h
  exact h.1

theorem ValueContext.ends_of_isBreak {x : ValueContext} {c : Char} (h : isBreak c) (hne : c ≠ ']') :
    x.ends c := by
  simp [ends, h, hne]

/-! ### Edges -/

section

variable {as bs ws : Text} {x : ValueContext}

theorem Text.LeftEdge.of_getLast? (h : ∀ c ∈ as.getLast?, isBreak c) (bs : Text) :
    Text.LeftEdge (as ++ bs) as.size :=
  ⟨as, [], bs, rfl, by simp, by simp, h⟩

theorem Text.RightEdge.of_head? (as : Text) (h : ∀ c ∈ bs.head?, x.ends c) :
    Text.RightEdge x (as ++ bs) as.size :=
  ⟨as, [], bs, rfl, rfl, by simp, h⟩

/-- Behind a character of some kind, and spaces or characters of that kind, there is such a
character, up to spaces. -/
theorem Text.exists_behind {p : Char → Prop} (has : ∃ c ∈ as.getLast?, p c)
    (hw : ∀ c ∈ ws, c = ' ' ∨ p c) :
    ∃ us gap, as ++ ws = us ++ gap ∧ (∀ c ∈ gap, c = ' ') ∧ ∃ c ∈ us.getLast?, p c := by
  induction ws using List.reverseRecOn with
  | nil => exact ⟨as, [], rfl, by simp, has⟩
  | append_singleton ws w ih =>
    rcases hw w (by simp) with hs | hp
    · obtain ⟨us, gap, hus, hgap, hbehind⟩ := ih fun c hc => hw c (by simp [hc])
      refine ⟨us, gap ++ [w], by rw [← List.append_assoc, hus, List.append_assoc], fun c hc => ?_,
        hbehind⟩
      rcases List.mem_append.mp hc with hc | hc
      · exact hgap c hc
      · rw [List.mem_singleton.mp hc, hs]
    · refine ⟨as ++ (ws ++ [w]), [], (List.append_nil _).symm, by simp, w, ?_, hp⟩
      rw [← List.append_assoc, List.getLast?_concat]
      rfl

theorem Text.exists_break (has : ∃ c ∈ as.getLast?, isBreak c ∧ c ≠ '/')
    (hw : ∀ c ∈ ws, isBlank c) :
    ∃ us gap, as ++ ws = us ++ gap ∧ (∀ c ∈ gap, c = ' ') ∧
      ∃ c ∈ us.getLast?, isBreak c ∧ c ≠ '/' := by
  refine exists_behind has fun w hmem => ?_
  by_cases hs : w = ' '
  · exact Or.inl hs
  · refine Or.inr ⟨isBreak_of_isBlank (hw w hmem) hs, ?_⟩
    rintro rfl
    exact absurd (hw '/' hmem) (by decide)

theorem Text.exists_end (hw : ∀ c ∈ ws, isBlank c) (h : ∀ c ∈ bs.head?, x.ends c) :
    ∃ gap ds, ws ++ bs = gap ++ ds ∧ (∀ c ∈ gap, c = ' ') ∧ ∀ c ∈ ds.head?, x.ends c := by
  induction ws with
  | nil => exact ⟨[], bs, rfl, by simp, h⟩
  | cons w ws ih =>
    have hwb : isBlank w := hw w (by simp)
    by_cases hs : w = ' '
    · obtain ⟨gap, ds, hds, hgap, hend⟩ := ih fun c hc => hw c (by simp [hc])
      refine ⟨w :: gap, ds, by rw [List.cons_append, hds, List.cons_append], fun c hc => ?_, hend⟩
      rcases List.mem_cons.mp hc with rfl | hc
      · exact hs
      · exact hgap c hc
    · refine ⟨[], w :: (ws ++ bs), rfl, by simp, fun c hc => ?_⟩
      obtain rfl : w = c := by simpa using hc
      refine ValueContext.ends_of_isBreak (isBreak_of_isBlank hwb hs) ?_
      rintro rfl
      exact absurd hwb (by decide)

theorem Text.LeftEdge.of_blanks (has : ∃ c ∈ as.getLast?, isBreak c ∧ c ≠ '/')
    (hw : ∀ c ∈ ws, isBlank c) (bs : Text) : Text.LeftEdge (as ++ ws ++ bs) (as ++ ws).size := by
  obtain ⟨us, gap, hus, hgap, b, hb, hbreak, -⟩ := exists_break has hw
  refine ⟨us, gap, bs, by rw [hus, List.append_assoc], by rw [hus], hgap, fun c hc => ?_⟩
  obtain rfl := Option.some.inj (hb.symm.trans hc)
  exact hbreak

theorem Text.RightEdge.of_blanks (as : Text) (hw : ∀ c ∈ ws, isBlank c)
    (h : ∀ c ∈ bs.head?, x.ends c) : Text.RightEdge x (as ++ (ws ++ bs)) as.size := by
  obtain ⟨gap, ds, hds, hgap, hend⟩ := exists_end hw h
  exact ⟨as, gap, ds, by rw [hds], rfl, hgap, hend⟩

end

theorem Text.LeftEdge.boundary {cs : Text} {n : Nat} (h : cs.LeftEdge n) : cs.Boundary n := by
  obtain ⟨as, gap, bs, rfl, hn, -⟩ := h
  exact ⟨as ++ gap, bs, (List.append_assoc _ _ _).symm, hn⟩

theorem Text.RightEdge.boundary {x : ValueContext} {cs : Text} {n : Nat} (h : cs.RightEdge x n) :
    cs.Boundary n := by
  obtain ⟨as, gap, bs, rfl, hn, -⟩ := h
  exact ⟨as, gap ++ bs, rfl, hn⟩

theorem Text.RightEdge.eq_className {x : ValueContext} {as bs : Text}
    (h : Text.RightEdge x (as ++ ']' :: bs) as.size) : x = .className := by
  obtain ⟨us, gap, vs, hcs, hsize, hgap, hend⟩ := h
  obtain ⟨-, hrest⟩ := append_inj_size hcs hsize.symm
  cases gap with
  | nil =>
    have := hend ']' (by rw [← List.nil_append vs, ← hrest]; rfl)
    rw [ValueContext.ends, Bool.and_eq_true, Bool.or_eq_true, beq_iff_eq] at this
    exact this.2.resolve_right (by decide)
  | cons d gap =>
    rw [List.cons_append, List.cons.injEq] at hrest
    exact absurd (hrest.1.trans (hgap d (by simp))) (by decide)

/-! ### Texts without breaks -/

namespace Text.Unbroken

variable {core : Text}

theorem of_not_isBlank (hne : core ≠ []) (h : ∀ c ∈ core, ¬ isBreak c)
    (hb : ∀ c ∈ core, ¬ isBlank c) : core.Unbroken :=
  ⟨hne, h, trim_eq_self hb⟩

theorem not_isBlank_head (h : core.Unbroken) : ∀ c ∈ core.head?, ¬ isBlank c := by
  obtain ⟨bs, -, -, hhead, -⟩ := exists_trim core
  rwa [h.trim_eq] at hhead

theorem not_isBlank_getLast (h : core.Unbroken) : ∀ c ∈ core.getLast?, ¬ isBlank c := by
  obtain ⟨bs, -, -, -, hlast⟩ := exists_trim core
  rwa [h.trim_eq] at hlast

end Text.Unbroken

section

variable {as core bs : Text} {n : Nat}

/-- Inside an unbroken part, and at its end, no value starts. -/
theorem Text.LeftEdge.outside (h : Text.LeftEdge (as ++ core ++ bs) n) (hcore : core.Unbroken) :
    n ≤ as.size ∨ as.size + core.size < n := by
  obtain ⟨us, gap, vs, hcs, rfl, hgap, hlast⟩ := h
  by_contra hn
  obtain ⟨hlt, hle⟩ : as.size < (us ++ gap).size ∧ (us ++ gap).size ≤ as.size + core.size := by
    omega
  rw [List.append_assoc, ← List.append_assoc us] at hcs
  obtain ⟨ws, hws, hrest⟩ := append_of_size_le hcs (Nat.le_of_lt hlt)
  rw [hws, size_append] at hlt hle
  obtain ⟨xs, rfl, -⟩ := append_of_size_le hrest.symm (by omega)
  -- the part of `core` in front of the edge starts with no space, so it ends with a break
  cases ws with
  | nil => simp at hlt
  | cons w ws =>
    have hw : w ≠ ' ' := by
      rintro rfl
      exact hcore.not_isBlank_head ' ' (by simp) (by decide)
    rcases List.append_eq_append_iff.mp hws with ⟨ys, -, hys⟩ | ⟨ys, rfl, hys⟩
    · exact hw (hgap w (by rw [hys]; simp))
    · cases ys with
      | nil => exact hw (hgap w (by rw [← List.nil_append gap, ← hys]; simp))
      | cons y ys =>
        have hmem : ∀ c ∈ (y :: ys).getLast?, c ∈ w :: ws := fun c hc => by
          rw [hys]
          exact List.mem_append_left _ (List.mem_of_mem_getLast? hc)
        have hsome : (y :: ys).getLast? = some ((y :: ys).getLast (by simp)) :=
          List.getLast?_eq_some_getLast _
        refine hcore.not_isBreak _ (List.mem_append_left _ (hmem _ hsome)) (hlast _ ?_)
        rw [List.getLast?_append, hsome]
        rfl

/-- Inside an unbroken part, and at its start, no value ends. -/
theorem Text.RightEdge.outside {x : ValueContext} (h : Text.RightEdge x (as ++ core ++ bs) n)
    (hcore : core.Unbroken) : n < as.size ∨ as.size + core.size ≤ n := by
  obtain ⟨us, gap, vs, hcs, rfl, hgap, hhead⟩ := h
  by_contra hn
  obtain ⟨hle, hlt⟩ : as.size ≤ us.size ∧ us.size < as.size + core.size := by omega
  rw [List.append_assoc] at hcs
  obtain ⟨ws, rfl, hrest⟩ := append_of_size_le hcs hle
  simp only [size_append] at hlt
  obtain ⟨xs, rfl, hxs⟩ := append_of_size_le hrest.symm (by omega)
  -- the part of `core` behind the edge ends with no space, so it starts with a break
  rcases List.eq_nil_or_concat xs with rfl | ⟨xs, y, rfl⟩
  · simp at hlt
  rw [List.concat_eq_append] at hcore hxs
  have hy : y ≠ ' ' := by
    rintro rfl
    exact hcore.not_isBlank_getLast ' ' (by simp [← List.append_assoc]) (by decide)
  rcases List.append_eq_append_iff.mp hxs with ⟨ys, hys, rfl⟩ | ⟨ys, rfl, -⟩
  · cases ys with
    | nil => exact hy (hgap y (by rw [← List.append_nil gap, ← hys]; simp))
    | cons z zs =>
      refine hcore.not_isBreak z ?_ (ValueContext.isBreak_of_ends (hhead z (by simp)))
      rw [hys]
      simp
  · exact hy (hgap y (by simp))

end

/-- A value that overlaps an unbroken part, or touches it, reaches over all of it. -/
theorem ValueSite.Framed.covers {v : ValueSite} {as core bs : Text}
    (h : v.Framed (as ++ core ++ bs))
    (hcore : core.Unbroken) (hstart : v.span.start ≤ as.size + core.size)
    (hstop : as.size ≤ v.span.stop) : v.span.start ≤ as.size ∧ as.size + core.size ≤ v.span.stop :=
  ⟨(h.1.outside hcore).resolve_right (Nat.not_lt.mpr hstart),
    (h.2.outside hcore).resolve_left (Nat.not_lt.mpr hstop)⟩

theorem ValueContext.length_read (x : ValueContext) (cs : Text) :
    (x.read cs).length = cs.length := by
  cases x <;> simp [read, Value.ofClassName]

namespace ValueSite.On

variable {cs : Text} {v : ValueSite}

theorem lt (h : v.On cs) (hv : v.value ≠ []) : v.span.start < v.span.stop := by
  obtain ⟨as, ds, -, -, hstop⟩ := h.span.slice_eq
  have hne : cs.slice v.span ≠ [] := by
    intro hs
    have := v.context.length_read (cs.slice v.span)
    rw [← h.value_eq, hs] at this
    exact hv (List.length_eq_zero_iff.mp this)
  have := Text.size_pos hne
  omega

theorem lift (h : v.On cs) (as bs : Text) :
    ValueSite.On (as ++ cs ++ bs) { v with span := v.span.shift (Text.size as) } := by
  refine ⟨(h.span.shift as).append bs, ?_⟩
  obtain ⟨us, ds, hcs, hstart, hstop⟩ := h.span.slice_eq
  have hv := h.value_eq
  generalize cs.slice v.span = ws at hcs hstop hv
  have hs : v.span.shift (Text.size as) =
      ⟨Text.size (as ++ us), Text.size (as ++ us) + Text.size ws⟩ := by
    rw [Span.shift, Text.size_append, Span.mk.injEq]
    omega
  have hfull : as ++ cs ++ bs = as ++ us ++ ws ++ (ds ++ bs) := by
    rw [hcs]
    simp only [List.append_assoc]
  simp only
  rw [hs, hfull, Text.slice_append]
  exact hv

end ValueSite.On

theorem ValueSite.Framed.lift {cs as bs : Text} {v : ValueSite} (h : v.Framed cs)
    (ha : ∀ c ∈ as.getLast?, isBreak c) (hb : ∀ c ∈ bs.head?, v.context.ends c) :
    ValueSite.Framed (as ++ cs ++ bs) { v with span := v.span.shift (Text.size as) } := by
  obtain ⟨⟨us, gap, vs, hl, hs, hgap, hd⟩, ⟨us', gap', vs', hl', hs', hgap', hd'⟩⟩ := h
  refine ⟨⟨as ++ us, gap, vs ++ bs, by rw [hl]; simp, ?_, hgap, fun c hc => ?_⟩,
    ⟨as ++ us', gap', vs' ++ bs, by rw [hl']; simp, ?_, hgap', fun c hc => ?_⟩⟩
  · rw [List.append_assoc, Text.size_append, hs, Span.shift, Nat.add_comm]
  · rcases List.eq_nil_or_concat us with rfl | ⟨us, u, rfl⟩
    · exact ha c (by simpa using hc)
    · refine hd c ?_
      rw [List.concat_eq_append] at hc ⊢
      simpa only [← List.append_assoc, List.getLast?_concat] using hc
  · rw [Text.size_append, hs', Span.shift, Nat.add_comm]
  · cases vs' with
    | nil => exact hb c (by simpa using hc)
    | cons v vs' => exact hd' c (by simpa using hc)

end DesignLint
