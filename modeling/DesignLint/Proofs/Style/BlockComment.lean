import DesignLint.Proofs.Markup.Comment
import DesignLint.Proofs.Style.Declaration
import DesignLint.Proofs.Style.Template
import DesignLint.Style.Sites

/-!
# Values and block comments

The mask of a style sheet shows nothing of its block comments (`blockComments`), so no value is
declared in one (`not_holds_of_mem_sheetSites`).

In a script, the reader of comments and the reader of template literals go in step as long as no two
slashes stand behind code on their line: the former does not take those for a comment, the latter
does. Up to there no template literal meets a comment (`apart_or_reached`).
-/

namespace DesignLint

/-- The offsets in a span. -/
def Span.Holds (s : Span) (n : Nat) : Prop := s.start ≤ n ∧ n < s.stop

instance (s : Span) (n : Nat) : Decidable (s.Holds n) := inferInstanceAs (Decidable (_ ∧ _))

namespace Style

/-! ### Style sheets -/

/-- The block comments that `maskComments` covers, from left to right. `start` is the offset of the
comment that the reader is in, `o` that of the point where it is. -/
def blockComments : SheetState → (start o : Nat) → Text → List Span
  | .block _, start, o, [] => [⟨start, o⟩]
  | _, _, _, [] => []
  | .code _, _, _, [_] => []
  | .code fresh, start, o, c :: d :: cs =>
    if c == '/' && d == '*' then blockComments (.block fresh) o (o + 2) cs
    else if c == '/' && d == '/' && fresh then blockComments .line start (o + 2) cs
    else blockComments (.code (staysFresh fresh c)) start (o + c.utf8Size) (d :: cs)
  | .block _, start, o, [c] => [⟨start, o + c.utf8Size⟩]
  | .block fresh, start, o, c :: d :: cs =>
    if c == '*' && d == '/' then ⟨start, o + 2⟩ :: blockComments (.code fresh) start (o + 2) cs
    else blockComments (.block (fresh || c == '\n')) start (o + c.utf8Size) (d :: cs)
  | .line, start, o, c :: cs =>
    if c == '\n' then blockComments (.code true) start (o + 1) cs
    else blockComments .line start (o + c.utf8Size) cs

section

variable {st : SheetState} {start o : Nat} {cs ms ns : Text} {c : Char} {s : Span}

/-- Block comments start ahead, except for the one that the reader is in. -/
theorem start_of_mem_blockComments (h : s ∈ blockComments st start o cs) :
    o ≤ s.start ∨ s.start = start ∧ ∃ fresh, st = .block fresh := by
  fun_induction blockComments st start o cs with
  | case1 fresh start o => exact Or.inr ⟨by rw [List.mem_singleton.mp h], fresh, rfl⟩
  | case2 => simp at h
  | case3 => simp at h
  | case4 fresh start o c d cs _ ih =>
    rcases ih h with hle | ⟨hstart, -⟩
    · exact Or.inl (by omega)
    · exact Or.inl (Nat.le_of_eq hstart.symm)
  | case5 fresh start o c d cs _ _ ih =>
    rcases ih h with hle | ⟨-, _, hst⟩
    · exact Or.inl (by omega)
    · cases hst
  | case6 fresh start o c d cs _ _ ih =>
    rcases ih h with hle | ⟨-, _, hst⟩
    · exact Or.inl (by omega)
    · cases hst
  | case7 fresh start o c => exact Or.inr ⟨by rw [List.mem_singleton.mp h], fresh, rfl⟩
  | case8 fresh start o c d cs _ ih =>
    rcases List.mem_cons.mp h with rfl | h
    · exact Or.inr ⟨rfl, fresh, rfl⟩
    · rcases ih h with hle | ⟨-, _, hst⟩
      · exact Or.inl (by omega)
      · cases hst
  | case9 fresh start o c d cs _ ih =>
    rcases ih h with hle | ⟨hstart, -⟩
    · exact Or.inl (by omega)
    · exact Or.inr ⟨hstart, fresh, rfl⟩
  | case10 start o c cs _ ih =>
    rcases ih h with hle | ⟨-, _, hst⟩
    · exact Or.inl (by omega)
    · cases hst
  | case11 start o c cs _ ih =>
    rcases ih h with hle | ⟨-, _, hst⟩
    · exact Or.inl (by omega)
    · cases hst

/-- Whether nothing is shown of a character. -/
def Hidden (c : Char) : Prop := c = ' ' ∨ c = '\n'

theorem hidden_of_mem_spaces {d : Char} (h : d ∈ [' ', ' ']) : Hidden d := by
  simp only [List.mem_cons, List.not_mem_nil, or_false, or_self] at h
  exact Or.inl h

theorem size_cover (c : Char) : Text.size (cover ' ' c) = c.utf8Size :=
  size_shown (m := (c, true)) rfl

theorem append_eq_append_cons {lead rest : Text} (h : lead ++ rest = ms ++ c :: ns) :
    (∃ us, lead = ms ++ c :: us) ∨ ∃ us, ms = lead ++ us ∧ rest = us ++ c :: ns := by
  rcases List.append_eq_append_iff.mp h with ⟨us, rfl, hrest⟩ | ⟨us, rfl, hrest⟩
  · exact Or.inr ⟨us, rfl, hrest⟩
  · cases us with
    | nil => exact Or.inr ⟨[], by simp, by simpa using hrest.symm⟩
    | cons u us =>
      rw [List.cons_append, List.cons.injEq] at hrest
      exact Or.inl ⟨us, by rw [hrest.1]⟩

theorem hidden_of_append {lead rest : Text} {n : Nat} (hlead : ∀ d ∈ lead, Hidden d)
    (hn : lead.size = n) (h : lead ++ rest = ms ++ c :: ns) (hc : s.Holds (o + ms.size))
    (hrest : ∀ us, rest = us ++ c :: ns → s.Holds (o + n + us.size) → Hidden c) : Hidden c := by
  rcases append_eq_append_cons h with ⟨us, rfl⟩ | ⟨us, rfl, hus⟩
  · exact hlead c (by simp)
  · rw [Text.size_append, hn, ← Nat.add_assoc] at hc
    exact hrest us hus hc

/-- **A mask shows nothing of block comments.** -/
theorem hidden_of_mem_blockComments (hs : s ∈ blockComments st start o cs)
    (hm : maskComments st cs = ms ++ c :: ns) (hc : s.Holds (o + ms.size)) : Hidden c := by
  fun_induction maskComments st cs generalizing start o ms with
  | case1 st => simp at hm
  | case2 fresh c => simp [blockComments] at hs
  | case3 fresh d e cs h ih =>
    rw [blockComments, if_pos h] at hs
    exact hidden_of_append (fun _ => hidden_of_mem_spaces) rfl hm hc fun us => ih hs
  | case4 fresh d e cs h₁ h₂ ih =>
    rw [blockComments, if_neg h₁, if_pos h₂] at hs
    exact hidden_of_append (fun _ => hidden_of_mem_spaces) rfl hm hc fun us => ih hs
  | case5 fresh d e cs h₁ h₂ ih =>
    rw [blockComments, if_neg h₁, if_neg h₂] at hs
    have hbehind : o + d.utf8Size ≤ s.start :=
      (start_of_mem_blockComments hs).resolve_right (by simp)
    have hm : [d] ++ maskComments (.code (staysFresh fresh d)) (e :: cs) = ms ++ c :: ns := hm
    rcases append_eq_append_cons hm with ⟨us, hus⟩ | ⟨us, rfl, hus⟩
    · -- the comment starts behind this character
      obtain rfl : ms = [] := by
        cases ms with
        | nil => rfl
        | cons m ms => simp at hus
      have := d.utf8Size_pos
      have := hc.1
      simp only [Text.size_nil] at this
      omega
    · refine ih hs hus ?_
      rw [List.singleton_append, Text.size_cons, ← Nat.add_assoc] at hc
      exact hc
  | case6 fresh d =>
    have hmem : c ∈ cover ' ' d := by rw [hm]; simp
    exact eq_of_mem_cover hmem
  | case7 fresh d e cs h ih =>
    rw [blockComments, if_pos h] at hs
    have hsize : Text.size [' ', ' '] = 2 := rfl
    refine hidden_of_append (fun _ => hidden_of_mem_spaces) hsize hm hc fun us hus hc => ?_
    rcases List.mem_cons.mp hs with rfl | hs
    · -- the comment ends in front of the rest
      have : o + 2 + us.size < o + 2 := hc.2
      omega
    · exact ih hs hus hc
  | case8 fresh d e cs h ih =>
    rw [blockComments, if_neg h] at hs
    exact hidden_of_append (fun _ => eq_of_mem_cover) (size_cover d) hm hc fun us => ih hs
  | case9 d cs h ih =>
    rw [blockComments, if_pos h] at hs
    rw [beq_iff_eq] at h
    subst h
    have hm : ['\n'] ++ maskComments (.code true) cs = ms ++ c :: ns := hm
    exact hidden_of_append (fun _ hd => Or.inr (List.mem_singleton.mp hd)) rfl hm hc fun us => ih hs
  | case10 d cs h ih =>
    rw [blockComments, if_neg h] at hs
    exact hidden_of_append (fun _ => eq_of_mem_cover) (size_cover d) hm hc fun us => ih hs

/-- **No value is declared in a block comment of a style sheet.** -/
theorem not_holds_of_mem_sheetSites {properties : List Text} {v : ValueSite}
    (hv : v ∈ sheetSites properties cs) (hs : s ∈ blockComments (.code true) 0 0 cs) :
    ¬ s.Holds v.span.start := by
  intro hc
  obtain ⟨d, hd, hsite⟩ := List.mem_filterMap.mp hv
  obtain ⟨-, -, -, hspan⟩ := Declaration.site?_eq_some hsite
  obtain ⟨lead, hmask, hlead, -, c, hhead, hspace, hline⟩ :=
    (ahead_of_mem_declarations hd).exists_lead
  obtain ⟨ns, hns⟩ := List.head?_eq_some_iff.mp hhead
  rw [hns] at hmask
  rw [hspan, hlead, Nat.zero_add] at hc
  rcases hidden_of_mem_blockComments hs hmask (by rwa [Nat.zero_add]) with h | h
  · exact hspace h
  · exact hline h

end

/-! ### Template literals -/

section

variable {text : Text} {fresh : Bool} {fuel o : Nat} {c : Char} {cs : Text} {k : Cursor} {s : Span}
  {t : TemplateBody}

theorem pieceAt_slashes (o : Nat) (cs : Text) :
    Markup.pieceAt false o '/' ('/' :: cs) = .other ⟨o + 1, '/' :: cs⟩ := rfl

/-- At other points both readers take the same step: to the end of a comment, which may be the end
of the text, or to that of another piece. -/
theorem step_cases (o : Nat) (h : ¬ (fresh = false ∧ c = '/' ∧ cs.head? = some '/')) :
    (∃ next, Markup.pieceAt fresh o c cs = .comment next ∧ (templateStep o c cs).1 = none ∧
      ((templateStep o c cs).2 = next ∨ (templateStep o c cs).2.rest = [])) ∨
    Markup.pieceAt fresh o c cs = .other (templateStep o c cs).2 := by
  rcases cs with _ | ⟨d, ds⟩
  · refine Or.inr ?_
    have htemplate : Markup.templateEnd ⟨o + c.utf8Size, []⟩ = none := by
      simp [Markup.templateEnd, Markup.scan]
    simp [Markup.pieceAt, templateStep, htemplate, Markup.closeQuote]
  by_cases hslash : c = '/'
  · subst hslash
    by_cases hstar : d = '*'
    · subst hstar
      have hstep : templateStep o '/' ('*' :: ds) =
          (none, (Markup.blockEnd ⟨o + 2, ds⟩).getD ⟨o, []⟩) := rfl
      refine Or.inl ⟨_, rfl, by rw [hstep], ?_⟩
      rw [hstep]
      cases Markup.blockEnd ⟨o + 2, ds⟩ with
      | none => exact Or.inr rfl
      | some l => exact Or.inl rfl
    · by_cases hline : d = '/'
      · subst hline
        obtain rfl : fresh = true := by simpa using h
        exact Or.inl ⟨_, rfl, rfl, Or.inl rfl⟩
      · refine Or.inr ?_
        simp [Markup.pieceAt, templateStep, hstar, hline, Markup.backtick]
  · refine Or.inr ?_
    by_cases hback : c = Markup.backtick
    · subst hback
      have h1 : Markup.backtick.utf8Size = 1 := rfl
      have hquote : (Markup.backtick == '"' || Markup.backtick == '\'') = false := rfl
      simp only [Markup.pieceAt, templateStep, beq_iff_eq, hslash, hquote, h1, Bool.and_eq_true,
        false_and, if_false, if_true, Bool.false_eq_true]
      cases Markup.templateEnd ⟨o + 1, d :: ds⟩ <;> rfl
    · simp only [Markup.pieceAt, templateStep, beq_iff_eq, hslash, hback, Bool.and_eq_true, false_and,
        if_false]
      split_ifs with hquote
      · have h1 : c.utf8Size = 1 := by
          simp only [Bool.or_eq_true, beq_iff_eq] at hquote
          rcases hquote with rfl | rfl <;> rfl
        rw [h1]
        cases Markup.closeQuote c (o + 1) (d :: ds) <;> rfl
      · rfl

/-- **A template literal does not meet a comment**, unless the reader of comments has reached two
slashes behind code on their line. -/
theorem apart_or_reached (hk : Markup.Reached text fresh k) (ht : t ∈ templatesFrom fuel k)
    (hs : s ∈ Markup.commentsFrom fresh fuel k) :
    t.start.offset + t.body.size ≤ s.start ∨ s.stop ≤ t.start.offset ∨
      ∃ o bs, o < s.start ∧ Markup.Reached text false ⟨o, '/' :: '/' :: bs⟩ := by
  induction fuel generalizing fresh k with
  | zero => simp [templatesFrom] at ht
  | succ fuel ih =>
    obtain ⟨o, _ | ⟨c, cs⟩⟩ := k
    · simp [templatesFrom] at ht
    simp only [templatesFrom, List.mem_append, Option.mem_toList] at ht
    have hs := Markup.mem_commentsFrom hs
    by_cases hslashes : fresh = false ∧ c = '/' ∧ cs.head? = some '/'
    · -- from here on the readers may be anywhere
      obtain ⟨rfl, rfl, hhead⟩ := hslashes
      obtain ⟨bs, rfl⟩ := List.head?_eq_some_iff.mp hhead
      rw [pieceAt_slashes] at hs
      rcases hs with ⟨next, hcomment, -⟩ | hs
      · cases hcomment
      · exact Or.inr (Or.inr ⟨o, bs, Markup.le_start_of_mem_commentsFrom hs, hk⟩)
    have hnext := hk.next
    rcases step_cases o hslashes with ⟨next, hpiece, hbody, hstep⟩ | hpiece
    · -- the end of a comment
      rw [hpiece] at hs hnext
      have ht := ht.resolve_left (by rw [hbody]; simp)
      have hstep := hstep.resolve_right fun hnil => not_mem_templatesFrom hnil ht
      rw [hstep] at ht
      rcases hs with ⟨next', hnext', rfl⟩ | hs
      · obtain rfl := Markup.Piece.comment.inj hnext'
        exact Or.inr (Or.inl (le_start_of_mem_templatesFrom ht))
      · exact ih hnext ht hs
    · -- the end of another piece
      rw [hpiece] at hs hnext
      have hs := hs.resolve_left (by simp)
      rcases ht with ht | ht
      · obtain ⟨d, stop, -, hstart, -, -, hstop, hstep⟩ := exists_of_mem_templateStep ht
        have hle := Markup.le_start_of_mem_commentsFrom hs
        rw [hstep] at hle
        simp only [Markup.Piece.next, hstop] at hle
        rw [hstart]
        exact Or.inl (by simp only; omega)
      · exact ih hnext ht hs

/-- **A value that is declared in a template literal does not start in a comment**, unless two
slashes stand in front of the comment and behind code on their line. -/
theorem reached_of_mem_templateSites {properties : List Text} {v : ValueSite}
    (ht : t ∈ templateBodies text) (hv : v ∈ templateSites properties t)
    (hs : s ∈ Markup.commentSpans text) (hc : s.Holds v.span.start) :
    ∃ o bs, o < s.start ∧ Markup.Reached text false ⟨o, '/' :: '/' :: bs⟩ := by
  obtain ⟨w, hw, rfl⟩ := exists_of_mem_declarationSites hv
  obtain ⟨hon, -⟩ := on_of_mem_declarationSites (masks_maskInterpolations t.body) (Or.inr rfl) hw
  have hlt := hon.lt (value_ne_nil_of_mem_declarationSites hw)
  obtain ⟨as, bs, hbody, hstop⟩ := (Span.on_iff.mp hon.span).2.1
  have hsize : w.span.stop ≤ t.body.size := by
    rw [hbody, Text.size_append]
    omega
  have hstart : s.start ≤ w.span.start + t.start.offset := hc.1
  have hend : w.span.start + t.start.offset < s.stop := hc.2
  rcases apart_or_reached .start ht hs with hle | hle | hreached
  · omega
  · omega
  · exact hreached

end

end Style

end DesignLint
