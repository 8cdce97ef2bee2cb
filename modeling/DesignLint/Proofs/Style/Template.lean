import DesignLint.Proofs.Markup.Enclosure
import DesignLint.Style.Template
import Mathlib.Data.List.Pairwise

/-!
# Where bodies of template literals are

A body that is found stands between two delimiters, the first of them its opening quote
(`stands_of_mem_templateBodies`), and apart from all other bodies
(`eq_or_apart_of_mem_templateBodies`).
-/

namespace DesignLint.Style

/-- A body stands in a text behind its quote and in front of the character that closes it. -/
def TemplateBody.Stands (cs : Text) (t : TemplateBody) : Prop :=
  ∃ as c bs, cs = as ++ [Markup.backtick] ++ t.body ++ c :: bs ∧
    Text.size (as ++ [Markup.backtick]) = t.start.offset ∧ (c = '\x7d' ∨ c = Markup.backtick)

/-- A step that finds a body reads the template literal: the body starts behind the opening quote
and ends in front of the character where the step ends. -/
theorem exists_of_mem_templateStep {o : Nat} {c : Char} {rest : Text} {t : TemplateBody}
    (h : t ∈ (templateStep o c rest).1) : ∃ d stop, c = Markup.backtick ∧ t.start = ⟨o + 1, rest⟩ ∧
      rest = t.body ++ d :: stop.rest ∧ (d = '\x7d' ∨ d = Markup.backtick) ∧
      stop.offset = o + 1 + Text.size t.body + 1 ∧ (templateStep o c rest).2 = stop := by
  unfold templateStep at h ⊢
  simp only at h ⊢
  split_ifs at h ⊢ with hb
  · rw [beq_iff_eq] at hb
    subst hb
    have h1 : Markup.backtick.utf8Size = 1 := rfl
    rw [h1] at h ⊢
    split at h
    · next stop hstop =>
      obtain rfl := Option.some.inj h
      obtain ⟨us, hus, hp⟩ := Markup.templateEnd_eq_some.mp hstop
      obtain ⟨vs, d, rfl, hd⟩ := hus.exists_last (by simp)
      have hrest : rest = vs ++ ([d] ++ stop.rest) := by rw [← List.append_assoc]; exact hp.1
      have hoff := hp.2
      simp only [Text.size_append, Text.size_cons, Text.size_nil,
        Markup.utf8Size_closer hd] at hoff
      have hn : stop.offset - 1 - (o + 1) = Text.size vs := by omega
      have hbody : rest.takeBytes (stop.offset - 1 - (o + 1)) = vs := by
        rw [hn, hrest, Text.takeBytes_size_append]
      refine ⟨d, stop, rfl, rfl, ?_, hd, ?_, ?_⟩
      · simp only [hbody]
        exact hrest
      · simp only [hbody]
        omega
      · rfl
    · cases h
  all_goals cases h

theorem templateStep_passes (o : Nat) (c : Char) (rest : Text) :
    (templateStep o c rest).2.rest = [] ∨
      ∃ us, Cursor.Passes ⟨o, c :: rest⟩ us (templateStep o c rest).2 := by
  have hnext : Cursor.Passes ⟨o, c :: rest⟩ [c] ⟨o + c.utf8Size, rest⟩ :=
    Cursor.passes_one o c rest
  unfold templateStep
  simp only
  split_ifs with hb hl hbl hq
  · split
    · next stop hstop =>
      obtain ⟨us, -, hus⟩ := Markup.templateEnd_eq_some.mp hstop
      exact Or.inr ⟨_, hnext.trans hus⟩
    · exact Or.inr ⟨_, hnext⟩
  · obtain ⟨us, hus, -⟩ := Markup.exists_lineEnd ⟨o + c.utf8Size, rest⟩
    exact Or.inr ⟨_, hnext.trans hus⟩
  · cases hend : Markup.blockEnd (Cursor.skip 1 ⟨o + c.utf8Size, rest⟩) with
    | none => exact Or.inl rfl
    | some l =>
      obtain ⟨us, hus, -⟩ := Markup.blockEnd_eq_some.mp hend
      exact Or.inr ⟨_, (hnext.trans (Cursor.skip_passes 1 _)).trans hus⟩
  · simp only [Bool.or_eq_true, beq_iff_eq] at hq
    cases hend : Markup.closeQuote c (o + c.utf8Size) rest with
    | none => exact Or.inr ⟨_, hnext⟩
    | some l =>
      obtain ⟨us, -, hus⟩ := (Markup.closeQuote_eq_some hq).mp hend
      exact Or.inr ⟨_, hnext.trans hus⟩
  · exact Or.inr ⟨_, hnext⟩

theorem TemplateBody.stands_of_mem_templateStep {cs rest : Text} {o : Nat} {c : Char}
    {t : TemplateBody} (hin : Cursor.In cs ⟨o, c :: rest⟩) (h : t ∈ (templateStep o c rest).1) :
    t.Stands cs := by
  obtain ⟨d, stop, rfl, hstart, hrest, hd, -, -⟩ := exists_of_mem_templateStep h
  obtain ⟨before, hcs, ho⟩ := Cursor.in_iff.mp hin
  simp only at hcs ho
  refine ⟨before, d, stop.rest, ?_, ?_, hd⟩
  · rw [hcs, hrest]
    simp
  · have h1 : Markup.backtick.utf8Size = 1 := rfl
    simp [hstart, ho, h1]

theorem stands_of_mem_templatesFrom {cs : Text} {fuel : Nat} {k : Cursor} {t : TemplateBody}
    (hk : k.rest = [] ∨ k.In cs) (h : t ∈ templatesFrom fuel k) : t.Stands cs := by
  induction fuel generalizing k with
  | zero => simp [templatesFrom] at h
  | succ fuel ih =>
    obtain ⟨o, _ | ⟨c, rest⟩⟩ := k
    · simp [templatesFrom] at h
    · have hin := hk.resolve_left (by simp)
      simp only [templatesFrom, List.mem_append, Option.mem_toList] at h
      rcases h with h | h
      · exact TemplateBody.stands_of_mem_templateStep hin h
      · refine ih ?_ h
        exact (templateStep_passes o c rest).imp_right fun ⟨_, hus⟩ => hin.passes hus

theorem not_mem_templatesFrom {fuel : Nat} {k : Cursor} {t : TemplateBody} (hk : k.rest = []) :
    t ∉ templatesFrom fuel k := by
  obtain ⟨o, rest⟩ := k
  simp only at hk
  subst hk
  cases fuel <;> simp [templatesFrom]

theorem le_start_of_mem_templatesFrom {fuel : Nat} {k : Cursor} {t : TemplateBody}
    (h : t ∈ templatesFrom fuel k) : k.offset ≤ t.start.offset := by
  induction fuel generalizing k with
  | zero => simp [templatesFrom] at h
  | succ fuel ih =>
    obtain ⟨o, _ | ⟨c, rest⟩⟩ := k
    · simp [templatesFrom] at h
    · simp only [templatesFrom, List.mem_append, Option.mem_toList] at h
      rcases h with h | h
      · obtain ⟨d, stop, -, hstart, -⟩ := exists_of_mem_templateStep h
        rw [hstart]
        exact Nat.le_succ o
      · rcases templateStep_passes o c rest with hnil | ⟨us, hus⟩
        · exact absurd h (not_mem_templatesFrom hnil)
        · exact Nat.le_trans hus.le (ih h)

/-- A body that is found first ends in front of those that are found later. -/
theorem pairwise_templatesFrom (fuel : Nat) (k : Cursor) : (templatesFrom fuel k).Pairwise
    fun t u => t.start.offset + t.body.size ≤ u.start.offset := by
  induction fuel generalizing k with
  | zero => simp [templatesFrom]
  | succ fuel ih =>
    obtain ⟨o, _ | ⟨c, rest⟩⟩ := k
    · simp [templatesFrom]
    · simp only [templatesFrom]
      refine List.pairwise_append.mpr ⟨?_, ih _, fun t ht u hu => ?_⟩
      · cases (templateStep o c rest).1 <;> simp
      · obtain ⟨d, stop, -, hstart, -, -, hoffset, hstep⟩ :=
          exists_of_mem_templateStep (Option.mem_toList.mp ht)
        have hle := le_start_of_mem_templatesFrom hu
        rw [hstep] at hle
        rw [hstart]
        simp only
        omega

/-- **Bodies of template literals lie apart.** -/
theorem eq_or_apart_of_mem_templateBodies {cs : Text} {t u : TemplateBody}
    (ht : t ∈ templateBodies cs) (hu : u ∈ templateBodies cs) :
    t = u ∨ t.start.offset + t.body.size ≤ u.start.offset ∨
      u.start.offset + u.body.size ≤ t.start.offset := by
  let R (t u : TemplateBody) : Prop := t = u ∨ t.start.offset + t.body.size ≤ u.start.offset ∨
    u.start.offset + u.body.size ≤ t.start.offset
  have : Std.Symm R := ⟨fun t u h => h.imp Eq.symm Or.symm⟩
  have hpair : (templateBodies cs).Pairwise R :=
    (pairwise_templatesFrom _ _).imp fun h => Or.inr (Or.inl h)
  exact List.Pairwise.forall_of_forall (R := R) (fun _ _ => Or.inl rfl) hpair ht hu

/-- **Bodies of template literals stand in the text.** -/
theorem stands_of_mem_templateBodies {cs : Text} {t : TemplateBody} (h : t ∈ templateBodies cs) :
    t.Stands cs :=
  stands_of_mem_templatesFrom (Or.inr (Cursor.in_start cs)) h

end DesignLint.Style
