import DesignLint.Proofs.Text.Place
import DesignLint.Regex

/-!
# Where matches are

A thread stays on the text: its point is one of the text, and the offsets that it has recorded are
boundaries (`Thread.On`). Each instruction keeps it so (`Thread.On.step`), and with it a run and a
search (`on_of_mem_findAll`).
-/

namespace DesignLint.Regex

/-- A point as a cursor. -/
def Point.cursor (p : Point) : Cursor := ⟨p.offset, p.rest⟩

/-- A thread at a point of a text that has recorded boundaries of the text. -/
structure Thread.On (cs : Text) (t : Thread) : Prop where
  point : t.point.cursor.In cs
  slots : ∀ s ∈ t.slots, cs.Boundary s.2

/-- A match whose ends and recorded offsets are boundaries of a text. -/
structure Match.On (cs : Text) (m : Match) : Prop where
  start : cs.Boundary m.span.start
  stop : cs.Boundary m.span.stop
  slots : ∀ s ∈ m.slots, cs.Boundary s.2
  after : m.after.cursor.In cs

theorem Point.next?_in {cs : Text} {p q : Point} {c : Char} (h : p.cursor.In cs)
    (hn : p.next? = some (c, q)) : q.cursor.In cs := by
  obtain ⟨o, before, rest⟩ := p
  unfold next? at hn
  split at hn
  · cases hn
  · next d ds hr =>
    simp only at hr
    subst hr
    cases hn
    exact h.passes (Cursor.passes_one o c ds)

theorem Thread.On.step {cs : Text} {t : Thread} (h : t.On cs) (i : Instruction) :
    ∀ u ∈ t.step i, u.On cs := by
  intro u hu
  cases i with
  | one c =>
    simp only [Thread.step] at hu
    split at hu
    · next d p hn =>
      split_ifs at hu
      · obtain rfl := List.mem_singleton.mp hu
        exact ⟨Point.next?_in h.point hn, h.slots⟩
      · simp at hu
    · simp at hu
  | check a =>
    simp only [Thread.step] at hu
    split_ifs at hu
    · obtain rfl := List.mem_singleton.mp hu
      exact ⟨h.point, h.slots⟩
    · simp at hu
  | split first second =>
    simp only [Thread.step, List.mem_cons, List.not_mem_nil, or_false] at hu
    rcases hu with rfl | rfl
    · exact ⟨h.point, h.slots⟩
    · exact ⟨h.point, h.slots⟩
  | jump target =>
    obtain rfl := List.mem_singleton.mp hu
    exact ⟨h.point, h.slots⟩
  | save slot =>
    obtain rfl := List.mem_singleton.mp hu
    refine ⟨h.point, fun s hs => ?_⟩
    rcases List.mem_cons.mp hs with rfl | hs
    · exact h.point.boundary
    · exact h.slots s hs

namespace Program

variable {p : Program} {cs : Text}

/-- What every instruction keeps holds where a run ends, behind the last instruction. -/
theorem of_run {P : Thread → Prop}
    (hstep : ∀ t i, p.code[t.address]? = some i → P t → ∀ u ∈ t.step i, P u) {fuel : Nat}
    {stack : List Thread} {seen seen' : Std.HashSet Nat} {t : Thread} (hs : ∀ u ∈ stack, P u)
    (h : p.run fuel stack seen = (some t, seen')) : P t ∧ p.code[t.address]? = none := by
  fun_induction run p fuel stack seen with
  | case1 => cases h
  | case2 => cases h
  | case3 fuel seen u stack _ ih => exact ih (fun v hv => hs v (by simp [hv])) h
  | case4 fuel u stack seen _ _ hend =>
    simp only [Prod.mk.injEq, Option.some.injEq] at h
    obtain ⟨rfl, -⟩ := h
    exact ⟨hs _ (by simp), hend⟩
  | case5 fuel u stack seen _ _ i hi ih =>
    refine ih (fun v hv => ?_) h
    rcases List.mem_append.mp hv with hv | hv
    · exact hstep u i hi (hs u (by simp)) v hv
    · exact hs v (by simp [hv])

theorem on_of_run {fuel : Nat} {stack : List Thread} {seen seen' : Std.HashSet Nat} {t : Thread}
    (hs : ∀ u ∈ stack, u.On cs) (h : p.run fuel stack seen = (some t, seen')) : t.On cs :=
  (of_run (fun _ i _ ht => ht.step i) hs h).1

theorem on_of_findFrom {before : Option Char} {o : Nat} {seen : Std.HashSet Nat} {rest : Text}
    {m : Match} (hin : Cursor.In cs ⟨o, rest⟩) (h : p.findFrom before o seen rest = some m) :
    m.On cs := by
  have hrun : ∀ {fuel : Nat} {before : Option Char} {o : Nat} {rest : Text}
      {seen seen' : Std.HashSet Nat} {t : Thread}, Cursor.In cs ⟨o, rest⟩ →
      p.run fuel [⟨0, ⟨o, before, rest⟩, []⟩] seen = (some t, seen') →
      Match.On cs ⟨⟨o, t.point.offset⟩, t.slots, t.point⟩ := by
    intro fuel before o rest seen seen' t hin hr
    have ht := on_of_run (fun u hu => by
      obtain rfl := List.mem_singleton.mp hu
      exact ⟨hin, by simp⟩) hr
    exact ⟨hin.boundary, ht.point.boundary, ht.slots, ht.point⟩
  induction rest generalizing before o seen with
  | nil =>
    simp only [findFrom] at h
    split at h
    · next hr =>
      cases h
      exact hrun hin hr
    · cases h
  | cons c rest ih =>
    simp only [findFrom] at h
    split at h
    · next hr =>
      cases h
      exact hrun hin hr
    · exact ih (hin.passes (Cursor.passes_one o c rest)) h

theorem on_of_find? {q : Point} {m : Match} (hin : q.cursor.In cs) (h : p.find? q = some m) :
    m.On cs := on_of_findFrom hin h

theorem on_of_mem_findAllFrom {last : Option Nat} {fuel : Nat} {q : Point} {m : Match}
    (hin : q.cursor.In cs) (h : m ∈ p.findAllFrom last fuel q) : m.On cs := by
  induction fuel generalizing last q with
  | zero => simp [findAllFrom] at h
  | succ fuel ih =>
    rw [findAllFrom] at h
    split at h
    · simp at h
    · next m' hm =>
      have hm' := on_of_find? hin hm
      split_ifs at h
      · split at h
        · simp at h
        · next c q' hn =>
          have hq := Point.next?_in hin hn
          split at h
          · simp at h
          · next m'' hf =>
            have hm'' := on_of_find? hq hf
            rcases List.mem_cons.mp h with rfl | h
            · exact hm''
            · exact ih hm''.after h
      · rcases List.mem_cons.mp h with rfl | h
        · exact hm'
        · exact ih hm'.after h

end Program

/-- **Matches are on the text.** -/
theorem on_of_mem_findAll {r : Regex} {cs : Text} {m : Match} (h : m ∈ r.findAll cs) : m.On cs :=
  Program.on_of_mem_findAllFrom (q := .start cs) (Cursor.in_start cs) h

theorem boundary_of_named? {r : Regex} {cs : Text} {m : Match} (h : m.On cs) {name : String}
    {s : Span} (hs : r.named? name m = some s) : cs.Boundary s.start ∧ cs.Boundary s.stop := by
  unfold named? Match.group? at hs
  simp only [Option.bind_eq_bind, Option.bind_eq_some_iff, Option.pure_def, Option.some.injEq] at hs
  obtain ⟨i, -, start, hstart, stop, hstop, rfl⟩ := hs
  have hmem : ∀ {n o : Nat} {slots : List (Nat × Nat)}, slots.lookup n = some o →
      ∃ s ∈ slots, s.2 = o := by
    intro n o slots hl
    obtain ⟨l₁, l₂, heq, -⟩ := List.lookup_eq_some_iff.mp hl
    exact ⟨(n, o), by simp [heq], rfl⟩
  obtain ⟨s, hs, rfl⟩ := hmem hstart
  obtain ⟨s', hs', rfl⟩ := hmem hstop
  exact ⟨h.slots s hs, h.slots s' hs'⟩

end DesignLint.Regex
