import DesignLint.Proofs.Rescan.Basic
import DesignLint.Proofs.Style.UtilityClass

/-!
# Utility classes that are found again

Utility classes are found by a scan (`map_found_classes`). In front of a value in brackets it finds
the same classes whatever the value is, if the value has no brackets and no blanks
(`agree_classOf?`). So if the value of a class is replaced, what is found in its place is what
replaces it (`span_eq_of_mem_classSites`).
-/

namespace DesignLint.Style

/-! ### The scan -/

/-- The points around the value of a class. -/
def UtilityClass.found (u : UtilityClass) : Found := ⟨u.start, u.stop⟩

/-- The first class at a point, as something found. -/
def findClass (stems : List Text) (k : Cursor) : Option Found :=
  (classAt? stems k).map UtilityClass.found

theorem map_classFrom? (stems : List Text) (before : Option Char) (k : Cursor) :
    (classFrom? stems before k).map UtilityClass.found =
      findFrom leadsClass (findClass stems) before k := by
  simp only [findFrom, findClass, classFrom?]
  split_ifs
  · cases classAt? stems k <;> rfl
  · cases classAt? stems k <;> rfl
  · rfl
  · rfl

theorem finds_findClass (stems : List Text) : Finds (findFrom leadsClass (findClass stems)) := by
  intro before k f h
  rw [← map_classFrom?] at h
  obtain ⟨u, hu, rfl⟩ := Option.map_eq_some_iff.mp h
  obtain ⟨⟨us, hus⟩, ⟨vs, hvs, -, -⟩, -⟩ := ahead_of_classFrom? hu
  exact ⟨us ++ ['['], vs, by simp, hus, hvs⟩

/-- Classes are found by a scan, which goes on behind their closing brackets. -/
theorem map_found_classes (stems : List Text) (busy : Nat) (before : Option Char) (o : Nat)
    (cs : Text) : (classes stems busy before o cs).map UtilityClass.found =
      scan 1 (findFrom leadsClass (findClass stems)) busy before o cs := by
  induction cs generalizing busy before o with
  | nil => rfl
  | cons c cs ih =>
    cases busy with
    | succ busy => exact ih busy _ _
    | zero =>
      simp only [classes, scan, ← map_classFrom?]
      cases classFrom? stems before ⟨o, c :: cs⟩ with
      | none => exact ih 0 _ _
      | some u => exact congrArg _ (ih _ _ _)

/-! ### One class -/

theorem classOf?_append {stem us ws : Text} (o : Nat) (hu : ∀ c ∈ us, isClassChar c)
    (hw : ∀ c ∈ ws.head?, ¬ isClassChar c) :
    classOf? stem ⟨o, stem ++ ['-', '['] ++ (us ++ ws)⟩ =
      if us ≠ [] ∧ ws.head? = some ']' then
        some ⟨stem, ⟨o + Text.size (stem ++ ['-', '[']), us ++ ws⟩,
          ⟨o + Text.size (stem ++ ['-', '[']) + Text.size us, ws⟩⟩
      else none := by
  have hskip : Cursor.skipText (stem ++ ['-', '[']) ⟨o, stem ++ ['-', '['] ++ (us ++ ws)⟩ =
      some ⟨o + Text.size (stem ++ ['-', '[']), us ++ ws⟩ :=
    Cursor.skipText_eq_some.mpr ⟨rfl, rfl⟩
  have hvalue : (us ++ ws).takeWhile (fun c => c != ']' && !isBlank c) = us := by
    have hnil : ws.takeWhile isClassChar = [] := by
      cases ws with
      | nil => rfl
      | cons w ws => exact List.takeWhile_cons_of_neg (hw w rfl)
    exact (List.takeWhile_append_of_pos hu).trans (by rw [hnil, List.append_nil])
  unfold classOf?
  simp only [hskip, hvalue, Cursor.skip_append, Option.bind_eq_bind, Option.bind_some, guard]
  split_ifs with h1 h2 h2
  · rfl
  · simp_all
  · simp_all
  · rfl

theorem exists_start_of_classOf? {stem ws cs : Text} {o : Nat} {u : UtilityClass}
    (h : classOf? stem ⟨o, ws ++ cs⟩ = some u) (hstem : ¬ stem ++ ['-', '['] <+: ws) :
    ∃ us rest, cs = us ++ '[' :: rest ∧
      u.start.offset = o + Text.size ws + Text.size (us ++ ['[']) := by
  unfold classOf? at h
  simp only [Option.bind_eq_bind, Option.bind_eq_some_iff, Option.pure_def, Option.some.injEq] at h
  obtain ⟨start, hstart, -, -, rfl⟩ := h
  obtain ⟨hcs, ho⟩ := Cursor.skipText_passes hstart
  simp only at hcs ho
  rcases List.append_eq_append_iff.mp hcs with ⟨us, hlead, hrest⟩ | ⟨us, hlead, -⟩
  · rcases List.eq_nil_or_concat us with rfl | ⟨us, u, rfl⟩
    · exact absurd ⟨[], by simpa using hlead⟩ hstem
    · have hu : u = '[' := by
        have := congrArg List.getLast? hlead
        simpa [List.concat_eq_append, ← List.append_assoc] using this.symm
      subst hu
      rw [List.concat_eq_append] at hlead hrest
      exact ⟨us, start.rest, by simpa using hrest,
        by rw [ho, hlead, Text.size_append, Nat.add_assoc]⟩
  · exact absurd ⟨us, hlead.symm⟩ hstem

section

variable {stem v v' : Text} (o : Nat) (rest : Text) (hv : v ≠ []) (hv' : v' ≠ [])
  (hchars : ∀ c ∈ v, isClassChar c) (hchars' : ∀ c ∈ v', isClassChar c)

include hv hv' hchars hchars' in
/-- A class that goes on to a value, without a bracket or a blank before it, goes on to its end. -/
theorem agree_classOf?_around {us : Text} (hus : ∀ c ∈ us, isClassChar c) :
    Agree (o + Text.size (stem ++ ['-', '['] ++ us)) (v ++ ']' :: rest) (v' ++ ']' :: rest)
      (Text.size v')
      ((classOf? stem ⟨o, stem ++ ['-', '['] ++ us ++ (v ++ ']' :: rest)⟩).map UtilityClass.found)
      ((classOf? stem ⟨o, stem ++ ['-', '['] ++ us ++ (v' ++ ']' :: rest)⟩).map
        UtilityClass.found) := by
  have hin : ∀ w : Text, w ≠ [] → (∀ c ∈ w, isClassChar c) →
      classOf? stem ⟨o, stem ++ ['-', '['] ++ us ++ (w ++ ']' :: rest)⟩ =
        some ⟨stem, ⟨o + Text.size (stem ++ ['-', '[']), (us ++ w) ++ ']' :: rest⟩,
          ⟨o + Text.size (stem ++ ['-', '[']) + Text.size (us ++ w), ']' :: rest⟩⟩ := by
    intro w hw hwc
    rw [List.append_assoc (stem ++ _), ← List.append_assoc us,
      classOf?_append o (fun c hc => (List.mem_append.mp hc).elim (hus c) (hwc c))
        (by simp [isClassChar]),
      if_pos ⟨by simp [hw], rfl⟩]
  rw [hin v hv hchars, hin v' hv' hchars']
  simp only [Option.map_some, UtilityClass.found, Text.size_append]
  have hpos := Text.size_pos hv
  rcases us with _ | ⟨u, us⟩
  · exact .beyond _ (Or.inl (by simp)) (by simp [Nat.add_assoc])
  · have := u.utf8Size_pos
    exact .across _ (by simp; omega) (by simp; omega)

theorem agree_classOf?_front {us : Text} (hus : ¬ ∀ c ∈ us, isClassChar c) (old new : Text)
    (size : Nat) : Agree (o + Text.size (stem ++ ['-', '['] ++ us)) old new size
      ((classOf? stem ⟨o, stem ++ ['-', '['] ++ us ++ old⟩).map UtilityClass.found)
      ((classOf? stem ⟨o, stem ++ ['-', '['] ++ us ++ new⟩).map UtilityClass.found) := by
  have hne : us.dropWhile isClassChar ≠ [] := fun h => hus (List.dropWhile_eq_nil_iff.mp h)
  obtain ⟨d, ws, hd⟩ := List.exists_cons_of_ne_nil hne
  have hstop : ¬ isClassChar d := by
    have := List.head?_dropWhile_not isClassChar us
    rw [hd] at this
    simpa using this
  have hsplit : us = us.takeWhile isClassChar ++ d :: ws := by
    rw [← hd, List.takeWhile_append_dropWhile]
  have hfront : ∀ c ∈ us.takeWhile isClassChar, isClassChar c := fun c hc =>
    List.mem_takeWhile_imp hc
  generalize us.takeWhile isClassChar = vs at hsplit hfront
  subst hsplit
  have hclass : ∀ w : Text, classOf? stem ⟨o, stem ++ ['-', '['] ++ (vs ++ d :: ws) ++ w⟩ =
      if vs ≠ [] ∧ d = ']' then
        some ⟨stem, ⟨o + Text.size (stem ++ ['-', '[']), vs ++ (d :: ws ++ w)⟩,
          ⟨o + Text.size (stem ++ ['-', '[']) + Text.size vs, d :: ws ++ w⟩⟩
      else none := by
    intro w
    rw [List.append_assoc (stem ++ _), List.append_assoc vs,
      classOf?_append o hfront (by simpa using hstop)]
    simp
  rw [hclass, hclass]
  have hpos := d.utf8Size_pos
  split_ifs with h
  · refine .before (d :: ws) ?_ ?_ rfl rfl
    · simp only [UtilityClass.found, Text.size_append, Text.size_cons]
      omega
    · simp only [UtilityClass.found, Text.size_append]
      omega
  · exact .none

theorem agree_classOf?_behind {ws : Text} (hstem : ¬ stem ++ ['-', '['] <+: ws)
    (hopen : '[' ∉ v') :
    Agree (o + Text.size ws) (v ++ ']' :: rest) (v' ++ ']' :: rest) (Text.size v')
      ((classOf? stem ⟨o, ws ++ (v ++ ']' :: rest)⟩).map UtilityClass.found)
      ((classOf? stem ⟨o, ws ++ (v' ++ ']' :: rest)⟩).map UtilityClass.found) := by
  have hbehind : ∀ {w u}, classOf? stem ⟨o, ws ++ (w ++ ']' :: rest)⟩ = some u →
      u.start.offset ≤ u.stop.offset ∧ o + Text.size ws < u.start.offset ∧
        ('[' ∉ w → o + Text.size ws + Text.size w ≤ u.start.offset) := by
    intro w u hu
    obtain ⟨-, ⟨vs, hvs, -⟩, -⟩ := ahead_of_classOf? hu
    obtain ⟨us, ds, hus, hstart⟩ := exists_start_of_classOf? hu hstem
    have hpos : 0 < Text.size (us ++ ['[']) := Text.size_pos (by simp)
    refine ⟨hvs.le, by omega, fun hw => ?_⟩
    rcases List.append_eq_append_iff.mp hus with ⟨ys, rfl, -⟩ | ⟨ys, rfl, hys⟩
    · rw [hstart, List.append_assoc, Text.size_append w]
      omega
    · cases ys with
      | nil =>
        rw [hstart, List.append_nil, Text.size_append us]
        omega
      | cons y ys =>
        obtain rfl := (List.cons.inj hys).1
        simp at hw
  cases h' : classOf? stem ⟨o, ws ++ (v' ++ ']' :: rest)⟩ with
  | some u =>
    obtain ⟨hle, -, hstart⟩ := hbehind h'
    exact .beyond _ (Or.inr (hstart hopen)) (Nat.le_trans (hstart hopen) hle)
  | none =>
    cases h : classOf? stem ⟨o, ws ++ (v ++ ']' :: rest)⟩ with
    | some u =>
      obtain ⟨hle, hstart, -⟩ := hbehind h
      exact .across _ (Nat.ne_of_gt hstart) (Nat.lt_of_lt_of_le hstart hle)
    | none => exact .none

include hv hv' hchars hchars' in
/-- **In front of a value in brackets, the same classes are found whatever the value is.** -/
theorem agree_classOf? (stem ws : Text) (hopen : '[' ∉ v') :
    Agree (o + Text.size ws) (v ++ ']' :: rest) (v' ++ ']' :: rest) (Text.size v')
      ((classOf? stem ⟨o, ws ++ (v ++ ']' :: rest)⟩).map UtilityClass.found)
      ((classOf? stem ⟨o, ws ++ (v' ++ ']' :: rest)⟩).map UtilityClass.found) := by
  by_cases hstem : stem ++ ['-', '['] <+: ws
  · obtain ⟨us, rfl⟩ := hstem
    by_cases hus : ∀ c ∈ us, isClassChar c
    · exact agree_classOf?_around o rest hv hv' hchars hchars' hus
    · exact agree_classOf?_front o hus _ _ _
  · exact agree_classOf?_behind o rest hstem hopen

end

/-! ### All classes -/

section

variable {v v' rest lead : Text} (hv : v ≠ []) (hv' : v' ≠ [])
  (hchars : ∀ c ∈ v, isClassChar c) (hchars' : ∀ c ∈ v', isClassChar c) (hopen : '[' ∉ v')

include hv hv' hchars hchars' hopen

/-- In front of a value in brackets, the first class at a point is the same whatever the value
is. -/
theorem agree_findClass (stems : List Text) (o : Nat) (ws : Text) :
    Agree (o + Text.size ws) (v ++ ']' :: rest) (v' ++ ']' :: rest) (Text.size v')
      (findClass stems ⟨o, ws ++ (v ++ ']' :: rest)⟩)
      (findClass stems ⟨o, ws ++ (v' ++ ']' :: rest)⟩) := by
  unfold findClass classAt?
  rw [List.map_findSome?, List.map_findSome?]
  exact Agree.findSome? stems fun stem => agree_classOf? o rest hv hv' hchars hchars' stem ws hopen

/-- The class that is found again in place of a value starts where the value does. -/
theorem start_eq_of_mem_classSites {stems : List Text} {s s' : ValueSite}
    (hs : s ∈ classSites stems (lead ++ (v ++ ']' :: rest)))
    (hstart : s.span.start = Text.size lead)
    (hs' : s' ∈ classSites stems (lead ++ (v' ++ ']' :: rest))) :
    s'.span.stop ≤ Text.size lead ∨ s'.span.start = Text.size lead ∨
      Text.size lead + Text.size v' ≤ s'.span.start := by
  obtain ⟨u, hu, rfl⟩ := List.mem_map.mp hs
  obtain ⟨u', hu', rfl⟩ := List.mem_map.mp hs'
  have hmem := List.mem_map_of_mem (f := UtilityClass.found) hu
  have hmem' := List.mem_map_of_mem (f := UtilityClass.found) hu'
  rw [map_found_classes] at hmem hmem'
  exact start_eq_of_mem_scan_findFrom (agree_findClass hv hv' hchars hchars' hopen stems)
    (finds_findClass stems) hmem hstart hmem'

end

theorem eq_of_append_closer {us vs bs ds : Text} (hu : ∀ c ∈ us, isClassChar c)
    (hv : ∀ c ∈ vs, isClassChar c) (h : us ++ ']' :: bs = vs ++ ']' :: ds) : us = vs := by
  have hcloser : ∀ {ws : Text} (rest : Text), (∀ c ∈ ws, isClassChar c) →
      (ws ++ ']' :: rest).takeWhile isClassChar = ws := by
    intro ws rest hw
    rw [List.takeWhile_append_of_pos hw, List.takeWhile_cons_of_neg (by decide), List.append_nil]
  rw [← hcloser bs hu, h, hcloser ds hv]

/-- **What is found in place of the value of a class that has been replaced is what replaces
it.** -/
theorem span_eq_of_mem_classSites {stems : List Text} {before x t after : Text} {v w : ValueSite}
    (hv : v ∈ classSites stems (before ++ (x ++ after)))
    (hspan : v.span = ⟨before.size, before.size + x.size⟩) (hne : t ≠ [])
    (hchars : ∀ c ∈ t, isClassChar c) (hopen : '[' ∉ t)
    (hw : w ∈ classSites stems (before ++ (t ++ after)))
    (hover : w.span.overlaps ⟨before.size, before.size + t.size⟩) :
    w.span = ⟨before.size, before.size + t.size⟩ := by
  obtain ⟨us, vs, bs, hcs, hvs, hclass, hvspan⟩ := exists_of_mem_classSites hv
  rw [hspan, Span.mk.injEq] at hvspan
  obtain ⟨rfl, hrest⟩ := Text.append_inj_size hcs hvspan.1
  obtain ⟨rfl, rfl⟩ := Text.append_inj_size hrest (by omega)
  have hstart := start_eq_of_mem_classSites hvs hne hclass hchars hopen hv (by rw [hspan]) hw
  obtain ⟨us, vs, ds, hcs', -, hclass', hwspan⟩ := exists_of_mem_classSites hw
  rw [Span.overlaps_iff] at hover
  have hsame : before.size = us.size := by
    rw [hwspan] at hstart hover
    simp only at hstart hover
    omega
  obtain ⟨rfl, hrest'⟩ := Text.append_inj_size hcs' hsame
  rw [hwspan, eq_of_append_closer hchars hclass' hrest']

end DesignLint.Style
