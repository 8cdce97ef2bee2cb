import DesignLint.Path
import Mathlib.Data.List.Lex
import Mathlib.Data.Prod.Lex
import Mathlib.Data.String.Basic

/-!
# Components of paths

Components are ordered by rank, and paths by the lists of their components (`Path.le_iff`). A path
below a directory is seen from it as the names that follow (`shown_below`), and these names, joined
to another directory, follow the components of that one (`components_join_ofNames`). Names of
components hold no slash and are not dots (`IsName`).
-/

namespace DesignLint.Path

/-! ### Order -/

theorem Component.rank_injective : Function.Injective Component.rank := by
  intro a b h
  cases a <;> cases b <;> simp_all [rank]

instance : LinearOrder Component :=
  LinearOrder.lift' (fun c => toLex c.rank) (toLex.injective.comp Component.rank_injective)

theorem Component.before_iff {a b : Component} : a.before b ↔ a < b := by
  have hlt : a < b ↔ toLex a.rank < toLex b.rank := Iff.rfl
  rw [hlt, Prod.Lex.lt_iff, before]
  simp

theorem componentsLe_iff {as bs : List Component} : componentsLe as bs ↔ as ≤ bs := by
  induction as generalizing bs with
  | nil => cases bs <;> simp [componentsLe, le_iff_lt_or_eq]
  | cons a as ih =>
    cases bs with
    | nil => simp [componentsLe, le_iff_lt_or_eq]
    | cons b bs =>
      rw [componentsLe, le_iff_lt_or_eq, List.cons_lt_cons_iff, List.cons.injEq, or_assoc,
        ← and_or_left, ← le_iff_lt_or_eq, Bool.or_eq_true, Component.before_iff, Bool.and_eq_true,
        beq_iff_eq, ih]

theorem le_iff {p q : String} : le p q ↔ components p ≤ components q := componentsLe_iff

theorem same_iff {p q : String} : same p q ↔ components p = components q := by
  rw [same, beq_iff_eq]

/-! ### Names -/

/-- What can be the name of a component: no dots, and no slash. -/
structure IsName (s : String) : Prop where
  slashless : '/' ∉ s.toList
  component : component? s.toList = some (.name s)

theorem not_mem_of_mem_splitOn {part cs : Text} {c : Char} (h : part ∈ cs.splitOn c) :
    c ∉ part := by
  induction cs generalizing part with
  | nil =>
    rw [List.splitOn_nil, List.mem_singleton] at h
    simp [h]
  | cons d cs ih =>
    rw [List.splitOn_cons_eq_if_modifyHead] at h
    obtain ⟨first, parts, hparts⟩ := List.exists_cons_of_ne_nil (List.splitOn_ne_nil c cs)
    rw [hparts] at h ih
    split_ifs at h with hd
    · rcases List.mem_cons.mp h with rfl | h
      · simp
      · exact ih h
    · rw [List.modifyHead_cons] at h
      rcases List.mem_cons.mp h with rfl | h
      · have hne : c ≠ d := fun heq => hd (beq_iff_eq.mpr heq.symm)
        simpa [hne] using ih (List.mem_cons_self ..)
      · exact ih (List.mem_cons_of_mem _ h)

theorem toList_of_component? {part : Text} {s : String} (h : component? part = some (.name s)) :
    s.toList = part := by
  unfold component? at h
  split at h
  · cases h
  · cases h
  · cases h
  · cases h
    exact String.toList_ofList

theorem isName_of_mem {p s : String} (h : Component.name s ∈ components p) : IsName s := by
  have hmem : Component.name s ∈ (p.toList.splitOn '/').filterMap component? := by
    unfold components at h
    simp only at h
    split_ifs at h
    · simpa using h
    · simpa using h
    · exact h
  obtain ⟨part, hpart, hname⟩ := List.mem_filterMap.mp hmem
  obtain rfl := toList_of_component? hname
  exact ⟨not_mem_of_mem_splitOn hpart, hname⟩

/-! ### Directories and what lies below them -/

theorem isAbsolute_iff {p : String} : isAbsolute p ↔ (components p).head? = some .root := by
  unfold components
  simp only
  split_ifs with habsolute hhere
  · simp [habsolute]
  · simp [habsolute]
  · refine iff_of_false (by simpa using habsolute) fun hroot => ?_
    obtain ⟨part, -, hpart⟩ := List.mem_filterMap.mp (List.mem_of_mem_head? hroot)
    unfold component? at hpart
    split at hpart <;> cases hpart

variable {names : List String}

/-- The path that names make up. -/
def ofNames (names : List String) : String := "/".intercalate names

theorem ofComponents_names (names : List String) :
    ofComponents (names.map .name) = ofNames names := by
  cases names with
  | nil => rfl
  | cons name names => simp [ofComponents, ofNames, Component.text, Function.comp_def]

theorem splitOn_ofNames (hnames : ∀ name ∈ names, IsName name) :
    (ofNames names).toList.splitOn '/' = if names = [] then [[]] else names.map String.toList := by
  rw [ofNames, String.toList_intercalate]
  have hslash : "/".toList = ['/'] := rfl
  rw [hslash]
  split_ifs with hempty
  · rw [hempty]
    rfl
  · refine List.splitOn_intercalate '/' ?_ (by simpa using hempty)
    intro part hpart
    obtain ⟨name, hname, rfl⟩ := List.mem_map.mp hpart
    exact (hnames name hname).slashless

theorem filterMap_names (hnames : ∀ name ∈ names, IsName name) :
    ((ofNames names).toList.splitOn '/').filterMap component? = names.map .name := by
  rw [splitOn_ofNames hnames]
  split_ifs with hempty
  · rw [hempty]
    rfl
  · rw [List.filterMap_map, ← List.filterMap_eq_map]
    exact List.filterMap_congr fun name hname => (hnames name hname).component

theorem head?_splitOn_of_isAbsolute {p : String} (h : isAbsolute p) :
    (p.toList.splitOn '/').head? = some [] := by
  obtain ⟨cs, hcs⟩ : ∃ cs, p.toList = '/' :: cs := by
    rw [isAbsolute, beq_iff_eq] at h
    exact List.head?_eq_some_iff.mp h
  rw [hcs, List.splitOn_cons_eq_if_modifyHead]
  simp

theorem not_mem_ofNames {c : Char} (hc : c ≠ '/') (h : ∀ name ∈ names, c ∉ name.toList) :
    c ∉ (ofNames names).toList := by
  rw [ofNames, String.toList_intercalate]
  have hslash : "/".toList = ['/'] := rfl
  rw [hslash]
  induction names with
  | nil => simp
  | cons name names ih =>
    have hname := h name (by simp)
    have ih := ih fun n hn => h n (by simp [hn])
    cases names with
    | nil => simpa [List.intercalate_singleton] using hname
    | cons next names =>
      rw [List.map_cons, List.map_cons, List.intercalate_cons_cons]
      simpa [hname, hc] using ih

theorem components_ofNames (hnames : ∀ name ∈ names, IsName name) :
    isAbsolute (ofNames names) = false ∧ components (ofNames names) = names.map .name := by
  have hfirst : ∀ part ∈ ((ofNames names).toList.splitOn '/').head?, part = [] → names = [] := by
    rintro part hpart rfl
    rw [splitOn_ofNames hnames] at hpart
    split_ifs at hpart with hempty
    · exact hempty
    · obtain ⟨name, hname, hnil⟩ := List.mem_map.mp (List.mem_of_mem_head? hpart)
      have := (hnames name hname).component
      rw [hnil] at this
      cases this
  have habsolute : isAbsolute (ofNames names) = false := by
    by_contra h
    rw [Bool.not_eq_false] at h
    have hnil := hfirst [] (head?_splitOn_of_isAbsolute h) rfl
    rw [hnil] at h
    cases h
  refine ⟨habsolute, ?_⟩
  have hhere : ((ofNames names).toList.splitOn '/').head? ≠ some ['.'] := by
    intro hdot
    rw [splitOn_ofNames hnames] at hdot
    split_ifs at hdot with hempty
    · cases hdot
    · obtain ⟨name, hname, hpart⟩ := List.mem_map.mp (List.mem_of_mem_head? hdot)
      have := (hnames name hname).component
      rw [hpart] at this
      cases this
  rw [components, habsolute]
  simp only [Bool.false_eq_true, if_false, beq_iff_eq, hhere, filterMap_names hnames]

theorem head?_splitOn_append (us : Text) (parts : List Text) :
    (us.splitOn '/' ++ parts).head? = (us.splitOn '/').head? :=
  List.head?_append_of_ne_nil _ (List.splitOn_ne_nil '/' us)

theorem filterMap_splitOn_slash (us : Text) :
    ((us ++ ['/']).splitOn '/').filterMap component? = (us.splitOn '/').filterMap component? := by
  rw [List.splitOn_append_cons_self]
  simp [component?]

/-- The components behind a slash follow those in front of it. -/
theorem components_append_slash (us vs : Text) : components (String.ofList (us ++ '/' :: vs)) =
    components (String.ofList (us ++ ['/'])) ++ (vs.splitOn '/').filterMap component? := by
  have habsolute : isAbsolute (String.ofList (us ++ '/' :: vs)) =
      isAbsolute (String.ofList (us ++ ['/'])) := by
    cases us <;> simp [isAbsolute]
  simp only [components, habsolute, String.toList_ofList, filterMap_splitOn_slash]
  rw [List.splitOn_append_cons_self, List.splitOn_append_cons_self, head?_splitOn_append,
    head?_splitOn_append, List.filterMap_append]
  split_ifs <;> rfl

theorem components_slash {us : Text} (h : us ≠ []) :
    components (String.ofList (us ++ ['/'])) = components (String.ofList us) := by
  have habsolute : isAbsolute (String.ofList (us ++ ['/'])) = isAbsolute (String.ofList us) := by
    cases us with
    | nil => exact absurd rfl h
    | cons c us => simp [isAbsolute]
  simp only [components, habsolute, String.toList_ofList, filterMap_splitOn_slash]
  rw [List.splitOn_append_cons_self, head?_splitOn_append]

/-- What is joined to a path stands behind a slash, which may be the last character of the path. -/
theorem exists_join {b q : String} (hq : isAbsolute q = false) (hb : b ≠ "") :
    ∃ us, join b q = String.ofList (us ++ '/' :: q.toList) ∧
      (b = String.ofList us ∨ b = String.ofList (us ++ ['/'])) := by
  have hofList : String.ofList b.toList = b := String.ofList_toList
  rw [join, hq, beq_eq_false_iff_ne.mpr hb, Bool.or_self, if_neg Bool.false_ne_true]
  split_ifs with hslash
  · obtain ⟨us, hus⟩ := List.getLast?_eq_some_iff.mp (beq_iff_eq.mp hslash)
    refine ⟨us, ?_, Or.inr (by rw [← hus, hofList])⟩
    rw [← String.toList_inj]
    simp [hus]
  · refine ⟨b.toList, ?_, Or.inl hofList.symm⟩
    rw [← String.toList_inj]
    simp

theorem components_join {b q : String} (hq : isAbsolute q = false) (hb : b ≠ "") :
    components (join b q) = components b ++ (q.toList.splitOn '/').filterMap component? := by
  obtain ⟨us, hjoin, rfl | rfl⟩ := exists_join hq hb
  · have hus : us ≠ [] := by simpa using hb
    rw [hjoin, components_append_slash, components_slash hus]
  · rw [hjoin, components_append_slash]

theorem components_join_ofNames (hnames : ∀ name ∈ names, IsName name) (b : String) :
    components (join b (ofNames names)) = components b ++ names.map .name := by
  obtain ⟨habsolute, hcomponents⟩ := components_ofNames hnames
  by_cases hb : b = ""
  · have hjoin : join b (ofNames names) = ofNames names := by
      rw [join, hb, beq_self_eq_true, Bool.or_true, if_pos rfl]
    rw [hjoin, hcomponents, hb]
    rfl
  · rw [components_join habsolute hb, filterMap_names hnames]

theorem between_append (cs ds : List Component) : between false (cs ++ ds) cs = some ds := by
  induction cs with
  | nil => cases ds <;> rfl
  | cons c cs ih =>
    rw [List.cons_append, between]
    simpa using ih

section

variable {p base : String}

/-- **A path below a directory is seen from it as the names that follow**, and so it is shown if
there is no backslash in them. -/
theorem shown_below (h : components p = components base ++ names.map .name)
    (hslash : ∀ name ∈ names, '\\' ∉ name.toList) : shown base p = ofNames names := by
  have hnames : ∀ name ∈ names, IsName name := fun name hname =>
    isName_of_mem (p := p) (by rw [h]; simp [hname])
  have habsolute : isAbsolute p = isAbsolute base := by
    rw [Bool.eq_iff_iff, isAbsolute_iff, isAbsolute_iff, h]
    cases components base with
    | nil => cases names <;> simp
    | cons c cs => simp
  have hrelative : relativeTo? p base = some (ofNames names) := by
    rw [relativeTo?, habsolute, bne_self_eq_false, if_neg Bool.false_ne_true, h, between_append,
      Option.map_some, ofComponents_names]
  have hplain : ∀ c ∈ (ofNames names).toList, (if c == '\\' then '/' else c) = c := by
    intro c hc
    have hne : c ≠ '\\' := by
      rintro rfl
      exact not_mem_ofNames (by decide) hslash hc
    rw [beq_eq_false_iff_ne.mpr hne, if_neg Bool.false_ne_true]
  rw [shown, hrelative, Option.getD_some, List.map_congr_left hplain, List.map_id',
    String.ofList_toList]

end

end DesignLint.Path
