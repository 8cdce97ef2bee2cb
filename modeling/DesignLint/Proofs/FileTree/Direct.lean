import DesignLint.FileTree.Resolve
import DesignLint.Proofs.Path.Parent

/-!
# Paths through directories only

A path that leads from directory to directory, through no link, leads to the place that its
components spell out (`FileTree.place`), and what a name that is joined to it leads to is settled
there (`FileTree.Direct.resolve_join`). Going up along a path is not going up in the tree: the
parent of `a/..` is below its place. But no location between two places is left out
(`FileTree.exists_climbs_place`).
-/

namespace DesignLint

open DesignLint.Path (Component component? components)

/-- The location that a component leads to from a directory. -/
def Location.enter (l : Location) : Component → Location
  | .root => []
  | .here => l
  | .up => l.dropLast
  | .name s => l ++ [s]

namespace FileTree

/-- The place that components spell out, from the working directory on. -/
def placeOf (t : FileTree) (cs : List Component) : Location := cs.foldl Location.enter t.here

/-- The place that a path spells out. -/
def place (t : FileTree) (p : String) : Location := t.placeOf (components p)

/-- A path leads from directory to directory, through no link. -/
def Direct (t : FileTree) (p : String) : Prop :=
  ∀ cs, cs <+: components p → t.node? (t.placeOf cs) = some .directory

/-- What a name in a directory leads to. -/
def entry (t : FileTree) (l : Location) (name : String) : Except FileError FileNode := do
  t.nodeAt (← t.locate true linkLimit l [name])

/-- The components that steps stand for. -/
def stepComponents (todo : List String) : List Component :=
  todo.filterMap fun step => component? step.toList

/-- The steps of a path apart from a slash at the end. -/
def plainSteps (p : String) : List String :=
  ((p.toList.splitOn '/').map String.ofList).filter (· != "")

variable {t : FileTree} {last : Bool} {l : Location} {todo : List String}

/-! ### Steps through directories -/

theorem component?_name {step : String} (hempty : step ≠ "") (hdot : step ≠ ".")
    (hdots : step ≠ "..") : component? step.toList = some (.name step) := by
  have hne : ∀ {s : String}, step ≠ s → step.toList ≠ s.toList := fun h => mt String.toList_inj.mp h
  unfold component?
  split
  · exact absurd ‹_› (hne hempty)
  · exact absurd ‹_› (hne hdot)
  · exact absurd ‹_› (hne hdots)
  · rw [String.ofList_toList]

section

variable {follow : Location → List String → Except FileError Location}

theorem locateUpTo_cons {step : String} {c : Component} (hempty : step ≠ "")
    (hc : component? step.toList = some c) (hnode : t.node? (l.enter c) = some .directory) :
    t.locateUpTo last follow l (step :: todo) = t.locateUpTo last follow (l.enter c) todo := by
  have hdot : step ≠ "." := by
    rintro rfl
    cases hc
  rw [locateUpTo, if_neg hdot]
  by_cases hdots : step = ".."
  · rw [if_pos hdots]
    rw [hdots] at hc
    cases hc
    rfl
  · rw [component?_name hempty hdot hdots] at hc
    cases hc
    rw [Location.enter] at hnode
    rw [if_neg hdots]
    simp only [hnode]
    rfl

/-- Steps that go through directories only lead to the place that they spell out. -/
theorem locateUpTo_append (hempty : "" ∉ todo)
    (hdirectory : ∀ cs, cs <+: stepComponents todo →
      t.node? (cs.foldl Location.enter l) = some .directory) (more : List String) :
    t.locateUpTo last follow l (todo ++ more) =
      t.locateUpTo last follow ((stepComponents todo).foldl Location.enter l) more := by
  induction todo generalizing l with
  | nil => rfl
  | cons step todo ih =>
    obtain ⟨hstep, hempty⟩ := not_or.mp (mt List.mem_cons.mpr hempty)
    cases hc : component? step.toList with
    | none =>
      have hdot : step = "." := by
        by_contra hdot
        by_cases hdots : step = ".."
        · rw [hdots] at hc
          cases hc
        · rw [component?_name (Ne.symm hstep) hdot hdots] at hc
          cases hc
      have hcons : stepComponents (step :: todo) = stepComponents todo :=
        List.filterMap_cons_none hc
      rw [hcons] at hdirectory ⊢
      rw [List.cons_append, locateUpTo, if_pos hdot]
      exact ih hempty hdirectory
    | some c =>
      have hcons : stepComponents (step :: todo) = c :: stepComponents todo :=
        List.filterMap_cons_some hc
      rw [hcons] at hdirectory ⊢
      rw [List.cons_append, locateUpTo_cons (Ne.symm hstep) hc (hdirectory [c] (by simp))]
      exact ih hempty fun cs hcs => hdirectory (c :: cs) (List.cons_prefix_cons.mpr ⟨rfl, hcs⟩)

end

theorem locate_append {links : Nat} (hempty : "" ∉ todo)
    (hdirectory : ∀ cs, cs <+: stepComponents todo →
      t.node? (cs.foldl Location.enter l) = some .directory) (more : List String) :
    t.locate last links l (todo ++ more) =
      t.locate last links ((stepComponents todo).foldl Location.enter l) more := by
  cases links with
  | zero => exact locateUpTo_append hempty hdirectory more
  | succ links => exact locateUpTo_append hempty hdirectory more

/-! ### Names in a directory -/

theorem not_mem_plainSteps (p : String) : "" ∉ plainSteps p := by
  simp [plainSteps]

theorem stepComponents_plainSteps (p : String) :
    stepComponents (plainSteps p) = (p.toList.splitOn '/').filterMap component? := by
  rw [stepComponents, plainSteps, List.filterMap_filter, List.filterMap_map]
  refine List.filterMap_congr fun part _ => ?_
  by_cases hpart : part = []
  · rw [hpart]
    rfl
  · have hne : String.ofList part ≠ "" := by simpa using hpart
    simp [hne]

theorem plainSteps_slash (us vs : Text) : plainSteps (String.ofList (us ++ '/' :: vs)) =
    plainSteps (String.ofList us) ++ plainSteps (String.ofList vs) := by
  simp only [plainSteps, String.toList_ofList]
  rw [List.splitOn_append_cons_self, List.map_append, List.filter_append]

theorem plainSteps_join {q : String} (hq : Path.isAbsolute q = false) (p : String) :
    plainSteps (Path.join p q) = plainSteps p ++ plainSteps q := by
  by_cases hp : p = ""
  · rw [Path.join, hp, beq_self_eq_true, Bool.or_true, if_pos rfl]
    rfl
  · obtain ⟨us, hjoin, rfl | rfl⟩ := Path.exists_join hq hp
    · rw [hjoin, plainSteps_slash, String.ofList_toList]
    · have hslash : plainSteps (String.ofList (us ++ ['/'])) = plainSteps (String.ofList us) := by
        rw [plainSteps_slash]
        exact List.append_nil _
      rw [hjoin, plainSteps_slash, String.ofList_toList, hslash]

section

variable {name : String}

theorem isAbsolute_of_slashless (hslash : '/' ∉ name.toList) : Path.isAbsolute name = false := by
  rw [Path.isAbsolute, beq_eq_false_iff_ne]
  exact fun hhead => hslash (List.mem_of_mem_head? hhead)

theorem getLast?_join (p : String) (hname : name ≠ "") :
    (Path.join p name).toList.getLast? = name.toList.getLast? := by
  have hne : name.toList ≠ [] := by simpa using hname
  rw [Path.join]
  split_ifs
  · rfl
  · rw [String.toList_append, List.getLast?_append_of_ne_nil _ hne]
  · rw [String.toList_append, List.getLast?_append_of_ne_nil _ hne]

theorem steps_join (p : String) (hslash : '/' ∉ name.toList) (hname : name ≠ "") :
    steps (Path.join p name) = plainSteps p ++ [name] := by
  have hone : plainSteps name = [name] := by
    have hparts : (['/'].intercalate [name.toList]).splitOn '/' = [name.toList] :=
      List.splitOn_intercalate '/' (by simpa using hslash) (by simp)
    rw [List.intercalate_singleton] at hparts
    simp [plainSteps, hparts, hname]
  have hlast : (Path.join p name).toList.getLast? ≠ some '/' := by
    rw [getLast?_join p hname]
    exact fun hlast => hslash (List.mem_of_getLast? hlast)
  have hsteps : steps (Path.join p name) = plainSteps (Path.join p name) := by
    rw [steps, beq_eq_false_iff_ne.mpr hlast, if_neg Bool.false_ne_true, List.append_nil]
    rfl
  rw [hsteps, plainSteps_join (isAbsolute_of_slashless hslash), hone]

theorem start_join (here : Location) (p : String) (hslash : '/' ∉ name.toList) :
    start here (Path.join p name) = start here p := by
  have habsolute : Path.isAbsolute (Path.join p name) = Path.isAbsolute p := by
    rw [Path.join, isAbsolute_of_slashless hslash, Bool.false_or]
    by_cases hp : p = ""
    · rw [hp, beq_self_eq_true, if_pos rfl, isAbsolute_of_slashless hslash]
      rfl
    · obtain ⟨c, cs, hcs⟩ := List.exists_cons_of_ne_nil (mt String.toList_eq_nil_iff.mp hp)
      rw [beq_eq_false_iff_ne.mpr hp, if_neg Bool.false_ne_true]
      split_ifs <;> simp [Path.isAbsolute, hcs]
  rw [start, start, habsolute]

end

theorem exists_lead (p : String) : ∃ lead, t.placeOf lead = start t.here p ∧
    components p = lead ++ (p.toList.splitOn '/').filterMap component? := by
  unfold components start
  simp only
  split_ifs
  · exact ⟨[.root], rfl, rfl⟩
  · exact ⟨[.here], rfl, rfl⟩
  · exact ⟨[], rfl, rfl⟩

theorem placeOf_append (cs ds : List Component) :
    t.placeOf (cs ++ ds) = ds.foldl Location.enter (t.placeOf cs) :=
  List.foldl_append

namespace Direct

variable {p : String}

/-- **A name that is joined to a path through directories is looked up in the last of them.** -/
theorem resolve_join (h : t.Direct p) {name : String} (hslash : '/' ∉ name.toList)
    (hname : name ≠ "") :
    t.resolve (Path.join p name) = t.locate true linkLimit (t.place p) [name] := by
  obtain ⟨lead, hlead, hcomponents⟩ := exists_lead (t := t) p
  have hne : Path.join p name ≠ "" := by
    intro hnil
    have := getLast?_join p hname
    rw [hnil, eq_comm] at this
    exact hname (by simpa using this)
  rw [resolve, if_neg hne, steps_join p hslash hname, start_join _ _ hslash,
    locate_append (not_mem_plainSteps p), stepComponents_plainSteps, place, hcomponents,
    placeOf_append, hlead]
  intro cs hcs
  rw [stepComponents_plainSteps] at hcs
  rw [← hlead, ← placeOf_append]
  refine h _ ?_
  rw [hcomponents]
  exact List.prefix_append_right_inj _ |>.mpr hcs

theorem stat_join (h : t.Direct p) {name : String} (hslash : '/' ∉ name.toList)
    (hname : name ≠ "") : t.stat (Path.join p name) = t.entry (t.place p) name := by
  rw [stat, h.resolve_join hslash hname]
  rfl

theorem of_climbs {q : String} (h : t.Direct p) (hq : Path.Climbs p q) : t.Direct q :=
  fun cs hcs => h cs (hcs.trans hq.prefix_components)

end Direct

/-! ### Going up -/

section

variable {m : Location} {c : Component} {p q : String}

/-- Entering a component leads below a location that was not above before only at that location. -/
theorem eq_enter_of_below (h : m <+: l.enter c) (hnot : ¬ m <+: l) : m = l.enter c := by
  cases c with
  | root => exact List.prefix_nil.mp h
  | here => exact absurd h hnot
  | up => exact absurd (h.trans (List.dropLast_prefix l)) hnot
  | name s => exact (List.prefix_concat_iff.mp h).resolve_right hnot

theorem prefix_enter (l : Location) (hroot : c ≠ .root) (hup : c ≠ .up) : l <+: l.enter c := by
  cases c with
  | root => exact absurd rfl hroot
  | here => exact List.prefix_rfl
  | up => exact absurd rfl hup
  | name s => exact List.prefix_append _ _

theorem place_of_parent? (h : Path.parent? p = some q) :
    ∃ c, c ≠ .root ∧ c ∈ components p ∧ t.place p = (t.place q).enter c := by
  obtain ⟨-, c, hroot, hc⟩ := Path.parent?_eq_some h
  refine ⟨c, hroot, by simp [hc], ?_⟩
  rw [place, hc, placeOf_append]
  rfl

/-- **Going up from below a location to a place that is not below it, a path passes the
location.** -/
theorem exists_climbs_place (h : Path.Climbs p q) (hm : m <+: t.place p)
    (hnot : ¬ m <+: t.place q) :
    ∃ r, Path.Climbs p r ∧ Path.Climbs r q ∧ t.place r = m := by
  induction h with
  | here => exact absurd hm hnot
  | @up p next q hparent hclimbs ih =>
    -- a component that leaves what is below the location leaves the location itself
    by_cases hnext : m <+: t.place next
    · obtain ⟨r, hr, hrq, hplace⟩ := ih hnext hnot
      exact ⟨r, .up hparent hr, hrq, hplace⟩
    · obtain ⟨c, -, -, hc⟩ := place_of_parent? (t := t) hparent
      rw [hc] at hm
      exact ⟨p, .here p, .up hparent hclimbs, hc.trans (eq_enter_of_below hm hnext).symm⟩

/-- Without `..` in it, a path goes up to the directories above its place only. -/
theorem place_prefix_of_climbs (h : Path.Climbs p q) (hup : .up ∉ components p) :
    t.place q <+: t.place p := by
  induction h with
  | here => exact List.prefix_rfl
  | @up p next q hparent _ ih =>
    obtain ⟨c, hroot, hmem, hc⟩ := place_of_parent? (t := t) hparent
    have hfront := (Path.Climbs.up hparent (.here next)).prefix_components
    refine (ih fun hmem => hup (hfront.subset hmem)).trans ?_
    rw [hc]
    exact prefix_enter _ hroot fun heq => hup (heq ▸ hmem)

end

end FileTree

end DesignLint
