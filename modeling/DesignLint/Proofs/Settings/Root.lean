import DesignLint.Proofs.FileTree.Direct
import DesignLint.Settings.Locate
import Mathlib.Data.List.Infix
import Mathlib.Tactic.FinCases

/-!
# The directory of a run

A run belongs to the first project among the paths that its start goes up to
(`FileTree.projectRoot_climbs`). These paths lead to the directories above the start if the start is
absolute and has neither links nor `..` in it; then, and whenever no project makes the difference,
the run belongs to the nearest directory with a configuration (`FileTree.projectRoot_nearest`).
A path that starts in the working directory goes up no further than there, and one with `..` goes up
to directories next to the start and below it.
-/

namespace DesignLint

namespace FileTree

open DesignLint.Path (Climbs)

/-- What a path leads to is a directory, in which names that are joined to the path are looked up.
The empty path leads to the working directory. -/
def Leads (t : FileTree) (p : String) (l : Location) : Prop := t.resolve (Path.join p ".") = .ok l

/-- Whether a name in a directory leads to a file. -/
def holdsFile (t : FileTree) (l : Location) (name : String) : Bool :=
  match t.entry l name with
  | .ok (.file _) => true
  | _ => false

/-- A directory with something in it that is named like a configuration file or a repository. -/
def IsMarked (t : FileTree) (l : Location) : Prop :=
  ∃ name ∈ configNames ++ [".git"], (t.entry l name).isOk

/-- A directory with a configuration file or a repository in it. -/
def IsConfigured (t : FileTree) (l : Location) : Prop :=
  (∃ name ∈ configNames, t.holdsFile l name) ∨ (t.entry l ".git").isOk

instance (t : FileTree) (l : Location) : Decidable (t.IsMarked l) :=
  inferInstanceAs (Decidable (∃ name ∈ _, _))

instance (t : FileTree) (l : Location) : Decidable (t.IsConfigured l) :=
  inferInstanceAs (Decidable (_ ∨ _))

instance (t : FileTree) (p : String) (l : Location) : Decidable (t.Leads p l) :=
  inferInstanceAs (Decidable (_ = _))

/-- The nearest directory with a configuration, from a directory on up. -/
structure IsNearest (t : FileTree) (d root : Location) : Prop where
  above : root <+: d
  configured : t.IsConfigured root
  nearest : ∀ l, l <+: d → t.IsConfigured l → l <+: root

instance (t : FileTree) (d root : Location) : Decidable (t.IsNearest d root) :=
  decidable_of_iff
    (root <+: d ∧ t.IsConfigured root ∧ ∀ l ∈ d.inits, t.IsConfigured l → l <+: root)
    ⟨fun ⟨habove, hroot, hall⟩ => ⟨habove, hroot, fun l hl => hall l ((List.mem_inits _ _).mpr hl)⟩,
      fun h => ⟨h.above, h.configured, fun l hl => h.nearest l ((List.mem_inits _ _).mp hl)⟩⟩

/-- A path that goes up through the same projects as the directory that it leads to, all of which
have a configuration. -/
structure Upright (t : FileTree) (start : String) : Prop where
  direct : t.Direct start
  passed : ∀ l, t.IsMarked l → ((∃ p, Climbs start p ∧ t.place p = l) ↔ l <+: t.place start)
  configured : ∀ l, l <+: t.place start → t.IsMarked l → t.IsConfigured l

variable {t : FileTree} {p start : String} {l d : Location}

theorem IsConfigured.isMarked (h : t.IsConfigured l) : t.IsMarked l := by
  rcases h with ⟨name, hname, hfile⟩ | hgit
  · refine ⟨name, List.mem_append_left _ hname, ?_⟩
    unfold holdsFile at hfile
    split at hfile
    · rename_i heq
      rw [heq]
      rfl
    · cases hfile
  · exact ⟨".git", by simp, hgit⟩

/-! ### The first project on the way up -/

theorem projectAbove?_climbs {steps : Nat} (h : (Path.components p).length < steps) :
    (∃ q, t.projectAbove? steps p = some q ∧ t.isProject q ∧ Climbs p q ∧
      ∀ r, Climbs p r → t.isProject r → Climbs q r) ∨
    t.projectAbove? steps p = none ∧ ∀ r, Climbs p r → ¬ t.isProject r := by
  induction steps generalizing p with
  | zero => omega
  | succ steps ih =>
    rw [projectAbove?]
    by_cases hproject : t.isProject p
    · rw [if_pos hproject]
      exact Or.inl ⟨p, rfl, hproject, .here p, fun r hr _ => hr⟩
    · rw [if_neg hproject]
      cases hparent : Path.parent? p with
      | none =>
        refine Or.inr ⟨rfl, fun r hr => ?_⟩
        rwa [hr.eq_of_parent?_eq_none hparent]
      | some next =>
        rw [Option.bind_some]
        have hlt : (Path.components next).length < steps := by
          obtain ⟨-, c, -, hc⟩ := Path.parent?_eq_some hparent
          rw [hc, List.length_append, List.length_singleton] at h
          omega
        rcases ih hlt with ⟨q, hq, hmark, hclimbs, hfirst⟩ | ⟨hnone, hall⟩
        · refine Or.inl ⟨q, hq, hmark, .up hparent hclimbs, fun r hr hr' => ?_⟩
          rcases hr.eq_or_climbs hparent with rfl | hr
          · exact absurd hr' hproject
          · exact hfirst r hr hr'
        · refine Or.inr ⟨hnone, fun r hr => ?_⟩
          rcases hr.eq_or_climbs hparent with rfl | hr
          · exact hproject
          · exact hall r hr

/-- **A run belongs to the first project that its start goes up to**, and to its start if there is
none. -/
theorem projectRoot_climbs (t : FileTree) (start : String) :
    (t.isProject (t.projectRoot start) ∧ Climbs start (t.projectRoot start) ∧
      ∀ r, Climbs start r → t.isProject r → Climbs (t.projectRoot start) r) ∨
    t.projectRoot start = start ∧ ∀ r, Climbs start r → ¬ t.isProject r := by
  have hsteps : (Path.components start).length < start.length + 2 :=
    Nat.lt_succ_of_le (Path.length_components start)
  rw [projectRoot]
  rcases t.projectAbove?_climbs hsteps with ⟨q, hq, hfirst⟩ | ⟨hnone, hall⟩
  · rw [hq, Option.getD_some]
    exact Or.inl hfirst
  · rw [hnone, Option.getD_none]
    exact Or.inr ⟨rfl, hall⟩

/-! ### The nearest directory with a configuration -/

theorem isProject_iff (h : t.Direct p) : t.isProject p ↔ t.IsMarked (t.place p) := by
  have hplain : ∀ name ∈ configNames ++ [".git"], '/' ∉ name.toList ∧ name ≠ "" := by decide
  rw [isProject, List.any_eq_true]
  refine exists_congr fun name => and_congr_right fun hname => ?_
  rw [hasPath, h.stat_join (hplain name hname).1 (hplain name hname).2]

theorem Direct.leads (h : t.Direct p) : t.Leads p (t.place p) :=
  h.resolve_join (by decide) (by decide)

/-- A first project on the way up is not above another one: on the way from the start to its place
the other one would have been passed before. -/
theorem prefix_of_first {root : String} (h : t.Upright start) (hclimbs : Climbs start root)
    (hfirst : ∀ r, Climbs start r → t.isProject r → Climbs root r)
    (hl : l <+: t.place start) (hmark : t.IsMarked l) : l <+: t.place root := by
  by_contra hnot
  obtain ⟨r, hr, hroot, rfl⟩ := exists_climbs_place hclimbs hl hnot
  -- each of the two is above the other one, so that they are at one place
  have hback := hfirst r hr ((isProject_iff (h.direct.of_climbs hr)).mpr hmark)
  have heq : Path.components r = Path.components root :=
    hback.prefix_components.eq_of_length_le hroot.prefix_components.length_le
  refine hnot ?_
  rw [place, place, heq]

/-- **A run belongs to the nearest directory with a configuration**, and to its start if there is
none: this holds wherever going up along the start leads through the same projects as going up in
the tree, and these have a configuration. -/
theorem projectRoot_nearest (hd : t.Leads start d) (h : t.Upright start) :
    ∃ root, t.Leads (t.projectRoot start) root ∧
      (t.IsNearest d root ∨
        root = d ∧ t.projectRoot start = start ∧ ∀ l, l <+: d → ¬ t.IsConfigured l) := by
  obtain rfl : t.place start = d := Except.ok.inj (h.direct.leads.symm.trans hd)
  rcases t.projectRoot_climbs start with ⟨hproject, hclimbs, hfirst⟩ | ⟨hstart, hnone⟩
  · have hdirect := h.direct.of_climbs hclimbs
    have hmark := (isProject_iff hdirect).mp hproject
    have habove := (h.passed _ hmark).mp ⟨_, hclimbs, rfl⟩
    refine ⟨_, hdirect.leads, Or.inl ⟨habove, h.configured _ habove hmark, fun l hl hconfig => ?_⟩⟩
    exact prefix_of_first h hclimbs hfirst hl hconfig.isMarked
  · rw [hstart]
    refine ⟨_, hd, Or.inr ⟨rfl, rfl, fun l hl hconfig => ?_⟩⟩
    obtain ⟨p, hp, rfl⟩ := (h.passed l hconfig.isMarked).mpr hl
    exact hnone p hp ((isProject_iff (h.direct.of_climbs hp)).mpr hconfig.isMarked)

/-! ### Starts that go up like their directories -/

/-- **A start without links and `..` goes up like its directory**, if it is absolute, or if there is
no project above the working directory. -/
theorem Upright.of_forward (hdirect : t.Direct start) (hup : .up ∉ Path.components start)
    (hhere : Path.isAbsolute start ∨ ∀ l, l <+: t.here → t.IsMarked l → l = t.here)
    (hconfigured : ∀ l, l <+: t.place start → t.IsMarked l → t.IsConfigured l) :
    t.Upright start := by
  refine ⟨hdirect, fun l hmark => ⟨?_, fun hl => ?_⟩, hconfigured⟩
  · rintro ⟨p, hp, rfl⟩
    exact place_prefix_of_climbs hp hup
  · obtain ⟨top, htop, hcomponents⟩ := Climbs.exists_top start
    -- the way up ends at the root or in the working directory
    by_cases hbelow : l <+: t.place top
    · refine ⟨top, htop, ?_⟩
      rw [place, hcomponents] at hbelow ⊢
      by_cases habsolute : Path.isAbsolute start
      · rw [if_pos habsolute] at hbelow ⊢
        exact (List.prefix_nil.mp hbelow).symm
      · rw [if_neg habsolute] at hbelow ⊢
        exact (hhere.resolve_left habsolute l hbelow hmark).symm
    · obtain ⟨p, hp, -, hplace⟩ := exists_climbs_place htop hl hbelow
      exact ⟨p, hp, hplace⟩

/-- Configurations at the root and in `/p/q`, from where a link leads to `/e`, and in `/d` a
directory that is named like a configuration file. Paths start in `/p`. -/
def sampleTree : FileTree :=
  ⟨[(["dslint.json"], .file .empty), (["p"], .directory), (["p", "q"], .directory),
    (["p", "q", "dslint.json"], .file .empty), (["p", "q", "r"], .directory),
    (["p", "q", "l"], .link "/e"), (["e"], .directory), (["d"], .directory),
    (["d", "dslint.toml"], .directory)], ["p"], []⟩

/-- A start below a directory with a configuration. -/
theorem projectRoot_nearest_below :
    ∃ root, sampleTree.Leads (sampleTree.projectRoot "/p/./q/r/") root ∧
      sampleTree.IsNearest ["p", "q", "r"] root := by
  have hcomponents : Path.components "/p/./q/r/" = [.root, .name "p", .name "q", .name "r"] := by
    decide +kernel
  have hplace : sampleTree.place "/p/./q/r/" = ["p", "q", "r"] := by
    rw [place, hcomponents]
    rfl
  have hdirect : sampleTree.Direct "/p/./q/r/" := by
    intro cs hcs
    rw [hcomponents, ← List.mem_inits] at hcs
    fin_cases hcs <;> rfl
  have h : sampleTree.Upright "/p/./q/r/" := by
    refine .of_forward hdirect (by rw [hcomponents]; decide) (Or.inl (by decide +kernel)) ?_
    rw [hplace]
    intro l hl
    rw [← List.mem_inits] at hl
    fin_cases hl <;> decide +kernel
  obtain ⟨root, hroot, hnearest | ⟨-, -, hnone⟩⟩ := projectRoot_nearest (hplace ▸ hdirect.leads) h
  · exact ⟨root, hroot, hnearest⟩
  · exact absurd (by decide +kernel) (hnone ["p", "q"] (by decide))

/-- A start whose run belongs to another directory than the nearest one with a configuration. -/
def Misses (t : FileTree) (start : String) : Prop :=
  ∃ d root found, t.Leads start d ∧ t.IsNearest d root ∧ t.Leads (t.projectRoot start) found ∧
    found ≠ root

/-- The nearest directory with a configuration is missed from the working directory, along a path
with `..` in it, through a link, and because of a directory that is named like a configuration
file. -/
theorem exists_root_missed :
    sampleTree.Misses "." ∧ sampleTree.Misses "q/.." ∧ sampleTree.Misses "/p/q/l" ∧
      sampleTree.Misses "/d" := by
  refine ⟨?_, ?_, ?_, ?_⟩
  · exact ⟨["p"], [], ["p"], by decide +kernel⟩
  · exact ⟨["p"], [], ["p", "q"], by decide +kernel⟩
  · exact ⟨["e"], [], ["p", "q"], by decide +kernel⟩
  · exact ⟨["d"], [], ["d"], by decide +kernel⟩

end FileTree

end DesignLint
