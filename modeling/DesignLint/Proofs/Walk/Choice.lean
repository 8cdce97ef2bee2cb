import DesignLint.Proofs.Sort
import DesignLint.Proofs.Walk.Candidates

/-!
# Which paths are chosen

`Selection.Chooses` says which paths are chosen of those of a walk: for each file the one that comes
before all others that lead to it, in order. This leaves no choice, whatever order the paths come in
and however often (`Chooses.unique`). A path comes first if it is found to be direct
(`Selection.chooses_direct`), that is, if it passes through no link, as long as no name holds a
backslash (`Selection.direct_iff`): where a path is reported, these are slashes.
-/

namespace DesignLint

/-- Two paths lead to the same file. -/
def FileTree.Meet (t : FileTree) (p q : String) : Prop :=
  Path.same (t.canonical p) (t.canonical q)

theorem FileTree.Meet.symm {t : FileTree} {p q : String} (h : t.Meet p q) : t.Meet q p :=
  Path.same_iff.mpr (Path.same_iff.mp h).symm

theorem FileTree.Meet.trans {t : FileTree} {p q r : String} (h : t.Meet p q) (h' : t.Meet q r) :
    t.Meet p r :=
  Path.same_iff.mpr ((Path.same_iff.mp h).trans (Path.same_iff.mp h'))

/-- Some paths come before all others; else the order of paths decides. -/
def Path.Before (first : String → Prop) (p q : String) : Prop :=
  (first p ∧ ¬ first q) ∨ ((first p ↔ first q) ∧ Path.le p q)

/-- Only a path with the same components comes both before another and behind it. -/
theorem Path.Before.components_eq {first : String → Prop} {p q : String} (h : Before first p q)
    (h' : Before first q p) : components p = components q := by
  rcases h with ⟨hp, hq⟩ | ⟨hiff, hle⟩
  · rcases h' with ⟨hq', -⟩ | ⟨hiff, -⟩
    · exact absurd hq' hq
    · exact absurd (hiff.mpr hp) hq
  · rcases h' with ⟨hq, hp⟩ | ⟨-, hle'⟩
    · exact absurd (hiff.mpr hq) hp
    · exact le_antisymm (le_iff.mp hle) (le_iff.mp hle')

namespace Selection

/-- For each file that some paths lead to, one path to it is chosen, which comes before all
others. -/
structure Chooses (t : FileTree) (first : String → Prop) (paths chosen : List String) : Prop where
  mem : ∀ p ∈ chosen, p ∈ paths
  /-- No file is lost. -/
  exists_before : ∀ q ∈ paths, ∃ p ∈ chosen, t.Meet p q ∧ Path.Before first p q
  apart : chosen.Pairwise fun p q => ¬ t.Meet p q
  sorted : chosen.Pairwise fun p q => Path.le p q
  /-- There are no repetitions, if it depends on its components where a path leads. -/
  increasing : (∀ p ∈ paths, ∀ q ∈ paths, Path.same p q → t.Meet p q) →
    chosen.Pairwise fun p q => Path.le p q ∧ ¬ Path.same p q

variable {s : Selection} {t : FileTree} {first first' : String → Prop}
  {paths paths' chosen chosen' : List String} {p q : String}

namespace Chooses

theorem eq_of_meet (h : Chooses t first paths chosen) (hp : p ∈ chosen) (hq : q ∈ chosen)
    (hmeet : t.Meet p q) : p = q := by
  by_contra hne
  have : Std.Symm fun p q => ¬ t.Meet p q := ⟨fun _ _ hnot hmeet => hnot hmeet.symm⟩
  exact h.apart.forall hp hq hne hmeet

theorem before (h : Chooses t first paths chosen) (hp : p ∈ chosen) (hq : q ∈ paths)
    (hmeet : t.Meet p q) : Path.Before first p q := by
  obtain ⟨r, hr, hrq, hbefore⟩ := h.exists_before q hq
  rwa [h.eq_of_meet hp hr (hmeet.trans hrq.symm)]

theorem mem_keys (h : Chooses t first paths chosen) (h' : Chooses t first paths' chosen')
    (hpaths : ∀ p, p ∈ paths ↔ p ∈ paths') (hp : p ∈ chosen) :
    ∃ q ∈ chosen', Path.components (t.canonical q) = Path.components (t.canonical p) ∧
      Path.components q = Path.components p := by
  obtain ⟨q, hq, hqp, hbefore⟩ := h'.exists_before p ((hpaths p).mp (h.mem p hp))
  have hbefore' := h.before hp ((hpaths q).mpr (h'.mem q hq)) hqp.symm
  exact ⟨q, hq, Path.same_iff.mp hqp, hbefore.components_eq hbefore'⟩

/-- **Nothing is left to choice**: neither the order nor repetitions of paths matter. -/
theorem unique (h : Chooses t first paths chosen) (h' : Chooses t first paths' chosen')
    (hpaths : ∀ p, p ∈ paths ↔ p ∈ paths') :
    chosen.map Path.components = chosen'.map Path.components := by
  let key (p : String) := (Path.components (t.canonical p), Path.components p)
  have hnodup : ∀ {ps cs : List String}, Chooses t first ps cs → (cs.map key).Nodup := by
    intro ps cs hcs
    refine List.pairwise_map.mpr (hcs.apart.imp fun hnot heq => hnot ?_)
    exact Path.same_iff.mpr (congrArg Prod.fst heq)
  have hkeys : (chosen.map key).Perm (chosen'.map key) := by
    rw [List.perm_ext_iff_of_nodup (hnodup h) (hnodup h')]
    intro k
    simp only [List.mem_map]
    constructor
    · rintro ⟨p, hp, rfl⟩
      obtain ⟨q, hq, hfile, hpath⟩ := h.mem_keys h' hpaths hp
      exact ⟨q, hq, Prod.ext hfile hpath⟩
    · rintro ⟨p, hp, rfl⟩
      obtain ⟨q, hq, hfile, hpath⟩ := h'.mem_keys h (fun p => (hpaths p).symm) hp
      exact ⟨q, hq, Prod.ext hfile hpath⟩
  have hperm := hkeys.map Prod.snd
  rw [List.map_map, List.map_map] at hperm
  refine hperm.eq_of_pairwise (fun _ _ _ _ => le_antisymm) ?_ ?_
  · exact List.pairwise_map.mpr (h.sorted.imp Path.le_iff.mp)
  · exact List.pairwise_map.mpr (h'.sorted.imp Path.le_iff.mp)

theorem congr (h : Chooses t first paths chosen) (hfirst : ∀ p ∈ paths, first p ↔ first' p) :
    Chooses t first' paths chosen where
  mem := h.mem
  exists_before q hq := by
    obtain ⟨p, hp, hmeet, hbefore⟩ := h.exists_before q hq
    refine ⟨p, hp, hmeet, ?_⟩
    rwa [Path.Before, ← hfirst p (h.mem p hp), ← hfirst q hq]
  apart := h.apart
  sorted := h.sorted
  increasing := h.increasing

end Chooses

/-! ### What a walk chooses -/

theorem before_of_rank_le (h : (s.candidate t p).rank ≤ (s.candidate t q).rank) :
    Path.Before (fun p => (s.candidate t p).direct) p q := by
  rcases Prod.Lex.le_iff.mp h with hlt | ⟨heq, hle⟩
  · obtain ⟨hp, hq⟩ := Bool.lt_iff.mp hlt
    exact Or.inl ⟨Bool.not_eq_eq_eq_not.mp hp, by simpa [Candidate.rank] using hq⟩
  · exact Or.inr ⟨Bool.eq_iff_iff.mp (Bool.not_inj heq), Path.le_iff.mpr hle⟩

/-- Of the paths of a walk those come first that are found to be direct. -/
theorem chooses_direct (s : Selection) (t : FileTree) (paths : List String) :
    Chooses t (fun p => (s.candidate t p).direct) paths (s.chosen t paths) := by
  obtain ⟨-, hkept, hrank⟩ := s.kept_invariant t paths
  have hmem : ∀ p, p ∈ s.chosen t paths ↔ ∃ c ∈ s.kept t paths, c.path = p := fun p =>
    List.mem_mergeSort.trans List.mem_map
  have hapart := s.pairwise_chosen t paths
  have hsorted : (s.chosen t paths).Pairwise fun p q => Path.le p q := by
    refine List.pairwise_mergeSort (fun a b c hab hbc => ?_) (fun a b => ?_) _
    · exact Path.le_iff.mpr (le_trans (Path.le_iff.mp hab) (Path.le_iff.mp hbc))
    · rw [Bool.or_eq_true, Path.le_iff, Path.le_iff]
      exact le_total _ _
  have hpaths : ∀ p ∈ s.chosen t paths, p ∈ paths := by
    intro p hp
    obtain ⟨c, hc, rfl⟩ := (hmem p).mp hp
    obtain ⟨q, hq, rfl⟩ := hkept c hc
    exact hq
  refine
    { mem := hpaths
      exists_before := fun q hq => ?_
      apart := hapart
      sorted := hsorted
      increasing := fun hmeet => ?_ }
  · obtain ⟨c, hc, hfile, hle⟩ := hrank q hq
    obtain ⟨p, -, rfl⟩ := hkept c hc
    exact ⟨p, (hmem p).mpr ⟨_, hc, rfl⟩, Path.same_iff.mpr hfile, before_of_rank_le hle⟩
  · refine (hsorted.and hapart).imp_of_mem fun hp hq h => ⟨h.1, fun hsame => h.2 ?_⟩
    exact hmeet _ (hpaths _ hp) _ (hpaths _ hq) hsame

/-! ### Links -/

/-- A path below the base passes through no link if it is, seen from the base, where the file lies
that it leads to. -/
def LinkFree (s : Selection) (t : FileTree) (p : String) : Prop :=
  ∃ rest, Path.components p = Path.components s.base ++ rest ∧
    Path.components (t.canonical p) = Path.components (t.canonical s.base) ++ rest

/-- A path is plain if it is made of names that follow the base, without a backslash. -/
def Plain (s : Selection) (p : String) : Prop :=
  ∃ names : List String, Path.components p = Path.components s.base ++ names.map .name ∧
    ∀ name ∈ names, '\\' ∉ name.toList

/-- **A plain path is found to be direct if it passes through no link.** -/
theorem direct_iff (h : s.Plain p) : (s.candidate t p).direct ↔ s.LinkFree t p := by
  obtain ⟨names, hp, hslash⟩ := h
  have hnames : ∀ name ∈ names, Path.IsName name := fun name hname =>
    Path.isName_of_mem (p := p) (by rw [hp]; simp [hname])
  have hdirect : (s.candidate t p).direct ↔ Path.components (t.canonical p) =
      Path.components (t.canonical s.base) ++ names.map .name := by
    rw [candidate, shown, Path.shown_below hp hslash, Path.same_iff,
      Path.components_join_ofNames hnames]
  rw [hdirect]
  refine ⟨fun h => ⟨_, hp, h⟩, ?_⟩
  rintro ⟨rest, hrest, h⟩
  obtain rfl := List.append_cancel_left (hp.symm.trans hrest)
  exact h

/-- **Which paths a walk chooses does not depend on the order in which it finds them.** For each
file the least path to it is chosen, after those that are found to be direct; and these are the
paths that pass through no link, if all are plain. -/
theorem chosen_chooses (s : Selection) (t : FileTree) (paths : List String) :
    Chooses t (fun p => (s.candidate t p).direct) paths (s.chosen t paths) ∧
    ((∀ p ∈ paths, s.Plain p) → Chooses t (s.LinkFree t) paths (s.chosen t paths)) ∧
    ∀ paths', (∀ p, p ∈ paths ↔ p ∈ paths') →
      (s.chosen t paths).map Path.components = (s.chosen t paths').map Path.components := by
  have h := s.chooses_direct t
  exact ⟨h paths, fun hplain => (h paths).congr fun p hp => direct_iff (hplain p hp),
    fun paths' hpaths => (h paths).unique (h paths') hpaths⟩

/-- A file with two links to it, in some order and in another one with a repetition. -/
theorem chosen_chooses_tsx :
    let s : Selection := ⟨"/w", ["/w"], [], [], ["tsx"], 100⟩
    let t : FileTree := ⟨[(["w"], .directory), (["w", "z"], .directory),
      (["w", "z", "y.tsx"], .file "<p/>".toUTF8), (["w", "a.tsx"], .link "z/y.tsx"),
      (["w", "b"], .link "z")], [], []⟩
    let paths := ["/w/a.tsx", "/w/z/y.tsx", "/w/b/y.tsx"]
    Chooses t (s.LinkFree t) paths ["/w/z/y.tsx"] ∧
      ["/w/z/y.tsx"].map Path.components = (s.chosen t
        ["/w/b/y.tsx", "/w/z/y.tsx", "/w/a.tsx", "/w/z/y.tsx"]).map Path.components := by
  intro s t paths
  have hchosen : s.chosen t paths = ["/w/z/y.tsx"] := by
    simp only [chosen, mergeSort_eq_sortUpTo]
    decide +kernel
  obtain ⟨-, hfree, hpaths⟩ := chosen_chooses s t paths
  have hplain : ∀ p ∈ paths, s.Plain p := by
    simp only [paths, List.mem_cons, List.not_mem_nil, or_false]
    rintro p (rfl | rfl | rfl)
    · exact ⟨["a.tsx"], by decide +kernel, by decide +kernel⟩
    · exact ⟨["z", "y.tsx"], by decide +kernel, by decide +kernel⟩
    · exact ⟨["b", "y.tsx"], by decide +kernel, by decide +kernel⟩
  rw [hchosen] at hfree hpaths
  refine ⟨hfree hplain, hpaths _ fun p => ?_⟩
  simp only [paths, List.mem_cons, List.not_mem_nil, or_false]
  tauto

/-- A file whose name holds a backslash, and a file outside the base; in place of either, a link to
it is chosen, though its own path is where it lies. -/
theorem exists_link_chosen :
    let s : Selection := ⟨"/w", ["/w"], [], [], ["tsx"], 100⟩
    let t : FileTree := ⟨[(["w"], .directory), (["w", "z\\y.tsx"], .file "<p/>".toUTF8),
      (["w", "a.tsx"], .link "z\\y.tsx")], [], []⟩
    let paths := ["/w/a.tsx", "/w/z\\y.tsx"]
    let outside : Selection := ⟨"/v", ["/u"], [], [], ["tsx"], 100⟩
    let u : FileTree := ⟨[(["v"], .directory), (["u"], .directory),
      (["u", "z.tsx"], .file "<p/>".toUTF8), (["u", "a.tsx"], .link "z.tsx")], [], []⟩
    (s.candidates t = s.chosen t paths ∧ s.chosen t paths = ["/w/a.tsx"] ∧
      t.canonical "/w/z\\y.tsx" = "/w/z\\y.tsx" ∧ s.LinkFree t "/w/z\\y.tsx" ∧
      ¬ Chooses t (s.LinkFree t) paths (s.chosen t paths)) ∧
    outside.candidates u = ["/u/a.tsx"] ∧ u.canonical "/u/z.tsx" = "/u/z.tsx" := by
  intro s t paths outside u
  have hchosen : s.chosen t paths = ["/w/a.tsx"] := by
    simp only [chosen, mergeSort_eq_sortUpTo]
    decide +kernel
  have hcandidates : s.candidates t = ["/w/a.tsx"] := by
    simp only [candidates, chosen, mergeSort_eq_sortUpTo]
    decide +kernel
  have houtside : outside.candidates u = ["/u/a.tsx"] := by
    simp only [candidates, chosen, mergeSort_eq_sortUpTo]
    decide +kernel
  have hfree : s.LinkFree t "/w/z\\y.tsx" :=
    ⟨[.name "z\\y.tsx"], by decide +kernel, by decide +kernel⟩
  have hlink : ¬ s.LinkFree t "/w/a.tsx" := by
    rintro ⟨rest, hrest, hfile⟩
    have hp : Path.components "/w/a.tsx" = Path.components s.base ++ [.name "a.tsx"] := by
      decide +kernel
    obtain rfl := List.append_cancel_left (hp.symm.trans hrest)
    revert hfile
    decide +kernel
  refine ⟨⟨hcandidates.trans hchosen.symm, hchosen, by decide +kernel, hfree, fun h => ?_⟩,
    houtside, by decide +kernel⟩
  rw [hchosen] at h
  have hmeet : t.Meet "/w/a.tsx" "/w/z\\y.tsx" := by
    rw [FileTree.Meet]
    decide +kernel
  rcases h.before (by simp) (by simp [paths]) hmeet with ⟨hp, -⟩ | ⟨hiff, -⟩
  · exact hlink hp
  · exact hlink (hiff.mpr hfree)

end Selection

end DesignLint
