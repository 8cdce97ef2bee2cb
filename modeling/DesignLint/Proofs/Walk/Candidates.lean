import DesignLint.Proofs.Path
import DesignLint.Walk.Candidates
import Mathlib.Data.List.Induction
import Mathlib.Data.List.Nodup

/-!
# Candidates are different files

Candidates that lead to one file are ordered by `Candidate.rank`. Of those that have been seen the
first is kept (`Candidate.exists_rank_le_insert`) and no other (`Candidate.map_file_insert`), so
`Selection.kept` lists each file once (`Selection.kept_invariant`), and no two candidates of a walk
lead to the same file (`Selection.nodup_canonical_candidates`).
-/

namespace DesignLint

namespace Candidate

/-- The file that a candidate leads to, by the components of its path. -/
def file (c : Candidate) : List Path.Component := Path.components c.target

/-- The place of a candidate among those that lead to the same file. -/
def rank (c : Candidate) : Bool ×ₗ List Path.Component :=
  toLex (!c.direct, Path.components c.path)

variable {c d : Candidate} {cs : List Candidate}

theorem precedes_iff : c.precedes d ↔ c.rank ≤ d.rank := by
  rw [precedes, rank, rank, Prod.Lex.le_iff, Bool.or_eq_true, Bool.and_eq_true, Bool.and_eq_true,
    Path.le_iff]
  cases c.direct <;> cases d.direct <;> simp

theorem insert_cons : c.insert (d :: cs) =
    if d.file = c.file then (if d.rank ≤ c.rank then d else c) :: cs else d :: c.insert cs := by
  rw [insert]
  by_cases hfile : d.file = c.file
  · rw [if_pos hfile, if_pos (Path.same_iff.mpr hfile)]
    by_cases hrank : d.rank ≤ c.rank
    · rw [if_pos hrank, if_pos (precedes_iff.mpr hrank)]
    · rw [if_neg hrank, if_neg (mt precedes_iff.mp hrank)]
  · rw [if_neg hfile, if_neg (mt Path.same_iff.mp hfile)]

theorem map_file_insert : (c.insert cs).map file =
    if c.file ∈ cs.map file then cs.map file else cs.map file ++ [c.file] := by
  induction cs with
  | nil => simp [insert]
  | cons d ds ih =>
    rw [insert_cons]
    by_cases hd : d.file = c.file
    · have hmem : c.file ∈ (d :: ds).map file := by simp [hd]
      rw [if_pos hd, if_pos hmem, List.map_cons, List.map_cons]
      split_ifs
      · rfl
      · rw [hd]
    · rw [if_neg hd, List.map_cons, ih]
      simp only [List.map_cons, List.mem_cons, Ne.symm hd, false_or]
      split_ifs
      · rfl
      · rfl

theorem nodup_insert (h : (cs.map file).Nodup) : ((c.insert cs).map file).Nodup := by
  rw [map_file_insert]
  split_ifs with hmem
  · exact h
  · exact List.Nodup.append h (List.nodup_singleton _) (by simpa using hmem)

theorem mem_insert (h : d ∈ c.insert cs) : d = c ∨ d ∈ cs := by
  induction cs with
  | nil => exact Or.inl (by simpa [insert] using h)
  | cons e es ih =>
    rw [insert_cons] at h
    split_ifs at h
    · exact Or.inr h
    · rcases List.mem_cons.mp h with rfl | h
      · exact Or.inl rfl
      · exact Or.inr (List.mem_cons_of_mem _ h)
    · rcases List.mem_cons.mp h with rfl | h
      · exact Or.inr (by simp)
      · exact (ih h).imp_right (List.mem_cons_of_mem _)

/-- What is put in, or was there, is still there, or something that comes before it. -/
theorem exists_rank_le_insert (h : d = c ∨ d ∈ cs) :
    ∃ e ∈ c.insert cs, e.file = d.file ∧ e.rank ≤ d.rank := by
  induction cs with
  | nil =>
    obtain rfl : d = c := by simpa using h
    exact ⟨d, by simp [insert], rfl, le_refl _⟩
  | cons a cs ih =>
    rw [insert_cons]
    split_ifs with hfile hrank
    · rcases h with rfl | h
      · exact ⟨a, by simp, hfile, hrank⟩
      · exact ⟨d, h, rfl, le_refl _⟩
    · rcases h with rfl | h
      · exact ⟨d, by simp, rfl, le_refl _⟩
      · rcases List.mem_cons.mp h with rfl | h
        · exact ⟨c, by simp, hfile.symm, le_of_not_ge hrank⟩
        · exact ⟨d, by simp [h], rfl, le_refl _⟩
    · rw [List.mem_cons, or_left_comm] at h
      rcases h with rfl | h
      · exact ⟨d, by simp, rfl, le_refl _⟩
      · obtain ⟨e, he, hfile, hrank⟩ := ih h
        exact ⟨e, List.mem_cons_of_mem _ he, hfile, hrank⟩

end Candidate

namespace Selection

variable (s : Selection) (t : FileTree) (paths : List String)

/-- The candidates that are kept of some paths of a walk. -/
def kept : List Candidate := paths.foldl (fun cs p => (s.candidate t p).insert cs) []

/-- **Of the paths that lead to a file the first is kept**, and no other. -/
theorem kept_invariant : ((s.kept t paths).map Candidate.file).Nodup ∧
    (∀ c ∈ s.kept t paths, ∃ p ∈ paths, c = s.candidate t p) ∧
    ∀ p ∈ paths, ∃ c ∈ s.kept t paths,
      c.file = (s.candidate t p).file ∧ c.rank ≤ (s.candidate t p).rank := by
  induction paths using List.reverseRecOn with
  | nil => exact ⟨List.nodup_nil, by simp [kept], by simp⟩
  | append_singleton ps p ih =>
    obtain ⟨hnodup, hmem, hfirst⟩ := ih
    have hkept : s.kept t (ps ++ [p]) = (s.candidate t p).insert (s.kept t ps) := by
      simp [kept]
    rw [hkept]
    refine ⟨Candidate.nodup_insert hnodup, fun c hc => ?_, fun q hq => ?_⟩
    · rcases Candidate.mem_insert hc with rfl | hc
      · exact ⟨p, by simp, rfl⟩
      · obtain ⟨q, hq, rfl⟩ := hmem c hc
        exact ⟨q, by simp [hq], rfl⟩
    · rcases List.mem_append.mp hq with hq | hq
      · obtain ⟨c, hc, hfile, hrank⟩ := hfirst q hq
        obtain ⟨e, he, hfile', hrank'⟩ := Candidate.exists_rank_le_insert (Or.inr hc)
        exact ⟨e, he, hfile'.trans hfile, hrank'.trans hrank⟩
      · obtain rfl := List.mem_singleton.mp hq
        exact Candidate.exists_rank_le_insert (Or.inl rfl)

/-- No two paths that are chosen lead to the same file. -/
theorem pairwise_chosen : (s.chosen t paths).Pairwise fun p q =>
    ¬ Path.same (t.canonical p) (t.canonical q) := by
  obtain ⟨hnodup, hmem, -⟩ := s.kept_invariant t paths
  have hfile : ∀ c ∈ s.kept t paths, c.file = Path.components (t.canonical c.path) := by
    intro c hc
    obtain ⟨p, -, rfl⟩ := hmem c hc
    rfl
  refine (List.mergeSort_perm _ _).symm.pairwise ?_ fun hpq hqp => hpq ?_
  · rw [List.map_congr_left hfile, List.Nodup, List.pairwise_map] at hnodup
    rw [List.pairwise_map]
    exact hnodup.imp fun hne hsame => hne (Path.same_iff.mp hsame)
  · exact Path.same_iff.mpr (Path.same_iff.mp hqp).symm

/-- **No two candidates lead to the same file.** -/
theorem nodup_canonical_candidates : ((s.candidates t).map t.canonical).Nodup :=
  List.pairwise_map.mpr <| (s.pairwise_chosen t _).imp fun hne heq =>
    hne (Path.same_iff.mpr (congrArg Path.components heq))

theorem pairwise_candidates : (s.candidates t).Pairwise fun p q =>
    ∀ l, t.resolve p = .ok l → t.resolve q ≠ .ok l := by
  refine (List.pairwise_map.mp (s.nodup_canonical_candidates t)).imp fun hne l hp hq => hne ?_
  rw [FileTree.canonical, FileTree.canonical, hp, hq]

end Selection

end DesignLint
