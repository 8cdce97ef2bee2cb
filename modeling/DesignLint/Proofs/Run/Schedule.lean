import DesignLint.Proofs.Run.Accounts
import DesignLint.Proofs.Rule.Sample

/-!
# Workers that take turns

Several workers can deal with the candidates of a run, each in two turns: one in which the candidate
is loaded, and a later one in which what was loaded is reviewed and written (`Task.advance`). The
turns at different candidates may come in any order (`Selection.runInTurns`).

Whatever the order, the pool keeps track of the visits that a run makes (`Pool.Tracks`): what is
loaded is what the tree held at the start, since only the files of other candidates have been
written meanwhile, and what has been written is what the candidates that are done write. So a run in
turns comes to the same as one that deals with the candidates one after the other
(`runInTurns_eq_run`).
-/

namespace DesignLint

/-- How far a candidate has been dealt with. -/
inductive Progress
  | waiting
  | loaded (outcome : Except Skipped Source)
  | visited (v : Visit)

/-- How many turns a candidate still needs. -/
def Progress.turnsLeft : Progress → Nat
  | .waiting => 2
  | .loaded _ => 1
  | .visited _ => 0

/-- A candidate in the hands of workers. -/
structure Task where
  path : String
  progress : Progress

/-- The tree that workers share, and their candidates. -/
structure Pool where
  tree : FileTree
  tasks : List Task

namespace Task

/-- A turn at a candidate. -/
def advance (s : Selection) (g : Registry) (mode : RunMode) (t : FileTree) (k : Task) :
    FileTree × Task :=
  match k.progress with
  | .waiting => (t, { k with progress := .loaded (s.load t k.path) })
  | .loaded (.error e) => (t, { k with progress := .visited (.skipped e) })
  | .loaded (.ok file) =>
    let (t, v) := visitSource g mode t k.path file
    (t, { k with progress := .visited v })
  | .visited _ => (t, k)

/-- What the candidate has come to, if it is done. -/
def visit? (k : Task) : Option Visit :=
  match k.progress with
  | .visited v => some v
  | _ => none

end Task

namespace Pool

/-- The pool before the first turn. -/
def start (t : FileTree) (paths : List String) : Pool := ⟨t, paths.map fun p => ⟨p, .waiting⟩⟩

/-- A turn at the candidate with an index. -/
def turn (s : Selection) (g : Registry) (mode : RunMode) (w : Pool) (i : Nat) : Pool :=
  match w.tasks[i]? with
  | none => w
  | some k =>
    let (t, k) := k.advance s g mode w.tree
    ⟨t, w.tasks.set i k⟩

end Pool

/-- Carries out a run in which workers take turns at the candidates, by index. -/
def Selection.runInTurns (s : Selection) (g : Registry) (mode : RunMode) (t : FileTree)
    (turns : List Nat) : FileTree × Except RunError RunOutput :=
  let w := turns.foldl (Pool.turn s g mode) (.start t (s.candidates t))
  (w.tree, RunOutput.ofVisits mode (s.walkSkips t) (w.tasks.filterMap Task.visit?))

section

variable {s : Selection} {g : Registry} {mode : RunMode} {t u : FileTree} {w : Pool} {k : Task}
  {ks as bs : List Task} {l : Location}

/-! ### Turns that are left -/

/-- How many turns the candidate with an index still needs. -/
def Pool.turnsLeft? (w : Pool) (j : Nat) : Option Nat := w.tasks[j]?.map (·.progress.turnsLeft)

theorem Task.turnsLeft_advance (t : FileTree) (k : Task) :
    (k.advance s g mode t).2.progress.turnsLeft = k.progress.turnsLeft - 1 := by
  unfold advance
  split <;> next h => simp [h, Progress.turnsLeft]

theorem Pool.turnsLeft?_turn (w : Pool) (i j : Nat) :
    (w.turn s g mode i).turnsLeft? j = (w.turnsLeft? j).map (· - if i = j then 1 else 0) := by
  unfold turn turnsLeft?
  by_cases hij : i = j
  · subst hij
    cases hk : w.tasks[i]? with
    | none => simp [hk]
    | some k =>
      obtain ⟨hlt, -⟩ := List.getElem?_eq_some_iff.mp hk
      simp [hlt, Task.turnsLeft_advance]
  · cases w.tasks[i]? with
    | none => simp [hij, Function.comp_def]
    | some k => simp [hij, Function.comp_def]

theorem Pool.turnsLeft?_foldl_turn (s : Selection) (g : Registry) (mode : RunMode) (w : Pool)
    (turns : List Nat) (j : Nat) :
    (turns.foldl (turn s g mode) w).turnsLeft? j =
      (w.turnsLeft? j).map (· - turns.count j) := by
  induction turns generalizing w with
  | nil => simp
  | cons i turns ih =>
    rw [List.foldl_cons, ih, turnsLeft?_turn, Option.map_map, List.count_cons]
    congr 1
    funext n
    simp only [Function.comp_apply, beq_iff_eq]
    omega

/-! ### What a pool keeps track of -/

/-- What a candidate that is done has written. -/
def Task.written? (s : Selection) (g : Registry) (mode : RunMode) (t : FileTree) (k : Task) :
    Option (Location × ByteArray) :=
  match k.progress with
  | .visited _ => s.write? g mode t k.path
  | _ => none

/-- A candidate that has come as far as in a visit to the tree at the start. -/
def Task.Tracks (s : Selection) (g : Registry) (mode : RunMode) (t : FileTree) (k : Task) : Prop :=
  match k.progress with
  | .waiting => True
  | .loaded outcome => outcome = s.load t k.path
  | .visited v => v = (s.visit g mode t k.path).2

/-- A pool whose candidates have come as far as in visits to the tree at the start, and in whose
tree those that are done have written what they write. -/
structure Pool.Tracks (s : Selection) (g : Registry) (mode : RunMode) (t : FileTree) (w : Pool) :
    Prop where
  paths : w.tasks.map (·.path) = s.candidates t
  tree : w.tree = t.writeFiles (w.tasks.filterMap (Task.written? s g mode t))
  tasks : ∀ k ∈ w.tasks, k.Tracks s g mode t

theorem written_sublist (s : Selection) (g : Registry) (mode : RunMode) (t : FileTree)
    (ks : List Task) : (ks.filterMap (Task.written? s g mode t)).Sublist
      ((ks.map (·.path)).filterMap (s.write? g mode t)) := by
  induction ks with
  | nil => exact .refl _
  | cons k ks ih =>
    have hk : k.written? s g mode t = none ∨
        k.written? s g mode t = s.write? g mode t k.path := by
      unfold Task.written?
      split
      · exact Or.inr rfl
      · exact Or.inl rfl
    rw [List.map_cons, List.filterMap_cons, List.filterMap_cons]
    cases hw : s.write? g mode t k.path with
    | none =>
      rw [hw, or_self] at hk
      rw [hk]
      exact ih
    | some v =>
      rcases hk with hk | hk
      · rw [hk]
        exact ih.cons _
      · rw [hk, hw]
        exact ih.cons_cons _

theorem exists_file_of_mem_written (s : Selection) (g : Registry) (mode : RunMode) (t : FileTree)
    (ks : List Task) : ∀ v ∈ ks.filterMap (Task.written? s g mode t),
      ∃ content, t.node? v.1 = some (.file content) := by
  intro v hv
  obtain ⟨-, -, -, hnode⟩ :=
    Selection.exists_file_of_mem_writes ((written_sublist s g mode t ks).subset hv)
  exact hnode

section

variable (hpaths : ks.map (·.path) = s.candidates t)

include hpaths

theorem nodup_written (g : Registry) (mode : RunMode) :
    ((ks.filterMap (Task.written? s g mode t)).map Prod.fst).Nodup := by
  refine ((written_sublist s g mode t ks).map Prod.fst).nodup (Selection.nodup_writes ?_)
  rw [hpaths]
  exact s.pairwise_candidates t

/-- What a candidate that is not done leads to has not been written. -/
theorem node?_of_unwritten (hks : ks = as ++ k :: bs) (hk : k.written? s g mode t = none)
    (hl : t.resolve k.path = .ok l) :
    (t.writeFiles (ks.filterMap (Task.written? s g mode t))).node? l = t.node? l := by
  refine (FileTree.node?_writeFiles (exists_file_of_mem_written s g mode t ks)
    (nodup_written hpaths g mode)).2 l fun hmem => ?_
  obtain ⟨v, hv, rfl⟩ := List.mem_map.mp hmem
  obtain ⟨j, hj, hwritten⟩ := List.mem_filterMap.mp hv
  have hresolve : t.resolve j.path = .ok v.1 := by
    unfold Task.written? at hwritten
    split at hwritten
    · exact (Selection.exists_file_of_write? hwritten).1
    · cases hwritten
  have hapart := s.pairwise_candidates t
  rw [← hpaths, hks, List.map_append, List.map_cons, List.pairwise_append,
    List.pairwise_cons] at hapart
  obtain ⟨-, ⟨hbehind, -⟩, hfront⟩ := hapart
  rw [hks, List.mem_append, List.mem_cons] at hj
  rcases hj with hj | rfl | hj
  · exact hfront _ (List.mem_map_of_mem hj) _ (List.mem_cons_self) _ hresolve hl
  · rw [hk] at hwritten
    cases hwritten
  · exact hbehind _ (List.mem_map_of_mem hj) _ hl hresolve

end

/-! ### Turns -/

theorem filterMap_append_cons {α β : Type} (f : α → Option β) (xs ys : List α) (x : α) :
    (xs ++ x :: ys).filterMap f = xs.filterMap f ++ ((f x).toList ++ ys.filterMap f) := by
  rw [List.filterMap_append, List.filterMap_cons]
  cases f x <;> rfl

theorem Task.advance_loaded (s : Selection) (g : Registry) (mode : RunMode) (u : FileTree)
    (path : String) : advance s g mode u ⟨path, .loaded (s.load u path)⟩ =
      ((s.visit g mode u path).1, ⟨path, .visited (s.visit g mode u path).2⟩) := by
  unfold advance Selection.visit
  cases s.load u path with
  | error e => rfl
  | ok file => rfl

/-- What a turn at a candidate makes of it, and of what has been written by then. -/
theorem Task.tracks_advance (hpaths : ks.map (·.path) = s.candidates t) (hks : ks = as ++ k :: bs)
    (hu : u = t.writeFiles (ks.filterMap (Task.written? s g mode t))) (hk : k.Tracks s g mode t) :
    (k.advance s g mode u).2.path = k.path ∧ (k.advance s g mode u).2.Tracks s g mode t ∧
      (k.advance s g mode u).1 = t.writeFiles
        ((as ++ (k.advance s g mode u).2 :: bs).filterMap (Task.written? s g mode t)) := by
  obtain ⟨path, progress⟩ := k
  have halike : t.Alike u := by
    rw [hu]
    exact FileTree.alike_writeFiles (exists_file_of_mem_written s g mode t ks)
  have hnode : Task.written? s g mode t ⟨path, progress⟩ = none →
      ∀ l, t.resolve path = .ok l → u.node? l = t.node? l := by
    intro hnone l hl
    rw [hu]
    exact node?_of_unwritten hpaths hks hnone hl
  rw [hks, filterMap_append_cons] at hu
  rw [filterMap_append_cons]
  cases progress with
  | waiting => exact ⟨rfl, Selection.load_congr s halike (hnode rfl), hu⟩
  | visited v => exact ⟨rfl, hk, hu⟩
  | loaded outcome =>
    obtain ⟨hvisit, hwrite⟩ := Selection.visit_congr s g mode halike (hnode rfl)
    obtain rfl : outcome = s.load u path := by
      rw [Selection.load_congr s halike (hnode rfl)]
      exact hk
    rw [advance_loaded]
    refine ⟨rfl, hvisit, ?_⟩
    -- what the candidate writes now comes last; it moves to the place that the candidate has
    have hpaths' : (as ++ ⟨path, .visited (s.visit g mode u path).2⟩ :: bs).map Task.path =
        s.candidates t := by
      rw [← hpaths, hks, List.map_append, List.map_append]
      rfl
    have hnodup := nodup_written hpaths' g mode
    have hfile := exists_file_of_mem_written s g mode t
      (as ++ ⟨path, .visited (s.visit g mode u path).2⟩ :: bs)
    rw [filterMap_append_cons] at hnodup hfile
    have hold : Task.written? s g mode t ⟨path, .loaded (s.load u path)⟩ = none := rfl
    rw [hold, Option.toList_none, List.nil_append] at hu
    rw [FileTree.writeFiles_perm (List.perm_append_comm.append_left _) hfile hnodup,
      ← List.append_assoc, FileTree.writeFiles, List.foldl_append]
    calc (s.visit g mode u path).1
      _ = u.writeFiles (s.write? g mode t path).toList := by rw [Selection.visit_fst, hwrite]
      _ = _ := by rw [hu]; rfl

/-- **A turn keeps track of the visits that a run makes.** -/
theorem Pool.Tracks.turn (h : w.Tracks s g mode t) (i : Nat) :
    (w.turn s g mode i).Tracks s g mode t := by
  unfold Pool.turn
  split
  · exact h
  · next k hk =>
    obtain ⟨hi, rfl⟩ := List.getElem?_eq_some_iff.mp hk
    have hks : w.tasks = w.tasks.take i ++ w.tasks[i] :: w.tasks.drop (i + 1) := by
      rw [← List.drop_eq_getElem_cons, List.take_append_drop]
    obtain ⟨hpath, htracks, htree⟩ :=
      Task.tracks_advance h.paths hks h.tree (h.tasks _ (List.getElem_mem hi))
    have hset := List.set_eq_take_append_cons_drop (l := w.tasks) (i := i)
      (a := (w.tasks[i].advance s g mode w.tree).2)
    rw [if_pos hi] at hset
    refine ⟨?_, ?_, ?_⟩
    · show (w.tasks.set i _).map (·.path) = s.candidates t
      rw [hset, ← h.paths]
      conv_rhs => rw [hks]
      rw [List.map_append, List.map_append, List.map_cons, List.map_cons, hpath]
    · show _ = t.writeFiles ((w.tasks.set i _).filterMap _)
      rw [hset, ← htree]
    · intro j hj
      rcases List.mem_or_eq_of_mem_set hj with hj | rfl
      · exact h.tasks j hj
      · exact htracks

theorem Pool.tracks_start (s : Selection) (g : Registry) (mode : RunMode) (t : FileTree) :
    (Pool.start t (s.candidates t)).Tracks s g mode t := by
  have hwaiting : ∀ k ∈ (Pool.start t (s.candidates t)).tasks, k.progress = .waiting := by
    intro k hk
    obtain ⟨p, -, rfl⟩ := List.mem_map.mp hk
    rfl
  have hnone : (Pool.start t (s.candidates t)).tasks.filterMap (Task.written? s g mode t) = [] :=
    List.filterMap_eq_nil_iff.mpr fun k hk => by rw [Task.written?, hwaiting k hk]
  refine ⟨by simp [start, Function.comp_def], by rw [hnone]; rfl, fun k hk => ?_⟩
  rw [Task.Tracks, hwaiting k hk]
  trivial

theorem Pool.Tracks.foldl_turn (h : w.Tracks s g mode t) (turns : List Nat) :
    (turns.foldl (Pool.turn s g mode) w).Tracks s g mode t := by
  induction turns generalizing w with
  | nil => exact h
  | cons i turns ih => exact ih (h.turn i)

theorem progress_eq_visited (g : Registry) (mode : RunMode) {turns : List Nat}
    (h : ∀ i < (s.candidates t).length, 2 ≤ turns.count i) :
    ∀ k ∈ (turns.foldl (Pool.turn s g mode) (.start t (s.candidates t))).tasks,
      ∃ v, k.progress = .visited v := by
  intro k hk
  obtain ⟨j, hj⟩ := List.mem_iff_getElem?.mp hk
  have hleft := Pool.turnsLeft?_foldl_turn s g mode (.start t (s.candidates t)) turns j
  unfold Pool.turnsLeft? at hleft
  rw [hj] at hleft
  simp only [Pool.start, List.getElem?_map, Option.map_map, Option.map_some] at hleft
  obtain ⟨p, hp, hp'⟩ := Option.map_eq_some_iff.mp hleft.symm
  have hcount := h j (List.getElem?_eq_some_iff.mp hp).1
  have hzero : k.progress.turnsLeft = 0 := by
    rw [← hp']
    exact Nat.sub_eq_zero_of_le hcount
  cases hprogress : k.progress with
  | visited v => exact ⟨v, rfl⟩
  | waiting => simp [hprogress, Progress.turnsLeft] at hzero
  | loaded o => simp [hprogress, Progress.turnsLeft] at hzero

end

/-- **Workers that take turns come to what one worker comes to**, who deals with the candidates one
after the other: the tree, the report and the previews do not depend on the order of the turns, as
long as there are two at each candidate. -/
theorem runInTurns_eq_run (s : Selection) (g : Registry) (mode : RunMode) (t : FileTree)
    {turns : List Nat} (h : ∀ i < (s.candidates t).length, 2 ≤ turns.count i) :
    s.runInTurns g mode t turns = s.run g mode t := by
  have htracks := (Pool.tracks_start s g mode t).foldl_turn turns
  have hdone := progress_eq_visited g mode h
  unfold Selection.runInTurns Selection.run
  generalize turns.foldl (Pool.turn s g mode) (.start t (s.candidates t)) = w at htracks hdone ⊢
  have hwritten : w.tasks.filterMap (Task.written? s g mode t) =
      (s.candidates t).filterMap (s.write? g mode t) := by
    rw [← htracks.paths, List.filterMap_map]
    refine List.filterMap_congr fun k hk => ?_
    obtain ⟨v, hv⟩ := hdone k hk
    rw [Task.written?, hv]
    rfl
  have hvisits : w.tasks.filterMap Task.visit? =
      (s.candidates t).map fun p => (s.visit g mode t p).2 := by
    rw [← htracks.paths, List.map_map, ← List.filterMap_eq_map]
    refine List.filterMap_congr fun k hk => ?_
    obtain ⟨v, hv⟩ := hdone k hk
    have htask := htracks.tasks k hk
    rw [Task.Tracks, hv] at htask
    rw [Task.visit?, hv, htask]
    rfl
  rw [Selection.visitAll_eq s g mode (s.pairwise_candidates t) (.refl t) fun _ _ _ _ => rfl]
  simp only [hvisits, htracks.tree, hwritten]

/-- Two workers write a file each; one of them loads its file while the other one is at work. -/
theorem runInTurns_eq_run_button :
    let s : Selection := ⟨"/r", ["/r"], [], [], ["tsx"], 100⟩
    let g := Registry.ofRules [.ofTag "button" (.substitution (some "Button") [])]
    let t : FileTree := ⟨[(["r"], .directory), (["r", "a.tsx"], .file "<button/>".toUTF8),
      (["r", "b.tsx"], .file "<button />".toUTF8), (["r", "c.tsx"], .link "a.tsx")], [], []⟩
    s.candidates t = ["/r/a.tsx", "/r/b.tsx"] ∧
      (s.run g .fix t).2.toOption.map (·.report.filesModified) = some 2 ∧
      s.runInTurns g .fix t [1, 0, 1, 0] = s.run g .fix t := by
  intro s g t
  have hcandidates : s.candidates t = ["/r/a.tsx", "/r/b.tsx"] := by
    simp only [Selection.candidates, Selection.chosen, mergeSort_eq_sortUpTo]
    decide +kernel
  have hmodified : (s.run g .fix t).2.toOption.map (·.report.filesModified) = some 2 := by
    simp only [Selection.run, RunOutput.ofVisits, Report.aggregate, Selection.candidates,
      Selection.chosen, mergeSort_eq_sortUpTo]
    decide +kernel
  refine ⟨hcandidates, hmodified, runInTurns_eq_run s g .fix t ?_⟩
  rw [hcandidates]
  decide

end DesignLint
