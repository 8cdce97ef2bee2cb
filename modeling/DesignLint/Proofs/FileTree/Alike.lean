import DesignLint.FileTree.Resolve
import Mathlib.Data.List.Nodup
import Mathlib.Data.List.Perm.Basic
import Mathlib.Tactic.SplitIfs

/-!
# Trees that differ in what files hold

Putting a file in place of another one changes what is at that location, and nothing else
(`node?_put`). The two trees are alike (`Alike`): the same paths lead to the same locations in them
(`Alike.resolve_eq`), so that a path that leads elsewhere leads to the same node (`Alike.stat_eq`).
Some files that are written one after the other, no two of them at one location, leave every other
location as it was (`node?_writeFiles`), and come to the same in any order (`writeFiles_perm`).
-/

namespace DesignLint

/-- A node apart from what a file holds. -/
def FileNode.outline : FileNode → FileNode
  | .file _ => .file .empty
  | n => n

namespace FileTree

/-! ### Putting a file -/

section

variable {t : FileTree} {l m : Location} {n : FileNode}

theorem lookup_cons_eq_ite (e : Location × FileNode) (es : List (Location × FileNode)) :
    (e :: es).lookup m = if m = e.1 then some e.2 else es.lookup m := by
  rw [List.lookup_cons]
  split_ifs with h
  · simp [h]
  · rw [beq_false_of_ne h]

theorem lookup_map_put (entries : List (Location × FileNode)) :
    (entries.map fun e => if e.1 = l then (l, n) else e).lookup m =
      if m = l then (entries.lookup l).map fun _ => n else entries.lookup m := by
  induction entries with
  | nil => simp
  | cons e es ih =>
    rw [List.map_cons, lookup_cons_eq_ite, lookup_cons_eq_ite, lookup_cons_eq_ite, ih]
    by_cases he : e.1 = l
    · by_cases hm : m = l
      · simp [he, hm]
      · simp [he, hm]
    · by_cases hm : m = l
      · simp [he, hm, Ne.symm he]
      · simp [he, hm]

/-- **A node that is put somewhere is there, and everything else stays.** -/
theorem node?_put (hl : l ≠ []) : (t.put l n).node? m = if m = l then some n else t.node? m := by
  unfold put node?
  by_cases hm : m = []
  · subst hm
    rw [if_pos rfl, if_neg (Ne.symm hl), if_pos rfl]
  · rw [if_neg hm, if_neg hm]
    split_ifs with hsome heq heq
    · obtain ⟨a, ha⟩ := Option.isSome_iff_exists.mp hsome
      rw [lookup_map_put, if_pos heq, ha, Option.map_some]
    · rw [lookup_map_put, if_neg heq]
    · subst heq
      rw [Option.not_isSome_iff_eq_none] at hsome
      simp [List.lookup_append, hsome]
    · simp [List.lookup_append, lookup_cons_eq_ite, heq]

@[simp] theorem here_put : (t.put l n).here = t.here := by
  unfold put
  split_ifs <;> rfl

@[simp] theorem refusals_put : (t.put l n).refusals = t.refusals := by
  unfold put
  split_ifs <;> rfl

theorem ne_nil_of_node? {content : ByteArray} (h : t.node? l = some (.file content)) : l ≠ [] := by
  rintro rfl
  cases h

theorem put_eq_map {content : ByteArray} (h : t.node? l = some (.file content)) (n : FileNode) :
    t.put l n = { t with entries := t.entries.map fun e => if e.1 = l then (l, n) else e } := by
  unfold node? at h
  rw [if_neg (ne_nil_of_node? h)] at h
  rw [put, h, Option.isSome_some, if_pos rfl]

/-- **What is put in place of two files does not depend on which is put first.** -/
theorem put_comm {content content' : ByteArray} (hl : t.node? l = some (.file content))
    (hm : t.node? m = some (.file content')) (hne : l ≠ m) (n k : FileNode) :
    (t.put l n).put m k = (t.put m k).put l n := by
  have hm' : (t.put l n).node? m = some (.file content') := by
    rw [node?_put (ne_nil_of_node? hl), if_neg hne.symm, hm]
  have hl' : (t.put m k).node? l = some (.file content) := by
    rw [node?_put (ne_nil_of_node? hm), if_neg hne, hl]
  rw [put_eq_map hm', put_eq_map hl', put_eq_map hl, put_eq_map hm]
  simp only [List.map_map, FileTree.mk.injEq, and_true]
  refine List.map_congr_left fun e _ => ?_
  simp only [Function.comp_apply]
  by_cases he : e.1 = l
  · simp [he, hne]
  · by_cases he' : e.1 = m
    · simp [he', hne.symm]
    · simp [he, he']

end

/-! ### Trees that are alike -/

/-- Two trees with the same directories, links and files, which may hold different contents. -/
structure Alike (t u : FileTree) : Prop where
  here : u.here = t.here
  refusals : u.refusals = t.refusals
  outline : ∀ l, (u.node? l).map FileNode.outline = (t.node? l).map FileNode.outline

namespace Alike

variable {t u v : FileTree}

theorem refl (t : FileTree) : Alike t t := ⟨rfl, rfl, fun _ => rfl⟩

theorem trans (h : Alike t u) (h' : Alike u v) : Alike t v :=
  ⟨h'.here.trans h.here, h'.refusals.trans h.refusals,
    fun l => (h'.outline l).trans (h.outline l)⟩

theorem node?_eq (h : Alike t u) {l : Location}
    (hl : ∀ content, t.node? l ≠ some (.file content)) : u.node? l = t.node? l := by
  have houtline := h.outline l
  cases ht : t.node? l with
  | none => simpa [ht] using houtline
  | some n =>
    rw [ht] at houtline
    obtain ⟨m, hm, hmn⟩ := Option.map_eq_some_iff.mp houtline
    cases n with
    | file content => exact absurd ht (hl content)
    | directory => cases m <;> simp_all [FileNode.outline]
    | link target => cases m <;> simp_all [FileNode.outline]

theorem exists_file (h : Alike t u) {l : Location} {content : ByteArray}
    (hl : t.node? l = some (.file content)) : ∃ content', u.node? l = some (.file content') := by
  have houtline := h.outline l
  rw [hl] at houtline
  obtain ⟨m, hm, hmn⟩ := Option.map_eq_some_iff.mp houtline
  cases m with
  | file content' => exact ⟨content', hm⟩
  | directory => cases hmn
  | link target => cases hmn

/-- A path leads up to a link through both trees in the same way. -/
theorem locateUpTo_eq (h : Alike t u) (last : Bool)
    (follow : Location → List String → Except FileError Location) (place : Location)
    (todo : List String) :
    u.locateUpTo last follow place todo = t.locateUpTo last follow place todo := by
  induction todo generalizing place with
  | nil => rfl
  | cons step rest ih =>
    simp only [locateUpTo, ih]
    cases hl : t.node? (place ++ [step]) with
    | none => rw [h.node?_eq (by simp [hl]), hl]
    | some n =>
      cases n with
      | directory => rw [h.node?_eq (by simp [hl]), hl]
      | link target => rw [h.node?_eq (by simp [hl]), hl]
      | file content =>
        obtain ⟨content', hu⟩ := h.exists_file hl
        rw [hu]

theorem locate_eq (h : Alike t u) (last : Bool) (links : Nat) :
    u.locate last links = t.locate last links := by
  induction links with
  | zero => exact funext₂ (h.locateUpTo_eq last _)
  | succ links ih =>
    rw [locate, ih]
    exact funext₂ (h.locateUpTo_eq last _)

/-- **A path leads to the same location in both trees.** -/
theorem resolve_eq (h : Alike t u) (path : String) : u.resolve path = t.resolve path := by
  unfold resolve
  rw [h.here, h.locate_eq]

theorem stat_eq (h : Alike t u) {path : String}
    (hl : ∀ l, t.resolve path = .ok l → u.node? l = t.node? l) : u.stat path = t.stat path := by
  unfold stat
  rw [h.resolve_eq]
  cases hr : t.resolve path with
  | error e => rfl
  | ok l =>
    show u.nodeAt l = t.nodeAt l
    rw [nodeAt, nodeAt, hl l hr]

theorem put (h : Alike t u) {l : Location} {content : ByteArray}
    (hl : u.node? l = some (.file content)) (content' : ByteArray) :
    Alike t (u.put l (.file content')) := by
  refine ⟨by simp [h.here], by simp [h.refusals], fun m => ?_⟩
  rw [node?_put (ne_nil_of_node? hl), ← h.outline m]
  split_ifs with hm
  · rw [hm, hl]
    rfl
  · rfl

theorem node?_eq_link (h : Alike t u) {l : Location} {target : String} :
    u.node? l = some (.link target) ↔ t.node? l = some (.link target) := by
  have key : ∀ {t u : FileTree}, Alike t u → t.node? l = some (.link target) →
      u.node? l = some (.link target) := by
    intro t u h hl
    rw [h.node?_eq (by simp [hl]), hl]
  exact ⟨key ⟨h.here.symm, h.refusals.symm, fun l => (h.outline l).symm⟩, key h⟩

end Alike

/-! ### Writing some files -/

/-- Writes some files, each at a location, one after the other. -/
def writeFiles (t : FileTree) (files : List (Location × ByteArray)) : FileTree :=
  files.foldl (fun t f => t.put f.1 (.file f.2)) t

section

variable {t : FileTree} {files : List (Location × ByteArray)}

theorem alike_writeFiles (h : ∀ f ∈ files, ∃ content, t.node? f.1 = some (.file content)) :
    Alike t (t.writeFiles files) := by
  induction files generalizing t with
  | nil => exact .refl t
  | cons f fs ih =>
    obtain ⟨content, hf⟩ := h f (by simp)
    have hput : Alike t (t.put f.1 (.file f.2)) := (Alike.refl t).put hf f.2
    refine hput.trans (ih fun g hg => ?_)
    obtain ⟨content, hg⟩ := h g (by simp [hg])
    exact hput.exists_file hg

/-- **What is written is there, if no two files go to one location, and everything else stays.** -/
theorem node?_writeFiles (h : ∀ f ∈ files, ∃ content, t.node? f.1 = some (.file content))
    (hnodup : (files.map Prod.fst).Nodup) :
    (∀ f ∈ files, (t.writeFiles files).node? f.1 = some (.file f.2)) ∧
      ∀ l, l ∉ files.map Prod.fst → (t.writeFiles files).node? l = t.node? l := by
  induction files generalizing t with
  | nil => exact ⟨by simp, fun _ _ => rfl⟩
  | cons f fs ih =>
    obtain ⟨content, hf⟩ := h f (by simp)
    have hl := ne_nil_of_node? hf
    rw [List.map_cons, List.nodup_cons] at hnodup
    obtain ⟨hwritten, hstay⟩ := ih (t := t.put f.1 (.file f.2)) (fun g hg => by
      obtain ⟨content, hg⟩ := h g (by simp [hg])
      exact ((Alike.refl t).put hf f.2).exists_file hg) hnodup.2
    refine ⟨fun g hg => ?_, fun l hnot => ?_⟩
    · rcases List.mem_cons.mp hg with rfl | hg
      · exact (hstay _ hnodup.1).trans (by rw [node?_put hl, if_pos rfl])
      · exact hwritten g hg
    · rw [List.map_cons, List.mem_cons, not_or] at hnot
      exact (hstay l hnot.2).trans (by rw [node?_put hl, if_neg hnot.1])

/-- **Files come to the same in whatever order they are written**, if no two of them go to one
location. -/
theorem writeFiles_perm {files' : List (Location × ByteArray)} (hperm : files.Perm files')
    (h : ∀ f ∈ files, ∃ content, t.node? f.1 = some (.file content))
    (hnodup : (files.map Prod.fst).Nodup) : t.writeFiles files = t.writeFiles files' := by
  induction hperm generalizing t with
  | nil => rfl
  | cons f hperm ih =>
    obtain ⟨content, hf⟩ := h f (by simp)
    refine ih (fun g hg => ?_) (List.nodup_cons.mp hnodup).2
    obtain ⟨content, hg⟩ := h g (by simp [hg])
    exact ((Alike.refl t).put hf f.2).exists_file hg
  | swap f g fs =>
    obtain ⟨content, hf⟩ := h f (by simp)
    obtain ⟨content', hg⟩ := h g (by simp)
    have hne : g.1 ≠ f.1 := by
      rw [List.map_cons, List.map_cons, List.nodup_cons] at hnodup
      exact fun heq => hnodup.1 (by simp [heq])
    simp only [writeFiles, List.foldl_cons]
    rw [put_comm hg hf hne]
  | trans h₁ h₂ ih₁ ih₂ =>
    refine (ih₁ h hnodup).trans (ih₂ (fun f hf => h f (h₁.mem_iff.mpr hf)) ?_)
    exact (h₁.map Prod.fst).nodup_iff.mp hnodup

end

end FileTree

end DesignLint
