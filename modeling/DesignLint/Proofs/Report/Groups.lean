import DesignLint.Proofs.Report.Counts
import DesignLint.Report.Markdown
import Mathlib.Data.List.Perm.Basic
import Std.Data.TreeMap.Lemmas

/-!
# Findings in groups

Grouping puts one member of a list after the other behind those with its key. Whatever it has gone
through, each key leads to the members that have it (`GroupsOf`), so the groups share out the list
(`Shares`, `shares_groupBy`): each member stands once, and the keys are in order. Reports group
findings by category (`shares_byCategory`), and below that by severity and rule (`shares_byRule`).
-/

namespace DesignLint

/-! ### Groups -/

section

variable {α κ : Type} {key : α → κ} {xs : List α}

theorem perm_flatMap_filter [DecidableEq κ] {ks : List κ} (hks : ks.Nodup)
    (h : ∀ x ∈ xs, key x ∈ ks) : (ks.flatMap fun k => xs.filter (key · = k)).Perm xs := by
  induction ks generalizing xs with
  | nil =>
    rw [List.eq_nil_iff_forall_not_mem.mpr fun x hx => List.not_mem_nil (h x hx)]
    rfl
  | cons k ks ih =>
    obtain ⟨hk, hks⟩ := List.nodup_cons.mp hks
    -- the other keys share out the other members
    let rest := xs.filter fun x => !decide (key x = k)
    have hrest : (ks.flatMap fun l => rest.filter (key · = l)).Perm rest := by
      refine ih hks fun x hx => ?_
      obtain ⟨hx, hne⟩ := List.mem_filter.mp hx
      exact (List.mem_cons.mp (h x hx)).resolve_left (by simpa using hne)
    have hgroups : (ks.flatMap fun l => xs.filter (key · = l)) =
        ks.flatMap fun l => rest.filter (key · = l) := by
      refine List.flatMap_congr fun l hl => ?_
      have hlk : l ≠ k := fun heq => hk (heq ▸ hl)
      rw [List.filter_filter]
      refine List.filter_congr fun x _ => ?_
      by_cases hx : key x = l <;> simp [hx, hlk]
    rw [List.flatMap_cons, hgroups]
    exact (hrest.append_left _).trans (List.filter_append_perm _ xs)

/-- Groups that share out a list: each member stands once, the keys are in order, and with each key
stand the members that have it, in the order of the list. -/
structure Shares [DecidableEq κ] (key : α → κ) (before : κ → κ → Prop) (groups : List (κ × List α))
    (xs : List α) : Prop where
  once : (groups.flatMap (·.2)).Perm xs
  increasing : groups.Pairwise fun a b => before a.1 b.1
  ne_nil : ∀ k ∈ groups, k.2 ≠ []
  eq_filter : ∀ k ∈ groups, k.2 = xs.filter (key · = k.1)

theorem Shares.groups_ne_nil [DecidableEq κ] {before : κ → κ → Prop} {groups : List (κ × List α)}
    (h : Shares key before groups xs) (hxs : xs ≠ []) : groups ≠ [] := by
  rintro rfl
  exact hxs h.once.symm.eq_nil

/-! ### Grouping -/

variable [DecidableEq κ] {order : κ → κ → Ordering} {groups : Std.TreeMap κ (List α) order} {k : κ}
  {group : List α}

/-- The groups of some members: those that are not empty. -/
def GroupsOf (key : α → κ) (xs : List α) (groups : Std.TreeMap κ (List α) order) : Prop :=
  ∀ k, Entry groups[k]? [] (xs.filter (key · = k))

variable [Std.TransCmp order] [Std.LawfulEqCmp order]

/-- **Adding one more member to its group.** -/
theorem GroupsOf.add (h : GroupsOf key xs groups) (x : α) :
    GroupsOf key (xs ++ [x]) (addByKey key groups x) := by
  intro k
  rw [addByKey, Std.TreeMap.getElem?_alter, List.filter_append]
  simp only [Std.LawfulEqCmp.compare_eq_iff_eq]
  split_ifs with hk
  · obtain rfl := hk
    rw [(h _).getD_eq, List.filter_singleton, decide_eq_true rfl, cond_true]
    exact entry_some (List.append_ne_nil_of_right_ne_nil _ (List.cons_ne_nil x []))
  · rw [List.filter_singleton, decide_eq_false hk, cond_false, List.append_nil]
    exact h k

theorem GroupsOf.foldl {ys : List α} (h : GroupsOf key ys groups) (xs : List α) :
    GroupsOf key (ys ++ xs) (xs.foldl (addByKey key) groups) := by
  induction xs generalizing ys groups with
  | nil => rwa [List.append_nil]
  | cons x xs ih =>
    have := ih (h.add x)
    rwa [List.append_assoc] at this

theorem mem_groupBy : (k, group) ∈ groupBy order key xs ↔
    group ≠ [] ∧ group = xs.filter (key · = k) := by
  have hempty : GroupsOf key [] (∅ : Std.TreeMap κ (List α) order) := by
    intro k
    rw [Std.TreeMap.getElem?_emptyc]
    exact entry_none []
  rw [groupBy, Std.TreeMap.mem_toList_iff_getElem?_eq_some]
  exact hempty.foldl xs k group

/-- **The groups of a list by a key share it out.** -/
theorem shares_groupBy {before : κ → κ → Prop} (hbefore : ∀ a b, order a b = .lt → before a b)
    (xs : List α) : Shares key before (groupBy order key xs) xs where
  once := by
    have hnodup : ((groupBy order key xs).map Prod.fst).Nodup := by
      refine List.pairwise_map.mpr (Std.TreeMap.distinct_keys_toList.imp fun hab heq => hab ?_)
      rw [heq]
      exact Std.ReflCmp.compare_self
    have hgroups : (groupBy order key xs).flatMap (·.2) =
        ((groupBy order key xs).map Prod.fst).flatMap fun k => xs.filter (key · = k) := by
      rw [List.flatMap_map]
      exact List.flatMap_congr fun g hg => (mem_groupBy.mp hg).2
    rw [hgroups]
    refine perm_flatMap_filter hnodup fun x hx => ?_
    have hne : xs.filter (key · = key x) ≠ [] :=
      List.ne_nil_of_mem (List.mem_filter.mpr ⟨hx, decide_eq_true rfl⟩)
    exact List.mem_map_of_mem (f := Prod.fst) (mem_groupBy.mpr ⟨hne, rfl⟩)
  increasing := Std.TreeMap.ordered_keys_toList.imp fun h => hbefore _ _ h
  ne_nil g hg := (mem_groupBy.mp hg).1
  eq_filter g hg := (mem_groupBy.mp hg).2

end

/-! ### Findings by category, severity and rule -/

/-- Categories are in the order of their ranks. -/
def Category.Before (c d : Category) : Prop := c.rank < d.rank

/-- Headings within a category are in the order of severities, and then of rules. -/
def HeadingBefore (a b : Severity × String) : Prop :=
  a.1.rank < b.1.rank ∨ a.1 = b.1 ∧ a.2 < b.2

instance : Std.TransCmp categoryOrder := by
  unfold categoryOrder
  infer_instance

instance : Std.LawfulEqCmp categoryOrder where
  eq_of_compare h := Category.rank_inj.mp (Nat.compare_eq_eq.mp h)

instance : Std.TransCmp headingOrder := by
  unfold headingOrder
  infer_instance

instance : Std.LawfulEqCmp headingOrder where
  eq_of_compare {a b} h := by
    simp only [headingOrder, compareLex, compareOn, Ordering.then_eq_eq, Severity.rank_inj,
      Std.LawfulEqCmp.compare_eq_iff_eq] at h
    exact Prod.ext h.1 h.2

theorem before_of_categoryOrder {c d : Category} (h : categoryOrder c d = .lt) : c.Before d :=
  Nat.compare_eq_lt.mp h

theorem before_of_headingOrder {a b : Severity × String} (h : headingOrder a b = .lt) :
    HeadingBefore a b := by
  simp only [headingOrder, compareLex, compareOn, Ordering.then_eq_lt, Nat.compare_eq_lt,
    Nat.compare_eq_eq, Severity.rank_inj] at h
  exact h.imp_right fun hrule => ⟨hrule.1, compareOfLessAndEq_eq_lt.mp hrule.2⟩

theorem shares_byCategory (fs : List Finding) :
    Shares Finding.category Category.Before (byCategory fs) fs :=
  shares_groupBy (fun _ _ => before_of_categoryOrder) fs

theorem shares_byRule (fs : List Finding) :
    Shares Finding.heading HeadingBefore (byRule fs) fs :=
  shares_groupBy (fun _ _ => before_of_headingOrder) fs

end DesignLint
