import DesignLint.Finding.Search
import DesignLint.Proofs.Text.Blank
import DesignLint.Proofs.Text.Position
import DesignLint.Proofs.Text.Visible
import DesignLint.Report.Markdown
import Mathlib.Data.List.Infix

/-!
# Items of lists

An item of a list starts on a line of its own, with a dash and a blank. `listItems` are the lines of
a text that start one; they are those of its parts, if each part ends its line (`listItems_append`,
`Prints.join`).

The item of a finding starts with the place of the finding (`listItems_fixItem`,
`listItems_manualItem`). No other item starts in it, unless what it says of the finding has a line
break with a dash and a blank behind it (`laterItems_eq_nil_iff`). A snippet has no line breaks
(`Rule.not_mem_snippet_finding`), a fix may have some.
-/

namespace DesignLint

/-- Whether a line starts an item. -/
def startsItem (line : Text) : Bool := ['-', ' '].isPrefixOf line

/-- The lines of a text that start an item. -/
def listItems (s : String) : List Text := (s.toList.splitOn '\n').filter startsItem

/-- The lines of a text that start an item, apart from its first line. -/
def laterItems (s : String) : List Text := (s.toList.splitOn '\n').tail.filter startsItem

/-- A text of whole lines. -/
def EndsLine (s : String) : Prop := s = "" ∨ ∃ t, s = t ++ "\n"

/-! ### Parts of a text -/

section

variable {s t : String}

theorem listItems_break (s t : String) :
    listItems (s ++ "\n" ++ t) = listItems s ++ listItems t := by
  have hbreak : (s ++ "\n" ++ t).toList = s.toList ++ '\n' :: t.toList := by
    rw [String.toList_append, String.toList_append, List.append_assoc]
    rfl
  rw [listItems, hbreak, List.splitOn_append_cons_self, List.filter_append]
  rfl

theorem listItems_ended (s : String) : listItems (s ++ "\n") = listItems s := by
  have h := listItems_break s ""
  rw [String.append_empty] at h
  rw [h]
  exact List.append_nil _

theorem EndsLine.ended (s : String) : EndsLine (s ++ "\n") := Or.inr ⟨s, rfl⟩

theorem EndsLine.append_left (s : String) (h : ∃ u, t = u ++ "\n") : EndsLine (s ++ t) := by
  obtain ⟨u, rfl⟩ := h
  rw [← String.append_assoc]
  exact .ended _

theorem EndsLine.append (hs : EndsLine s) (ht : EndsLine t) : EndsLine (s ++ t) := by
  rcases ht with rfl | hu
  · rwa [String.append_empty]
  · exact .append_left s hu

/-- **The items behind whole lines.** -/
theorem listItems_append (hs : EndsLine s) (t : String) :
    listItems (s ++ t) = listItems s ++ listItems t := by
  rcases hs with rfl | ⟨u, rfl⟩
  · rw [String.empty_append]
    rfl
  · rw [listItems_break, listItems_ended]

theorem listItems_of_not_mem (h : '\n' ∉ s.toList) (hs : startsItem s.toList = false) :
    listItems s = [] := by
  have hone : s.toList.splitOn '\n' = [s.toList] := List.splitOnP_eq_singleton fun c hc => by
    rw [beq_eq_false_iff_ne]
    rintro rfl
    exact h hc
  rw [listItems, hone, List.filter_singleton, hs, cond_false]

theorem listItems_line (h : '\n' ∉ s.toList) (hs : startsItem s.toList = false) :
    listItems (s ++ "\n") = [] := by
  rw [listItems_ended, listItems_of_not_mem h hs]

end

/-- A text of whole lines, with the items that it lists. -/
structure Prints (s : String) (items : List Text) : Prop where
  endsLine : EndsLine s
  eq : listItems s = items

namespace Prints

variable {s t : String} {as bs : List Text}

theorem append (hs : Prints s as) (ht : Prints t bs) : Prints (s ++ t) (as ++ bs) where
  endsLine := hs.endsLine.append ht.endsLine
  eq := by rw [listItems_append hs.endsLine, hs.eq, ht.eq]

theorem behind (hs : Prints s []) (ht : Prints t bs) : Prints (s ++ t) bs := hs.append ht

theorem join {α : Type} {xs : List α} {f : α → String} {items : α → List Text}
    (h : ∀ x ∈ xs, Prints (f x) (items x)) :
    Prints (String.join (xs.map f)) (xs.flatMap items) := by
  induction xs with
  | nil => exact ⟨Or.inl rfl, rfl⟩
  | cons x xs ih =>
    rw [List.map_cons, String.join_cons, List.flatMap_cons]
    exact (h x (by simp)).append (ih fun y hy => h y (by simp [hy]))

theorem row (h : Visible s) : Prints ("| " ++ s ++ " |\n") [] := by
  have hrow : "| " ++ s ++ " |\n" = "| " ++ s ++ " |" ++ "\n" := by
    have hend : " |\n" = " |" ++ "\n" := rfl
    rw [hend, ← String.append_assoc]
  have hvisible : Visible ("| " ++ s ++ " |") :=
    ((Visible.of_all rfl).append h).append (.of_all rfl)
  rw [hrow]
  refine ⟨.ended _, listItems_line (hvisible.not_mem (by decide)) ?_⟩
  rw [String.toList_append, String.toList_append]
  rfl

theorem rows {α : Type} {xs : List α} {f : α → String}
    (h : ∀ x ∈ xs, ∃ s, Visible s ∧ f x = "| " ++ s ++ " |\n") :
    Prints (String.join (xs.map f)) [] := by
  have hrows : Prints (String.join (xs.map f)) (xs.flatMap fun _ => []) := .join fun x hx => by
    obtain ⟨s, hs, heq⟩ := h x hx
    exact heq ▸ row hs
  have hnil : (xs.flatMap fun _ => []) = ([] : List Text) := by simp
  rwa [hnil] at hrows

theorem heading {lead stop : String} (hlead : ∃ u, lead = "\n#" ++ u ∧ '\n' ∉ u.toList)
    (hs : '\n' ∉ s.toList) (hstop : ∃ u, stop = u ++ "\n" ∧ '\n' ∉ u.toList) :
    Prints (lead ++ s ++ stop) [] := by
  obtain ⟨u, rfl, hu⟩ := hlead
  obtain ⟨v, rfl, hv⟩ := hstop
  have hlines : "\n#" ++ u ++ s ++ (v ++ "\n") = "" ++ "\n" ++ ("#" ++ (u ++ s ++ v) ++ "\n") := by
    have hstart : "\n#" = "\n" ++ "#" := rfl
    rw [hstart]
    simp only [String.append_assoc, String.empty_append]
  rw [hlines]
  refine ⟨.append_left _ ⟨_, rfl⟩, ?_⟩
  rw [listItems_break, listItems_line]
  · rfl
  · simp [hu, hs, hv]
  · rw [String.toList_append]
    rfl

end Prints

/-! ### Items that start a text -/

section

variable {s lead : String}

theorem splitOn_eq_cons (cs : Text) :
    cs.splitOn '\n' = Text.firstLine cs :: (cs.splitOn '\n').tail := by
  induction cs with
  | nil => rfl
  | cons c cs ih =>
    rw [List.splitOn_cons_eq_if_modifyHead, Text.firstLine]
    by_cases hc : c = '\n'
    · simp [hc]
    · rw [if_neg (by simpa using hc), List.takeWhile_cons_of_pos (by simpa using hc), ih]
      rfl

/-- **A line that starts an item, and what goes on behind it.** -/
theorem listItems_lead (hlead : '\n' ∉ lead.toList) (hitem : startsItem lead.toList) (s : String) :
    listItems (lead ++ s) = (lead.toList ++ Text.firstLine s.toList) :: laterItems s := by
  have hsplit : ∀ us : Text, '\n' ∉ us → (us ++ s.toList).splitOn '\n' =
      (us ++ Text.firstLine s.toList) :: (s.toList.splitOn '\n').tail := by
    intro us hus
    induction us with
    | nil => exact splitOn_eq_cons _
    | cons u us ih =>
      obtain ⟨hu, hus⟩ : u ≠ '\n' ∧ '\n' ∉ us := by simpa [eq_comm] using hus
      rw [List.cons_append, List.splitOn_cons_eq_if_modifyHead, if_neg (by simpa using hu), ih hus]
      rfl
  have hfirst : startsItem (lead.toList ++ Text.firstLine s.toList) := by
    rw [startsItem, List.isPrefixOf_iff_prefix] at hitem ⊢
    exact hitem.trans (List.prefix_append _ _)
  rw [listItems, String.toList_append, hsplit _ hlead, List.filter_cons_of_pos hfirst]
  rfl

theorem startsItem_firstLine (cs : Text) :
    startsItem (Text.firstLine cs) ↔ ['-', ' '] <+: cs := by
  rw [startsItem, List.isPrefixOf_iff_prefix]
  constructor
  · exact fun h => h.trans (List.takeWhile_prefix _)
  · rintro ⟨rest, rfl⟩
    exact ⟨rest.takeWhile (· != '\n'), rfl⟩

/-- **No later line starts an item**, exactly if no line break has a dash and a blank behind it. -/
theorem laterItems_eq_nil_iff : laterItems s = [] ↔ ¬ ['\n', '-', ' '] <:+: s.toList := by
  unfold laterItems
  induction s.toList with
  | nil => simp
  | cons c cs ih =>
    rw [List.infix_cons_iff, List.cons_prefix_cons, List.splitOn_cons_eq_if_modifyHead, not_or]
    by_cases hc : c = '\n'
    · rw [if_pos (by simpa using hc), List.tail_cons, splitOn_eq_cons, ← ih, ← startsItem_firstLine,
        List.filter_eq_nil_iff, List.forall_mem_cons, List.filter_eq_nil_iff]
      simp [hc]
    · rw [if_neg (by simpa using hc), splitOn_eq_cons, List.modifyHead_cons, List.tail_cons, ← ih]
      simp [Ne.symm hc]

/-- A last character that is no blank makes no difference. -/
theorem laterItems_push_eq_nil_iff {c : Char} (hc : c ≠ ' ') :
    laterItems (s.push c) = [] ↔ laterItems s = [] := by
  have hlast : ¬ ['\n', '-', ' '] <:+ s.toList ++ [c] := by
    rintro ⟨us, h⟩
    have hsame := congrArg List.getLast? h
    rw [List.getLast?_append_of_ne_nil _ (by simp),
      List.getLast?_append_of_ne_nil _ (by simp)] at hsame
    exact hc (by simpa using hsame.symm)
  rw [laterItems_eq_nil_iff, laterItems_eq_nil_iff, String.toList_push, List.infix_concat_iff,
    or_iff_right hlast]

end

/-! ### Findings -/

namespace Finding

variable {f : Finding}

/-- What the item of a fix starts with. -/
def fixLead (f : Finding) : String := "- \x60" ++ f.location ++ "\x60 **" ++ f.rule ++ "**: \x60"

/-- What the item of a finding for a person starts with. -/
def manualLead (f : Finding) : String := "- \x60" ++ f.location ++ "\x60: "

theorem fixItem_eq (f : Finding) : f.fixItem = f.fixLead ++ f.fixText.push '\x60' ++ "\n" := by
  have hlast : f.fixText ++ "\x60\n" = f.fixText.push '\x60' ++ "\n" := by
    rw [String.push_eq_append, String.append_assoc]
    rfl
  rw [fixItem, String.append_assoc, hlast, ← String.append_assoc]
  rfl

theorem manualItem_eq (f : Finding) : f.manualItem = f.manualLead ++ f.rationale ++ "\n" ++
    ("  \x60" ++ withoutBackticks f.snippet ++ "\x60") ++ "\n" := by
  have hbreak : "\n  \x60" = "\n" ++ "  \x60" := rfl
  have hlast : "\x60\n" = "\x60" ++ "\n" := rfl
  rw [manualItem, hbreak, hlast]
  simp only [manualLead, String.append_assoc]

theorem endsLine_fixItem (f : Finding) : EndsLine f.fixItem := f.fixItem_eq ▸ .ended _

theorem endsLine_manualItem (f : Finding) : EndsLine f.manualItem := f.manualItem_eq ▸ .ended _

/-- **The items in the text of a fix**: the place of the finding with the first line of the fix, and
what starts an item in its later lines. -/
theorem listItems_fixItem (hplace : '\n' ∉ f.location.toList) (hrule : '\n' ∉ f.rule.toList) :
    listItems f.fixItem = (f.fixLead.toList ++ Text.firstLine (f.fixText.push '\x60').toList) ::
      laterItems (f.fixText.push '\x60') := by
  have hlead : '\n' ∉ f.fixLead.toList := by simp [fixLead, hplace, hrule]
  have hitem : startsItem f.fixLead.toList := by simp [startsItem, fixLead]
  rw [fixItem_eq, listItems_ended, listItems_lead hlead hitem]

/-- **The items in the text of a finding for a person**: its place with the first line of the
rationale, and what starts an item in its later lines. -/
theorem listItems_manualItem (hplace : '\n' ∉ f.location.toList)
    (hsnippet : '\n' ∉ f.snippet.toList) :
    listItems f.manualItem = (f.manualLead.toList ++ Text.firstLine f.rationale.toList) ::
      laterItems f.rationale := by
  have hlead : '\n' ∉ f.manualLead.toList := by simp [manualLead, hplace]
  have hitem : startsItem f.manualLead.toList := by simp [startsItem, manualLead]
  have hcode : listItems ("  \x60" ++ withoutBackticks f.snippet ++ "\x60") = [] := by
    have hsame : '\n' ∉ (withoutBackticks f.snippet).toList := by
      rw [withoutBackticks, String.toList_ofList, List.mem_map]
      rintro ⟨c, hc, heq⟩
      split_ifs at heq
      · exact absurd heq (by decide)
      · exact hsnippet (heq ▸ hc)
    refine listItems_of_not_mem (by simp [hsame]) ?_
    rw [String.toList_append, String.toList_append]
    rfl
  rw [manualItem_eq, listItems_ended, listItems_break, hcode, List.append_nil,
    listItems_lead hlead hitem]

/-- A fix that starts one item: no later line of it starts another. -/
structure FixOnce (f : Finding) : Prop where
  location : '\n' ∉ f.location.toList
  rule : '\n' ∉ f.rule.toList
  fixText : ¬ ['\n', '-', ' '] <:+: f.fixText.toList

/-- A finding for a person that starts one item. -/
structure ManualOnce (f : Finding) : Prop where
  location : '\n' ∉ f.location.toList
  snippet : '\n' ∉ f.snippet.toList
  rationale : ¬ ['\n', '-', ' '] <:+: f.rationale.toList

theorem laterItems_fixText_eq_nil_iff (f : Finding) :
    laterItems (f.fixText.push '\x60') = [] ↔ ¬ ['\n', '-', ' '] <:+: f.fixText.toList :=
  (laterItems_push_eq_nil_iff (by decide)).trans laterItems_eq_nil_iff

theorem FixOnce.length_eq_one (h : f.FixOnce) : (listItems f.fixItem).length = 1 := by
  rw [listItems_fixItem h.location h.rule, f.laterItems_fixText_eq_nil_iff.mpr h.fixText]
  rfl

theorem ManualOnce.length_eq_one (h : f.ManualOnce) : (listItems f.manualItem).length = 1 := by
  rw [listItems_manualItem h.location h.snippet, laterItems_eq_nil_iff.mpr h.rationale]
  rfl

end Finding

/-- **The snippet of a finding that a rule made is on one line.** -/
theorem Rule.not_mem_snippet_finding (r : Rule) (file : Source) (site : Site) :
    '\n' ∉ (r.finding file site).snippet.toList := by
  intro hmem
  have h := String.toList_ofList ▸ hmem
  rcases Text.mem_truncate h with h | h
  · rcases Text.mem_collapse h with h | h <;> exact absurd h (by decide)
  · exact absurd h (by decide)

/-! ### Tables -/

theorem RunMode.visible_title (m : RunMode) : Visible m.title := by
  cases m <;> exact .of_all rfl

theorem RunMode.visible_fixHeading (m : RunMode) : Visible m.fixHeading := by
  cases m <;> exact .of_all rfl

/-- **The table of totals lists no items.** -/
theorem Report.prints_totalsTable (r : Report) : Prints r.totalsTable [] := by
  refine .behind ⟨Or.inr ⟨"| Metric | Value |\n|---|---|", rfl⟩, rfl⟩ (.rows fun cells hcells => ?_)
  refine ⟨cells.1 ++ " | " ++ cells.2, ?_, by simp only [String.append_assoc]⟩
  have hcell : ∀ {a b : String}, Visible a → Visible b → Visible (a ++ " | " ++ b) :=
    fun ha hb => (ha.append (.of_all rfl)).append hb
  have hpercent : Visible (percent r.score) := (visible_fixed _ _).append (.of_all rfl)
  simp only [List.mem_cons, List.not_mem_nil, or_false] at hcells
  rcases hcells with rfl | rfl | rfl | rfl | rfl | rfl | rfl | rfl | rfl
  · exact hcell (.of_all (s := "Mode") rfl) r.mode.visible_title
  · exact hcell (.of_all (s := "Files scanned") rfl) (visible_toString _)
  · exact hcell (.of_all (s := "Files modified") rfl) (visible_toString _)
  · exact hcell (.of_all (s := "Total matches") rfl) (visible_toString _)
  · exact hcell r.mode.visible_fixHeading (visible_toString _)
  · exact hcell (.of_all (s := "Manual review") rfl) (visible_toString _)
  · exact hcell (.of_all (s := "Fix failures") rfl) (visible_toString _)
  · exact hcell (.of_all (s := "Open violations") rfl) (visible_toString _)
  · exact hcell (.of_all (s := "Compliance score") rfl) hpercent

theorem Report.prints_breakdownTable (r : Report) : Prints r.breakdownTable [] := by
  unfold Report.breakdownTable
  split_ifs
  · exact ⟨Or.inl rfl, rfl⟩
  · refine .behind ⟨.append_left "\n## Breakdown\n\n| Category | Severity | Confidence | Count |\n"
      ⟨"|---|---|---|---|", rfl⟩, rfl⟩ (.rows fun b _ => ?_)
    refine ⟨b.category.name ++ " | " ++ b.severity.name ++ " | " ++ b.confidence.name ++ " | " ++
      toString b.count, ?_, by simp only [String.append_assoc]⟩
    have hsep : Visible " | " := .of_all rfl
    exact (((((b.category.visible_name.append hsep).append b.severity.visible_name).append
      hsep).append b.confidence.visible_name).append hsep).append (visible_toString b.count)

end DesignLint
