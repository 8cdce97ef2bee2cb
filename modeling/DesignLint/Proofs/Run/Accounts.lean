import DesignLint.Proofs.FileTree.Alike
import DesignLint.Proofs.Report.Aggregate
import DesignLint.Proofs.Walk.Candidates
import DesignLint.Run.Execute

/-!
# What a run accounts for

A visit to a candidate writes at most the file that the candidate leads to (`visit_fst`), and it
comes to the same in two trees that are alike and hold the same file there (`visit_congr`). No two
candidates lead to the same file, so a run is what the visits to its candidates come to, each made
to the tree that the run starts from, together with all that they write (`visitAll_eq`). From this
follows what a run accounts for (`execute_accounts`): each candidate is scanned or left out, the
files that the report calls written hold the fixed text in place of their own one, and nothing else
has changed.
-/

namespace DesignLint

/-- A text as a file holds it. -/
def Text.encode (cs : Text) : ByteArray := (String.ofList cs).toUTF8

theorem Text.encode_of_fromUTF8? {content : ByteArray} {s : String}
    (h : String.fromUTF8? content = some s) : Text.encode s.toList = content := by
  rw [Text.encode, String.ofList_toList]
  unfold String.fromUTF8? at h
  split_ifs at h
  cases h
  rfl

theorem Text.encode_inj {cs ds : Text} : cs.encode = ds.encode ↔ cs = ds :=
  String.toByteArray_inj.trans String.ofList_inj

theorem Review.wantsWrite_iff {r : Review} {mode : RunMode} :
    r.wantsWrite mode = true ↔ mode = .fix ∧ r.text ≠ r.source.text := by
  rw [wantsWrite, Bool.and_eq_true, changed, bne_iff_ne]
  cases mode <;> simp [RunMode.writes]

/-- What becomes of a file that is written at a location. -/
def FileTree.writeOutcome (t : FileTree) (l : Location) : WriteOutcome :=
  match t.refusals.lookup l with
  | none => .written
  | some e => .failed (RunError.io l.path e).message

theorem FileTree.writeFixed_eq {t : FileTree} {path : String} {l : Location}
    (hl : t.resolve path = .ok l) (text : Text) : t.writeFixed path text =
      (if (t.refusals.lookup l).isNone then t.put l (.file text.encode) else t,
        t.writeOutcome l) := by
  unfold writeFixed writeOutcome replace Text.encode
  simp only [hl]
  cases t.refusals.lookup l with
  | none => rfl
  | some e => rfl

namespace Selection

/-- Why a candidate is left out, if it cannot be read. -/
def loadSkip? (s : Selection) (t : FileTree) (path : String) : Option Skipped :=
  match s.load t path with
  | .error e => some e
  | .ok _ => none

/-- What a visit to a candidate writes, and where. -/
def write? (s : Selection) (g : Registry) (mode : RunMode) (t : FileTree) (path : String) :
    Option (Location × ByteArray) :=
  match s.load t path, t.resolve path with
  | .ok file, .ok l =>
    if (review g file).wantsWrite mode && (t.refusals.lookup l).isNone then
      some (l, (review g file).text.encode)
    else none
  | _, _ => none

/-- The result for a candidate, if it can be read. -/
def result? (s : Selection) (g : Registry) (mode : RunMode) (t : FileTree) (path : String) :
    Option FileResult :=
  (s.visit g mode t path).2.result?

/-- The candidates whose files a run calls written. -/
def written (s : Selection) (g : Registry) (mode : RunMode) (t : FileTree) : List String :=
  (s.candidates t).filter fun p => (s.result? g mode t p).any (·.written)

variable {s : Selection} {g : Registry} {mode : RunMode} {t u : FileTree} {path : String}

/-! ### One visit -/

/-- A candidate that can be read leads to a file that holds its text. -/
theorem exists_of_load {file : Source} (h : s.load t path = .ok file) :
    ∃ l, t.resolve path = .ok l ∧ t.node? l = some (.file file.text.encode) := by
  unfold load FileTree.stat at h
  cases hr : t.resolve path with
  | error e =>
    rw [hr] at h
    cases h
  | ok l =>
    rw [hr] at h
    cases hl : t.node? l with
    | none =>
      simp only [bind, Except.bind, FileTree.nodeAt, hl] at h
      cases h
    | some n =>
      simp only [bind, Except.bind, FileTree.nodeAt, hl] at h
      cases n with
      | directory => cases h
      | link target => cases h
      | file content =>
        simp only [FileTree.contentOf] at h
        split_ifs at h
        split at h
        · next text htext =>
          cases h
          rw [Text.encode_of_fromUTF8? htext]
          exact ⟨l, rfl, hl⟩
        · cases h

theorem visit_of_error (g : Registry) (mode : RunMode) {e : Skipped}
    (h : s.load t path = .error e) :
    s.visit g mode t path = (t, .skipped e) ∧ s.write? g mode t path = none := by
  unfold visit write?
  rw [h]
  exact ⟨rfl, rfl⟩

theorem visit_of_ok {file : Source} {l : Location} (h : s.load t path = .ok file)
    (hl : t.resolve path = .ok l) :
    s.visit g mode t path = (t.writeFiles (s.write? g mode t path).toList,
      .done ((review g file).result mode
          (if (review g file).wantsWrite mode then t.writeOutcome l else .written))
        (((review g file).preview? mode).map (Preview.mk file.path file.text))) := by
  unfold visit write?
  rw [h, hl]
  simp only [visitSource]
  cases hw : (review g file).wantsWrite mode with
  | false => rfl
  | true =>
    rw [if_pos rfl, if_pos rfl, FileTree.writeFixed_eq hl, Bool.true_and]
    split_ifs
    · rfl
    · rfl

/-- **A visit writes at most the file that its candidate leads to.** -/
theorem visit_fst : (s.visit g mode t path).1 = t.writeFiles (s.write? g mode t path).toList := by
  cases h : s.load t path with
  | error e =>
    obtain ⟨hvisit, hwrite⟩ := visit_of_error g mode h
    rw [hvisit, hwrite]
    rfl
  | ok file =>
    obtain ⟨l, hl, -⟩ := exists_of_load h
    rw [visit_of_ok h hl]

theorem result?_of_ok {file : Source} {l : Location} (h : s.load t path = .ok file)
    (hl : t.resolve path = .ok l) : s.result? g mode t path = some ((review g file).result mode
      (if (review g file).wantsWrite mode then t.writeOutcome l else .written)) := by
  rw [result?, visit_of_ok h hl, Visit.result?]

theorem write?_eq_some {w : Location × ByteArray} : s.write? g mode t path = some w ↔
    ∃ file, s.load t path = .ok file ∧ t.resolve path = .ok w.1 ∧
      (review g file).wantsWrite mode = true ∧ t.refusals.lookup w.1 = none ∧
      w.2 = (review g file).text.encode := by
  unfold write?
  constructor
  · intro h
    split at h
    · next file l hfile hl =>
      split_ifs at h with hw
      cases h
      rw [Bool.and_eq_true, Option.isNone_iff_eq_none] at hw
      exact ⟨file, hfile, hl, hw.1, hw.2, rfl⟩
    · cases h
  · rintro ⟨file, hfile, hl, hwants, hnone, hw⟩
    simp [hfile, hl, hwants, hnone, ← hw]

theorem any_written_result? :
    (s.result? g mode t path).any (·.written) = (s.write? g mode t path).isSome := by
  cases h : s.load t path with
  | error e =>
    obtain ⟨hvisit, hwrite⟩ := visit_of_error g mode h
    rw [result?, hvisit, hwrite]
    rfl
  | ok file =>
    obtain ⟨l, hl, -⟩ := exists_of_load h
    rw [result?_of_ok h hl, Option.any_some, Review.result, write?]
    simp only [h, hl, FileTree.writeOutcome]
    cases hw : (review g file).wantsWrite mode with
    | false => rfl
    | true => cases t.refusals.lookup l <;> rfl

/-- A file that is written was there, and holds another text than it did. -/
theorem exists_file_of_write? {w : Location × ByteArray} (h : s.write? g mode t path = some w) :
    t.resolve path = .ok w.1 ∧ ∃ file, s.load t path = .ok file ∧
      s.result? g mode t path = some ((review g file).result .fix .written) ∧
      t.node? w.1 = some (.file file.text.encode) ∧
      w.2 = (rewrite g file.text (g.triaged file)).text.encode ∧
      (rewrite g file.text (g.triaged file)).text ≠ file.text := by
  obtain ⟨file, hfile, hl, hwants, hnone, hw⟩ := write?_eq_some.mp h
  obtain ⟨l, hl', hnode⟩ := exists_of_load hfile
  obtain rfl : w.1 = l := by simpa [hl] using hl'
  obtain ⟨rfl, hne⟩ := Review.wantsWrite_iff.mp hwants
  refine ⟨hl, file, hfile, ?_, hnode, hw, hne⟩
  rw [result?_of_ok hfile hl, if_pos hwants, FileTree.writeOutcome, hnone]

/-- A candidate reads the same in a tree that is alike and holds the same file where it leads to. -/
theorem load_congr (s : Selection) (h : t.Alike u)
    (hnode : ∀ l, t.resolve path = .ok l → u.node? l = t.node? l) :
    s.load u path = s.load t path := by
  unfold load
  rw [h.stat_eq hnode]

/-- **A visit comes to the same in a tree that is alike and holds the same file where the candidate
leads to.** -/
theorem visit_congr (s : Selection) (g : Registry) (mode : RunMode) (h : t.Alike u)
    (hnode : ∀ l, t.resolve path = .ok l → u.node? l = t.node? l) :
    (s.visit g mode u path).2 = (s.visit g mode t path).2 ∧
      s.write? g mode u path = s.write? g mode t path := by
  have hload := load_congr s h hnode
  have hwrite : s.write? g mode u path = s.write? g mode t path := by
    unfold write?
    rw [hload, h.resolve_eq, h.refusals]
  refine ⟨?_, hwrite⟩
  cases hfile : s.load t path with
  | error e => rw [(visit_of_error g mode hfile).1, (visit_of_error g mode (hload.trans hfile)).1]
  | ok file =>
    obtain ⟨l, hl, -⟩ := exists_of_load hfile
    rw [visit_of_ok hfile hl, visit_of_ok (hload.trans hfile) ((h.resolve_eq path).trans hl)]
    unfold FileTree.writeOutcome
    rw [h.refusals]

/-! ### All visits -/

theorem exists_file_of_mem_writes {paths : List String} {w : Location × ByteArray}
    (hw : w ∈ paths.filterMap (s.write? g mode t)) :
    ∃ p ∈ paths, t.resolve p = .ok w.1 ∧ ∃ content, t.node? w.1 = some (.file content) := by
  obtain ⟨p, hp, hw⟩ := List.mem_filterMap.mp hw
  obtain ⟨hl, file, -, -, hnode, -⟩ := exists_file_of_write? hw
  exact ⟨p, hp, hl, _, hnode⟩

theorem nodup_writes {paths : List String}
    (hpaths : paths.Pairwise fun p q => ∀ l, t.resolve p = .ok l → t.resolve q ≠ .ok l) :
    ((paths.filterMap (s.write? g mode t)).map Prod.fst).Nodup := by
  refine List.pairwise_map.mpr (List.pairwise_filterMap.mpr (hpaths.imp ?_))
  intro p q hne w hw v hv heq
  refine hne w.1 (exists_file_of_write? hw).1 ?_
  rw [heq]
  exact (exists_file_of_write? hv).1

/-- **Visits to candidates that lead to different files come to what each comes to alone**, and
together they write what each writes alone. -/
theorem visitAll_eq (s : Selection) (g : Registry) (mode : RunMode) {paths : List String}
    (hpaths : paths.Pairwise fun p q => ∀ l, t.resolve p = .ok l → t.resolve q ≠ .ok l)
    (h : t.Alike u)
    (hnode : ∀ p ∈ paths, ∀ l, t.resolve p = .ok l → u.node? l = t.node? l) :
    s.visitAll g mode u paths = (u.writeFiles (paths.filterMap (s.write? g mode t)),
      paths.map fun p => (s.visit g mode t p).2) := by
  induction paths generalizing u with
  | nil => rfl
  | cons p ps ih =>
    rw [List.pairwise_cons] at hpaths
    obtain ⟨hvisit, hwrite⟩ := visit_congr s g mode h (hnode p (by simp))
    have hfst : (s.visit g mode u p).1 = u.writeFiles (s.write? g mode t p).toList := by
      rw [visit_fst, hwrite]
    have hfile : ∀ f ∈ (s.write? g mode t p).toList,
        ∃ content, u.node? f.1 = some (.file content) := fun f hf => by
      obtain ⟨-, file, -, -, hf, -⟩ := exists_file_of_write? (Option.mem_toList.mp hf)
      exact h.exists_file hf
    -- the write of `p` is not seen by the others, which lead elsewhere
    have hrest : ∀ q ∈ ps, ∀ l, t.resolve q = .ok l →
        (u.writeFiles (s.write? g mode t p).toList).node? l = t.node? l := by
      intro q hq l hl
      have hnodup : ((s.write? g mode t p).toList.map Prod.fst).Nodup := by
        cases s.write? g mode t p <;> simp
      rw [(FileTree.node?_writeFiles hfile hnodup).2 l fun hmem => ?_]
      · exact hnode q (by simp [hq]) l hl
      · obtain ⟨w, hw, rfl⟩ := List.mem_map.mp hmem
        exact hpaths.1 q hq _ (exists_file_of_write? (Option.mem_toList.mp hw)).1 hl
    have hall := ih hpaths.2 (h.trans (FileTree.alike_writeFiles hfile)) hrest
    rw [visitAll]
    simp only [hfst, hvisit, hall, List.map_cons, Prod.mk.injEq, and_true]
    rw [List.filterMap_cons]
    cases s.write? g mode t p with
    | none => rfl
    | some w => rfl

/-! ### The run -/

/-- What a run accounts for, given the trees that it starts from and leaves behind, and its report:
each candidate is scanned or left out; what is left out is listed, and so are the results that say
something; no file changes unless fixes are written; those that the results call written change to
the fixed text of what they held; and nothing else changes. -/
structure Accounts (s : Selection) (g : Registry) (mode : RunMode) (t after : FileTree)
    (r : Report) : Prop where
  scanned : r.filesScanned = (s.candidates t).countP fun p => (s.load t p).isOk
  total : r.filesScanned + ((s.candidates t).filterMap (s.loadSkip? t)).length =
    (s.candidates t).length
  skipped : r.skipped.Perm (s.walkSkips t ++ (s.candidates t).filterMap (s.loadSkip? t))
  files : r.files.Perm (((s.candidates t).filterMap (s.result? g mode t)).filter
    fun f => !f.findings.isEmpty || f.written)
  idle : mode ≠ .fix → after = t
  rewritten : ∀ p ∈ s.written g mode t, ∃ file l, s.load t p = .ok file ∧ t.resolve p = .ok l ∧
    s.result? g mode t p = some ((review g file).result .fix .written) ∧
    t.node? l = some (.file file.text.encode) ∧
    after.node? l = some (.file (rewrite g file.text (g.triaged file)).text.encode)
  changed : ∃ ls : List Location, ls.Nodup ∧ r.filesModified = ls.length ∧
    (∀ l, l ∈ ls ↔ after.node? l ≠ t.node? l) ∧
    ∀ l, l ∈ ls ↔ ∃ p ∈ s.written g mode t, t.resolve p = .ok l
  links : ∀ l target, after.node? l = some (.link target) ↔ t.node? l = some (.link target)

theorem mem_written {p : String} : p ∈ s.written g mode t ↔
    p ∈ s.candidates t ∧ ∃ w, s.write? g mode t p = some w := by
  rw [written, List.mem_filter, any_written_result?, Option.isSome_iff_exists]

theorem write?_eq_none (hmode : mode ≠ .fix) : s.write? g mode t path = none := by
  rw [Option.eq_none_iff_forall_ne_some]
  intro w hw
  obtain ⟨file, -, -, hwants, -⟩ := write?_eq_some.mp hw
  exact hmode (Review.wantsWrite_iff.mp hwants).1

/-- Files are written where candidates that are called written lead to. -/
theorem mem_map_writes {l : Location} :
    l ∈ ((s.candidates t).filterMap (s.write? g mode t)).map Prod.fst ↔
      ∃ p ∈ s.written g mode t, t.resolve p = .ok l := by
  constructor
  · intro hl
    obtain ⟨w, hw, rfl⟩ := List.mem_map.mp hl
    obtain ⟨p, hp, hwrite⟩ := List.mem_filterMap.mp hw
    exact ⟨p, mem_written.mpr ⟨hp, w, hwrite⟩, (exists_file_of_write? hwrite).1⟩
  · rintro ⟨p, hp, hl⟩
    obtain ⟨hp, w, hw⟩ := mem_written.mp hp
    obtain rfl : w.1 = l := by simpa [(exists_file_of_write? hw).1] using hl
    exact List.mem_map.mpr ⟨w, List.mem_filterMap.mpr ⟨p, hp, hw⟩, rfl⟩

theorem skipped?_visit : (s.visit g mode t path).2.skipped? = s.loadSkip? t path := by
  unfold loadSkip?
  cases h : s.load t path with
  | error e =>
    rw [(visit_of_error g mode h).1]
    rfl
  | ok file =>
    obtain ⟨l, hl, -⟩ := exists_of_load h
    rw [visit_of_ok h hl]
    rfl

theorem isSome_result? : (s.result? g mode t path).isSome = (s.load t path).isOk := by
  unfold result?
  cases h : s.load t path with
  | error e =>
    rw [(visit_of_error g mode h).1]
    rfl
  | ok file =>
    obtain ⟨l, hl, -⟩ := exists_of_load h
    rw [visit_of_ok h hl]
    rfl

theorem countP_isOk_add_length (paths : List String) :
    (paths.countP fun p => (s.load t p).isOk) + (paths.filterMap (s.loadSkip? t)).length =
      paths.length := by
  rw [List.length_filterMap_eq_countP, List.length_eq_countP_add_countP fun p => (s.load t p).isOk]
  congr 2
  funext p
  rw [loadSkip?]
  cases s.load t p <;> rfl

theorem countP_written_result? (paths : List String) :
    (paths.filterMap (s.result? g mode t)).countP (·.written) =
      (paths.filterMap (s.write? g mode t)).length := by
  rw [List.countP_filterMap, List.length_filterMap_eq_countP]
  congr 1
  funext p
  rw [← any_written_result?]
  cases s.result? g mode t p <;> rfl

theorem report_of_ofVisits {walkSkips : List Skipped} {visits : List Visit} {out : RunOutput}
    (h : RunOutput.ofVisits mode walkSkips visits = .ok out) :
    out.report.filesScanned = (visits.filterMap Visit.result?).length ∧
      out.report.filesModified = (visits.filterMap Visit.result?).countP (·.written) ∧
      out.report.skipped.Perm (walkSkips ++ visits.filterMap Visit.skipped?) ∧
      out.report.files.Perm ((visits.filterMap Visit.result?).filter
        fun f => !f.findings.isEmpty || f.written) := by
  unfold RunOutput.ofVisits at h
  simp only at h
  split at h
  · next report hreport =>
    cases h
    rw [Report.eq_tally_of_aggregate hreport]
    have hresults := List.mergeSort_perm (visits.filterMap Visit.result?) fun a b => a.path ≤ b.path
    exact ⟨rfl, hresults.countP_eq _, List.mergeSort_perm _ _, hresults.filter _⟩
  · cases h

/-- **What a run accounts for.** -/
theorem accounts_of_run {after : FileTree} {out : RunOutput}
    (h : s.run g mode t = (after, .ok out)) : s.Accounts g mode t after out.report := by
  have hpaths := s.pairwise_candidates t
  have hvisits := visitAll_eq s g mode hpaths (.refl t)
    (fun _ _ _ _ => rfl)
  rw [run, hvisits] at h
  simp only [Prod.mk.injEq] at h
  obtain ⟨rfl, hout⟩ := h
  obtain ⟨hscanned, hmodified, hskipped, hfiles⟩ := report_of_ofVisits hout
  have hresults : ((s.candidates t).map fun p => (s.visit g mode t p).2).filterMap Visit.result? =
      (s.candidates t).filterMap (s.result? g mode t) := List.filterMap_map
  have hskips : ((s.candidates t).map fun p => (s.visit g mode t p).2).filterMap Visit.skipped? =
      (s.candidates t).filterMap (s.loadSkip? t) := by
    rw [List.filterMap_map]
    exact List.filterMap_congr fun p _ => skipped?_visit
  rw [hresults] at hscanned hmodified hfiles
  rw [hskips] at hskipped
  have hfile : ∀ w ∈ (s.candidates t).filterMap (s.write? g mode t),
      ∃ content, t.node? w.1 = some (.file content) := fun w hw =>
    (exists_file_of_mem_writes hw).elim fun _ h => h.2.2
  obtain ⟨hwritten, hstay⟩ := FileTree.node?_writeFiles hfile (nodup_writes hpaths)
  have hcount : out.report.filesScanned = (s.candidates t).countP fun p => (s.load t p).isOk := by
    rw [hscanned, List.length_filterMap_eq_countP]
    simp only [isSome_result?]
  refine ⟨hcount, hcount ▸ countP_isOk_add_length _, hskipped, hfiles, fun hmode => ?_,
    fun p hp => ?_, ⟨((s.candidates t).filterMap (s.write? g mode t)).map Prod.fst,
      nodup_writes hpaths, ?_, fun l => ⟨fun hl => ?_, fun hl => ?_⟩, fun l => mem_map_writes⟩,
    fun l target => (FileTree.alike_writeFiles hfile).node?_eq_link⟩
  · have hnone : (s.candidates t).filterMap (s.write? g mode t) = [] :=
      List.filterMap_eq_nil_iff.mpr fun p _ => write?_eq_none hmode
    rw [hnone]
    rfl
  · obtain ⟨hp, w, hw⟩ := mem_written.mp hp
    obtain ⟨hl, file, hload, hresult, hnode, htext, -⟩ := exists_file_of_write? hw
    refine ⟨file, w.1, hload, hl, hresult, hnode, ?_⟩
    rw [hwritten w (List.mem_filterMap.mpr ⟨p, hp, hw⟩), htext]
  · rw [hmodified, countP_written_result?, List.length_map]
  · obtain ⟨w, hw, rfl⟩ := List.mem_map.mp hl
    obtain ⟨p, hp, hwrite⟩ := List.mem_filterMap.mp hw
    obtain ⟨-, file, -, -, hnode, htext, hne⟩ := exists_file_of_write? hwrite
    rw [hwritten w hw, hnode, htext]
    simpa [Text.encode_inj] using hne
  · by_contra hnot
    exact hl (hstay l hnot)

end Selection

end DesignLint
